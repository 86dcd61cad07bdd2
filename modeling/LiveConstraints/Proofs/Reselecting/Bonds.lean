import LiveConstraints.Proofs.Incidence.Moving
import LiveConstraints.Proofs.Reselecting.Nesting
/-!
# What bindings are there for

A variable is bound to the solvers of its constraints. A binding to a solver that no constraint of the
variable uses is *loose* (`Engine.Loose`); it keeps a solver's variable alive for nothing. Few operations
take away what a binding is there for: some constraints leave variables, are dropped or change their
solver, and everything else stays (`Engine.Severs`). What a constraint leaves is swept afterwards
(`Engine.Sweeps`), so abandoning one leaves no binding loose that was not loose before
(`Step.tidies_abandon`), if the tables were tied.
-/

namespace LiveConstraints

open Engine

variable {α : Type} {e e' e'' : Engine} {x y : VarId} {id source target : ConstraintId} {s : SolverId}
  {S S' : Set ConstraintId} {xs ys : Set VarId} {b : SolverId × Option ExtVar}

namespace Engine

/-- A binding of a live variable belongs to a solver that no constraint of the variable uses. -/
def Loose (e : Engine) (y : VarId) (b : SolverId × Option ExtVar) : Prop :=
  ∃ v, e.vars.get? y = some v ∧ b ∈ v.bindings.entries ∧
    ∀ id ∈ v.constraints.members, ∀ c, e.constraints.get? id = some c → c.solver ≠ b.1

/-- No binding is loose that was not loose before. -/
def Tightens (e e' : Engine) : Prop := ∀ y b, e'.Loose y b → e.Loose y b

/-- Variables come without bindings or lose bindings, and keep their memberships up to those in some
constraints; the other constraints stay, and stay with their solvers. -/
structure Severs (S : Set ConstraintId) (e e' : Engine) : Prop where
  vars : ∀ y w, e'.vars.get? y = some w → w.bindings.entries = [] ∨
    ∃ v, e.vars.get? y = some v ∧ w.bindings.entries ⊆ v.bindings.entries ∧
      ∀ i ∈ v.constraints.members, i ∈ S ∨ i ∈ w.constraints.members
  solver : ∀ i c, e.constraints.get? i = some c →
    i ∈ S ∨ ∃ c', e'.constraints.get? i = some c' ∧ c'.solver = c.solver

instance : IsPreorder Engine Tightens where
  refl _ _ _ h := h
  trans _ _ _ h h' y b hloose := h y b (h' y b hloose)

theorem severs_aside (vars : e'.vars = e.vars) (constraints : e'.constraints = e.constraints) :
    Severs S e e' := by
  refine ⟨fun y w hw ↦ .inr ⟨w, vars ▸ hw, fun _ h ↦ h, fun _ h ↦ .inr h⟩, fun i c hc ↦ ?_⟩
  exact .inr ⟨c, by rw [constraints, hc], rfl⟩

instance : IsPreorder Engine (Severs S) where
  refl _ := severs_aside rfl rfl
  trans e e' e'' h h' := by
    refine ⟨fun y w hw ↦ ?_, fun i c hc ↦ ?_⟩
    · obtain hempty | ⟨v', hv', hbindings', hmembers'⟩ := h'.vars y w hw
      · exact .inl hempty
      obtain hempty | ⟨v, hv, hbindings, hmembers⟩ := h.vars y v' hv'
      · exact .inl (List.eq_nil_of_subset_nil (hempty ▸ hbindings'))
      · refine .inr ⟨v, hv, fun _ hb ↦ hbindings (hbindings' hb), fun i hi ↦ ?_⟩
        exact (hmembers i hi).elim .inl (hmembers' i)
    · obtain hi | ⟨c', hc', hsolver⟩ := h.solver i c hc
      · exact .inl hi
      obtain hi | ⟨c'', hc'', hsolver'⟩ := h'.solver i c' hc'
      · exact .inl hi
      · exact .inr ⟨c'', hc'', hsolver'.trans hsolver⟩

theorem Severs.mono (h : Severs S e e') (hS : S ⊆ S') : Severs S' e e' := by
  refine ⟨fun y w hw ↦ (h.vars y w hw).imp_right ?_, fun i c hc ↦ (h.solver i c hc).imp_left ?_⟩
  · rintro ⟨v, hv, hbindings, hmembers⟩
    exact ⟨v, hv, hbindings, fun i hi ↦ (hmembers i hi).imp_left fun h ↦ hS h⟩
  · exact fun h ↦ hS h

/-- What is loose was loose before, unless it was there for a constraint that the variable left. -/
theorem Severs.loose (h : Severs S e e') (hloose : e'.Loose y b)
    (hleft : ∀ v, e.vars.get? y = some v → ∀ i ∈ v.constraints.members, i ∈ S →
      ∀ c, e.constraints.get? i = some c → c.solver ≠ b.1) : e.Loose y b := by
  obtain ⟨w, hw, hb, hunused⟩ := hloose
  obtain hempty | ⟨v, hv, hbindings, hmembers⟩ := h.vars y w hw
  · rw [hempty] at hb
    cases hb
  refine ⟨v, hv, hbindings hb, fun i hi c hc ↦ ?_⟩
  rcases hmembers i hi with hiS | hmem
  · exact hleft v hv i hi hiS c hc
  rcases h.solver i c hc with hiS | ⟨c', hc', hsolver⟩
  · exact hleft v hv i hi hiS c hc
  · rw [← hsolver]
    exact hunused i hmem c' hc'

theorem Severs.tightens (h : Severs ∅ e e') : Tightens e e' :=
  fun _ _ hloose ↦ h.loose hloose fun _ _ _ _ hi ↦ absurd hi (Set.notMem_empty _)

/-- What a variable that was in none of the constraints has loose was loose before. -/
theorem Severs.loose_of_tied (h : Severs S e e') (ht : e.Tied) (hloose : e'.Loose y b)
    (hy : ∀ i ∈ S, ¬ e.Spans y i) : e.Loose y b :=
  h.loose hloose fun v hv i hi hiS ↦ absurd ((ht.linked.lists y v i hv).1 hi) (hy i hiS)

theorem severs_variable {f : Variable → Variable}
    (bindings : ∀ v, (f v).bindings.entries ⊆ v.bindings.entries)
    (members : ∀ v, ∀ i ∈ v.constraints.members, i ∈ S ∨ i ∈ (f v).constraints.members) :
    Severs S e { e with vars := e.vars.modify x f } := by
  refine ⟨fun y w hw ↦ ?_, fun i c hc ↦ .inr ⟨c, hc, rfl⟩⟩
  obtain ⟨v, hv, ⟨-, rfl⟩ | ⟨-, rfl⟩⟩ := exists_of_modify hw
  · exact .inr ⟨v, hv, bindings v, members v⟩
  · exact .inr ⟨w, hv, fun _ h ↦ h, fun _ h ↦ .inr h⟩

/-- A variable changes, but neither in its bindings nor in its memberships. -/
theorem severs_retouch {f : Variable → Variable} (bindings : ∀ v, (f v).bindings = v.bindings)
    (constraints : ∀ v, (f v).constraints = v.constraints) :
    Severs S e { e with vars := e.vars.modify x f } :=
  severs_variable (fun v ↦ by rw [bindings]; exact fun _ h ↦ h) fun v i hi ↦ by
    rw [constraints]
    exact .inr hi

theorem severs_constraint {f : Constraint → Constraint}
    (solver : id ∈ S ∨ ∀ c, (f c).solver = c.solver) :
    Severs S e { e with constraints := e.constraints.modify id f } := by
  refine ⟨fun y w hw ↦ .inr ⟨w, hw, fun _ h ↦ h, fun _ h ↦ .inr h⟩, fun i c hc ↦ ?_⟩
  by_cases hi : i = id
  · subst hi
    refine solver.imp_right fun solver ↦ ⟨_, get?_modify_constraint hc, ?_⟩
    rw [if_pos rfl, solver]
  · refine .inr ⟨_, get?_modify_constraint hc, ?_⟩
    rw [if_neg hi]

theorem severs_release (x : VarId) : Severs S e { e with vars := e.vars.remove x } := by
  refine ⟨fun y w hw ↦ .inr ⟨w, (Arena.of_get?_remove hw).2, fun _ h ↦ h, fun _ h ↦ .inr h⟩,
    fun i c hc ↦ .inr ⟨c, hc, rfl⟩⟩

theorem severs_allocate {v : Variable} (bindings : v.bindings.entries = []) :
    Severs S e { e with vars := e.vars.insert v } := by
  refine ⟨fun y w hw ↦ ?_, fun i c hc ↦ .inr ⟨c, hc, rfl⟩⟩
  obtain ⟨-, rfl⟩ | ⟨-, hw⟩ := Arena.of_get?_insert hw
  · exact .inl bindings
  · exact .inr ⟨w, hw, fun _ h ↦ h, fun _ h ↦ .inr h⟩

theorem severs_introduce (c : Constraint) :
    Severs S e { e with constraints := e.constraints.insert c } := by
  exact ⟨fun y w hw ↦ .inr ⟨w, hw, fun _ h ↦ h, fun _ h ↦ .inr h⟩,
    fun _ c' hc' ↦ .inr ⟨c', Arena.get?_insert_of_get? hc', rfl⟩⟩

theorem severs_retire (hid : id ∈ S) :
    Severs S e { e with constraints := e.constraints.remove id } := by
  refine ⟨fun y w hw ↦ .inr ⟨w, hw, fun _ h ↦ h, fun _ h ↦ .inr h⟩, fun i c hc ↦ ?_⟩
  by_cases hi : i = id
  · exact .inl (hi ▸ hid)
  · refine .inr ⟨c, ?_, rfl⟩
    dsimp only
    rw [Arena.get?_remove, if_neg hi, hc]

theorem Recalls.severs (h : Recalls e e') : Severs S e e' := by
  refine ⟨fun y w hw ↦ ?_, fun i c hc ↦ .inr ⟨c, by rw [h.constraints, hc], rfl⟩⟩
  obtain ⟨v, hv, heq⟩ := h.exists_before hw
  have hbindings : w.bindings = v.bindings := congrArg (·.bindings) heq
  have hmembers : w.constraints = v.constraints := congrArg (·.constraints) heq
  rw [hbindings, hmembers]
  exact .inr ⟨v, hv, fun _ h ↦ h, fun _ h ↦ .inr h⟩

end Engine

/-! ### Routine operations -/

namespace Step

theorem severs_modifyAll {l : List α} (t : α → SolverId) (f : α → Solver → Solver) :
    Within (Severs S) e (forIn l PUnit.unit fun a _ ↦ do
      modifySolver (t a) (f a)
      pure (.yield PUnit.unit)) :=
  .forIn fun _ _ _ _ _ ↦ Within.modify_bind (severs_aside rfl rfl) (.pure _)

theorem severs_disable (id : ConstraintId) : Within (Severs S) e (disable id) := by
  refine .get_bind ?_
  split
  · exact .pure _
  · split
    · refine (severs_modifyAll _ _).bind fun _ _ _ _ ↦ ?_
      refine Within.modify_bind (severs_constraint (.inr ?_)) (severs_aside rfl rfl)
      exact fun _ ↦ rfl
    · exact .pure _

end Step

instance : Reads (Severs S) where
  defining x := (Step.recalls_defining x).mono fun _ ↦ Recalls.severs

namespace Step

theorem severs_pinDownstream (x : VarId) : Within (Severs S) e (pinDownstream x) :=
  within_pinDownstream (fun _ _ _ ↦ severs_aside rfl rfl)
    fun _ ↦ severs_retouch (fun _ ↦ rfl) fun _ ↦ rfl

theorem severs_unpinDownstream (x : VarId) : Within (Severs S) e (unpinDownstream x) :=
  within_unpinDownstream (fun _ _ _ ↦ severs_aside rfl rfl)
    fun _ ↦ severs_retouch (fun _ ↦ rfl) fun _ ↦ rfl

end Step

namespace Engine

instance : Switching (Severs S) where
  beside _ _ vars constraints _ _ _ _ := severs_aside vars constraints
  current h := ⟨h.vars, h.solver⟩
  annotate _ _ core := severs_constraint (.inr fun c ↦ (core c).solver)
  operate _ _ _ := severs_aside rfl rfl
  defer _ := severs_aside rfl rfl
  recordHook _ _ _ := severs_aside rfl rfl
  disable := Step.severs_disable
  switch {_ id c} _ := by
    refine .lift_bind (severs_aside rfl rfl) fun _ e₁ _ _ ↦ Call.Within.attempt ?_
    refine Call.Within.bind (.forIn fun p _ _ e₂ _ ↦ ?_) fun _ e₂ _ _ ↦ ?_
    · exact Call.Within.bind (.of_askSolver fun _ _ ↦ severs_aside rfl rfl) fun _ _ _ _ ↦ .pure _
    refine Call.Within.bind (.constraintAt_bind fun _ _ ↦ .lift (severs_constraint (.inr ?_)))
      fun _ e₃ _ _ ↦ ?_
    · exact fun _ ↦ rfl
    · split
      · exact .of_askSolver fun _ _ ↦ severs_aside rfl rfl
      · exact .pure _
  deactivate id c := by
    refine (Step.severs_modifyAll _ _).bind fun _ _ _ _ ↦ ?_
    refine Step.Within.modify_bind (severs_constraint (.inr ?_)) (severs_aside rfl rfl)
    exact fun _ ↦ rfl

instance : Heedless (Severs S) where
  store _ _ := .lift (severs_retouch (fun _ ↦ rfl) fun _ ↦ rfl)
  guards _ _ := severs_aside rfl rfl
  bumpFor x origin _ := by
    unfold Call.bumpFor
    split
    · exact .pure _
    · refine ((Step.recalls_closure x).mono fun _ ↦ Recalls.severs).bind fun closure e₁ _ _ ↦ ?_
      refine Step.Within.bind (.get_bind (.modify_bind (severs_aside rfl rfl) ?_)) fun _ _ _ _ ↦ .pure _
      exact .modify_bind (severs_aside rfl rfl) (.forM fun y _ _ _ ↦ Step.severs_pinDownstream y)
  unbump s xs := by
    refine .get_bind (.modify_bind (severs_aside rfl rfl) (.modify_bind (severs_aside rfl rfl) ?_))
    exact .forM fun y _ _ _ ↦ Step.severs_unpinDownstream y

end Engine

/-! ### Sweeping -/

namespace Step

theorem severs_releaseWithin (n : Nat) (x : VarId) : Within (Severs S) e (releaseWithin n x) := by
  induction n generalizing e x with
  | zero => exact .pure _
  | succ n ih =>
    unfold releaseWithin
    refine .get_bind ?_
    split
    · exact .pure _
    · next v hv =>
      split
      · refine Within.bind (reads_read x) fun value e₁ _ _ ↦ ?_
        refine .modify_bind (severs_release x) ?_
        cases v.key with
        | field obj name =>
          refine Within.bind ?_ fun _ _ _ _ ↦ severs_aside rfl rfl
          rw [Within, restoreField_run]
          split
          · exact severs_aside rfl rfl
          · exact refl_of (Severs S) _
        | part parent name =>
          refine .modify_bind (severs_retouch ?_ ?_) ((ih parent).bind fun _ _ _ _ ↦ severs_aside rfl rfl)
          · exact fun _ ↦ rfl
          · exact fun _ ↦ rfl
      · exact .pure _

end Step

namespace Engine

/-- Some variables are swept: once the constraints that they leave are gone, they have nothing loose. -/
structure Sweeps (S : Set ConstraintId) (xs : Set VarId) (e e' : Engine) : Prop where
  severs : Severs S e e'
  constraints : e'.constraints = e.constraints
  swept : (∀ i ∈ S, e.constraints.get? i = none) → ∀ y ∈ xs, ∀ b, ¬ e'.Loose y b

theorem Severs.sweeps (h : Severs S e e') (constraints : e'.constraints = e.constraints) :
    Sweeps S ∅ e e' := ⟨h, constraints, fun _ _ hy ↦ absurd hy (Set.notMem_empty _)⟩

theorem Sweeps.trans (h : Sweeps S xs e e') (h' : Sweeps S ys e' e'') : Sweeps S (xs ∪ ys) e e'' := by
  refine ⟨trans_of (Severs S) h.severs h'.severs, h'.constraints.trans h.constraints,
    fun hdead y hy b hloose ↦ ?_⟩
  have hdead' : ∀ i ∈ S, e'.constraints.get? i = none := fun i hi ↦ by rw [h.constraints, hdead i hi]
  rcases hy with hy | hy
  · refine h.swept hdead y hy b (h'.severs.loose hloose fun v _ i _ hi c hc ↦ ?_)
    rw [hdead' i hi] at hc
    cases hc
  · exact h'.swept hdead' y hy b hloose

end Engine

namespace Step

/-- One binding of a variable is dropped, and the solver's variable with it. -/
theorem severs_dropBinding (x : VarId) (b : SolverId × Option ExtVar) :
    ∃ e', (do
      modifyVariable x fun v => { v with bindings := v.bindings.erase b.1 }
      match b.2 with
      | some h =>
        modifySolver b.1 fun solver => solver.removeVariable h
        pure (.yield PUnit.unit)
      | none => pure (.yield PUnit.unit) : Step (ForInStep PUnit)) e = (.yield ⟨⟩, e') ∧
      Severs S e e' ∧ e'.constraints = e.constraints ∧
      ∀ w, e'.vars.get? x = some w → ∀ b' ∈ w.bindings.entries, b'.1 ≠ b.1 := by
  let e₁ : Engine :=
    { e with vars := e.vars.modify x fun v ↦ { v with bindings := v.bindings.erase b.1 } }
  have h₁ : Severs S e e₁ :=
    severs_variable (fun _ ↦ List.filter_subset_self _) fun _ _ hi ↦ .inr hi
  have herased : ∀ w, e₁.vars.get? x = some w → ∀ b' ∈ w.bindings.entries, b'.1 ≠ b.1 := by
    intro w hw b' hb'
    obtain ⟨v, -, ⟨-, rfl⟩ | ⟨hne, -⟩⟩ := exists_of_modify hw
    · exact of_decide_eq_true (List.mem_filter.1 hb').2
    · exact absurd rfl hne
  obtain ⟨t, _ | h⟩ := b
  · exact ⟨e₁, rfl, h₁, rfl, herased⟩
  · let e₂ : Engine :=
      { e₁ with solvers := e₁.solvers.modify t fun solver ↦ solver.removeVariable h }
    have h₂ : Severs S e₁ e₂ := severs_aside rfl rfl
    exact ⟨e₂, rfl, trans_of (Severs S) h₁ h₂, rfl, herased⟩

/-- Some bindings of a variable are dropped one after another. -/
theorem severs_dropBindings (x : VarId) (bs : List (SolverId × Option ExtVar)) :
    Within (fun e e' ↦ Severs S e e' ∧ e'.constraints = e.constraints ∧
      ∀ w, e'.vars.get? x = some w → ∀ b' ∈ w.bindings.entries, ∀ b ∈ bs, b'.1 ≠ b.1) e
      (forIn bs PUnit.unit fun b _ ↦ do
        modifyVariable x fun v => { v with bindings := v.bindings.erase b.1 }
        match b.2 with
        | some h =>
          modifySolver b.1 fun solver => solver.removeVariable h
          pure (.yield PUnit.unit)
        | none => pure (.yield PUnit.unit)) := by
  induction bs generalizing e with
  | nil => exact ⟨refl_of (Severs S) e, rfl, fun _ _ _ _ _ h ↦ nomatch h⟩
  | cons b bs ih =>
    obtain ⟨e₁, hrun, h₁, hconstraints, herased⟩ := severs_dropBinding (S := S) (e := e) x b
    rw [List.forIn_cons, Within, bind_run, hrun]
    obtain ⟨h₂, hconstraints', hrest⟩ := ih (e := e₁)
    refine ⟨trans_of (Severs S) h₁ h₂, hconstraints'.trans hconstraints, fun w hw b' hb' a ha ↦ ?_⟩
    rcases List.mem_cons.1 ha with rfl | ha
    · -- what the variable is bound to in the end it was bound to after the first binding was dropped
      obtain hempty | ⟨w₁, hw₁, hbindings, -⟩ := h₂.vars x w hw
      · rw [hempty] at hb'
        cases hb'
      · exact herased w₁ hw₁ b' (hbindings hb')
    · exact hrest w hw b' hb' a ha

/-- **Detaching** a variable leaves it no loose binding. -/
theorem sweeps_detachUnused (x : VarId) : Within (Sweeps S {x}) e (detachUnused x) := by
  unfold detachUnused
  refine .get_bind ?_
  cases hv : e.vars.get? x with
  | none =>
    refine ⟨refl_of (Severs S) e, rfl, ?_⟩
    rintro - y rfl b ⟨v, hv', -⟩
    cases hv.symm.trans hv'
  | some v =>
    have hrelease : ∀ e₁, Within (fun e e' ↦ Severs ∅ e e' ∧ e'.constraints = e.constraints) e₁
        (releaseIfUnused x) := fun e₁ ↦
      ⟨severs_releaseWithin _ x, (releases_releaseWithin _ x).constraints⟩
    refine (severs_dropBindings (S := ∅) x _).seq (fun _ e₁ _ ↦ hrelease e₁) fun e₁ e₂ h₁ h₂ ↦ ?_
    obtain ⟨hsevers, hconstraints, hdropped⟩ := h₁
    obtain ⟨hsevers', hconstraints'⟩ := h₂
    refine ⟨(trans_of (Severs ∅) hsevers hsevers').mono (Set.empty_subset _),
      hconstraints'.trans hconstraints, ?_⟩
    rintro - y rfl b hloose
    have hloose₁ : e₁.Loose y b := hsevers'.tightens y b hloose
    obtain ⟨v', hv', hb, hunused⟩ := hsevers.tightens y b hloose₁
    obtain rfl : v' = v := Option.some.inj (hv'.symm.trans hv)
    obtain ⟨w, hw, hbw, -⟩ := hloose₁
    -- the binding is none of those that were dropped, so a constraint uses its solver
    by_cases hdrop : (b.2.isNone || !(v'.constraints.members.filterMap fun id ↦
        (e.constraints.get? id).map (·.solver)).contains b.1) = true
    · exact hdropped w hw b hbw b (List.mem_filter.2 ⟨hb, hdrop⟩) rfl
    · rw [Bool.or_eq_true, not_or, Bool.not_eq_true', Bool.not_eq_false, List.contains_iff_mem,
        List.mem_filterMap] at hdrop
      obtain ⟨-, i, hi, hmap⟩ := hdrop
      obtain ⟨c, hc, hsolver⟩ := Option.map_eq_some_iff.1 hmap
      exact hunused i hi c hc hsolver

/-- A loop in which each round sweeps some variables. -/
theorem sweeps_forIn {f : VarId → PUnit → Step (ForInStep PUnit)}
    (h : ∀ x e, (f x ⟨⟩ e).1 = .yield ⟨⟩ ∧ Sweeps S {x} e (f x ⟨⟩ e).2) (l : List VarId) :
    Within (Sweeps S {y | y ∈ l}) e (forIn l PUnit.unit f) := by
  induction l generalizing e with
  | nil =>
    exact ⟨refl_of (Severs S) e, rfl, fun _ _ hy ↦ nomatch (hy : _ ∈ [])⟩
  | cons x l ih =>
    rw [List.forIn_cons]
    have hunion : {y | y ∈ x :: l} = {x} ∪ {y | y ∈ l} := by
      ext y
      simp
    rw [hunion]
    obtain ⟨hyield, hswept⟩ := h x e
    show Sweeps S _ e ((f x ⟨⟩ >>= _) e).2
    rw [bind_run, hyield]
    exact hswept.trans ih

theorem severs_leave (x : VarId) (hid : id ∈ S) : Within (Severs S) e (leave x id) := by
  refine severs_variable (fun _ _ hb ↦ hb) fun v i hi ↦ ?_
  by_cases heq : i = id
  · exact .inl (heq ▸ hid)
  · exact .inr (SortedSet.mem_members_erase.2 ⟨hi, heq⟩)

end Step

namespace Engine

/-- What leads to tied tables leaves no binding loose that was not loose before. -/
def Tidies (e e' : Engine) : Prop := e.Tied → e'.Tied ∧ Tightens e e'

instance : IsPreorder Engine Tidies where
  refl e ht := ⟨ht, refl_of Tightens e⟩
  trans _ _ _ h h' ht := by
    obtain ⟨ht', htightens⟩ := h ht
    obtain ⟨ht'', htightens'⟩ := h' ht'
    exact ⟨ht'', trans_of Tightens htightens htightens'⟩

theorem Severs.tidies (h : Severs ∅ e e') (hmaintains : Maintains e e') : Tidies e e' :=
  fun ht ↦ ⟨hmaintains ht, h.tightens⟩

/-- The variables of some constraints were swept once these had been given up, so nothing else is
loose. -/
theorem Tightens.of_sweeps (ht : e.Tied) (h : Severs S e e') (hsweeps : Sweeps S' xs e' e'')
    (hdead : ∀ i ∈ S', e'.constraints.get? i = none) (hxs : ∀ i ∈ S, ∀ y, e.Spans y i → y ∈ xs) :
    Tightens e e'' := by
  intro y b hloose
  have hy : y ∉ xs := fun hy ↦ hsweeps.swept hdead y hy b hloose
  have hloose' : e'.Loose y b := hsweeps.severs.loose hloose fun v _ i _ hi c hc ↦ by
    rw [hdead i hi] at hc
    cases hc
  exact h.loose_of_tied ht hloose' fun i hi hspans ↦ hy (hxs i hi y hspans)

end Engine

namespace Step

/-- The variables of a list leave a constraint and are detached. -/
theorem sweeps_leaveAll (xs : List VarId) (id : ConstraintId) :
    Within (Sweeps {id} {y | y ∈ xs}) e (forIn xs PUnit.unit fun x _ ↦ do
      leave x id
      detachUnused x
      pure (.yield PUnit.unit)) := by
  refine sweeps_forIn (fun x e₁ ↦ ⟨rfl, ?_⟩) xs
  have hleave : Severs {id} e₁ (leave x id e₁).2 := severs_leave x rfl
  have hswept := (hleave.sweeps rfl).trans (sweeps_detachUnused x)
  rwa [Set.empty_union] at hswept

/-- **Abandoning** a constraint leaves nothing loose. -/
theorem tidies_abandon (id : ConstraintId) : Within Tidies e (abandon id) := by
  intro ht
  refine ⟨maintains_abandon id ht, ?_⟩
  have hdisable : Within (fun e e' ↦ Severs ∅ e e' ∧ SameShape e e') e (disable id) :=
    ⟨severs_disable id, sameShape_disable id⟩
  refine hdisable.seq (T := fun e₁ e₂ ↦ e₁.Tied → Tightens e₁ e₂) (fun _ e₁ _ ↦ .get_bind ?_)
    fun e₁ e₂ h₁ h₂ ↦ trans_of Tightens h₁.1.tightens (h₂ (h₁.2.maintains ht))
  split
  · exact fun _ ↦ refl_of Tightens e₁
  · next c hc =>
    intro ht₁
    let e₂ : Engine := { e₁ with constraints := e₁.constraints.remove id }
    have hremove : Severs {id} e₁ e₂ := severs_retire rfl
    have hdead : ∀ i ∈ ({id} : Set ConstraintId), e₂.constraints.get? i = none := by
      rintro i rfl
      rw [Arena.get?_remove, if_pos rfl]
    have hrest : Within (Sweeps {id} {y | y ∈ c.vars}) e₂ (do
        for p in c.primitives do
          modifySolver c.solver fun s => s.removePrimitive p
        for x in c.vars do
          leave x id
          detachUnused x
        tick) := by
      have hsolvers : ∀ e₃, Within (Sweeps {id} ∅) e₃ (forIn c.primitives PUnit.unit fun p _ ↦ do
          modifySolver c.solver fun s => s.removePrimitive p
          pure (.yield PUnit.unit)) := fun e₃ ↦
        (severs_modifyAll _ _).sweeps (releases_modifyAll _ _ _).constraints
      refine (hsolvers e₂).seq (fun _ e₃ _ ↦ (sweeps_leaveAll c.vars id).seq
        (fun _ e₄ _ ↦ (?_ : Within (Sweeps {id} ∅) e₄ tick)) fun _ _ h h' ↦ h.trans h')
        fun _ _ h (h' : Sweeps {id} ({y | y ∈ c.vars} ∪ ∅) _ _) ↦ ?_
      · exact Severs.sweeps (severs_aside rfl rfl) rfl
      · have hswept := h.trans h'
        rwa [Set.empty_union, Set.union_empty] at hswept
    refine Tightens.of_sweeps ht₁ hremove hrest hdead ?_
    rintro i rfl y ⟨c', hc', hy⟩
    cases hc.symm.trans hc'
    exact hy

end Step

end LiveConstraints
