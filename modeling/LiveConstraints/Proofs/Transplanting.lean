import LiveConstraints.Engine.Selection
import LiveConstraints.Proofs.Recalculation
/-!
# Moving a realization keeps the invariant

A constraint gives its own realization up and adopts that of another one. Its clauses are removed
first and its primitives are replaced last, so in between it has primitives without clauses, which
the invariant does not allow. But nobody looks at its primitives meanwhile: the outcome is the same if
it had given them up before (`Call.supplant_stripped`), and from there on every step is a move.
-/

namespace LiveConstraints

open Engine

variable {e e' : Engine} {id source target : ConstraintId} {c old winner : Constraint}
  {s : SolverId} {x : VarId}

namespace Engine

/-- A constraint is not on. -/
def Off (e : Engine) (id : ConstraintId) : Prop :=
  ∀ c, e.constraints.get? id = some c → c.enabled = false

/-- A constraint has given its primitives up, though their clauses are still there. -/
def stripped (e : Engine) (id : ConstraintId) : Engine :=
  { e with constraints := e.constraints.modify id fun c ↦ { c with primitives := [] } }

end Engine

namespace Call

/-! ### What nobody looks at -/

variable {α β : Type}

/-- A call that succeeds and has nothing to do with the constraints. -/
def Overlooks (m : Call α) : Prop :=
  ∀ e : Engine, ∃ (a : α) (e' : Engine), ∀ constraints,
    m { e with constraints } = (.ok a, { e' with constraints })

theorem Overlooks.forIn {l : List α} {b : β} {f : α → β → Call (ForInStep β)}
    (h : ∀ a b, Overlooks (f a b)) : Overlooks (forIn l b f) := by
  induction l generalizing b with
  | nil => exact fun e ↦ ⟨b, e, fun _ ↦ rfl⟩
  | cons a l ih =>
    intro e
    obtain ⟨step, e₁, hstep⟩ := h a b e
    cases step with
    | done b =>
      refine ⟨b, e₁, fun constraints ↦ ?_⟩
      rw [List.forIn_cons, bind_of_ok (hstep constraints)]
      rfl
    | yield b =>
      obtain ⟨b', e₂, hrest⟩ := ih (b := b) e₁
      refine ⟨b', e₂, fun constraints ↦ ?_⟩
      rw [List.forIn_cons, bind_of_ok (hstep constraints)]
      exact hrest constraints

/-- A round of a loop that consists of a step. -/
theorem overlooks_round {m : Step PUnit} (h : ∀ (e : Engine) constraints,
    (m { e with constraints }).2 = { (m e).2 with constraints }) : Overlooks (do
      liftM m
      pure (ForInStep.yield PUnit.unit) : Call (ForInStep PUnit)) := by
  refine fun e ↦ ⟨.yield ⟨⟩, (m e).2, fun constraints ↦ ?_⟩
  rw [← h]
  rfl

/-- A call that has nothing to do with the constraints leaves open whether one of them was
stripped. -/
theorem Overlooks.bind_stripped {m : Call α} {k : α → Call β} (hm : Overlooks m)
    (hk : ∀ a e', e'.constraints = e.constraints → k a (e'.stripped target) = k a e') :
    (m >>= k) (e.stripped target) = (m >>= k) e := by
  obtain ⟨a, e', hrun⟩ := hm e
  have hplain : m e = (.ok a, { e' with constraints := e.constraints }) := hrun e.constraints
  have hstripped : m (e.stripped target)
      = (.ok a, stripped { e' with constraints := e.constraints } target) := hrun _
  rw [bind_of_ok hplain, bind_of_ok hstripped]
  exact hk a _ rfl

theorem modify_bind_stripped {g : Engine → Engine} {k : PUnit → Call β}
    (hg : ∀ e : Engine, g (e.stripped target) = (g e).stripped target)
    (hk : k ⟨⟩ ((g e).stripped target) = k ⟨⟩ (g e)) :
    (modify g >>= k) (e.stripped target) = (modify g >>= k) e := by
  show k ⟨⟩ (g (e.stripped target)) = k ⟨⟩ (g e)
  rw [hg, hk]

/-- A change that replaces the primitives does not see whether they were given up. -/
theorem changeConstraint_stripped {f : Constraint → Constraint}
    (hf : ∀ c, f { c with primitives := [] } = f c) :
    changeConstraint target f (e.stripped target) = changeConstraint target f e := by
  cases hc : e.constraints.get? target with
  | none => rw [stripped, Arena.modify_of_none hc]
  | some c =>
    have hc' : (e.stripped target).constraints.get? target = some { c with primitives := [] } := by
      rw [stripped, Arena.get?_modify, if_pos rfl, hc, Option.map_some]
    rw [changeConstraint_eq hc, changeConstraint_eq hc']
    simp only [stripped, Arena.modify_modify, hf]

/-- What follows a call depends on its outcome alone. -/
theorem bind_congr_run {m : Call α} {k : α → Call β} (h : m e = m e') :
    (m >>= k) e = (m >>= k) e' := by
  rcases hrun : m e' with ⟨halt | a, e''⟩
  · rw [bind_of_error hrun, bind_of_error (h.trans hrun)]
  · rw [bind_of_ok hrun, bind_of_ok (h.trans hrun)]

/-- **Giving up early.** The outcome is the same if the target has given its primitives up before. -/
theorem supplant_stripped (hne : source ≠ target)
    (hwinner : e.constraints.get? source = some winner) :
    supplant source target old (e.stripped target) = supplant source target old e := by
  have hlookup : ∀ e' : Engine, e'.constraints.get? source = some winner →
      constraintAt source e' = (.ok winner, e') := by
    intro e' h
    rw [constraintAt_eq, h]
    rfl
  refine Overlooks.bind_stripped (.forIn fun _ _ ↦ overlooks_round fun _ _ ↦ rfl) ?_
  intro _ e₁ h₁
  have hwinner₁ : e₁.constraints.get? source = some winner := by rw [h₁, hwinner]
  have hwinner₁' : (e₁.stripped target).constraints.get? source = some winner := by
    rw [stripped, Arena.get?_modify, if_neg hne, hwinner₁]
  rw [bind_of_ok (hlookup _ hwinner₁), bind_of_ok (hlookup _ hwinner₁')]
  -- the source goes, which does not matter to the target
  refine modify_bind_stripped (fun e ↦ ?_) ?_
  · simp only [stripped, Arena.remove_modify]
  refine Overlooks.bind_stripped (.forIn fun _ _ ↦ overlooks_round fun _ _ ↦ rfl) ?_
  intro _ e₃ _
  refine Overlooks.bind_stripped (.forIn fun x _ ↦ ?_) ?_
  · split
    · exact overlooks_round fun _ _ ↦ rfl
    · exact fun e ↦ ⟨.yield ⟨⟩, e, fun _ ↦ rfl⟩
  · exact fun _ e₄ _ ↦ bind_congr_run (changeConstraint_stripped fun _ ↦ rfl)

end Call

/-! ### Moving a realization -/

namespace Engine

/-- A variable that exists takes part in a constraint. -/
def Keeps (e : Engine) (x : VarId) (id : ConstraintId) : Prop :=
  ∀ v, e.vars.get? x = some v → id ∈ v.constraints.members

/-- Variables join and leave constraints. The given ones stay in the given constraint if they are in
it. -/
structure Relinks (id : ConstraintId) (xs : List VarId) (e e' : Engine) : Prop where
  modifies : Modifies e e'
  constraints : e'.constraints = e.constraints
  solvers : e'.solvers = e.solvers
  bound : ∀ x s h, e'.Bound x s h → e.Bound x s h
  keeps : ∀ x ∈ xs, e.Keeps x id → e'.Keeps x id

instance {id : ConstraintId} {xs : List VarId} : IsPreorder Engine (Relinks id xs) where
  refl e := ⟨.refl e, rfl, rfl, fun _ _ _ h ↦ h, fun _ _ h ↦ h⟩
  trans _ _ _ h h' := ⟨h.modifies.trans h'.modifies, h'.constraints.trans h.constraints,
    h'.solvers.trans h.solvers, fun x s k hk ↦ h.bound x s k (h'.bound x s k hk),
    fun x hx hk ↦ h'.keeps x hx (h.keeps x hx hk)⟩

/-- The links of one variable change, but not its bindings. -/
theorem relinks_of_variable {f : Variable → Variable} {xs : List VarId} (modifies : Modifies e e')
    (constraints : e'.constraints = e.constraints) (solvers : e'.solvers = e.solvers)
    (vars : e'.vars = e.vars.modify x f) (bindings : ∀ v, (f v).bindings = v.bindings)
    (keeps : x ∈ xs → ∀ v, id ∈ v.constraints.members → id ∈ (f v).constraints.members) :
    Relinks id xs e e' := by
  refine ⟨modifies, constraints, solvers, ?_, fun y hy hkeeps v hv ↦ ?_⟩
  · rintro y s h ⟨v, hv, hh⟩
    rw [vars] at hv
    obtain ⟨w, hw, ⟨-, rfl⟩ | ⟨-, rfl⟩⟩ := exists_of_modify hv
    · exact ⟨w, hw, by rwa [Variable.handle?, bindings] at hh⟩
    · exact ⟨v, hw, hh⟩
  · rw [vars] at hv
    obtain ⟨w, hw, ⟨rfl, rfl⟩ | ⟨-, rfl⟩⟩ := exists_of_modify hv
    · exact keeps hy w (hkeeps w hw)
    · exact hkeeps v hw

end Engine

namespace Call

/-- The winner's variables join the target. -/
theorem gives_joinAll (source target : ConstraintId) (xs ys : List VarId)
    (gone : e.constraints.get? source = none) :
    Gives (Relinks target ys) e (forIn xs PUnit.unit fun x _ ↦ do
      Step.modifyVariable x fun v =>
        { v with constraints := SortedSet.add (v.constraints.erase source) target }
      pure (.yield PUnit.unit)) fun _ e' ↦ ∀ x ∈ xs, x ∈ ys → e'.Keeps x target := by
  induction xs generalizing e with
  | nil => exact .pure (by simp)
  | cons x xs ih =>
    rw [List.forIn_cons, bind_assoc]
    have hleave : Modifies e { e with vars := e.vars.modify x fun v ↦
        { v with constraints := v.constraints.erase source } } :=
      modifies_of_move (.leave x source fun c hc ↦ by rw [gone] at hc; cases hc) rfl rfl rfl
    have hjoin : Modifies e { e with vars := e.vars.modify x fun v ↦
        { v with constraints := SortedSet.add (v.constraints.erase source) target } } := by
      have h := hleave.trans (modifies_of_move (.join x target) rfl rfl rfl)
      dsimp only at h
      rwa [Arena.modify_modify] at h
    have hrelinks : Relinks target ys e { e with vars := e.vars.modify x fun v ↦
        { v with constraints := SortedSet.add (v.constraints.erase source) target } } :=
      relinks_of_variable hjoin rfl rfl rfl (fun _ ↦ rfl) fun _ v _ ↦
        SortedSet.mem_members_add.2 (.inl rfl)
    refine Within.bind_gives (.lift hrelinks) fun _ e₁ hrun h₁ ↦ ?_
    cases hrun
    have hrest := ih (e := { e with vars := e.vars.modify x fun v ↦
        { v with constraints := SortedSet.add (v.constraints.erase source) target } }) gone
    refine ⟨hrest.within, fun a e' hrun y hy hys ↦ ?_⟩
    rcases List.mem_cons.1 hy with rfl | hy
    · refine (hrest.within.of_ok hrun).keeps y hys fun v hv ↦ ?_
      obtain ⟨w, hw, ⟨-, rfl⟩ | ⟨hne, -⟩⟩ := exists_of_modify hv
      · exact SortedSet.mem_members_add.2 (.inl rfl)
      · exact absurd rfl hne
    · exact hrest.result a e' hrun y hy hys

/-- Variables of a bare target that the winner does not touch leave it. -/
theorem relinks_leaveSome (xs ys : List VarId) (hbare : e.Bare target) :
    Within (Relinks target ys) e (forIn xs PUnit.unit fun x _ ↦
      if !ys.contains x then do
        Step.leave x target
        pure (.yield PUnit.unit)
      else pure (.yield PUnit.unit)) := by
  refine .forIn fun x _ _ e₁ h₁ ↦ ?_
  split
  · next hx =>
    refine .lift_bind ?_ fun _ _ _ _ ↦ .pure _
    refine relinks_of_variable (modifies_of_move (.leave x target fun c hc ↦ ?_) rfl rfl rfl)
      rfl rfl rfl (fun _ ↦ rfl) fun hmem ↦ ?_
    · rw [h₁.constraints] at hc
      exact (hbare c hc).2
    · simp [hmem] at hx
  · exact .pure _

/-- The clauses of the source have not changed, and the variables that they mention are the target's
now. -/
theorem realizable_of_relinks (h : Relinks target winner.vars
      { e with constraints := e.constraints.remove source } e') (hs : e.Sound)
    (hwinner : e.constraints.get? source = some winner)
    (hoff : winner.enabled = false) (keeps : ∀ x ∈ winner.vars, e'.Keeps x target)
    (solver : c.solver = winner.solver) (primitives : c.primitives = winner.primitives)
    (vars : c.vars = winner.vars) (disabled : c.enabled = false) : e'.Realizable target c := by
  have hclause : e'.clause? = e.clause? := clause?_congr h.solvers
  have hheld : e'.held? = e.held? := held?_congr h.solvers
  refine ⟨disabled, ?_, ?_, ?_, ?_⟩ <;> rw [primitives, solver]
  · rw [hclause]
    exact hs.existing source winner hwinner
  · intro p hp d hon
    rw [hclause] at hon
    rw [hs.enabled_of_on hwinner hp hon] at hoff
    cases hoff
  · intro p hp d on hclause'
    rw [hclause] at hclause'
    have hcovered := hs.covered source winner hwinner p hp d on hclause'
    refine ⟨hcovered.relation, ?_, fun k x hk hb ↦ ?_⟩
    · rw [hheld]
      exact hcovered.held
    · have hmem := (hcovered.listed k x hk (h.bound x _ k hb)).2
      obtain ⟨v, hv, -⟩ := hb
      rw [vars]
      exact ⟨⟨v, hv, keeps x hmem v hv⟩, hmem⟩
  · intro id c' hc' hid hsolver p hp hp'
    rw [h.constraints, Arena.get?_remove] at hc'
    split at hc'
    · cases hc'
    · next hsource =>
      exact hsource (hs.unique id c' source winner hc' hwinner hsolver p hp' hp)

/-- The target, which is bare, adopts what the source had. -/
theorem modifies_supplant (hs : e.Sound) (hne : source ≠ target) (hsource : e.Off source)
    (hbare : e.Bare target) (hunowned : ∀ p ∈ old.primitives, ¬ e.Owned old.solver p) :
    Within Modifies e (supplant source target old) := by
  refine (detaches_removePrimitives hs hunowned).bind_of (fun _ h ↦ h.modifies) fun _ e₁ _ h₁ ↦ ?_
  have hs₁ := h₁.sound hs
  refine .constraintAt_bind fun winner hwinner ↦ ?_
  have hoff₁ : e₁.Off source := by rwa [Off, h₁.constraints]
  have hretire : Modifies e₁ { e₁ with constraints := e₁.constraints.remove source } :=
    modifies_of_move (.retire source hoff₁) rfl rfl rfl
  refine .modify_bind hretire ?_
  have hs₂ := hretire.sound hs₁
  have hbare₂ : Bare { e₁ with constraints := e₁.constraints.remove source } target := by
    rwa [Bare, Arena.get?_remove, if_neg hne.symm, h₁.constraints]
  have hjoin := gives_joinAll source target winner.vars winner.vars
    (e := { e₁ with constraints := e₁.constraints.remove source })
    (by dsimp only; rw [Arena.get?_remove, if_pos rfl])
  refine Within.bind_of hjoin.within (fun _ h ↦ h.modifies) fun _ e₃ hrun₃ h₃ ↦ ?_
  have hs₃ := h₃.modifies.sound hs₂
  have hbare₃ : e₃.Bare target := by rwa [Bare, h₃.constraints]
  refine (relinks_leaveSome old.vars winner.vars hbare₃).bind_of (fun _ h ↦ h.modifies)
    fun _ e₄ _ h₄ ↦ ?_
  have hs₄ := h₄.modifies.sound hs₃
  have hrelinks : Relinks target winner.vars
      { e₁ with constraints := e₁.constraints.remove source } e₄ := trans_of _ h₃ h₄
  have hrealizable : ∀ c : Constraint, e₄.Realizable target { c with
      solver := winner.solver
      primitives := winner.primitives
      vars := winner.vars
      isTest := winner.isTest
      measurement := winner.measurement
      enabled := false } := fun c ↦
    realizable_of_relinks hrelinks hs₁ hwinner (hoff₁ winner hwinner)
      (fun x hx ↦ h₄.keeps x hx (hjoin.result _ _ hrun₃ x hx hx)) rfl rfl rfl rfl
  refine Within.bind (modifies_reshape fun c hc ↦ ⟨?_, rfl, hrealizable c⟩) fun _ e₅ _ h₅ ↦ ?_
  · rw [h₄.constraints] at hc
    exact (hbare₃ c hc).1
  have hs₅ := h₅.sound hs₄
  refine .lift_bind Step.within_tick fun _ e₆ _ h₆ ↦ ?_
  refine Within.bind (.forIn fun x _ _ e₇ h₇ ↦ ?_) fun _ e₇ _ _ ↦ .get_bind ?_
  · exact .lift_bind ((Step.detaches_detachUnused (h₇.sound (h₆.sound hs₅)) x).mono
      fun _ h ↦ h.modifies) fun _ _ _ _ ↦ .pure _
  · exact .lift (Step.within_report _)

/-- **Moving a realization.** The target adopts what the source had, which exists. -/
theorem modifies_transplantInto (hs : e.Sound) (hne : source ≠ target) (hlive : e.Live source)
    (hsource : e.Off source) (htarget : e.Off target) :
    Within Modifies e (transplantInto source target) := by
  refine .constraintAt_bind fun old hold ↦ ?_
  obtain ⟨winner, hwinner⟩ := hlive
  have hstrip := gives_strip (f := fun c ↦ { c with primitives := [] }) htarget (fun _ ↦ rfl)
    (fun _ ↦ rfl) fun _ _ ↦ rfl
  have hstripped : Modifies e (e.stripped target) :=
    hstrip.within.of_ok (changeConstraint_eq hold _)
  have hbare : (e.stripped target).Bare target :=
    (hstrip.result _ _ (changeConstraint_eq hold _)).1
  have hothers : ∀ id, id ≠ target → (e.stripped target).constraints.get? id
      = e.constraints.get? id := fun id hid ↦ by rw [stripped, Arena.get?_modify, if_neg hid]
  have hoff : (e.stripped target).Off source := by rwa [Off, hothers source hne]
  have hsupplant := modifies_supplant (hstripped.sound hs) hne hoff hbare
    (unowned_of_bare hs hold hbare hothers)
  intro hreturns
  rw [← supplant_stripped hne hwinner] at hreturns ⊢
  exact hstripped.trans (hsupplant hreturns)

end Call

end LiveConstraints
