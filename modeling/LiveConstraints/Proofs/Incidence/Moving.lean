import LiveConstraints.Proofs.Incidence.Building
/-!
# Moving a constraint keeps the tables tied

A constraint that is rebuilt lets all its variables leave before it forgets them. When another
solver's realization moves into a constraint, the variables of the one that is gone join the one that
stays, and those that only the old realization touched leave it.
-/

namespace LiveConstraints

open Engine

variable {e e' e'' : Engine} {x y : VarId} {v : Variable} {id source target : ConstraintId}
  {c : Constraint} {s : SolverId}

/-! ### Dismantling -/

namespace Engine

/-- When all its variables have left a constraint, it may forget them. -/
theorem Tied.of_leaves_forget (ht : e.Tied) (hc : e.constraints.get? id = some c)
    (h : Leaves id {y | y ∈ c.vars} e e') :
    Tied { e' with constraints := e'.constraints.modify id fun c ↦ { c with vars := [] } } := by
  refine ⟨.congr (.of_tables (h.linked _ ht.linked) ?_ ?_) fun y i ↦ ?_, fun i c' hc' ↦ ?_⟩
  · rfl
  · rfl
  · constructor
    · rintro ⟨c', hc', hy⟩
      obtain ⟨c₀, hc₀, ⟨-, rfl⟩ | ⟨hne, rfl⟩⟩ := exists_constraint_of_modify hc'
      · cases hy
      · rw [h.constraints] at hc₀
        exact ⟨⟨c', hc₀, hy⟩, fun h ↦ hne h.2⟩
    · rintro ⟨⟨c₀, hc₀, hy⟩, hleft⟩
      have hne : i ≠ id := by
        rintro rfl
        obtain rfl : c₀ = c := Option.some.inj (hc₀.symm.trans hc)
        exact hleft ⟨hy, rfl⟩
      refine ⟨c₀, ?_, hy⟩
      dsimp only
      rw [Arena.get?_modify, if_neg hne, h.constraints, hc₀]
  · obtain ⟨c₀, hc₀, ⟨-, rfl⟩ | ⟨-, rfl⟩⟩ := exists_constraint_of_modify hc'
    · exact List.nodup_nil
    · rw [h.constraints] at hc₀
      exact ht.nodup i c' hc₀

end Engine

namespace Call

theorem sameShape_modifyAll {α : Type} (l : List α) (s : α → SolverId) (f : α → Solver → Solver) :
    Within SameShape e (forIn l PUnit.unit fun a _ ↦ do
      Step.modifySolver (s a) (f a)
      pure (.yield PUnit.unit)) :=
  .forIn fun a _ _ _ _ ↦ .lift_bind (Step.sameShape_modifySolver (s a) (f a)) fun _ _ _ _ ↦ .pure _

/-- The variables of a list leave one after another. -/
theorem leaveAll_run (xs : List VarId) (id : ConstraintId) : ∃ e', (forIn xs PUnit.unit fun x _ ↦ do
    Step.leave x id
    pure (.yield PUnit.unit) : Call PUnit) e = (.ok ⟨⟩, e') ∧ Leaves id {y | y ∈ xs} e e' := by
  refine ⟨_, forIn_run ?_, Step.leaves_leaveAll xs id⟩
  exact fun _ _ _ ↦ rfl

theorem maintains_forget (hc : e.constraints.get? id = some c) : Within Maintains e (do
    for x in c.vars do
      Step.leave x id
    changeConstraint id fun c => { c with vars := [] }) := by
  refine fun hreturns ht ↦ (?_ : Within (fun _ e' ↦ e'.Tied) e _) hreturns
  obtain ⟨e₁, hrun, hleaves⟩ := leaveAll_run (e := e) c.vars id
  have hc₁ : e₁.constraints.get? id = some c := by rw [hleaves.constraints, hc]
  have hlookup := constraintAt_eq id e₁
  rw [hc₁] at hlookup
  refine .ok_bind hrun (.ok_bind hlookup fun _ ↦ ?_)
  exact ht.of_leaves_forget hc hleaves

/-- **Dismantling a constraint** keeps the tables tied. -/
theorem maintains_dismantle (hc : e.constraints.get? id = some c) :
    Within Maintains e (dismantle id c) := by
  have hdisable : Within SameShape e (liftM (Step.disable id)) := .lift (Step.sameShape_disable id)
  refine hdisable.bind_of (fun _ ↦ SameShape.maintains) fun _ e₁ _ h₁ ↦ ?_
  have hstrip : Within SameShape e₁ (changeConstraint id fun c => { c with primitives := [] }) :=
    sameShape_changeConstraint fun _ ↦ rfl
  refine hstrip.bind_of (fun _ ↦ SameShape.maintains) fun _ e₂ _ h₂ ↦ ?_
  refine (sameShape_modifyAll _ _ _).bind_of (fun _ ↦ SameShape.maintains) fun _ e₃ _ h₃ ↦ ?_
  -- the constraint lists what it listed before
  obtain ⟨c₃, hc₃, hvars⟩ := (trans_of SameShape (trans_of SameShape h₁ h₂) h₃).constraint_after hc
  rw [← hvars]
  exact maintains_forget hc₃

theorem maintains_forsake (s : SolverId) (xs : List VarId) : Within Maintains e (forsake s xs) := by
  refine Within.bind (.forIn fun x _ _ e₁ _ ↦ .get_bind ?_) fun _ _ _ _ ↦ .pure _
  have hdetach : ∀ e₂ : Engine, Within Maintains e₂ (do
      Step.detachUnused x
      pure (ForInStep.yield PUnit.unit) : Call (ForInStep PUnit)) := fun e₂ ↦
    .lift_bind (Step.releases_detachUnused x).maintains fun _ _ _ _ ↦ .pure _
  split
  · exact (sameShape_callSolver s _).bind_of (fun _ ↦ SameShape.maintains) fun _ e₂ _ _ ↦ hdetach e₂
  · exact hdetach e₁

end Call

/-! ### Moving -/

namespace Engine

/-- The memberships after some variables went over from one constraint to another. -/
def joining (member : VarId → ConstraintId → Prop) (xs : Set VarId) (source target : ConstraintId) :
    VarId → ConstraintId → Prop :=
  fun y i ↦ (y ∈ xs ∧ i = target) ∨ (member y i ∧ ¬ (y ∈ xs ∧ i = source))

/-- Some variables went over from one constraint to another. -/
structure Joins (source target : ConstraintId) (xs : List VarId) (e e' : Engine) : Prop where
  linked : ∀ member, Linked ∅ member e → (∀ x ∈ xs, ∃ i, member x i) →
    Linked ∅ (joining member {y | y ∈ xs} source target) e'
  constraints : e'.constraints = e.constraints

theorem joins_one (source target : ConstraintId) (x : VarId) :
    Joins source target [x] e { e with vars := e.vars.modify x fun v ↦
      { v with constraints := SortedSet.add (v.constraints.erase source) target } } := by
  refine ⟨fun member hl hx ↦ hl.relist (fun _ ↦ rfl) (fun _ ↦ rfl) ?_ ?_ ?_, rfl⟩
  · intro v i hv
    rw [SortedSet.mem_members_add, SortedSet.mem_members_erase, hl.lists x v i hv]
    simp [joining]
  · intro y i hy
    simp [joining, hy]
  · intro _ _
    obtain ⟨i, hmember⟩ := hx x List.mem_cons_self
    exact hl.live x i hmember

theorem Joins.cons {xs : List VarId} (hne : source ≠ target) (h : Joins source target [x] e e')
    (h' : Joins source target xs e' e'') : Joins source target (x :: xs) e e'' := by
  refine ⟨fun member hl hx ↦ ?_, h'.constraints.trans h.constraints⟩
  have hfirst := h.linked member hl fun y hy ↦ by
    obtain rfl := List.mem_singleton.1 hy
    exact hx y List.mem_cons_self
  refine (h'.linked _ hfirst fun y hy ↦ ?_).congr fun y i ↦ ?_
  · obtain ⟨i, hmember⟩ := hx y (List.mem_cons_of_mem _ hy)
    by_cases hyx : y = x
    · exact ⟨target, .inl ⟨List.mem_singleton.2 hyx, rfl⟩⟩
    · exact ⟨i, .inr ⟨hmember, fun h ↦ hyx (List.mem_singleton.1 h.1)⟩⟩
  · have hdistinct : i = target → i ≠ source := fun h h' ↦ hne (h'.symm.trans h)
    simp only [joining, Set.mem_ofPred_eq, List.mem_cons, List.not_mem_nil, or_false]
    tauto

/-- After the variables of one constraint went over to another and its own old ones left, that one has
what the first one had, and the first one has nothing. -/
theorem leaving_joining_iff {member : VarId → ConstraintId → Prop} {ws os : List VarId}
    (hne : source ≠ target) (hsource : member y source ↔ y ∈ ws)
    (htarget : member y target ↔ y ∈ os) (i : ConstraintId) :
    leaving (joining member {y | y ∈ ws} source target) {y | y ∈ os ∧ y ∉ ws} target y i ↔
      (i = target ∧ y ∈ ws) ∨ (i ≠ target ∧ i ≠ source ∧ member y i) := by
  simp only [leaving, joining, Set.mem_ofPred_eq]
  by_cases hi : i = target
  · subst hi
    have hother : i ≠ source := hne.symm
    simp only [htarget, hother, and_true, and_false, not_false_eq_true, ne_eq, not_true_eq_false,
      true_and, false_and, or_false]
    tauto
  · by_cases hi' : i = source
    · subst hi'
      simp only [hi, hsource, and_false, and_true, false_or, not_false_eq_true, ne_eq,
        not_true_eq_false, false_and, or_false]
      tauto
    · simp only [hi, hi', and_false, false_or, not_false_eq_true, and_true, ne_eq, true_and, false_and]

/-- The variables of the winner joined the target, and those that only the target had listed left
it, so the target may list what the winner listed. -/
theorem Tied.of_moved {old winner : Constraint} (hne : source ≠ target) (ht : e.Tied)
    (hold : e.constraints.get? target = some old) (hwinner : e.constraints.get? source = some winner)
    (hjoins : Joins source target winner.vars { e with constraints := e.constraints.remove source } e')
    (hleaves : Leaves target {y | y ∈ old.vars ∧ y ∉ winner.vars} e' e'') {f : Constraint → Constraint}
    (vars : ∀ c, (f c).vars = winner.vars) :
    Tied { e'' with constraints := e''.constraints.modify target f } := by
  have hget : ∀ i c', e''.constraints.get? i = some c' ↔
      i ≠ source ∧ e.constraints.get? i = some c' := by
    intro i c'
    rw [hleaves.constraints, hjoins.constraints, Arena.get?_remove]
    split
    · next hi => exact ⟨nofun, fun h ↦ absurd hi h.1⟩
    · next hi => exact ⟨fun h ↦ ⟨hi, h⟩, And.right⟩
  have hspans_source : ∀ y, e.Spans y source ↔ y ∈ winner.vars := by
    refine fun y ↦ ⟨?_, fun hy ↦ ⟨winner, hwinner, hy⟩⟩
    rintro ⟨c', hc', hy⟩
    obtain rfl : c' = winner := Option.some.inj (hc'.symm.trans hwinner)
    exact hy
  have hspans_target : ∀ y, e.Spans y target ↔ y ∈ old.vars := by
    refine fun y ↦ ⟨?_, fun hy ↦ ⟨old, hold, hy⟩⟩
    rintro ⟨c', hc', hy⟩
    obtain rfl : c' = old := Option.some.inj (hc'.symm.trans hold)
    exact hy
  have hlinked : Linked ∅ e.Spans { e with constraints := e.constraints.remove source } :=
    ht.linked.of_tables rfl rfl
  have hmoved := hleaves.linked _ (hjoins.linked _ hlinked fun y hy ↦ ⟨source, (hspans_source y).2 hy⟩)
  refine ⟨.congr (.of_tables hmoved ?_ ?_) fun y i ↦ ?_, fun i c' hc' ↦ ?_⟩
  · rfl
  · rfl
  · -- by whether the constraint is the target, the source or another one
    have hspans : Spans { e'' with constraints := e''.constraints.modify target f } y i ↔
        (i = target ∧ y ∈ winner.vars) ∨ (i ≠ target ∧ i ≠ source ∧ e.Spans y i) := by
      constructor
      · rintro ⟨c', hc', hy⟩
        obtain ⟨c₀, hc₀, ⟨rfl, rfl⟩ | ⟨hi, rfl⟩⟩ := exists_constraint_of_modify hc'
        · rw [vars] at hy
          exact .inl ⟨rfl, hy⟩
        · obtain ⟨hsource, hc₀⟩ := (hget i c').1 hc₀
          exact .inr ⟨hi, hsource, c', hc₀, hy⟩
      · rintro (⟨rfl, hy⟩ | ⟨hi, hsource, c', hc', hy⟩)
        · refine ⟨_, get?_modify_constraint ((hget _ old).2 ⟨hne.symm, hold⟩), ?_⟩
          rw [if_pos rfl, vars]
          exact hy
        · refine ⟨_, get?_modify_constraint ((hget i c').2 ⟨hsource, hc'⟩), ?_⟩
          rw [if_neg hi]
          exact hy
    exact hspans.trans (leaving_joining_iff hne (hspans_source y) (hspans_target y) i).symm
  · obtain ⟨c₀, hc₀, ⟨-, rfl⟩ | ⟨-, rfl⟩⟩ := exists_constraint_of_modify hc'
    · rw [vars]
      exact ht.nodup source winner hwinner
    · exact ht.nodup i c' ((hget i c').1 hc₀).2

end Engine

namespace Step

theorem joins_joinAll (hne : source ≠ target) (xs : List VarId) :
    Within (Joins source target xs) e (forIn xs PUnit.unit fun x _ ↦ do
      modifyVariable x fun v =>
        { v with constraints := SortedSet.add (v.constraints.erase source) target }
      pure (.yield PUnit.unit)) := by
  induction xs generalizing e with
  | nil =>
    refine ⟨fun member hl _ ↦ hl.congr fun y i ↦ ?_, rfl⟩
    simp [joining]
  | cons x xs ih =>
    rw [List.forIn_cons]
    exact (joins_one source target x).cons hne ih

/-- The variables that the winner does not touch leave. -/
theorem leaves_leaveSome (xs ys : List VarId) (id : ConstraintId) :
    Within (Leaves id {y | y ∈ xs ∧ y ∉ ys}) e (forIn xs PUnit.unit fun x _ ↦
      if !ys.contains x then do
        leave x id
        pure (.yield PUnit.unit)
      else pure (.yield PUnit.unit)) := by
  have hloop := leaves_forIn (e := e) id (f := fun x _ ↦
    if !ys.contains x then do
      leave x id
      pure (.yield PUnit.unit)
    else pure (.yield PUnit.unit)) (fun x ↦ {y | y = x ∧ y ∉ ys}) (fun x e₁ ↦ ?_) xs
  · have hset : {y | ∃ x ∈ xs, y ∈ {y | y = x ∧ y ∉ ys}} = {y | y ∈ xs ∧ y ∉ ys} := by
      ext y
      simp
    rwa [hset] at hloop
  · split
    · next hx =>
      have hset : {y | y = x ∧ y ∉ ys} = {x} := by
        ext y
        simp only [Set.mem_ofPred_eq, Set.mem_singleton_iff, and_iff_left_iff_imp]
        rintro rfl
        simpa using hx
      rw [hset]
      exact ⟨rfl, leaves_leave x id⟩
    · next hx =>
      refine ⟨rfl, leaves_refl ?_⟩
      ext y
      simp only [Set.mem_ofPred_eq, Set.mem_empty_iff_false, iff_false, not_and, not_not]
      rintro rfl
      simpa using hx

end Step

namespace Call

/-- The variables of a list go over one after another. -/
theorem joinAll_run (hne : source ≠ target) (xs : List VarId) :
    ∃ e', (forIn xs PUnit.unit fun x _ ↦ do
      Step.modifyVariable x fun v =>
        { v with constraints := SortedSet.add (v.constraints.erase source) target }
      pure (.yield PUnit.unit) : Call PUnit) e = (.ok ⟨⟩, e') ∧ Joins source target xs e e' := by
  refine ⟨_, forIn_run ?_, Step.joins_joinAll hne xs⟩
  exact fun _ _ _ ↦ rfl

/-- The variables that the winner does not touch leave one after another. -/
theorem leaveSome_run (xs ys : List VarId) (id : ConstraintId) :
    ∃ e', (forIn xs PUnit.unit fun x _ ↦
      if !ys.contains x then do
        Step.leave x id
        pure (.yield PUnit.unit)
      else pure (.yield PUnit.unit) : Call PUnit) e = (.ok ⟨⟩, e') ∧
      Leaves id {y | y ∈ xs ∧ y ∉ ys} e e' := by
  refine ⟨_, forIn_run ?_, Step.leaves_leaveSome xs ys id⟩
  intro x _ e₁
  split <;> rfl

/-- Moving does not fail while the target is there: the variables of the winner go over, those that
only the target had listed leave, and the target changes. -/
theorem move_runs {old : Constraint} (hne : source ≠ target)
    (hold : e.constraints.get? target = some old) (ws : List VarId) (f : Constraint → Constraint) :
    ∃ e₁ e₂, (forIn ws PUnit.unit fun x _ ↦ do
        Step.modifyVariable x fun v =>
          { v with constraints := SortedSet.add (v.constraints.erase source) target }
        pure (.yield PUnit.unit) : Call PUnit) { e with constraints := e.constraints.remove source }
          = (.ok ⟨⟩, e₁) ∧
      Joins source target ws { e with constraints := e.constraints.remove source } e₁ ∧
      (forIn old.vars PUnit.unit fun x _ ↦
        if !ws.contains x then do
          Step.leave x target
          pure (.yield PUnit.unit)
        else pure (.yield PUnit.unit) : Call PUnit) e₁ = (.ok ⟨⟩, e₂) ∧
      Leaves target {y | y ∈ old.vars ∧ y ∉ ws} e₁ e₂ ∧
      changeConstraint target f e₂
        = (.ok (), { e₂ with constraints := e₂.constraints.modify target f }) := by
  obtain ⟨e₁, hjoin, hjoins⟩ := joinAll_run
    (e := { e with constraints := e.constraints.remove source }) hne ws
  obtain ⟨e₂, hleave, hleaves⟩ := leaveSome_run (e := e₁) old.vars ws target
  refine ⟨e₁, e₂, hjoin, hjoins, hleave, hleaves, changeConstraint_eq (c := old) ?_ f⟩
  rw [hleaves.constraints, hjoins.constraints, Arena.get?_remove, if_neg hne.symm, hold]

/-- One constraint goes, its variables go over to another one, and that one lists them. -/
theorem maintains_move {β : Type} {old winner : Constraint} {f : Constraint → Constraint}
    {k : Call β} (hne : source ≠ target) (hold : e.constraints.get? target = some old)
    (hwinner : e.constraints.get? source = some winner) (vars : ∀ c, (f c).vars = winner.vars)
    (hk : ∀ e', Within Maintains e' k) : Within Maintains e (do
      modify fun e => { e with constraints := e.constraints.remove source }
      for x in winner.vars do
        Step.modifyVariable x fun v =>
          { v with constraints := SortedSet.add (v.constraints.erase source) target }
      for x in old.vars do
        if !winner.vars.contains x then Step.leave x target
      changeConstraint target f
      k) := by
  refine fun hreturns ht ↦ (?_ : Within (fun _ e' ↦ e'.Tied) e _) hreturns
  obtain ⟨e₁, e₂, hjoin, hjoins, hleave, hleaves, hchange⟩ := move_runs hne hold winner.vars f
  have hremove : (modify fun e ↦ { e with constraints := e.constraints.remove source } : Call PUnit) e
      = (.ok ⟨⟩, { e with constraints := e.constraints.remove source }) := rfl
  refine .ok_bind hremove (.ok_bind hjoin (.ok_bind hleave (.ok_bind hchange fun hne' ↦ ?_)))
  exact hk _ hne' (ht.of_moved hne hold hwinner hjoins hleaves vars)

/-- **Moving a realization** keeps the tables tied. -/
theorem maintains_transplantInto (hne : source ≠ target) :
    Within Maintains e (transplantInto source target) := by
  refine .constraintAt_bind fun old hold ↦ ?_
  refine (sameShape_modifyAll _ _ _).bind_of (fun _ ↦ SameShape.maintains) fun _ e₁ _ h₁ ↦ ?_
  refine .constraintAt_bind fun winner hwinner ↦ ?_
  obtain ⟨old₁, hold₁, hvars⟩ := h₁.constraint_after hold
  rw [← hvars]
  refine maintains_move hne hold₁ hwinner ?_ fun e₂ ↦ ?_
  · exact fun _ ↦ rfl
  refine .lift_bind (SameShape.maintains Step.sameShape_tick) fun _ e₃ _ _ ↦ ?_
  refine Within.bind (.forIn fun x _ _ e₄ _ ↦ ?_) fun _ e₄ _ _ ↦ .get_bind ?_
  · exact .lift_bind (Step.releases_detachUnused x).maintains fun _ _ _ _ ↦ .pure _
  · exact .lift (SameShape.maintains (Step.sameShape_report _))

end Call

end LiveConstraints
