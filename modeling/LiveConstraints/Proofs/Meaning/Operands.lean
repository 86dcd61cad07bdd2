import LiveConstraints.Proofs.Evaluation
import LiveConstraints.Proofs.Meaning.Granting
import LiveConstraints.Proofs.Meaning.Preparing
/-!
# Operands mean the same to the engine and to a solver

An operand carries a value, and a term if the solver sees it. While a constraint is evaluated for a
solver, that solver defines every variable that it has a handle for, so the value that an operand
was given is the one that its term has at the solver's own values (`Operand.Agrees`).

The evaluation changes the engine as it goes: fields are intercepted, parts get variables of their own,
the solver is asked to represent them and some are pinned. None of this takes a handle away, and all that
happens to the solver prepares it for the constraint (`Engine.Furthers`). A solver that is considerate
does not change a value then that it handed out, so operands keep agreeing until the last of them is
compiled (`Call.agrees_evaluate`).
-/

namespace LiveConstraints

open Engine

variable {α : Type} {e e' e'' : Engine} {id : ConstraintId} {s : SolverId} {x : VarId} {h : ExtVar}
  {o : Operand} {scope : Scope}

/-! ### What stays while a predicate is evaluated -/

namespace Engine

/-- What a constraint that is being built has gathered for its solver stays, the handles and who takes
part; and the solver is prepared for it. -/
structure Furthers (id : ConstraintId) (s : SolverId) (e e' : Engine) : Prop where
  current : e'.guards.current = e.guards.current
  honours : Honours e e'
  bound : ∀ {x h}, e.Bound x s h → e'.Bound x s h
  takes : ∀ {x}, e.TakesPart x id → e'.TakesPart x id
  missing : e.solvers.get? s = none → e'.solvers.get? s = none
  solver : ∀ {t}, e.solvers.get? s = some t → ∃ t', e'.solvers.get? s = some t' ∧ t.Prepares t'

instance : IsPreorder Engine (Furthers id s) where
  refl e := ⟨rfl, refl_of Honours e, fun h ↦ h, fun h ↦ h, fun h ↦ h, fun {t} ht ↦ ⟨t, ht, .refl t⟩⟩
  trans _ _ _ h h' := {
    current := h'.current.trans h.current
    honours := trans_of Honours h.honours h'.honours
    bound := fun hb ↦ h'.bound (h.bound hb)
    takes := fun hx ↦ h'.takes (h.takes hx)
    missing := h'.missing ∘ h.missing
    solver := fun ht ↦ by
      obtain ⟨t', ht', hprepares⟩ := h.solver ht
      obtain ⟨t'', ht'', hprepares'⟩ := h'.solver ht'
      exact ⟨t'', ht'', hprepares.trans hprepares'⟩ }

/-- The solver was there before. -/
theorem Furthers.exists_before (hf : Furthers id s e e') {t' : Solver}
    (ht' : e'.solvers.get? s = some t') : ∃ t, e.solvers.get? s = some t ∧ t.Prepares t' := by
  cases ht : e.solvers.get? s with
  | none => cases (hf.missing ht).symm.trans ht'
  | some t =>
    obtain ⟨t'', ht'', hprepares⟩ := hf.solver ht
    cases ht'.symm.trans ht''
    exact ⟨t, rfl, hprepares⟩

theorem Furthers.attached (hf : Furthers id s e e') (hattached : e.Attached id s h) :
    e'.Attached id s h := by
  obtain ⟨x, hbound, htakes⟩ := hattached
  exact ⟨x, hf.bound hbound, hf.takes htakes⟩

/-- Variables come and change, but keep their handles and memberships. -/
theorem furthers_of_vars (honours : Honours e e') (solvers : e'.solvers = e.solvers)
    (constraints : e'.constraints = e.constraints) (current : e'.guards.current = e.guards.current)
    (kept : ∀ x v, e.vars.get? x = some v → ∃ w, e'.vars.get? x = some w ∧
      (∀ h, v.handle? s = some h → w.handle? s = some h) ∧
        (id ∈ v.constraints.members → id ∈ w.constraints.members)) :
    Furthers id s e e' where
  current := current
  honours := honours
  bound := by
    rintro x h ⟨v, hv, hh⟩
    obtain ⟨w, hw, handle, -⟩ := kept x v hv
    exact ⟨w, hw, handle h hh⟩
  takes := by
    rintro x ⟨⟨v, hv, hid⟩, hc⟩
    obtain ⟨w, hw, -, member⟩ := kept x v hv
    exact ⟨⟨w, hw, member hid⟩, constraints ▸ hc⟩
  missing ht := by rwa [solvers]
  solver {t} ht := ⟨t, solvers ▸ ht, .refl t⟩

theorem furthers_modify {f : Variable → Variable}
    (granted : ∀ v, ∀ b ∈ (f v).bindings.entries, b ∈ v.bindings.entries ∨ e.Grants b)
    (kept : ∀ v, e.vars.get? x = some v → (∀ h, v.handle? s = some h → (f v).handle? s = some h) ∧
      (id ∈ v.constraints.members → id ∈ (f v).constraints.members)) :
    Furthers id s e { e with vars := e.vars.modify x f } := by
  refine furthers_of_vars (honours_variable granted) rfl rfl rfl fun y v hv ↦ ?_
  refine ⟨_, get?_modify_of_get? hv, ?_⟩
  split
  · next hy => exact kept v (hy ▸ hv)
  · exact ⟨fun _ hh ↦ hh, fun hid ↦ hid⟩

/-- The solver is prepared. -/
theorem furthers_solver {f : Solver → Solver} (call : SolverCall) (hcall : call.isPreparation = true)
    (hf : ∀ t, e.solvers.get? s = some t → f t = t.after call) :
    Furthers id s e { e with solvers := e.solvers.modify s f } where
  current := rfl
  honours := honours_solver fun t ht _ hh ↦ by
    rw [hf t ht]
    exact Solver.handedOut_after hcall hh
  bound hb := hb
  takes hx := hx
  missing ht := by
    dsimp only
    rw [Arena.get?_modify_self, ht, Option.map_none]
  solver {t} ht := by
    refine ⟨f t, ?_, hf t ht ▸ (Solver.Prepares.refl t).after hcall⟩
    dsimp only
    rw [Arena.get?_modify_self, ht, Option.map_some]

theorem Recalls.furthers (hrecalls : Recalls e e') : Furthers id s e e' where
  current := by rw [hrecalls.guards]
  honours := hrecalls.honours
  bound := hrecalls.bound.2
  takes hx := ⟨hrecalls.lists.2 hx.1, by rw [hrecalls.constraints]; exact hx.2⟩
  missing ht := by rw [hrecalls.solvers, ht]
  solver {t} ht := ⟨t, by rw [hrecalls.solvers, ht], .refl t⟩

instance : Reads (Furthers id s) where
  defining x := (Step.recalls_defining x).mono fun _ ↦ Recalls.furthers

end Engine

namespace Call

theorem furthers_tick : Step.Within (Furthers id s) e Step.tick :=
  furthers_of_vars (honours_aside rfl rfl) rfl rfl rfl fun _ v hv ↦ ⟨v, hv, fun _ h ↦ h, fun h ↦ h⟩

/-- A variable changes apart from its links. -/
theorem furthers_modifyVariable {f : Variable → Variable} (links : ∀ v, SameLinks v (f v)) :
    Step.Within (Furthers id s) e (Step.modifyVariable x f) := by
  refine furthers_modify (fun v b hb ↦ .inl ?_) fun v _ ↦ ⟨fun h hh ↦ ?_, fun hid ↦ ?_⟩
  · rwa [← (links v).bindings]
  · rwa [Variable.handle?, (links v).bindings]
  · rwa [(links v).constraints]

/-! ### Variables of fields and parts -/

theorem furthers_allocate {v : Variable} (blank : Blank v) :
    Within (Furthers id s) e (allocate v) := by
  refine .get_bind (.modify_bind ?_ (.lift_bind furthers_tick fun _ _ _ _ ↦ .pure _))
  refine furthers_of_vars (Ordinary.allocate blank) rfl rfl rfl fun x w hw ↦ ?_
  exact ⟨w, Arena.get?_insert_of_get? hw, fun _ h ↦ h, fun h ↦ h⟩

theorem furthers_setSlot (obj : ObjectId) (field : String) (slot : FieldSlot) :
    Within (Furthers id s) e (setSlot obj field slot) := .objectAt_bind fun _ _ _ ↦
  furthers_of_vars (honours_aside rfl rfl) rfl rfl rfl fun _ v hv ↦ ⟨v, hv, fun _ h ↦ h, fun h ↦ h⟩

theorem furthers_fieldVariable (obj : ObjectId) (name : String) (parent : Option VarId) :
    Within (Furthers id s) e (fieldVariable obj name parent) := by
  refine .slotAt_bind fun slot _ ↦ ?_
  cases slot with
  | intercepted x =>
    refine .lift_bind (furthers_modifyVariable fun v ↦ ?_) fun _ _ _ _ ↦ .pure _
    split <;> exact ⟨rfl, rfl, rfl⟩
  | plain shadow =>
    refine (furthers_allocate ⟨rfl, rfl, rfl, rfl⟩).bind fun x e₁ _ _ ↦ ?_
    exact (furthers_setSlot _ _ _).bind fun _ _ _ _ ↦ .pure _

theorem furthers_partVariable (parent : VarId) (name : String) :
    Within (Furthers id s) e (partVariable parent name) := by
  refine .variableAt_bind fun v _ ↦ ?_
  split
  · exact .pure _
  · refine .lift_bind (Step.reads_read parent) fun w e₁ _ _ ↦ ?_
    split
    · exact .fail _
    · refine (furthers_allocate ⟨rfl, rfl, rfl, rfl⟩).bind fun x e₂ _ _ ↦ ?_
      refine .lift_bind (furthers_modifyVariable fun v ↦ ?_) fun _ _ _ _ ↦ .pure _
      exact ⟨rfl, rfl, rfl⟩

/-! ### Taking part -/

/-- The solver is asked to represent a variable that it was not asked about before. -/
theorem furthers_bind (x : VarId) : Within (Furthers id s) e (bind x s) := by
  refine .variableAt_bind fun v hv ↦ ?_
  split
  swap
  · exact .pure _
  next hnew =>
  refine .lift_bind_of (Step.recalls_read x) (fun _ ↦ Recalls.furthers) fun value e₁ _ hrecalls ↦
    .get_bind ?_
  refine .callSolver_bind (fun t ht ↦ ?_) fun t ht ↦ ?_
  · refine furthers_solver (.declare value (e₁.fieldLabel x)) rfl fun t' ht' ↦ ?_
    cases ht.symm.trans ht'
    rfl
  refine .lift_bind (furthers_modify (fun w b hb ↦ ?_) fun w hw ↦ ⟨fun h hh ↦ ?_, fun hid ↦ hid⟩)
    fun _ _ _ _ ↦ .lift furthers_tick
  · obtain rfl | hb := SortedMap.mem_insertIn hb
    · exact .inr (grants_declare ht value _)
    · exact .inl hb
  · exact absurd ⟨w, hw, hh⟩ (not_bound_of_new hv hnew hrecalls h)

theorem furthers_changeConstraint {f : Constraint → Constraint} (vars : ∀ c, c.vars ⊆ (f c).vars) :
    Within (Furthers id s) e (changeConstraint id f) := .constraintAt_bind fun _ _ ↦ .lift {
  current := rfl
  honours := honours_aside rfl rfl
  bound := fun hb ↦ hb
  takes := by
    rintro x ⟨hlists, c, hc, hx⟩
    refine ⟨hlists, f c, ?_, vars c hx⟩
    show (e.constraints.modify id f).get? id = some (f c)
    rw [Arena.get?_modify_self, hc, Option.map_some]
  missing := fun h ↦ h
  solver := fun {t} ht ↦ ⟨t, ht, .refl t⟩ }

theorem furthers_attach (x : VarId) : Within (Furthers id s) e (attach id s x) := by
  refine .lift_bind (furthers_modify (fun _ _ hb ↦ .inl hb) fun v _ ↦ ⟨fun _ hh ↦ hh, fun hid ↦ ?_⟩)
    fun _ e₁ _ _ ↦ ?_
  · exact SortedSet.mem_members_add.2 (.inr hid)
  · refine (furthers_changeConstraint fun c ↦ ?_).bind fun _ e₂ _ _ ↦ furthers_bind x
    split
    · exact List.Subset.refl _
    · exact List.subset_append_left _ _

/-- Once attached, a variable takes part in the constraint. -/
theorem gives_attach (x : VarId) :
    Gives (Furthers id s) e (attach id s x) fun _ e' ↦ e'.TakesPart x id where
  within := furthers_attach x
  result _ e' hrun := by
    obtain ⟨e₁, -, htakes, hbind⟩ := of_attach_ok hrun
    exact ((furthers_bind x).of_ok hbind).takes htakes

theorem gives_touchField (obj : ObjectId) (name : String) (parent : Option VarId) :
    Gives (Furthers id s) e (touchField id s obj name parent) fun x e' ↦ e'.TakesPart x id :=
  (furthers_fieldVariable obj name parent).bind_gives fun x _ _ _ ↦
    (gives_attach x).bind fun _ _ _ htakes ↦ .pure htakes

theorem gives_touchPart (parent : VarId) (name : String) :
    Gives (Furthers id s) e (touchPart id s parent name) fun x e' ↦ e'.TakesPart x id :=
  (furthers_partVariable parent name).bind_gives fun x _ _ _ ↦
    (gives_attach x).bind fun _ _ _ htakes ↦ .pure htakes

/-- The solver is called to be prepared. -/
theorem furthers_callSolver {f : Solver → α × Solver} (call : SolverCall)
    (hcall : call.isPreparation = true) (hf : ∀ t : Solver, (f t).2 = t.after call) :
    Within (Furthers id s) e (callSolver s f) := .of_callSolver fun t ht ↦
  furthers_solver call hcall fun t' ht' ↦ by
    cases ht.symm.trans ht'
    exact hf t

instance {options : ConstraintOptions} : Evaluates ⟨id, s, options⟩ (Furthers id s) where
  touchField obj name parent := (gives_touchField obj name parent).within
  touchPart parent name := (gives_touchPart parent name).within
  pin x := by
    refine .get_bind ?_
    split
    · exact furthers_callSolver (.setReadonly _ true) rfl fun _ ↦ rfl
    · exact .pure _
  compile t := furthers_callSolver (.compile t) rfl fun _ ↦ rfl

end Call

/-! ### Operands -/

/-- What the solver sees of an operand has the operand's value at the solver's own values, and is
attached to the constraint. -/
structure Operand.Agrees (o : Operand) (id : ConstraintId) (s : SolverId) (e : Engine) : Prop where
  value : ∀ t, o.term = some t → t.evaluate (e.valueIn s) = o.value
  seen : o.Seen id s e

/-- A constraint is built for a solver that is considerate, and every binding is granted, as bindings are
whatever was asked (`Driven.granted`). -/
structure Engine.Constructs (e : Engine) (id : ConstraintId) (s : SolverId) : Prop where
  current : e.guards.current = some (id, s)
  granted : e.Granted
  considerate : ∀ t, e.solvers.get? s = some t → t.Considerate

namespace Engine

theorem Furthers.constructs (hf : Furthers id s e e') (hc : e.Constructs id s) :
    e'.Constructs id s where
  current := hf.current.trans hc.current
  granted := hf.honours hc.granted
  considerate t' ht' := by
    obtain ⟨t, ht, hprepares⟩ := hf.exists_before ht'
    exact (hc.considerate t ht).prepares hprepares

/-- What is bound has the value that it had. -/
theorem Constructs.valueIn_eq (hc : e.Constructs id s) (hf : Furthers id s e e')
    (hbound : e.Bound x s h) : e'.valueIn s h = e.valueIn s h := by
  obtain ⟨v, hv, hh⟩ := hbound
  obtain ⟨t, ht, hhanded⟩ :=
    hc.granted x v hv (s, some h) (SortedMap.mem_of_find? (Option.join_eq_some_iff.1 hh))
  obtain ⟨t', ht', hprepares⟩ := hf.solver ht
  rw [Engine.valueIn_eq ht', Engine.valueIn_eq ht]
  exact ((hc.considerate t ht).preserves hprepares).value (hhanded h rfl)

/-- The solver of the constraint defines what it has a handle for. -/
theorem Constructs.read_eq (hc : e.Constructs id s) (hbound : e.Bound x s h) :
    (Step.read x e).1 = e.valueIn s h := by
  obtain ⟨v, hv, hh⟩ := hbound
  obtain ⟨t, ht, -⟩ :=
    hc.granted x v hv (s, some h) (SortedMap.mem_of_find? (Option.join_eq_some_iff.1 hh))
  have hdefining : (Step.defining x e).1 = some ⟨s, some id, h⟩ := by
    rw [Step.defining_of_some hv, currentDefining?, hc.current]
    simp [hh]
  rw [Step.read_of_defining hdefining ht, Engine.valueIn_eq ht]

end Engine

namespace Operand

theorem agrees_native (v : Value) : (native v).Agrees id s e := ⟨nofun, seen_native v⟩

/-- Evaluating on leaves what an operand is. -/
theorem Agrees.furthers (ho : o.Agrees id s e) (hc : e.Constructs id s) (hf : Furthers id s e e') :
    o.Agrees id s e' := by
  refine ⟨fun t ht ↦ ?_, fun t ht k hk ↦ hf.attached (ho.seen t ht k hk)⟩
  rw [← ho.value t ht]
  refine Term.evaluate_congr fun k hk ↦ ?_
  obtain ⟨x, hbound, -⟩ := ho.seen t ht k hk
  exact hc.valueIn_eq hf hbound

/-- An operand that the solver does not see is a constant to it. -/
theorem Agrees.toTerm (ho : o.Agrees id s e) : o.toTerm.evaluate (e.valueIn s) = o.value := by
  unfold Operand.toTerm
  cases hterm : o.term with
  | none => rfl
  | some t => exact ho.value t hterm

theorem agrees_shortcut {op : Operator} {l r o : Operand} (hl : l.Agrees id s e)
    (hr : r.Agrees id s e) (ho : shortcut? op l r = some o) : o.Agrees id s e := by
  obtain rfl | rfl | ⟨b, rfl⟩ := of_shortcut ho
  · exact hl
  · exact hr
  · exact agrees_native _

end Operand

namespace Call

variable {options : ConstraintOptions}

theorem agrees_unsolvable (scope : Scope) (op : Operator) (folded : Value) :
    Gives (Furthers id s) e (unsolvable scope op folded) (Operand.Agrees · id s) := by
  unfold unsolvable
  split
  · exact .pure (Operand.agrees_native folded)
  · exact .get_bind (.fail _)

/-- Wrapping a term. -/
theorem agrees_operandOf {op : Operator} {wrap : Term → Term} {f : Value → Value}
    (ho : o.Agrees id s e) (wraps : ∀ t lookup, (wrap t).evaluate lookup = f (t.evaluate lookup))
    (mentions : ∀ t k, (wrap t).Mentions k → t.Mentions k) :
    Gives (Furthers id s) e (operandOf scope op o.term wrap (f o.value)) (Operand.Agrees · id s) := by
  cases hterm : o.term with
  | none => exact .pure (Operand.agrees_native _)
  | some t =>
    refine .get_bind ?_
    split
    · refine .pure ⟨fun t' ht' ↦ ?_, fun t' ht' k hk ↦ ?_⟩ <;> cases ht'
      · show (wrap t).evaluate _ = f o.value
        rw [wraps, ho.value t hterm]
      · exact ho.seen t hterm k (mentions t k hk)
    · exact agrees_unsolvable ..

/-- A variable that takes part is read as the solver has it. -/
theorem agrees_variableOperand (hc : e.Constructs id s) (hx : e.TakesPart x id) :
    Gives (Furthers id s) e (variableOperand ⟨id, s, options⟩ x) (Operand.Agrees · id s) := by
  refine .get_bind ⟨.lift_bind (Step.reads_read x) fun _ _ _ _ ↦ .pure _, fun o e' hrun ↦ ?_⟩
  obtain ⟨value, e₁, hread, hrest⟩ := of_bind_ok hrun
  cases hrest
  obtain ⟨hvalue, rfl⟩ := Prod.mk.inj ((lift_run _ e).symm.trans hread)
  cases hvalue
  have hf : Furthers id s e (Step.read x e).2 := (Step.recalls_read x).furthers
  have hbound : ∀ t, ((e.handle? x s).map Term.var) = some t → ∃ h, t = .var h ∧ e.Bound x s h := by
    intro t ht
    obtain ⟨h, hh, rfl⟩ := Option.map_eq_some_iff.1 ht
    exact ⟨h, rfl, Option.bind_eq_some_iff.1 hh⟩
  refine ⟨fun t ht ↦ ?_, fun t ht k hk ↦ ?_⟩
  · obtain ⟨h, rfl, hh⟩ := hbound t ht
    show (Step.read x e).2.valueIn s h = (Step.read x e).1
    rw [hc.valueIn_eq hf hh, hc.read_eq hh]
  · obtain ⟨h, rfl, hh⟩ := hbound t ht
    cases hk
    exact hf.attached ⟨x, hh, hx⟩

theorem agrees_member (hc : e.Constructs id s) (base : Operand) (name : String) :
    Gives (Furthers id s) e (member ⟨id, s, options⟩ base name) (Operand.Agrees · id s) := by
  unfold member
  split
  · exact (gives_touchField _ name _).bind fun x e₁ h₁ hx ↦
      agrees_variableOperand (h₁.constructs hc) hx
  · split
    · split
      · exact (gives_touchPart _ name).bind fun x e₁ h₁ hx ↦
          agrees_variableOperand (h₁.constructs hc) hx
      · split
        · exact .pure (Operand.agrees_native _)
        · exact .fail _
    · exact .fail _

theorem agrees_applyBinary {op : Operator} {l r : Operand} (hl : l.Agrees id s e)
    (hr : r.Agrees id s e) :
    Gives (Furthers id s) e (applyBinary scope op l r) (Operand.Agrees · id s) := by
  unfold applyBinary
  split
  · next o ho => exact .pure (Operand.agrees_shortcut hl hr ho)
  · split
    · exact .pure (Operand.agrees_native _)
    · refine .get_bind ?_
      split
      · refine .pure ⟨fun t ht ↦ ?_, fun t ht k hk ↦ ?_⟩ <;> cases ht
        · show op.applyBinary (l.toTerm.evaluate _) (r.toTerm.evaluate _) = _
          rw [hl.toTerm, hr.toTerm]
          rfl
        · obtain hk | hk := hk
          · exact hl.seen.toTerm hk
          · exact hr.seen.toTerm hk
      · exact agrees_unsolvable ..

/-- **Evaluating.** The operand that comes out means to the solver what it means to the engine. -/
theorem agrees_evaluate (hc : e.Constructs id s) (expr : Expr) :
    Gives (Furthers id s) e (evaluate ⟨id, s, options⟩ expr) (Operand.Agrees · id s) := by
  induction expr generalizing e with
  | const v => exact .pure (Operand.agrees_native v)
  | name n =>
    unfold evaluate
    split
    · exact .pure (Operand.agrees_native _)
    · exact .fail _
  | member base name ih => exact (ih hc).bind fun o e₁ h₁ _ ↦ agrees_member (h₁.constructs hc) o name
  | readonly inner ih =>
    refine (ih hc).bind fun o e₁ h₁ ho ↦ ?_
    exact (evaluates_pinOperand o).bind_gives fun _ e₂ _ h₂ ↦
      .pure (ho.furthers (h₁.constructs hc) h₂)
  | unary op inner ih =>
    exact (ih hc).bind fun o e₁ _ ho ↦ agrees_operandOf ho (fun _ _ ↦ rfl) fun _ _ hk ↦ hk
  | binary op l r ihl ihr =>
    refine (ihl hc).bind fun ol e₁ h₁ hl ↦ (ihr (h₁.constructs hc)).bind fun or e₂ h₂ hr ↦ ?_
    -- the left operand was evaluated first, and still agrees
    exact agrees_applyBinary (hl.furthers (h₁.constructs hc) h₂) hr
  | inDomain inner domain ih =>
    exact (ih hc).bind fun o e₁ _ ho ↦
      agrees_operandOf (f := fun v ↦ .bool (v.inDomain domain)) ho (fun _ _ ↦ rfl) fun _ _ hk ↦ hk

/-- A term that was compiled was compiled by the solver. -/
theorem of_compileTerm {t : Term} {p : Primitive} (hrun : compileTerm scope t e = (.ok p, e')) :
    ∃ solver, e.solvers.get? scope.solver = some solver ∧ (solver.compile t).1 = .ok p ∧
      e' = { e with solvers := e.solvers.modify scope.solver fun _ ↦ (solver.compile t).2 } := by
  obtain ⟨result, e₁, hcompile, hreturn⟩ := of_bind_ok ((get_run _ e).symm.trans hrun)
  rw [callSolver_eq] at hcompile
  cases hsolver : e.solvers.get? scope.solver with
  | none =>
    rw [hsolver] at hcompile
    cases hcompile
  | some solver =>
    rw [hsolver] at hcompile
    obtain ⟨hresult, rfl⟩ := Prod.mk.inj hcompile
    cases result with
    | ok q =>
      cases hreturn
      exact ⟨solver, rfl, Except.ok.inj hresult, rfl⟩
    | error err => cases hreturn

/-- A primitive that was compiled is what the solver made of the operand's term. -/
theorem of_compilePredicate {predicate : Expr} {p : Primitive}
    (hrun : compilePredicate scope predicate e = (.ok (.primitive p), e')) :
    ∃ top t e₁ solver, evaluate scope predicate e = (.ok top, e₁) ∧ top.term = some t ∧
      t.isRelation = true ∧ e₁.solvers.get? scope.solver = some solver ∧
        (solver.compile t).1 = .ok p ∧
          e' = { e₁ with solvers := e₁.solvers.modify scope.solver fun _ ↦ (solver.compile t).2 } := by
  obtain ⟨top, e₁, hevaluate, hrest⟩ := of_bind_ok hrun
  cases hterm : top.term with
  | none =>
    rw [hterm] at hrest
    dsimp only at hrest
    generalize top.value = v at hrest
    cases v <;> cases hrest
  | some t =>
    rw [hterm] at hrest
    dsimp only at hrest
    by_cases hrelation : t.isRelation = true
    swap
    · rw [if_neg hrelation] at hrest
      cases hrest
    rw [if_pos hrelation] at hrest
    obtain ⟨q, e₂, hcompile, hreturn⟩ := of_bind_ok hrest
    cases hreturn
    obtain ⟨solver, hsolver, hresult, rfl⟩ := of_compileTerm hcompile
    exact ⟨top, t, e₁, solver, hevaluate, hterm, hrelation, hsolver, hresult, rfl⟩

/-- **Lowering agrees with native evaluation.** While a constraint is built for a solver, the term of an
operand has at the solver's own values the value that the operand was given, and mentions only what
the solver has for variables that take part in the constraint. Operands that agreed before the
evaluation still do after it; so in the end the solver compiles a term that means what the predicate
does. -/
theorem operands_agree_while_constructing (scope : Scope)
    (hc : e.Constructs scope.constraint scope.solver) (expr : Expr) :
    (∀ o e', evaluate scope expr e = (.ok o, e') →
      o.Agrees scope.constraint scope.solver e' ∧
      e'.Constructs scope.constraint scope.solver ∧
      ∀ earlier : Operand, earlier.Agrees scope.constraint scope.solver e →
        earlier.Agrees scope.constraint scope.solver e') ∧
    ∀ p e', compilePredicate scope expr e = (.ok (.primitive p), e') →
      ∃ top t e₁ solver, evaluate scope expr e = (.ok top, e₁) ∧ top.term = some t ∧
        t.isRelation = true ∧ e₁.solvers.get? scope.solver = some solver ∧
        (solver.compile t).1 = .ok p ∧ top.Agrees scope.constraint scope.solver e' := by
  have hgives : Gives (Furthers scope.constraint scope.solver) e (evaluate scope expr)
      (Operand.Agrees · scope.constraint scope.solver) := agrees_evaluate hc expr
  refine ⟨fun o e' hrun ↦ ?_, fun p e' hrun ↦ ?_⟩
  · have hf := hgives.within.of_ok hrun
    exact ⟨hgives.result o e' hrun, hf.constructs hc, fun _ ho ↦ ho.furthers hc hf⟩
  · obtain ⟨top, t, e₁, solver, hevaluate, hterm, hrelation, hsolver, hcompile, rfl⟩ :=
      of_compilePredicate hrun
    have hc₁ := (hgives.within.of_ok hevaluate).constructs hc
    refine ⟨top, t, e₁, solver, hevaluate, hterm, hrelation, hsolver, hcompile, ?_⟩
    refine (hgives.result top e₁ hevaluate).furthers hc₁
      (furthers_solver (.compile t) rfl fun other hother ↦ ?_)
    cases hsolver.symm.trans hother
    rfl

end Call

namespace Engine

theorem Granted.constructs (hgranted : e.Granted) (id : ConstraintId)
    (hconsiderate : ∀ t, e.solvers.get? s = some t → t.Considerate) :
    Constructs { e with guards := { e.guards with current := some (id, s) } } id s :=
  ⟨rfl, honours_aside rfl rfl hgranted, hconsiderate⟩

/-- A field that a solver keeps below a bound, and another one. -/
def oneBounded : List Request := [
  .addSolver (.relaxation 1000 1e-9) false,
  .createObject [("x", .number 3), ("y", .number 4)],
  .always (.binary .le (Expr.fieldOf 0 "x") (.const (.number 10))) {}]

/-- The engine while a constraint is built for its solver. -/
def oneBuilding : Engine := { (new {}).run oneBounded with
  guards := { ((new {}).run oneBounded).guards with current := some (⟨0⟩, ⟨0⟩) } }

/-- A bound on the sum of both, the second of which the solver may not assign. -/
def sumAtMostTen : Expr := .binary .le
  (.binary .add (Expr.fieldOf 0 "x") (.readonly (Expr.fieldOf 0 "y"))) (.const (.number 10))

end Engine

/-- The bound is compiled to a primitive of the solver, and holds at the solver's values. -/
theorem Call.operands_agree_of_sumAtMostTen :
    oneBuilding.Constructs ⟨0⟩ ⟨0⟩ ∧ ∃ p e' top t e₁,
      compilePredicate ⟨⟨0⟩, ⟨0⟩, {}⟩ sumAtMostTen oneBuilding = (.ok (.primitive p), e') ∧
      evaluate ⟨⟨0⟩, ⟨0⟩, {}⟩ sumAtMostTen oneBuilding = (.ok top, e₁) ∧ top.term = some t ∧
      t.evaluate (e'.valueIn ⟨0⟩) = top.value ∧ top.value.asBool? = some true := by
  have hdriven : Driven {} ((new {}).run oneBounded) := Driven.new.run (by decide +kernel)
  have howns : (((new {}).run oneBounded).solvers.get? ⟨0⟩).all Solver.isOwn = true := by decide +kernel
  have hc : oneBuilding.Constructs ⟨0⟩ ⟨0⟩ := hdriven.granted.constructs ⟨0⟩ fun t ht ↦ by
    rw [ht] at howns
    exact Solver.considerate_of_isOwn howns
  have hvalue : (evaluate ⟨⟨0⟩, ⟨0⟩, {}⟩ sumAtMostTen oneBuilding).1.toOption.bind
      (fun o ↦ o.value.asBool?) = some true := by decide +kernel
  have hprimitive : (compilePredicate ⟨⟨0⟩, ⟨0⟩, {}⟩ sumAtMostTen oneBuilding).1.toOption.any
      (fun | .primitive _ => true | _ => false) = true := by decide +kernel
  rcases hrun : compilePredicate ⟨⟨0⟩, ⟨0⟩, {}⟩ sumAtMostTen oneBuilding with ⟨halt | compiled, e'⟩
  · rw [hrun] at hprimitive
    cases hprimitive
  · rw [hrun] at hprimitive
    cases compiled with
    | primitive p =>
      obtain ⟨top, t, e₁, solver, hevaluate, hterm, -, -, -, hagrees⟩ :=
        (operands_agree_while_constructing ⟨⟨0⟩, ⟨0⟩, {}⟩ hc sumAtMostTen).2 p e' hrun
      rw [hevaluate] at hvalue
      exact ⟨hc, p, e', top, t, e₁, rfl, hevaluate, hterm, hagrees.value t hterm, hvalue⟩
    | native b => cases hprimitive
    | value v => cases hprimitive

end LiveConstraints
