import LiveConstraints.Proofs.Incidence.Dropping
import LiveConstraints.Proofs.Incidence.Moving
import LiveConstraints.Proofs.Matching.Writing
import LiveConstraints.Proofs.Reachable
/-!
# Whatever is asked keeps the tables tied

No operation of the engine unties its tables (`Engine.Tied`), whatever the solvers answer and whatever
came of the operation: each of them stays within `Engine.Maintains`. Nothing is asked of the solvers, so
the invariant that they are part of is not needed.
-/

namespace LiveConstraints

open Engine

variable {e e' : Engine}

/-! ### Tied tables -/

namespace Engine

instance : Persists Tied Maintains where
  keeps h := h

theorem Tied.aside (ht : e.Tied) (objects : e'.objects = e.objects) (vars : e'.vars = e.vars)
    (constraints : e'.constraints = e.constraints) : e'.Tied :=
  (sameShape_aside objects vars constraints).maintains ht

theorem maintains_aside (objects : e'.objects = e.objects) (vars : e'.vars = e.vars)
    (constraints : e'.constraints = e.constraints) : Maintains e e' :=
  fun ht ↦ ht.aside objects vars constraints

/-- **Whatever is asked keeps the tables tied.** -/
instance : Lasting Maintains where
  defining x := SameShape.maintains (Step.sameShape_defining x)
  beside _ objects vars constraints _ _ _ _ := maintains_aside objects vars constraints
  current h ht := (h (ht.aside rfl rfl rfl)).aside rfl rfl rfl
  annotate _ _ core := (sameShape_constraint fun c ↦ (core c).vars).maintains
  operate _ _ _ := maintains_aside rfl rfl rfl
  defer _ := maintains_aside rfl rfl rfl
  recordHook _ _ _ := maintains_aside rfl rfl rfl
  disable id := SameShape.maintains (Step.sameShape_disable id)
  switch {_ id c} _ := .lift_bind (maintains_aside rfl rfl rfl) fun _ _ _ _ ↦
    ((Call.sameShape_activate id c).mono fun _ ↦ SameShape.maintains).attempt
  deactivate id c := SameShape.maintains (Call.sameShape_deactivate id c)
  abandon := Step.maintains_abandon
  build := Call.maintains_build
  transplantInto := Call.maintains_transplantInto
  reroute {_ id _} hc _ := (Call.maintains_dismantle hc).bind fun _ _ _ _ ↦
    (Call.maintains_realize id).bind fun _ _ _ _ ↦ .constraintAt_bind fun _ _ ↦
      (Call.maintains_forsake _ _).bind fun _ _ _ _ ↦ .pure _
  unconstrain := Call.maintains_unconstrain
  furnish h := SameShape.maintains ⟨h.slots, fun _ ↦ by rw [h.same], fun _ ↦ by rw [h.same]⟩
  register _ := maintains_aside rfl rfl rfl
  store x v := (Call.sameShape_store x v).mono fun _ ↦ SameShape.maintains
  guards _ _ := maintains_aside rfl rfl rfl
  bumpFor x origin d := SameShape.maintains (Call.sameShape_bumpFor x origin d)
  unbump s xs := SameShape.maintains (Step.sameShape_unbump s xs)
  aside _ _ _ _ := maintains_aside rfl rfl rfl
  setReadonly obj field on := (Call.sameShape_setReadonly obj field on).mono fun _ ↦ SameShape.maintains
  setWeight s weight := (Call.sameShape_setWeight s weight).mono fun _ ↦ SameShape.maintains

end Engine

end LiveConstraints
