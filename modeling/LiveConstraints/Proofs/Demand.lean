import LiveConstraints.Proofs.Terms
import LiveConstraints.Solver.Dataflow
import LiveConstraints.Solver.DomainSearch
import LiveConstraints.Solver.Relaxation
/-!
# What a compiled clause demands

The three reference algorithms compile a predicate into three kinds of clauses. `Demand` is what
they have in common: the variables a clause mentions and whether it is met by given values. It is
stated over a look-up of values, not over a solver's state, so that the same demand can be asked of
a solver's own variables and of the values that fields report.

* A relaxation clause is met when none of its relations is violated at the tolerance.
* A dataflow clause is met when each of its equations is balanced: its residual is small, or one of
  its variables holds exactly what the equation leaves to it.
* A domain search clause is met when its predicate evaluates to true.
* A `keeps` clause demands nothing here: it holds a value only while a constraint is rebuilt.
-/

namespace LiveConstraints

/-- The number that a value holds under a look-up; zero where it holds none. -/
def numberOf (value : ExtVar → Value) (x : ExtVar) : Float := (value x).asNumber?.getD 0.0

namespace LinearForm

/-- The value that an equation leaves to one of its variables. -/
def remainder (f : LinearForm) (number : ExtVar → Float) (x : ExtVar) : Float :=
  Float.neg (f.evaluate fun y ↦ if y == x then 0.0 else number y)
    / (f.coefficients.find? x).getD 0.0

/-- An equation has a small residual, or one of its variables holds what it leaves to it. -/
def Balanced (f : LinearForm) (value : ExtVar → Value) : Prop :=
  ¬ Dataflow.tolerance < (f.evaluate (numberOf value)).abs ∨
    ∃ x ∈ f.vars, value x = .number (f.remainder (numberOf value) x)

/-- What is left to a variable depends on the other variables only. -/
theorem remainder_congr {f : LinearForm} {v w : ExtVar → Float} {x : ExtVar}
    (h : ∀ y ∈ f.vars, y ≠ x → v y = w y) : f.remainder v x = f.remainder w x := by
  have heval : f.evaluate (fun y ↦ if y == x then 0.0 else v y)
      = f.evaluate fun y ↦ if y == x then 0.0 else w y :=
    evaluate_congr fun y hy ↦ by
      by_cases hyx : y = x
      · simp [hyx]
      · rw [h y hy hyx]
  rw [remainder, remainder, heval]

theorem Balanced.congr {f : LinearForm} {v w : ExtVar → Value} (h : ∀ x ∈ f.vars, v x = w x)
    (hv : f.Balanced v) : f.Balanced w := by
  have hnumber : ∀ x ∈ f.vars, numberOf v x = numberOf w x :=
    fun x hx ↦ by rw [numberOf, numberOf, h x hx]
  rcases hv with hres | ⟨x, hx, hval⟩
  · exact .inl (by rwa [← evaluate_congr hnumber])
  · refine .inr ⟨x, hx, ?_⟩
    rw [← h x hx, hval, remainder_congr fun y hy _ ↦ hnumber y hy]

end LinearForm

/-- What a compiled clause demands of the variables of its solver. -/
inductive Demand where
  /-- Linear relations, at a tolerance. -/
  | relations (tolerance : Float) (rels : List LinearRelation)
  /-- Linear equations. -/
  | equations (forms : List LinearForm)
  /-- A predicate. -/
  | predicate (t : Term)
  /-- A temporary demand that a variable keeps its value. -/
  | keeps

namespace Demand

/-- Whether the clause is a compiled predicate. -/
def IsRelation : Demand → Prop
  | .keeps => False
  | _ => True

/-- A variable occurs in the clause. -/
def Mentions (x : ExtVar) : Demand → Prop
  | .relations _ rels => ∃ rel ∈ rels, x ∈ rel.form.vars
  | .equations forms => ∃ f ∈ forms, x ∈ f.vars
  | .predicate t => t.Mentions x
  | .keeps => False

/-- The clause is met by given values. -/
def Met (value : ExtVar → Value) : Demand → Prop
  | .relations tolerance rels => ∀ rel ∈ rels, rel.violation? (numberOf value) tolerance = none
  | .equations forms => ∀ f ∈ forms, f.Balanced value
  | .predicate t => (t.evaluate value).isTrue = true
  | .keeps => True

instance (v : Value) (x : Float) : Decidable (v = .number x) :=
  match v with
  | .number y => decidable_of_iff (y = x) ⟨congrArg Value.number, fun h ↦ by cases h; rfl⟩
  | .none | .bool _ | .text _ | .point _ | .color _ | .object _ => .isFalse nofun

instance (v : Option Value) (x : Float) : Decidable (v = some (.number x)) :=
  match v with
  | some u => decidable_of_iff (u = .number x) ⟨congrArg some, Option.some.inj⟩
  | none => isFalse nofun

instance (f : LinearForm) (value : ExtVar → Value) : Decidable (f.Balanced value) :=
  inferInstanceAs (Decidable (_ ∨ _))

instance (value : ExtVar → Value) (d : Demand) : Decidable (d.Met value) :=
  match d with
  | .relations tolerance rels => inferInstanceAs (Decidable (∀ rel ∈ rels,
      rel.violation? (numberOf value) tolerance = none))
  | .equations forms => inferInstanceAs (Decidable (∀ f ∈ forms, f.Balanced value))
  | .predicate t => inferInstanceAs (Decidable ((t.evaluate value).isTrue = true))
  | .keeps => .isTrue trivial

/-- Every equation has one coefficient for each variable. -/
def WellFormed : Demand → Prop
  | .equations forms => ∀ f ∈ forms, f.Ordered
  | _ => True

/-- Whether a clause is met depends on the variables it mentions only. -/
theorem Met.congr {d : Demand} {v w : ExtVar → Value} (h : ∀ x, d.Mentions x → v x = w x)
    (hv : d.Met v) : d.Met w := by
  cases d with
  | relations tolerance rels =>
    intro rel hrel
    have hnumber : ∀ x ∈ rel.form.vars, numberOf v x = numberOf w x :=
      fun x hx ↦ by rw [numberOf, numberOf, h x ⟨rel, hrel, hx⟩]
    rw [← LinearRelation.violation?_congr hnumber]
    exact hv rel hrel
  | equations forms => exact fun f hf ↦ (hv f hf).congr fun x hx ↦ h x ⟨f, hf, hx⟩
  | predicate t =>
    show (t.evaluate w).isTrue = true
    rw [← Term.evaluate_congr h]
    exact hv
  | keeps => trivial

end Demand

/-! ### Variables of a solver -/

namespace Slots

variable {s s' s'' : Slots} {x y : ExtVar} {v : Value}

theorem number_eq (s : Slots) : s.number = numberOf s.value := by
  funext x
  rw [number, numberOf, value]
  cases s.get? x with
  | none => rfl
  | some c => rfl

theorem get?_assign (s : Slots) (x : ExtVar) (v : Value) (y : ExtVar) :
    (s.assign x v).get? y
      = if y = x then (s.get? y).map fun c ↦ { c with value := v } else s.get? y :=
  Arena.get?_modify ..

theorem value_assign_of_ne (h : y ≠ x) : (s.assign x v).value y = s.value y := by
  rw [value, get?_assign, if_neg h, value]

theorem value_assign_self (h : s.contains x = true) : (s.assign x v).value x = v := by
  obtain ⟨c, hc⟩ := Arena.contains_iff.1 h
  rw [value, get?_assign, if_pos rfl, hc]
  rfl

/-- What a run may not touch: the read-only flag and the stay. -/
def flags (s : Slots) (x : ExtVar) : Option (Bool × Option Priority) :=
  (s.get? x).map fun c ↦ (c.readonly, c.stay)

/-- Only values differ: the same variables exist, with the same flags. -/
def Reassigned (s s' : Slots) : Prop := s'.next = s.next ∧ s'.flags = s.flags

theorem Reassigned.refl (s : Slots) : Reassigned s s := ⟨rfl, rfl⟩

theorem Reassigned.trans (h : Reassigned s s') (h' : Reassigned s' s'') : Reassigned s s'' :=
  ⟨h'.1.trans h.1, h'.2.trans h.2⟩

theorem Reassigned.assign (s : Slots) (x : ExtVar) (v : Value) : Reassigned s (s.assign x v) := by
  refine ⟨Arena.next_modify .., funext fun y ↦ ?_⟩
  rw [flags, flags, get?_assign]
  split
  · rw [Option.map_map]
    rfl
  · rfl

theorem Reassigned.isSome_get? (h : Reassigned s s') (x : ExtVar) :
    (s'.get? x).isSome = (s.get? x).isSome := by
  have hx := congrArg Option.isSome (congrFun h.2 x)
  rwa [flags, flags, Option.isSome_map, Option.isSome_map] at hx

theorem Reassigned.contains (h : Reassigned s s') (x : ExtVar) : s'.contains x = s.contains x :=
  h.isSome_get? x

theorem Reassigned.isReadonly (h : Reassigned s s') (x : ExtVar) :
    s'.isReadonly x = s.isReadonly x := by
  have hx := congrArg (Option.map Prod.fst) (congrFun h.2 x)
  rw [flags, flags, Option.map_map, Option.map_map] at hx
  exact congrArg (Option.getD · false) hx

theorem Reassigned.isFree (h : Reassigned s s') (x : ExtVar) : s'.isFree x = s.isFree x := by
  have hx := congrArg (Option.any fun flag ↦ flag.2.isNone) (congrFun h.2 x)
  rwa [flags, flags, Option.any_map, Option.any_map] at hx

theorem of_assign?_ok (h : s.assign? x v = .ok s') : s.contains x = true ∧ s' = s.assign x v := by
  unfold assign? at h
  split at h
  · next hx =>
    cases h
    exact ⟨hx, rfl⟩
  · cases h

end Slots

end LiveConstraints
