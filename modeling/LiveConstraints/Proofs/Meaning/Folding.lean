import LiveConstraints.Proofs.Reachable
/-!
# Expressions that need no object

An expression without names and members folds to a value. The evaluator finds a value for it as well,
but cuts a connective short as soon as one operand is a boolean, and then hands the other operand over
as it is. `Expr.foldLazily` is what it finds (`Call.evaluate_lazily`), and no solver sees any of it.

The two agree as long as no connective has one operand that is a boolean and one that is not
(`Operator.Mixes`): folding makes such a connective false, while cutting it short may let the other
operand through (`Engine.exists_otherwise_folded`).
-/

namespace LiveConstraints

open Engine

variable {e e' : Engine} {scope : Scope} {expr : Expr} {op : Operator} {l r v : Value} {o : Operand}

theorem Value.of_asBool? {b : Bool} (h : v.asBool? = some b) : v = .bool b := by
  cases v <;> cases h
  rfl

theorem Operand.decided?_native (v : Value) : (Operand.native v).decided? = v.asBool? := by
  cases v <;> rfl

/-! ### Connectives that are cut short -/

namespace Operator

/-- The value of an operator on two values that no solver sees. -/
def applyLazily (op : Operator) (l r : Value) : Value :=
  match Operand.shortcut? op (.native l) (.native r) with
  | some o => o.value
  | none => op.applyBinary l r

/-- A connective has one operand that is a boolean, and one that is not. A conjunction may have a false
one, which decides it in any case. -/
def mixes (op : Operator) (l r : Value) : Bool :=
  match op, l.asBool?, r.asBool? with
  | .and, some b, none | .and, none, some b => b
  | .or, some _, none | .or, none, some _ => true
  | _, _, _ => false

theorem shortcut?_native (op : Operator) (l r : Value) :
    Operand.shortcut? op (.native l) (.native r) = none ∨
      ∃ v, Operand.shortcut? op (.native l) (.native r) = some (.native v) := by
  cases hshort : Operand.shortcut? op (.native l) (.native r) with
  | none => exact .inl rfl
  | some o =>
    obtain rfl | rfl | ⟨b, rfl⟩ := Operand.of_shortcut hshort
    · exact .inr ⟨l, rfl⟩
    · exact .inr ⟨r, rfl⟩
    · exact .inr ⟨.bool b, rfl⟩

theorem applyLazily_and (l r : Value) : Operator.and.applyLazily l r =
    match l.asBool?, r.asBool? with
    | some a, _ => if a then r else .bool false
    | none, some b => if b then l else .bool false
    | none, none => .bool false := by
  unfold applyLazily Operand.shortcut? Operand.decide?
  simp only [Operand.decided?_native]
  cases hl : l.asBool? with
  | some a => cases a <;> rfl
  | none =>
    cases hr : r.asBool? with
    | some b => cases b <;> rfl
    | none => simp [applyBinary, connective, hl]

theorem applyLazily_or (l r : Value) : Operator.or.applyLazily l r =
    match l.asBool?, r.asBool? with
    | some a, _ => if a then .bool true else r
    | none, some b => if b then .bool true else l
    | none, none => .bool false := by
  unfold applyLazily Operand.shortcut? Operand.decide?
  simp only [Operand.decided?_native]
  cases hl : l.asBool? with
  | some a => cases a <;> rfl
  | none =>
    cases hr : r.asBool? with
    | some b => cases b <;> rfl
    | none => simp [applyBinary, connective, hl]

/-- Cutting a connective short makes a difference exactly if it mixes booleans with other values. -/
theorem applyLazily_eq_iff : op.applyLazily l r = op.applyBinary l r ↔ op.mixes l r = false := by
  -- a value that is not a boolean is handed over as it is, where the operator answers with one
  have hne : ∀ {v : Value} {b : Bool}, v.asBool? = none → v ≠ .bool b := by
    rintro v b hv rfl
    cases hv
  cases op with
  | and | or =>
    simp only [applyLazily_and, applyLazily_or, applyBinary, connective]
    unfold mixes
    cases hl : l.asBool? with
    | some a =>
      cases hr : r.asBool? with
      | some b => cases a <;> simp [Value.of_asBool? hr]
      | none => cases a <;> simp [hne hr]
    | none =>
      cases hr : r.asBool? with
      | some b => cases b <;> simp [hne hl]
      | none => simp
  | _ => exact ⟨fun _ ↦ rfl, fun _ ↦ rfl⟩

end Operator

/-! ### Expressions -/

namespace Expr

/-- The value of an expression without names and members, connectives cut short by a boolean. -/
def foldLazily : Expr → Option Value
  | .const v => some v
  | .name _ => none
  | .member _ _ => none
  | .unary op e => e.foldLazily.map op.applyUnary
  | .binary op l r => l.foldLazily.bind fun a => r.foldLazily.map fun b => op.applyLazily a b
  | .readonly e => e.foldLazily
  | .inDomain e domain => e.foldLazily.map fun v => .bool (v.inDomain domain)

/-- No connective of the expression mixes booleans with other values. -/
def Unmixed : Expr → Prop
  | .const _ | .name _ | .member _ _ => True
  | .unary _ e | .readonly e | .inDomain e _ => e.Unmixed
  | .binary op l r => l.Unmixed ∧ r.Unmixed ∧
    ∀ a b, l.fold = some a → r.fold = some b → op.mixes a b = false

/-- Nothing that is wrapped as read-only is an object, whose fields would be intercepted. -/
def PinsNoObject : Expr → Prop
  | .const _ | .name _ | .member _ _ => True
  | .unary _ e | .inDomain e _ => e.PinsNoObject
  | .readonly e => e.PinsNoObject ∧ ∀ obj, e.foldLazily ≠ some (.object obj)
  | .binary _ l r => l.PinsNoObject ∧ r.PinsNoObject

/-- Where no connective mixes booleans with other values, cutting it short is no matter. -/
theorem foldLazily_of_unmixed (h : expr.Unmixed) : expr.foldLazily = expr.fold := by
  induction expr with
  | const v => rfl
  | name n => rfl
  | member base name => rfl
  | unary op inner ih => rw [foldLazily, fold, ih h]
  | readonly inner ih => exact ih h
  | inDomain inner domain ih => rw [foldLazily, fold, ih h]
  | binary op l r ihl ihr =>
    obtain ⟨hl, hr, hroot⟩ := h
    rw [foldLazily, fold, ihl hl, ihr hr]
    cases ha : l.fold with
    | none => rfl
    | some a =>
      cases hb : r.fold with
      | none => rfl
      | some b => exact congrArg some (Operator.applyLazily_eq_iff.2 (hroot a b ha hb))

end Expr

/-! ### What the evaluator finds -/

namespace Call

/-- An operator on two operands that no solver sees. -/
theorem applyBinary_native (scope : Scope) (op : Operator) (l r : Value) :
    applyBinary scope op (.native l) (.native r) = pure (.native (op.applyLazily l r)) := by
  unfold applyBinary Operator.applyLazily
  obtain hnone | ⟨v, hv⟩ := Operator.shortcut?_native op l r
  · rw [hnone]
    rfl
  · rw [hv]
    rfl

/-- No solver sees an expression that needs no object, and its value is the one that cutting connectives
short gives. -/
theorem evaluate_lazily (hfold : expr.foldLazily = some v)
    (hrun : evaluate scope expr e = (.ok o, e')) : o = .native v := by
  induction expr generalizing e e' o v with
  | const w =>
    cases hfold
    cases hrun
    rfl
  | name n => cases hfold
  | member base name => cases hfold
  | unary op inner ih =>
    obtain ⟨w, hw, rfl⟩ := Option.map_eq_some_iff.1 hfold
    obtain ⟨o₁, e₁, hinner, hrest⟩ := of_bind_ok hrun
    obtain rfl := ih hw hinner
    cases hrest
    rfl
  | readonly inner ih =>
    obtain ⟨o₁, e₁, hinner, hrest⟩ := of_bind_ok hrun
    obtain ⟨_, e₂, -, hreturn⟩ := of_bind_ok hrest
    cases hreturn
    exact ih hfold hinner
  | binary op l r ihl ihr =>
    obtain ⟨a, ha, hmap⟩ := Option.bind_eq_some_iff.1 hfold
    obtain ⟨b, hb, rfl⟩ := Option.map_eq_some_iff.1 hmap
    obtain ⟨ol, e₁, hl, hrest⟩ := of_bind_ok hrun
    obtain ⟨or, e₂, hr, happly⟩ := of_bind_ok hrest
    obtain rfl := ihl ha hl
    obtain rfl := ihr hb hr
    rw [applyBinary_native] at happly
    cases happly
    rfl
  | inDomain inner domain ih =>
    obtain ⟨w, hw, rfl⟩ := Option.map_eq_some_iff.1 hfold
    obtain ⟨o₁, e₁, hinner, hrest⟩ := of_bind_ok hrun
    obtain rfl := ih hw hinner
    cases hrest
    rfl

/-- Unless an object is wrapped as read-only, the evaluation succeeds and does nothing else. -/
theorem evaluate_of_pinsNoObject (hfold : expr.foldLazily = some v) (hpins : expr.PinsNoObject) :
    evaluate scope expr e = (.ok (.native v), e) := by
  induction expr generalizing v with
  | const w =>
    cases hfold
    rfl
  | name n => cases hfold
  | member base name => cases hfold
  | unary op inner ih =>
    obtain ⟨w, hw, rfl⟩ := Option.map_eq_some_iff.1 hfold
    rw [evaluate, bind_of_ok (ih hw hpins)]
    rfl
  | readonly inner ih =>
    rw [evaluate, bind_of_ok (ih hfold hpins.1)]
    have hpin : pinOperand scope (.native v) e = (.ok (), e) := by
      cases v with
      | object obj => exact absurd hfold (hpins.2 obj)
      | _ => rfl
    rw [bind_of_ok hpin]
    rfl
  | binary op l r ihl ihr =>
    obtain ⟨a, ha, hmap⟩ := Option.bind_eq_some_iff.1 hfold
    obtain ⟨b, hb, rfl⟩ := Option.map_eq_some_iff.1 hmap
    rw [evaluate, bind_of_ok (ihl ha hpins.1), bind_of_ok (ihr hb hpins.2), applyBinary_native]
    rfl
  | inDomain inner domain ih =>
    obtain ⟨w, hw, rfl⟩ := Option.map_eq_some_iff.1 hfold
    rw [evaluate, bind_of_ok (ih hw hpins)]
    rfl

/-- **Cutting connectives short preserves meaning** where none of them mixes booleans with other values:
the operand of an expression that folds is native and has the value that the expression folds to. The
evaluation succeeds unless an object is wrapped as read-only, whose fields are then intercepted. -/
theorem evaluate_eq_fold (scope : Scope) (e : Engine) (hfold : expr.fold = some v)
    (hunmixed : expr.Unmixed) :
    (∀ o e', evaluate scope expr e = (.ok o, e') → o = .native v) ∧
      (expr.PinsNoObject → evaluate scope expr e = (.ok (.native v), e)) := by
  have hlazily : expr.foldLazily = some v := (Expr.foldLazily_of_unmixed hunmixed).trans hfold
  exact ⟨fun _ _ hrun ↦ evaluate_lazily hlazily hrun, evaluate_of_pinsNoObject hlazily⟩

/-- A negated conjunction of booleans, one of which is a comparison. -/
theorem evaluate_eq_fold_not_and :
    let expr : Expr := .unary .not (.binary .and (.const (.bool true))
      (.readonly (.binary .lt (.const (.text "b")) (.const (.text "a")))))
    evaluate ⟨⟨0⟩, ⟨0⟩, {}⟩ expr (new {}) = (.ok (.native (.bool true)), new {}) := by
  intro expr
  have hfold : expr.fold = some (.bool true) := by rfl
  have hunmixed : expr.Unmixed := by
    refine ⟨trivial, ⟨trivial, trivial, fun a b _ _ ↦ rfl⟩, fun a b ha hb ↦ ?_⟩
    cases ha
    cases hb
    rfl
  have hpins : expr.PinsNoObject := ⟨trivial, ⟨trivial, trivial⟩, nofun⟩
  exact (evaluate_eq_fold _ _ hfold hunmixed).2 hpins

/-- A conjunction of a boolean with a number, compared with the number. -/
def trueAndFive : Expr := .binary .eq (.binary .and (.const (.bool true)) (.const (.number 5)))
  (.const (.number 5))

end Call

namespace Engine

/-- It is asserted. -/
def assertingFive : List Request := [
  .addSolver (.relaxation 1000 1e-9) false,
  .always Call.trueAndFive { allowTests := true }]

/-- The conjunction folds to false, but the evaluator hands the number over. So a predicate that folds to
false is accepted as an assertion that holds. -/
theorem exists_otherwise_folded : Call.trueAndFive.fold = some (.bool false) ∧
    Call.evaluate ⟨⟨0⟩, ⟨0⟩, {}⟩ Call.trueAndFive (new {}) = (.ok (.native (.bool true)), new {}) ∧
    (((new {}).run assertingFive).constraints.get? ⟨0⟩).any (fun c ↦ c.isTest && c.enabled) = true := by
  have hnear : Value.near (.number 5) (.number 5) = true := by decide +kernel
  have hlazily : Call.trueAndFive.foldLazily = some (.bool (Value.near (.number 5) (.number 5))) := rfl
  rw [hnear] at hlazily
  exact ⟨rfl, Call.evaluate_of_pinsNoObject hlazily ⟨⟨trivial, trivial⟩, trivial⟩, by decide +kernel⟩

end Engine

end LiveConstraints
