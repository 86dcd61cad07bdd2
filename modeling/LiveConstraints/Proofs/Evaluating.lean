import LiveConstraints.Proofs.Requests
/-!
# What evaluating a predicate comes down to

Evaluating a predicate for a solver touches fields and parts, reads variables, pins some of them and
has the solver compile a term. A relation that these stay within (`Engine.Evaluates`) is one that the
whole evaluation stays within, whether it goes by expressions (`Call.evaluates_compilePredicate`) or is
left to an evaluator from outside (`Call.evaluates_construct`).
-/

namespace LiveConstraints

open Engine

variable {R : Engine → Engine → Prop} {e : Engine} {scope : Scope}

/-- A relation that the parts of an evaluation stay within. -/
class Engine.Evaluates (scope : Scope) (R : Engine → Engine → Prop) : Prop where
  touchField : ∀ {e : Engine} (obj : ObjectId) (name : String) (parent : Option VarId),
    Call.Within R e (Call.touchField scope.constraint scope.solver obj name parent)
  touchPart : ∀ {e : Engine} (parent : VarId) (name : String),
    Call.Within R e (Call.touchPart scope.constraint scope.solver parent name)
  pin : ∀ {e : Engine} (x : VarId), Call.Within R e (Call.pin scope x)
  compile : ∀ {e : Engine} (t : Term),
    Call.Within R e (Call.callSolver scope.solver fun s => s.compile t)

namespace Call

section Preorder

variable [IsPreorder Engine R]

theorem within_unsolvable (scope : Scope) (op : Operator) (folded : Value) :
    Within R e (unsolvable scope op folded) := by
  unfold unsolvable
  split
  · exact .pure _
  · exact .get_bind (.fail _)

theorem within_supported (scope : Scope) (op : Operator) : Within R e (supported scope op) :=
  .get_bind (.pure _)

theorem within_operandOf (scope : Scope) (op : Operator) (term : Option Term) (wrap : Term → Term)
    (v : Value) : Within R e (operandOf scope op term wrap v) := by
  unfold operandOf
  split
  · exact .pure _
  · refine (within_supported scope op).bind fun _ _ _ _ ↦ ?_
    split
    · exact .pure _
    · exact within_unsolvable scope op v

theorem within_applyBinary (scope : Scope) (op : Operator) (l r : Operand) :
    Within R e (applyBinary scope op l r) := by
  unfold applyBinary
  split
  · exact .pure _
  · dsimp only
    split
    · exact .pure _
    · refine (within_supported scope op).bind fun _ _ _ _ ↦ ?_
      split
      · exact .pure _
      · exact within_unsolvable scope op _

end Preorder

theorem reads_variableOperand [Reads R] (scope : Scope) (x : VarId) :
    Within R e (variableOperand scope x) :=
  .get_bind (.lift_bind (Step.reads_read x) fun _ _ _ _ ↦ .pure _)

variable [Reads R] [Evaluates scope R]

theorem evaluates_member (base : Operand) (name : String) :
    Within R e (member scope base name) := by
  unfold member
  split
  · exact (Evaluates.touchField _ _ _).bind fun x _ _ _ ↦ reads_variableOperand scope x
  · split
    · split
      · exact (Evaluates.touchPart _ _).bind fun x _ _ _ ↦ reads_variableOperand scope x
      · split
        · exact .pure _
        · exact .fail _
    · exact .fail _

theorem evaluates_pinOperand (o : Operand) : Within R e (pinOperand scope o) := by
  unfold pinOperand
  split
  · refine (within_fieldNames _).bind fun names e₁ _ _ ↦ ?_
    refine Within.bind (.forIn fun name _ _ e₂ _ ↦ ?_) fun _ _ _ _ ↦ .pure _
    exact (Evaluates.touchField _ _ _).bind fun x _ _ _ ↦
      (Evaluates.pin x).bind fun _ _ _ _ ↦ .pure _
  · exact Evaluates.pin _
  · exact .pure _

theorem evaluates_evaluate (expr : Expr) : Within R e (evaluate scope expr) := by
  induction expr generalizing e with
  | const v => exact .pure _
  | name n =>
    unfold evaluate
    split
    · exact .pure _
    · exact .fail _
  | member base name ih => exact ih.bind fun o _ _ _ ↦ evaluates_member o name
  | readonly inner ih =>
    exact ih.bind fun o _ _ _ ↦ (evaluates_pinOperand o).bind fun _ _ _ _ ↦ .pure _
  | unary op inner ih => exact ih.bind fun o _ _ _ ↦ within_operandOf _ _ _ _ _
  | binary op l r ihl ihr =>
    exact ihl.bind fun l _ _ _ ↦ ihr.bind fun r _ _ _ ↦ within_applyBinary scope op l r
  | inDomain inner domain ih => exact ih.bind fun o _ _ _ ↦ within_operandOf _ _ _ _ _

/-- **Evaluating** a predicate. -/
theorem evaluates_compileTerm (t : Term) : Within R e (compileTerm scope t) := by
  refine .get_bind ((Evaluates.compile t).bind fun result _ _ _ ↦ ?_)
  cases result with
  | ok p => exact .pure _
  | error err => exact .fail _

theorem evaluates_compilePredicate (predicate : Expr) :
    Within R e (compilePredicate scope predicate) := by
  refine (evaluates_evaluate predicate).bind fun top e₁ _ _ ↦ ?_
  split
  · split
    · exact (evaluates_compileTerm _).bind fun _ _ _ _ ↦ .pure _
    · exact .pure _
  · split <;> exact .pure _

theorem evaluates_construct (steps : Construction) : Within R e (construct scope steps) := by
  induction steps generalizing e with
  | done result => exact .ofExcept result
  | touchField obj name parent next ih =>
    exact (Evaluates.touchField obj name parent).attempt.bind fun r _ _ _ ↦ ih r
  | touchPart parent name next ih =>
    exact (Evaluates.touchPart parent name).attempt.bind fun r _ _ _ ↦ ih r
  | pin x next ih => exact (Evaluates.pin x).attempt.bind fun r _ _ _ ↦ ih r
  | fieldNames obj next ih => exact (within_fieldNames obj).attempt.bind fun r _ _ _ ↦ ih r
  | compile t next ih => exact (evaluates_compileTerm t).attempt.bind fun r _ _ _ ↦ ih r
  | read x next ih => exact .lift_bind (Step.reads_read x) fun v _ _ _ ↦ ih v
  | handle x next ih => exact .get_bind (ih _)
  | look next ih =>
    have hprospect : Within R e (prospect scope) := .get_bind (.pure _)
    exact hprospect.bind fun p _ _ _ ↦ ih p

/-- **Evaluating a predicate** stays within whatever the parts of an evaluation stay within. -/
theorem evaluates_evaluatePredicate (predicate : Expr) :
    Within R e (evaluatePredicate scope predicate) := by
  refine .get_bind ?_
  split
  · exact evaluates_compilePredicate predicate
  · exact evaluates_construct _

end Call

end LiveConstraints
