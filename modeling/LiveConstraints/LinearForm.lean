import LiveConstraints.SortedMap
import LiveConstraints.Solver.Error
/-!
# Linear forms

The shape both numeric solvers work on: `Σ cᵢ · xᵢ + k` compared with zero. `LinearForm.ofTerm`
lowers an arithmetic term into a form and `LinearRelation.ofTerm` a conjunction of comparisons into
relations; whatever is not linear is refused with its reason.

A stored coefficient is never smaller than `coefficientFloor` in magnitude: each operation that
could produce a smaller one, or a not-a-number, drops it. Dividing by a stored coefficient is
therefore always meaningful.
-/

namespace LiveConstraints

/-- Coefficients smaller than this are dropped. -/
def coefficientFloor : Float := 1e-12

/-- A linear form `Σ cᵢ · xᵢ + k`. -/
structure LinearForm where
  /-- The coefficients, in order of their variables. -/
  coefficients : SortedMap ExtVar Float
  /-- The constant. -/
  constant : Float

namespace LinearForm

/-- The form without variables. -/
def ofConstant (k : Float) : LinearForm := ⟨∅, k⟩

/-- The form that is one variable. -/
def ofVariable (x : ExtVar) : LinearForm := ⟨SortedMap.empty.insert x 1.0, 0.0⟩

/-- Whether no variable is left. -/
def isConstant (f : LinearForm) : Bool := f.coefficients.isEmpty

/-- The variables of a form, in order. -/
def vars (f : LinearForm) : List ExtVar := f.coefficients.keys

/-- Drops the coefficients below the floor. -/
def prune (f : LinearForm) : LinearForm :=
  { f with coefficients := ⟨f.coefficients.entries.filter fun e => coefficientFloor ≤ e.2.abs⟩ }

/-- Adds to the constant. -/
def plusConstant (f : LinearForm) (k : Float) : LinearForm := { f with constant := f.constant + k }

/-- Multiplies by a number. -/
def scaled (f : LinearForm) (factor : Float) : LinearForm :=
  prune ⟨⟨f.coefficients.entries.map fun e => (e.1, e.2 * factor)⟩, f.constant * factor⟩

/-- Adds `sign` times another form. -/
def plus (f g : LinearForm) (sign : Float) : LinearForm :=
  let coefficients := g.coefficients.entries.foldl
    (fun m e => m.insert e.1 ((m.find? e.1).getD 0.0 + sign * e.2)) f.coefficients
  prune ⟨coefficients, f.constant + sign * g.constant⟩

/-- The value of a form. The sum runs in order of the variables and starts from the negative zero,
so that a sum of negative zeros keeps its sign. -/
def evaluate (f : LinearForm) (value : ExtVar → Float) : Float :=
  f.coefficients.entries.foldl (fun sum e => sum + e.2 * value e.1) (-0.0) + f.constant

/-- Lowers an arithmetic term. A divisor is lowered before its dividend, and its faults are reported
first. -/
def ofTerm : Term → Except Limitation LinearForm
  | .var x => .ok (ofVariable x)
  | .const (.number k) => .ok (ofConstant k)
  | .const v => .error (.nonNumericConstant v)
  | .unary .neg t => do
    let f ← ofTerm t
    return f.scaled (-1.0)
  | .binary .add l r => do
    let f ← ofTerm l
    let g ← ofTerm r
    return f.plus g 1.0
  | .binary .sub l r => do
    let f ← ofTerm l
    let g ← ofTerm r
    return f.plus g (-1.0)
  | .binary .mul l r => do
    let f ← ofTerm l
    let g ← ofTerm r
    if f.isConstant then return g.scaled f.constant
    else if g.isConstant then return f.scaled g.constant
    else throw (.nonLinearProduct (.binary .mul l r))
  | .binary .div l r => do
    let g ← ofTerm r
    if !g.isConstant then throw (.divisionByVariable (.binary .div l r))
    if g.constant.abs < coefficientFloor then throw (.divisionByZero (.binary .div l r))
    let f ← ofTerm l
    return f.scaled (1.0 / g.constant)
  | .unary op _ => .error (.operatorInLinearTerm op)
  | .binary op _ _ => .error (.operatorInLinearTerm op)
  | .inDomain _ _ => .error .domainInLinearTerm

end LinearForm

/-- How a linear form is compared with zero. -/
inductive Comparison where
  /-- Equal to zero. -/
  | eq
  /-- At most zero. -/
  | le
  /-- At least zero. -/
  | ge
  deriving DecidableEq, Repr

/-- The comparison an operator stands for. -/
def Comparison.ofOperator? : Operator → Option Comparison
  | .eq => some .eq
  | .le => some .le
  | .ge => some .ge
  | _ => none

/-- A linear form compared with zero. -/
structure LinearRelation where
  /-- The form. -/
  form : LinearForm
  /-- The comparison. -/
  comparison : Comparison

namespace LinearRelation

/-- The value of the form when it breaks the relation by more than the tolerance. -/
def violation? (rel : LinearRelation) (value : ExtVar → Float) (tolerance : Float) : Option Float :=
  let residual := rel.form.evaluate value
  let violated : Bool :=
    match rel.comparison with
    | .eq => tolerance < residual.abs
    | .le => tolerance < residual
    | .ge => residual < -tolerance
  if violated then some residual else none

/-- Lowers one conjunct. The literal `true` demands nothing. -/
def ofConjunct? : Term → Except Limitation (Option LinearRelation)
  | .const (.bool true) => .ok none
  | .binary op l r =>
    match Comparison.ofOperator? op with
    | none => .error (.relationNotLinear op)
    | some comparison => do
      let f ← LinearForm.ofTerm l
      let g ← LinearForm.ofTerm r
      return some ⟨f.plus g (-1.0), comparison⟩
  | t => .error (.termNotLinear t)

/-- Lowers a conjunction into one relation for each conjunct that demands anything. -/
def ofTerm (t : Term) : Except Limitation (List LinearRelation) := do
  let rels ← t.conjuncts.mapM ofConjunct?
  return rels.filterMap id

end LinearRelation

end LiveConstraints
