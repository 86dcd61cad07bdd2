import LiveConstraints.Engine.Release
/-!
# Evaluating predicates

A predicate is evaluated once for each candidate solver: as an expression, unless the engine has an
evaluator of its own. The fields it touches are intercepted on the way and bound to the solver. An
operation on an operand that the solver has a handle for becomes a term; everything else is evaluated
to a value at once.

Every operand carries its current value. An operand with a term is what the solver sees: evaluating
the term at the solver's own values gives the operand's value. Conjunction and disjunction are cut
short by an operand that is already decided, whichever side it stands on.
-/

namespace LiveConstraints

/-- The constraint that is being built, as the evaluator sees it. -/
structure Scope where
  /-- The constraint. -/
  constraint : ConstraintId
  /-- Its solver. -/
  solver : SolverId
  /-- Its options. -/
  options : ConstraintOptions

/-- An evaluated expression. -/
structure Operand where
  /-- What the solver sees, if it sees anything. -/
  term : Option Term := none
  /-- The current value. -/
  value : Value
  /-- The variable the operand was read from. -/
  source : Option VarId := none

namespace Operand

/-- An operand that no solver sees. -/
def native (v : Value) : Operand := { value := v }

/-- An operand that the solver computes. -/
def symbolic (t : Term) (v : Value) : Operand := { term := some t, value := v }

/-- The operand as a term; a native operand is a constant. -/
def toTerm (o : Operand) : Term := o.term.getD (.const o.value)

/-- The boolean of a native operand. -/
def decided? (o : Operand) : Option Bool :=
  match o.term, o.value with
  | none, .bool b => some b
  | _, _ => none

/-- Decides a connective by one of its operands alone: `absorbing` decides it, the other boolean
leaves the other operand. -/
def decide? (absorbing : Bool) (this other : Operand) : Option Operand :=
  match this.decided? with
  | some b => some (if b = absorbing then native (.bool absorbing) else other)
  | none => none

/-- Decides a connective by one of its operands, the left one first. -/
def shortcut? (op : Operator) (l r : Operand) : Option Operand :=
  match op with
  | .and => (decide? false l r).or (decide? false r l)
  | .or => (decide? true l r).or (decide? true r l)
  | _ => none

end Operand

/-- Whether a term relates or connects. -/
def Term.isRelation : Term → Bool
  | .binary op _ _ => op.isRelation || op.isLogical
  | .unary .not _ => true
  | .inDomain _ _ => true
  | _ => false

/-- The priority a constraint gets when its options name none. -/
def BuildMode.defaultPriority : BuildMode → Priority
  | .always => .required
  | .stay => .weak

namespace Call

/-- Gives up on an operation the solver cannot express, or evaluates it once if that is allowed. -/
def unsolvable (scope : Scope) (op : Operator) (folded : Value) : Call Operand := do
  if scope.options.allowUnsolvable then return .native folded
  let e ← get
  let hint := (e.solvers.get? scope.solver).bind fun s => s.alternativeFor? op
  fail (.unsolvableOperation op (e.solverName scope.solver) hint)

/-- Whether the scope's solver supports an operator. -/
def supported (scope : Scope) (op : Operator) : Call Bool := do
  return ((← get).solvers.get? scope.solver).any fun s => s.supportsOperation op

/-- The operand of an operator with one operand: native if that one is, and otherwise the wrapped
term with the value it has. -/
def operandOf (scope : Scope) (op : Operator) (term : Option Term) (wrap : Term → Term)
    (v : Value) : Call Operand := do
  match term with
  | none => return .native v
  | some t => if ← supported scope op then return .symbolic (wrap t) v else unsolvable scope op v

/-- The operand of a variable. -/
def variableOperand (scope : Scope) (x : VarId) : Call Operand := do
  let term := ((← get).handle? x scope.solver).map Term.var
  let value ← Step.read x
  return { term, value, source := some x }

/-- Tells the scope's solver that it may not assign a variable. -/
def pin (scope : Scope) (x : VarId) : Call Unit := do
  match (← get).handle? x scope.solver with
  | some h => changeSolver scope.solver fun s => s.setReadonly h true
  | none => return ()

/-- A member of an evaluated expression. -/
def member (scope : Scope) (base : Operand) (name : String) : Call Operand := do
  match base.value with
  | .object obj =>
    let x ← touchField scope.constraint scope.solver obj name base.source
    variableOperand scope x
  | v =>
    if v.isComposite then
      match base.source with
      | some parent =>
        let x ← touchPart scope.constraint scope.solver parent name
        variableOperand scope x
      | none =>
        match v.part? name with
        | some number => return .native (.number number)
        | none => fail (.mismatch (.noPart v name))
    else fail (.mismatch (.noMember name v))

/-- Pins what an expression was read from: the variable, or every field of the object it names. -/
def pinOperand (scope : Scope) (o : Operand) : Call Unit := do
  match o.value, o.source with
  | .object obj, source =>
    for name in ← fieldNames obj do
      let x ← touchField scope.constraint scope.solver obj name source
      pin scope x
  | _, some x => pin scope x
  | _, none => return ()

/-- Applies an operator to two evaluated operands. -/
def applyBinary (scope : Scope) (op : Operator) (l r : Operand) : Call Operand := do
  match Operand.shortcut? op l r with
  | some o => return o
  | none =>
    let v := op.applyBinary l.value r.value
    if l.term.isNone && r.term.isNone then return .native v
    else if ← supported scope op then return .symbolic (.binary op l.toTerm r.toTerm) v
    else unsolvable scope op v

/-- Evaluates an expression for the scope's solver. -/
def evaluate (scope : Scope) : Expr → Call Operand
  | .const v => return .native v
  | .name n =>
    match scope.options.context.find? n with
    | some v => return .native v
    | none => fail (.unboundName n)
  | .member base name => do
    let o ← evaluate scope base
    member scope o name
  | .readonly inner => do
    let o ← evaluate scope inner
    pinOperand scope o
    return o
  | .unary op inner => do
    let o ← evaluate scope inner
    operandOf scope op o.term (.unary op) (op.applyUnary o.value)
  | .binary op l r => do
    let l ← evaluate scope l
    let r ← evaluate scope r
    applyBinary scope op l r
  | .inDomain inner domain => do
    let o ← evaluate scope inner
    operandOf scope .inDomain o.term (fun t => .inDomain t domain) (.bool (o.value.inDomain domain))

/-- Compiles a term with the scope's solver. -/
def compileTerm (scope : Scope) (t : Term) : Call Primitive := do
  let name := (← get).solverName scope.solver
  match ← callSolver scope.solver fun s => s.compile t with
  | .ok p => return p
  | .error e => fail (.construction name (.refused e))

/-- Evaluates a predicate and compiles it if it is a relation of the solver's variables. -/
def compilePredicate (scope : Scope) (predicate : Expr) : Call Compiled := do
  let top ← evaluate scope predicate
  match top.term with
  | some t => if t.isRelation then return .primitive (← compileTerm scope t) else return .value top.value
  | none =>
    match top.value with
    | .bool b => return .native b
    | v => return .value v

/-! ### Evaluators from outside -/

/-- What the engine tells an evaluator about the scope's solver. -/
def prospect (scope : Scope) : Call Prospect := do
  let e ← get
  let solver? := e.solvers.get? scope.solver
  return {
    solverName := e.solverName scope.solver
    supports := fun op => solver?.any fun s => s.supportsOperation op
    alternative? := fun op => solver?.bind fun s => s.alternativeFor? op }

/-- Does what an evaluator does for the scope's solver. -/
def construct (scope : Scope) : Construction → Call Compiled
  | .done result => ofExcept result
  | .touchField obj name parent next => do
    let result ← attempt (touchField scope.constraint scope.solver obj name parent)
    construct scope (next result)
  | .touchPart parent name next => do
    let result ← attempt (touchPart scope.constraint scope.solver parent name)
    construct scope (next result)
  | .pin x next => do
    let result ← attempt (pin scope x)
    construct scope (next result)
  | .fieldNames obj next => do
    let result ← attempt (fieldNames obj)
    construct scope (next result)
  | .compile t next => do
    let result ← attempt (compileTerm scope t)
    construct scope (next result)
  | .read x next => do
    let v ← Step.read x
    construct scope (next v)
  | .handle x next => do
    let h := (← get).handle? x scope.solver
    construct scope (next h)
  | .look next => do
    let p ← prospect scope
    construct scope (next p)

/-- Evaluates a predicate for the scope's solver as the engine's evaluator does. -/
def evaluatePredicate (scope : Scope) (predicate : Expr) : Call Compiled := do
  match (← get).config.evaluator with
  | .expressions => compilePredicate scope predicate
  | .custom evaluate _ => construct scope (evaluate predicate scope.options)

/-! ### Inspection -/

/-- The value of an expression and what it touches, read without intercepting anything. A `leaf` is
an expression whose own value counts; the objects along a path do not. -/
def inspectExpr (context : SortedMap String Value) :
    Expr → Bool → Inspection → Call (Value × Inspection)
  | .const v, _, seen => return (v, seen)
  | .name n, _, seen =>
    match context.find? n with
    | some v => return (v, seen)
    | none => fail (.unboundName n)
  | .member base name, leaf, seen => do
    let (base, seen) ← inspectExpr context base false seen
    let v ← match base with
      | .object obj => readField obj name
      | other =>
        match other.part? name with
        | some number => pure (.number number)
        | none => fail (.mismatch (.noMember name other))
    if leaf && !v.isNone then return (v, { seen with types := seen.types ++ [v.tag] })
    else return (v, seen)
  | .readonly inner, leaf, seen => inspectExpr context inner leaf seen
  | .unary op inner, _, seen => do
    let (v, seen) ← inspectExpr context inner true seen
    return (op.applyUnary v, seen)
  | .binary op l r, _, seen => do
    let (l, seen) ← inspectExpr context l true seen
    let (r, seen) ← inspectExpr context r true seen
    return (op.applyBinary l r, seen)
  | .inDomain inner domain, _, seen => do
    let (v, seen) ← inspectExpr context inner true { seen with finiteDomain := true }
    return (.bool (v.inDomain domain), seen)

/-- What a predicate touches as an expression. -/
def inspect (context : SortedMap String Value) (predicate : Expr) : Call Inspection := do
  let (_, seen) ← inspectExpr context predicate true {}
  return seen.normalized

/-- Does what an evaluator does to inspect a predicate. -/
def lookThrough : Inspecting → Call Inspection
  | .done result => ofExcept result
  | .read obj field next => do
    let result ← attempt (readField obj field)
    lookThrough (next result)
  | .defining x next => do
    let d ← Step.defining x
    lookThrough (next (d.map Defining.solver))
  | .look next => do
    let tables := (← get).tables
    lookThrough (next tables)

/-- What a predicate touches according to the engine's evaluator. -/
def inspectPredicate (context : SortedMap String Value) (predicate : Expr) : Call Inspection := do
  match (← get).config.evaluator with
  | .expressions => inspect context predicate
  | .custom _ inspect => do
    let seen ← lookThrough (inspect predicate context)
    return seen.normalized

/-! ### Building constraints -/

/-- Evaluates the predicate of a constraint for its solver and stores what came out. While the
predicate is evaluated, the constraint is current. -/
def realize (id : ConstraintId) : Call Unit := do
  let c ← constraintAt id
  let saved := (← get).guards.current
  Step.modifyGuards fun g => { g with current := some (id, c.solver) }
  let result ← attempt (evaluatePredicate ⟨id, c.solver, c.options⟩ c.predicate)
  Step.modifyGuards fun g => { g with current := saved }
  let name := (← get).solverName c.solver
  match ← ofExcept result with
  | .primitive p => changeConstraint id fun c => { c with primitives := c.primitives ++ [p] }
  | .native true =>
    if c.options.allowTests then changeConstraint id fun c => { c with isTest := true }
    else fail (.construction name .alwaysTrue)
  | .native false => fail (.construction name .alwaysFalse)
  | .value v =>
    match c.mode with
    | .stay => return ()
    | .always => fail (.construction name (.notARelation v))

/-- Builds a constraint for a solver, switched off. A constraint that cannot be realized is
abandoned. -/
def build (predicate : Expr) (s : SolverId) (options : ConstraintOptions) (mode : BuildMode) :
    Call ConstraintId := do
  let _ ← solverAt s
  let e ← get
  let id := e.constraints.next
  let c : Constraint :=
    { predicate, options, mode, solver := s
      priority := options.priority.getD mode.defaultPriority
      interval := max 1 (options.interval.getD e.config.reevaluationInterval) }
  modify fun e => { e with constraints := e.constraints.insert c }
  match ← attempt (realize id) with
  | .ok () => return id
  | .error err =>
    Step.abandon id
    fail err

end Call

end LiveConstraints
