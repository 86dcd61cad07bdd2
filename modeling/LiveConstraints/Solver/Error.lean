import LiveConstraints.Term
/-!
# What a solver can fail with

A solver either finds no assignment (`Conflict`), or is asked for something it cannot express
(`Limitation`), or is given a handle it does not know. Each failure is kept as its cause; its
wording is produced by the `message` functions alone.
-/

namespace LiveConstraints

/-- Why no assignment satisfies the enabled constraints. -/
inductive Conflict where
  /-- A violated relation has no variable left that may move. -/
  | noWritableVariable (residual : Float)
  /-- The sweeps ran out before every relation held. -/
  | notConverged (sweeps : Nat)
  /-- A variable that may not move is required to keep another value. -/
  | cannotKeep (x : ExtVar) (value : Float)
  /-- An equation is violated although nothing in it is open. -/
  | equationViolated (residual : Float)
  /-- The search visited as many nodes as it may. -/
  | searchGaveUp (nodes : Nat)
  /-- The search tried every combination. -/
  | noAssignment
  /-- The value was adopted although the constraints reject it. -/
  | valueKept
  /-- What an algorithm from outside the library gives as its reason. -/
  | other (reason : String)

/-- What a solver cannot express. -/
inductive Limitation where
  /-- A constant of another type stands where a number is needed. -/
  | nonNumericConstant (v : Value)
  /-- Two factors both contain variables. -/
  | nonLinearProduct (t : Term)
  /-- A divisor contains a variable. -/
  | divisionByVariable (t : Term)
  /-- A divisor is zero. -/
  | divisionByZero (t : Term)
  /-- An operator has no meaning inside a linear term. -/
  | operatorInLinearTerm (op : Operator)
  /-- A finite domain stands inside a linear term. -/
  | domainInLinearTerm
  /-- A term is no linear relation. -/
  | termNotLinear (t : Term)
  /-- An operator is no linear relation. -/
  | relationNotLinear (op : Operator)
  /-- No variable of the term may be assigned. -/
  | everyVariableReadonly (t : Term)
  /-- The algorithm works on numbers only. -/
  | numbersOnly (algorithm : String) (v : Value)
  /-- The algorithm maintains equalities only. -/
  | equalitiesOnly (algorithm : String)
  /-- The solver has no edit sessions. -/
  | noEditSessions (solver : String)
  /-- No edit session is open. -/
  | noOpenSession (solver : String)
  /-- An edit session is given the wrong number of values. -/
  | batchSize (expected got : Nat)
  /-- The solver compiles nothing. -/
  | cannotCompile (solver : String) (t : Term)
  /-- What an algorithm from outside the library gives as its reason. -/
  | other (reason : String)

/-- A failed solver call. -/
inductive SolverError where
  /-- No assignment satisfies the enabled constraints. -/
  | unsatisfiable (why : Conflict)
  /-- The request cannot be expressed. -/
  | unsupported (what : Limitation)
  /-- The variable does not exist. -/
  | unknownVariable (x : ExtVar)
  /-- The primitive does not exist. -/
  | unknownPrimitive (p : Primitive)

/-- Text between backquotes. -/
def backquoted (s : String) : String := "\x60" ++ s ++ "\x60"

/-- The wording of a conflict. -/
def Conflict.message : Conflict → String
  | .noWritableVariable residual =>
    "no writable variable left to repair a violated relation (residual "
      ++ Decimal.render residual ++ ")"
  | .notConverged sweeps =>
    "relaxation did not converge within " ++ toString sweeps ++ " sweeps"
  | .cannotKeep x value => x.render ++ " cannot keep " ++ Decimal.render value
  | .equationViolated residual =>
    "equation violated by " ++ Decimal.render residual ++ " with every input determined"
  | .searchGaveUp nodes => "search gave up after " ++ toString nodes ++ " nodes"
  | .noAssignment => "no assignment within the finite domains satisfies every predicate"
  | .valueKept => "kept the value anyway"
  | .other reason => reason

/-- The wording of a limitation. -/
def Limitation.message : Limitation → String
  | .nonNumericConstant v => "non-numeric constant " ++ v.render ++ " in a linear term"
  | .nonLinearProduct t => "non-linear product " ++ backquoted t.render
  | .divisionByVariable t => "division by a variable in " ++ backquoted t.render
  | .divisionByZero t => "division by zero in " ++ backquoted t.render
  | .operatorInLinearTerm op => backquoted op.symbol ++ " in a linear term"
  | .domainInLinearTerm => "finite domains in a linear term"
  | .termNotLinear t => backquoted t.render ++ " is not a linear relation"
  | .relationNotLinear op => backquoted op.symbol ++ " is not a linear relation"
  | .everyVariableReadonly t => "every variable of " ++ backquoted t.render ++ " is read-only"
  | .numbersOnly algorithm v => algorithm ++ " only handles numbers, got " ++ v.render
  | .equalitiesOnly algorithm => algorithm ++ " only maintains equalities"
  | .noEditSessions solver => solver ++ " has no edit sessions"
  | .noOpenSession solver => solver ++ " has no open edit session"
  | .batchSize expected got =>
    "edit session expects " ++ toString expected ++ " values, got " ++ toString got
  | .cannotCompile solver t => solver ++ " cannot compile " ++ backquoted t.render
  | .other reason => reason

/-- The wording of a solver failure. -/
def SolverError.message : SolverError → String
  | .unsatisfiable why => "unsatisfiable: " ++ why.message
  | .unsupported what => "unsupported: " ++ what.message
  | .unknownVariable x => "unknown variable " ++ x.render
  | .unknownPrimitive p => "unknown primitive constraint " ++ p.render

end LiveConstraints
