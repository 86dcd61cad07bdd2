import LiveConstraints.SortedMap
import LiveConstraints.Solver.Capabilities
import LiveConstraints.Solver.Model
/-!
# Search in finite domains

A solver for any predicate, by backtracking. A conjunct `x in [..]` at the top of an enabled
predicate restricts the domain of `x`; variables with a domain that may move are searched in the
order they occur, all others keep their values.

Each variable tries its current value first if the domain contains it, and then the other members in
order. A satisfied model is therefore found at the first leaf and left untouched. A predicate is
checked as soon as all its variables are assigned.
-/

namespace LiveConstraints

/-- A domain search solver. -/
structure DomainSearch where
  /-- How many candidate values a search may try. -/
  maxNodes : Nat
  /-- The variables and clauses. -/
  model : Model Term Value := {}

namespace DomainSearch

/-- The name by which the algorithm speaks of itself. -/
def algorithmName : String := "domain"

/-- The weight a domain search solver starts with. -/
def initialWeight : Float := 50.0

/-- What the solver declares. -/
def capabilities : Capabilities := { finiteDomains := true, types := [.number, .text, .bool] }

/-! ### Search -/

/-- A predicate with its variables. -/
structure Check where
  /-- The predicate. -/
  term : Term
  /-- Its variables. -/
  vars : List ExtVar

/-- What a search works on. -/
structure Problem where
  /-- The predicates to satisfy. -/
  checks : List Check
  /-- The domains of the restricted variables. -/
  domains : SortedMap ExtVar (List Value)
  /-- How many candidates may be tried. -/
  maxNodes : Nat

/-- A partial assignment. -/
structure Assignment where
  /-- The value of every variable, also of those not assigned yet. -/
  values : SortedMap ExtVar Value
  /-- The variables that are assigned. -/
  assigned : List ExtVar

/-- How an exploration ended, and how many candidates had been tried by then. -/
inductive Exploration where
  /-- Every predicate holds. -/
  | found (values : SortedMap ExtVar Value) (nodes : Nat)
  /-- No combination below works. -/
  | exhausted (nodes : Nat)
  /-- Too many candidates were tried. -/
  | gaveUp

/-- The value of a variable in an assignment. -/
def Assignment.value (a : Assignment) (x : ExtVar) : Value := (a.values.find? x).getD .none

/-- Whether every predicate whose variables are all assigned holds. -/
def Problem.consistent (p : Problem) (a : Assignment) : Bool :=
  (p.checks.filter fun c => c.vars.all a.assigned.contains).all fun c =>
    (c.term.evaluate a.value).isTrue

/-- The values tried for a variable: the current one if it is in the domain, then the others. -/
def candidates (domain : List Value) (current : Value) : List Value :=
  let others := domain.filter fun d => !d.near current
  if domain.any fun d => d.near current then current :: others else others

/-- Tries candidates for a variable in order, exploring below each. -/
def tryEach (maxNodes : Nat) (explore : SortedMap ExtVar Value → Nat → Exploration) (x : ExtVar)
    (values : SortedMap ExtVar Value) : List Value → Nat → Exploration
  | [], nodes => .exhausted nodes
  | v :: vs, nodes =>
    if maxNodes < nodes + 1 then .gaveUp
    else
      match explore (values.insert x v) (nodes + 1) with
      | .exhausted nodes => tryEach maxNodes explore x values vs nodes
      | outcome => outcome

/-- Explores all assignments of the given variables in order. -/
def explore (p : Problem) : List ExtVar → Assignment → Nat → Exploration
  | [], a, nodes => if p.consistent a then .found a.values nodes else .exhausted nodes
  | x :: xs, a, nodes =>
    if !p.consistent a then .exhausted nodes
    else
      tryEach p.maxNodes
        (fun values nodes => explore p xs ⟨values, a.assigned ++ [x]⟩ nodes)
        x a.values (candidates ((p.domains.find? x).getD []) (a.value x)) nodes

/-! ### Runs -/

/-- Intersects the domain of a variable with the allowed values. -/
def restrict (domains : SortedMap ExtVar (List Value)) (x : ExtVar) (allowed : List Value) :
    SortedMap ExtVar (List Value) :=
  match domains.find? x with
  | some existing => domains.insert x (existing.filter fun v => allowed.any fun a => a.near v)
  | none => domains.insert x allowed

/-- The restrictions a predicate makes: its top conjuncts that are memberships of a variable. -/
def restrictions (t : Term) : List (ExtVar × List Value) :=
  t.conjuncts.filterMap fun
    | .inDomain (.var x) allowed => some (x, allowed)
    | _ => none

/-- The enabled predicates, in order. -/
def predicates (d : DomainSearch) : List Term :=
  d.model.enabled.filterMap fun
    | (.relation t, _) => some t
    | (.keeps _ _, _) => none

/-- The targets of required `keeps` clauses with their values, in order; the held variable is left
out. -/
def keepers (d : DomainSearch) (fixed : Option ExtVar) : List (ExtVar × Value) :=
  d.model.enabled.filterMap fun
    | (.relation _, _) => none
    | (.keeps x v, priority) =>
      if some x != fixed && priority.isRequired then some (x, v) else none

/-- The domains that the enabled predicates leave to their variables. -/
def domains (d : DomainSearch) : SortedMap ExtVar (List Value) :=
  (d.predicates.flatMap restrictions).foldl (fun ds (x, allowed) => restrict ds x allowed) ∅

/-- The variables of the enabled predicates, each once, in order of occurrence. -/
def involved (d : DomainSearch) : List ExtVar :=
  d.predicates.foldl (fun seen t => t.collectVariables seen) []

/-- The variables a search may move. -/
def searchOrder (d : DomainSearch) (fixed : Option ExtVar) (s : Slots) : List ExtVar :=
  let pinned := fixed.toList ++ (d.keepers fixed).map Prod.fst
  d.involved.filter fun x => !pinned.contains x && !s.isReadonly x && d.domains.contains x

/-- The values a search starts from: those of `keeps` clauses, and the current ones elsewhere. -/
def startValues (d : DomainSearch) (fixed : Option ExtVar) (s : Slots) : SortedMap ExtVar Value :=
  let kept := (d.keepers fixed).foldl (fun m (x, v) => m.insert x v) ∅
  d.involved.foldl (fun m x => if m.contains x then m else m.insert x (s.value x)) kept

/-- The variables after a successful search from `s` in which one variable may be held. -/
def search (d : DomainSearch) (fixed : Option ExtVar) (s : Slots) : Except SolverError Slots :=
  let order := d.searchOrder fixed s
  let problem : Problem :=
    { checks := d.predicates.map fun t => ⟨t, t.vars⟩
      domains := d.domains
      maxNodes := d.maxNodes }
  let assigned := d.involved.filter fun x => !order.contains x
  match explore problem order ⟨d.startValues fixed s, assigned⟩ 0 with
  | .found values _ => .ok (values.entries.foldl (fun s (x, v) => s.assign x v) s)
  | .exhausted _ => .error (.unsatisfiable .noAssignment)
  | .gaveUp => .error (.unsatisfiable (.searchGaveUp d.maxNodes))

/-- Searches from given variables; a failure leaves the solver's own variables as they are. -/
def runFrom (d : DomainSearch) (fixed : Option ExtVar) (s : Slots) :
    Except SolverError Unit × DomainSearch :=
  let (result, model) := d.model.settle (d.search fixed s)
  (result, { d with model })

/-- Derives values for all enabled clauses. -/
def solve (d : DomainSearch) : Except SolverError Unit × DomainSearch :=
  let d := { d with model := d.model.countSolve }
  d.runFrom none d.model.slots

/-- Adopts a value for one variable and searches values for the others around it. -/
def suggest (d : DomainSearch) (x : ExtVar) (v : Value) : Except SolverError Unit × DomainSearch :=
  let d := { d with model := d.model.countSolve }
  match d.model.slots.assign? x v with
  | .error e => (.error e, d)
  | .ok s => d.runFrom (some x) s

/-- Adds a variable for a number, a text or a boolean; other values are declined. -/
def declare (d : DomainSearch) (v : Value) : Option ExtVar × DomainSearch :=
  if capabilities.supportsType v.tag then
    let (x, model) := d.model.declare v
    (some x, { d with model })
  else (none, d)

/-- Compiles a predicate that has a variable which may be assigned, or no variables at all. -/
def compile (d : DomainSearch) (t : Term) : Except SolverError Primitive × DomainSearch :=
  match d.model.checkWritable t with
  | .error e => (.error e, d)
  | .ok () =>
    let (p, model) := d.model.install (.relation t)
    (.ok p, { d with model })

/-- Compiles the demand that a variable keeps a value. -/
def keep (d : DomainSearch) (x : ExtVar) (v : Value) :
    Except SolverError Primitive × DomainSearch :=
  if !d.model.slots.contains x then (.error (.unknownVariable x), d)
  else
    let (p, model) := d.model.install (.keeps x v)
    (.ok p, { d with model })

end DomainSearch

end LiveConstraints
