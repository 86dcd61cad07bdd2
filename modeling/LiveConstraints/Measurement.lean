import LiveConstraints.Metric
import LiveConstraints.Value
/-!
# Measurements and the choice between candidates

Enabling a constraint records what it changed. Candidates are compared by those records, metric
after metric: `selectBest` goes through the candidates in order and lets one replace the best so far
exactly when the first metric that tells the two apart is smaller for it. A metric that is undefined
for one of the two does not tell them apart.
-/

namespace LiveConstraints

/-- The value of a variable before and after a constraint was enabled. -/
structure Change where
  /-- The variable. -/
  subject : VarId
  /-- The value before. -/
  old : Value
  /-- The value after. -/
  new : Value

/-- Whether the value differs beyond the tolerance. -/
def Change.changed (c : Change) : Bool := !c.old.near c.new

/-- The square of the change of a number; not-a-number for other values. -/
def Change.squaredDistance (c : Change) : Float :=
  match c.old.asNumber?, c.new.asNumber? with
  | some old, some new => (new - old) * (new - old)
  | _, _ => Decimal.notANumber

/-- What enabling a constraint cost and changed. -/
structure Measurement where
  /-- The time spent solving, in milliseconds. -/
  elapsedMs : Float := 0.0
  /-- One entry for each variable of the constraint. -/
  changes : List Change := []

namespace Measurement

/-- How many variables changed. -/
def changedCount (m : Measurement) : Nat := m.changes.countP Change.changed

/-- The sum of the squared changes, from the negative zero that an empty sum is. -/
def squaredDistance (m : Measurement) : Float :=
  ((m.changes.filter Change.changed).map Change.squaredDistance).foldl (· + ·) (-0.0)

/-- The value of a metric. -/
def value (m : Measurement) : Metric → Float
  | .time => m.elapsedMs
  | .changedVariables => m.changedCount.toFloat
  | .squaredDistance => m.squaredDistance

/-- Whether a candidate is better than another: the first metric that tells them apart is smaller
for it. -/
def betterThan (order : List Metric) (m best : Measurement) : Bool :=
  match order with
  | [] => false
  | metric :: rest =>
    match Value.compareNumbers? (m.value metric) (best.value metric) with
    | some .lt => true
    | some .gt => false
    | _ => betterThan rest m best

end Measurement

/-- The best of several measured candidates; `none` when there are none. -/
def selectBest {κ : Type} (order : List Metric) : List (κ × Measurement) → Option κ
  | [] => none
  | first :: rest =>
    let best := rest.foldl
      (fun best candidate => if candidate.2.betterThan order best.2 then candidate else best) first
    some best.1

end LiveConstraints
