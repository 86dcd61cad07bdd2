import LiveConstraints.Proofs.Incidence.Links
import Mathlib.Data.List.Perm.Subperm
import Mathlib.Data.List.TakeWhile
import Mathlib.Logic.Relation
/-!
# Connected closures

Two variables are adjacent if a constraint lists both, and connected if steps between adjacent ones lead
from the first to the second. The search for the variables connected with a given one goes by the
constraints that a variable lists, and it stops after as many rounds as variables were ever made. Where
the tables are tied, neither leaves anything out (`Engine.Tied.isClosure`): variables list the
constraints that list them, and each round reaches a variable that no round before has reached.

The search keeps `Engine.Spreads`: what was reached so far is connected, and whatever is adjacent to it is
reached as well or waits in the queue.
-/

namespace LiveConstraints

variable {e : Engine} {x y z : VarId} {v : Variable} {queue reached : List VarId}

namespace Engine

/-- Two variables are listed by a common constraint. -/
def Adjacent (e : Engine) (x y : VarId) : Prop :=
  ∃ id c, e.constraints.get? id = some c ∧ x ∈ c.vars ∧ y ∈ c.vars

/-- Steps between adjacent variables lead from one variable to another. -/
def Connected (e : Engine) : VarId → VarId → Prop := Relation.ReflTransGen e.Adjacent

/-- A list of variables is the connected closure of a variable. -/
structure IsClosure (e : Engine) (x : VarId) (ys : List VarId) : Prop where
  /-- The variable comes first. -/
  first : ys.head? = some x
  /-- No variable is listed twice. -/
  nodup : ys.Nodup
  /-- The live variables are listed that the first one is connected with. -/
  mem_iff : ∀ y, y ∈ ys ↔ e.vars.contains y = true ∧ e.Connected x y

/-! ### Adjacency -/

/-- Where the tables are tied, what is adjacent is live. -/
theorem Tied.contains_of_adjacent (h : e.Tied) (hxy : e.Adjacent x y) :
    e.vars.contains y = true := by
  obtain ⟨id, c, hc, -, hy⟩ := hxy
  exact Arena.contains_iff.2 (h.linked.live y id ⟨c, hc, hy⟩)

/-- Where the tables are tied, the neighbours of a variable are the variables adjacent to it. -/
theorem Tied.mem_neighbours (h : e.Tied) (hv : e.vars.get? x = some v) :
    y ∈ e.neighbours v ↔ e.Adjacent x y := by
  rw [neighbours, List.mem_flatMap]
  constructor
  · rintro ⟨id, hid, hy⟩
    obtain ⟨c, hc, hx⟩ := (h.linked.lists x v id hv).1 hid
    rw [hc] at hy
    exact ⟨id, c, hc, hx, hy⟩
  · rintro ⟨id, c, hc, hx, hy⟩
    refine ⟨id, (h.linked.lists x v id hv).2 ⟨c, hc, hx⟩, ?_⟩
    rwa [hc]

/-! ### The search -/

/-- Where the search for the variables connected with `x` stands. -/
structure Spreads (e : Engine) (x : VarId) (queue reached : List VarId) : Prop where
  /-- The variable itself was reached first. -/
  first : reached.head? = some x
  /-- No variable was reached twice. -/
  nodup : reached.Nodup
  /-- What was reached is live. -/
  live : ∀ y ∈ reached, e.vars.contains y = true
  /-- What was reached, or waits, is connected. -/
  connected : ∀ y ∈ reached ++ queue, e.Connected x y
  /-- What is adjacent to what was reached was reached as well, or waits. -/
  closed : ∀ y ∈ reached, ∀ z, e.Adjacent y z → z ∈ reached ++ queue

/-- A variable that was reached before or does not exist is passed over. -/
def Passes (e : Engine) (reached : List VarId) (y : VarId) : Bool :=
  reached.contains y || !e.vars.contains y

/-- A round for which nothing comes up. -/
theorem closureFrom_of_nil {n : Nat} (hend : queue.dropWhile (e.Passes reached) = []) :
    e.closureFrom (n + 1) queue reached = reached := by
  unfold Passes at hend
  rw [closureFrom, hend]

/-- A round reaches the first variable that comes up, and its neighbours wait. -/
theorem closureFrom_of_cons {n : Nat} {rest : List VarId}
    (hnext : queue.dropWhile (e.Passes reached) = y :: rest) (hv : e.vars.get? y = some v) :
    e.closureFrom (n + 1) queue reached
      = e.closureFrom n (rest ++ e.neighbours v) (reached ++ [y]) := by
  unfold Passes at hnext
  rw [closureFrom, hnext]
  dsimp only
  rw [hv]

/-- Whatever waits is passed over or comes up. -/
theorem mem_dropWhile_or {p : VarId → Bool} (hy : y ∈ queue) :
    p y = true ∨ y ∈ queue.dropWhile p := by
  rw [← List.takeWhile_append_dropWhile (p := p) (l := queue), List.mem_append] at hy
  exact hy.imp_left List.mem_takeWhile_imp

namespace Spreads

/-- What is adjacent to what was reached was reached as well, or comes up. -/
theorem reached_or_comesUp (h : e.Tied) (hs : e.Spreads x queue reached) (hy : y ∈ reached)
    (hyz : e.Adjacent y z) : z ∈ reached ∨ z ∈ queue.dropWhile (e.Passes reached) := by
  rcases List.mem_append.1 (hs.closed y hy z hyz) with hz | hz
  · exact .inl hz
  · refine (mem_dropWhile_or hz).imp_left fun hpassed ↦ ?_
    simpa [Passes, h.contains_of_adjacent hyz] using hpassed

/-- The next round reaches the first variable that comes up. -/
theorem step (h : e.Tied) (hs : e.Spreads x queue reached) {rest : List VarId}
    (hnext : queue.dropWhile (e.Passes reached) = y :: rest) (hv : e.vars.get? y = some v)
    (hnew : y ∉ reached) : e.Spreads x (rest ++ e.neighbours v) (reached ++ [y]) where
  first := by rw [List.head?_append, hs.first, Option.some_or]
  nodup := List.nodup_append.2 ⟨hs.nodup, List.nodup_singleton y, fun a ha b hb hab ↦
    hnew (List.mem_singleton.1 hb ▸ hab ▸ ha)⟩
  live z hz := by
    rcases List.mem_append.1 hz with hz | hz
    · exact hs.live z hz
    · obtain rfl := List.mem_singleton.1 hz
      exact Arena.contains_iff.2 ⟨v, hv⟩
  connected z hz := by
    have hwaits : ∀ z ∈ y :: rest, e.Connected x z := fun z hz ↦ by
      rw [← hnext] at hz
      exact hs.connected z (List.mem_append_right _ ((List.dropWhile_sublist _).subset hz))
    rw [List.append_assoc, List.mem_append, List.singleton_append, ← List.cons_append,
      List.mem_append, h.mem_neighbours hv] at hz
    rcases hz with hz | hz | hz
    · exact hs.connected z (List.mem_append_left _ hz)
    · exact hwaits z hz
    · exact (hwaits y List.mem_cons_self).tail hz
  closed w hw z hwz := by
    rw [List.append_assoc, List.mem_append, List.singleton_append, ← List.cons_append,
      List.mem_append, h.mem_neighbours hv]
    rcases List.mem_append.1 hw with hw | hw
    · rw [← hnext]
      exact (hs.reached_or_comesUp h hw hwz).imp_right .inl
    · obtain rfl := List.mem_singleton.1 hw
      exact .inr (.inr hwz)

/-- A search for which nothing comes up any more is over. -/
theorem isClosure (h : e.Tied) (hs : e.Spreads x queue reached)
    (hend : queue.dropWhile (e.Passes reached) = []) : e.IsClosure x reached where
  first := hs.first
  nodup := hs.nodup
  mem_iff y := by
    refine ⟨fun hy ↦ ⟨hs.live y hy, hs.connected y (List.mem_append_left _ hy)⟩, fun ⟨_, hxy⟩ ↦ ?_⟩
    clear * - h hs hend hxy
    induction hxy with
    | refl => exact List.mem_of_head? hs.first
    | tail _ hyz ih =>
      refine (hs.reached_or_comesUp h ih hyz).resolve_right ?_
      rw [hend]
      exact List.not_mem_nil

/-- After as many rounds as variables were ever made, each live variable was reached. -/
theorem mem_of_full (hs : e.Spreads x queue reached)
    (hfull : e.vars.cells.size ≤ reached.length) (hy : e.vars.contains y = true) : y ∈ reached := by
  by_contra hnew
  have hnodup : ((y :: reached).map Id.index).Nodup :=
    (List.nodup_cons.2 ⟨hnew, hs.nodup⟩).map fun _ _ heq ↦ congrArg Id.mk heq
  have hsub : (y :: reached).map Id.index ⊆ List.range e.vars.cells.size := by
    intro i hi
    obtain ⟨z, hz, rfl⟩ := List.mem_map.1 hi
    have hlive : e.vars.contains z = true := by
      rcases List.mem_cons.1 hz with rfl | hz
      · exact hy
      · exact hs.live z hz
    obtain ⟨v, hv⟩ := Arena.contains_iff.1 hlive
    exact List.mem_range.2 (Arena.lt_next_of_get? hv)
  have hlength := (hnodup.subperm hsub).length_le
  rw [List.length_map, List.length_cons, List.length_range] at hlength
  omega

/-- A search that has reached every live variable is over. -/
theorem isClosure_of_full (hs : e.Spreads x queue reached)
    (hfull : e.vars.cells.size ≤ reached.length) : e.IsClosure x reached where
  first := hs.first
  nodup := hs.nodup
  mem_iff y := ⟨fun hy ↦ ⟨hs.live y hy, hs.connected y (List.mem_append_left _ hy)⟩,
    fun ⟨hy, _⟩ ↦ hs.mem_of_full hfull hy⟩

end Spreads

/-- **Searching on.** Each round reaches one variable more, until nothing comes up. -/
theorem isClosure_closureFrom (h : e.Tied) {n : Nat} (hs : e.Spreads x queue reached)
    (hn : e.vars.cells.size ≤ reached.length + n) :
    e.IsClosure x (e.closureFrom n queue reached) := by
  induction n generalizing queue reached with
  | zero => exact hs.isClosure_of_full hn
  | succ n ih =>
    cases hnext : queue.dropWhile (e.Passes reached) with
    | nil =>
      rw [closureFrom_of_nil hnext]
      exact hs.isClosure h hnext
    | cons y rest =>
      have hcomes : e.Passes reached y = false := by
        have hhead := List.head?_dropWhile_not (e.Passes reached) queue
        rwa [hnext] at hhead
      obtain ⟨hnew, hlive⟩ : y ∉ reached ∧ e.vars.contains y = true := by
        simpa [Passes] using hcomes
      obtain ⟨v, hv⟩ := Arena.contains_iff.1 hlive
      rw [closureFrom_of_cons hnext hv]
      refine ih (hs.step h hnext hv hnew) ?_
      rw [List.length_append, List.length_singleton]
      omega

/-- **Where the tables are tied, the search finds the connected closure** of a live variable. -/
theorem Tied.isClosure (h : e.Tied) (hx : e.vars.contains x = true) :
    e.IsClosure x (e.closure x) := by
  obtain ⟨v, hv⟩ := Arena.contains_iff.1 hx
  obtain ⟨n, hn⟩ : ∃ n, e.vars.cells.size = n + 1 :=
    Nat.exists_eq_succ_of_ne_zero (Nat.ne_of_gt (Nat.zero_lt_of_lt (Arena.lt_next_of_get? hv)))
  have hfirst : e.closure x = e.closureFrom n (e.neighbours v) [x] := by
    rw [closure, hn, closureFrom]
    simp [hx, hv]
  rw [hfirst]
  refine isClosure_closureFrom h ?_ (by rw [hn, List.length_singleton, Nat.add_comm])
  exact {
    first := rfl
    nodup := List.nodup_singleton x
    live := fun y hy ↦ by rwa [List.mem_singleton.1 hy]
    connected := fun y hy ↦ by
      rcases List.mem_cons.1 hy with rfl | hy
      · exact .refl
      · exact .single ((h.mem_neighbours hv).1 hy)
    closed := fun y hy z hyz ↦ by
      obtain rfl := List.mem_singleton.1 hy
      exact List.mem_cons_of_mem _ ((h.mem_neighbours hv).2 hyz) }

end Engine

end LiveConstraints
