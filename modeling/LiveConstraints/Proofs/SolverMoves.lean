import LiveConstraints.Proofs.TableMoves
/-!
# Moves that change one solver

While variables and constraints stay as they are, the invariant asks of a solver that it keeps what
is relied on (`Respects`). A new solver has nothing that could be relied on.
-/

namespace LiveConstraints.Engine

variable {e e' : Engine} {id : ConstraintId} {c : Constraint} {x : VarId} {s : SolverId}
  {h : ExtVar} {p : Primitive} {d : Demand} {on : Bool}

/-! ### Changing one solver -/

theorem get?_solvers_of_modify {f : Solver → Solver} {t : SolverId}
    (solvers : e'.solvers = e.solvers.modify s f) :
    e'.solvers.get? t = if t = s then (e.solvers.get? t).map f else e.solvers.get? t := by
  rw [solvers, Arena.get?_modify]

theorem valueIn_eq {solver : Solver} (hsolver : e.solvers.get? s = some solver) :
    e.valueIn s = solver.value := by
  funext h
  rw [valueIn, held?, hsolver, Solver.value_eq]
  rfl

theorem clause?_eq {solver : Solver} (hsolver : e.solvers.get? s = some solver) :
    e.clause? s = solver.clause? := by
  funext p
  rw [clause?, hsolver]
  rfl

theorem held?_eq {solver : Solver} (hsolver : e.solvers.get? s = some solver) :
    e.held? s = solver.held? := by
  funext p
  rw [held?, hsolver]
  rfl

theorem issued_eq {solver : Solver} (hsolver : e.solvers.get? s = some solver) :
    e.issued s = solver.issued := by
  rw [issued, hsolver]
  rfl

/-- A handle that something in the engine relies on. -/
def Needed (e : Engine) (s : SolverId) (h : ExtVar) : Prop :=
  (∃ x, e.Bound x s h) ∨ e.Mentioned s h

theorem Sound.held_of_needed (hs : e.Sound) (hneeded : e.Needed s h) :
    (e.held? s h).isSome = true := by
  rcases hneeded with ⟨x, hb⟩ | ⟨id, c, p, d, on, hc, rfl, hp, hclause, hd⟩
  · exact hs.bound x s h hb
  · exact (hs.covered id c hc p hp d on hclause).held h hd

/-- A clause that is on and mentions something belongs to a constraint. -/
theorem Sound.mentioned_of_on (hs : e.Sound) (hon : e.clause? s p = some (d, true))
    (hd : d.Mentions h) : e.Mentioned s h := by
  have hrelation : d.IsRelation := by
    cases d with
    | keeps => exact hd.elim
    | _ => trivial
  obtain ⟨id, c, hc, hsolver, hp⟩ := hs.owner s p d hon hrelation
  exact ⟨id, c, p, d, true, hc, hsolver, hp, hon, hd⟩

/-- A clause that belongs to a constraint is a compiled predicate. -/
theorem Sound.relation_of_owned (hs : e.Sound) (howned : e.Owned s p)
    (hclause : e.clause? s p = some (d, on)) : d.IsRelation := by
  obtain ⟨id, c, hc, rfl, hp⟩ := howned
  exact (hs.covered id c hc p hp d on hclause).relation

/-- What a clause that is on mentions exists. -/
theorem Sound.held_of_on (hs : e.Sound) (hon : e.clause? s p = some (d, true))
    (hd : d.Mentions h) : (e.held? s h).isSome = true :=
  hs.held_of_needed (.inr (hs.mentioned_of_on hon hd))

/-- **Changing the solvers.** The invariant survives when what is relied on stays, the clauses of
constraints stay as they are, those that are on stay met, and whatever clauses are new belong to
nobody and are off or no compiled predicates. -/
theorem Sound.of_observations (hs : e.Sound) (vars : e'.vars = e.vars)
    (constraints : e'.constraints = e.constraints) (tame : e'.Tame)
    (trusted : ∀ s solver, e'.solvers.get? s = some solver → solver.Trusted)
    (held : ∀ s h, e.Needed s h → (e'.held? s h).isSome = true)
    (clauses : ∀ s p d on, e'.clause? s p = some (d, on) → e.clause? s p = some (d, on) ∨
      (on = true → ¬ d.IsRelation) ∧ ¬ e.Owned s p)
    (kept : ∀ s p clause, e.clause? s p = some clause → e.Owned s p →
      e'.clause? s p = some clause)
    (met : ∀ s p d, e.clause? s p = some (d, true) → d.Met (e.valueIn s) →
      d.Met (e'.valueIn s)) : e'.Sound := by
  have hbound : ∀ x s h, e'.Bound x s h ↔ e.Bound x s h := by
    intro x s h
    rw [Bound, vars, Bound]
  have hlists : ∀ x id, e'.Lists x id ↔ e.Lists x id := by
    intro x id
    rw [Lists, vars, Lists]
  -- the clauses of a constraint are the ones it had
  have hold : ∀ id c p d on, e.constraints.get? id = some c → p ∈ c.primitives →
      e'.clause? c.solver p = some (d, on) → e.clause? c.solver p = some (d, on) := by
    intro id c p d on hc hp hclause
    rcases clauses c.solver p d on hclause with hclause | ⟨-, hunowned⟩
    · exact hclause
    · exact absurd ⟨id, c, hc, rfl, hp⟩ hunowned
  refine ⟨trusted, ?_, ?_, ?_, ?_, ?_, ?_, ?_, ?_, ?_, tame⟩
  · rw [vars]
    exact hs.ordered
  · exact fun x s h hb ↦ held s h (.inl ⟨x, (hbound x s h).1 hb⟩)
  · exact fun x y s h hx hy ↦ hs.injective x y s h ((hbound ..).1 hx) ((hbound ..).1 hy)
  · rw [constraints]
    intro id c hc p hp
    obtain ⟨clause, hclause⟩ := Option.isSome_iff_exists.1 (hs.existing id c hc p hp)
    rw [kept _ p clause hclause ⟨id, c, hc, rfl, hp⟩]
    rfl
  · rw [constraints]
    exact hs.unique
  · rw [constraints]
    intro id c hc p hp d on hclause
    have hclause' := hold id c p d on hc hp hclause
    have hcovers := hs.covered id c hc p hp d on hclause'
    refine ⟨hcovers.relation, fun h hd ↦ held _ h ?_, fun h x hd hb ↦ ?_⟩
    · exact .inr ⟨id, c, p, d, on, hc, rfl, hp, hclause', hd⟩
    · rw [hlists]
      exact hcovers.listed h x hd ((hbound ..).1 hb)
  · rw [constraints]
    intro id c hc p hp
    rw [← hs.switched id c hc p hp]
    constructor
    · rintro ⟨d, hon⟩
      exact ⟨d, hold id c p d true hc hp hon⟩
    · rintro ⟨d, hon⟩
      exact ⟨d, kept _ p _ hon ⟨id, c, hc, rfl, hp⟩⟩
  · intro s p d hon hd
    rw [Owned, constraints]
    rcases clauses s p d true hon with hon | ⟨hoff, -⟩
    · exact hs.owner s p d hon hd
    · exact absurd hd (hoff rfl)
  · rw [constraints]
    intro id c hc henabled htest p hp d hon
    have hon' := hold id c p d true hc hp hon
    exact met _ p d hon' (hs.met id c hc henabled htest p hp d hon')

/-- What a change of one solver has to respect. -/
structure Respects (e : Engine) (s : SolverId) (solver solver' : Solver) : Prop where
  trusted : solver'.Trusted
  held : ∀ h, e.Needed s h → (solver'.held? h).isSome = true
  clauses : ∀ p d on, solver'.clause? p = some (d, on) → solver.clause? p = some (d, on) ∨
    (on = true → ¬ d.IsRelation) ∧ ¬ e.Owned s p
  kept : ∀ p clause, solver.clause? p = some clause → e.Owned s p →
    solver'.clause? p = some clause
  met : ∀ p d, solver.clause? p = some (d, true) → d.Met solver.value → d.Met solver'.value

/-- **Changing one solver.** -/
theorem Sound.of_solver (hs : e.Sound) {f : Solver → Solver} (vars : e'.vars = e.vars)
    (constraints : e'.constraints = e.constraints)
    (solvers : e'.solvers = e.solvers.modify s f) (tame : e'.Tame)
    (respects : ∀ solver, e.solvers.get? s = some solver → e.Respects s solver (f solver)) :
    e'.Sound := by
  -- the other solvers, and a solver that does not exist, are as before
  have hcases : ∀ t, e'.solvers.get? t = e.solvers.get? t ∨
      t = s ∧ ∃ solver, e.solvers.get? s = some solver ∧
        e'.solvers.get? s = some (f solver) := by
    intro t
    rw [get?_solvers_of_modify solvers]
    by_cases ht : t = s
    · subst ht
      rcases hsolver : e.solvers.get? t with - | solver
      · exact .inl (by rw [if_pos rfl, Option.map_none])
      · refine .inr ⟨rfl, solver, rfl, ?_⟩
        rw [get?_solvers_of_modify solvers, if_pos rfl, hsolver, Option.map_some]
    · exact .inl (if_neg ht)
  refine hs.of_observations vars constraints tame ?_ ?_ ?_ ?_ ?_
  · intro t solver' hsolver'
    rcases hcases t with hsame | ⟨rfl, solver, hsolver, hnew⟩
    · exact hs.trusted t solver' (hsame.symm.trans hsolver')
    · obtain rfl : f solver = solver' := Option.some.inj (hnew.symm.trans hsolver')
      exact (respects solver hsolver).trusted
  · intro t h hneeded
    rcases hcases t with hsame | ⟨rfl, solver, hsolver, hnew⟩
    · rw [held?, hsame]
      exact hs.held_of_needed hneeded
    · rw [held?_eq hnew]
      exact (respects solver hsolver).held h hneeded
  · intro t p d on hclause
    rcases hcases t with hsame | ⟨rfl, solver, hsolver, hnew⟩
    · rw [Engine.clause?, hsame] at hclause
      exact .inl hclause
    · rw [clause?_eq hnew] at hclause
      rw [clause?_eq hsolver]
      exact (respects solver hsolver).clauses p d on hclause
  · intro t p clause hclause howned
    rcases hcases t with hsame | ⟨rfl, solver, hsolver, hnew⟩
    · rw [Engine.clause?, hsame]
      exact hclause
    · rw [clause?_eq hnew]
      rw [clause?_eq hsolver] at hclause
      exact (respects solver hsolver).kept p clause hclause howned
  · intro t p d hon hmet
    rcases hcases t with hsame | ⟨rfl, solver, hsolver, hnew⟩
    · have hvalue : e'.valueIn t = e.valueIn t := by
        funext h
        rw [valueIn, held?, hsame]
        rfl
      rw [hvalue]
      exact hmet
    · rw [valueIn_eq hnew]
      rw [clause?_eq hsolver] at hon
      rw [valueIn_eq hsolver] at hmet
      exact (respects solver hsolver).met p d hon hmet

/-! ### Moves that change one solver -/

theorem Sound.trusted_of_clauses (hs : e.Sound) {solver solver' : Solver}
    (hsolver : e.solvers.get? s = some solver)
    (reference : solver.IsReference → solver'.IsReference)
    (clauses : ∀ p d on, solver'.clause? p = some (d, on) → d.WellFormed ∨
      ∃ on, solver.clause? p = some (d, on)) : solver'.Trusted := by
  have htrusted := hs.trusted s solver hsolver
  refine ⟨reference htrusted.reference, fun p d on hclause ↦ ?_⟩
  rcases clauses p d on hclause with hd | ⟨on, hclause⟩
  · exact hd
  · exact htrusted.wellFormed p d on hclause

theorem Sound.adopt (hs : e.Sound) {f : Solver → Solver}
    (adopts : ∀ solver, e.solvers.get? s = some solver →
      solver.Alike (f solver) ∨ solver.Adopts (f solver)) :
    Sound { e with solvers := e.solvers.modify s f } := by
  refine hs.of_solver rfl rfl rfl (hs.tame.beside rfl rfl rfl rfl rfl) fun solver hsolver ↦ ?_
  have htrusted := hs.trusted s solver hsolver
  rcases adopts solver hsolver with hf | hf
  · refine ⟨hf.trusted htrusted, fun h hneeded ↦ ?_, ?_, ?_, ?_⟩
    · rw [hf.held?, ← held?_eq hsolver]
      exact hs.held_of_needed hneeded
    · rw [hf.clause?]
      exact fun p d on hclause ↦ .inl hclause
    · rw [hf.clause?]
      exact fun p clause hclause _ ↦ hclause
    · intro p d _ hmet
      refine hmet.congr fun h _ ↦ ?_
      rw [Solver.value_eq, Solver.value_eq, hf.held?]
  · refine ⟨hf.trusted htrusted, fun h hneeded ↦ ?_, ?_, ?_, ?_⟩
    · rw [hf.contains, ← held?_eq hsolver]
      exact hs.held_of_needed hneeded
    · rw [hf.clause?]
      exact fun p d on hclause ↦ .inl hclause
    · rw [hf.clause?]
      exact fun p clause hclause _ ↦ hclause
    · intro p d hon _
      refine hf.met (fun q d' h hq hd ↦ ?_) p d (by rwa [hf.clause?])
      rw [← held?_eq hsolver]
      exact hs.held_of_on (by rwa [clause?_eq hsolver]) hd

theorem Sound.declare (hs : e.Sound) {f : Solver → Solver}
    (declares : ∀ solver, e.solvers.get? s = some solver →
      ∃ h v, solver.Declares (f solver) h v) :
    Sound { e with solvers := e.solvers.modify s f } := by
  refine hs.of_solver rfl rfl rfl (hs.tame.beside rfl rfl rfl rfl rfl) fun solver hsolver ↦ ?_
  obtain ⟨x, v, hf⟩ := declares solver hsolver
  -- what exists keeps its value
  have hheld : ∀ h, (solver.held? h).isSome = true → (f solver).held? h = solver.held? h := by
    intro h hh
    rw [hf.held?, if_neg]
    rintro rfl
    rw [hf.fresh] at hh
    cases hh
  refine ⟨?_, fun h hneeded ↦ ?_, ?_, ?_, ?_⟩
  · refine hs.trusted_of_clauses hsolver (fun _ ↦ hf.reference) fun p d on hclause ↦ ?_
    rw [hf.clause?] at hclause
    exact .inr ⟨on, hclause⟩
  · have hh := hs.held_of_needed hneeded
    rw [held?_eq hsolver] at hh
    rwa [hheld h hh]
  · rw [hf.clause?]
    exact fun p d on hclause ↦ .inl hclause
  · rw [hf.clause?]
    exact fun p clause hclause _ ↦ hclause
  · intro p d hon hmet
    refine hmet.congr fun h hd ↦ ?_
    have hh := hs.held_of_on (s := s) (h := h) (by rwa [clause?_eq hsolver]) hd
    rw [held?_eq hsolver] at hh
    rw [Solver.value_eq, Solver.value_eq, hheld h hh]

theorem Sound.undeclare (hs : e.Sound) {f : Solver → Solver}
    (forgets : ∀ solver, e.solvers.get? s = some solver → solver.Forgets (f solver) h)
    (free : ∀ x, ¬ e.Bound x s h) (unmentioned : ¬ e.Mentioned s h) :
    Sound { e with solvers := e.solvers.modify s f } := by
  refine hs.of_solver rfl rfl rfl (hs.tame.beside rfl rfl rfl rfl rfl) fun solver hsolver ↦ ?_
  have hf := forgets solver hsolver
  have hheld : ∀ h', e.Needed s h' → (f solver).held? h' = solver.held? h' := by
    intro h' hneeded
    rw [hf.held?, if_neg]
    rintro rfl
    rcases hneeded with ⟨x, hb⟩ | hmentioned
    · exact free x hb
    · exact unmentioned hmentioned
  refine ⟨?_, fun h' hneeded ↦ ?_, ?_, ?_, ?_⟩
  · refine hs.trusted_of_clauses hsolver hf.reference fun p d on hclause ↦ ?_
    rw [hf.clause?] at hclause
    exact .inr ⟨on, hclause⟩
  · rw [hheld h' hneeded, ← held?_eq hsolver]
    exact hs.held_of_needed hneeded
  · rw [hf.clause?]
    exact fun p d on hclause ↦ .inl hclause
  · rw [hf.clause?]
    exact fun p clause hclause _ ↦ hclause
  · intro p d hon hmet
    refine hmet.congr fun h' hd ↦ ?_
    rw [← clause?_eq hsolver] at hon
    rw [Solver.value_eq, Solver.value_eq, hheld h' (.inr (hs.mentioned_of_on hon hd))]

theorem Sound.install (hs : e.Sound) {f : Solver → Solver}
    (installs : ∀ solver, e.solvers.get? s = some solver →
      ∃ p d, solver.Installs (f solver) p d ∧ d.WellFormed) :
    Sound { e with solvers := e.solvers.modify s f } := by
  refine hs.of_solver rfl rfl rfl (hs.tame.beside rfl rfl rfl rfl rfl) fun solver hsolver ↦ ?_
  obtain ⟨p, d, hf, hd⟩ := installs solver hsolver
  have hclauses : ∀ q d' on, (f solver).clause? q = some (d', on) →
      q = p ∧ d' = d ∧ on = false ∨ solver.clause? q = some (d', on) := by
    intro q d' on hq
    rw [hf.clause?] at hq
    split at hq
    · next h =>
      cases hq
      exact .inl ⟨h, rfl, rfl⟩
    · exact .inr hq
  refine ⟨?_, fun h hneeded ↦ ?_, fun q d' on hq ↦ ?_, fun q clause hq _ ↦ ?_, ?_⟩
  · refine hs.trusted_of_clauses hsolver (fun _ ↦ hf.reference) fun q d' on hq ↦ ?_
    rcases hclauses q d' on hq with ⟨-, rfl, -⟩ | hq
    · exact .inl hd
    · exact .inr ⟨on, hq⟩
  · rw [hf.held?, ← held?_eq hsolver]
    exact hs.held_of_needed hneeded
  · rcases hclauses q d' on hq with ⟨rfl, -, rfl⟩ | hq
    · refine .inr ⟨nofun, ?_⟩
      rintro ⟨id, c, hc, rfl, hp⟩
      have hlt := hs.issued hc hp
      rw [issued_eq hsolver, hf.index] at hlt
      exact Nat.lt_irrefl _ hlt
    · exact .inl hq
  · rw [hf.clause?, if_neg]
    · exact hq
    · rintro rfl
      have hlt := Solver.lt_issued hq
      rw [hf.index] at hlt
      exact Nat.lt_irrefl _ hlt
  · intro q d' _ hmet
    refine hmet.congr fun h _ ↦ ?_
    rw [Solver.value_eq, Solver.value_eq, hf.held?]

theorem Sound.erase (hs : e.Sound) {f : Solver → Solver}
    (erases : ∀ solver, e.solvers.get? s = some solver → solver.Erases (f solver) p)
    (unowned : ¬ e.Owned s p) :
    Sound { e with solvers := e.solvers.modify s f } := by
  refine hs.of_solver rfl rfl rfl (hs.tame.beside rfl rfl rfl rfl rfl) fun solver hsolver ↦ ?_
  have hf := erases solver hsolver
  have hclauses : ∀ q c, (f solver).clause? q = some c → solver.clause? q = some c := by
    intro q c hq
    rw [hf.clause?] at hq
    split at hq
    · cases hq
    · exact hq
  refine ⟨?_, fun h hneeded ↦ ?_, fun q d on hq ↦ .inl (hclauses q _ hq), ?_, ?_⟩
  · exact hs.trusted_of_clauses hsolver hf.reference fun q d on hq ↦ .inr ⟨on, hclauses q _ hq⟩
  · rw [hf.held?, ← held?_eq hsolver]
    exact hs.held_of_needed hneeded
  · intro q clause hq howned
    rw [hf.clause?, if_neg]
    · exact hq
    · rintro rfl
      exact unowned howned
  · intro q d _ hmet
    refine hmet.congr fun h _ ↦ ?_
    rw [Solver.value_eq, Solver.value_eq, hf.held?]

theorem Sound.toggle (hs : e.Sound) {f : Solver → Solver}
    (toggles : ∀ solver, e.solvers.get? s = some solver → solver.Toggles (f solver) p on)
    (spare : ∀ d on, e.clause? s p = some (d, on) → ¬ d.IsRelation) :
    Sound { e with solvers := e.solvers.modify s f } := by
  refine hs.of_solver rfl rfl rfl (hs.tame.beside rfl rfl rfl rfl rfl) fun solver hsolver ↦ ?_
  have hf := toggles solver hsolver
  rw [clause?_eq hsolver] at spare
  have hclauses : ∀ q d on', (f solver).clause? q = some (d, on') →
      (q = p ∧ ∃ on, solver.clause? p = some (d, on)) ∨ solver.clause? q = some (d, on') := by
    intro q d on' hq
    rw [hf.clause?] at hq
    split at hq
    · next h =>
      obtain ⟨⟨d', on⟩, hclause, heq⟩ := Option.map_eq_some_iff.1 hq
      cases heq
      exact .inl ⟨h, on, h ▸ hclause⟩
    · exact .inr hq
  refine ⟨?_, fun h hneeded ↦ ?_, fun q d on' hq ↦ ?_, ?_, ?_⟩
  · refine hs.trusted_of_clauses hsolver hf.reference fun q d on' hq ↦ .inr ?_
    rcases hclauses q d on' hq with ⟨rfl, h⟩ | h
    · exact h
    · exact ⟨on', h⟩
  · rw [hf.held?, ← held?_eq hsolver]
    exact hs.held_of_needed hneeded
  · rcases hclauses q d on' hq with ⟨rfl, on, h⟩ | h
    · refine .inr ⟨fun _ ↦ spare d on h, fun howned ↦ spare d on h ?_⟩
      exact hs.relation_of_owned howned (by rwa [clause?_eq hsolver])
    · exact .inl h
  · rintro q ⟨d, on'⟩ hq howned
    rw [hf.clause?, if_neg]
    · exact hq
    · rintro rfl
      exact spare d on' hq (hs.relation_of_owned howned (by rwa [clause?_eq hsolver]))
  · intro q d _ hmet
    refine hmet.congr fun h _ ↦ ?_
    rw [Solver.value_eq, Solver.value_eq, hf.held?]

theorem Sound.addSolver (hs : e.Sound) {solver : Solver} (fresh : solver.IsFresh) :
    Sound { e with solvers := e.solvers.insert solver } := by
  have hnone : e.solvers.get? e.solvers.next = none := Arena.get?_next _
  have hcases : ∀ s, (e.solvers.insert solver).get? s = e.solvers.get? s ∨
      s = e.solvers.next ∧ (e.solvers.insert solver).get? s = some solver := by
    intro s
    rw [Arena.get?_insert]
    split
    · next h => exact .inr ⟨h, rfl⟩
    · exact .inl rfl
  refine hs.of_observations rfl rfl (hs.tame.beside rfl rfl rfl rfl rfl) ?_ ?_ ?_ ?_ ?_
  · intro s solver' hsolver'
    rcases hcases s with hold | ⟨-, hnew⟩
    · exact hs.trusted s solver' (hold.symm.trans hsolver')
    · obtain rfl : solver = solver' := Option.some.inj (hnew.symm.trans hsolver')
      exact fresh.trusted
  · intro s h hneeded
    have hh := hs.held_of_needed hneeded
    rcases hcases s with hold | ⟨rfl, -⟩
    · rw [held?, hold]
      exact hh
    · rw [held?, hnone] at hh
      cases hh
  · intro s p d on hp
    rcases hcases s with hold | ⟨-, hnew⟩
    · rw [Engine.clause?, hold] at hp
      exact .inl hp
    · rw [clause?_eq hnew, fresh.clause?_eq_none] at hp
      cases hp
  · intro s p clause hclause _
    rcases hcases s with hold | ⟨rfl, -⟩
    · rw [Engine.clause?, hold]
      exact hclause
    · rw [Engine.clause?, hnone] at hclause
      cases hclause
  · intro s p d hon hmet
    rcases hcases s with hold | ⟨rfl, -⟩
    · refine hmet.congr fun h _ ↦ ?_
      simp only [valueIn, held?, hold]
    · rw [Engine.clause?, hnone] at hon
      cases hon

end LiveConstraints.Engine
