import LiveConstraints.Proofs.SolverMoves
/-!
# Every move preserves the invariant

The moves that switch a constraint keep the constraint and its solver in step; this is where solving
matters. With the other moves they make up `Sound.move`, and with it `Sound.path`.
-/

namespace LiveConstraints.Engine

variable {e e' : Engine} {id : ConstraintId} {c : Constraint} {x : VarId} {s : SolverId}
  {h : ExtVar} {p : Primitive} {d : Demand} {on : Bool}

/-! ### Switching constraints on and off -/

/-- **Switching.** A constraint is switched together with its clauses. The invariant survives when
the clauses of all constraints that are on then are met. -/
theorem Sound.of_switch (hs : e.Sound) (live : e.constraints.get? id = some c) (on : Bool)
    (vars : e'.vars = e.vars)
    (constraints : e'.constraints = e.constraints.modify id fun c ↦ { c with enabled := on })
    (tame : e'.Tame)
    (trusted : ∀ s solver, e'.solvers.get? s = some solver → solver.Trusted)
    (held : ∀ s h, (e'.held? s h).isSome = (e.held? s h).isSome)
    (clause : ∀ s p, e'.clause? s p = if s = c.solver ∧ p ∈ c.primitives then
      (e.clause? s p).map fun k ↦ (k.1, on) else e.clause? s p)
    (met : ∀ id' c', e'.constraints.get? id' = some c' → c'.enabled = true → c'.isTest = false →
      ∀ p ∈ c'.primitives, ∀ d, e'.clause? c'.solver p = some (d, true) →
        d.Met (e'.valueIn c'.solver)) : e'.Sound := by
  have hcases : ∀ id' c', e'.constraints.get? id' = some c' →
      id' = id ∧ c' = { c with enabled := on } ∨ id' ≠ id ∧ e.constraints.get? id' = some c' := by
    intro id' c' hc'
    rw [constraints] at hc'
    obtain ⟨d, hd, ⟨rfl, rfl⟩ | ⟨hne, rfl⟩⟩ := exists_constraint_of_modify hc'
    · obtain rfl : d = c := Option.some.inj (hd.symm.trans live)
      exact .inl ⟨rfl, rfl⟩
    · exact .inr ⟨hne, hd⟩
  -- apart from whether it is on, a constraint is as it was
  have hback : ∀ id' c', e'.constraints.get? id' = some c' → ∃ c₀,
      e.constraints.get? id' = some c₀ ∧ c'.solver = c₀.solver ∧ c'.primitives = c₀.primitives ∧
        c'.vars = c₀.vars ∧ c'.options = c₀.options := by
    intro id' c' hc'
    rcases hcases id' c' hc' with ⟨rfl, rfl⟩ | ⟨-, hold⟩
    · exact ⟨c, live, rfl, rfl, rfl, rfl⟩
    · exact ⟨c', hold, rfl, rfl, rfl, rfl⟩
  -- a clause demands what it demanded
  have hclause : ∀ s p d b, e'.clause? s p = some (d, b) → ∃ b, e.clause? s p = some (d, b) := by
    intro s p d b hp
    rw [clause] at hp
    split at hp
    · obtain ⟨⟨d', b'⟩, hold, heq⟩ := Option.map_eq_some_iff.1 hp
      cases heq
      exact ⟨b', hold⟩
    · exact ⟨b, hp⟩
  -- the clauses of another constraint are as they were
  have hothers : ∀ id' c', id' ≠ id → e.constraints.get? id' = some c' → ∀ p ∈ c'.primitives,
      e'.clause? c'.solver p = e.clause? c'.solver p := by
    intro id' c' hne hc' p hp
    rw [clause, if_neg]
    rintro ⟨hsolver, hp'⟩
    exact hne (hs.unique id' c' id c hc' live hsolver p hp hp')
  have hbound : ∀ x s h, e'.Bound x s h ↔ e.Bound x s h := fun x s h ↦ by rw [Bound, vars, Bound]
  have hlists : ∀ x id, e'.Lists x id ↔ e.Lists x id := fun x id ↦ by rw [Lists, vars, Lists]
  refine ⟨trusted, ?_, ?_, ?_, ?_, ?_, ?_, ?_, ?_, met, tame⟩
  · rw [vars]
    exact hs.ordered
  · intro x s h hb
    rw [held]
    exact hs.bound x s h ((hbound ..).1 hb)
  · exact fun x y s h hx hy ↦ hs.injective x y s h ((hbound ..).1 hx) ((hbound ..).1 hy)
  · intro id' c' hc' p hp
    obtain ⟨c₀, hc₀, hsolver, hprimitives, -, -⟩ := hback id' c' hc'
    have hexists := hs.existing id' c₀ hc₀ p (hprimitives ▸ hp)
    rw [hsolver, clause]
    split
    · rwa [Option.isSome_map]
    · exact hexists
  · intro id₁ c₁ id₂ c₂ hc₁ hc₂ hsolver p hp₁ hp₂
    obtain ⟨d₁, hd₁, hsolver₁, hprimitives₁, -, -⟩ := hback id₁ c₁ hc₁
    obtain ⟨d₂, hd₂, hsolver₂, hprimitives₂, -, -⟩ := hback id₂ c₂ hc₂
    exact hs.unique id₁ d₁ id₂ d₂ hd₁ hd₂ (by rw [← hsolver₁, hsolver, hsolver₂]) p
      (hprimitives₁ ▸ hp₁) (hprimitives₂ ▸ hp₂)
  · intro id' c' hc' p hp d b hp'
    obtain ⟨c₀, hc₀, hsolver, hprimitives, hvars, -⟩ := hback id' c' hc'
    obtain ⟨b', hp'⟩ := hclause _ p d b hp'
    rw [hsolver] at hp'
    have hcovers := hs.covered id' c₀ hc₀ p (hprimitives ▸ hp) d b' hp'
    rw [hsolver, hvars]
    refine ⟨hcovers.relation, fun h hd ↦ ?_, fun h x hd hb ↦ ?_⟩
    · rw [held]
      exact hcovers.held h hd
    · rw [hlists]
      exact hcovers.listed h x hd ((hbound ..).1 hb)
  · intro id' c' hc' p hp
    rcases hcases id' c' hc' with ⟨rfl, rfl⟩ | ⟨hne, hold⟩
    · dsimp only at hp ⊢
      rw [clause, if_pos ⟨rfl, hp⟩]
      constructor
      · rintro ⟨d, hd⟩
        obtain ⟨k, -, heq⟩ := Option.map_eq_some_iff.1 hd
        exact (Prod.mk.inj heq).2
      · rintro rfl
        obtain ⟨k, hk⟩ := Option.isSome_iff_exists.1 (hs.existing _ _ live p hp)
        exact ⟨k.1, by rw [hk, Option.map_some]⟩
    · rw [hothers id' c' hne hold p hp]
      exact hs.switched id' c' hold p hp
  · intro s p d hon hd
    rw [clause] at hon
    split at hon
    · next h =>
      refine ⟨id, { c with enabled := on }, ?_, h.1.symm, h.2⟩
      rw [constraints, get?_modify_constraint live, if_pos rfl]
    · obtain ⟨id', c₀, hc₀, hsolver, hp⟩ := hs.owner s p d hon hd
      refine ⟨id', if id' = id then { c₀ with enabled := on } else c₀, ?_, ?_, ?_⟩
      · rw [constraints, get?_modify_constraint hc₀]
      · split <;> exact hsolver
      · split <;> exact hp

/-- The clauses of a solver that switched some of its clauses. -/
theorem clause?_of_toggles {f : Solver → Solver} {s : SolverId} {ps : List Primitive}
    (solvers : e'.solvers = e.solvers.modify s f)
    (toggles : ∀ solver, e.solvers.get? s = some solver → ∀ q, (f solver).clause? q
      = if q ∈ ps then (solver.clause? q).map fun c ↦ (c.1, on) else solver.clause? q)
    (t : SolverId) (p : Primitive) : e'.clause? t p = if t = s ∧ p ∈ ps then
      (e.clause? t p).map fun k ↦ (k.1, on) else e.clause? t p := by
  rw [clause?, clause?, get?_solvers_of_modify solvers]
  by_cases ht : t = s
  · subst ht
    rw [if_pos rfl]
    cases hsolver : e.solvers.get? t with
    | none =>
      split <;> rfl
    | some solver =>
      show (f solver).clause? p = _
      rw [toggles solver hsolver]
      simp only [true_and]
      rfl
  · rw [if_neg ht, if_neg fun h ↦ ht h.1]

/-- What switching leaves of a solver, whether or not it solved afterwards. -/
structure Switches (solver solver' : Solver) (ps : List Primitive) (on : Bool) : Prop where
  contains : ∀ h, (solver'.held? h).isSome = (solver.held? h).isSome
  clause? : ∀ q, solver'.clause? q
    = if q ∈ ps then (solver.clause? q).map fun c ↦ (c.1, on) else solver.clause? q
  reference : solver.IsReference → solver'.IsReference

theorem switches_of_toggles {solver solver' : Solver} {ps : List Primitive}
    (h : solver.TogglesAll solver' ps on) : Switches solver solver' ps on where
  contains x := by rw [h.held?]
  clause? := h.clause?
  reference := h.reference

theorem Switches.adopts {solver switched solved : Solver} {ps : List Primitive}
    (h : Switches solver switched ps on) (h' : switched.Adopts solved) :
    Switches solver solved ps on where
  contains x := by rw [h'.contains, h.contains]
  clause? q := by rw [h'.clause?, h.clause?]
  reference := h'.reference ∘ h.reference

/-- A constraint is switched and its solver may solve: either the values stay and no new clause has
to be met, or all clauses that are on are met. -/
theorem Sound.of_switches (hs : e.Sound) (live : e.constraints.get? id = some c)
    {f : Solver → Solver} (vars : e'.vars = e.vars)
    (constraints : e'.constraints = e.constraints.modify id fun c ↦ { c with enabled := on })
    (solvers : e'.solvers = e.solvers.modify c.solver f) (tame : e'.Tame)
    (switches : ∀ solver, e.solvers.get? c.solver = some solver →
      Switches solver (f solver) c.primitives on)
    (met : ∀ solver, e.solvers.get? c.solver = some solver →
      (on = false ∨ c.isTest = true) ∧ (f solver).held? = solver.held? ∨
        ∀ p d, (f solver).clause? p = some (d, true) → d.Met (f solver).value) : e'.Sound := by
  have hcases : ∀ s, e'.solvers.get? s = e.solvers.get? s ∧ s ≠ c.solver ∨
      s = c.solver ∧ e'.solvers.get? s = (e.solvers.get? s).map f := by
    intro s
    rw [get?_solvers_of_modify solvers]
    split
    · next h => exact .inr ⟨h, rfl⟩
    · next h => exact .inl ⟨rfl, h⟩
  have hclause := clause?_of_toggles solvers fun solver hsolver ↦ (switches solver hsolver).clause?
  refine hs.of_switch live on vars constraints tame ?_ ?_ hclause ?_
  · intro s solver' hsolver'
    rcases hcases s with ⟨hold, -⟩ | ⟨rfl, hnew⟩
    · exact hs.trusted s solver' (hold.symm.trans hsolver')
    · obtain ⟨solver, hsolver, rfl⟩ := Option.map_eq_some_iff.1 (hnew.symm.trans hsolver')
      have hf := switches solver hsolver
      refine hs.trusted_of_clauses hsolver hf.reference fun p d b hp ↦ .inr ?_
      rw [hf.clause?] at hp
      split at hp
      · obtain ⟨⟨d', b'⟩, hold, heq⟩ := Option.map_eq_some_iff.1 hp
        cases heq
        exact ⟨b', hold⟩
      · exact ⟨b, hp⟩
  · intro s h
    rcases hcases s with ⟨hold, -⟩ | ⟨rfl, hnew⟩
    · rw [held?, held?, hold]
    · rw [held?, held?, hnew]
      cases hsolver : e.solvers.get? c.solver with
      | none => rfl
      | some solver => exact (switches solver hsolver).contains h
  · intro id' c' hc' henabled htest p hp d hon
    rw [constraints] at hc'
    -- a clause whose constraint is not the one that was switched on was met before
    have hbefore : on = false ∨ c.isTest = true ∨ c'.solver ≠ c.solver →
        d.Met (e.valueIn c'.solver) := by
      intro hcase
      obtain ⟨c₀, hc₀, ⟨rfl, rfl⟩ | ⟨hne, rfl⟩⟩ := exists_constraint_of_modify hc'
      · obtain rfl : c₀ = c := Option.some.inj (hc₀.symm.trans live)
        rcases hcase with rfl | htest' | hne
        · cases henabled
        · rw [htest'] at htest
          cases htest
        · exact absurd rfl hne
      · refine hs.met id' c' hc₀ henabled htest p hp d ?_
        rw [hclause, if_neg] at hon
        · exact hon
        · rintro ⟨hsolver, hp'⟩
          exact hne (hs.unique id' c' id c hc₀ live hsolver p hp hp')
    rcases hcases c'.solver with ⟨hold, hne⟩ | ⟨hsc, hnew⟩
    · refine (hbefore (.inr (.inr hne))).congr fun h _ ↦ ?_
      simp only [valueIn, held?, hold]
    · cases hsolver : e.solvers.get? c'.solver with
      | none =>
        rw [clause?, hnew, hsolver] at hon
        cases hon
      | some solver =>
        rw [hsolver, Option.map_some] at hnew
        rw [valueIn_eq hnew]
        rcases met solver (hsc ▸ hsolver) with ⟨hcase, hheld⟩ | hmet
        · refine (hbefore (hcase.imp_right .inl)).congr fun h _ ↦ ?_
          rw [valueIn_eq hsolver, Solver.value_eq, Solver.value_eq, hheld]
        · rw [clause?_eq hnew] at hon
          exact hmet p d hon

theorem Sound.activate (hs : e.Sound) {f : Solver → Solver}
    (live : e.constraints.get? id = some c)
    (solves : ∀ solver, e.solvers.get? c.solver = some solver → ∃ switched,
      solver.TogglesAll switched c.primitives true ∧
        (c.isTest = true ∧ f solver = switched ∨ switched.Adopts (f solver)))
    (vars : e'.vars = e.vars)
    (constraints : e'.constraints = e.constraints.modify id fun c ↦ { c with enabled := true })
    (solvers : e'.solvers = e.solvers.modify c.solver f) (tame : e'.Tame) : e'.Sound := by
  refine hs.of_switches live vars constraints solvers tame (fun solver hsolver ↦ ?_)
    fun solver hsolver ↦ ?_
  · obtain ⟨switched, toggles, ⟨-, heq⟩ | hadopts⟩ := solves solver hsolver
    · rw [heq]
      exact switches_of_toggles toggles
    · exact (switches_of_toggles toggles).adopts hadopts
  · obtain ⟨switched, toggles, ⟨htest, heq⟩ | hadopts⟩ := solves solver hsolver
    · rw [heq]
      exact .inl ⟨.inr htest, toggles.held?⟩
    · refine .inr (hadopts.met fun p d h hp hd ↦ ?_)
      -- what the clauses mention exists: those just switched on are covered by the constraint
      rw [toggles.held?, ← held?_eq hsolver]
      rw [toggles.clause?] at hp
      split at hp
      · next hmem =>
        obtain ⟨⟨d', on'⟩, hold, heq⟩ := Option.map_eq_some_iff.1 hp
        cases heq
        rw [← clause?_eq hsolver] at hold
        exact (hs.covered id c live p hmem d' on' hold).held h hd
      · rw [← clause?_eq hsolver] at hp
        exact hs.held_of_on hp hd

theorem Sound.deactivate (hs : e.Sound) {f : Solver → Solver}
    (live : e.constraints.get? id = some c)
    (toggles : ∀ solver, e.solvers.get? c.solver = some solver →
      solver.TogglesAll (f solver) c.primitives false)
    (vars : e'.vars = e.vars)
    (constraints : e'.constraints = e.constraints.modify id fun c ↦ { c with enabled := false })
    (solvers : e'.solvers = e.solvers.modify c.solver f) (tame : e'.Tame) : e'.Sound := by
  refine hs.of_switches live vars constraints solvers tame
    (fun solver hsolver ↦ switches_of_toggles (toggles solver hsolver))
    fun solver hsolver ↦ .inl ⟨.inl rfl, (toggles solver hsolver).held?⟩

theorem Tame.of_modify (h : e.Tame) {f : Constraint → Constraint}
    (config : e'.config = e.config) (objects : e'.objects = e.objects)
    (constraints : e'.constraints = e.constraints.modify id f)
    (deferred : e'.deferred = e.deferred) (pending : e'.pendingHooks = e.pendingHooks)
    (options : ∀ c : Constraint, (f c).options = c.options) : e'.Tame := by
  refine ⟨?_, ?_, fun id' c hc ↦ ?_, ?_, ?_⟩
  · rw [config]
    exact h.evaluator
  · rw [objects]
    exact h.hooks
  · rw [constraints] at hc
    obtain ⟨d, hd, ⟨-, rfl⟩ | ⟨-, rfl⟩⟩ := exists_constraint_of_modify hc
    · rw [options]
      exact h.options id' d hd
    · exact h.options id' c hd
  · rw [deferred]
    exact h.deferred
  · rw [pending]
    exact h.pending

/-! ### Moves and paths -/

/-- **Every move preserves the invariant.** -/
theorem Sound.move (hs : e.Sound) (h : Move e e') : e'.Sound := by
  cases h with
  | aside config objects vars constraints solvers tame =>
    exact hs.aside vars constraints solvers (tame hs.tame)
  | objects objects tame => exact hs.aside rfl rfl rfl (tame hs.tame)
  | retouch vars links live => exact hs.retouch links live
  | allocate v unbound => exact hs.allocate unbound
  | join x id => exact hs.join x id
  | extend id x => exact hs.extend id x
  | link x s handle unbound held free unmentioned => exact hs.link unbound held free unmentioned
  | unlink x s => exact hs.unlink x s
  | release x => exact hs.release x
  | leave x id bare => exact hs.leave bare
  | forget x id gone => exact hs.forget id gone
  | adjust id f core => exact hs.adjust id core
  | introduce c primitives options => exact hs.introduce primitives options
  | retire id disabled => exact hs.retire disabled
  | reshape id c c' live disabled options realizable =>
    exact hs.reshape live disabled options realizable
  | activate id c f live solves =>
    exact hs.activate live solves rfl rfl rfl (hs.tame.of_modify rfl rfl rfl rfl rfl fun _ ↦ rfl)
  | deactivate id c f live toggles =>
    exact hs.deactivate live toggles rfl rfl rfl (hs.tame.of_modify rfl rfl rfl rfl rfl fun _ ↦ rfl)
  | adopt s f adopts => exact hs.adopt adopts
  | declare s f declares => exact hs.declare declares
  | undeclare s h f forgets free unmentioned => exact hs.undeclare forgets free unmentioned
  | install s f installs => exact hs.install installs
  | erase s p f erases unowned => exact hs.erase erases unowned
  | toggle s p on f toggles spare => exact hs.toggle toggles spare
  | addSolver solver fresh => exact hs.addSolver fresh

/-- **Every path preserves the invariant.** -/
theorem Sound.path (hs : e.Sound) (h : Path e e') : e'.Sound := by
  induction h with
  | refl => exact hs
  | tail _ hmove ih => exact ih.move hmove

end LiveConstraints.Engine
