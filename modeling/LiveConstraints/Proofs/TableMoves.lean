import LiveConstraints.Proofs.Move
/-!
# Moves that change variables and constraints

While the solvers stay as they are, the invariant is a matter of bindings and memberships
(`Sound.of_tables`). What is left is the move that gives a constraint another realization.
-/

namespace LiveConstraints.Engine

variable {e e' : Engine} {id : ConstraintId} {c : Constraint} {x : VarId} {s : SolverId}
  {h : ExtVar} {p : Primitive} {d : Demand} {on : Bool}

/-! ### Observations after a change -/

theorem clause?_congr (hsolvers : e'.solvers = e.solvers) : e'.clause? = e.clause? := by
  funext s p
  rw [clause?, hsolvers, clause?]

theorem held?_congr (hsolvers : e'.solvers = e.solvers) : e'.held? = e.held? := by
  funext s h
  rw [held?, hsolvers, held?]

theorem issued_congr (hsolvers : e'.solvers = e.solvers) : e'.issued = e.issued := by
  funext s
  rw [issued, hsolvers, issued]

theorem valueIn_congr (hsolvers : e'.solvers = e.solvers) : e'.valueIn = e.valueIn := by
  funext s h
  rw [valueIn, held?_congr hsolvers, valueIn]

/-- A primitive that is on in a constraint's solver means that the constraint is on. -/
theorem Sound.enabled_of_on (hs : e.Sound) (hc : e.constraints.get? id = some c)
    (hp : p ∈ c.primitives) (hon : e.clause? c.solver p = some (d, true)) : c.enabled = true :=
  (hs.switched id c hc p hp).1 ⟨d, hon⟩

/-- The primitives of a constraint were handed out by its solver. -/
theorem Sound.issued (hs : e.Sound) (hc : e.constraints.get? id = some c)
    (hp : p ∈ c.primitives) : p.index < e.issued c.solver := by
  obtain ⟨clause, hclause⟩ := Option.isSome_iff_exists.1 (hs.existing id c hc p hp)
  obtain ⟨solver, hsolver, hclause⟩ := Option.bind_eq_some_iff.1 hclause
  rw [Engine.issued, hsolver]
  exact Solver.lt_issued hclause

/-- **Changing the tables.** The invariant survives when what is bound exists and is bound once,
constraints keep their realization, those that are on stay, and the variables bound to mentioned
handles take part in the constraint. -/
theorem Sound.of_tables (hs : e.Sound) (solvers : e'.solvers = e.solvers)
    (ordered : ∀ x v, e'.vars.get? x = some v → v.bindings.Ordered)
    (held : ∀ x s h, e'.Bound x s h → (e.held? s h).isSome = true)
    (injective : ∀ x y s h, e'.Bound x s h → e'.Bound y s h → x = y)
    (back : ∀ id c', e'.constraints.get? id = some c' → c'.primitives = [] ∨
      ∃ c, e.constraints.get? id = some c ∧ c'.solver = c.solver ∧ c'.primitives = c.primitives ∧
        c'.enabled = c.enabled ∧ (c'.isTest = false → c.isTest = false))
    (kept : ∀ id c, e.constraints.get? id = some c → c.enabled = true →
      ∃ c', e'.constraints.get? id = some c' ∧ c'.solver = c.solver ∧
        c'.primitives = c.primitives)
    (listed : ∀ id c c' p d on x h, e.constraints.get? id = some c →
      e'.constraints.get? id = some c' → p ∈ c.primitives → e.clause? c.solver p = some (d, on) →
      d.Mentions h → e'.Bound x c.solver h → e'.Lists x id ∧ x ∈ c'.vars)
    (tame : e'.Tame) : e'.Sound := by
  have hclause := clause?_congr solvers
  have hheld := held?_congr solvers
  have hvalue := valueIn_congr solvers
  -- a constraint with primitives was there before, with the same realization
  have hback : ∀ id c' p, e'.constraints.get? id = some c' → p ∈ c'.primitives →
      ∃ c, e.constraints.get? id = some c ∧ c'.solver = c.solver ∧ c'.primitives = c.primitives ∧
        c'.enabled = c.enabled ∧ (c'.isTest = false → c.isTest = false) := by
    intro id c' p hc' hp
    rcases back id c' hc' with hnil | hc
    · rw [hnil] at hp
      exact absurd hp (by simp)
    · exact hc
  refine ⟨?_, ordered, ?_, injective, ?_, ?_, ?_, ?_, ?_, ?_, tame⟩
  · rw [solvers]
    exact hs.trusted
  · intro x s h hb
    rw [hheld]
    exact held x s h hb
  · intro id c' hc' p hp
    obtain ⟨c, hc, hsolver, hprimitives, -, -⟩ := hback id c' p hc' hp
    rw [hclause, hsolver]
    exact hs.existing id c hc p (hprimitives ▸ hp)
  · intro id c' id₂ c₂' hc' hc₂' hsolver p hp hp₂
    obtain ⟨c, hc, hsolver₁, hprimitives, -, -⟩ := hback id c' p hc' hp
    obtain ⟨c₂, hc₂, hsolver₂, hprimitives₂, -, -⟩ := hback id₂ c₂' p hc₂' hp₂
    exact hs.unique id c id₂ c₂ hc hc₂ (by rw [← hsolver₁, hsolver, hsolver₂]) p
      (hprimitives ▸ hp) (hprimitives₂ ▸ hp₂)
  · intro id c' hc' p hp d on hclauseP
    obtain ⟨c, hc, hsolver, hprimitives, -, -⟩ := hback id c' p hc' hp
    rw [hsolver, hclause] at hclauseP
    have hcovers := hs.covered id c hc p (hprimitives ▸ hp) d on hclauseP
    rw [hsolver]
    refine ⟨hcovers.relation, fun h hh ↦ ?_, fun h x hh hb ↦ ?_⟩
    · rw [hheld]
      exact hcovers.held h hh
    · exact listed id c c' p d on x h hc hc' (hprimitives ▸ hp) hclauseP hh hb
  · intro id c' hc' p hp
    obtain ⟨c, hc, hsolver, hprimitives, henabled, -⟩ := hback id c' p hc' hp
    rw [hclause, hsolver, henabled]
    exact hs.switched id c hc p (hprimitives ▸ hp)
  · intro s p d hon hd
    rw [hclause] at hon
    obtain ⟨id, c, hc, rfl, hp⟩ := hs.owner s p d hon hd
    obtain ⟨c', hc', hsolver, hprimitives⟩ := kept id c hc (hs.enabled_of_on hc hp hon)
    exact ⟨id, c', hc', hsolver, hprimitives ▸ hp⟩
  · intro id c' hc' henabled' htest' p hp d hon
    obtain ⟨c, hc, hsolver, hprimitives, henabled, htest⟩ := hback id c' p hc' hp
    rw [hclause, hsolver] at hon
    rw [hvalue, hsolver]
    exact hs.met id c hc (henabled ▸ henabled') (htest htest') p (hprimitives ▸ hp) d hon

/-- The variables change, without new bindings. -/
theorem Sound.of_vars (hs : e.Sound) (solvers : e'.solvers = e.solvers)
    (constraints : e'.constraints = e.constraints)
    (ordered : ∀ x v, e'.vars.get? x = some v → v.bindings.Ordered)
    (bound : ∀ x s h, e'.Bound x s h → e.Bound x s h)
    (listed : ∀ id c p d on x h, e.constraints.get? id = some c → p ∈ c.primitives →
      e.clause? c.solver p = some (d, on) → e'.Bound x c.solver h → e.Lists x id →
      e'.Lists x id) (tame : e'.Tame) : e'.Sound := by
  refine hs.of_tables solvers ordered ?_ ?_ ?_ ?_ ?_ tame
  · exact fun x s h hb ↦ hs.bound x s h (bound x s h hb)
  · exact fun x y s h hx hy ↦ hs.injective x y s h (bound x s h hx) (bound y s h hy)
  · rw [constraints]
    exact fun id c hc ↦ .inr ⟨c, hc, rfl, rfl, rfl, fun h ↦ h⟩
  · rw [constraints]
    exact fun id c hc _ ↦ ⟨c, hc, rfl, rfl⟩
  · rw [constraints]
    intro id c c' p d on x h hc hc' hp hclause hd hb
    obtain rfl : c = c' := Option.some.inj (hc.symm.trans hc')
    obtain ⟨hlists, hmem⟩ := (hs.covered id c hc p hp d on hclause).listed h x hd (bound _ _ _ hb)
    exact ⟨listed id c p d on x h hc hp hclause hb hlists, hmem⟩

/-- The constraints change, but for new ones without primitives not their realizations. -/
theorem Sound.of_constraints (hs : e.Sound) (solvers : e'.solvers = e.solvers)
    (vars : e'.vars = e.vars)
    (back : ∀ id c', e'.constraints.get? id = some c' → c'.primitives = [] ∨
      ∃ c, e.constraints.get? id = some c ∧ c'.solver = c.solver ∧ c'.primitives = c.primitives ∧
        c'.enabled = c.enabled ∧ (c'.isTest = false → c.isTest = false))
    (kept : ∀ id c, e.constraints.get? id = some c → c.enabled = true →
      ∃ c', e'.constraints.get? id = some c' ∧ c'.solver = c.solver ∧
        c'.primitives = c.primitives)
    (listed : ∀ id c c' x h, e.constraints.get? id = some c → e'.constraints.get? id = some c' →
      e.Bound x c.solver h → x ∈ c.vars → x ∈ c'.vars)
    (tame : e'.Tame) : e'.Sound := by
  have hbound : ∀ x s h, e'.Bound x s h → e.Bound x s h := fun x s h hb ↦ by rwa [Bound, ← vars]
  refine hs.of_tables solvers ?_ ?_ ?_ back kept ?_ tame
  · rw [vars]
    exact hs.ordered
  · exact fun x s h hb ↦ hs.bound x s h (hbound x s h hb)
  · exact fun x y s h hx hy ↦ hs.injective x y s h (hbound x s h hx) (hbound y s h hy)
  · intro id c c' p d on x h hc hc' hp hclause hd hb
    obtain ⟨hlists, hmem⟩ :=
      (hs.covered id c hc p hp d on hclause).listed h x hd (hbound _ _ _ hb)
    exact ⟨by rwa [Lists, vars], listed id c c' x h hc hc' (hbound _ _ _ hb) hmem⟩

/-! ### Moves that change the tables -/

theorem Sound.aside (hs : e.Sound) (vars : e'.vars = e.vars)
    (constraints : e'.constraints = e.constraints) (solvers : e'.solvers = e.solvers)
    (tame : e'.Tame) : e'.Sound := by
  refine hs.of_vars solvers constraints ?_ ?_ ?_ tame
  · rw [vars]
    exact hs.ordered
  · exact fun x s h hb ↦ by rwa [Bound, ← vars]
  · exact fun id c p d on x h _ _ _ _ hlists ↦ by rwa [Lists, vars]

theorem Sound.retouch (hs : e.Sound) {vars : Arena .variable Variable}
    (links : ∀ x v, vars.get? x = some v → ∃ w, e.vars.get? x = some w ∧ SameLinks w v)
    (live : ∀ x v, e.vars.get? x = some v → ∃ w, vars.get? x = some w) :
    Sound { e with vars } := by
  refine hs.of_vars rfl rfl ?_ ?_ ?_ (hs.tame.beside rfl rfl rfl rfl rfl)
  · intro x v hv
    obtain ⟨w, hw, hlinks⟩ := links x v hv
    rw [hlinks.bindings]
    exact hs.ordered x w hw
  · rintro x s h ⟨v, hv, hh⟩
    obtain ⟨w, hw, hlinks⟩ := links x v hv
    refine ⟨w, hw, ?_⟩
    rwa [Variable.handle?, ← hlinks.bindings]
  · rintro id c p d on x h - - - - ⟨w, hw, hid⟩
    obtain ⟨v, hv⟩ := live x w hw
    obtain ⟨w', hw', hlinks⟩ := links x v hv
    obtain rfl : w = w' := Option.some.inj (hw.symm.trans hw')
    exact ⟨v, hv, by rwa [hlinks.constraints]⟩

theorem Sound.allocate (hs : e.Sound) {v : Variable} (unbound : v.bindings = ∅) :
    Sound { e with vars := e.vars.insert v } := by
  refine hs.of_vars rfl rfl ?_ ?_ ?_ (hs.tame.beside rfl rfl rfl rfl rfl)
  · intro x w hw
    obtain ⟨-, rfl⟩ | ⟨-, hw⟩ := Arena.of_get?_insert hw
    · rw [unbound]
      exact SortedMap.ordered_empty
    · exact hs.ordered x w hw
  · rintro x s h ⟨w, hw, hh⟩
    obtain ⟨-, rfl⟩ | ⟨-, hw⟩ := Arena.of_get?_insert hw
    · rw [Variable.handle?, unbound] at hh
      cases hh
    · exact ⟨w, hw, hh⟩
  · rintro id c p d on x h - - - - ⟨w, hw, hid⟩
    exact ⟨w, Arena.get?_insert_of_get? hw, hid⟩

/-- A change of one variable. -/
theorem exists_of_modify {f : Variable → Variable} {y : VarId} {w : Variable}
    (hw : (e.vars.modify x f).get? y = some w) :
    ∃ v, e.vars.get? y = some v ∧ (y = x ∧ w = f v ∨ y ≠ x ∧ w = v) := by
  rw [Arena.get?_modify] at hw
  split at hw
  · next hy =>
    obtain ⟨v, hv, rfl⟩ := Option.map_eq_some_iff.1 hw
    exact ⟨v, hv, .inl ⟨hy, rfl⟩⟩
  · next hy => exact ⟨w, hw, .inr ⟨hy, rfl⟩⟩

theorem get?_modify_of_get? {f : Variable → Variable} {y : VarId} {v : Variable}
    (hv : e.vars.get? y = some v) :
    (e.vars.modify x f).get? y = some (if y = x then f v else v) := by
  rw [Arena.get?_modify, hv]
  split <;> rfl

/-- One variable changes without new bindings. -/
theorem Sound.of_variable (hs : e.Sound) {f : Variable → Variable}
    (ordered : ∀ v : Variable, v.bindings.Ordered → (f v).bindings.Ordered)
    (bound : ∀ v s h, (f v).handle? s = some h → v.handle? s = some h)
    (listed : ∀ id c p d on h v, e.constraints.get? id = some c → p ∈ c.primitives →
      e.clause? c.solver p = some (d, on) → id ∈ v.constraints.members →
      (f v).handle? c.solver = some h → id ∈ (f v).constraints.members) :
    Sound { e with vars := e.vars.modify x f } := by
  refine hs.of_vars rfl rfl ?_ ?_ ?_ (hs.tame.beside rfl rfl rfl rfl rfl)
  · intro y w hw
    obtain ⟨v, hv, ⟨-, rfl⟩ | ⟨-, rfl⟩⟩ := exists_of_modify hw
    · exact ordered v (hs.ordered y v hv)
    · exact hs.ordered y w hv
  · rintro y s h ⟨w, hw, hh⟩
    obtain ⟨v, hv, ⟨-, rfl⟩ | ⟨-, rfl⟩⟩ := exists_of_modify hw
    · exact ⟨v, hv, bound v s h hh⟩
    · exact ⟨w, hv, hh⟩
  · rintro id c p d on y h hc hp hclause ⟨w, hw, hh⟩ ⟨v, hv, hid⟩
    obtain rfl : w = _ := Option.some.inj (hw.symm.trans (get?_modify_of_get? hv))
    refine ⟨_, hw, ?_⟩
    split
    · next hy =>
      rw [if_pos hy] at hh
      exact listed id c p d on h v hc hp hclause hid hh
    · exact hid

theorem Sound.join (hs : e.Sound) (x : VarId) (id : ConstraintId) :
    Sound { e with vars := e.vars.modify x fun v ↦
      { v with constraints := v.constraints.add id } } := by
  refine hs.of_variable (fun v hv ↦ hv) (fun v s h hh ↦ hh) ?_
  exact fun id' c p d on h v _ _ _ hid _ ↦ SortedSet.mem_members_add.2 (.inr hid)

theorem Sound.unlink (hs : e.Sound) (x : VarId) (s : SolverId) :
    Sound { e with vars := e.vars.modify x fun v ↦
      { v with bindings := v.bindings.erase s } } := by
  refine hs.of_variable (fun v hv ↦ hv.erase s) (fun v t h hh ↦ ?_)
    fun id' c p d on h v _ _ _ hid _ ↦ hid
  rw [Variable.handle?, SortedMap.find?_erase] at hh
  split at hh
  · cases hh
  · exact hh

theorem Sound.leave (hs : e.Sound) {x : VarId} {id : ConstraintId}
    (bare : ∀ c, e.constraints.get? id = some c → c.primitives = []) :
    Sound { e with vars := e.vars.modify x fun v ↦
      { v with constraints := v.constraints.erase id } } := by
  refine hs.of_variable (fun v hv ↦ hv) (fun v s h hh ↦ hh) ?_
  intro id' c p d on h v hc hp hclause hid _
  refine SortedSet.mem_members_erase.2 ⟨hid, ?_⟩
  rintro rfl
  rw [bare c hc] at hp
  cases hp

theorem Sound.release (hs : e.Sound) (x : VarId) : Sound { e with vars := e.vars.remove x } := by
  have hfind : ∀ y w, (e.vars.remove x).get? y = some w → e.vars.get? y = some w :=
    fun _ _ hw ↦ (Arena.of_get?_remove hw).2
  refine hs.of_vars rfl rfl ?_ ?_ ?_ (hs.tame.beside rfl rfl rfl rfl rfl)
  · exact fun y w hw ↦ hs.ordered y w (hfind y w hw)
  · rintro y s h ⟨w, hw, hh⟩
    exact ⟨w, hfind y w hw, hh⟩
  · rintro id c p d on y h - - - ⟨w, hw, -⟩ ⟨v, hv, hid⟩
    obtain rfl : v = w := Option.some.inj (hv.symm.trans (hfind y w hw))
    exact ⟨v, hw, hid⟩

/-- A new binding, to a handle that nothing relies on yet. -/
theorem Sound.link (hs : e.Sound) {x : VarId} {s : SolverId} {handle : Option ExtVar}
    (unbound : ∀ h, ¬ e.Bound x s h)
    (held : ∀ h, handle = some h → (e.held? s h).isSome = true)
    (free : ∀ h, handle = some h → ∀ y, ¬ e.Bound y s h)
    (unmentioned : ∀ h, handle = some h → ¬ e.Mentioned s h) :
    Sound { e with vars := e.vars.modify x fun v ↦
      { v with bindings := v.bindings.insert s handle } } := by
  have hbound : ∀ y t h, Bound { e with vars := e.vars.modify x fun v ↦
      { v with bindings := v.bindings.insert s handle } } y t h →
      e.Bound y t h ∨ y = x ∧ t = s ∧ handle = some h := by
    rintro y t h ⟨w, hw, hh⟩
    obtain ⟨v, hv, ⟨rfl, rfl⟩ | ⟨-, rfl⟩⟩ := exists_of_modify hw
    · rw [Variable.handle?, SortedMap.find?_insert] at hh
      split at hh
      · next ht => exact .inr ⟨rfl, ht, hh⟩
      · exact .inl ⟨v, hv, hh⟩
    · exact .inl ⟨w, hv, hh⟩
  refine hs.of_tables rfl ?_ ?_ ?_ ?_ ?_ ?_ (hs.tame.beside rfl rfl rfl rfl rfl)
  · intro y w hw
    obtain ⟨v, hv, ⟨-, rfl⟩ | ⟨-, rfl⟩⟩ := exists_of_modify hw
    · exact (hs.ordered y v hv).insert s handle
    · exact hs.ordered y w hv
  · intro y t h hb
    rcases hbound y t h hb with hb | ⟨-, rfl, hh⟩
    · exact hs.bound y t h hb
    · exact held h hh
  · intro y z t h hy hz
    rcases hbound y t h hy with hold | ⟨hyx, rfl, hh⟩
    · rcases hbound z t h hz with hold' | ⟨-, rfl, hh'⟩
      · exact hs.injective y z t h hold hold'
      · exact absurd hold (free h hh' y)
    · rcases hbound z t h hz with hold' | ⟨hzx, -, -⟩
      · exact absurd hold' (free h hh z)
      · rw [hyx, hzx]
  · exact fun id c hc ↦ .inr ⟨c, hc, rfl, rfl, rfl, fun h ↦ h⟩
  · exact fun id c hc _ ↦ ⟨c, hc, rfl, rfl⟩
  · intro id c c' p d on y h hc hc' hp hclause hd hb
    obtain rfl : c = c' := Option.some.inj (hc.symm.trans hc')
    rcases hbound y c.solver h hb with hb | ⟨-, rfl, hh⟩
    · obtain ⟨⟨v, hv, hid⟩, hmem⟩ := (hs.covered id c hc p hp d on hclause).listed h y hd hb
      refine ⟨⟨_, get?_modify_of_get? hv, ?_⟩, hmem⟩
      split <;> exact hid
    · exact absurd ⟨id, c, p, d, on, hc, rfl, hp, hclause, hd⟩ (unmentioned h hh)

/-- A change of one constraint. -/
theorem exists_constraint_of_modify {f : Constraint → Constraint} {id' : ConstraintId}
    (hc : (e.constraints.modify id f).get? id' = some c) :
    ∃ d, e.constraints.get? id' = some d ∧ (id' = id ∧ c = f d ∨ id' ≠ id ∧ c = d) := by
  rw [Arena.get?_modify] at hc
  split at hc
  · next hid =>
    obtain ⟨d, hd, rfl⟩ := Option.map_eq_some_iff.1 hc
    exact ⟨d, hd, .inl ⟨hid, rfl⟩⟩
  · next hid => exact ⟨c, hc, .inr ⟨hid, rfl⟩⟩

theorem get?_modify_constraint {f : Constraint → Constraint} {id' : ConstraintId}
    (hc : e.constraints.get? id' = some c) :
    (e.constraints.modify id f).get? id' = some (if id' = id then f c else c) := by
  rw [Arena.get?_modify, hc]
  split <;> rfl

/-- One constraint changes, but neither its realization nor its options. -/
theorem Sound.of_constraint (hs : e.Sound) {f : Constraint → Constraint}
    (core : ∀ c : Constraint, (f c).solver = c.solver ∧ (f c).primitives = c.primitives ∧
      (f c).enabled = c.enabled ∧ (f c).options = c.options ∧
      ((f c).isTest = false → c.isTest = false))
    (listed : ∀ c s x h, e.Bound x s h → x ∈ c.vars → x ∈ (f c).vars) :
    Sound { e with constraints := e.constraints.modify id f } := by
  refine hs.of_constraints rfl rfl ?_ ?_ ?_
    ⟨hs.tame.evaluator, hs.tame.hooks, ?_, hs.tame.deferred, hs.tame.pending⟩
  · intro id' c hc
    obtain ⟨d, hd, ⟨-, rfl⟩ | ⟨-, rfl⟩⟩ := exists_constraint_of_modify hc
    · obtain ⟨hsolver, hprimitives, henabled, -, htest⟩ := core d
      exact .inr ⟨d, hd, hsolver, hprimitives, henabled, htest⟩
    · exact .inr ⟨c, hd, rfl, rfl, rfl, fun h ↦ h⟩
  · intro id' c hc _
    refine ⟨_, get?_modify_constraint hc, ?_⟩
    split
    · exact ⟨(core c).1, (core c).2.1⟩
    · exact ⟨rfl, rfl⟩
  · intro id' c c' x h hc hc' hb hx
    obtain rfl : c' = _ := Option.some.inj (hc'.symm.trans (get?_modify_constraint hc))
    split
    · exact listed c _ x h hb hx
    · exact hx
  · intro id' c hc
    obtain ⟨d, hd, ⟨-, rfl⟩ | ⟨-, rfl⟩⟩ := exists_constraint_of_modify hc
    · rw [(core d).2.2.2.1]
      exact hs.tame.options id' d hd
    · exact hs.tame.options id' c hd

theorem Sound.extend (hs : e.Sound) (id : ConstraintId) (x : VarId) :
    Sound { e with constraints := e.constraints.modify id fun c ↦
      if c.vars.contains x then c else { c with vars := c.vars ++ [x] } } := by
  refine hs.of_constraint (fun c ↦ ?_) fun c s y h _ hy ↦ ?_
  · split <;> exact ⟨rfl, rfl, rfl, rfl, fun h ↦ h⟩
  · split
    · exact hy
    · exact List.mem_append_left _ hy

theorem Sound.forget (hs : e.Sound) {x : VarId} (id : ConstraintId) (gone : e.vars.get? x = none) :
    Sound { e with constraints := e.constraints.modify id fun c ↦
      { c with vars := c.vars.filter (· != x) } } := by
  refine hs.of_constraint (fun c ↦ ⟨rfl, rfl, rfl, rfl, fun h ↦ h⟩) ?_
  rintro c s y h ⟨v, hv, -⟩ hy
  refine List.mem_filter.2 ⟨hy, ?_⟩
  rw [bne_iff_ne]
  rintro rfl
  rw [gone] at hv
  cases hv

theorem Sound.adjust (hs : e.Sound) (id : ConstraintId) {f : Constraint → Constraint}
    (core : ∀ c, SameCore c (f c)) :
    Sound { e with constraints := e.constraints.modify id f } := by
  refine hs.of_constraint (fun c ↦ ?_) fun c s x h _ hx ↦ ?_
  · exact ⟨(core c).solver, (core c).primitives, (core c).enabled, (core c).options, (core c).isTest⟩
  · rwa [(core c).vars]

theorem Sound.introduce (hs : e.Sound) {c : Constraint} (primitives : c.primitives = [])
    (options : AdmissibleOptions c.options) :
    Sound { e with constraints := e.constraints.insert c } := by
  have hkept : ∀ id c', e.constraints.get? id = some c' →
      (e.constraints.insert c).get? id = some c' := fun _ _ ↦ Arena.get?_insert_of_get?
  refine hs.of_constraints rfl rfl ?_ ?_ ?_
    ⟨hs.tame.evaluator, hs.tame.hooks, ?_, hs.tame.deferred, hs.tame.pending⟩
  · intro id c' hc'
    obtain ⟨-, rfl⟩ | ⟨-, hc'⟩ := Arena.of_get?_insert hc'
    · exact .inl primitives
    · exact .inr ⟨c', hc', rfl, rfl, rfl, fun h ↦ h⟩
  · exact fun id c' hc' _ ↦ ⟨c', hkept id c' hc', rfl, rfl⟩
  · intro id c₁ c₂ x h hc₁ hc₂ _ hx
    obtain rfl : c₂ = c₁ := Option.some.inj (hc₂.symm.trans (hkept id c₁ hc₁))
    exact hx
  · intro id c' hc'
    obtain ⟨-, rfl⟩ | ⟨-, hc'⟩ := Arena.of_get?_insert hc'
    · exact options
    · exact hs.tame.options id c' hc'

theorem Sound.retire (hs : e.Sound) {id : ConstraintId}
    (disabled : ∀ c, e.constraints.get? id = some c → c.enabled = false) :
    Sound { e with constraints := e.constraints.remove id } := by
  have hfind : ∀ id' c, (e.constraints.remove id).get? id' = some c →
      e.constraints.get? id' = some c := fun _ _ hc ↦ (Arena.of_get?_remove hc).2
  refine hs.of_constraints rfl rfl ?_ ?_ ?_
    ⟨hs.tame.evaluator, hs.tame.hooks, ?_, hs.tame.deferred, hs.tame.pending⟩
  · exact fun id' c hc ↦ .inr ⟨c, hfind id' c hc, rfl, rfl, rfl, fun h ↦ h⟩
  · intro id' c hc henabled
    refine ⟨c, ?_, rfl, rfl⟩
    dsimp only
    rw [Arena.get?_remove, if_neg, hc]
    rintro rfl
    rw [disabled c hc] at henabled
    cases henabled
  · intro id' c c' x h hc hc' _ hx
    obtain rfl : c' = c := Option.some.inj ((hfind id' c' hc').symm.trans hc)
    exact hx
  · exact fun id' c hc ↦ hs.tame.options id' c (hfind id' c hc)

/-- A constraint that is off gets another realization. -/
theorem Sound.reshape (hs : e.Sound) {c' : Constraint}
    (live : e.constraints.get? id = some c) (disabled : c.enabled = false)
    (options : c'.options = c.options) (realizable : e.Realizable id c') :
    Sound { e with constraints := e.constraints.modify id fun _ ↦ c' } := by
  have hcases : ∀ id' c₁, (e.constraints.modify id fun _ ↦ c').get? id' = some c₁ →
      id' = id ∧ c₁ = c' ∨ id' ≠ id ∧ e.constraints.get? id' = some c₁ := by
    intro id' c₁ hc₁
    obtain ⟨d, hd, h | ⟨hne, rfl⟩⟩ := exists_constraint_of_modify hc₁
    · exact .inl h
    · exact .inr ⟨hne, hd⟩
  -- the clauses of the constraint are off, before and after
  have howner : ∀ s p d, e.clause? s p = some (d, true) → d.IsRelation → ∃ id' c₁, id' ≠ id ∧
      e.constraints.get? id' = some c₁ ∧ c₁.solver = s ∧ p ∈ c₁.primitives := by
    intro s p d hon hd
    obtain ⟨id', c₁, hc₁, rfl, hp⟩ := hs.owner s p d hon hd
    refine ⟨id', c₁, ?_, hc₁, rfl, hp⟩
    rintro rfl
    obtain rfl : c₁ = c := Option.some.inj (hc₁.symm.trans live)
    rw [hs.enabled_of_on hc₁ hp hon] at disabled
    cases disabled
  refine ⟨hs.trusted, hs.ordered, hs.bound, hs.injective, ?_, ?_, ?_, ?_, ?_, ?_,
    ⟨hs.tame.evaluator, hs.tame.hooks, ?_, hs.tame.deferred, hs.tame.pending⟩⟩
  · intro id' c₁ hc₁
    rcases hcases id' c₁ hc₁ with ⟨rfl, rfl⟩ | ⟨-, hc₁⟩
    · exact realizable.existing
    · exact hs.existing id' c₁ hc₁
  · intro id₁ c₁ id₂ c₂ hc₁ hc₂ hsolver p hp₁ hp₂
    rcases hcases id₁ c₁ hc₁ with ⟨rfl, rfl⟩ | ⟨hne₁, hold₁⟩
    · rcases hcases id₂ c₂ hc₂ with ⟨rfl, rfl⟩ | ⟨hne₂, hold₂⟩
      · rfl
      · exact absurd hp₂ (realizable.unique id₂ c₂ hold₂ hne₂ hsolver.symm p hp₁)
    · rcases hcases id₂ c₂ hc₂ with ⟨rfl, rfl⟩ | ⟨-, hold₂⟩
      · exact absurd hp₁ (realizable.unique id₁ c₁ hold₁ hne₁ hsolver p hp₂)
      · exact hs.unique id₁ c₁ id₂ c₂ hold₁ hold₂ hsolver p hp₁ hp₂
  · intro id' c₁ hc₁ p hp d on hclause
    rcases hcases id' c₁ hc₁ with ⟨rfl, rfl⟩ | ⟨-, hc₁⟩
    · obtain ⟨hrelation, hheld, hlisted⟩ := realizable.covered p hp d on hclause
      exact ⟨hrelation, hheld, hlisted⟩
    · obtain ⟨hrelation, hheld, hlisted⟩ := hs.covered id' c₁ hc₁ p hp d on hclause
      exact ⟨hrelation, hheld, hlisted⟩
  · intro id' c₁ hc₁ p hp
    rcases hcases id' c₁ hc₁ with ⟨rfl, rfl⟩ | ⟨-, hc₁⟩
    · rw [realizable.disabled]
      exact ⟨fun ⟨d, hon⟩ ↦ absurd hon (realizable.off p hp d), nofun⟩
    · exact hs.switched id' c₁ hc₁ p hp
  · intro s p d hon hd
    obtain ⟨id', c₁, hne, hc₁, hsolver, hp⟩ := howner s p d hon hd
    refine ⟨id', c₁, ?_, hsolver, hp⟩
    dsimp only
    rw [Arena.get?_modify, if_neg hne, hc₁]
  · intro id' c₁ hc₁ henabled
    rcases hcases id' c₁ hc₁ with ⟨rfl, rfl⟩ | ⟨-, hc₁⟩
    · rw [realizable.disabled] at henabled
      cases henabled
    · exact hs.met id' c₁ hc₁ henabled
  · intro id' c₁ hc₁
    rcases hcases id' c₁ hc₁ with ⟨rfl, rfl⟩ | ⟨-, hc₁⟩
    · rw [options]
      exact hs.tame.options id' c live
    · exact hs.tame.options id' c₁ hc₁

end LiveConstraints.Engine
