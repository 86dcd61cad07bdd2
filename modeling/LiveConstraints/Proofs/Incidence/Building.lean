import LiveConstraints.Proofs.Incidence.Release
/-!
# Building keeps the tables tied

While a predicate is evaluated, fields and parts are intercepted and attached to the constraint that
is being built, which exists meanwhile (`Engine.Extends`). A variable comes into being before anything
refers to it, and joins the constraint before the constraint lists it; neither half can fail once the
other was done.
-/

namespace LiveConstraints

open Engine

variable {e e' e'' : Engine} {x y : VarId} {v w : Variable} {id : ConstraintId} {s : SolverId}
  {obj : ObjectId} {name : String}

namespace Engine

/-- The tables stay tied, and no constraint is lost. -/
structure Extends (e e' : Engine) : Prop where
  maintains : Maintains e e'
  live : ∀ id c, e.constraints.get? id = some c → ∃ c', e'.constraints.get? id = some c'

instance : IsPreorder Engine Extends where
  refl e := ⟨refl_of Maintains e, fun _ c hc ↦ ⟨c, hc⟩⟩
  trans _ _ _ h h' := by
    refine ⟨trans_of Maintains h.maintains h'.maintains, fun id c hc ↦ ?_⟩
    obtain ⟨c', hc'⟩ := h.live id c hc
    exact h'.live id c' hc'

theorem SameShape.extends (h : SameShape e e') : Extends e e' := by
  refine ⟨h.maintains, fun id c hc ↦ ?_⟩
  obtain ⟨c', hc', -⟩ := h.constraint_after hc
  exact ⟨c', hc'⟩

/-- The tables stay tied and no constraint is lost, provided that a certain constraint exists. -/
def ExtendsAt (id : ConstraintId) (e e' : Engine) : Prop := e.Live id → Extends e e'

instance : IsPreorder Engine (ExtendsAt id) where
  refl e _ := refl_of Extends e
  trans _ _ _ h h' := fun ⟨c, hc⟩ ↦
    trans_of Extends (h ⟨c, hc⟩) (h' ((h ⟨c, hc⟩).live id c hc))

instance : Reads (ExtendsAt id) where
  defining x _ := SameShape.extends (Reads.defining x)

/-- A variable is live if the tables are tied. -/
def Reached (e : Engine) (x : VarId) : Prop := e.Tied → ∃ v, e.vars.get? x = some v

/-- A field that was plain is intercepted by a new variable. -/
theorem Tied.intercept (ht : e.Tied) (hkey : v.key = .field obj name) (parts : v.parts = ∅)
    (constraints : v.constraints = ∅) (free : e.variableOf? obj name = none) {o : HostObject}
    (ho : e.objects.get? obj = some o) :
    ({ e with vars := e.vars.insert v }.withSlot obj name (.intercepted e.vars.next)).Tied := by
  have hallocated := ht.linked.allocate parts constraints fun y name' h ↦ by cases hkey.symm.trans h
  refine ⟨?_, ht.nodup⟩
  exact hallocated.engage (Set.notMem_empty _) (Arena.get?_insert_next ..) hkey free ho

/-- A variable registers a new part. -/
theorem Tied.addPart (ht : e.Tied) (hkey : v.key = .part y name) (parts : v.parts = ∅)
    (constraints : v.constraints = ∅) (hw : e.vars.get? y = some w)
    (free : w.parts.find? name = none) :
    Tied { e with vars := (e.vars.insert v).modify y fun p ↦
      { p with parts := p.parts.insert name e.vars.next } } := by
  have hallocated := ht.linked.allocate parts constraints fun y' name' h ↦ by
    cases hkey.symm.trans h
    exact Arena.lt_next_of_get? hw
  refine ⟨?_, ht.nodup⟩
  exact hallocated.register (Set.notMem_empty _) (Arena.get?_insert_next ..) hkey
    (Arena.get?_insert_of_get? hw) free

/-- A constraint lists one more variable. -/
def extend (x : VarId) (c : Constraint) : Constraint :=
  if c.vars.contains x then c else { c with vars := c.vars ++ [x] }

theorem mem_vars_extend {c : Constraint} : y ∈ (extend x c).vars ↔ y = x ∨ y ∈ c.vars := by
  unfold extend
  split
  · next hx =>
    refine ⟨.inr, ?_⟩
    rintro (rfl | hy)
    · exact List.contains_iff_mem.1 hx
    · exact hy
  · rw [List.mem_append, List.mem_singleton, or_comm]

theorem nodup_vars_extend {c : Constraint} (h : c.vars.Nodup) : (extend x c).vars.Nodup := by
  unfold extend
  split
  · exact h
  · next hx =>
    refine List.nodup_append.2 ⟨h, List.nodup_singleton x, ?_⟩
    rintro y hy z hz rfl
    obtain rfl := List.mem_singleton.1 hz
    exact hx (List.contains_iff_mem.2 hy)

/-- A variable joins a constraint, and the constraint lists it. -/
theorem Tied.join {c : Constraint} (ht : e.Tied) (hv : e.vars.get? x = some v)
    (hc : e.constraints.get? id = some c) : Tied { e with
      vars := e.vars.modify x fun v ↦ { v with constraints := v.constraints.add id }
      constraints := e.constraints.modify id (extend x) } := by
  have hjoined : Linked ∅ (fun y i ↦ e.Spans y i ∨ (y = x ∧ i = id)) { e with
      vars := e.vars.modify x fun v ↦ { v with constraints := v.constraints.add id } } := by
    refine ht.linked.relist (fun _ ↦ rfl) (fun _ ↦ rfl) ?_ ?_ fun _ _ ↦ ⟨v, hv⟩
    · intro w i hw
      rw [SortedSet.mem_members_add, ht.linked.lists x w i hw]
      exact ⟨fun h ↦ h.elim (fun h ↦ .inr ⟨rfl, h⟩) .inl, fun h ↦ h.elim .inr fun h ↦ .inl h.2⟩
    · exact fun y i hy ↦ or_iff_left fun h ↦ hy h.1
  refine ⟨.congr (.of_tables hjoined ?_ ?_) fun y i ↦ ?_, fun i c' hc' ↦ ?_⟩
  · rfl
  · rfl
  · constructor
    · rintro ⟨c', hc', hy⟩
      obtain ⟨c₀, hc₀, ⟨rfl, rfl⟩ | ⟨-, rfl⟩⟩ := exists_constraint_of_modify hc'
      · rcases mem_vars_extend.1 hy with rfl | hy
        · exact .inr ⟨rfl, rfl⟩
        · exact .inl ⟨c₀, hc₀, hy⟩
      · exact .inl ⟨c', hc₀, hy⟩
    · rintro (⟨c₀, hc₀, hy⟩ | ⟨rfl, rfl⟩)
      · refine ⟨_, get?_modify_constraint hc₀, ?_⟩
        split
        · exact mem_vars_extend.2 (.inr hy)
        · exact hy
      · refine ⟨_, get?_modify_constraint hc, ?_⟩
        rw [if_pos rfl]
        exact mem_vars_extend.2 (.inl rfl)
  · obtain ⟨c₀, hc₀, ⟨-, rfl⟩ | ⟨-, rfl⟩⟩ := exists_constraint_of_modify hc'
    · exact nodup_vars_extend (ht.nodup i c₀ hc₀)
    · exact ht.nodup i c' hc₀

end Engine

namespace Call

/-! ### Interception -/

/-- A field that was plain is intercepted by the variable that comes next. -/
theorem intercept_run (name : String) (v : Variable) {o : HostObject}
    (ho : e.objects.get? obj = some o) :
    ∃ e', (do
      let x ← allocate v
      setSlot obj name (.intercepted x)
      return x : Call VarId) e = (.ok e.vars.next, e') ∧
      SameShape ({ e with vars := e.vars.insert v }.withSlot obj name (.intercepted e.vars.next)) e' ∧
      e'.constraints = e.constraints := by
  have hallocate : allocate v e = (.ok e.vars.next, (Step.tick { e with vars := e.vars.insert v }).2) :=
    rfl
  let e₁ := (Step.tick { e with vars := e.vars.insert v }).2
  have ho₁ : e₁.objects.get? obj = some o := ho
  have hset : setSlot obj name (.intercepted e.vars.next) e₁
      = (.ok (), e₁.withSlot obj name (.intercepted e.vars.next)) := setSlot_eq ho₁ _
  refine ⟨_, (bind_of_ok hallocate).trans (bind_of_ok hset), ?_, rfl⟩
  exact sameShape_aside rfl rfl rfl

theorem gives_fieldVariable (obj : ObjectId) (name : String) (parent : Option VarId) :
    Gives Extends e (fieldVariable obj name parent) fun x e' ↦ e'.Reached x := by
  refine .slotAt_bind fun slot hslot ↦ ?_
  cases slot with
  | intercepted x =>
    have hshape : Step.Within SameShape e (Step.modifyVariable x fun v ↦
        if v.parent.isNone then { v with parent } else v) :=
      Step.sameShape_modifyVariable fun v ↦ by split <;> rfl
    have hx : e.variableOf? obj name = some x := by rw [variableOf?, hslot]
    rw [← hshape.slots] at hx
    refine Within.bind_gives (.lift hshape.extends) fun _ e₁ hrun _ ↦ .pure fun ht ↦ ?_
    cases hrun
    obtain ⟨v, hv, -⟩ := (ht.linked.slot obj name x).1 hx
    exact ⟨v, hv⟩
  | plain shadow =>
    have hfree : e.variableOf? obj name = none := by rw [variableOf?, hslot]
    obtain ⟨o, ho⟩ : ∃ o, e.objects.get? obj = some o := by
      unfold slot? at hslot
      split at hslot
      · cases hslot
      · next o ho => exact ⟨o, ho⟩
    obtain ⟨e₁, hrun, hshape, hconstraints⟩ :=
      intercept_run name { key := .field obj name, shadow, parent } ho
    have hextends : Extends e e₁ := by
      refine ⟨fun ht ↦ hshape.maintains (ht.intercept rfl rfl rfl hfree ho), fun id c hc ↦ ⟨c, ?_⟩⟩
      rw [hconstraints, hc]
    refine .of_run hrun hextends fun _ ↦ ?_
    obtain ⟨w, hw, -⟩ := hshape.exists_after (Arena.get?_insert_next e.vars _)
    exact ⟨w, hw⟩

theorem gives_partVariable (parent : VarId) (name : String) :
    Gives Extends e (partVariable parent name) fun x e' ↦ e'.Reached x := by
  refine .variableAt_bind fun p hp ↦ ?_
  split
  · next x hfind =>
    refine .pure fun ht ↦ ?_
    obtain ⟨v, hv, -⟩ := ht.linked.part parent p name x hp (SortedMap.mem_of_find? hfind)
    exact ⟨v, hv⟩
  · next hfree =>
    have hread := Within.lift (R := Recalls) (e := e) (Step.recalls_read parent)
    refine Within.bind_gives (hread.mono fun _ h ↦ h.sameShape.extends) fun value e₁ hrun _ ↦ ?_
    have hrecalls : Recalls e e₁ := hread.of_ok hrun
    split
    · exact .fail _
    · next number _ =>
      obtain ⟨w, hw, heq⟩ := hrecalls.exists_after hp
      have hfree' : w.parts.find? name = none :=
        (congrArg (fun v ↦ v.parts.find? name) heq).trans hfree
      let v : Variable := { key := .part parent name, shadow := .number number, parent := some parent }
      -- the three steps cannot fail
      have hrest : (do
          let x ← allocate v
          Step.modifyVariable parent fun p => { p with parts := p.parts.insert name x }
          return x : Call VarId) e₁ = (.ok e₁.vars.next, (Step.tick { e₁ with
            vars := (e₁.vars.insert v).modify parent fun p ↦
              { p with parts := p.parts.insert name e₁.vars.next } }).2) := rfl
      refine .of_run hrest ⟨fun ht ↦ ?_, fun id c hc ↦ ⟨c, hc⟩⟩ fun _ ↦ ?_
      · exact SameShape.maintains Step.sameShape_tick (ht.addPart rfl rfl rfl hw hfree')
      · exact ⟨_, get?_modify_of_get? (e := { e₁ with vars := e₁.vars.insert v })
          (Arena.get?_insert_next ..)⟩

/-! ### Attaching -/

theorem sameShape_bind (x : VarId) (s : SolverId) : Within SameShape e (bind x s) := by
  refine .variableAt_bind fun v _ ↦ ?_
  split
  · refine .lift_bind (Step.sameShape_read x) fun value e₁ _ _ ↦ .get_bind ?_
    refine (sameShape_callSolver s _).bind fun handle e₂ _ _ ↦ ?_
    refine .lift_bind (Step.sameShape_modifyVariable ?_) fun _ _ _ _ ↦ .lift Step.sameShape_tick
    exact fun _ ↦ rfl
  · exact .pure _

theorem extends_attach {c : Constraint} (hx : e.Reached x) (hc : e.constraints.get? id = some c)
    (s : SolverId) : Within Extends e (attach id s x) := by
  -- the constraint exists, so the variable does not join without being listed
  have hchange : changeConstraint id (extend x) { e with
      vars := e.vars.modify x fun v ↦ { v with constraints := v.constraints.add id } } = (.ok (), { e with
        vars := e.vars.modify x fun v ↦ { v with constraints := v.constraints.add id }
        constraints := e.constraints.modify id (extend x) }) := by
    have hlookup := constraintAt_eq id { e with
      vars := e.vars.modify x fun v ↦ { v with constraints := v.constraints.add id } }
    rw [hc] at hlookup
    exact bind_of_ok hlookup
  have hrun : attach id s x e = bind x s { e with
      vars := e.vars.modify x fun v ↦ { v with constraints := v.constraints.add id }
      constraints := e.constraints.modify id (extend x) } := bind_of_ok hchange
  have hjoined : Extends e { e with
      vars := e.vars.modify x fun v ↦ { v with constraints := v.constraints.add id }
      constraints := e.constraints.modify id (extend x) } := by
    refine ⟨fun ht ↦ ?_, fun i c hc ↦ ⟨_, get?_modify_constraint hc⟩⟩
    obtain ⟨v, hv⟩ := hx ht
    exact ht.join hv hc
  rw [Within, hrun]
  exact fun hne ↦ trans_of Extends hjoined ((sameShape_bind x s) hne).extends

variable {scope : Scope}

theorem extends_touchField {c : Constraint} (hc : e.constraints.get? id = some c) (s : SolverId)
    (obj : ObjectId) (name : String) (parent : Option VarId) :
    Within Extends e (touchField id s obj name parent) := by
  have hvariable := gives_fieldVariable (e := e) obj name parent
  refine hvariable.within.bind fun x e₁ hrun h₁ ↦ ?_
  obtain ⟨c₁, hc₁⟩ := h₁.live id c hc
  exact (extends_attach (hvariable.result x e₁ hrun) hc₁ s).bind fun _ _ _ _ ↦ .pure _

theorem extends_touchPart {c : Constraint} (hc : e.constraints.get? id = some c) (s : SolverId)
    (parent : VarId) (name : String) : Within Extends e (touchPart id s parent name) := by
  have hvariable := gives_partVariable (e := e) parent name
  refine hvariable.within.bind fun x e₁ hrun h₁ ↦ ?_
  obtain ⟨c₁, hc₁⟩ := h₁.live id c hc
  exact (extends_attach (hvariable.result x e₁ hrun) hc₁ s).bind fun _ _ _ _ ↦ .pure _

/-! ### Evaluation -/

theorem sameShape_pin (scope : Scope) (x : VarId) : Within SameShape e (pin scope x) := by
  refine .get_bind ?_
  split
  · exact sameShape_callSolver _ _
  · exact .pure _

instance {options : ConstraintOptions} : Evaluates ⟨id, s, options⟩ (ExtendsAt id) where
  touchField obj name parent hne := fun ⟨_, hc⟩ ↦ extends_touchField hc s obj name parent hne
  touchPart parent name hne := fun ⟨_, hc⟩ ↦ extends_touchPart hc s parent name hne
  pin x := (sameShape_pin _ x).mono fun _ h _ ↦ h.extends
  compile _ := (sameShape_callSolver s _).mono fun _ h _ ↦ h.extends

/-! ### Realizing and building -/

theorem maintains_realize (id : ConstraintId) : Within Maintains e (realize id) := by
  refine .constraintAt_bind fun c hc ↦ .get_bind ?_
  refine .lift_bind (SameShape.maintains (Step.sameShape_modifyGuards _)) fun _ e₁ hrun _ ↦ ?_
  have hc₁ : e₁.constraints.get? id = some c := by
    cases hrun
    exact hc
  have hcompile : Within Extends e₁ (evaluatePredicate ⟨id, c.solver, c.options⟩ c.predicate) :=
    fun hne ↦ evaluates_evaluatePredicate (R := ExtendsAt id) c.predicate hne ⟨c, hc₁⟩
  refine (hcompile.attempt.mono fun _ ↦ Extends.maintains).bind fun result e₂ _ _ ↦ ?_
  refine .lift_bind (SameShape.maintains (Step.sameShape_modifyGuards _)) fun _ e₃ _ _ ↦ .get_bind ?_
  refine (Within.ofExcept result).bind fun compiled e₄ _ _ ↦ ?_
  cases compiled with
  | primitive p =>
    refine Within.mono (sameShape_changeConstraint ?_) fun _ ↦ SameShape.maintains
    exact fun _ ↦ rfl
  | native b =>
    cases b with
    | true =>
      dsimp only
      split
      · refine Within.mono (sameShape_changeConstraint ?_) fun _ ↦ SameShape.maintains
        exact fun _ ↦ rfl
      · exact .fail _
    | false => exact .fail _
  | value v =>
    dsimp only
    cases c.mode with
    | stay => exact .pure _
    | always => exact .fail _

/-- A new constraint lists no variables yet. -/
theorem maintains_insert {c : Constraint} (vars : c.vars = []) :
    Maintains e { e with constraints := e.constraints.insert c } := by
  have hget : ∀ i c', (e.constraints.insert c).get? i = some c' →
      c'.vars = [] ∨ e.constraints.get? i = some c' := by
    intro i c' hc'
    obtain ⟨-, rfl⟩ | ⟨-, hold⟩ := Arena.of_get?_insert hc'
    · exact .inl vars
    · exact .inr hold
  refine fun ht ↦ ⟨.congr (.of_tables ht.linked ?_ ?_) fun y i ↦ ?_, fun i c' hc' ↦ ?_⟩
  · rfl
  · rfl
  · constructor
    · rintro ⟨c', hc', hy⟩
      rcases hget i c' hc' with hnil | hold
      · rw [hnil] at hy
        cases hy
      · exact ⟨c', hold, hy⟩
    · rintro ⟨c', hc', hy⟩
      exact ⟨c', Arena.get?_insert_of_get? hc', hy⟩
  · rcases hget i c' hc' with hnil | hold
    · rw [hnil]
      exact List.nodup_nil
    · exact ht.nodup i c' hold

/-- **Building a constraint** keeps the tables tied, also when it fails and the constraint is
abandoned. -/
theorem maintains_build (predicate : Expr) (s : SolverId) (options : ConstraintOptions)
    (mode : BuildMode) : Within Maintains e (build predicate s options mode) := by
  refine .solverAt_bind fun _ _ ↦ .get_bind (.modify_bind (maintains_insert rfl) ?_)
  refine (maintains_realize _).attempt.bind fun result e₁ _ _ ↦ ?_
  cases result with
  | ok _ => exact .pure _
  | error err => exact .lift_bind (Step.maintains_abandon _) fun _ _ _ _ ↦ .fail _

end Call

end LiveConstraints
