import LiveConstraints.Proofs.Memos
import LiveConstraints.Proofs.Reselecting.Settings
/-!
# Calm engines

What a solver made of a value is passed on by suggesting to each variable the value that it has already.
Where no variable is shared between solvers (`Engine.Unshared`) and no hook is registered that should come
as no news to anybody: no solver moves, no field reports another value, and what is left behind are
counters, memos and stored values that nobody reads (`Engine.Calm`). An engine in which that can be
relied on is placid (`Engine.Placid`), and it stays placid when nothing but that happens.
-/

namespace LiveConstraints

variable {e e' e'' : Engine} {x : VarId} {v w : Variable} {s : SolverId} {h : ExtVar}
  {xs : List VarId}

/-- A variable as searches use it. -/
def Variable.standing (v : Variable) : Variable := { v.used with shadow := .none }

/-- A constraint apart from the writes that it counts and initiates. -/
def Constraint.standing (c : Constraint) : Constraint := { c with counter := 0, initiating := false }

/-- Whether a solver plans dataflow. -/
def Solver.isDataflow (s : Solver) : Bool :=
  match s.algorithm with
  | .dataflow _ => true
  | _ => false

theorem Solver.isDataflow_iff {s : Solver} :
    s.isDataflow = true ↔ ∃ d, s.algorithm = .dataflow d := by
  unfold isDataflow
  cases s.algorithm <;> simp

namespace Engine

/-! ### Calm -/

/-- The defining binding of a variable, by search. -/
def definition (e : Engine) (x : VarId) : Option Defining := (e.vars.get? x).bind e.soughtDefining

/-- No solver moved and no variable reads differently. What a variable stores may have changed if a
solver speaks for the variable. -/
structure Calm (e e' : Engine) : Prop where
  /-- Only the tables and the guards of writes differ, and what was collected and reported. -/
  same : e' = { e with
    vars := e'.vars, constraints := e'.constraints, guards := e'.guards
    pendingHooks := e'.pendingHooks, events := e'.events }
  guards : e'.guards = { e.guards with
    suggesting := e'.guards.suggesting, storing := e'.guards.storing
    nesting := e'.guards.nesting, draining := e'.guards.draining }
  size : e'.vars.cells.size = e.vars.cells.size
  vars : ∀ x, (e'.vars.get? x).map Variable.standing = (e.vars.get? x).map Variable.standing
  stored : ∀ x v w, e.vars.get? x = some v → e'.vars.get? x = some w →
    (∀ d, e.definition x = some d → e.solvers.get? d.solver = none) → w.shadow = v.shadow
  constraints : ∀ id, (e'.constraints.get? id).map Constraint.standing
    = (e.constraints.get? id).map Constraint.standing

namespace Calm

variable (hc : Calm e e')
include hc

theorem objects : e'.objects = e.objects := by rw [hc.same]

theorem solvers : e'.solvers = e.solvers := by rw [hc.same]

theorem deferred : e'.deferred = e.deferred := by rw [hc.same]

theorem sessions : e'.sessions = e.sessions := by rw [hc.same]

theorem candidates : e'.candidates = e.candidates := by
  funext options
  rw [hc.same]
  rfl

theorem generation : e'.guards.generation = e.guards.generation := by rw [hc.guards]

theorem current : e'.guards.current = e.guards.current := by rw [hc.guards]

theorem runningHooks : e'.guards.runningHooks = e.guards.runningHooks := by rw [hc.guards]

theorem exists_after (hv : e.vars.get? x = some v) :
    ∃ w, e'.vars.get? x = some w ∧ w.standing = v.standing := by
  have hx := hc.vars x
  rw [hv, Option.map_some] at hx
  exact Option.map_eq_some_iff.1 hx

theorem exists_before (hw : e'.vars.get? x = some w) :
    ∃ v, e.vars.get? x = some v ∧ w.standing = v.standing := by
  have hx := hc.vars x
  rw [hw, Option.map_some] at hx
  obtain ⟨v, hv, heq⟩ := Option.map_eq_some_iff.1 hx.symm
  exact ⟨v, hv, heq.symm⟩

theorem constraint_before {id : ConstraintId} {c' : Constraint}
    (hc' : e'.constraints.get? id = some c') :
    ∃ c, e.constraints.get? id = some c ∧ c'.standing = c.standing := by
  have hid := hc.constraints id
  rw [hc', Option.map_some] at hid
  obtain ⟨c, hconstraint, heq⟩ := Option.map_eq_some_iff.1 hid.symm
  exact ⟨c, hconstraint, heq.symm⟩

theorem enabledFor : e'.enabledFor = e.enabledFor := by
  have hany : ∀ (s : SolverId) (o : Option Constraint),
      (o.any fun c ↦ c.enabled && c.solver == s)
        = (o.map Constraint.standing).any fun c ↦ c.enabled && c.solver == s := by
    intro s o
    cases o <;> rfl
  funext s id
  rw [Engine.enabledFor, hany, hc.constraints id, ← hany, Engine.enabledFor]

theorem weight?_eq : e'.weight? = e.weight? := by
  funext s
  rw [weight?, hc.solvers, weight?]

theorem searchDefining_eq (hvw : w.standing = v.standing) :
    e'.searchDefining w = e.searchDefining v := by
  have hbindings : w.bindings = v.bindings := congrArg (·.bindings) hvw
  have hconstraints : w.constraints = v.constraints := congrArg (·.constraints) hvw
  refine searchDefining_of_candidates (by rw [Variable.handles, hbindings, Variable.handles])
    fun b _ ↦ definingCandidate?_congr ?_ (by rw [hconstraints]) (congrFun hc.weight?_eq b.1)
  rw [enabledConstraint?, hconstraints, hc.enabledFor, enabledConstraint?]

theorem soughtDefining_eq (hvw : w.standing = v.standing) :
    e'.soughtDefining w = e.soughtDefining v := by
  have hbindings : w.bindings = v.bindings := congrArg (·.bindings) hvw
  have hcurrent : e'.currentDefining? w = e.currentDefining? v := by
    simp only [currentDefining?, hc.current, Variable.handle?, hbindings]
  rw [soughtDefining, hcurrent, hc.searchDefining_eq hvw, soughtDefining]

theorem gone (hx : e.vars.get? x = none) : e'.vars.get? x = none := by
  have hx' := hc.vars x
  rwa [hx, Option.map_none, Option.map_eq_none_iff] at hx'

theorem definition_eq : e'.definition = e.definition := by
  funext x
  cases hx : e.vars.get? x with
  | none =>
    rw [definition, definition, hx, hc.gone hx]
    rfl
  | some v =>
    obtain ⟨w, hw, hvw⟩ := hc.exists_after hx
    rw [definition, definition, hx, hw, Option.bind_some, Option.bind_some,
      hc.soughtDefining_eq hvw]

theorem sameReadings : SameReadings Set.univ e e' where
  size := hc.size
  gone _ _ hx := hc.gone hx
  parts _ _ _ _ _ _ := Set.mem_univ _
  vars x _ v hx := by
    obtain ⟨w, hw, hvw⟩ := hc.exists_after hx
    refine ⟨w, hw, hc.soughtDefining_eq hvw, congrArg (·.parts) hvw, fun hundefined ↦ ?_⟩
    refine hc.stored x v w hx hw ?_
    rwa [definition, hx, Option.bind_some]
  values s := by rw [hc.solvers]

/-- **In calm** no variable reads differently. -/
theorem value_eq : e'.value = e.value :=
  funext fun x ↦ hc.sameReadings.value_eq (Set.mem_univ x)

theorem neighbours_eq (hvw : w.standing = v.standing) : e'.neighbours w = e.neighbours v := by
  have hconstraints : w.constraints = v.constraints := congrArg (·.constraints) hvw
  rw [neighbours, neighbours, hconstraints]
  congr 1
  funext id
  have hstanding := hc.constraints id
  cases hafter : e'.constraints.get? id with
  | none =>
    rw [hafter, Option.map_none, eq_comm, Option.map_eq_none_iff] at hstanding
    rw [hstanding]
  | some c' =>
    rw [hafter, Option.map_some, eq_comm, Option.map_eq_some_iff] at hstanding
    obtain ⟨c, hbefore, hcc'⟩ := hstanding
    rw [hbefore]
    exact (congrArg (·.vars) hcc').symm

end Calm

instance : IsPreorder Engine Calm where
  refl _ := ⟨rfl, rfl, rfl, fun _ ↦ rfl,
    fun _ _ _ hv hw _ ↦ congrArg Variable.shadow (Option.some.inj (hw.symm.trans hv)), fun _ ↦ rfl⟩
  trans e e' e'' hc hc' := by
    refine ⟨?_, ?_, hc'.size.trans hc.size, fun x ↦ (hc'.vars x).trans (hc.vars x),
      fun x v u hv hu hundefined ↦ ?_, fun id ↦ (hc'.constraints id).trans (hc.constraints id)⟩
    · rw [hc'.same, hc.same]
    · rw [hc'.guards, hc.guards]
    · obtain ⟨w, hw, -⟩ := hc.exists_after hv
      rw [hc'.stored x w u hw hu ?_, hc.stored x v w hv hw hundefined]
      rwa [hc.definition_eq, hc.solvers]

/-! ### Placid engines -/

/-- A solver serves a constraint, and no other that exists is a candidate for it. -/
structure SoleSolver (e : Engine) (s : SolverId) (c : Constraint) : Prop where
  solver : c.solver = s
  candidates : ∀ t ∈ e.candidates c.options, t = s ∨ e.solvers.get? t = none

instance (c : Constraint) : Decidable (e.SoleSolver s c) :=
  decidable_of_iff (c.solver = s ∧
    ∀ t ∈ e.candidates c.options, t = s ∨ (e.solvers.get? t).isNone = true) <| by
    simp only [Option.isNone_iff_eq_none]
    exact ⟨fun h ↦ ⟨h.1, h.2⟩, fun h ↦ ⟨h.solver, h.candidates⟩⟩

/-- In a region of an engine no variable is shared: each has one solver at most, a dataflow solver, which
serves all constraints of the variable. -/
structure Unshared (e : Engine) (xs : List VarId) : Prop where
  closed : ∀ x ∈ xs, ∀ v, e.vars.get? x = some v → ∀ y ∈ e.neighbours v, y ∈ xs
  sole : ∀ x ∈ xs, ∀ v, e.vars.get? x = some v → ∀ b ∈ v.handles, v.handles = [b]
  served : ∀ x ∈ xs, ∀ v, e.vars.get? x = some v → ∀ b ∈ v.handles, ∀ id ∈ v.constraints.members,
    ∀ c, e.constraints.get? id = some c → e.SoleSolver b.1 c
  dataflow : ∀ x ∈ xs, ∀ v, e.vars.get? x = some v → ∀ b ∈ v.handles,
    ∃ solver d, e.solvers.get? b.1 = some solver ∧ solver.algorithm = .dataflow d

instance : Decidable (e.Unshared xs) :=
  decidable_of_iff (∀ x ∈ xs, ∀ v ∈ e.vars.get? x, (∀ y ∈ e.neighbours v, y ∈ xs) ∧
    ∀ b ∈ v.handles, v.handles = [b] ∧ (e.solvers.get? b.1).any Solver.isDataflow = true ∧
      ∀ id ∈ v.constraints.members, ∀ c ∈ e.constraints.get? id, e.SoleSolver b.1 c) <| by
    simp only [Option.any_eq_true, Solver.isDataflow_iff]
    constructor
    · intro h
      refine ⟨fun x hx v hv ↦ (h x hx v hv).1, fun x hx v hv b hb ↦ ((h x hx v hv).2 b hb).1,
        fun x hx v hv b hb ↦ ((h x hx v hv).2 b hb).2.2, fun x hx v hv b hb ↦ ?_⟩
      obtain ⟨-, ⟨solver, hsolver, d, hd⟩, -⟩ := (h x hx v hv).2 b hb
      exact ⟨solver, d, hsolver, hd⟩
    · intro hu x hx v hv
      refine ⟨hu.closed x hx v hv, fun b hb ↦ ⟨hu.sole x hx v hv b hb, ?_, hu.served x hx v hv b hb⟩⟩
      obtain ⟨solver, d, hsolver, hd⟩ := hu.dataflow x hx v hv b hb
      exact ⟨solver, hsolver, d, hd⟩

/-- In a region of an engine every variable reads as something that is near itself, and as a number if a
solver speaks for it. -/
structure Definite (e : Engine) (xs : List VarId) : Prop where
  near : ∀ x ∈ xs, (e.value x).near (e.value x) = true
  number : ∀ x ∈ xs, (e.definition x).isSome = true → (e.value x).asNumber?.isSome = true

instance : Decidable (e.Definite xs) :=
  decidable_of_iff ((∀ x ∈ xs, (e.value x).near (e.value x) = true) ∧
    ∀ x ∈ xs, (e.definition x).isSome = true → (e.value x).asNumber?.isSome = true)
    ⟨fun h ↦ ⟨h.1, h.2⟩, fun h ↦ ⟨h.near, h.number⟩⟩

/-- No object has a hook. -/
def Hookless (e : Engine) : Prop :=
  ∀ obj o, e.objects.get? obj = some o → ∀ field, o.hooks.find? field = none

theorem hookless_of_live (h : ∀ entry ∈ e.objects.live, entry.2.hooks.entries = []) : e.Hookless := by
  intro obj o ho field
  cases hfield : o.hooks.find? field with
  | none => rfl
  | some hook =>
    have hmem := SortedMap.mem_of_find? hfield
    rw [h (obj, o) (Arena.mem_live.2 ho)] at hmem
    cases hmem

/-- No hook is involved, no memo is outdated, no constraint is being built, and in a region of the engine
no variable is shared. -/
structure Serene (e : Engine) (xs : List VarId) : Prop where
  ordered : ∀ x v, e.vars.get? x = some v → v.bindings.Ordered
  current : e.Current
  outside : e.guards.current = none
  idle : e.guards.runningHooks = false
  hookless : e.Hookless
  pending : ∀ hooks, e.pendingHooks = some hooks → hooks = []
  unshared : e.Unshared xs

/-- What is known can be passed on in a region without anything coming of it. -/
structure Placid (e : Engine) (xs : List VarId) : Prop extends e.Serene xs where
  definite : e.Definite xs

theorem Unshared.calm (hu : e.Unshared xs) (hc : Calm e e') : e'.Unshared xs where
  closed x hx w hw y hy := by
    obtain ⟨v, hv, hvw⟩ := hc.exists_before hw
    exact hu.closed x hx v hv y (hc.neighbours_eq hvw ▸ hy)
  sole x hx w hw := by
    obtain ⟨v, hv, hvw⟩ := hc.exists_before hw
    have hbindings : w.bindings = v.bindings := congrArg (·.bindings) hvw
    rw [show w.handles = v.handles by rw [Variable.handles, hbindings, Variable.handles]]
    exact hu.sole x hx v hv
  served x hx w hw b hb id hid c' hc' := by
    obtain ⟨v, hv, hvw⟩ := hc.exists_before hw
    obtain ⟨c, hconstraint, hcc⟩ := hc.constraint_before hc'
    have hbindings : w.bindings = v.bindings := congrArg (·.bindings) hvw
    have hconstraints : w.constraints = v.constraints := congrArg (·.constraints) hvw
    rw [Variable.handles, hbindings] at hb
    obtain ⟨hsolver, hcandidates⟩ := hu.served x hx v hv b hb id (hconstraints ▸ hid) c hconstraint
    refine ⟨(congrArg (·.solver) hcc).trans hsolver, ?_⟩
    rw [show c'.options = c.options from congrArg (·.options) hcc, hc.candidates, hc.solvers]
    exact hcandidates
  dataflow x hx w hw b hb := by
    obtain ⟨v, hv, hvw⟩ := hc.exists_before hw
    have hbindings : w.bindings = v.bindings := congrArg (·.bindings) hvw
    rw [Variable.handles, hbindings] at hb
    rw [hc.solvers]
    exact hu.dataflow x hx v hv b hb

theorem Definite.calm (hd : e.Definite xs) (hc : Calm e e') : e'.Definite xs where
  near := by
    rw [hc.value_eq]
    exact hd.near
  number := by
    rw [hc.value_eq, hc.definition_eq]
    exact hd.number

theorem Serene.calm (ho : e.Serene xs) (hc : Calm e e') (hcurrent : e'.Current)
    (hpending : ∀ hooks, e'.pendingHooks = some hooks → hooks = []) : e'.Serene xs where
  ordered x w hw := by
    obtain ⟨v, hv, hvw⟩ := hc.exists_before hw
    rw [show w.bindings = v.bindings from congrArg (·.bindings) hvw]
    exact ho.ordered x v hv
  current := hcurrent
  outside := hc.current.trans ho.outside
  idle := hc.runningHooks.trans ho.idle
  hookless := by
    rw [Hookless, hc.objects]
    exact ho.hookless
  pending := hpending
  unshared := ho.unshared.calm hc

theorem Placid.calm (hp : e.Placid xs) (hc : Calm e e') (hcurrent : e'.Current)
    (hpending : ∀ hooks, e'.pendingHooks = some hooks → hooks = []) : e'.Placid xs where
  toSerene := hp.toSerene.calm hc hcurrent hpending
  definite := hp.definite.calm hc

/-- A placid engine stays so, in calm. -/
def Lulls (xs : List VarId) (e e' : Engine) : Prop := e.Placid xs → Calm e e' ∧ e'.Placid xs

instance : IsPreorder Engine (Lulls xs) where
  refl e hp := ⟨refl_of Calm e, hp⟩
  trans _ _ _ hl hl' hp :=
    ⟨trans_of Calm (hl hp).1 (hl' (hl hp).2).1, (hl' (hl hp).2).2⟩

/-! ### What a placid engine does -/

theorem calm_recalls (hr : Recalls e e') : Calm e e' where
  same := by
    rw [hr.same]
  guards := by rw [hr.guards]
  size := hr.size
  vars x := by
    have hx := congrArg (Option.map Variable.standing) (hr.vars x)
    rwa [Option.map_map, Option.map_map] at hx
  stored x v w hv hw _ := by
    obtain ⟨u, hu, heq⟩ := hr.exists_before hw
    obtain rfl : u = v := Option.some.inj (hu.symm.trans hv)
    exact congrArg (·.shadow) heq
  constraints id := by rw [hr.constraints]

instance : Reads (Lulls xs) where
  defining {e} x hp := by
    have hrecalls : Recalls e (Step.defining x e).2 := Step.recalls_defining x
    have hcalm := calm_recalls hrecalls
    refine ⟨hcalm, hp.calm hcalm (Step.defining_of_current hp.current x).2 fun hooks hhooks ↦ ?_⟩
    rw [hrecalls.same] at hhooks
    exact hp.pending hooks hhooks

theorem Placid.defining_eq (hp : e.Placid xs) (x : VarId) :
    (Step.defining x e).1 = e.definition x := (Step.defining_of_current hp.current x).1

theorem Placid.read_eq (hp : e.Placid xs) (x : VarId) : (Step.read x e).1 = e.value x :=
  (Step.read_of_current hp.current x).1

/-- Only the guards of writes, the collected hooks and the reported events differ. -/
theorem lulls_aside (same : e' = { e with
      guards := e'.guards, pendingHooks := e'.pendingHooks, events := e'.events })
    (guards : e'.guards = { e.guards with
      suggesting := e'.guards.suggesting, storing := e'.guards.storing
      nesting := e'.guards.nesting, draining := e'.guards.draining })
    (pending : e.Placid xs → ∀ hooks, e'.pendingHooks = some hooks → hooks = []) : Lulls xs e e' := by
  intro hp
  have hvars : e'.vars = e.vars := by rw [same]
  have hcalm : Calm e e' := by
    refine ⟨?_, guards, by rw [hvars], fun _ ↦ by rw [hvars], fun x v w hv hw _ ↦ ?_, fun _ ↦ by rw [same]⟩
    · rw [same]
    · rw [hvars] at hw
      rw [Option.some.inj (hw.symm.trans hv)]
  refine ⟨hcalm, hp.calm hcalm ?_ (pending hp)⟩
  refine hp.current.keep hcalm.generation fun x w hw ↦ ⟨w, hvars ▸ hw, rfl, rfl, ?_⟩
  exact hcalm.searchDefining_eq rfl

/-- A constraint counts or initiates a write, or does so no more. -/
theorem lulls_annotate (id : ConstraintId) {f : Constraint → Constraint}
    (standing : ∀ c, (f c).standing = c.standing) :
    Lulls xs e { e with constraints := e.constraints.modify id f } := by
  intro hp
  have hcalm : Calm e { e with constraints := e.constraints.modify id f } := by
    refine ⟨rfl, rfl, rfl, fun _ ↦ rfl, fun x v w hv hw _ ↦ ?_,
      Arena.map_get?_modify fun c _ ↦ standing c⟩
    rw [Option.some.inj (hw.symm.trans hv)]
  refine ⟨hcalm, hp.calm hcalm ?_ hp.pending⟩
  exact hp.current.keep rfl fun x w hw ↦ ⟨w, hw, rfl, rfl, hcalm.searchDefining_eq rfl⟩

/-- A value is stored in a variable that a solver speaks for. -/
theorem lulls_store {d : Defining} {solver : Solver} (hd : e.definition x = some d)
    (hsolver : e.solvers.get? d.solver = some solver) (u : Value) :
    Lulls xs e { e with vars := e.vars.modify x fun v ↦ { v with shadow := u } } := by
  intro hp
  have hcalm : Calm e { e with vars := e.vars.modify x fun v ↦ { v with shadow := u } } := by
    refine ⟨rfl, rfl, congrArg Id.index (Arena.next_modify e.vars x _),
      Arena.map_get?_modify fun _ _ ↦ rfl, fun y v w hv hw hundefined ↦ ?_, fun _ ↦ rfl⟩
    obtain ⟨v', hv', ⟨rfl, -⟩ | ⟨-, rfl⟩⟩ := exists_of_modify hw
    · exact nomatch hsolver.symm.trans (hundefined d hd)
    · rw [Option.some.inj (hv'.symm.trans hv)]
  refine ⟨hcalm, hp.calm hcalm ?_ hp.pending⟩
  refine hp.current.keep rfl fun y w hw ↦ ?_
  obtain ⟨v, hv, ⟨rfl, rfl⟩ | ⟨-, rfl⟩⟩ := exists_of_modify hw
  · exact ⟨v, hv, rfl, rfl, hcalm.searchDefining_eq rfl⟩
  · exact ⟨_, hv, rfl, rfl, hcalm.searchDefining_eq rfl⟩

end Engine

end LiveConstraints
