import LiveConstraints.Proofs.Reentrant.Writing
/-!
# Relations that whatever is asked stays within

A relation that does not notice guards, weights and pins is kept by writing as well
(`Engine.Heedless`), and one that does not notice deferred work and the journal either is kept by
answering any request (`Engine.Lasting`, `Call.lasts_perform`), given ways back that stay within it.
-/

namespace LiveConstraints

open Engine

variable {α : Type} {R : Engine → Engine → Prop} {e e' : Engine} {r : Reentry}

namespace Engine

/-- A relation that passing values on and storing stay within, and that does not notice guards other than
the generation, weights and pins. -/
class Heedless (R : Engine → Engine → Prop) : Prop extends Storing R where
  guards : ∀ {e : Engine} (guards : Guards), guards.generation = e.guards.generation →
    R e { e with guards }
  bumpFor : ∀ {e : Engine} (x : VarId) (origin : Origin) (d : Defining),
    Step.Within R e (Call.bumpFor x origin d)
  unbump : ∀ {e : Engine} (s : SolverId) (xs : List VarId), Step.Within R e (Step.unbump s xs)
  raise _ _ _ := guards _ rfl

/-- What is raised and lowered again is no matter. -/
theorem Heedless.lower [Heedless R] {raised lowered : Guards}
    (h : R { e with guards := raised } e') (hraised : raised.generation = e.guards.generation)
    (hlowered : lowered.generation = e'.guards.generation) :
    R e { e' with guards := lowered } :=
  trans_of R (guards raised hraised) (trans_of R h (guards lowered hlowered))

/-- A relation that everything an engine is asked stays within. Guards other than the generation,
weights, pins, deferred work and the journal are no matter for it. -/
class Lasting (R : Engine → Engine → Prop) : Prop extends Heedless R, Reentrant R where
  aside : ∀ {e : Engine} (guards : Guards) deferred journal,
    guards.generation = e.guards.generation → R e { e with guards, deferred, journal }
  setReadonly : ∀ {e : Engine} obj field on, Call.Within R e (Call.setReadonly obj field on)
  setWeight : ∀ {e : Engine} s weight, Call.Within R e (Call.setWeight s weight)

/-- Two relations hold. -/
def Both (R S : Engine → Engine → Prop) (e e' : Engine) : Prop := R e e' ∧ S e e'

instance {R S : Engine → Engine → Prop} [IsPreorder Engine R] [IsPreorder Engine S] :
    IsPreorder Engine (Both R S) where
  refl e := ⟨refl_of R e, refl_of S e⟩
  trans _ _ _ h h' := ⟨trans_of R h.1 h'.1, trans_of S h.2 h'.2⟩

instance {R S : Engine → Engine → Prop} [Lasting R] [Lasting S] : Lasting (Both R S) where
  defining x := ⟨Reads.defining x, Reads.defining x⟩
  beside config objects vars constraints solvers guards deferred journal :=
    ⟨Passing.beside config objects vars constraints solvers guards deferred journal,
      Passing.beside config objects vars constraints solvers guards deferred journal⟩
  current h := ⟨Passing.current h.1, Passing.current h.2⟩
  annotate id _ core := ⟨Passing.annotate id core, Passing.annotate id core⟩
  operate s _ operates := ⟨Operating.operate s operates, Operating.operate s operates⟩
  defer work := ⟨Passing.defer work, Passing.defer work⟩
  recordHook receiver field v :=
    ⟨Passing.recordHook receiver field v, Passing.recordHook receiver field v⟩
  disable id := ⟨Switching.disable id, Switching.disable id⟩
  switch hc hne := ⟨Switching.switch hc hne, Switching.switch hc hne⟩
  deactivate id c := ⟨Switching.deactivate id c, Switching.deactivate id c⟩
  abandon id := ⟨Selecting.abandon id, Selecting.abandon id⟩
  build predicate s options mode hne :=
    ⟨Selecting.build predicate s options mode hne, Selecting.build predicate s options mode hne⟩
  transplantInto hother hne :=
    ⟨Selecting.transplantInto hother hne, Selecting.transplantInto hother hne⟩
  reroute hc hon hne := ⟨Reentrant.reroute hc hon hne, Reentrant.reroute hc hon hne⟩
  unconstrain obj field hne :=
    ⟨Reentrant.unconstrain obj field hne, Reentrant.unconstrain obj field hne⟩
  furnish h := ⟨Reentrant.furnish h, Reentrant.furnish h⟩
  register solver := ⟨Reentrant.register solver, Reentrant.register solver⟩
  store x v hne := ⟨Storing.store x v hne, Storing.store x v hne⟩
  guards guards hgeneration :=
    ⟨Heedless.guards guards hgeneration, Heedless.guards guards hgeneration⟩
  bumpFor x origin d := ⟨Heedless.bumpFor x origin d, Heedless.bumpFor x origin d⟩
  unbump s xs := ⟨Heedless.unbump s xs, Heedless.unbump s xs⟩
  aside guards deferred journal hgeneration :=
    ⟨Lasting.aside guards deferred journal hgeneration,
      Lasting.aside guards deferred journal hgeneration⟩
  setReadonly obj field on hne :=
    ⟨Lasting.setReadonly obj field on hne, Lasting.setReadonly obj field on hne⟩
  setWeight s weight hne := ⟨Lasting.setWeight s weight hne, Lasting.setWeight s weight hne⟩

end Engine

/-- The ways back into the engine stay within a relation, and hooks and handlers do not fail. -/
structure Reentry.Lasts (R : Engine → Engine → Prop) (r : Reentry) : Prop where
  suggest : ∀ {e} x v origin force, Call.Within R e (r.suggest x v origin force)
  recalculate : ∀ {e} id, Call.Within R e (r.recalculate id)
  act : ∀ {e} requests, Call.Within R e (r.act requests)
  unfailing : ∀ requests, Call.Unfailing (r.act requests)

theorem Reentry.lasts_exhausted : exhausted.Lasts R where
  suggest _ _ _ _ := .tooDeep
  recalculate _ := .tooDeep
  act _ := .tooDeep
  unfailing _ := .tooDeep

namespace Call

variable [Lasting R]

theorem lasts_runHooks (hr : r.Lasts R) : Within R e (runHooks r) :=
  stays_runHooks hr.unfailing (fun _ _ requests ↦ hr.act requests) fun _ h ↦ Heedless.lower h rfl rfl

theorem lasts_stays (hr : r.Lasts R) : r.Stays R where
  suggest x v := hr.suggest x v .propagation false
  spread _ _ _ := stays_spread (fun x v ↦ hr.suggest x v .propagation false) hr.recalculate nofun
  runHooks _ _ := lasts_runHooks hr

theorem lasts_suggest (hr : r.Lasts R) (x : VarId) (v : Value) (origin : Origin) (force : Bool) :
    Within R e (suggest r x v origin force) :=
  stays_write (lasts_stays hr) (stays_reevaluate (lasts_stays hr)) hr.recalculate
    (fun _ _ old ↦ hr.suggest x old .restore true) (Heedless.bumpFor x origin) Heedless.unbump

theorem lasts_takeDeferred : Within R e takeDeferred :=
  stays_takeDeferred fun _ ↦ Lasting.aside _ _ _ rfl

theorem lasts_settle (hr : r.Lasts R) : Within R e (settle r) :=
  stays_settle (fun _ ↦ Lasting.aside _ _ _ rfl) lasts_takeDeferred fun handler _ ↦
    .lift_bind (Lasting.aside _ _ _ rfl) fun _ _ _ _ ↦ hr.act handler.actions

theorem lasts_topLevel (hr : r.Lasts R) {call : Call α} (hcall : ∀ {e}, Within R e call) :
    Within R e (topLevel r call) :=
  stays_topLevel (fun h ↦ Heedless.lower h rfl rfl) hcall (lasts_settle hr)

/-- **Answering.** Whatever is asked stays within a relation that lasts. -/
theorem lasts_perform (hr : r.Lasts R) (request : Request) : Within R e (perform r request) :=
  stays_perform (lasts_stays hr)
    (fun x v ↦ lasts_topLevel hr (lasts_suggest hr x v .source false))
    (fun hcall ↦ lasts_topLevel hr hcall) (fun obj field on _ ↦ Lasting.setReadonly obj field on)
    fun s weight _ ↦ Lasting.setWeight s weight

end Call

end LiveConstraints
