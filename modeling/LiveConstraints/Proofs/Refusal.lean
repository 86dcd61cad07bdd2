import LiveConstraints.Proofs.Memos
import LiveConstraints.Proofs.Reachable
import LiveConstraints.Proofs.Rollback
/-!
# Writes that are refused

A write first asks the defining solver of the variable. When that solver refuses, what was bumped and
pinned for the write is taken back, no field reports another value than before (`Engine.Unmoved`), and
so the refusal is what the write comes to: the state is not taken for inconsistent
(`Call.suggest_of_refused`).

**A refusal further on is the exception.** There the defining solver has moved, and what it made of
the variable is compared with what the variable stored before.
-/

namespace LiveConstraints

open Engine

variable {α β : Type} {e e' e'' : Engine} {r : Reentry} {x : VarId} {s : SolverId} {h : ExtVar}

/-- What a variable remembers about its defining binding. -/
def Variable.memos (v : Variable) : Option (Nat × Option Defining) × Bool :=
  (v.definingMemo, v.multiSolver)

/-! ### Solvers -/

namespace Solver

/-- Read-only flags are no part of values. -/
theorem value_setReadonly {s : Solver} (hs : s.IsReference) (x : ExtVar) (on : Bool) :
    (s.setReadonly x on).value = s.value := by
  have hslots : ∀ slots : Slots,
      Slots.value (slots.modify x fun c ↦ { c with readonly := on }) = slots.value := by
    intro slots
    funext y
    rw [Slots.value, Slots.value, Arena.map_get?_modify]
    exact fun _ _ ↦ rfl
  obtain ⟨name, innerName, weight, algorithm⟩ := s
  cases algorithm with
  | relaxation m | keepsRejected m | dataflow m | domainSearch m => exact hslots m.model.slots
  | stub b =>
    funext y
    show Stub.value (b.setReadonly x on) y = b.value y
    rw [Stub.value, Stub.value, Stub.setReadonly, Array.getElem?_modify]
    split
    · rw [Option.map_map]
      rfl
    · rfl
  | custom c => exact hs.elim

/-- A call that is recorded is none to the weight. -/
theorem weight_update (s : Solver) (f : {ρ υ : Type} → Model ρ υ → Model ρ υ) (g : Stub → Stub)
    (call : SolverCall) : (s.update f g call).weight = s.weight := by
  obtain ⟨name, innerName, weight, algorithm⟩ := s
  cases algorithm <;> rfl

theorem weight_uncounted (s : Solver) : s.uncounted.weight = s.weight := by
  obtain ⟨name, innerName, weight, algorithm⟩ := s
  cases algorithm <;> rfl

theorem isReference_uncounted (s : Solver) : s.uncounted.IsReference = s.IsReference := by
  obtain ⟨name, innerName, weight, algorithm⟩ := s
  cases algorithm <;> rfl

theorem value_uncounted (s : Solver) : s.uncounted.value = s.value := by
  obtain ⟨name, innerName, weight, algorithm⟩ := s
  cases algorithm <;> rfl

/-- Two states of a solver that report the same. -/
structure SameReport (s s' : Solver) : Prop where
  value : s'.value = s.value
  weight : s'.weight = s.weight
  reference : s.IsReference → s'.IsReference

theorem sameReport_setReadonly {s : Solver} (hs : s.IsReference) (x : ExtVar) (on : Bool) :
    SameReport s (s.setReadonly x on) :=
  ⟨value_setReadonly hs x on, s.weight_update _ _ _, (alike_setReadonly hs x on).reference⟩

/-- Counters are no part of a report. -/
theorem SameReport.of_uncounted {s s' : Solver} (h : s'.uncounted = s.uncounted) : SameReport s s' where
  value := by
    rw [← value_uncounted, h, value_uncounted]
  weight := by
    rw [← weight_uncounted, h, weight_uncounted]
  reference hs := by
    rwa [← isReference_uncounted, h, isReference_uncounted]

theorem SameReport.trans {s s' s'' : Solver} (h : SameReport s s') (h' : SameReport s' s'') :
    SameReport s s'' :=
  ⟨h'.value.trans h.value, h'.weight.trans h.weight, h'.reference ∘ h.reference⟩

/-- A reference solver that refuses a value keeps its values, also when a read-only flag is lifted for
the request. -/
theorem sameReport_of_refused {s : Solver} (hs : s.IsReference) {x : ExtVar} {v : Value}
    {err : SolverError} (href : ((s.setReadonly x false).suggest x v).1 = .error err) (on : Bool) :
    SameReport s (((s.setReadonly x false).suggest x v).2.setReadonly x on) := by
  have hlifted := sameReport_setReadonly hs x false
  have hrefused : SameReport (s.setReadonly x false) ((s.setReadonly x false).suggest x v).2 :=
    .of_uncounted (traceless_suggest (hlifted.reference hs) x v err href)
  have hput := sameReport_setReadonly (hrefused.reference (hlifted.reference hs)) x on
  exact (hlifted.trans hrefused).trans hput

end Solver

/-! ### Unmoved engines -/

namespace Engine

/-- The solvers are those of this library. -/
def Referential (e : Engine) : Prop :=
  ∀ s solver, e.solvers.get? s = some solver → solver.IsReference

theorem Sound.referential (hs : e.Sound) : e.Referential :=
  fun s solver hsolver ↦ (hs.trusted s solver hsolver).reference

/-- A solver changes, but not to one from outside. -/
theorem referential_modify {f : Solver → Solver}
    (hf : ∀ solver, e.solvers.get? s = some solver → solver.IsReference → (f solver).IsReference)
    (h : e.Referential) : Referential { e with solvers := e.solvers.modify s f } := by
  intro t solver' hsolver'
  dsimp only at hsolver'
  rw [Arena.get?_modify] at hsolver'
  split at hsolver'
  · next heq =>
    subst heq
    obtain ⟨solver, hsolver, rfl⟩ := Option.map_eq_some_iff.1 hsolver'
    exact hf solver hsolver (h t solver hsolver)
  · exact h t solver' hsolver'

/-- No field reports another value, and what is remembered stays right unless the generation comes
round. -/
structure Unmoved (e e' : Engine) : Prop extends Still e e' where
  config : e'.config = e.config
  weights : e'.weight? = e.weight?
  referential : e.Referential → e'.Referential
  generation : e.guards.generation ≤ e'.guards.generation
  remembers : Unwrapped e e' → e.Current → e'.Current

instance : IsPreorder Engine Unmoved where
  refl e := ⟨refl_of Still e, rfl, rfl, id, Nat.le_refl _, fun _ ↦ id⟩
  trans e e' e'' h h' := by
    refine ⟨trans_of Still h.toStill h'.toStill, h'.config.trans h.config,
      h'.weights.trans h.weights, h'.referential ∘ h.referential,
      Nat.le_trans h.generation h'.generation, fun hround hcurrent ↦ ?_⟩
    obtain ⟨h₁, h₂⟩ := hround.split h.generation h'.generation
    exact h'.remembers h₂ (h.remembers h₁ hcurrent)

theorem Unmoved.value_eq (h : Unmoved e e') : e'.value = e.value := value_congr h.toStill h.weights

theorem Recalls.unmoved (h : Recalls e e') (remembers : e.Current → e'.Current) : Unmoved e e' :=
  ⟨h.still, by rw [h.same], h.weight?_eq, by rw [Referential, h.same, Referential]; exact id,
    Nat.le_of_eq (by rw [h.same]), fun _ ↦ remembers⟩

/-- Nothing is remembered that was not. -/
theorem unmoved_of_memos (still : Still e e') (config : e'.config = e.config)
    (weights : e'.weight? = e.weight?) (referential : e.Referential → e'.Referential)
    (generation : e'.guards.generation = e.guards.generation)
    (memos : ∀ x w, e'.vars.get? x = some w →
      ∃ v, e.vars.get? x = some v ∧ w.used = v.used ∧ w.memos = v.memos) : Unmoved e e' := by
  refine ⟨still, config, weights, referential, Nat.le_of_eq generation.symm, fun _ h ↦
    h.keep generation fun x w hw ↦ ?_⟩
  obtain ⟨v, hv, hused, hmemos⟩ := memos x w hw
  exact ⟨v, hv, congrArg Prod.fst hmemos, congrArg Prod.snd hmemos,
    searchDefining_congr still.enabled weights hused⟩

/-- Neither objects nor variables nor solvers change, and no constraint is switched. -/
theorem unmoved_aside (objects : e'.objects = e.objects) (vars : e'.vars = e.vars)
    (enabled : e'.enabledFor = e.enabledFor) (solvers : e'.solvers = e.solvers)
    (config : e'.config = e.config) (generation : e'.guards.generation = e.guards.generation)
    (current : e'.guards.current = e.guards.current) : Unmoved e e' := by
  have hstill : Still e e' := ⟨objects, by rw [vars], fun x ↦ by rw [vars], enabled,
    fun s ↦ by rw [solvers], current⟩
  refine unmoved_of_memos hstill config ?_ ?_ generation fun x w hw ↦ ⟨w, ?_, rfl, rfl⟩
  · funext s
    rw [weight?, solvers, weight?]
  · exact fun href s solver hsolver ↦ href s solver (solvers ▸ hsolver)
  · rwa [vars] at hw

/-- A solver changes, but neither its values nor its weight. -/
theorem unmoved_solver {f : Solver → Solver}
    (hf : ∀ solver, e.solvers.get? s = some solver → solver.SameReport (f solver)) :
    Unmoved e { e with solvers := e.solvers.modify s f } := by
  have hstill : Still e { e with solvers := e.solvers.modify s f } := ⟨rfl, rfl, fun _ ↦ rfl, rfl,
    Arena.map_get?_modify fun solver hsolver ↦ (hf solver hsolver).value, rfl⟩
  have hweights : weight? { e with solvers := e.solvers.modify s f } = e.weight? :=
    funext (Arena.map_get?_modify fun solver hsolver ↦ (hf solver hsolver).weight)
  refine unmoved_of_memos hstill rfl hweights ?_ rfl fun x w hw ↦ ⟨w, hw, rfl, rfl⟩
  exact referential_modify fun solver hsolver ↦ (hf solver hsolver).reference

/-- A variable changes, but neither what is searched nor what it remembers. -/
theorem unmoved_variable {f : Variable → Variable} (used : ∀ v, (f v).used = v.used)
    (memos : ∀ v, (f v).memos = v.memos) : Unmoved e { e with vars := e.vars.modify x f } := by
  refine unmoved_of_memos (still_variable used) rfl rfl id rfl fun y w hw ↦ ?_
  obtain ⟨v, hv, ⟨-, rfl⟩ | ⟨-, rfl⟩⟩ := exists_of_modify hw
  · exact ⟨v, hv, used v, memos v⟩
  · exact ⟨w, hv, rfl, rfl⟩

/-- A constraint changes, but is not switched. -/
theorem unmoved_constraint {id : ConstraintId} {f : Constraint → Constraint}
    (hf : ∀ c, (f c).enabled = c.enabled ∧ (f c).solver = c.solver) :
    Unmoved e { e with constraints := e.constraints.modify id f } := by
  refine unmoved_aside rfl rfl (funext fun s ↦ funext fun id' ↦ ?_) rfl rfl rfl rfl
  dsimp only [enabledFor]
  rw [Arena.get?_modify]
  split
  · rw [Option.any_map]
    refine congrArg (Option.any · _) (funext fun c ↦ ?_)
    rw [(hf c).1, (hf c).2]
  · rfl

/-- A new generation: nothing that is remembered may be used any more. -/
theorem Current.of_past (generation : e.guards.generation < e'.guards.generation)
    (recent : ∀ x v, e'.vars.get? x = some v → e'.Recent v)
    (vars : ∀ x v, e'.vars.get? x = some v → e.vars.get? x = some v) (h : e.Current) :
    e'.Current := by
  have hpast : ∀ x v g d, e'.vars.get? x = some v → v.definingMemo = some (g, d) →
      g < e'.guards.generation :=
    fun x v g d hv hmemo ↦ Nat.lt_of_le_of_lt (h.past x v g d (vars x v hv) hmemo) generation
  refine ⟨fun x v g d hv hmemo ↦ Nat.le_of_lt (hpast x v g d hv hmemo), recent,
    fun x v d hv _ hmemo ↦ ?_⟩
  exact absurd (hpast x v _ d hv hmemo) (Nat.lt_irrefl _)

/-! ### Bumped engines -/

/-- A solver has another weight, and nothing else that a search depends on differs. -/
structure Weighs (s : SolverId) (f : Float → Float) (e e' : Engine) : Prop extends Still e e' where
  config : e'.config = e.config
  weights : ∀ t, e'.weight? t = if t = s then (e.weight? t).map f else e.weight? t
  referential : e.Referential → e'.Referential
  generation : e.guards.generation ≤ e'.guards.generation
  remembers : Unwrapped e e' → e.Current → e'.Current

theorem Unmoved.weighs {f : Float → Float} (h : Unmoved e e') (h' : Weighs s f e' e'') :
    Weighs s f e e'' := by
  refine ⟨trans_of Still h.toStill h'.toStill, h'.config.trans h.config, ?_,
    h'.referential ∘ h.referential, Nat.le_trans h.generation h'.generation, fun hround hcurrent ↦ ?_⟩
  · rw [← h.weights]
    exact h'.weights
  · obtain ⟨h₁, h₂⟩ := hround.split h.generation h'.generation
    exact h'.remembers h₂ (h.remembers h₁ hcurrent)

theorem Weighs.unmoved {f : Float → Float} (h : Weighs s f e e') (h' : Unmoved e' e'') :
    Weighs s f e e'' := by
  refine ⟨trans_of Still h.toStill h'.toStill, h'.config.trans h.config, ?_,
    h'.referential ∘ h.referential, Nat.le_trans h.generation h'.generation, fun hround hcurrent ↦ ?_⟩
  · rw [h'.weights]
    exact h.weights
  · obtain ⟨h₁, h₂⟩ := hround.split h.generation h'.generation
    exact h'.remembers h₂ (h.remembers h₁ hcurrent)

/-- Weights survive a bump that is taken back, which rounding may prevent. -/
def Rebounds (e : Engine) : Prop := ∀ s solver, e.solvers.get? s = some solver →
  solver.weight + e.config.weightBump - e.config.weightBump = solver.weight

theorem Rebounds.weight? (h : e.Rebounds) (s : SolverId) (w : Float) (hw : e.weight? s = some w) :
    w + e.config.weightBump - e.config.weightBump = w := by
  obtain ⟨solver, hsolver, rfl⟩ := Option.map_eq_some_iff.1 hw
  exact h s solver hsolver

/-- A bump that is taken back. -/
theorem Weighs.back {f g : Float → Float} (h : Weighs s f e e') (h' : Weighs s g e' e'')
    (hback : ∀ w, e.weight? s = some w → g (f w) = w) : Unmoved e e'' := by
  refine ⟨trans_of Still h.toStill h'.toStill, h'.config.trans h.config, funext fun t ↦ ?_,
    h'.referential ∘ h.referential, Nat.le_trans h.generation h'.generation, fun hround hcurrent ↦ ?_⟩
  · rw [h'.weights, h.weights]
    split
    · next heq =>
      subst heq
      cases hw : e.weight? t with
      | none => rfl
      | some w => exact congrArg some (hback w hw)
    · rfl
  · obtain ⟨h₁, h₂⟩ := hround.split h.generation h'.generation
    exact h'.remembers h₂ (h.remembers h₁ hcurrent)

end Engine

/-! ### Reading -/

namespace Step

theorem unmoved_defining (x : VarId) : Within Unmoved e (defining x) :=
  Recalls.unmoved (recalls_defining x) fun h ↦ (defining_of_current h x).2

theorem unmoved_read (x : VarId) : Within Unmoved e (read x) :=
  Recalls.unmoved (recalls_read x) fun h ↦ (read_of_current h x).2

theorem read_of_unmoved (h : Unmoved e e') (hround : Unwrapped e e') (hcurrent : e.Current)
    (x : VarId) : (read x e').1 = (read x e).1 := by
  rw [(read_of_current (h.remembers hround hcurrent) x).1, h.value_eq, (read_of_current hcurrent x).1]

theorem unmoved_closure (x : VarId) : Within Unmoved e (closure x) :=
  within_closure (unmoved_variable (fun _ ↦ rfl) fun _ ↦ rfl)

/-! ### Bumping and pinning -/

theorem unmoved_pinAll (href : e.Referential) (handles : List (SolverId × ExtVar)) (on : Bool) :
    Within Unmoved e (forIn handles PUnit.unit fun b _ ↦ do
      modifySolver b.1 fun solver => solver.setReadonly b.2 on
      pure (.yield PUnit.unit)) := by
  refine .forIn fun b _ _ e₁ h₁ ↦ Within.bind (unmoved_solver fun solver hsolver ↦ ?_)
    fun _ _ _ _ ↦ .pure _
  exact Solver.sameReport_setReadonly (h₁.referential href b.1 solver hsolver) b.2 on

theorem unmoved_pinDownstream (href : e.Referential) (x : VarId) :
    Within Unmoved e (pinDownstream x) := by
  refine .get_bind ?_
  split
  · exact .pure _
  · split
    · exact .pure _
    · refine (unmoved_defining x).bind fun d e₁ _ h₁ ↦ .get_bind ?_
      refine (unmoved_pinAll (h₁.referential href) _ true).bind fun _ _ _ _ ↦ ?_
      exact unmoved_variable (fun _ ↦ rfl) fun _ ↦ rfl

theorem unmoved_unpinDownstream (href : e.Referential) (x : VarId) :
    Within Unmoved e (unpinDownstream x) := by
  refine .get_bind (Within.bind (unmoved_variable (fun _ ↦ rfl) fun _ ↦ rfl) fun _ _ _ h₁ ↦ ?_)
  exact (unmoved_pinAll (h₁.referential href) _ false).bind fun _ _ _ _ ↦ .pure _

/-- A solver gets another weight, and a new generation starts. Memos are as right after it as before,
for none of them may be used any more. -/
theorem weighs_tick (href : e.Referential) (s : SolverId) (f : Float → Float) :
    Within (Weighs s f) e (do
      modifySolver s fun solver => solver.setWeight (f solver.weight)
      tick) := by
  have hvalue : ∀ solver, e.solvers.get? s = some solver →
      (solver.setWeight (f solver.weight)).value = solver.value := by
    intro solver hsolver
    funext h
    rw [Solver.value_eq, (Solver.alike_setWeight (href s solver hsolver) _).held?, Solver.value_eq]
  refine ⟨⟨rfl, rfl, fun _ ↦ rfl, rfl, Arena.map_get?_modify hvalue, rfl⟩, rfl,
    fun t ↦ weight?_weigh e s t f, ?_, Nat.le_succ _, fun hround ↦
      .of_past (Nat.lt_succ_self _) (fun _ _ _ ↦ recent_of_lt ?_) fun _ _ hv ↦ hv⟩
  · exact referential_modify fun solver _ hsolver ↦ (Solver.alike_setWeight hsolver _).reference hsolver
  · exact hround.resolve_left (Nat.succ_ne_self _)

theorem weighs_bump (href : e.Referential) (s : SolverId) (xs : List VarId) :
    Within (Weighs s (· + e.config.weightBump)) e (bump s xs) := by
  have htick := weighs_tick href s (· + e.config.weightBump)
  refine htick.unmoved (Within.forM fun x _ _ h ↦ ?_)
  exact unmoved_pinDownstream (h.referential (htick.referential href)) x

theorem weighs_unbump (href : e.Referential) (s : SolverId) (xs : List VarId) :
    Within (Weighs s (· - e.config.weightBump)) e (unbump s xs) := by
  have htick := weighs_tick href s (· - e.config.weightBump)
  refine htick.unmoved (Within.forM fun x _ _ h ↦ ?_)
  exact unmoved_unpinDownstream (h.referential (htick.referential href)) x

theorem unmoved_mark (id : ConstraintId) (initiating : Bool) :
    Within Unmoved e (modifyConstraint id fun c => { c with initiating }) :=
  unmoved_constraint fun _ ↦ ⟨rfl, rfl⟩

theorem unmoved_unmark (initiating : Option ConstraintId) : Within Unmoved e (match initiating with
    | some id => modifyConstraint id fun c => { c with initiating := false }
    | none => pure ()) := by
  cases initiating with
  | some id => exact unmoved_mark id false
  | none => exact .pure _

theorem unmoved_initiate (defining : Option Defining) : Within Unmoved e (initiate defining) := by
  unfold initiate
  split
  · exact .pure _
  · refine .get_bind ?_
    split
    · exact .pure _
    · split
      · exact .pure _
      · exact (unmoved_mark _ true).bind fun _ _ _ _ ↦ .pure _

theorem unmoved_reportSolve (owner : Option ConstraintId) (s : SolverId) (phase : SolvePhase) :
    Within Unmoved e (reportSolve owner s phase) := by
  unfold reportSolve
  refine .get_bind ?_
  dsimp only
  split
  · exact unmoved_aside rfl rfl rfl rfl rfl rfl rfl
  · exact .pure _

end Step

/-! ### The refusal -/

namespace Call

variable {d : Defining} {v : Value} {err : EngineError} {origin : Origin} {bumped : Bumped}

/-- What a write bumped is bumped, and nothing else moved. -/
def Bumps (bumped : Bumped) (e e' : Engine) : Prop :=
  match bumped with
  | none => Unmoved e e'
  | some (s, _) => Weighs s (· + e.config.weightBump) e e'

theorem Bumps.unmoved (h : Bumps bumped e e') (h' : Unmoved e' e'') : Bumps bumped e e'' := by
  rcases bumped with - | ⟨s, closure⟩
  · exact trans_of Unmoved h h'
  · exact Weighs.unmoved h h'

theorem Bumps.of_unmoved (h : Unmoved e e') (h' : Bumps bumped e' e'') : Bumps bumped e e'' := by
  rcases bumped with - | ⟨s, closure⟩
  · exact trans_of Unmoved h h'
  · rw [Bumps, h.config] at h'
    exact h.weighs h'

theorem bumps_bumpFor (href : e.Referential) (x : VarId) (origin : Origin) (d : Defining) :
    Bumps (bumpFor x origin d e).1 e (bumpFor x origin d e).2 := by
  unfold bumpFor
  split
  · exact refl_of Unmoved e
  · have hclosure : Unmoved e (Step.closure x e).2 := Step.unmoved_closure x
    have hbump : Bumps (some (d.solver, (Step.closure x e).1)) (Step.closure x e).2 _ :=
      Step.weighs_bump (hclosure.referential href) d.solver (Step.closure x e).1
    exact .of_unmoved hclosure hbump

theorem Bumps.referential (h : Bumps bumped e e') (href : e.Referential) : e'.Referential := by
  rcases bumped with - | ⟨s, closure⟩
  · exact Unmoved.referential h href
  · exact Weighs.referential h href

/-- What was bumped and marked is taken back. -/
theorem unmoved_takeBack {w : Written} (href : e.Referential) (h : Bumps w.bumped e e')
    (hback : e.Rebounds) : Unmoved e (w.takeBack e').2 := by
  have href' := h.referential href
  obtain ⟨initiating, bumped, result⟩ := w
  rcases bumped with - | ⟨s, closure⟩
  · exact trans_of Unmoved h (Step.unmoved_unmark initiating)
  · have hunbump : Weighs s (· - e.config.weightBump) e' (Step.unbump s closure e').2 := by
      rw [← Weighs.config h]
      exact Step.weighs_unbump href' s closure
    exact trans_of Unmoved (Weighs.back h hunbump (hback.weight? s)) (Step.unmoved_unmark initiating)

/-- A failure that is not found out by comparing what a field reports with what it stored. -/
def Genuine (err : EngineError) : Prop :=
  ∀ field before after, err ≠ .inconsistentState field before after

theorem genuine_ofSolver (name : String) (err : SolverError) : Genuine (.ofSolver name err) := by
  intro field before after heq
  cases err <;> cases heq

/-- A solver that refuses a value. -/
theorem suggestTo_failed (hs : e.Sound) (hrun : suggestTo s h v e = (.error (.failed err), e')) :
    Unmoved e e' ∧ Genuine err := by
  rw [suggestTo, askSolver_eq] at hrun
  split at hrun
  · cases hrun
    exact ⟨refl_of Unmoved e, nofun⟩
  · next solver hsolver =>
    have href := (hs.trusted s solver hsolver).reference
    dsimp only at hrun
    rcases hcall : (solver.setReadonly h false).suggest h v with ⟨result, solver'⟩
    rw [hcall] at hrun
    cases result with
    | ok u => cases hrun
    | error fault =>
      cases hrun
      refine ⟨unmoved_solver fun other hother ↦ ?_, genuine_ofSolver _ fault⟩
      cases hother.symm.trans hsolver
      have hkept := Solver.sameReport_of_refused href (congrArg Prod.fst hcall) (solver.isReadonly h)
      rwa [hcall] at hkept

/-- An offer that is refused, and what was bumped for it. -/
theorem offer_failed (hs : e.Sound)
    (hrun : offer x v origin d e = (.ok (bumped, .error err), e')) :
    Bumps bumped e e' ∧ Genuine err := by
  obtain ⟨bumped', e₁, hbump, hrun⟩ := of_bind_ok hrun
  obtain ⟨result, e₂, hattempt, hrun⟩ := of_bind_ok hrun
  cases hrun
  have hs₁ : e₁.Sound := by
    cases hbump
    exact (modifies_bumpFor hs x origin d).sound hs
  obtain ⟨hunmoved, hgenuine⟩ := suggestTo_failed hs₁ (of_attempt_error hattempt)
  have hbumps := bumps_bumpFor hs.referential x origin d
  cases hbump
  exact ⟨hbumps.unmoved hunmoved, hgenuine⟩

theorem suggestPrimary_failed (hs : e.Sound)
    (hrun : suggestPrimary x v origin d e = (.ok (bumped, .error err), e')) :
    Bumps bumped e e' ∧ Genuine err := by
  rw [suggestPrimary, get_run] at hrun
  split at hrun
  · cases hrun
  · obtain ⟨_, e₁, hraise, hrun⟩ := of_bind_ok hrun
    obtain ⟨outcome, e₂, hoffer, hrun⟩ := of_bind_ok hrun
    obtain ⟨_, e₃, hlower, hrun⟩ := of_bind_ok hrun
    obtain ⟨_, e₄, hreport, hrun⟩ := of_bind_ok hrun
    cases hrun
    have hs₁ : e₁.Sound := by
      cases hraise
      exact hs.aside rfl rfl rfl (hs.tame.beside rfl rfl rfl rfl rfl)
    have hraised : Unmoved e e₁ := by
      cases hraise
      exact unmoved_aside rfl rfl rfl rfl rfl rfl rfl
    have hlowered : Unmoved e₂ e₃ := by
      cases hlower
      exact unmoved_aside rfl rfl rfl rfl rfl rfl rfl
    have hreported : Unmoved e₃ e' := by
      cases hreport
      exact Step.unmoved_reportSolve _ _ _
    obtain ⟨hbumps, hgenuine⟩ := offer_failed hs₁ hoffer
    have hafter : Unmoved e₂ e' := trans_of Unmoved hlowered hreported
    exact ⟨.of_unmoved hraised (hbumps.unmoved hafter), hgenuine⟩

/-- The failure of the defining solver of a variable, if a value that is offered to it is refused. -/
def refusal? (x : VarId) (v : Value) (origin : Origin) (e : Engine) : Option EngineError :=
  (Step.defining x e).1.bind fun d ↦
    match (suggestPrimary x v origin d (Step.initiate (some d) (Step.defining x e).2).2).1 with
    | .ok (_, .error err) => some err
    | _ => none

/-- Where the offer is refused, nothing follows on it. -/
theorem absorb_of_refused (hs : e.Sound) (hrefused : refusal? x v origin e = some err) (old : Value)
    (force outermost : Bool) :
    ∃ w e', absorb r x v old origin force outermost e = (.ok w, e') ∧ w.result = .error err ∧
      Bumps w.bumped e e' ∧ Genuine err := by
  obtain ⟨d, hd, hprimary⟩ := Option.bind_eq_some_iff.1 hrefused
  have hdefining : Unmoved e (Step.defining x e).2 := Step.unmoved_defining x
  have hsound : (Step.defining x e).2.Sound :=
    Recalls.modifies (Step.recalls_defining x) |>.sound hs
  have hinitiate : Unmoved _ (Step.initiate (some d) (Step.defining x e).2).2 :=
    Step.unmoved_initiate (some d)
  have hsound₁ := (Step.modifies_initiate (e := (Step.defining x e).2) (some d)).sound hsound
  rcases hrun : suggestPrimary x v origin d (Step.initiate (some d) (Step.defining x e).2).2
    with ⟨halt | ⟨bumped, err' | u⟩, e₁⟩ <;> rw [hrun] at hprimary <;> cases hprimary
  obtain ⟨hbumps, hgenuine⟩ := suggestPrimary_failed hsound₁ hrun
  refine ⟨⟨(Step.initiate (some d) (Step.defining x e).2).1, bumped, .error err⟩, e₁, ?_, rfl,
    .of_unmoved (trans_of Unmoved hdefining hinitiate) hbumps, hgenuine⟩
  refine (bind_of_ok (lift_run (Step.defining x) e)).trans ?_
  rw [hd]
  exact (bind_of_ok (lift_run (Step.initiate (some d)) _)).trans (bind_of_ok hrun)

/-- A failed write of a variable that reports what it did before comes to the failure. -/
theorem conclude_of_unmoved {old : Value} (err : EngineError) (hunmoved : Unmoved e e')
    (hround : Unwrapped e e') (hcurrent : e.Current) (hkept : (e.value x).near old = true) :
    ∃ e'', Unmoved e e'' ∧
      e''.guards = e'.guards ∧
      conclude x v old (.error err) e' = (do handOver x err; return v : Call Value) e'' := by
  obtain ⟨hvalue, -⟩ := Step.read_of_current (hunmoved.remembers hround hcurrent) x
  have hread : Unmoved e' (Step.read x e').2 := Step.unmoved_read x
  have hrecalls : Recalls e' (Step.read x e').2 := Step.recalls_read x
  refine ⟨(Step.read x e').2, trans_of Unmoved hunmoved hread, hrecalls.guards, ?_⟩
  refine (bind_of_ok (lift_run (Step.read x) e')).trans ?_
  rw [hvalue, hunmoved.value_eq, if_pos hkept]

/-- Whether a write failed is found out, and passed on, in the same generation. -/
theorem generation_conclude (x : VarId) (v old : Value) (result : Except EngineError Unit)
    (e : Engine) : (conclude x v old result e).2.guards.generation = e.guards.generation := by
  cases result with
  | ok _ => rfl
  | error err =>
    have hrecalls : Recalls e (Step.read x e).2 := Step.recalls_read x
    rw [conclude, bind_of_ok (lift_run (Step.read x) e), ← hrecalls.guards]
    split
    · rw [handOver, bind_assoc, get_run]
      dsimp only
      split <;> rfl
    · rfl

theorem unmoved_storedValue (x : VarId) : Within Unmoved e (storedValue x) := by
  refine .variableAt_bind fun w _ ↦ ?_
  split
  · exact .pure _
  · exact .lift (Step.unmoved_read x)

/-- The engine while hooks are collected. -/
def collecting (e : Engine) : Engine := { e with pendingHooks := some (e.pendingHooks.getD []) }

theorem collecting_of_some {hooks : List PendingHook} (hpending : e.pendingHooks = some hooks) :
    collecting e = e := by
  obtain ⟨⟩ := e
  cases hpending
  rfl

theorem sound_collecting (hs : e.Sound) : (collecting e).Sound := by
  refine hs.aside rfl rfl rfl
    ⟨hs.tame.evaluator, hs.tame.hooks, hs.tame.options, hs.tame.deferred, ?_⟩
  intro hooks heq hook hmem
  cases hpending : e.pendingHooks with
  | none =>
    rw [collecting, hpending] at heq
    cases heq
    cases hmem
  | some collected =>
    rw [collecting_of_some hpending] at heq
    exact hs.tame.pending hooks heq hook hmem

/-- **Refused writes.** A write that the defining solver refuses comes to that failure, which goes to a
handler or to the caller, and no variable reads otherwise than before. The variable is assumed to read
as it is stored, and the generation not to come round. -/
theorem suggest_of_refused {old : Value} {e₁ : Engine} {force : Bool} (hs : e.Sound)
    (hcurrent : e.Current) (hback : e.Rebounds) (hhooks : e.guards.runningHooks = false)
    (hstored : storedValue x e = (.ok old, e₁)) (hkept : (e.value x).near old = true)
    (hnew : (!force && v.near old) = false)
    (hrefused : refusal? x v origin (collecting e₁) = some err)
    (hround : Unwrapped e (suggest r x v origin force e).2) :
    Genuine err ∧ ∃ e₂, (∀ y, (Step.read y e₂).1 = (Step.read y e).1) ∧
      suggest r x v origin force e = (do handOver x err; return v : Call Value) e₂ := by
  have hreads : Unmoved e e₁ := (unmoved_storedValue x).of_ok hstored
  have hs₁ : e₁.Sound := ((recalls_storedValue x).of_ok hstored).modifies.sound hs
  have hcollects : Unmoved e₁ (collecting e₁) := unmoved_aside rfl rfl rfl rfl rfl rfl rfl
  have hcollecting : Unmoved e (collecting e₁) := trans_of Unmoved hreads hcollects
  obtain ⟨w, e₂, habsorb, hresult, hbumps, hgenuine⟩ :=
    absorb_of_refused (r := r) (sound_collecting hs₁) hrefused old force e₁.pendingHooks.isNone
  refine ⟨hgenuine, ?_⟩
  -- An outermost write stops collecting before it takes the bump back, a nested one does not.
  have hend : ∀ e₃, Unmoved e₂ e₃ → suggest r x v origin force e = (do
      w.takeBack
      conclude x v old w.result : Call Value) e₃ →
      ∃ e₄, (∀ y, (Step.read y e₄).1 = (Step.read y e).1) ∧
        suggest r x v origin force e = (do handOver x err; return v : Call Value) e₄ := by
    intro e₃ h₃ hrun
    have hback : Unmoved e (w.takeBack e₃).2 :=
      unmoved_takeBack hs.referential (.of_unmoved hcollecting (hbumps.unmoved h₃)) hback
    rw [bind_of_ok (lift_run w.takeBack e₃), hresult] at hrun
    have hround₃ : Unwrapped e (w.takeBack e₃).2 := by
      rwa [Unwrapped, hrun, generation_conclude] at hround
    obtain ⟨e₄, h₄, hguards, hconclude⟩ :=
      conclude_of_unmoved (x := x) (v := v) err hback hround₃ hcurrent hkept
    refine ⟨e₄, Step.read_of_unmoved h₄ ?_ hcurrent, hrun.trans hconclude⟩
    rwa [Unwrapped, hguards]
  have hrun : suggest r x v origin force e = (do
      let written ← absorb r x v old origin force e₁.pendingHooks.isNone
      if e₁.pendingHooks.isNone then modify fun e => { e with pendingHooks := none }
      written.takeBack
      conclude x v old written.result : Call Value) (collecting e₁) := by
    rw [suggest, get_run, hhooks, if_neg Bool.false_ne_true, bind_of_ok hstored, hnew,
      if_neg Bool.false_ne_true, get_run]
    cases hpending : e₁.pendingHooks with
    | some collected =>
      rw [collecting_of_some hpending]
      rfl
    | none =>
      rw [collecting, hpending]
      rfl
  rw [bind_of_ok habsorb] at hrun
  cases hpending : e₁.pendingHooks with
  | some collected =>
    rw [hpending] at hrun
    exact hend e₂ (refl_of Unmoved e₂) hrun
  | none =>
    rw [hpending] at hrun
    exact hend { e₂ with pendingHooks := none } (unmoved_aside rfl rfl rfl rfl rfl rfl rfl) hrun

end Call

namespace Engine

/-- A field that a search solver keeps to two values. -/
def confined : List Request := [
  .addSolver (.domainSearch 100) false,
  .createObject [("x", .number 2)],
  .always (.inDomain (Expr.fieldOf 0 "x") [.number 2, .number 3]) { solver := some ⟨0⟩ }]

theorem reachable_confined : Reachable {} ((new {}).run confined) := by
  refine (Reachable.new rfl).run ?_ (by decide +kernel)
  simp only [confined, Admissible, List.forall_mem_cons]
  exact ⟨.addSolver rfl, .plain rfl, .unhandled rfl, List.forall_mem_nil _⟩

/-- A value that is not among the two is refused. -/
theorem suggest_of_refused_confined : ∃ err e₂, Call.Genuine err ∧
    (∀ y, (Step.read y e₂).1 = (Step.read y ((new {}).run confined)).1) ∧
    Call.suggest .exhausted ⟨0⟩ (.number 5) .source false ((new {}).run confined)
      = (do Call.handOver ⟨0⟩ err; return .number 5 : Call Value) e₂ := by
  have hweights : ∀ entry ∈ ((new {}).run confined).solvers.live,
      entry.2.weight + ((new {}).run confined).config.weightBump
        - ((new {}).run confined).config.weightBump = entry.2.weight := by decide +kernel
  have hback : ((new {}).run confined).Rebounds :=
    fun s solver hsolver ↦ hweights (s, solver) (Arena.mem_live.2 hsolver)
  have hold : (Call.storedValue ⟨0⟩ ((new {}).run confined)).1.toOption = some (.number 2) := by
    decide +kernel
  have hrefused : (Call.refusal? ⟨0⟩ (.number 5) .source (Call.collecting
      (Call.storedValue ⟨0⟩ ((new {}).run confined)).2)).isSome = true := by decide +kernel
  rcases hstored : Call.storedValue ⟨0⟩ ((new {}).run confined) with ⟨halt | old, e₁⟩
  · rw [hstored] at hold
    cases hold
  · rw [hstored] at hold hrefused
    cases hold
    obtain ⟨err, herr⟩ := Option.isSome_iff_exists.1 hrefused
    have hnew : (!false && (Value.number 5).near (.number 2)) = false := by decide +kernel
    obtain ⟨hgenuine, e₂, hread, hrun⟩ := Call.suggest_of_refused (r := .exhausted)
      reachable_confined.sound (by decide +kernel) hback (by decide +kernel) hstored
      (by decide +kernel) hnew herr (.inr (by decide +kernel))
    exact ⟨err, e₂, hgenuine, hread, hrun⟩

/-- A search solver keeps a field to one value, and a heavier solver may move it. -/
def torn : List Request := [
  .addSolver (.relaxation 1000 1e-9) false,
  .addSolver (.domainSearch 100) false,
  .createObject [("x", .number 2), ("y", .number 8)],
  .always (.inDomain (Expr.fieldOf 0 "y") [.number 8]) { solver := some ⟨1⟩ },
  .always (.binary .le (.binary .add (Expr.fieldOf 0 "x") (Expr.fieldOf 0 "y"))
    (.const (.number 10))) { solver := some ⟨0⟩ }]

theorem reachable_torn : Reachable {} ((new {}).run torn) := by
  refine (Reachable.new rfl).run ?_ (by decide +kernel)
  simp only [torn, Admissible, List.forall_mem_cons]
  exact ⟨.addSolver rfl, .addSolver rfl, .plain rfl, .unhandled rfl, .unhandled rfl,
    List.forall_mem_nil _⟩

/-- The field of which an answer says that its state is inconsistent. -/
def inconsistentField? : Except Halt Answer → Option String
  | .error (.failed (.inconsistentState field _ _)) => some field
  | _ => none

/-- The heavier solver follows the write of one field with the other one. The search solver refuses
that, and the state is taken for inconsistent, though the solvers that refuse keep their values. -/
theorem exists_inconsistent_answer : Reachable {} ((new {}).run torn) ∧
    ((new {}).run torn).reported? ⟨0⟩ "y" = some (.number 8) ∧
    inconsistentField? (((new {}).run torn).answer (.write ⟨0⟩ "x" (.number 5))).1 = some "obj#0.y" :=
  ⟨reachable_torn, by decide +kernel, by decide +kernel⟩

end Engine

end LiveConstraints
