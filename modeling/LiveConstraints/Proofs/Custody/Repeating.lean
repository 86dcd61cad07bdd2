import LiveConstraints.Proofs.Convergence
import LiveConstraints.Proofs.Custody.Readonly
import LiveConstraints.Proofs.Custody.Storing
/-!
# Writing the same value again

When a write succeeds and starts no handler, the value is stored: a failure that is not returned waits
for a handler, which the outermost call starts before it returns (`Call.storesNear_of_topLevel`). So
if no parts speak for the variable of the field, making the write again finds its value stored and
changes nothing (`Engine.Driven.write_again`).

A variable that parts speak for is compared with what it reports. If a solver that was selected in
the course of the write reports something else, the write is made all over again
(`Engine.exists_unlike_again`).
-/

namespace LiveConstraints

open Engine

variable {e e' e₁ : Engine} {r : Reentry} {x : VarId} {v old a : Value} {origin : Origin}
  {force outermost : Bool} {config : Setup} {obj : ObjectId} {field : String}

namespace Engine

/-- A failure waits for a handler. -/
def Awaits (e : Engine) : Prop := ∃ handler errors, .handle handler errors ∈ e.deferred

/-- If no guard is raised, deferred work is taken up. -/
theorem not_settling (hguards : e.guards = { generation := e.guards.generation }) :
    ¬ (decide (0 < e.guards.nesting) || e.guards.draining) = true := by
  rw [hguards]
  simp

theorem not_draining_eq (hguards : e.guards = { generation := e.guards.generation }) :
    { e with guards := { e.guards with draining := false } } = e := by
  obtain ⟨⟩ := e
  dsimp only at hguards ⊢
  rw [hguards]

end Engine

namespace Call

/-! ### A write that succeeds -/

/-- A failure that is not returned was handed over. -/
theorem awaits_of_handOver {err : EngineError} (hrun : handOver x err e = (.ok ⟨⟩, e')) :
    e'.Awaits := by
  unfold handOver at hrun
  rw [get_run] at hrun
  generalize (e.vars.get? x).bind (fun v ↦ v.constraints.members.findSome? fun id ↦
    (e.constraints.get? id).bind fun c ↦ c.options.onError) = handler? at hrun
  cases handler? with
  | none => cases hrun
  | some handler =>
    cases hrun
    exact ⟨handler, [err], List.mem_append_right _ List.mem_cons_self⟩

theorem awaits_of_conclude {err : EngineError}
    (hrun : conclude x v old (.error err) e = (.ok a, e')) : e'.Awaits := by
  obtain ⟨now, e₁, -, hrun⟩ := of_bind_ok hrun
  split at hrun
  · obtain ⟨_, e₂, hhand, hrun⟩ := of_bind_ok hrun
    cases hrun
    exact awaits_of_handOver hhand
  · rw [get_run] at hrun
    cases hrun

/-- The end of a write that succeeds: the value is stored, unless its failure was handed over. -/
theorem storesNear_of_end {w : Written} {e₂ : Engine} (hr : r.Shielding) (hself : v.near v = true)
    (habsorb : absorb r x v old origin force outermost e = (.ok w, e₁))
    (hstands : Stands e₁ e₂) (hshields : Shields e₁ e₂)
    (hrun : (do
      w.takeBack
      conclude x v old w.result : Call Value) e₂ = (.ok a, e'))
    (hstoring : x ∉ e.guards.storing) (hsilent : e'.journal = e.journal) :
    e'.StoresNear x v ∨ e'.Awaits := by
  obtain ⟨_, e₃, hback, hconclude⟩ := of_bind_ok hrun
  have hreleased : Shields e₂ e₃ := (Within.lift (shieldsBut_takeBack w)).of_ok hback
  have hconcluded : Shields e₃ e' := (stays_conclude x v old w.result).of_ok hconclude
  have hafter := trans_of Shields hshields (trans_of Shields hreleased hconcluded)
  obtain ⟨hsilent₁, hsilent'⟩ :=
    journal_eq_of_logs (shields_of_absorb hr habsorb).toLogs hafter.toLogs hsilent
  cases hresult : w.result with
  | error err =>
    rw [hresult] at hconclude
    exact .inr (awaits_of_conclude hconclude)
  | ok _ =>
    rw [hresult] at hconclude
    cases hconclude
    have hreleases : Stands e₂ e' := (Within.lift (Step.stands_takeBack w)).of_ok hback
    have hnear := storesNear_of_absorb hr hself habsorb hresult hstoring hsilent₁
    exact .inl (hnear.stands (trans_of Stands hstands hreleases) (by rw [hsilent']))

/-- **Writing.** A write that succeeds leaves its value stored, unless its failure was handed over. -/
theorem storesNear_of_suggest (hr : r.Shielding) (hself : v.near v = true)
    (hrun : suggest r x v origin force e = (.ok a, e')) (hhooks : e.guards.runningHooks = false)
    (hstoring : x ∉ e.guards.storing) (hsilent : e'.journal = e.journal) :
    e'.StoresNear x v ∨ e'.Awaits := by
  unfold suggest at hrun
  rw [get_run, hhooks, if_neg Bool.false_ne_true] at hrun
  obtain ⟨old, e₁, hstored, hrun⟩ := of_bind_ok hrun
  have hreads : Recalls e e₁ := (recalls_storedValue x).of_ok hstored
  split at hrun
  · next hskip =>
    cases hrun
    rw [Bool.and_eq_true] at hskip
    exact .inl (storesNear_of_storedValue hstored hskip.2)
  · rw [get_run] at hrun
    have hstoring₁ : x ∉ e₁.guards.storing := by rwa [hreads.guards]
    have hsilent₁ : e'.journal = e₁.journal := by rw [hsilent, hreads.same]
    cases hpending : e₁.pendingHooks.isNone with
    | true =>
      rw [hpending] at hrun
      obtain ⟨_, e₂, hcollect, hrun⟩ := of_bind_ok hrun
      obtain ⟨w, e₃, habsorb, hrun⟩ := of_bind_ok hrun
      obtain ⟨_, e₄, hstop, hrun⟩ := of_bind_ok hrun
      cases hcollect
      cases hstop
      have hend : (do
          w.takeBack
          conclude x v old w.result : Call Value) { e₃ with pendingHooks := none } = (.ok a, e') := hrun
      have hstands : Stands e₃ { e₃ with pendingHooks := none } := stands_of_vars rfl rfl
      exact storesNear_of_end hr hself habsorb hstands (shields_pendingHooks none)
        hend hstoring₁ hsilent₁
    | false =>
      rw [hpending] at hrun
      obtain ⟨w, e₂, habsorb, hrun⟩ := of_bind_ok hrun
      exact storesNear_of_end hr hself habsorb (refl_of Stands e₂) (refl_of Shields e₂) hrun
        hstoring₁ hsilent₁

/-- A failure that waits when the deferred work is taken up reaches its handler. -/
theorem journal_lt_of_settle (hr : r.Shielding) (hawaits : e.Awaits)
    (hguards : e.guards = { generation := e.guards.generation })
    (hrun : settle r e = (.ok ⟨⟩, e')) : e.journal.size < e'.journal.size := by
  obtain ⟨handler, errors, hmem⟩ := hawaits
  unfold settle at hrun
  rw [get_run, if_neg (not_settling hguards)] at hrun
  obtain ⟨_, e₁, hraise, hrun⟩ := of_bind_ok hrun
  obtain ⟨failures, e₂, hdrain, hrun⟩ := of_bind_ok hrun
  obtain ⟨_, e₃, hlower, hrun⟩ := of_bind_ok hrun
  have hmem₁ : .handle handler errors ∈ e₁.deferred := by
    cases hraise
    exact hmem
  have hlt : e₁.journal.size < e₂.journal.size := journal_lt_of_drain hr hmem₁ hdrain
  cases hraise
  cases hlower
  cases hmerged : EngineError.merge? failures with
  | some err =>
    rw [hmerged] at hrun
    cases hrun
  | none =>
    rw [hmerged] at hrun
    cases hrun
    exact hlt

/-- **A write of its own** that succeeds and starts no handler leaves its value stored. -/
theorem storesNear_of_topLevel (hr : r.Shielding) (hself : v.near v = true)
    (hresumes : ∀ {e : Engine}, e.Busy → Within Resumes e (suggest r x v origin force))
    (hguards : e.guards = { generation := e.guards.generation })
    (hrun : topLevel r (suggest r x v origin force) e = (.ok a, e')) (hsilent : e'.journal = e.journal) :
    e'.StoresNear x v := by
  obtain ⟨e₁, hsuggest, hsettle⟩ := of_topLevel_ok hrun
  let raised : Engine := { e with guards := { e.guards with nesting := e.guards.nesting + 1 } }
  let lowered : Engine := { e₁ with guards := { e₁.guards with nesting := e₁.guards.nesting - 1 } }
  have hraised : raised.guards = { generation := e.guards.generation, nesting := 1 } := by
    show { e.guards with nesting := e.guards.nesting + 1 } = _
    rw [hguards]
  -- nothing was recorded in either part
  have hsuggested : Shields raised e₁ := (shields_suggest hr x v origin force).of_ok hsuggest
  have hlowers : Step.Within Shields e₁ (Step.modifyGuards fun g ↦
      { g with nesting := g.nesting - 1 }) := shields_modifyGuards rfl
  have hsettled : Shields lowered e' := (shields_settle hr).of_ok hsettle
  obtain ⟨hsilent₁, hsilent'⟩ := journal_eq_of_logs hsuggested.toLogs
    (trans_of Shields hlowers hsettled).toLogs hsilent
  -- the write put its guards back, so that the deferred work is taken up
  have hbusy : raised.Busy := by
    rw [Busy, hraised]
    exact Nat.one_pos
  have hresumed : Resumes raised e₁ := (hresumes hbusy).of_ok hsuggest
  have hlowered : lowered.guards = { generation := lowered.guards.generation } := by
    have hguards₁ : e₁.guards = { generation := e₁.guards.generation, nesting := 1 } :=
      hresumed.guards.trans (by rw [hraised])
    show { e₁.guards with nesting := e₁.guards.nesting - 1 }
      = ({ generation := e₁.guards.generation } : Guards)
    rw [hguards₁]
    rfl
  have hstored : e₁.StoresNear x v ∨ e₁.Awaits := by
    refine storesNear_of_suggest hr hself hsuggest ?_ ?_ hsilent₁
    · rw [hraised]
    · rw [hraised]
      exact List.not_mem_nil
  rcases hstored with hnear | hawaits
  · have hstands : Stands lowered e' := (stands_settle hr).of_ok hsettle
    exact StoresNear.stands (e := lowered) hnear hstands (by rw [hsilent'])
  · have hlt := journal_lt_of_settle (e := lowered) hr hawaits hlowered hsettle
    rw [hsilent'] at hlt
    exact absurd hlt (Nat.lt_irrefl _)

/-! ### A write that changes nothing -/

theorem suggest_of_stored {w : Variable} (hhooks : e.guards.runningHooks = false)
    (hw : e.vars.get? x = some w) (hparts : w.parts.isEmpty = true)
    (hnear : v.near w.shadow = true) : suggest r x v origin false e = (.ok v, e) := by
  have hlookup := variableAt_eq x e
  rw [hw] at hlookup
  have hstored : storedValue x e = (.ok w.shadow, e) := by
    rw [storedValue, bind_of_ok hlookup, if_pos hparts]
    rfl
  rw [suggest, get_run, hhooks, if_neg Bool.false_ne_true, bind_of_ok hstored, hnear]
  rfl

theorem drain_of_nil {n : Nat} {failures : List EngineError} (hdeferred : e.deferred = []) :
    drain r n failures e = (.ok failures, e) := by
  cases n with
  | zero =>
    rw [drain, get_run, hdeferred]
    rfl
  | succ n =>
    have htake := takeDeferred_eq e
    rw [hdeferred] at htake
    rw [drain, bind_of_ok htake]
    rfl

theorem settle_of_atRest (hrest : e.AtRest) : settle r e = (.ok ⟨⟩, e) := by
  let drained := { e with guards := { e.guards with draining := true } }
  have hdrain : drain r r.patience [] drained = (.ok [], drained) := drain_of_nil hrest.deferred
  unfold settle
  rw [get_run, if_neg (not_settling hrest.guards), bind_of_ok (lift_run _ _)]
  refine (bind_of_ok hdrain).trans ?_
  exact congrArg (Prod.mk _) (not_draining_eq hrest.guards)

/-- While a call is in progress, deferred work waits. -/
theorem settle_of_busy (hb : e.Busy) : settle r e = (.ok ⟨⟩, e) := by
  have hnesting : 0 < e.guards.nesting := hb
  unfold settle
  rw [get_run, if_pos (by simp [hnesting])]
  rfl

/-- A call of its own that leaves the engine as it is, if no deferred work is to be done there. -/
theorem topLevel_of_settled {call : Call Value} (hsettled : settle r e = (.ok ⟨⟩, e))
    (hcall : call { e with guards := { e.guards with nesting := e.guards.nesting + 1 } }
      = (.ok a, { e with guards := { e.guards with nesting := e.guards.nesting + 1 } })) :
    topLevel r call e = (.ok a, e) := by
  have hattempt : attempt call { e with guards := { e.guards with nesting := e.guards.nesting + 1 } }
      = (.ok (.ok a), { e with guards := { e.guards with nesting := e.guards.nesting + 1 } }) := by
    unfold attempt
    rw [hcall]
  have hsettle : attempt (settle r) e = (.ok (.ok ⟨⟩), e) := attempt_ok hsettled
  unfold topLevel
  rw [bind_of_ok (lift_run _ _)]
  refine (bind_of_ok hattempt).trans ?_
  rw [bind_of_ok (lift_run _ _)]
  exact (bind_of_ok hsettle).trans rfl

theorem topLevel_of_unchanged {call : Call Value} (hrest : e.AtRest)
    (hcall : call { e with guards := { e.guards with nesting := e.guards.nesting + 1 } }
      = (.ok a, { e with guards := { e.guards with nesting := e.guards.nesting + 1 } })) :
    topLevel r call e = (.ok a, e) := topLevel_of_settled (settle_of_atRest hrest) hcall

/-! ### A field that nobody watches -/

theorem withSlot_withSlot (obj : ObjectId) (field : String) (slot slot' : FieldSlot) :
    (e.withSlot obj field slot).withSlot obj field slot' = e.withSlot obj field slot' := by
  unfold withSlot
  dsimp only
  rw [Arena.modify_modify]
  simp only [SortedMap.insert_insert]

/-- A plain field is set. -/
theorem written_of_plain (hrun : writeField r obj field v e = (.ok a, e'))
    (hplain : e.variableOf? obj field = none) :
    ∃ (e₁ : Engine) (o : HostObject), e₁.objects.get? obj = some o ∧
      e' = e₁.withSlot obj field (.plain v) := by
  obtain ⟨slot, e₁, hcreate, hrun⟩ := of_bind_ok hrun
  have hgives := gives_slotOrCreate (e := e) obj field
  have hvariable := hgives.result slot e₁ hcreate
  rw [(hgives.within.of_ok hcreate).slots, hplain] at hvariable
  cases slot with
  | intercepted x => cases hvariable
  | plain _ =>
    obtain ⟨_, e₂, hset, hrun⟩ := of_bind_ok hrun
    cases hrun
    obtain ⟨o, ho, -⟩ := of_lookup_bind_ok (objectAt_eq obj e₁) hset
    rw [setSlot_eq ho] at hset
    cases hset
    exact ⟨e₁, o, ho, rfl⟩

theorem writeField_withSlot {o : HostObject} (ho : e.objects.get? obj = some o) :
    writeField r obj field v (e.withSlot obj field (.plain v))
      = (.ok v, e.withSlot obj field (.plain v)) := by
  have ho' : (e.withSlot obj field (.plain v)).objects.get? obj
      = some { o with fields := o.fields.insert field (.plain v) } := by
    rw [withSlot, Arena.get?_modify_self, ho, Option.map_some]
  have hset : setSlot obj field (.plain v) (e.withSlot obj field (.plain v)) = _ :=
    setSlot_eq ho' (.plain v)
  rw [withSlot_withSlot] at hset
  exact (bind_of_ok (slotOrCreate_of_slot (slot?_withSlot_self ho _))).trans (bind_of_ok hset)

/-- A write lowers what it raised. -/
theorem resumes_suggest (program : Program) (n : Nat) (hbusy : e.Busy) :
    Within Resumes e (suggest (Reentry.reacting program n) x v origin force) :=
  (mimics_suggest (Reentry.shadows_watched (fun _ ↦ pure ()) program n) x v origin force hbusy).2

end Call

namespace Engine

variable {program program' : Program} {n n' : Nat} {answer : Answer}

/-- What a field that is written stores. -/
theorem storesNear_of_perform (hdriven : Driven config e) (hself : v.near v = true)
    (hwrite : Call.perform (Reentry.reacting program n) (.write obj field v) e = (.ok answer, e'))
    (hsilent : e'.journal = e.journal) (hx : e.variableOf? obj field = some x) :
    e'.StoresNear x v := by
  obtain ⟨a, e₁, hfield, hanswer⟩ := Call.of_bind_ok hwrite
  cases hanswer
  rw [Call.writeField_of_intercepted hx] at hfield
  exact Call.storesNear_of_topLevel (Reentry.shielding_reacting program n) hself
    (Call.resumes_suggest program n) hdriven.atRest.guards hfield hsilent

/-- **Writing again.** A write that succeeded and started nothing is answered, and changes nothing, when
it is made again, whatever hooks and handlers would do by then. The field is assumed to be intercepted as
before, and its variable to have no parts. -/
theorem Driven.write_again (hdriven : Driven config e) (hself : v.near v = true)
    (hwrite : Call.perform (Reentry.reacting program n) (.write obj field v) e = (.ok answer, e'))
    (hsilent : e'.journal = e.journal)
    (hsame : e'.variableOf? obj field = e.variableOf? obj field)
    (hparts : ∀ x w, e'.variableOf? obj field = some x → e'.vars.get? x = some w →
      w.parts.isEmpty = true) :
    Call.perform (Reentry.reacting program' n') (.write obj field v) e' = (.ok (.value v), e') := by
  have hdriven' : Driven config e' := by
    have hnext : Driven config (Call.perform (Reentry.reacting program n) (.write obj field v) e).2 :=
      hdriven.answer (by rw [hwrite]; nofun)
    rwa [hwrite] at hnext
  suffices hfield : Call.writeField (Reentry.reacting program' n') obj field v e' = (.ok v, e') from
    Call.bind_of_ok hfield
  cases hx : e.variableOf? obj field with
  | none =>
    obtain ⟨a, e₁, hfield, hanswer⟩ := Call.of_bind_ok hwrite
    cases hanswer
    obtain ⟨e₂, o, ho, rfl⟩ := Call.written_of_plain hfield hx
    exact Call.writeField_withSlot ho
  | some x =>
    rw [hx] at hsame
    obtain ⟨w, hw, -⟩ := ((incident_of_tied hdriven'.tied).slot obj field x).1 hsame
    have hempty := hparts x w hsame hw
    have hnear := storesNear_of_perform hdriven hself hwrite hsilent hx w hw hempty
    rw [Call.writeField_of_intercepted hsame]
    refine Call.topLevel_of_unchanged hdriven'.atRest ?_
    refine Call.suggest_of_stored ?_ hw hempty hnear
    rw [hdriven'.atRest.guards]

/-- A bounded field is written. -/
def sumWrite : Request := .write ⟨0⟩ "x" (.number 5)

theorem driven_sumBounded : Driven {} ((new {}).run (sumBounded 10)) :=
  .run .new (by decide +kernel)

/-- The write succeeds and starts nothing, and the variable of the field is there as before. -/
theorem exists_sumWritten : ∃ answer e',
    ((new {}).run (sumBounded 10)).answer sumWrite = (.ok answer, e') ∧
      e'.journal = ((new {}).run (sumBounded 10)).journal ∧
      e'.variableOf? ⟨0⟩ "x" = ((new {}).run (sumBounded 10)).variableOf? ⟨0⟩ "x" ∧
      ∀ x w, e'.variableOf? ⟨0⟩ "x" = some x → e'.vars.get? x = some w → w.parts.isEmpty = true := by
  have hok : (((new {}).run (sumBounded 10)).answer sumWrite).1.toOption.isSome = true := by
    decide +kernel
  have hbefore : ((new {}).run (sumBounded 10)).journal.size = 0 ∧
      ((new {}).run (sumBounded 10)).variableOf? ⟨0⟩ "x" = some ⟨0⟩ := by decide +kernel
  have hafter : (((new {}).run (sumBounded 10)).answer sumWrite).2.journal.size = 0 ∧
      (((new {}).run (sumBounded 10)).answer sumWrite).2.variableOf? ⟨0⟩ "x" = some ⟨0⟩ ∧
      ((((new {}).run (sumBounded 10)).answer sumWrite).2.vars.get? ⟨0⟩).all
        (fun w ↦ w.parts.isEmpty) = true := by decide +kernel
  rcases hwrite : ((new {}).run (sumBounded 10)).answer sumWrite with ⟨halt | answer, e'⟩
  · rw [hwrite] at hok
    cases hok
  · rw [hwrite] at hafter
    obtain ⟨hjournal, hvariable, hparts⟩ := hafter
    refine ⟨answer, e', rfl, ?_, hvariable.trans hbefore.2.symm, fun x w hx hw ↦ ?_⟩
    · rw [Array.eq_empty_of_size_eq_zero hjournal, Array.eq_empty_of_size_eq_zero hbefore.1]
    · cases hvariable.symm.trans hx
      rw [hw] at hparts
      exact hparts

/-- Making the write again changes nothing. -/
theorem write_again_sumBounded : ∃ answer e',
    ((new {}).run (sumBounded 10)).answer sumWrite = (.ok answer, e') ∧
      e'.answer sumWrite = (.ok (.value (.number 5)), e') := by
  obtain ⟨answer, e', hwrite, hsilent, hsame, hparts⟩ := exists_sumWritten
  refine ⟨answer, e', hwrite, ?_⟩
  rw [answer_eq_perform] at hwrite ⊢
  exact driven_sumBounded.write_again (by decide +kernel) hwrite hsilent hsame hparts

/-- A field held a point once, and keeps a variable for a part of it. A write to it is lost to the
solver that is selected meanwhile. -/
def stalePart : List Request := [
  .addSolver { Solver.relaxation 1000 1e-9 with weight := 500 } false,
  .addSolver .dataflow false,
  .addSolver (.domainSearch 10000) false,
  .createObject [("x", .point ⟨1, 2⟩), ("y", .number 8), ("z", .number 2)],
  .always (.binary .ge (.member (Expr.fieldOf 0 "x") "x") (.const (.number 0)))
    { solver := some ⟨2⟩, postpone := true },
  .write ⟨0⟩ "x" (.number 8),
  .always (.binary .eq (Expr.fieldOf 0 "x") (Expr.fieldOf 0 "y")) { solver := some ⟨1⟩ },
  .always (.binary .eq (.binary .add (Expr.fieldOf 0 "x") (Expr.fieldOf 0 "z"))
    (.const (.number 10))) { interval := some 1 },
  .write ⟨0⟩ "x" (.number 5)]

/-- The last write succeeded. Made again, it has another field report another value. -/
theorem exists_unlike_again : Reachable {} ((new {}).run stalePart) ∧
    (new {}).succeedsAll stalePart = true ∧
    ((new {}).run stalePart).reported? ⟨0⟩ "y" = some (.number 8) ∧
    (((new {}).run stalePart).answer (.write ⟨0⟩ "x" (.number 5))).2.reported? ⟨0⟩ "y"
      = some (.number 5) := by
  have hreachable : Reachable {} ((new {}).run stalePart) := by
    refine (Reachable.new rfl).run ?_ (by decide +kernel)
    simp only [stalePart, Admissible, List.forall_mem_cons]
    exact ⟨.addSolver rfl, .addSolver rfl, .addSolver rfl, .plain rfl, .unhandled rfl, .plain rfl,
      .unhandled rfl, .unhandled rfl, .plain rfl, List.forall_mem_nil _⟩
  exact ⟨hreachable, by decide +kernel, by decide +kernel, by decide +kernel⟩

end Engine

end LiveConstraints
