import LiveConstraints.Proofs.Editing.Batches
import LiveConstraints.Proofs.Editing.Passing
import LiveConstraints.Proofs.Refusal
/-!
# Updating an edit session

An update hands each solver its share of the batch and then passes on what the solvers made of it. In a
region where no variable is shared the second part comes as no news, so an update comes to what the
solvers did.
-/

namespace LiveConstraints

open Engine

variable {e e' e'' : Engine} {r : Reentry} {x : VarId} {s : SolverId} {xs : List VarId}
  {session : EditSession} {values : List Value}

namespace Solver

theorem isDataflow_resolveBatch (s : Solver) (values : List Value) :
    (s.resolveBatch values).2.isDataflow = s.isDataflow := by
  obtain ⟨name, innerName, weight, algorithm⟩ := s
  cases algorithm <;> rfl

theorem weight_resolveBatch (s : Solver) (values : List Value) :
    (s.resolveBatch values).2.weight = s.weight := by
  obtain ⟨name, innerName, weight, algorithm⟩ := s
  cases algorithm <;> rfl

end Solver

namespace Engine

/-- Solvers may hold other values, and nothing else differs. -/
structure Resolves (e e' : Engine) : Prop where
  same : e' = { e with solvers := e'.solvers }
  solvers : ∀ s, (e'.solvers.get? s).map (fun solver ↦ (solver.weight, solver.isDataflow))
    = (e.solvers.get? s).map fun solver ↦ (solver.weight, solver.isDataflow)

instance : IsPreorder Engine Resolves where
  refl _ := ⟨rfl, fun _ ↦ rfl⟩
  trans _ _ _ h h' := ⟨by rw [h'.same, h.same], fun s ↦ (h'.solvers s).trans (h.solvers s)⟩

namespace Resolves

variable (h : Resolves e e')
include h

theorem weight?_eq : e'.weight? = e.weight? := by
  funext s
  have hs := congrArg (Option.map Prod.fst) (h.solvers s)
  rw [Option.map_map, Option.map_map] at hs
  exact hs

theorem gone (hs : e.solvers.get? s = none) : e'.solvers.get? s = none := by
  have hnone := h.solvers s
  rwa [hs, Option.map_none, Option.map_eq_none_iff] at hnone

theorem searchDefining_eq (v : Variable) : e'.searchDefining v = e.searchDefining v := by
  refine searchDefining_of_candidates rfl fun b _ ↦
    definingCandidate?_congr ?_ rfl (congrFun h.weight?_eq b.1)
  rw [h.same]
  rfl

theorem definition_eq : e'.definition = e.definition := by
  have hsought : e'.soughtDefining = e.soughtDefining := by
    funext v
    rw [soughtDefining, h.searchDefining_eq, h.same]
    rfl
  funext x
  rw [definition, hsought, h.same]
  rfl

theorem unshared (hu : e.Unshared xs) : e'.Unshared xs where
  closed := by
    rw [h.same]
    exact hu.closed
  sole := by
    rw [h.same]
    exact hu.sole
  served x hx v hv b hb id hid c hc := by
    rw [h.same] at hv hc
    obtain ⟨hsolver, hcandidates⟩ := hu.served x hx v hv b hb id hid c hc
    refine ⟨hsolver, fun t ht ↦ ?_⟩
    rw [h.same] at ht
    exact (hcandidates t ht).imp_right h.gone
  dataflow x hx v hv b hb := by
    rw [h.same] at hv
    obtain ⟨solver, d, hsolver, hd⟩ := hu.dataflow x hx v hv b hb
    have hs := h.solvers b.1
    rw [hsolver, Option.map_some] at hs
    obtain ⟨solver', hsolver', heq⟩ := Option.map_eq_some_iff.1 hs
    obtain ⟨d', hd'⟩ := Solver.isDataflow_iff.1
      ((congrArg Prod.snd heq).trans (Solver.isDataflow_iff.2 ⟨d, hd⟩))
    exact ⟨solver', d', hsolver', hd'⟩

theorem serene (ho : e.Serene xs) : e'.Serene xs where
  ordered := by
    rw [h.same]
    exact ho.ordered
  current := by
    refine ho.current.keep (by rw [h.same]) fun x w hw ↦ ⟨w, ?_, rfl, rfl, h.searchDefining_eq w⟩
    rwa [h.same] at hw
  outside := by
    rw [h.same]
    exact ho.outside
  idle := by
    rw [h.same]
    exact ho.idle
  hookless := by
    rw [h.same]
    exact ho.hookless
  pending := by
    rw [h.same]
    exact ho.pending
  unshared := h.unshared ho.unshared

end Resolves

end Engine

namespace Call

/-! ### Distributing -/

/-- The values at given positions of a batch. -/
def valuesAt (values : List Value) (members : List Nat) : List Value :=
  members.filterMap fun i => values[i]?

/-- Hands each of some solvers its share of a batch. -/
def dealOut (values : List Value) (shares : List (SolverId × List Nat)) : Call Unit := do
  for (s, members) in shares do
    askSolver s fun solver => solver.resolveBatch (valuesAt values members)

/-- Propagates what the solvers made of a batch. -/
def passAll (r : Reentry) (session : EditSession) : Call Unit := do
  for (x, _) in session.fields do
    let v ← Step.read x
    let _ ← r.suggest x v .propagation false

theorem applyBatch_eq : applyBatch r session values = (do
    dealOut values session.solvers
    passAll r session) := by
  unfold applyBatch dealOut passAll
  rw [bind_assoc]
  rfl

/-- The engine after a solver treated some values. -/
def treated (e : Engine) (s : SolverId) (solver : Solver) (values : List Value) : Engine :=
  { e with solvers := e.solvers.modify s fun _ ↦ (solver.resolveBatch values).2 }

/-- Solvers get their shares one after another, up to the first one that refuses. -/
theorem dealOut_cons (share : SolverId × List Nat) (shares : List (SolverId × List Nat)) (e : Engine) :
    dealOut values (share :: shares) e = match e.solvers.get? share.1 with
      | none => (.error (.failed (.unknownSolver share.1)), e)
      | some solver =>
        match (solver.resolveBatch (valuesAt values share.2)).1 with
        | .error err => (.error (.failed (.ofSolver (e.solverName share.1) err)),
          treated e share.1 solver (valuesAt values share.2))
        | .ok _ => dealOut values shares (treated e share.1 solver (valuesAt values share.2)) := by
  have hrun : dealOut values (share :: shares) = (do
      askSolver share.1 fun solver => solver.resolveBatch (valuesAt values share.2)
      dealOut values shares) := by
    unfold dealOut
    rw [List.forIn_cons, bind_assoc, bind_assoc]
    rfl
  have hask := askSolver_eq share.1 (fun solver ↦ solver.resolveBatch (valuesAt values share.2)) e
  rw [hrun]
  cases hsolver : e.solvers.get? share.1 with
  | none =>
    rw [hsolver] at hask
    exact bind_of_error hask
  | some solver =>
    rw [hsolver] at hask
    dsimp only at hask ⊢
    cases houtcome : (solver.resolveBatch (valuesAt values share.2)).1 with
    | error err =>
      rw [houtcome] at hask
      exact bind_of_error hask
    | ok u =>
      rw [houtcome] at hask
      exact bind_of_ok hask

variable {shares : List (SolverId × List Nat)} {solver : Solver}

/-- The guards are no matter. -/
theorem dealOut_guards (values : List Value) (shares : List (SolverId × List Nat)) (e : Engine)
    (g : Guards) : dealOut values shares { e with guards := g }
      = ((dealOut values shares e).1, { (dealOut values shares e).2 with guards := g }) := by
  induction shares generalizing e with
  | nil => rfl
  | cons share shares ih =>
    rw [dealOut_cons, dealOut_cons]
    dsimp only
    cases e.solvers.get? share.1 with
    | none => rfl
    | some solver =>
      dsimp only
      cases (solver.resolveBatch (valuesAt values share.2)).1 with
      | error err => rfl
      | ok u => exact ih (treated e share.1 solver (valuesAt values share.2))

theorem resolves_treated (hsolver : e.solvers.get? s = some solver) (values : List Value) :
    Resolves e (treated e s solver values) := by
  refine ⟨rfl, Arena.map_get?_modify fun solver' hsolver' ↦ ?_⟩
  obtain rfl : solver' = solver := Option.some.inj (hsolver'.symm.trans hsolver)
  rw [Solver.weight_resolveBatch, Solver.isDataflow_resolveBatch]

/-- A batch leaves everything but values as it was. -/
theorem resolves_dealOut (values : List Value) (shares : List (SolverId × List Nat)) (e : Engine) :
    Resolves e (dealOut values shares e).2 := by
  induction shares generalizing e with
  | nil => exact refl_of Resolves e
  | cons share shares ih =>
    rw [dealOut_cons]
    cases hsolver : e.solvers.get? share.1 with
    | none => exact refl_of Resolves e
    | some solver =>
      dsimp only
      have hfirst := resolves_treated hsolver (valuesAt values share.2)
      cases (solver.resolveBatch (valuesAt values share.2)).1 with
      | error err => exact hfirst
      | ok u => exact trans_of Resolves hfirst (ih _)

/-- A batch that was dealt out was taken by every solver, each of which is named once. -/
theorem of_dealOut_ok (hnodup : (shares.map Prod.fst).Nodup)
    (hrun : dealOut values shares e = (.ok ⟨⟩, e')) :
    (∀ t ∉ shares.map Prod.fst, e'.solvers.get? t = e.solvers.get? t) ∧
      ∀ share ∈ shares, ∃ solver, e.solvers.get? share.1 = some solver ∧
        (solver.resolveBatch (valuesAt values share.2)).1 = .ok () ∧
          e'.solvers.get? share.1 = some (solver.resolveBatch (valuesAt values share.2)).2 := by
  induction shares generalizing e with
  | nil =>
    cases hrun
    exact ⟨fun _ _ ↦ rfl, fun _ hmem ↦ nomatch hmem⟩
  | cons first rest ih =>
    rw [List.map_cons, List.nodup_cons] at hnodup
    rw [dealOut_cons] at hrun
    cases hsolver : e.solvers.get? first.1 with
    | none =>
      rw [hsolver] at hrun
      cases hrun
    | some solver =>
      rw [hsolver] at hrun
      dsimp only at hrun
      cases houtcome : (solver.resolveBatch (valuesAt values first.2)).1 with
      | error err =>
        rw [houtcome] at hrun
        cases hrun
      | ok u =>
        rw [houtcome] at hrun
        obtain ⟨hframe, htaken⟩ := ih hnodup.2 hrun
        have hother : ∀ t ≠ first.1,
            (treated e first.1 solver (valuesAt values first.2)).solvers.get? t = e.solvers.get? t :=
          fun t ht ↦ Arena.get?_modify_of_ne _ _ ht
        refine ⟨fun t ht ↦ ?_, fun share hshare ↦ ?_⟩
        · rw [List.map_cons, List.mem_cons, not_or] at ht
          rw [hframe t ht.2, hother t ht.1]
        · rcases List.mem_cons.1 hshare with rfl | hshare
          · refine ⟨solver, hsolver, houtcome, ?_⟩
            rw [hframe _ hnodup.1, treated, Arena.get?_modify_self, hsolver]
            rfl
          · have hne : share.1 ≠ first.1 := by
              intro heq
              exact hnodup.1 (heq ▸ List.mem_map_of_mem hshare)
            obtain ⟨solver', hsolver', hrest⟩ := htaken share hshare
            exact ⟨solver', by rw [← hother _ hne, hsolver'], hrest⟩

/-- A batch that is refused is not interrupted. -/
theorem of_dealOut_error {halt : Halt} (hrun : dealOut values shares e = (.error halt, e')) :
    halt ≠ .tooDeep := by
  induction shares generalizing e with
  | nil => cases hrun
  | cons share shares ih =>
    rw [dealOut_cons] at hrun
    cases hsolver : e.solvers.get? share.1 with
    | none =>
      rw [hsolver] at hrun
      cases hrun
      nofun
    | some solver =>
      rw [hsolver] at hrun
      dsimp only at hrun
      cases houtcome : (solver.resolveBatch (valuesAt values share.2)).1 with
      | error err =>
        rw [houtcome] at hrun
        cases hrun
        nofun
      | ok u =>
        rw [houtcome] at hrun
        exact ih hrun

/-- A batch that is refused by the first solver that gets a share, or the only one, moves nothing. -/
theorem unmoved_of_dealOut_error (hs : e.Sound) {halt : Halt}
    (hfirst : ∀ share rest, shares = share :: rest → rest = [] ∨ ∀ solver,
      e.solvers.get? share.1 = some solver → (solver.resolveBatch (valuesAt values share.2)).1 ≠ .ok ())
    (hrun : dealOut values shares e = (.error halt, e')) : Unmoved e e' := by
  cases shares with
  | nil => cases hrun
  | cons share rest =>
    rw [dealOut_cons] at hrun
    cases hsolver : e.solvers.get? share.1 with
    | none =>
      rw [hsolver] at hrun
      cases hrun
      exact refl_of Unmoved e
    | some solver =>
      rw [hsolver] at hrun
      dsimp only at hrun
      cases houtcome : (solver.resolveBatch (valuesAt values share.2)).1 with
      | ok u =>
        rw [houtcome] at hrun
        obtain rfl | hrefuses := hfirst share rest rfl
        · cases hrun
        · exact absurd houtcome (hrefuses solver hsolver)
      | error err =>
        rw [houtcome] at hrun
        cases hrun
        refine unmoved_solver fun solver' hsolver' ↦ ?_
        obtain rfl : solver' = solver := Option.some.inj (hsolver'.symm.trans hsolver)
        exact .of_uncounted
          (Solver.traceless_resolveBatch (hs.trusted _ _ hsolver').reference _ err houtcome)

/-! ### Updates -/

/-- In a region where no variable is shared nothing comes of passing a batch on. -/
theorem calms_passAll (hr : r.PassesOn xs) (hp : e.Placid xs)
    (hfields : ∀ field ∈ session.fields, field.1 ∈ xs ∧ ∃ v, e.vars.get? field.1 = some v) :
    Calms xs e (passAll r session) fun _ ↦ True := by
  refine Calms.bind (Calms.forIn hp fun field hfield e₁ h₁ hp₁ ↦ ?_)
    fun _ e₁ _ hp₁ _ ↦ Calms.pure hp₁ trivial
  obtain ⟨hx, v, hv⟩ := hfields field hfield
  refine Calms.lift_bind hp₁ (Step.reads_read field.1) fun e₂ h₂ hp₂ ↦ ?_
  obtain ⟨w, hw, -⟩ := (trans_of Calm h₁ h₂).exists_after hv
  rw [hp₁.read_eq, ← h₂.value_eq]
  exact (hr hp₂ hx ⟨w, hw⟩).bind fun _ e₃ _ hp₃ _ ↦ Calms.pure hp₃ trivial

theorem updateEdit_eq (hlength : values.length = session.size) :
    updateEdit r session values = topLevel r (applyBatch r session values) := by
  rw [updateEdit, if_neg (not_not_intro hlength)]

/-- Where nothing is deferred, an update that a solver refuses comes to the refusal. -/
theorem updateEdit_of_refused (hlength : values.length = session.size) (hdeferred : e.deferred = [])
    {halt : Halt} (hrun : dealOut values session.solvers e = (.error halt, e'))
    (hreturns : halt ≠ .tooDeep) : updateEdit r session values e = (.error halt, e') := by
  have hresolves : Resolves e e' := by
    have h := resolves_dealOut values session.solvers e
    rwa [hrun] at h
  have hcall : applyBatch r session values
      { e with guards := { e.guards with nesting := e.guards.nesting + 1 } }
        = (.error halt, { e' with guards := { e.guards with nesting := e.guards.nesting + 1 } }) := by
    rw [applyBatch_eq]
    refine bind_of_error ?_
    rw [dealOut_guards, hrun]
  have hdeferred' : e'.deferred = [] := by
    rw [hresolves.same]
    exact hdeferred
  rw [updateEdit_eq hlength, topLevel_eq hcall (fun h ↦ hreturns (Except.error.inj h)) hdeferred',
    hresolves.same]
  rfl

/-- **An update that the solvers take** succeeds, and no field reports another value than what the
solvers made of the batch. -/
theorem succeeds_updateEdit (hr : r.PassesOn xs) (ho : e.Serene xs) {e₁ : Engine}
    (hlength : values.length = session.size) (hdeferred : e.deferred = [])
    (hrun : dealOut values session.solvers e = (.ok ⟨⟩, e₁)) (hdefinite : e₁.Definite xs)
    (hfields : ∀ field ∈ session.fields, field.1 ∈ xs ∧ ∃ v, e.vars.get? field.1 = some v) :
    Succeeds e (updateEdit r session values) fun _ e' ↦ Calm e₁ e' ∧ e'.Placid xs := by
  have hresolves : Resolves e e₁ := by
    have h := resolves_dealOut values session.solvers e
    rwa [hrun] at h
  have hp₁ : e₁.Placid xs := ⟨hresolves.serene ho, hdefinite⟩
  have hraise : Lulls xs e₁ { e₁ with guards := { e.guards with nesting := e.guards.nesting + 1 } } := by
    refine lulls_aside rfl ?_ (·.pending)
    rw [hresolves.same]
  obtain ⟨hcalm₁, hraised⟩ := hraise hp₁
  have hpass : Calms xs _ (passAll r session) fun _ ↦ True :=
    calms_passAll hr hraised fun field hfield ↦ by
      obtain ⟨hx, v, hv⟩ := hfields field hfield
      exact ⟨hx, v, by rw [hresolves.same]; exact hv⟩
  have hcall : applyBatch r session values
      { e with guards := { e.guards with nesting := e.guards.nesting + 1 } }
        = passAll r session
          { e₁ with guards := { e.guards with nesting := e.guards.nesting + 1 } } := by
    rw [applyBatch_eq]
    refine bind_of_ok (a := ⟨⟩) ?_
    rw [dealOut_guards, hrun]
  rw [updateEdit_eq hlength]
  intro hreturns
  rcases hrest : passAll r session
    { e₁ with guards := { e.guards with nesting := e.guards.nesting + 1 } } with ⟨outcome, e₂⟩
  rw [hrest] at hcall
  have hfinished : outcome ≠ .error .tooDeep := by
    rintro rfl
    refine hreturns ?_
    have hattempt : attempt (applyBatch r session values)
        { e with guards := { e.guards with nesting := e.guards.nesting + 1 } }
          = (.error .tooDeep, e₂) := by
      simp [attempt, hcall]
    rw [topLevel, bracket_of_error hattempt]
  obtain ⟨⟨⟩, rfl, hcalm₂, hp₂, -⟩ := hpass.of_eq hrest hfinished
  have hdeferred₂ : e₂.deferred = [] := by
    rw [hcalm₂.deferred, hresolves.same]
    exact hdeferred
  rw [topLevel_eq hcall hfinished hdeferred₂]
  have hlower : Lulls xs e₂ { e₂ with guards := { e₂.guards with nesting := e₂.guards.nesting - 1 } } :=
    lulls_aside rfl rfl (·.pending)
  exact ⟨⟨⟩, rfl, trans_of Calm (trans_of Calm hcalm₁ hcalm₂) (hlower hp₂).1, (hlower hp₂).2⟩

end Call

namespace Engine

variable {config : Setup} {index : Option Nat}

theorem answer_updateEdit (hsession : e.session? index = some session) :
    e.answer (.updateEdit index values) = (do
      Call.updateEdit (Reentry.ofDepth nestingLimit) session values
      return .done : Call Answer) e :=
  Call.withSession_of_some hsession

/-- Fields report the same if the objects are the same and variables read the same. -/
theorem reported?_congr (objects : e'.objects = e.objects) (hcurrent : e.Current)
    (hcurrent' : e'.Current) (hvalue : e'.value = e.value) (obj : ObjectId) (field : String) :
    e'.reported? obj field = e.reported? obj field :=
  reported?_eq_of_slot (by rw [slot?, objects, slot?]) hcurrent hcurrent' fun x _ ↦ congrFun hvalue x

/-- What is asked of a reachable engine for nothing to come of passing values on. -/
theorem Reachable.serene (h : Reachable config e) (hcurrent : e.Current) (hhookless : e.Hookless)
    (hunshared : e.Unshared xs) : e.Serene xs where
  ordered := h.sound.ordered
  current := hcurrent
  outside := by rw [h.atRest.guards]
  idle := by rw [h.atRest.guards]
  hookless := hhookless
  pending := by
    rw [h.atRest.pending]
    exact nofun
  unshared := hunshared

/-- The first solver of a session refuses its share of a batch. -/
def FirstRefuses (e : Engine) (session : EditSession) (values : List Value) : Prop :=
  ∃ share ∈ session.solvers.head?, ∀ solver, e.solvers.get? share.1 = some solver →
    (solver.resolveBatch (Call.valuesAt values share.2)).1 ≠ .ok ()

theorem FirstRefuses.dealOut_ne_ok (hrefuses : e.FirstRefuses session values) (u : Unit) :
    (Call.dealOut values session.solvers e).1 ≠ .ok u := by
  obtain ⟨share, hshare, hrefuses⟩ := hrefuses
  obtain ⟨rest, hshares⟩ := List.head?_eq_some_iff.1 hshare
  rw [hshares, Call.dealOut_cons]
  cases hsolver : e.solvers.get? share.1 with
  | none => nofun
  | some solver =>
    dsimp only
    cases houtcome : (solver.resolveBatch (Call.valuesAt values share.2)).1 with
    | error err => nofun
    | ok _ => exact absurd houtcome (hrefuses solver hsolver)

/-- A batch concerns one solver and a region that it does not share with others, all fields of the
session are still constrained, and what comes out are numbers that are near themselves. -/
structure Contains (e : Engine) (session : EditSession) (values : List Value) (xs : List VarId) :
    Prop where
  alone : session.solvers.length ≤ 1
  unshared : e.Unshared xs
  live : ∀ field ∈ session.fields, field.1 ∈ xs ∧ ∃ v, e.vars.get? field.1 = some v
  definite : (Call.dealOut values session.solvers e).2.Definite xs

instance : Decidable (e.Contains session values xs) :=
  decidable_of_iff (session.solvers.length ≤ 1 ∧ e.Unshared xs ∧
    (∀ field ∈ session.fields, xs.contains field.1 = true ∧ (e.vars.get? field.1).isSome = true) ∧
    (Call.dealOut values session.solvers e).2.Definite xs) <| by
    simp only [Option.isSome_iff_exists, List.contains_iff_mem]
    exact ⟨fun h ↦ ⟨h.1, h.2.1, h.2.2.1, h.2.2.2⟩, fun h ↦ ⟨h.alone, h.unshared, h.live, h.definite⟩⟩

/-- **Failed updates are atomic**, if the first solver refuses its share of the batch or no other solver
is concerned. -/
theorem Reachable.update_atomic (h : Reachable config e) (hcurrent : e.Current)
    (hhookless : e.Hookless) (hsession : e.session? index = some session)
    (hsafe : e.FirstRefuses session values ∨ e.Contains session values xs) {err : EngineError}
    (hfails : (e.answer (.updateEdit index values)).1 = .error (.failed err)) (obj : ObjectId)
    (field : String) : (e.answer (.updateEdit index values)).2.reported? obj field
      = e.reported? obj field := by
  have hanswer : e.answer (.updateEdit index values) = _ := answer_updateEdit hsession
  by_cases hlength : values.length = session.size
  case neg =>
    have hmismatch : Call.updateEdit (Reentry.ofDepth nestingLimit) session values e
        = (.error (.failed (.mismatch (.batchSize session.size values.length))), e) := by
      rw [Call.updateEdit, if_pos hlength]
      rfl
    rw [hanswer, Call.bind_of_error hmismatch]
  rcases hrun : Call.dealOut values session.solvers e with ⟨halt | u, e₁⟩
  · have hunmoved : Unmoved e e₁ := by
      refine Call.unmoved_of_dealOut_error h.sound (fun share rest hshares ↦ ?_) hrun
      obtain ⟨first, hfirst, hrefuses⟩ | hcontains := hsafe
      · rw [hshares] at hfirst
        cases hfirst
        exact .inr hrefuses
      · have hone := hcontains.alone
        rw [hshares, List.length_cons] at hone
        exact .inl (List.eq_nil_of_length_eq_zero (by omega))
    have hrefused := Call.updateEdit_of_refused (r := Reentry.ofDepth nestingLimit) hlength
      h.atRest.deferred hrun (Call.of_dealOut_error hrun)
    rw [hanswer, Call.bind_of_error hrefused]
    have hresolves := Call.resolves_dealOut values session.solvers e
    rw [hrun] at hresolves
    dsimp only at hresolves
    have hround : Unwrapped e e₁ := .inl (by rw [hresolves.same])
    exact reported?_congr hunmoved.objects hcurrent (hunmoved.remembers hround hcurrent)
      hunmoved.value_eq obj field
  · obtain hrefuses | hcontains := hsafe
    · exact absurd (by rw [hrun]) (hrefuses.dealOut_ne_ok u)
    · have hdefinite := hcontains.definite
      rw [hrun] at hdefinite
      have hsucceeds := Call.succeeds_updateEdit (Reentry.passesOn_ofDepth nestingLimit)
        (h.serene hcurrent hhookless hcontains.unshared) hlength h.atRest.deferred hrun hdefinite
        hcontains.live
      rw [hanswer] at hfails
      rcases hupdate : Call.updateEdit (Reentry.ofDepth nestingLimit) session values e
        with ⟨halt | u, e₂⟩
      · rw [Call.bind_of_error hupdate] at hfails
        cases hfails
        obtain ⟨_, hok, -⟩ := hsucceeds.of_eq hupdate nofun
        cases hok
      · rw [Call.bind_of_ok hupdate] at hfails
        cases hfails

/-- A dataflow solver keeps two fields equal, and a session edits both. -/
def coupled : List Request := [
  .addSolver .dataflow false,
  .createObject [("x", .number 1), ("z", .number 1)],
  .always (.binary .eq (Expr.fieldOf 0 "x") (Expr.fieldOf 0 "z")) {},
  .openEdit ⟨0⟩ ["x", "z"]]

theorem reachable_coupled : Reachable {} ((new {}).run coupled) := by
  refine (Reachable.new rfl).run ?_ (by decide +kernel)
  simp only [coupled, Admissible, List.forall_mem_cons]
  exact ⟨.addSolver rfl, .plain rfl, .unhandled rfl, .plain rfl, List.forall_mem_nil _⟩

/-- What an update failed with. -/
def updateError? (e : Engine) (index : Option Nat) (values : List Value) : Option EngineError :=
  match (e.answer (.updateEdit index values)).1 with
  | .error (.failed err) => some err
  | _ => none

theorem updateError?_eq_some {err : EngineError} : e.updateError? index values = some err ↔
    (e.answer (.updateEdit index values)).1 = .error (.failed err) := by
  unfold updateError?
  split
  · next err' heq =>
    rw [heq]
    simp
  · next hother =>
    exact ⟨nofun, fun h ↦ absurd h (hother err)⟩

/-- Two values that are not equal are refused, and the fields keep theirs. -/
theorem update_atomic_coupled : ∃ err,
    (((new {}).run coupled).answer (.updateEdit none [.number 1, .number 2])).1 = .error (.failed err) ∧
      (((new {}).run coupled).answer (.updateEdit none [.number 1, .number 2])).2.reported? ⟨0⟩ "z"
        = some (.number 1) := by
  have hcontains : (((new {}).run coupled).session? none).any (fun session ↦
      decide (((new {}).run coupled).Contains session [.number 1, .number 2] [⟨0⟩, ⟨1⟩])) = true := by
    decide +kernel
  have hfails : (((new {}).run coupled).updateError? none [.number 1, .number 2]).isSome = true := by
    decide +kernel
  obtain ⟨session, hsession, hcontains⟩ := (Option.any_eq_true ..).1 hcontains
  obtain ⟨err, herr⟩ := Option.isSome_iff_exists.1 hfails
  refine ⟨err, updateError?_eq_some.1 herr, ?_⟩
  rw [reachable_coupled.update_atomic (by decide +kernel) (hookless_of_live (by decide +kernel)) hsession
    (.inr (of_decide_eq_true hcontains)) (updateError?_eq_some.1 herr)]
  decide +kernel

/-- Two dataflow solvers keep two fields equal each, and a session edits fields of both. -/
def spanning : List Request := [
  .addSolver .dataflow false,
  .addSolver .dataflow false,
  .createObject [("x", .number 1), ("z", .number 1), ("y", .number 2), ("w", .number 2)],
  .always (.binary .eq (Expr.fieldOf 0 "x") (Expr.fieldOf 0 "z")) { solver := some ⟨0⟩ },
  .always (.binary .eq (Expr.fieldOf 0 "y") (Expr.fieldOf 0 "w")) { solver := some ⟨1⟩ },
  .openEdit ⟨0⟩ ["x", "y", "w"]]

/-- The second solver refuses its share of a batch, and the first one keeps what it made of its own. -/
theorem exists_moved_of_update_fails : Reachable {} ((new {}).run spanning) ∧
    (((new {}).run spanning).updateError? none [.number 5, .number 3, .number 4]).isSome = true ∧
    ((new {}).run spanning).reported? ⟨0⟩ "x" = some (.number 1) ∧
    (((new {}).run spanning).answer (.updateEdit none [.number 5, .number 3, .number 4])).2.reported?
      ⟨0⟩ "x" = some (.number 5) := by
  refine ⟨(Reachable.new rfl).run ?_ (by decide +kernel), by decide +kernel, by decide +kernel,
    by decide +kernel⟩
  simp only [spanning, Admissible, List.forall_mem_cons]
  exact ⟨.addSolver rfl, .addSolver rfl, .plain rfl, .unhandled rfl, .unhandled rfl, .plain rfl,
    List.forall_mem_nil _⟩

end Engine

end LiveConstraints
