import LiveConstraints.Proofs.Outermost
import LiveConstraints.Proofs.Reactions
/-!
# Every request keeps the invariant

The ways back of depth `n + 1` are lawful if those of depth `n` are, and at depth zero every way back
is interrupted. So all of them are, and every request that is answered keeps the invariant.
-/

namespace LiveConstraints

open Engine

variable {e e' : Engine} {r : Reentry} {id : ConstraintId} {s : SolverId} {x : VarId}

/-! ### Objects and fields -/

theorem Engine.variableOf?_eq_some {obj : ObjectId} {field : String} {x : VarId} :
    e.variableOf? obj field = some x ↔ e.slot? obj field = .ok (.intercepted x) := by
  unfold variableOf?
  split
  · next y heq => rw [heq]; simp
  · next hother =>
    refine ⟨nofun, fun h ↦ ?_⟩
    exact absurd h (hother x)

namespace Call

/-- A field that exists is found. -/
theorem slotOrCreate_of_slot {obj : ObjectId} {field : String} {slot : FieldSlot}
    (hslot : e.slot? obj field = .ok slot) : slotOrCreate obj field e = (.ok slot, e) := by
  have hlookup := objectAt_eq obj e
  unfold slot? at hslot
  unfold slotOrCreate
  cases hobject : e.objects.get? obj with
  | none =>
    rw [hobject] at hslot
    cases hslot
  | some o =>
    rw [hobject] at hlookup hslot
    rw [bind_of_ok hlookup]
    dsimp only at hslot
    cases hfound : o.fields.find? field with
    | none =>
      rw [hfound] at hslot
      cases hslot
    | some found =>
      rw [hfound] at hslot
      cases hslot
      rfl

theorem withSession_of_some {index : Option Nat} {session : EditSession} {f : EditSession → Call Answer}
    (h : e.session? index = some session) : withSession index f e = f session e := by
  rw [withSession, get_run, h]

theorem withSession_of_none {index : Option Nat} {f : EditSession → Call Answer}
    (h : e.session? index = none) : withSession index f e = (.ok .noSession, e) := by
  rw [withSession, get_run, h]
  rfl

theorem writeField_of_intercepted {obj : ObjectId} {field : String}
    (hx : e.variableOf? obj field = some x) (v : Value) :
    writeField r obj field v e = topLevel r (suggest r x v .source false) e :=
  bind_of_ok (slotOrCreate_of_slot (variableOf?_eq_some.1 hx))

theorem modifies_createObject (fields : List (String × Value)) :
    Within Modifies e (createObject fields) := by
  refine .get_bind (.modify_bind (modifies_of_move (.objects _ fun h ↦ ?_) rfl rfl rfl) (.pure _))
  refine ⟨h.evaluator, fun obj o field hook ho hhook ↦ ?_, h.options, h.deferred, h.pending⟩
  obtain ⟨-, rfl⟩ | ⟨-, ho⟩ := Arena.of_get?_insert ho
  · cases hhook
  · exact h.hooks obj o field hook ho hhook

theorem modifies_slotOrCreate (obj : ObjectId) (field : String) :
    Within Modifies e (slotOrCreate obj field) := by
  refine .objectAt_bind fun o _ ↦ ?_
  split
  · exact .pure _
  · exact (modifies_setSlot obj field _).bind fun _ _ _ _ ↦ .pure _

theorem settles_writeField (hr : r.Lawful) (hs : e.Sound) (obj : ObjectId) (field : String)
    (v : Value) : Within Settles e (writeField r obj field v) := by
  refine (modifies_slotOrCreate obj field).bind_of (fun _ ↦ Modifies.settles) fun slot e₁ _ h₁ ↦ ?_
  cases slot with
  | plain _ =>
    exact ((modifies_setSlot obj field _).mono fun _ ↦ Modifies.settles).bind fun _ _ _ _ ↦ .pure _
  | intercepted x =>
    exact settles_topLevel hr (fun hs₂ ↦ evolves_suggest hr hs₂ x v _ _) (h₁.sound hs)

theorem modifies_onWrite (obj : ObjectId) (field : String) {hook : Hook}
    (hook_admissible : Admissible hook) : Within Modifies e (onWrite obj field hook) := by
  refine .objectAt_bind fun _ _ _ ↦ modifies_of_move (.objects _ fun h ↦ ?_) rfl rfl rfl
  refine ⟨h.evaluator, fun obj' o field' hook' ho hhook ↦ ?_, h.options, h.deferred, h.pending⟩
  dsimp only at ho
  rw [Arena.get?_modify] at ho
  split at ho
  · obtain ⟨o₀, ho₀, rfl⟩ := Option.map_eq_some_iff.1 ho
    rw [SortedMap.find?_insert] at hhook
    split at hhook
    · cases hhook
      exact hook_admissible
    · exact h.hooks obj' o₀ field' hook' ho₀ hhook
  · exact h.hooks obj' o field' hook' ho hhook

theorem reads_definingOf {R : Engine → Engine → Prop} [Reads R] (obj : ObjectId)
    (field : String) : Within R e (definingOf obj field) := by
  refine .get_bind ?_
  split
  · exact .pure _
  · exact .lift_bind (Reads.defining _) fun _ _ _ _ ↦ .get_bind (.pure _)

theorem recalls_definingOf (obj : ObjectId) (field : String) :
    Within Recalls e (definingOf obj field) := reads_definingOf obj field

/-! ### Edit sessions -/

theorem within_editable {R : Engine → Engine → Prop} [IsPreorder Engine R] (obj : ObjectId)
    (field : String) : Within R e (editable obj field) := by
  refine .get_bind ?_
  split
  · exact .fail _
  · refine .variableAt_bind fun v _ ↦ ?_
    dsimp only
    split
    · exact .fail_bind
    · split
      · exact .fail_bind
      · refine Within.bind (.forIn fun b _ _ _ _ ↦ .solverAt_bind fun solver _ ↦ ?_)
          fun _ _ _ _ ↦ .pure _
        split
        · exact .fail_bind
        · exact .pure _

/-- Opening a session stays within whatever each solver's part in it stays within. -/
theorem within_openEdit {R : Engine → Engine → Prop} [IsPreorder Engine R]
    (hprepare : ∀ e', R e e' → ∀ s h, Within R e' (changeSolver s fun solver => solver.prepareEdit h))
    (hbegin : ∀ e', R e e' → ∀ s hs, Within R e' (askSolver s fun solver => solver.beginEdit hs))
    (hpush : ∀ e' sessions, R e e' → R e' { e' with sessions }) (obj : ObjectId)
    (fields : List String) : Within R e (openEdit obj fields) := by
  refine Within.bind (R := R) (.mapM fun field _ _ _ ↦ within_editable obj field)
    fun handles e₁ _ h₁ ↦ ?_
  refine Within.bind (.forM fun field _ e₂ h₂ ↦ .forM fun b _ e₃ h₃ ↦ ?_) fun _ e₂ _ h₂ ↦ ?_
  · exact hprepare e₃ (trans_of R h₁ (trans_of R h₂ h₃)) b.1 b.2
  have h₂ := trans_of R h₁ h₂
  refine Within.bind (.forIn fun b _ _ e₃ h₃ ↦ ?_) fun _ e₃ _ h₃ ↦
    .modify_bind (hpush e₃ _ (trans_of R h₂ h₃)) (.pure _)
  exact (hbegin e₃ (trans_of R h₂ h₃) b.1 _).bind fun _ _ _ _ ↦ .pure _

theorem modifies_openEdit (hs : e.Sound) (obj : ObjectId) (fields : List String) :
    Within Modifies e (openEdit obj fields) := by
  refine within_openEdit (fun e' h s x ↦ .of_callSolver fun solver hsolver ↦ ?_)
    (fun e' h s xs ↦ .of_askSolver fun solver hsolver ↦ ?_)
    (fun _ _ _ ↦ modifies_aside rfl rfl rfl rfl rfl rfl rfl rfl) obj fields
  · have hreference := ((h.sound hs).trusted s solver hsolver).reference
    exact Step.modifies_adopt hsolver (.inl (Solver.alike_prepareEdit hreference x))
  · have hreference := ((h.sound hs).trusted s solver hsolver).reference
    exact Step.modifies_adopt hsolver (.inl (Solver.alike_beginEdit hreference xs))

theorem evolves_applyBatch (hr : r.Lawful) (hs : e.Sound) (session : EditSession)
    (values : List Value) : Within Evolves e (applyBatch r session values) := by
  refine Within.bind (.forIn fun b _ _ e₁ h₁ ↦ ?_) fun _ e₁ _ h₁ ↦
    Within.bind (.forIn fun field _ _ e₂ h₂ ↦ ?_) fun _ _ _ _ ↦ .pure _
  · have hs₁ := h₁.sound hs
    refine Within.bind ?_ fun _ _ _ _ ↦ .pure _
    refine (Within.of_askSolver fun solver hsolver ↦ ?_).mono fun _ ↦ Modifies.evolves
    have hruns := Solver.runs_resolveBatch (hs₁.trusted _ solver hsolver)
    exact Step.modifies_adopt hsolver ((hruns _).imp And.right And.right)
  · have hs₂ := h₂.sound (h₁.sound hs)
    refine .lift_bind_of (Step.recalls_read _) (fun _ h ↦ h.modifies.evolves) fun v e₃ _ h₃ ↦ ?_
    exact (hr.suggest (h₃.modifies.sound hs₂) _ v _ _).bind fun _ _ _ _ ↦ .pure _

theorem settles_updateEdit (hr : r.Lawful) (hs : e.Sound) (session : EditSession)
    (values : List Value) : Within Settles e (updateEdit r session values) := by
  unfold updateEdit
  split
  · exact .fail_bind
  · exact settles_topLevel hr (fun hs₁ ↦ evolves_applyBatch hr hs₁ session values) hs

theorem within_closeIn {R : Engine → Engine → Prop} [IsPreorder Engine R]
    (hend : ∀ e', R e e' → ∀ s, Within R e' (askSolver s Solver.endEdit)) (solvers : List SolverId) :
    Within R e (closeIn solvers) := by
  induction solvers generalizing e with
  | nil => exact .pure _
  | cons s rest ih =>
    refine (hend e (refl_of R e) s).attempt.bind fun result e₁ _ h₁ ↦ ?_
    refine (ih fun e' h ↦ hend e' (trans_of R h₁ h)).bind fun failures e₂ _ _ ↦ ?_
    cases result <;> exact .pure _

/-- Closing a session stays within whatever each solver's part in it stays within. -/
theorem within_finishEdit {R : Engine → Engine → Prop} [IsPreorder Engine R]
    (hrelease : ∀ e', R e e' → ∀ s h,
      Step.Within R e' (Step.modifySolver s fun solver => solver.releaseEdit h))
    (hend : ∀ e', R e e' → ∀ s, Within R e' (askSolver s Solver.endEdit)) (session : EditSession) :
    Within R e (finishEdit session) := by
  refine Within.bind (.forM fun field _ e₁ h₁ ↦ .lift (.forM fun b _ e₂ h₂ ↦ ?_))
    fun _ e₁ _ h₁ ↦ ?_
  · exact hrelease e₂ (trans_of R h₁ h₂) b.1 b.2
  refine (within_closeIn (fun e' h ↦ hend e' (trans_of R h₁ h)) _).bind fun failures e₂ _ _ ↦ ?_
  cases failures with
  | nil => exact .pure _
  | cons err _ => exact .fail _

theorem modifies_finishEdit (hs : e.Sound) (session : EditSession) :
    Within Modifies e (finishEdit session) := by
  refine within_finishEdit (fun e' h s x ↦ Step.within_modifySolver fun solver hsolver ↦ .inl ?_)
    (fun e' h s ↦ .of_askSolver fun solver hsolver ↦ ?_) session
  · exact Solver.alike_releaseEdit ((h.sound hs).trusted s solver hsolver).reference x
  · have hreference := ((h.sound hs).trusted s solver hsolver).reference
    exact Step.modifies_adopt hsolver (.inl (Solver.alike_endEdit hreference))

/-! ### Constraints -/

theorem settles_always (hr : r.Lawful) (hs : e.Sound) {options : ConstraintOptions}
    (ho : AdmissibleOptions options) (predicate : Expr) :
    Within Settles e (always r predicate options) :=
  settles_topLevel hr (fun hs₁ ↦ evolves_maintain hr hs₁ ho predicate) hs

theorem settles_once (hr : r.Lawful) (hs : e.Sound) {options : ConstraintOptions}
    (ho : AdmissibleOptions options) (predicate : Expr) :
    Within Settles e (once r predicate options) := by
  refine (settles_always hr hs ho predicate).bind fun id e₁ _ h₁ ↦ ?_
  cases id with
  | none => exact .pure _
  | some id =>
    exact .lift_bind_of (Step.disable_spec (h₁.sound hs) id) (fun _ h ↦ h.modifies.settles)
      fun _ _ _ _ ↦ .pure _

theorem modifies_attachStay (hs : e.Sound) (s : SolverId) (priority : Priority) (x : VarId) :
    Within Modifies e (attachStay s priority x) := by
  refine .get_bind ?_
  split
  · next h _ =>
    refine Within.bind (.of_callSolver fun solver hsolver ↦ ?_) fun result e₁ _ _ ↦ ?_
    · exact Step.modifies_adopt hsolver
        (.inl (Solver.alike_stay (hs.trusted s solver hsolver).reference h priority))
    · cases result with
      | ok _ => exact .pure _
      | error err => exact .get_bind (.lift (Step.within_report _))
  · exact .get_bind (.lift (Step.within_report _))

theorem settles_stay (hr : r.Lawful) (hs : e.Sound) {options : ConstraintOptions}
    (ho : AdmissibleOptions options) (predicate : Expr) :
    Within Settles e (stay r predicate options) := by
  refine settles_topLevel hr (fun hs₁ ↦ .get_bind ?_) hs
  split
  · exact .fail _
  · refine (gives_build hs₁ ho predicate _ .stay).within.bind_of (fun _ ↦ Modifies.evolves)
      fun id e₂ _ h₂ ↦ .constraintAt_bind fun c _ ↦ ?_
    refine Within.bind_of (.forM fun x _ e₃ h₃ ↦ ?_) (fun _ ↦ Modifies.evolves)
      fun _ _ _ _ ↦ .pure _
    exact modifies_attachStay (h₃.sound (h₂.sound hs₁)) _ c.priority x

theorem settles_switchOn (hr : r.Lawful) (hs : e.Sound) (id : ConstraintId) :
    Within Settles e (switchOn r id) :=
  settles_topLevel hr (fun hs₁ ↦ evolves_enable hr hs₁ id false) hs

theorem settles_setPriority (hr : r.Lawful) (hs : e.Sound) (id : ConstraintId)
    (priority : Priority) : Within Settles e (setPriority r id priority) := by
  refine .constraintAt_bind fun c _ ↦ ?_
  have hrest : ∀ {e₁ : Engine} (again : Bool), e₁.Sound → Within Settles e₁ (do
      changeConstraint id fun c => { c with priority }
      if again then switchOn r id) := by
    intro e₁ again hs₁
    have hchange : Within Modifies e₁ (changeConstraint id fun c => { c with priority }) :=
      modifies_changeConstraint fun _ ↦ .bookkeeping
    refine hchange.bind_of (fun _ ↦ Modifies.settles) fun _ e₂ _ h₂ ↦ ?_
    split
    · exact settles_switchOn hr (h₂.sound hs₁) id
    · exact .pure _
  dsimp only
  split
  · exact .lift_bind_of (Step.disable_spec hs id) (fun _ h ↦ h.modifies.settles)
      fun _ e₁ _ h₁ ↦ hrest true (h₁.modifies.sound hs)
  · exact hrest false hs

theorem modifies_setInterval (id : ConstraintId) (interval : Nat) :
    Within Modifies e (setInterval id interval) :=
  modifies_changeConstraint fun _ ↦ .bookkeeping

theorem settles_reselect (hr : r.Lawful) (hs : e.Sound) (id : ConstraintId) :
    Within Settles e (reselect r id) :=
  settles_topLevel hr (fun hs₁ ↦ evolves_reevaluate hr hs₁ id) hs

theorem modifies_setWeight (hs : e.Sound) (s : SolverId) (weight : Float) :
    Within Modifies e (setWeight s weight) := by
  refine Within.bind (.of_callSolver fun solver hsolver ↦ ?_) fun _ _ _ _ ↦ .lift Step.within_tick
  have hreference := (hs.trusted s solver hsolver).reference
  exact Step.modifies_adopt hsolver (.inl (Solver.alike_setWeight hreference weight))

/-! ### Describing -/

theorem reads_dump {R : Engine → Engine → Prop} [Reads R] : Step.Within R e Step.dump := by
  refine .get_bind (Step.Within.bind (.mapM fun b _ _ _ ↦ ?_) fun _ _ _ _ ↦ .pure _)
  exact (Reads.defining b.1).bind fun _ _ _ _ ↦ .pure _

theorem recalls_dump : Step.Within Recalls e Step.dump := reads_dump

/-! ### Answering -/

/-- **Answering.** A request that may be made keeps the invariant. -/
theorem settles_perform (hr : r.Lawful) (hs : e.Sound) {request : Request}
    (ha : request.Admissible) : Within Settles e (perform r request) := by
  cases request with
  | always predicate options =>
    cases ha with
    | plain h => cases h
    | always ho => exact (settles_always hr hs ho predicate).bind fun _ _ _ _ ↦ .pure _
  | once predicate options =>
    cases ha with
    | plain h => cases h
    | once ho => exact (settles_once hr hs ho predicate).bind fun _ _ _ _ ↦ .pure _
  | stay predicate options =>
    cases ha with
    | plain h => cases h
    | stay ho => exact (settles_stay hr hs ho predicate).bind fun _ _ _ _ ↦ .pure _
  | onWrite obj field actions =>
    cases ha with
    | plain h => cases h
    | onWrite h =>
      exact (modifies_onWrite obj field h).bind_of (fun _ ↦ Modifies.settles)
        fun _ _ _ _ ↦ .pure _
  | addSolver solver registerOnly =>
    cases ha with
    | plain h => cases h
    | addSolver h =>
      have hregister : Modifies e { e with solvers := e.solvers.insert solver } :=
        modifies_of_move (.addSolver solver h) rfl rfl rfl
      refine .get_bind ?_
      cases registerOnly with
      | true => exact .modify_bind hregister.settles (.pure _)
      | false =>
        refine .modify_bind (Modifies.settles (hregister.trans ?_)) (.pure _)
        exact modifies_aside rfl rfl rfl rfl rfl rfl rfl rfl
  | createObject fields =>
    exact (modifies_createObject fields).bind_of (fun _ ↦ Modifies.settles) fun _ _ _ _ ↦ .pure _
  | read obj field =>
    exact (recalls_readField obj field).bind_of (fun _ h ↦ h.modifies.settles)
      fun _ _ _ _ ↦ .pure _
  | write obj field v => exact (settles_writeField hr hs obj field v).bind fun _ _ _ _ ↦ .pure _
  | fieldNames obj => exact (within_fieldNames obj).bind fun _ _ _ _ ↦ .pure _
  | isConstrained obj field => exact .get_bind (.pure _)
  | enable id => exact (settles_switchOn hr hs id).bind fun _ _ _ _ ↦ .pure _
  | disable id =>
    exact .lift_bind_of (Step.disable_spec hs id) (fun _ h ↦ h.modifies.settles)
      fun _ _ _ _ ↦ .pure _
  | setPriority id priority =>
    exact (settles_setPriority hr hs id priority).bind fun _ _ _ _ ↦ .pure _
  | setInterval id interval =>
    exact (modifies_setInterval id interval).bind_of (fun _ ↦ Modifies.settles)
      fun _ _ _ _ ↦ .pure _
  | reevaluate id => exact (settles_reselect hr hs id).bind fun _ _ _ _ ↦ .pure _
  | listConstraints => exact .get_bind (.pure _)
  | describe id => exact .constraintAt_bind fun _ _ ↦ .pure _
  | unconstrain obj field =>
    exact (modifies_unconstrain obj field).bind_of (fun _ ↦ Modifies.settles)
      fun _ _ _ _ ↦ .pure _
  | unconstrainAll obj =>
    exact (modifies_unconstrainAll obj).bind_of (fun _ ↦ Modifies.settles) fun _ _ _ _ ↦ .pure _
  | setReadonly obj field on =>
    exact (modifies_setReadonly hs obj field on).bind_of (fun _ ↦ Modifies.settles)
      fun _ _ _ _ ↦ .pure _
  | defining obj field =>
    exact (recalls_definingOf obj field).bind_of (fun _ h ↦ h.modifies.settles)
      fun _ _ _ _ ↦ .pure _
  | openEdit obj fields =>
    exact (modifies_openEdit hs obj fields).bind_of (fun _ ↦ Modifies.settles) fun _ _ _ _ ↦ .pure _
  | updateEdit session values =>
    refine .get_bind ?_
    split
    · exact (settles_updateEdit hr hs _ values).bind fun _ _ _ _ ↦ .pure _
    · exact .pure _
  | finishEdit session =>
    refine .get_bind (.get_bind ?_)
    split
    · have haside : ∀ sessions, Modifies e { e with sessions } := fun sessions ↦
        modifies_aside rfl rfl rfl rfl rfl rfl rfl rfl
      refine .modify_bind (haside _).settles ?_
      exact (modifies_finishEdit ((haside _).sound hs) _).bind_of (fun _ ↦ Modifies.settles)
        fun _ _ _ _ ↦ .pure _
    · exact .pure _
  | setDefaultSolvers solvers =>
    exact .modify_bind (Modifies.settles (modifies_aside rfl rfl rfl rfl rfl rfl rfl rfl)) (.pure _)
  | setDefaultSolver solver =>
    exact .modify_bind (Modifies.settles (modifies_aside rfl rfl rfl rfl rfl rfl rfl rfl)) (.pure _)
  | setWeight s weight =>
    exact (modifies_setWeight hs s weight).bind_of (fun _ ↦ Modifies.settles) fun _ _ _ _ ↦ .pure _
  | solverByName name => exact .get_bind (.pure _)
  | stats s => exact .solverAt_bind fun _ _ ↦ .pure _
  | capabilities s => exact .solverAt_bind fun _ _ ↦ .pure _
  | inspect predicate context =>
    have hrecalls : Within Recalls e (inspect context predicate) := reads_inspect context predicate
    exact hrecalls.bind_of (fun _ h ↦ h.modifies.settles) fun _ _ _ _ ↦ .pure _
  | dump => exact .lift_bind_of recalls_dump (fun _ h ↦ h.modifies.settles) fun _ _ _ _ ↦ .pure _

end Call

/-! ### Hooks and handlers -/

/-- Each request of a reaction may be made, whatever comes of those before it. -/
def Reaction.Admissible : Reaction → Prop
  | .done => True
  | .ask request next => request.Admissible ∧ ∀ outcome e, (next outcome e).Admissible

theorem Reaction.admissible_ofList {requests : List Request} (ha : LiveConstraints.Admissible requests) :
    (ofList requests).Admissible := by
  induction requests with
  | nil => trivial
  | cons request rest ih =>
    obtain ⟨hfirst, hrest⟩ := List.forall_mem_cons.1 ha
    exact ⟨hfirst, fun _ _ ↦ ih hrest⟩

/-- Hooks and handlers whose names may be handed over make requests that may be made. -/
def Program.Admissible (program : Program) : Prop :=
  ∀ requests e, LiveConstraints.Admissible requests → (program requests e).Admissible

/-- **Making requests** of a hook or handler. -/
theorem Call.evolves_follow (hr : r.Lawful) (hs : e.Sound) {reaction : Reaction}
    (ha : reaction.Admissible) : Within Evolves e (follow r reaction) := by
  induction reaction generalizing e with
  | done => exact .pure _
  | ask request next ih =>
    refine (settles_perform hr hs ha.1).attempt.bind_of (fun _ h ↦ h.evolves) fun outcome e₁ _ h₁ ↦ ?_
    refine .lift_bind ((Step.within_record _).mono fun _ ↦ Modifies.evolves) fun _ e₂ _ h₂ ↦ ?_
    exact .get_bind (ih outcome e₂ (h₂.sound (h₁.evolves.sound hs)) (ha.2 outcome e₂))

/-! ### Tying the knot -/

theorem Reentry.lawful_exhausted : exhausted.Lawful where
  suggest _ _ _ _ _ := .tooDeep
  recalculate _ _ := .tooDeep
  act _ _ _ := .tooDeep
  act_ne_failed _ _ _ := nofun

/-- The ways back into the engine keep the invariant, whatever their depth. -/
theorem Reentry.lawful_reacting {program : Program} (hprogram : program.Admissible) (n : Nat) :
    (reacting program n).Lawful := by
  induction n with
  | zero => exact lawful_exhausted
  | succ n ih =>
    exact {
      suggest := fun hs x v origin force ↦ Call.evolves_suggest ih hs x v origin force
      recalculate := fun hs id ↦ Call.evolves_recalculate ih hs id
      act := fun {e} hs requests ha ↦ Call.evolves_follow ih hs (hprogram requests e ha)
      act_ne_failed := fun e requests err ↦ Call.unfailing_follow _ (program requests e) e err }

end LiveConstraints
