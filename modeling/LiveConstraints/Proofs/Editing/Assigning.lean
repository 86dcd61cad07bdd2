import LiveConstraints.Proofs.Editing.Sessions
/-!
# What an update assigns

A solver assigns its share of a batch to the variables of its open edit (`Engine.assignments`). Where these
are the variables that the session has for its fields (`Engine.Owns`), each field of the session gets its
own value of the batch and no other field gets any (`Engine.mem_assignments`), and after the update the
fields report what they got (`Engine.Reachable.assigned_of_update`).

A solver has one open edit, though, that of the session that was opened last. An update of another session
then assigns its values to fields of that one (`Engine.exists_misassigned`).
-/

namespace LiveConstraints

open Engine

variable {e e' : Engine} {x : VarId} {v : Variable} {s : SolverId} {h : ExtVar} {xs : List VarId}
  {fields : List (VarId × List (SolverId × ExtVar))} {values : List Value} {u : Value} {i : Nat}
  {positions : List Nat}

/-- The variables of the open edit of a solver. -/
def Solver.edited? (s : Solver) : Option (List ExtVar) :=
  match s.algorithm with
  | .dataflow d => d.editing
  | _ => none

/-- A dataflow solver that took a batch has an open edit, and its variables hold the batch. -/
theorem Solver.of_resolveBatch {solver : Solver} {d : Dataflow} (halgorithm : solver.algorithm = .dataflow d)
    (hok : (solver.resolveBatch values).1 = .ok ()) : ∃ hs, solver.edited? = some hs ∧
      (hs.Nodup → (h, u) ∈ hs.zip values → (solver.held? h).isSome = true →
        (solver.resolveBatch values).2.value h = u) := by
  obtain ⟨name, innerName, weight, algorithm⟩ := solver
  cases halgorithm
  have htaken : (d.resolveBatch innerName values).1 = .ok () := hok
  obtain ⟨hs, hediting, -, hholds⟩ := Dataflow.of_resolveBatch htaken
  refine ⟨hs, hediting, fun hnodup hmem hheld ↦ hholds hnodup h u hmem ?_⟩
  have hslot : ((d.model.slots.get? h).map Slot.value).isSome = true := hheld
  rwa [Option.isSome_map] at hslot

/-- A reference solver that took a batch has an open edit. -/
theorem Solver.isSome_edited? {solver : Solver} (href : solver.IsReference)
    (hok : (solver.resolveBatch values).1 = .ok ()) : solver.edited?.isSome = true := by
  obtain ⟨name, innerName, weight, algorithm⟩ := solver
  cases algorithm with
  | dataflow d =>
    have htaken : (d.resolveBatch innerName values).1 = .ok () := hok
    obtain ⟨hs, hediting, -⟩ := Dataflow.of_resolveBatch htaken
    exact Option.isSome_iff_exists.2 ⟨hs, hediting⟩
  | relaxation r => cases hok
  | domainSearch d => cases hok
  | keepsRejected r | stub b | custom b => exact href.elim

/-! ### Positions -/

/-- Pairs from two selections of the same positions. -/
theorem mem_zip_filterMap {α β : Type} {f : Nat → Option α} {g : Nat → Option β} {a : α} {b : β}
    {l : List Nat} (h : ∀ i ∈ l, (f i).isSome = true ∧ (g i).isSome = true) :
    (a, b) ∈ (l.filterMap f).zip (l.filterMap g) ↔ ∃ i ∈ l, f i = some a ∧ g i = some b := by
  induction l with
  | nil => simp
  | cons i l ih =>
    obtain ⟨hf, hg⟩ := h i List.mem_cons_self
    obtain ⟨a', ha⟩ := Option.isSome_iff_exists.1 hf
    obtain ⟨b', hb⟩ := Option.isSome_iff_exists.1 hg
    rw [List.filterMap_cons_some ha, List.filterMap_cons_some hb, List.zip_cons_cons, List.mem_cons,
      ih fun j hj ↦ h j (List.mem_cons_of_mem i hj), List.exists_mem_cons_iff, ha, hb, Prod.mk.injEq,
      Option.some.injEq, Option.some.injEq, eq_comm (a := a), eq_comm (a := b)]

namespace EditSession

/-- What a session hands to a solver pairs the handles of its fields with their values, if each field has
one handle. -/
theorem mem_zip_share (hsole : ∀ field ∈ fields, ∃ b, field.2 = [b])
    (hlength : values.length = fields.length) (hmem : (s, positions) ∈ (ofFields fields).solvers) :
    (h, u) ∈ ((ofFields fields).handlesAt s positions).zip (Call.valuesAt values positions) ↔
      ∃ i ∈ positions, ∃ x, fields[i]? = some (x, [(s, h)]) ∧ values[i]? = some u := by
  have hposition : ∀ i ∈ positions, ∃ x h, fields[i]? = some (x, [(s, h)]) := by
    intro i hi
    obtain ⟨x, handles, h, hfield, hh⟩ := (mem_of_mem_solvers hmem).1 hi
    obtain ⟨b, rfl⟩ := hsole _ (List.mem_of_getElem? hfield)
    obtain rfl := List.mem_singleton.1 hh
    exact ⟨x, h, hfield⟩
  have hlookup : ∀ i ∈ positions, ∀ h, ((fields[i]?).bind fun field ↦ field.2.lookup s) = some h ↔
      ∃ x, fields[i]? = some (x, [(s, h)]) := by
    intro i hi h
    obtain ⟨x, h', hfield⟩ := hposition i hi
    rw [hfield, Option.bind_some]
    dsimp only
    rw [List.lookup_cons_self]
    simp
  rw [handlesAt, Call.valuesAt, mem_zip_filterMap fun i hi ↦ ?_]
  · refine exists_congr fun i ↦ and_congr_right fun hi ↦ ?_
    exact (and_congr_left' (hlookup i hi h)).trans exists_and_right.symm
  · obtain ⟨x, h', hfield⟩ := hposition i hi
    obtain ⟨hi', -⟩ := List.getElem?_eq_some_iff.1 hfield
    exact ⟨Option.isSome_iff_exists.2 ⟨h', (hlookup i hi h').2 ⟨x, hfield⟩⟩,
      by rw [List.getElem?_eq_getElem (hlength ▸ hi')]; rfl⟩

end EditSession

namespace Engine

/-! ### Fields -/

/-- A field of a session still has the handles that it had, and an enabled constraint. -/
def Sustains (e : Engine) (field : VarId × List (SolverId × ExtVar)) : Prop :=
  ∃ v, e.vars.get? field.1 = some v ∧ v.handles = field.2 ∧ field.2 ≠ [] ∧
    ∃ id ∈ v.constraints.members, ∃ c, e.constraints.get? id = some c ∧ c.enabled = true

instance (field : VarId × List (SolverId × ExtVar)) : Decidable (e.Sustains field) :=
  decidable_of_iff ((e.vars.get? field.1).any (fun v ↦ v.handles = field.2 ∧ field.2 ≠ [] ∧
    (v.constraints.members.any fun id ↦ (e.constraints.get? id).any Constraint.enabled) = true) = true) <| by
      simp only [Sustains, Option.any_eq_true, decide_eq_true_eq, List.any_eq_true]

/-- A variable with an enabled constraint is defined by its solver, where no variable is shared. -/
theorem definition_of_sustains (hu : e.Unshared xs) (outside : e.guards.current = none) (hx : x ∈ xs)
    {handles : List (SolverId × ExtVar)} (hsustains : e.Sustains (x, handles)) :
    ∃ d, handles = [(d.solver, d.handle)] ∧ e.definition x = some d := by
  obtain ⟨v, hv, rfl, hne, id, hid, c, hc, hon⟩ := hsustains
  obtain ⟨⟨s, h⟩, hb⟩ := List.exists_mem_of_ne_nil _ hne
  have hsolver : c.solver = s := (hu.served x hx v hv _ hb id hid c hc).solver
  obtain ⟨solver, -, hregistered, -⟩ := hu.dataflow x hx v hv _ hb
  have henabled : (e.enabledConstraint? v s).isSome = true := by
    refine List.find?_isSome.2 ⟨id, hid, ?_⟩
    simp [enabledFor, hc, hon, hsolver]
  refine ⟨⟨s, e.enabledConstraint? v s, h⟩, hu.sole x hx v hv _ hb, ?_⟩
  have hsearch : e.searchDefining v = some ⟨s, e.enabledConstraint? v s, h⟩ := by
    rw [searchDefining, hu.sole x hx v hv _ hb]
    simp only [List.filterMap_cons, List.filterMap_nil, definingCandidate?_of_enabled hregistered henabled]
    rfl
  rw [definition, hv, Option.bind_some, soughtDefining, currentDefining?, outside]
  exact hsearch

/-! ### Assignments -/

/-- What the solvers of a session are set to when a batch is dealt out. -/
def assignments (e : Engine) (session : EditSession) (values : List Value) :
    List ((SolverId × ExtVar) × Value) :=
  session.solvers.flatMap fun (s, positions) ↦
    (((e.solvers.get? s).bind Solver.edited?).getD []).zip (Call.valuesAt values positions) |>.map
      fun (h, u) ↦ ((s, h), u)

/-- The open edits of the solvers of a session are its own. -/
def Owns (e : Engine) (session : EditSession) : Prop :=
  ∀ share ∈ session.solvers, ∀ hs, (e.solvers.get? share.1).bind Solver.edited? = some hs →
    hs = session.handlesAt share.1 share.2

instance (session : EditSession) : Decidable (e.Owns session) :=
  decidable_of_iff (∀ share ∈ session.solvers, ∀ hs ∈ (e.solvers.get? share.1).bind Solver.edited?,
    hs = session.handlesAt share.1 share.2) Iff.rfl

/-- **Each field of a session gets its own value**, and nothing else gets any. -/
theorem mem_assignments (howns : e.Owns (.ofFields fields))
    (hopen : ∀ share ∈ (EditSession.ofFields fields).solvers,
      ((e.solvers.get? share.1).bind Solver.edited?).isSome = true)
    (hsole : ∀ field ∈ fields, ∃ b, field.2 = [b]) (hlength : values.length = fields.length) :
    ((s, h), u) ∈ e.assignments (.ofFields fields) values ↔
      ∃ (i : Nat) (x : VarId), fields[i]? = some (x, [(s, h)]) ∧ values[i]? = some u := by
  have hshare : ∀ s positions, (s, positions) ∈ (EditSession.ofFields fields).solvers →
      ((e.solvers.get? s).bind Solver.edited?).getD []
        = (EditSession.ofFields fields).handlesAt s positions := by
    intro s positions hmem
    obtain ⟨hs, hedited⟩ := Option.isSome_iff_exists.1 (hopen _ hmem)
    rw [hedited, ← howns _ hmem hs hedited]
    rfl
  unfold assignments
  constructor
  · intro hassigned
    obtain ⟨⟨t, positions⟩, hmem, hassigned⟩ := List.mem_flatMap.1 hassigned
    obtain ⟨⟨h', u'⟩, hpair, heq⟩ := List.mem_map.1 hassigned
    cases heq
    rw [hshare _ _ hmem] at hpair
    obtain ⟨i, -, x, hfield, hvalue⟩ := (EditSession.mem_zip_share hsole hlength hmem).1 hpair
    exact ⟨i, x, hfield, hvalue⟩
  · rintro ⟨i, x, hfield, hvalue⟩
    obtain ⟨positions, hmem, hi⟩ :=
      EditSession.exists_mem_solvers hfield (List.mem_singleton_self (s, h))
    refine List.mem_flatMap.2 ⟨(s, positions), hmem, List.mem_map.2 ⟨(h, u), ?_, rfl⟩⟩
    rw [hshare _ _ hmem]
    exact (EditSession.mem_zip_share hsole hlength hmem).2 ⟨i, hi, x, hfield, hvalue⟩

/-- The handles that a solver has for fields of a session are distinct, if the fields are. -/
theorem nodup_handlesAt (hs : e.Sound) (hdistinct : (fields.map Prod.fst).Nodup)
    (hsole : ∀ field ∈ fields, ∃ b, field.2 = [b]) (hsustains : ∀ field ∈ fields, e.Sustains field)
    (hmem : (s, positions) ∈ (EditSession.ofFields fields).solvers) :
    ((EditSession.ofFields fields).handlesAt s positions).Nodup := by
  have hpositions : positions.Nodup := EditSession.nodup_of_mem_solvers (fun field hfield ↦ by
    obtain ⟨b, hb⟩ := hsole field hfield
    rw [hb, List.length_singleton]) hmem
  have hbound : ∀ {i : Nat} {h : ExtVar},
      ((fields[i]?).bind fun field ↦ field.2.lookup s) = some h →
        ∃ x, (fields.map Prod.fst)[i]? = some x ∧ e.Bound x s h := by
    intro i h hi
    obtain ⟨⟨x, handles⟩, hfield, hlookup⟩ := Option.bind_eq_some_iff.1 hi
    obtain ⟨v, hv, rfl, -⟩ := hsustains _ (List.mem_of_getElem? hfield)
    obtain ⟨l₁, l₂, heq, -⟩ := List.lookup_eq_some_iff.1 hlookup
    have hhandle : (s, h) ∈ (x, v.handles).2 := heq ▸ List.mem_append_right _ List.mem_cons_self
    refine ⟨x, ?_, v, hv, Variable.handle?_of_mem (hs.ordered x v hv) hhandle⟩
    rw [List.getElem?_map, hfield, Option.map_some]
  refine List.pairwise_filterMap.2 (hpositions.imp fun {i j} hne h hih h' hjh heq ↦ hne ?_)
  subst heq
  obtain ⟨x, hx, hboundx⟩ := hbound hih
  obtain ⟨y, hy, hboundy⟩ := hbound hjh
  obtain rfl := hs.injective x y s h hboundx hboundy
  exact (List.getElem?_inj (List.getElem?_eq_some_iff.1 hx).1 hdistinct).1 (hx.trans hy.symm)

/-! ### Updates -/

section

variable {session : EditSession} {index : Option Nat} {config : Setup}

/-- An update that succeeds has dealt the batch out. -/
theorem dealOut_of_update_ok (deferred : e.deferred = []) (hsession : e.session? index = some session)
    (hok : (e.answer (.updateEdit index values)).1.isOk = true) :
    values.length = session.size ∧
      ∃ e₁, Call.dealOut values session.solvers e = (.ok ⟨⟩, e₁) := by
  rw [answer_updateEdit hsession] at hok
  by_cases hlength : values.length = session.size
  case neg =>
    have hmismatch : Call.updateEdit (Reentry.ofDepth nestingLimit) session values e
        = (.error (.failed (.mismatch (.batchSize session.size values.length))), e) := by
      rw [Call.updateEdit, if_pos hlength]
      rfl
    rw [Call.bind_of_error hmismatch] at hok
    cases hok
  refine ⟨hlength, ?_⟩
  rcases hrun : Call.dealOut values session.solvers e with ⟨halt | u, e₁⟩
  · have hrefused := Call.updateEdit_of_refused (r := Reentry.ofDepth nestingLimit) hlength deferred hrun
      (Call.of_dealOut_error hrun)
    rw [Call.bind_of_error hrefused] at hok
    cases hok
  · exact ⟨e₁, rfl⟩

/-- A solver that took its share of a batch holds the values at the handles of the fields. -/
theorem value_of_dealOut (hs : e.Sound) (hunshared : e.Unshared xs)
    (hdistinct : (fields.map Prod.fst).Nodup)
    (hsustains : ∀ field ∈ fields, field.1 ∈ xs ∧ e.Sustains field)
    (hsole : ∀ field ∈ fields, ∃ b, field.2 = [b]) (howns : e.Owns (.ofFields fields))
    (hlength : values.length = fields.length)
    (hrun : Call.dealOut values (EditSession.ofFields fields).solvers e = (.ok ⟨⟩, e'))
    (hfield : fields[i]? = some (x, [(s, h)])) (hvalue : values[i]? = some u) :
    ∃ solver, e'.solvers.get? s = some solver ∧ solver.value h = u := by
  obtain ⟨positions, hmem, hi⟩ := EditSession.exists_mem_solvers hfield (List.mem_singleton_self (s, h))
  obtain ⟨-, htaken⟩ := Call.of_dealOut_ok (EditSession.dealt_ofFields fields).nodup hrun
  obtain ⟨solver, hsolver, hok, hsolver'⟩ := htaken _ hmem
  obtain ⟨hx, v, hv, hhandles, -, -⟩ := hsustains _ (List.mem_of_getElem? hfield)
  have hhandle : (s, h) ∈ v.handles := hhandles ▸ List.mem_singleton_self _
  obtain ⟨solver₁, d, hsolver₁, halgorithm⟩ := hunshared.dataflow x hx v hv _ hhandle
  obtain rfl : solver₁ = solver := Option.some.inj (hsolver₁.symm.trans hsolver)
  obtain ⟨hs', hedited, hholds⟩ := Solver.of_resolveBatch (h := h) (u := u) halgorithm hok
  obtain rfl : hs' = (EditSession.ofFields fields).handlesAt s positions :=
    howns _ hmem hs' (by rw [hsolver, Option.bind_some, hedited])
  refine ⟨_, hsolver', hholds ?_ ?_ ?_⟩
  · exact nodup_handlesAt hs hdistinct hsole (fun field hfield ↦ (hsustains field hfield).2) hmem
  · exact (EditSession.mem_zip_share hsole hlength hmem).2 ⟨i, hi, x, hfield, hvalue⟩
  · have hheld := hs.bound x s h ⟨v, hv, Variable.handle?_of_mem (hs.ordered x v hv) hhandle⟩
    rwa [held?, hsolver, Option.bind_some] at hheld

/-- **Each field gets its own value**, if the open edits of the solvers are those of the session. An update
that succeeds sets the handles of the session's fields, each to the value of its field, and nothing else,
and afterwards the fields report these values. -/
theorem Reachable.assigned_of_update (h : Reachable config e) (hcurrent : e.Current)
    (hhookless : e.Hookless) (hunshared : e.Unshared xs)
    (hsession : e.session? index = some (.ofFields fields))
    (hdistinct : (fields.map Prod.fst).Nodup)
    (hsustains : ∀ field ∈ fields, field.1 ∈ xs ∧ e.Sustains field)
    (howns : e.Owns (.ofFields fields))
    (hdefinite : (Call.dealOut values (EditSession.ofFields fields).solvers e).2.Definite xs)
    (hok : (e.answer (.updateEdit index values)).1.isOk = true) :
    (∀ s h u, ((s, h), u) ∈ e.assignments (.ofFields fields) values ↔
      ∃ (i : Nat) (x : VarId), fields[i]? = some (x, [(s, h)]) ∧ values[i]? = some u) ∧
    ∀ (i : Nat) x handles u, fields[i]? = some (x, handles) → values[i]? = some u →
      ∀ obj field, (e.answer (.updateEdit index values)).2.variableOf? obj field = some x →
        (e.answer (.updateEdit index values)).2.reported? obj field = some u := by
  have hserene := h.serene hcurrent hhookless hunshared
  have hdefined : ∀ field ∈ fields, ∃ d, field.2 = [(d.solver, d.handle)] ∧ e.definition field.1 = some d :=
    fun field hfield ↦
      definition_of_sustains hunshared hserene.outside (hsustains field hfield).1 (hsustains field hfield).2
  have hsole : ∀ field ∈ fields, ∃ b, field.2 = [b] := fun field hfield ↦ by
    obtain ⟨d, hd, -⟩ := hdefined field hfield
    exact ⟨_, hd⟩
  obtain ⟨hlength, e₁, hrun⟩ := dealOut_of_update_ok h.atRest.deferred hsession hok
  rw [hrun] at hdefinite
  obtain ⟨-, htaken⟩ := Call.of_dealOut_ok (EditSession.dealt_ofFields fields).nodup hrun
  refine ⟨fun s h' u ↦ mem_assignments howns (fun share hshare ↦ ?_) hsole hlength, ?_⟩
  · obtain ⟨solver, hsolver, htook, -⟩ := htaken share hshare
    rw [hsolver, Option.bind_some]
    exact Solver.isSome_edited? (h.sound.trusted _ _ hsolver).reference htook
  intro i x handles u hfield hvalue obj name hslot
  obtain ⟨d, rfl, hd⟩ := hdefined _ (List.mem_of_getElem? hfield)
  obtain ⟨solver, hsolver, hheld⟩ := value_of_dealOut h.sound hunshared hdistinct hsustains hsole howns
    hlength hrun hfield hvalue
  have hresolves : Resolves e e₁ := by
    have hresolves := Call.resolves_dealOut values (EditSession.ofFields fields).solvers e
    rwa [hrun] at hresolves
  -- what the solver holds is what the variable reads as after the batch was dealt out
  have hread : e₁.value x = u := by
    have hp₁ : e₁.Placid xs := ⟨hresolves.serene hserene, hdefinite⟩
    obtain ⟨v, solver', flow, hspeaks⟩ := hp₁.speaks (hsustains _ (List.mem_of_getElem? hfield)).1
      (hresolves.definition_eq ▸ hd)
    obtain rfl : solver = solver' := Option.some.inj (hsolver.symm.trans hspeaks.registered)
    exact hspeaks.value.symm.trans hheld
  have hsucceeds := Call.succeeds_updateEdit (Reentry.passesOn_ofDepth nestingLimit) hserene hlength
    h.atRest.deferred hrun hdefinite fun field hfield ↦ by
      obtain ⟨hx, v, hv, -⟩ := hsustains field hfield
      exact ⟨hx, v, hv⟩
  rw [answer_updateEdit hsession] at hok hslot ⊢
  rcases hupdate : Call.updateEdit (Reentry.ofDepth nestingLimit) (.ofFields fields) values e
    with ⟨halt | _, e₂⟩
  · rw [Call.bind_of_error hupdate] at hok
    cases hok
  · obtain ⟨_, -, hcalm, hp₂⟩ := hsucceeds.of_eq hupdate nofun
    rw [Call.bind_of_ok hupdate] at hslot ⊢
    rw [reported?_of_intercepted hslot]
    exact congrArg some ((hp₂.read_eq x).trans ((congrFun hcalm.value_eq x).trans hread))

end

/-- Two dataflow solvers keep two fields equal each, and a session is open over a field of each. -/
def parallel : List Request := [
  .addSolver .dataflow false,
  .addSolver .dataflow false,
  .createObject [("x", .number 1), ("z", .number 1), ("y", .number 2), ("w", .number 2)],
  .always (.binary .eq (Expr.fieldOf 0 "x") (Expr.fieldOf 0 "z")) { solver := some ⟨0⟩ },
  .always (.binary .eq (Expr.fieldOf 0 "y") (Expr.fieldOf 0 "w")) { solver := some ⟨1⟩ },
  .openEdit ⟨0⟩ ["x"],
  .openEdit ⟨0⟩ ["y"]]

/-- An update of the session that was opened first writes its own field. -/
theorem assigned_of_update_parallel :
    (((new {}).run parallel).answer (.updateEdit (some 0) [.number 5])).2.reported? ⟨0⟩ "x"
      = some (.number 5) := by
  have hreachable : Reachable {} ((new {}).run parallel) := by
    refine (Reachable.new rfl).run ?_ (by decide +kernel)
    simp only [parallel, Admissible, List.forall_mem_cons]
    exact ⟨.addSolver rfl, .addSolver rfl, .plain rfl, .unhandled rfl, .unhandled rfl, .plain rfl,
      .plain rfl, List.forall_mem_nil _⟩
  have hsession : (((new {}).run parallel).session? (some 0)).any (fun session ↦
      session.fields = [(⟨0⟩, [(⟨0⟩, ⟨0⟩)])] ∧ session.solvers = [(⟨0⟩, [0])]) = true := by
    decide +kernel
  obtain ⟨⟨fields, solvers⟩, hsession, heq⟩ := (Option.any_eq_true ..).1 hsession
  obtain ⟨rfl, rfl⟩ : fields = _ ∧ solvers = _ := of_decide_eq_true heq
  have hunshared : ((new {}).run parallel).Unshared [⟨0⟩, ⟨1⟩] := by decide +kernel
  have hok : (((new {}).run parallel).answer (.updateEdit (some 0) [.number 5])).1.isOk = true := by
    decide +kernel
  obtain ⟨-, hreported⟩ := hreachable.assigned_of_update (by decide +kernel)
    (hookless_of_live (by decide +kernel)) hunshared hsession (by decide +kernel) (by decide +kernel)
    (by decide +kernel) (by decide +kernel) hok
  exact hreported 0 ⟨0⟩ _ _ rfl rfl ⟨0⟩ "x" (by decide +kernel)

/-- One dataflow solver keeps two pairs of fields equal, and two sessions are open. -/
def interleaved : List Request := [
  .addSolver .dataflow false,
  .createObject [("x", .number 1), ("y", .number 2), ("z", .number 3), ("w", .number 4)],
  .always (.binary .eq (Expr.fieldOf 0 "x") (Expr.fieldOf 0 "z")) {},
  .always (.binary .eq (Expr.fieldOf 0 "y") (Expr.fieldOf 0 "w")) {},
  .openEdit ⟨0⟩ ["x"],
  .openEdit ⟨0⟩ ["y"]]

/-- An update of the session that was opened first writes the field of the other. -/
theorem exists_misassigned : Reachable {} ((new {}).run interleaved) ∧
    (((new {}).run interleaved).answer (.updateEdit (some 0) [.number 5])).1.isOk = true ∧
    (((new {}).run interleaved).answer (.updateEdit (some 0) [.number 5])).2.reported? ⟨0⟩ "x"
      ≠ some (.number 5) ∧
    (((new {}).run interleaved).answer (.updateEdit (some 0) [.number 5])).2.reported? ⟨0⟩ "y"
      = some (.number 5) := by
  refine ⟨(Reachable.new rfl).run ?_ (by decide +kernel), by decide +kernel, by decide +kernel,
    by decide +kernel⟩
  simp only [interleaved, Admissible, List.forall_mem_cons]
  exact ⟨.addSolver rfl, .plain rfl, .unhandled rfl, .unhandled rfl, .plain rfl, .plain rfl,
    List.forall_mem_nil _⟩

end Engine

end LiveConstraints
