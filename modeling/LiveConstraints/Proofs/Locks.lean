import LiveConstraints.Proofs.InPlace
import LiveConstraints.Proofs.Solver
/-!
# Read-only variables of a solver

An algorithm of the library hands out its variables one after another and never hands one out again. No
call of a solver takes back the read-only flag of a variable that it handed out, or brings a variable
back that is gone (`Solver.Locks`), whatever the algorithm of the library and whatever the outcome,
except the call that is there for it. What an algorithm from outside does with its flags is not looked
at: it counts as having none. Most calls do not even touch a flag (`Solver.SameFlags`), and a suggestion
to a read-only variable puts the flag back that is lifted for it (`Solver.sameFlags_lifted`). No call
changes the weight of a solver either (`Solver.Operates`): only the engine does.
-/

namespace LiveConstraints

/-! ### Read-only flags -/

/-- The read-only flag of a variable that exists. -/
def Slots.flag? (s : Slots) (h : ExtVar) : Option Bool := (s.get? h).map Slot.readonly

/-- What a solver from outside handed out in the course of some calls. -/
def Behaviour.handedOut (b : Behaviour) : SolverHistory → List ExtVar
  | [] => []
  | .declare v label :: earlier => (b.declare earlier v label).toList ++ b.handedOut earlier
  | _ :: earlier => b.handedOut earlier

namespace Solver

/-- The read-only flag of a variable that exists, in an algorithm of the library. -/
def flag? (s : Solver) (h : ExtVar) : Option Bool :=
  s.read (fun m ↦ m.slots.flag? h) (fun b ↦ (b.cells[h.index]?).map Prod.snd) fun _ ↦ none

/-- The solver handed out a variable before. -/
def HandedOut (s : Solver) (h : ExtVar) : Prop :=
  s.read (fun m ↦ h.index < m.slots.next.index) (fun b ↦ h.index < b.cells.size)
    fun c ↦ h ∈ c.behaviour.handedOut c.history

variable {s s' s'' : Solver} {x h : ExtVar} {v : Value} {b : Bool}

/-- The flag is what the solver answers. -/
theorem isReadonly_of_flag? (hflag : s.flag? h = some b) : s.isReadonly h = b := by
  have hgetD : ∀ {o : Option Bool}, o = some b → o.getD false = b := by
    rintro _ rfl
    rfl
  obtain ⟨name, innerName, weight, algorithm⟩ := s
  cases algorithm with
  | custom c => cases hflag
  | stub c => exact hgetD hflag
  | relaxation m | keepsRejected m | dataflow m | domainSearch m => exact hgetD hflag

/-- A variable that exists was handed out. -/
theorem handedOut_of_flag? (hflag : s.flag? h = some b) : s.HandedOut h := by
  have hslots : ∀ slots : Slots, slots.flag? h = some b → h.index < slots.next.index := by
    intro slots hslots
    obtain ⟨c, hc, -⟩ := Option.map_eq_some_iff.1 hslots
    exact Arena.lt_next_of_get? hc
  obtain ⟨name, innerName, weight, algorithm⟩ := s
  cases algorithm with
  | stub b =>
    obtain ⟨cell, hcell, -⟩ := Option.map_eq_some_iff.1 hflag
    exact (Array.getElem?_eq_some_iff.1 hcell).1
  | custom c => cases hflag
  | relaxation m | keepsRejected m | dataflow m | domainSearch m => exact hslots _ hflag

/-! ### What calls do to the flags -/

/-- The same variables exist, with the same flags, and the solver is as heavy. -/
structure SameFlags (s s' : Solver) : Prop where
  flag? : s'.flag? = s.flag?
  handedOut : s'.HandedOut = s.HandedOut
  weight : s'.weight = s.weight

/-- A variable that was handed out is gone, or it was there and is read-only if it was. -/
structure Locks (s s' : Solver) : Prop where
  handedOut : ∀ {h}, s.HandedOut h → s'.HandedOut h
  flag? : ∀ {h b}, s.HandedOut h → s'.flag? h = some b →
    ∃ b', s.flag? h = some b' ∧ (b' = true → b = true)

/-- A solver may assign no more than before, and is as heavy. -/
structure Operates (s s' : Solver) : Prop extends Locks s s' where
  weight : s'.weight = s.weight

theorem SameFlags.refl (s : Solver) : SameFlags s s := ⟨rfl, rfl, rfl⟩

theorem SameFlags.trans (h : SameFlags s s') (h' : SameFlags s' s'') : SameFlags s s'' :=
  ⟨h'.flag?.trans h.flag?, h'.handedOut.trans h.handedOut, h'.weight.trans h.weight⟩

theorem SameFlags.locks (h : SameFlags s s') : Locks s s' where
  handedOut hh := by rwa [h.handedOut]
  flag? _ hflag := ⟨_, by rwa [h.flag?] at hflag, id⟩

theorem SameFlags.operates (h : SameFlags s s') : Operates s s' := ⟨h.locks, h.weight⟩

theorem Locks.refl (s : Solver) : Locks s s := (SameFlags.refl s).locks

theorem Locks.trans (h : Locks s s') (h' : Locks s' s'') : Locks s s'' where
  handedOut := h'.handedOut ∘ h.handedOut
  flag? hh hflag := by
    obtain ⟨b', hflag', hb'⟩ := h'.flag? (h.handedOut hh) hflag
    obtain ⟨b'', hflag'', hb''⟩ := h.flag? hh hflag'
    exact ⟨b'', hflag'', fun htrue ↦ hb' (hb'' htrue)⟩

/-- A call on the model of a reference algorithm, on the stub, or on an algorithm from outside. -/
theorem sameFlags_call {α : Type} {model : {ρ υ : Type} → Model ρ υ → α × Model ρ υ}
    {stub : Stub → α × Stub} {custom : Custom → α × Custom}
    (hmodel : ∀ {ρ υ : Type} (m : Model ρ υ), (model m).2.slots.flag? = m.slots.flag? ∧
      (model m).2.slots.next = m.slots.next)
    (hstub : ∀ b : Stub, (stub b).2.cells = b.cells)
    (hcustom : ∀ c : Custom, (custom c).2.behaviour.handedOut (custom c).2.history
      = c.behaviour.handedOut c.history) : SameFlags s (s.call model stub custom).2 := by
  obtain ⟨name, innerName, weight, algorithm⟩ := s
  cases algorithm with
  | stub b =>
    refine ⟨funext fun h ↦ ?_, funext fun h ↦ ?_, rfl⟩
    · exact congrArg (fun cells : Array (Value × Bool) ↦ (cells[h.index]?).map Prod.snd) (hstub b)
    · exact congrArg (fun cells : Array (Value × Bool) ↦ h.index < cells.size) (hstub b)
  | custom c => exact ⟨rfl, funext fun h ↦ congrArg (h ∈ ·) (hcustom c), rfl⟩
  | relaxation m | keepsRejected m | dataflow m | domainSearch m =>
    refine ⟨(hmodel m.model).1, funext fun h ↦ ?_, rfl⟩
    exact congrArg (fun x : ExtVar ↦ h.index < x.index) (hmodel m.model).2

/-- A variable changes, but not in its flag. -/
theorem flag?_modify {slots : Slots} {f : Slot → Slot} (hf : ∀ c, (f c).readonly = c.readonly)
    (x : ExtVar) : Slots.flag? (slots.modify x f) = slots.flag? :=
  funext fun y ↦ Arena.map_get?_modify (fun c _ ↦ hf c) y

theorem sameFlags_setEnabled (p : Primitive) (priority : Option Priority) :
    SameFlags s (s.setEnabled p priority).2 := by
  refine sameFlags_call (fun m ↦ ?_) (fun b ↦ rfl) fun c ↦ rfl
  unfold Model.setEnabled
  split <;> exact ⟨rfl, rfl⟩

theorem sameFlags_removePrimitive (p : Primitive) : SameFlags s (s.removePrimitive p) :=
  sameFlags_call (fun _ ↦ ⟨rfl, rfl⟩) (fun _ ↦ rfl) fun _ ↦ rfl

theorem sameFlags_removeStay (x : ExtVar) : SameFlags s (s.removeStay x) := by
  refine sameFlags_call (fun m ↦ ⟨flag?_modify ?_ x, Arena.next_modify ..⟩) (fun b ↦ rfl) fun c ↦ rfl
  exact fun _ ↦ rfl

theorem sameFlags_stay (x : ExtVar) (priority : Priority) :
    SameFlags s (s.stay x priority).2 := by
  refine sameFlags_call (fun m ↦ ?_) (fun b ↦ rfl) fun c ↦ rfl
  unfold Model.setStay
  split
  · refine ⟨flag?_modify ?_ x, Arena.next_modify ..⟩
    exact fun _ ↦ rfl
  · exact ⟨rfl, rfl⟩

/-- A call that the algorithms of the library ignore. -/
theorem sameFlags_ignored {call : SolverCall}
    (hcall : ∀ (b : Behaviour) earlier, b.handedOut (call :: earlier) = b.handedOut earlier) :
    SameFlags s (s.update (fun m ↦ m) id call) :=
  sameFlags_call (fun _ ↦ ⟨rfl, rfl⟩) (fun _ ↦ rfl) fun c ↦ hcall c.behaviour c.history

theorem sameFlags_prepareEdit (x : ExtVar) : SameFlags s (s.prepareEdit x) :=
  sameFlags_ignored fun _ _ ↦ rfl

theorem sameFlags_releaseEdit (x : ExtVar) : SameFlags s (s.releaseEdit x) :=
  sameFlags_ignored fun _ _ ↦ rfl

theorem sameFlags_endEdit (s : Solver) : SameFlags s s.endEdit.2 := by
  obtain ⟨name, innerName, weight, algorithm⟩ := s
  cases algorithm <;> exact ⟨rfl, rfl, rfl⟩

theorem sameFlags_beginEdit (xs : List ExtVar) : SameFlags s (s.beginEdit xs).2 := by
  obtain ⟨name, innerName, weight, algorithm⟩ := s
  cases algorithm with
  | dataflow d =>
    dsimp only [beginEdit, answer, Dataflow.beginEdit]
    split <;> exact ⟨rfl, rfl, rfl⟩
  | custom c => exact ⟨rfl, rfl, rfl⟩
  | _ => exact .refl _

/-- A solver becomes heavier or lighter. -/
theorem locks_setWeight (weight : Float) : Locks s (s.setWeight weight) :=
  (sameFlags_ignored fun _ _ ↦ rfl).locks.trans ⟨id, fun _ hflag ↦ ⟨_, hflag, id⟩⟩

/-- A variable is removed. -/
theorem locks_removeVariable (x : ExtVar) : Locks s (s.removeVariable x) := by
  have hslots : ∀ (slots : Slots) h b, Slots.flag? (slots.remove x) h = some b →
      slots.flag? h = some b := by
    intro slots h b hflag
    rw [Slots.flag?, Arena.get?_remove] at hflag
    split at hflag
    · cases hflag
    · exact hflag
  obtain ⟨name, innerName, weight, algorithm⟩ := s
  cases algorithm with
  | stub b => exact .refl _
  | custom c => exact ⟨id, fun _ hflag ↦ ⟨_, hflag, id⟩⟩
  | relaxation m | keepsRejected m | dataflow m | domainSearch m =>
    refine ⟨fun {h} hh ↦ ?_, fun _ hflag ↦ ⟨_, hslots _ _ _ hflag, id⟩⟩
    show h.index < (Arena.next (m.model.slots.remove x)).index
    rwa [Arena.next_remove]

theorem operates_removeVariable (x : ExtVar) : Operates s (s.removeVariable x) := by
  refine ⟨locks_removeVariable x, ?_⟩
  obtain ⟨name, innerName, weight, algorithm⟩ := s
  cases algorithm <;> rfl

/-- Setting a flag. -/
theorem flag?_setReadonly (x : ExtVar) (on : Bool) (h : ExtVar) :
    (s.setReadonly x on).flag? h = if h = x then (s.flag? h).map fun _ ↦ on else s.flag? h := by
  have hslots : ∀ slots : Slots, Slots.flag? (slots.modify x fun c ↦ { c with readonly := on }) h
      = if h = x then (slots.flag? h).map fun _ ↦ on else slots.flag? h := by
    intro slots
    rw [Slots.flag?, Arena.get?_modify, Slots.flag?]
    split
    · rw [Option.map_map, Option.map_map]
      rfl
    · rfl
  obtain ⟨name, innerName, weight, algorithm⟩ := s
  cases algorithm with
  | stub b =>
    show ((b.cells.modify x.index fun c ↦ (c.1, on))[h.index]?).map Prod.snd
      = if h = x then ((b.cells[h.index]?).map Prod.snd).map fun _ ↦ on
        else (b.cells[h.index]?).map Prod.snd
    rw [Array.getElem?_modify]
    by_cases heq : h = x
    · rw [if_pos heq, if_pos (congrArg Id.index heq).symm, Option.map_map, Option.map_map]
      rfl
    · have hindex : x.index ≠ h.index := fun hindex ↦ heq (by cases h; cases x; simp_all)
      rw [if_neg heq, if_neg hindex]
  | custom c =>
    show none = if h = x then none else none
    split <;> rfl
  | relaxation m | keepsRejected m | dataflow m | domainSearch m => exact hslots _

theorem handedOut_setReadonly (x : ExtVar) (on : Bool) :
    (s.setReadonly x on).HandedOut = s.HandedOut := by
  funext h
  obtain ⟨name, innerName, weight, algorithm⟩ := s
  cases algorithm with
  | stub b => exact congrArg (h.index < ·) Array.size_modify
  | custom c => rfl
  | relaxation m | keepsRejected m | dataflow m | domainSearch m =>
    exact congrArg (fun x : ExtVar ↦ h.index < x.index) (Arena.next_modify ..)

theorem weight_setReadonly (x : ExtVar) (on : Bool) : (s.setReadonly x on).weight = s.weight := by
  obtain ⟨name, innerName, weight, algorithm⟩ := s
  cases algorithm <;> rfl

/-- A variable is made read-only. -/
theorem locks_setReadonly (x : ExtVar) : Locks s (s.setReadonly x true) where
  handedOut hh := by rwa [handedOut_setReadonly]
  flag? _ hflag := by
    rw [flag?_setReadonly] at hflag
    split at hflag
    · obtain ⟨b', hb', rfl⟩ := Option.map_eq_some_iff.1 hflag
      exact ⟨b', hb', fun _ ↦ rfl⟩
    · exact ⟨_, hflag, id⟩

theorem operates_setReadonly (x : ExtVar) : Operates s (s.setReadonly x true) :=
  ⟨locks_setReadonly x, weight_setReadonly x true⟩

/-- A flag is lifted, something is done that touches no flag, and the flag is put back. -/
theorem sameFlags_lifted (h : SameFlags (s.setReadonly x false) s') :
    SameFlags s (s'.setReadonly x (s.isReadonly x)) := by
  refine ⟨funext fun y ↦ ?_, ?_, ?_⟩
  · rw [flag?_setReadonly, h.flag?, flag?_setReadonly]
    split
    · next heq =>
      rw [heq]
      cases hflag : s.flag? x with
      | none => rfl
      | some b =>
        rw [isReadonly_of_flag? hflag]
        rfl
    · rfl
  · rw [handedOut_setReadonly, h.handedOut, handedOut_setReadonly]
  · rw [weight_setReadonly, h.weight, weight_setReadonly]

/-- A variable is declared. -/
theorem locks_declare (v : Value) (label : String) : Locks s (s.declare v label).2 := by
  have hslots : ∀ (slots : Slots) h b, h.index < slots.next.index →
      (slots.declare v).2.flag? h = some b → slots.flag? h = some b := by
    intro slots h b hlt hflag
    have hne : h ≠ slots.next := fun heq ↦ Nat.lt_irrefl _ (heq ▸ hlt)
    rwa [Slots.declare, Slots.flag?, Arena.get?_insert, if_neg hne] at hflag
  have hnext : ∀ (slots : Slots) (h : ExtVar), h.index < slots.next.index →
      h.index < (slots.declare v).2.next.index := by
    intro slots h hlt
    rw [Slots.declare, Arena.next_insert]
    exact Nat.lt_succ_of_lt hlt
  obtain ⟨name, innerName, weight, algorithm⟩ := s
  cases algorithm with
  | relaxation m | keepsRejected m | dataflow m =>
    cases v with
    | number n => exact ⟨hnext _ _, fun hlt hflag ↦ ⟨_, hslots _ _ _ hlt hflag, id⟩⟩
    | _ => exact .refl _
  | domainSearch d =>
    dsimp only [declare, answer, DomainSearch.declare]
    split
    · exact ⟨hnext _ _, fun hlt hflag ↦ ⟨_, hslots _ _ _ hlt hflag, id⟩⟩
    · exact .refl _
  | stub c =>
    dsimp only [declare, answer, Stub.declare]
    split
    · refine ⟨fun {h} hlt ↦ ?_, fun {h b} hlt hflag ↦ ⟨b, ?_, id⟩⟩
      · show h.index < (c.cells.push (v, false)).size
        rw [Array.size_push]
        exact Nat.lt_succ_of_lt hlt
      · have hlt : h.index < c.cells.size := hlt
        have hflag : ((c.cells.push (v, false))[h.index]?).map Prod.snd = some b := hflag
        rwa [Array.getElem?_push, if_neg (Nat.ne_of_lt hlt)] at hflag
    · exact .refl _
  | custom c => exact ⟨fun hh ↦ List.mem_append_right _ hh, fun _ hflag ↦ ⟨_, hflag, id⟩⟩

/-- What a solver answers when a variable is declared was handed out. -/
theorem handedOut_declare {label : String} (hdeclare : (s.declare v label).1 = some h) :
    (s.declare v label).2.HandedOut h := by
  have hslots : ∀ slots : Slots, some (slots.declare v).1 = some h →
      h.index < (slots.declare v).2.next.index := by
    rintro slots ⟨⟩
    rw [Slots.declare, Arena.next_insert]
    exact Nat.lt_succ_self _
  obtain ⟨name, innerName, weight, algorithm⟩ := s
  cases algorithm with
  | relaxation m | keepsRejected m | dataflow m =>
    cases v with
    | number n => exact hslots _ hdeclare
    | _ => cases hdeclare
  | domainSearch d =>
    dsimp only [declare, answer, DomainSearch.declare] at hdeclare ⊢
    split at hdeclare
    · next htype =>
      rw [if_pos htype]
      exact hslots _ hdeclare
    · cases hdeclare
  | stub c =>
    dsimp only [declare, answer, Stub.declare] at hdeclare ⊢
    split at hdeclare
    · next htype =>
      cases hdeclare
      rw [if_pos htype]
      show c.cells.size < (c.cells.push (v, false)).size
      rw [Array.size_push]
      exact Nat.lt_succ_self _
    · cases hdeclare
  | custom c =>
    exact List.mem_append_left _ (Option.mem_toList.2 hdeclare)

theorem operates_declare (v : Value) (label : String) : Operates s (s.declare v label).2 := by
  refine ⟨locks_declare v label, ?_⟩
  obtain ⟨name, innerName, weight, algorithm⟩ := s
  cases algorithm <;> rfl

/-! ### Runs -/

/-- The variables of a reference algorithm. -/
def slots? (s : Solver) : Option Slots :=
  s.read (fun m ↦ some m.slots) (fun _ ↦ none) fun _ ↦ none

/-- A run that assigns values only. -/
theorem sameFlags_of_slots {slots slots' : Slots} (hs : s.slots? = some slots)
    (hs' : s'.slots? = some slots') (hweight : s'.weight = s.weight)
    (h : slots.Reassigned slots') : SameFlags s s' := by
  have hread : ∀ {t : Solver} {slots : Slots}, t.slots? = some slots →
      t.flag? = slots.flag? ∧ t.HandedOut = fun h ↦ h.index < slots.next.index := by
    intro t slots ht
    obtain ⟨name, innerName, weight, algorithm⟩ := t
    cases algorithm <;> cases ht
    all_goals exact ⟨rfl, rfl⟩
  have hflag : slots'.flag? = slots.flag? := by
    funext x
    have hx := congrArg (Option.map Prod.fst) (congrFun h.2 x)
    rwa [Slots.flags, Slots.flags, Option.map_map, Option.map_map] at hx
  refine ⟨?_, ?_, hweight⟩
  · rw [(hread hs').1, (hread hs).1, hflag]
  · rw [(hread hs').2, (hread hs).2, h.1]

theorem reassigned_settle {ρ υ : Type} {m : Model ρ υ} {run : Except SolverError Slots}
    (h : ∀ slots, run = .ok slots → m.slots.Reassigned slots) :
    m.slots.Reassigned (m.settle run).2.slots := by
  cases run with
  | error err => exact .refl _
  | ok slots => exact h slots rfl

theorem reassigned_relaxation {r : Relaxation} {fixed : Option ExtVar} {start : Slots}
    (hstart : r.model.slots.Reassigned start) :
    r.model.slots.Reassigned (r.runFrom fixed start).2.model.slots :=
  reassigned_settle fun _ hrun ↦ hstart.trans (Relaxation.reassigned_of_run hrun)

theorem reassigned_dataflow {d : Dataflow} {fixed : List ExtVar} {start : Slots}
    (hstart : d.model.slots.Reassigned start) :
    d.model.slots.Reassigned (d.runFrom fixed start).2.model.slots := by
  refine reassigned_settle fun slots hrun ↦ hstart.trans ?_
  rcases d.realizes_propagate fixed start with ⟨slots', hok, -, h⟩ | ⟨err, -, hfailed, -⟩
  · rwa [Except.ok.inj (hrun.symm.trans hok)]
  · rw [hrun] at hfailed
    cases hfailed

theorem reassigned_domainSearch {d : DomainSearch} {fixed : Option ExtVar} {start : Slots}
    (hstart : d.model.slots.Reassigned start) :
    d.model.slots.Reassigned (d.runFrom fixed start).2.model.slots :=
  reassigned_settle fun _ hrun ↦ hstart.trans (DomainSearch.reassigned_of_search hrun)

theorem reassigned_suggest (r : Relaxation) (x : ExtVar) (v : Value) :
    r.model.slots.Reassigned (r.suggest x v).2.model.slots := by
  unfold Relaxation.suggest
  split
  · exact .refl _
  · dsimp only
    split
    · exact .refl _
    · next hassign =>
      obtain ⟨-, rfl⟩ := Slots.of_assign?_ok hassign
      exact reassigned_relaxation (r := { r with model := r.model.countSolve }) (.assign ..)

/-- **Solving** assigns values only. -/
theorem sameFlags_solve (s : Solver) : SameFlags s s.solve.2 := by
  obtain ⟨name, innerName, weight, algorithm⟩ := s
  cases algorithm with
  | relaxation r | keepsRejected r =>
    exact sameFlags_of_slots rfl rfl rfl
      (reassigned_relaxation (r := { r with model := r.model.countSolve }) (.refl _))
  | dataflow d =>
    exact sameFlags_of_slots rfl rfl rfl
      (reassigned_dataflow (d := { d with model := d.model.countSolve }) (.refl _))
  | domainSearch d =>
    exact sameFlags_of_slots rfl rfl rfl
      (reassigned_domainSearch (d := { d with model := d.model.countSolve }) (.refl _))
  | stub b => exact .refl _
  | custom c => exact ⟨rfl, rfl, rfl⟩

/-- **Suggesting** assigns values only. -/
theorem sameFlags_suggest (s : Solver) (x : ExtVar) (v : Value) :
    SameFlags s (s.suggest x v).2 := by
  obtain ⟨name, innerName, weight, algorithm⟩ := s
  cases algorithm with
  | relaxation r => exact sameFlags_of_slots rfl rfl rfl (reassigned_suggest r x v)
  | keepsRejected r =>
    have h := reassigned_suggest r x v
    dsimp only [suggest]
    split
    · next hrun =>
      rw [hrun] at h
      exact sameFlags_of_slots rfl rfl rfl h
    · exact sameFlags_of_slots rfl rfl rfl h
  | dataflow d =>
    dsimp only [suggest, Dataflow.suggest]
    split
    · exact .refl _
    · split
      · exact .refl _
      · split
        · exact .refl _
        · exact sameFlags_of_slots rfl rfl rfl (reassigned_dataflow
            (d := { d with model := d.model.countConstruction.countSolve }) (.assign ..))
  | domainSearch d =>
    dsimp only [suggest, DomainSearch.suggest]
    split
    · exact sameFlags_of_slots rfl rfl rfl (.refl _)
    · next hassign =>
      obtain ⟨-, rfl⟩ := Slots.of_assign?_ok hassign
      exact sameFlags_of_slots rfl rfl rfl
        (reassigned_domainSearch (d := { d with model := d.model.countSolve }) (.assign ..))
  | stub b =>
    dsimp only [suggest, Stub.suggest]
    split
    · exact .refl _
    · refine ⟨funext fun h ↦ ?_, funext fun h ↦ congrArg (h.index < ·) Array.size_modify, rfl⟩
      show ((b.cells.modify x.index fun c ↦ (v, c.2))[h.index]?).map Prod.snd
        = (b.cells[h.index]?).map Prod.snd
      rw [Array.getElem?_modify]
      split
      · rw [Option.map_map]
        rfl
      · rfl
  | custom c => exact ⟨rfl, rfl, rfl⟩

/-- **Batches** assign values only. -/
theorem sameFlags_resolveBatch (s : Solver) (values : List Value) :
    SameFlags s (s.resolveBatch values).2 := by
  obtain ⟨name, innerName, weight, algorithm⟩ := s
  cases algorithm with
  | dataflow d =>
    dsimp only [resolveBatch, Dataflow.resolveBatch]
    split
    · exact .refl _
    · split
      · exact .refl _
      · split
        · exact sameFlags_of_slots rfl rfl rfl (.refl _)
        · next hassign =>
          exact sameFlags_of_slots rfl rfl rfl (reassigned_dataflow
            (d := { d with model := d.model.countSolve }) (reassigned_of_assignBatch hassign))
  | custom c => exact ⟨rfl, rfl, rfl⟩
  | _ => exact .refl _

/-- Compiling installs a clause at most. -/
theorem sameFlags_compile (s : Solver) (t : Term) : SameFlags s (s.compile t).2 := by
  obtain ⟨name, innerName, weight, algorithm⟩ := s
  cases algorithm with
  | relaxation r | keepsRejected r =>
    dsimp only [compile, Relaxation.compile]
    split <;> exact sameFlags_of_slots rfl rfl rfl (.refl _)
  | dataflow d =>
    dsimp only [compile, Dataflow.compile]
    split <;> exact sameFlags_of_slots rfl rfl rfl (.refl _)
  | domainSearch d =>
    dsimp only [compile, DomainSearch.compile]
    split <;> exact sameFlags_of_slots rfl rfl rfl (.refl _)
  | stub b =>
    dsimp only [compile, Stub.compile]
    split <;> exact ⟨rfl, rfl, rfl⟩
  | custom c => exact ⟨rfl, rfl, rfl⟩

/-- So does the demand that a variable keeps a value. -/
theorem sameFlags_keep (s : Solver) (x : ExtVar) (v : Value) : SameFlags s (s.keep x v).2 := by
  obtain ⟨name, innerName, weight, algorithm⟩ := s
  cases algorithm with
  | relaxation r | keepsRejected r =>
    dsimp only [keep, Relaxation.keep]
    split
    · exact .refl _
    · split <;> exact sameFlags_of_slots rfl rfl rfl (.refl _)
  | dataflow d =>
    dsimp only [keep, Dataflow.keep]
    split
    · exact .refl _
    · split <;> exact sameFlags_of_slots rfl rfl rfl (.refl _)
  | domainSearch d =>
    dsimp only [keep, DomainSearch.keep]
    split <;> exact sameFlags_of_slots rfl rfl rfl (.refl _)
  | stub b =>
    dsimp only [keep, Stub.keep]
    split <;> exact ⟨rfl, rfl, rfl⟩
  | custom c => exact ⟨rfl, rfl, rfl⟩

end Solver

end LiveConstraints
