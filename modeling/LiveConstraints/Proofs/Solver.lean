import LiveConstraints.Proofs.Dataflow
import LiveConstraints.Proofs.DomainSearch
import LiveConstraints.Proofs.Relaxation
import LiveConstraints.Solver
/-!
# What a solver's calls do

The engine sees a solver through three observations: the values of its variables (`held?`), its
clauses with what they demand and whether they are on (`clause?`), and how many primitives it handed
out (`issued`). Every call is described by its effect on these three, for the three reference
algorithms at once:

* `Alike` — nothing observable changed; this is what a failed call comes to;
* `Declares`, `Forgets` — one variable more, one less;
* `Installs`, `Toggles`, `Erases` — one clause more, on or off, one less;
* `Adopts` — values changed, and every clause that is on is met.

The last one is where the soundness of the algorithms enters.
-/

namespace LiveConstraints

/-! ### Observations -/

/-- What a relaxation clause demands. -/
def Relaxation.demand (tolerance : Float) : Clause (List LinearRelation) Float → Demand
  | .relation rels => .relations tolerance rels
  | .keeps _ _ => .keeps

/-- What a dataflow clause demands. -/
def Dataflow.demand : Clause (List LinearForm) Float → Demand
  | .relation forms => .equations forms
  | .keeps _ _ => .keeps

/-- What a domain search clause demands. -/
def DomainSearch.demand : Clause Term Value → Demand
  | .relation t => .predicate t
  | .keeps _ _ => .keeps

namespace Model

variable {ρ υ : Type}

/-- The value of a variable that exists. -/
def held? (m : Model ρ υ) (x : ExtVar) : Option Value := (m.slots.get? x).map Slot.value

/-- A clause with what it demands, and whether it is on. -/
def clause? (m : Model ρ υ) (demand : Clause ρ υ → Demand) (p : Primitive) :
    Option (Demand × Bool) :=
  (m.clauses.get? p).map fun c ↦ (demand c.clause, c.enabled.isSome)

/-- How many primitives were handed out. -/
def issued (m : Model ρ υ) : Nat := m.clauses.next.index

theorem clause?_congr {m m' : Model ρ υ} (h : m'.clauses = m.clauses)
    (demand : Clause ρ υ → Demand) : m'.clause? demand = m.clause? demand := by
  funext p
  rw [clause?, h, clause?]

theorem issued_congr {m m' : Model ρ υ} (h : m'.clauses = m.clauses) : m'.issued = m.issued := by
  rw [issued, h, issued]

end Model

namespace Solver

/-- The value of a variable that exists. Of an algorithm from outside, it is not known which do. -/
def held? (s : Solver) (x : ExtVar) : Option Value :=
  s.read (fun m ↦ m.held? x) (fun b ↦ (b.cells[x.index]?).map Prod.fst)
    fun c ↦ some (c.behaviour.value c.history x)

/-- A clause with what it demands, and whether it is on. -/
def clause? (s : Solver) (p : Primitive) : Option (Demand × Bool) :=
  match s.algorithm with
  | .relaxation r | .keepsRejected r => r.model.clause? (Relaxation.demand r.tolerance) p
  | .dataflow d => d.model.clause? Dataflow.demand p
  | .domainSearch d => d.model.clause? DomainSearch.demand p
  | .stub _ | .custom _ => none

/-- How many primitives the solver handed out. -/
def issued (s : Solver) : Nat :=
  s.read Model.issued (fun b ↦ b.primitives) fun _ ↦ 0

/-- The algorithm is one of the three reference algorithms. -/
def IsReference (s : Solver) : Prop :=
  match s.algorithm with
  | .relaxation _ | .dataflow _ | .domainSearch _ => True
  | .keepsRejected _ | .stub _ | .custom _ => False

/-- A reference solver all of whose equations have one coefficient for each variable. -/
structure Trusted (s : Solver) : Prop where
  /-- The algorithm is a reference algorithm. -/
  reference : s.IsReference
  /-- The clauses are well formed. -/
  wellFormed : ∀ p d on, s.clause? p = some (d, on) → d.WellFormed

/-- A reference solver that was not used yet. -/
def IsFresh (s : Solver) : Prop :=
  match s.algorithm with
  | .relaxation r => r.model = {}
  | .dataflow d => d = {}
  | .domainSearch d => d.model = {}
  | .keepsRejected _ | .stub _ | .custom _ => False

theorem IsFresh.clause?_eq_none {s : Solver} (h : s.IsFresh) (p : Primitive) : s.clause? p = none := by
  obtain ⟨_, _, _, algorithm⟩ := s
  cases algorithm with
  | relaxation r =>
    show (r.model.clauses.get? p).map _ = none
    rw [show r.model = {} from h]
    rfl
  | dataflow d =>
    show (d.model.clauses.get? p).map _ = none
    rw [show d = {} from h]
    rfl
  | domainSearch d =>
    show (d.model.clauses.get? p).map _ = none
    rw [show d.model = {} from h]
    rfl
  | keepsRejected r => exact h.elim
  | stub b => exact h.elim
  | custom c => exact h.elim

theorem IsFresh.trusted {s : Solver} (h : s.IsFresh) : s.Trusted where
  reference := by
    obtain ⟨_, _, _, algorithm⟩ := s
    cases algorithm with
    | keepsRejected r => exact h.elim
    | stub b => exact h.elim
    | custom c => exact h.elim
    | _ => trivial
  wellFormed p d on hclause := by
    rw [h.clause?_eq_none] at hclause
    cases hclause

theorem value_eq (s : Solver) (x : ExtVar) : s.value x = (s.held? x).getD .none := by
  obtain ⟨_, _, _, algorithm⟩ := s
  cases algorithm <;> rfl

theorem lt_issued {s : Solver} {p : Primitive} {c : Demand × Bool} (h : s.clause? p = some c) :
    p.index < s.issued := by
  obtain ⟨_, _, _, algorithm⟩ := s
  cases algorithm with
  | stub b => cases h
  | custom c => cases h
  | _ =>
    obtain ⟨c', hc', -⟩ := Option.map_eq_some_iff.1 h
    exact Arena.lt_next_of_get? hc'

/-! ### Effects -/

variable {s s' s'' : Solver} {x : ExtVar} {p : Primitive} {d : Demand} {v : Value} {on : Bool}

/-- Nothing observable changed. -/
structure Alike (s s' : Solver) : Prop where
  held? : s'.held? = s.held?
  clause? : s'.clause? = s.clause?
  issued : s'.issued = s.issued
  reference : s.IsReference → s'.IsReference

theorem Alike.refl (s : Solver) : Alike s s := ⟨rfl, rfl, rfl, id⟩

theorem Alike.trans (h : Alike s s') (h' : Alike s' s'') : Alike s s'' where
  held? := h'.held?.trans h.held?
  clause? := h'.clause?.trans h.clause?
  issued := h'.issued.trans h.issued
  reference := h'.reference ∘ h.reference

theorem Alike.trusted (h : Alike s s') (hs : s.Trusted) : s'.Trusted where
  reference := h.reference hs.reference
  wellFormed p d on := h.clause? ▸ hs.wellFormed p d on

/-- One new variable. -/
structure Declares (s s' : Solver) (x : ExtVar) (v : Value) : Prop where
  fresh : s.held? x = none
  held? : ∀ y, s'.held? y = if y = x then some v else s.held? y
  clause? : s'.clause? = s.clause?
  issued : s'.issued = s.issued
  reference : s'.IsReference

/-- One variable less. -/
structure Forgets (s s' : Solver) (x : ExtVar) : Prop where
  held? : ∀ y, s'.held? y = if y = x then none else s.held? y
  clause? : s'.clause? = s.clause?
  issued : s'.issued = s.issued
  reference : s.IsReference → s'.IsReference

/-- One new clause, switched off. -/
structure Installs (s s' : Solver) (p : Primitive) (d : Demand) : Prop where
  index : p.index = s.issued
  held? : s'.held? = s.held?
  clause? : ∀ q, s'.clause? q = if q = p then some (d, false) else s.clause? q
  issued : s'.issued = s.issued + 1
  reference : s'.IsReference

/-- A clause is switched on or off, if it exists. -/
structure Toggles (s s' : Solver) (p : Primitive) (on : Bool) : Prop where
  held? : s'.held? = s.held?
  clause? : ∀ q, s'.clause? q
    = if q = p then (s.clause? q).map fun c ↦ (c.1, on) else s.clause? q
  issued : s'.issued = s.issued
  reference : s.IsReference → s'.IsReference

/-- One clause less. -/
structure Erases (s s' : Solver) (p : Primitive) : Prop where
  held? : s'.held? = s.held?
  clause? : ∀ q, s'.clause? q = if q = p then none else s.clause? q
  issued : s'.issued = s.issued
  reference : s.IsReference → s'.IsReference

/-- The values of existing variables changed, and every clause that is on is met, provided that the
variables it mentions exist. -/
structure Adopts (s s' : Solver) : Prop where
  contains : ∀ x, (s'.held? x).isSome = (s.held? x).isSome
  clause? : s'.clause? = s.clause?
  issued : s'.issued = s.issued
  reference : s.IsReference → s'.IsReference
  met : (∀ p d x, s.clause? p = some (d, true) → d.Mentions x → (s.held? x).isSome = true) →
    ∀ p d, s'.clause? p = some (d, true) → d.Met s'.value

/-! ### Solvers and their models -/

variable {ρ υ : Type} {m m' : Model ρ υ} {demand : Clause ρ υ → Demand}

/-- What is observed of a solver is what is observed of a model. -/
structure Observes (s : Solver) (m : Model ρ υ) (demand : Clause ρ υ → Demand) : Prop where
  held? : s.held? = m.held?
  clause? : s.clause? = m.clause? demand
  issued : s.issued = m.issued
  reference : s.IsReference

theorem observes_relaxation (name innerName : String) (weight : Float) (r : Relaxation) :
    Observes ⟨name, innerName, weight, .relaxation r⟩ r.model (Relaxation.demand r.tolerance) :=
  ⟨rfl, rfl, rfl, trivial⟩

theorem observes_dataflow (name innerName : String) (weight : Float) (d : Dataflow) :
    Observes ⟨name, innerName, weight, .dataflow d⟩ d.model Dataflow.demand :=
  ⟨rfl, rfl, rfl, trivial⟩

theorem observes_domainSearch (name innerName : String) (weight : Float) (d : DomainSearch) :
    Observes ⟨name, innerName, weight, .domainSearch d⟩ d.model DomainSearch.demand :=
  ⟨rfl, rfl, rfl, trivial⟩

/-- A call on a reference solver is a call on its model. -/
theorem exists_observes (hs : s.IsReference) :
    ∃ (ρ υ : Type) (m : Model ρ υ) (demand : Clause ρ υ → Demand), Observes s m demand ∧
      ∀ {α : Type} (model : {ρ υ : Type} → Model ρ υ → α × Model ρ υ) (stub : Stub → α × Stub)
        (custom : Custom → α × Custom), (s.call model stub custom).1 = (model m).1 ∧
          Observes (s.call model stub custom).2 (model m).2 demand := by
  obtain ⟨name, innerName, weight, algorithm⟩ := s
  cases algorithm with
  | relaxation r =>
    exact ⟨_, _, r.model, _, observes_relaxation .., fun _ _ _ ↦ ⟨rfl, observes_relaxation ..⟩⟩
  | dataflow d =>
    exact ⟨_, _, d.model, _, observes_dataflow .., fun _ _ _ ↦ ⟨rfl, observes_dataflow ..⟩⟩
  | domainSearch d =>
    exact ⟨_, _, d.model, _, observes_domainSearch .., fun _ _ _ ↦ ⟨rfl, observes_domainSearch ..⟩⟩
  | keepsRejected r => exact hs.elim
  | stub b => exact hs.elim
  | custom c => exact hs.elim

namespace Observes

/-- The same variables with the same values, and the same clauses. -/
theorem alike (h : Observes s m demand) (h' : Observes s' m' demand) (hheld : m'.held? = m.held?)
    (hclauses : m'.clauses = m.clauses) : Alike s s' where
  held? := h'.held?.trans (hheld.trans h.held?.symm)
  clause? := by rw [h'.clause?, h.clause?, Model.clause?_congr hclauses]
  issued := by rw [h'.issued, h.issued, Model.issued_congr hclauses]
  reference _ := h'.reference

theorem declares (h : Observes s m demand) {m' : Model ρ υ} {x : ExtVar} {v : Value}
    (hm : m.declare v = (x, m')) (h' : Observes s' m' demand) : Declares s s' x v := by
  cases hm
  refine ⟨?_, fun y ↦ ?_, ?_, ?_, h'.reference⟩
  · rw [h.held?]
    show (m.slots.get? m.slots.next).map Slot.value = none
    rw [Arena.get?_next]
    rfl
  · rw [h'.held?, h.held?, Model.held?, Model.held?]
    dsimp only [Slots.declare]
    rw [Arena.get?_insert]
    split <;> rfl
  · rw [h'.clause?, h.clause?]
    rfl
  · rw [h'.issued, h.issued]
    rfl

theorem installs (h : Observes s m demand) {m' : Model ρ υ} {p : Primitive} {c : Clause ρ υ}
    (hm : m.install c = (p, m')) (h' : Observes s' m' demand) : Installs s s' p (demand c) := by
  cases hm
  refine ⟨?_, ?_, fun q ↦ ?_, ?_, h'.reference⟩
  · rw [h.issued]
    rfl
  · rw [h'.held?, h.held?]
    rfl
  · rw [h'.clause?, h.clause?, Model.clause?, Model.clause?]
    dsimp only [Model.countConstruction]
    rw [Arena.get?_insert]
    split <;> rfl
  · rw [h'.issued, h.issued, Model.issued]
    dsimp only [Model.countConstruction]
    rw [Arena.next_insert]
    rfl

end Observes

/-! ### Calls that change nothing observable -/

theorem held?_modify {f : Slot → Slot} (hf : ∀ c, (f c).value = c.value) (m : Model ρ υ)
    (x : ExtVar) : Model.held? { m with slots := m.slots.modify x f } = m.held? := by
  funext y
  exact Arena.map_get?_modify (fun c _ ↦ hf c) y

theorem alike_setReadonly (hs : s.IsReference) (x : ExtVar) (on : Bool) :
    Alike s (s.setReadonly x on) := by
  obtain ⟨_, _, m, demand, h, hcall⟩ := exists_observes hs
  refine h.alike (hcall _ _ _).2 (held?_modify ?_ m x) rfl
  exact fun _ ↦ rfl

theorem alike_removeStay (hs : s.IsReference) (x : ExtVar) : Alike s (s.removeStay x) := by
  obtain ⟨_, _, m, demand, h, hcall⟩ := exists_observes hs
  refine h.alike (hcall _ _ _).2 (held?_modify ?_ m x) rfl
  exact fun _ ↦ rfl

theorem alike_stay (hs : s.IsReference) (x : ExtVar) (priority : Priority) :
    Alike s (s.stay x priority).2 := by
  obtain ⟨_, _, m, demand, h, hcall⟩ := exists_observes hs
  refine h.alike (hcall _ _ _).2 ?_ ?_
  · dsimp only [Model.setStay]
    split
    · refine held?_modify ?_ m x
      exact fun _ ↦ rfl
    · rfl
  · dsimp only [Model.setStay]
    split <;> rfl

theorem alike_beginEdit (hs : s.IsReference) (xs : List ExtVar) : Alike s (s.beginEdit xs).2 := by
  obtain ⟨_, _, _, algorithm⟩ := s
  cases algorithm with
  | dataflow d =>
    dsimp only [beginEdit, answer, Dataflow.beginEdit]
    split
    · exact .refl _
    · exact ⟨rfl, rfl, rfl, id⟩
  | custom c => exact hs.elim
  | _ => exact .refl _

theorem alike_endEdit (hs : s.IsReference) : Alike s s.endEdit.2 := by
  obtain ⟨_, _, _, algorithm⟩ := s
  cases algorithm with
  | dataflow d => exact ⟨rfl, rfl, rfl, id⟩
  | custom c => exact hs.elim
  | _ => exact .refl _

/-- A call that the reference algorithms ignore. -/
theorem alike_ignored (hs : s.IsReference) (call : SolverCall) :
    Alike s (s.update (fun m ↦ m) id call) := by
  obtain ⟨_, _, m, demand, h, hcall⟩ := exists_observes hs
  exact h.alike (hcall _ _ _).2 rfl rfl

theorem alike_prepareEdit (hs : s.IsReference) (x : ExtVar) : Alike s (s.prepareEdit x) :=
  alike_ignored hs _

theorem alike_releaseEdit (hs : s.IsReference) (x : ExtVar) : Alike s (s.releaseEdit x) :=
  alike_ignored hs _

theorem alike_setWeight (hs : s.IsReference) (weight : Float) : Alike s (s.setWeight weight) :=
  (alike_ignored hs (.setWeight weight)).trans ⟨rfl, rfl, rfl, id⟩

/-! ### Variables and clauses come and go -/

theorem declare_spec (hs : s.IsReference) (v : Value) (label : String) :
    (s.declare v label).1 = none ∧ Alike s (s.declare v label).2 ∨
      ∃ x, (s.declare v label).1 = some x ∧ Declares s (s.declare v label).2 x v := by
  obtain ⟨name, innerName, weight, algorithm⟩ := s
  cases algorithm with
  | relaxation r =>
    cases v with
    | number n =>
      exact .inr ⟨_, rfl, (observes_relaxation ..).declares rfl (observes_relaxation ..)⟩
    | _ => exact .inl ⟨rfl, .refl _⟩
  | dataflow d =>
    cases v with
    | number n => exact .inr ⟨_, rfl, (observes_dataflow ..).declares rfl (observes_dataflow ..)⟩
    | _ => exact .inl ⟨rfl, .refl _⟩
  | domainSearch d =>
    dsimp only [declare, answer, DomainSearch.declare]
    split
    · exact .inr ⟨_, rfl, (observes_domainSearch ..).declares rfl (observes_domainSearch ..)⟩
    · exact .inl ⟨rfl, .refl _⟩
  | keepsRejected r => exact hs.elim
  | stub b => exact hs.elim
  | custom c => exact hs.elim

theorem forgets_removeVariable (hs : s.IsReference) (x : ExtVar) :
    Forgets s (s.removeVariable x) x := by
  obtain ⟨_, _, m, demand, h, hcall⟩ := exists_observes hs
  have h' : Observes (s.removeVariable x) { m with slots := m.slots.remove x } demand :=
    (hcall _ _ _).2
  refine ⟨fun y ↦ ?_, h'.clause?.trans h.clause?.symm, h'.issued.trans h.issued.symm,
    fun _ ↦ h'.reference⟩
  rw [h'.held?, h.held?, Model.held?, Model.held?]
  dsimp only
  rw [Arena.get?_remove]
  split <;> rfl

theorem erases_removePrimitive (hs : s.IsReference) (p : Primitive) :
    Erases s (s.removePrimitive p) p := by
  obtain ⟨_, _, m, demand, h, hcall⟩ := exists_observes hs
  have h' : Observes (s.removePrimitive p) { m with clauses := m.clauses.remove p } demand :=
    (hcall _ _ _).2
  refine ⟨h'.held?.trans h.held?.symm, fun q ↦ ?_, ?_, fun _ ↦ h'.reference⟩
  · rw [h'.clause?, h.clause?, Model.clause?, Model.clause?]
    dsimp only
    rw [Arena.get?_remove]
    split <;> rfl
  · rw [h'.issued, h.issued, Model.issued]
    dsimp only
    rw [Arena.next_remove]
    rfl

/-- Switching succeeds exactly on the clauses that exist. -/
theorem setEnabled_spec (hs : s.IsReference) (p : Primitive) (priority : Option Priority) :
    Toggles s (s.setEnabled p priority).2 p priority.isSome ∧
      ((s.setEnabled p priority).1 = .ok () ∧ (s.clause? p).isSome = true ∨
        ∃ e, (s.setEnabled p priority).1 = .error e ∧ s.clause? p = none) := by
  obtain ⟨_, _, m, demand, h, hcall⟩ := exists_observes hs
  obtain ⟨hresult, h'⟩ := hcall (fun m ↦ m.setEnabled p priority) (fun b ↦ (.ok (), b))
    fun c ↦ c.carryOut (.setEnabled p priority)
  by_cases hp : m.clauses.contains p = true
  · simp only [Model.setEnabled, if_pos hp] at hresult h'
    have hsome : (s.clause? p).isSome = true := by
      rw [h.clause?, Model.clause?, Option.isSome_map]
      exact hp
    refine ⟨⟨h'.held?.trans h.held?.symm, fun q ↦ ?_, ?_, fun _ ↦ h'.reference⟩,
      .inl ⟨hresult, hsome⟩⟩
    · refine (congrFun h'.clause? q).trans ?_
      rw [h.clause?, Model.clause?, Model.clause?, Arena.get?_modify]
      split
      · rw [Option.map_map, Option.map_map]
        rfl
      · rfl
    · refine h'.issued.trans ?_
      rw [h.issued, Model.issued, Arena.next_modify, Model.issued]
  · simp only [Model.setEnabled, if_neg hp] at hresult h'
    have hnone : s.clause? p = none := by
      rw [h.clause?, Model.clause?]
      rw [Arena.contains, Bool.not_eq_true, Option.isSome_eq_false_iff, Option.isNone_iff_eq_none]
        at hp
      rw [hp]
      rfl
    have hsame := h.alike h' rfl rfl
    refine ⟨⟨hsame.held?, fun q ↦ ?_, hsame.issued, hsame.reference⟩, .inr ⟨_, hresult, hnone⟩⟩
    refine (congrFun hsame.clause? q).trans ?_
    split
    · next hq => rw [hq, hnone, Option.map_none]
    · rfl

/-- A compiled term becomes a clause over variables of the term. -/
theorem compile_spec (hs : s.IsReference) (t : Term) :
    (∃ e, (s.compile t).1 = .error e) ∧ Alike s (s.compile t).2 ∨
      ∃ p d, (s.compile t).1 = .ok p ∧ Installs s (s.compile t).2 p d ∧ d.IsRelation ∧
        d.WellFormed ∧ ∀ x, d.Mentions x → t.Mentions x := by
  obtain ⟨name, innerName, weight, algorithm⟩ := s
  cases algorithm with
  | relaxation r =>
    dsimp only [compile, answer, Relaxation.compile]
    split
    · exact .inl ⟨⟨_, rfl⟩, .refl _⟩
    · next rels hrels =>
      obtain ⟨-, -, hterm⟩ := Except.of_bind_ok hrels
      refine .inr ⟨_, _, rfl, (observes_relaxation ..).installs rfl (observes_relaxation ..),
        trivial, trivial, ?_⟩
      rintro x ⟨rel, hrel, hx⟩
      exact (LinearRelation.lowers_of_ofTerm (Except.of_mapError_ok hterm) hrel).mentions x hx
  | dataflow d =>
    dsimp only [compile, answer, Dataflow.compile]
    split
    · exact .inl ⟨⟨_, rfl⟩, .refl _⟩
    · next forms hforms =>
      obtain ⟨-, -, hforms⟩ := Except.of_bind_ok hforms
      obtain ⟨rels, hterm, hforms⟩ := Except.of_bind_ok hforms
      have hlower : ∀ f ∈ forms, LinearForm.Lowers t f := fun f hf ↦ by
        obtain ⟨rel, hrel, heq⟩ := Except.mem_of_mapM_ok hforms hf
        rw [← Dataflow.form_of_equation? heq]
        exact LinearRelation.lowers_of_ofTerm (Except.of_mapError_ok hterm) hrel
      refine .inr ⟨_, _, rfl, (observes_dataflow ..).installs rfl (observes_dataflow ..),
        trivial, fun f hf ↦ (hlower f hf).ordered, ?_⟩
      rintro x ⟨f, hf, hx⟩
      exact (hlower f hf).mentions x hx
  | domainSearch d =>
    dsimp only [compile, answer, DomainSearch.compile]
    split
    · exact .inl ⟨⟨_, rfl⟩, .refl _⟩
    · exact .inr ⟨_, _, rfl, (observes_domainSearch ..).installs rfl (observes_domainSearch ..),
        trivial, trivial, fun _ hx ↦ hx⟩
  | keepsRejected r => exact hs.elim
  | stub b => exact hs.elim
  | custom c => exact hs.elim

theorem keep_spec (hs : s.IsReference) (x : ExtVar) (v : Value) :
    (∃ e, (s.keep x v).1 = .error e) ∧ Alike s (s.keep x v).2 ∨
      ∃ p, (s.keep x v).1 = .ok p ∧ Installs s (s.keep x v).2 p .keeps := by
  obtain ⟨name, innerName, weight, algorithm⟩ := s
  cases algorithm with
  | relaxation r =>
    dsimp only [keep, answer, Relaxation.keep]
    split
    · exact .inl ⟨⟨_, rfl⟩, .refl _⟩
    · split
      · exact .inl ⟨⟨_, rfl⟩, .refl _⟩
      · next n hn =>
        refine .inr ⟨_, rfl, ?_⟩
        exact Observes.installs (c := .keeps x n) (observes_relaxation ..) rfl (observes_relaxation ..)
  | dataflow d =>
    dsimp only [keep, answer, Dataflow.keep]
    split
    · exact .inl ⟨⟨_, rfl⟩, .refl _⟩
    · split
      · exact .inl ⟨⟨_, rfl⟩, .refl _⟩
      · next n hn =>
        refine .inr ⟨_, rfl, ?_⟩
        exact Observes.installs (c := .keeps x n) (observes_dataflow ..) rfl (observes_dataflow ..)
  | domainSearch d =>
    dsimp only [keep, answer, DomainSearch.keep]
    split
    · exact .inl ⟨⟨_, rfl⟩, .refl _⟩
    · refine .inr ⟨_, rfl, ?_⟩
      exact Observes.installs (c := .keeps x v) (observes_domainSearch ..) rfl (observes_domainSearch ..)
  | keepsRejected r => exact hs.elim
  | stub b => exact hs.elim
  | custom c => exact hs.elim

/-! ### Runs -/

theorem mem_enabled {c : Clause ρ υ} {priority : Priority} :
    (c, priority) ∈ m.enabled ↔ ∃ p, m.clauses.get? p = some ⟨c, some priority⟩ := by
  simp only [Model.enabled, List.mem_filterMap, Prod.exists, Arena.mem_live, Option.map_eq_some_iff]
  constructor
  · rintro ⟨p, ⟨c', _⟩, hp, priority', rfl, heq⟩
    cases heq
    exact ⟨p, hp⟩
  · rintro ⟨p, hp⟩
    exact ⟨p, _, hp, priority, rfl, rfl⟩

/-- A clause that is on is an enabled clause of the model. -/
theorem Observes.exists_enabled (h : Observes s m demand) (hp : s.clause? p = some (d, true)) :
    ∃ c priority, (c, priority) ∈ m.enabled ∧ demand c = d := by
  rw [h.clause?] at hp
  obtain ⟨⟨c, enabled⟩, hc, heq⟩ := Option.map_eq_some_iff.1 hp
  obtain ⟨rfl, hon⟩ := Prod.mk.inj heq
  obtain ⟨priority, rfl⟩ := Option.isSome_iff_exists.1 hon
  exact ⟨c, priority, mem_enabled.2 ⟨p, hc⟩, rfl⟩

theorem Observes.clause?_of_enabled (h : Observes s m demand) {c : Clause ρ υ} {priority : Priority}
    (hc : (c, priority) ∈ m.enabled) : ∃ p, s.clause? p = some (demand c, true) := by
  obtain ⟨p, hp⟩ := mem_enabled.1 hc
  refine ⟨p, ?_⟩
  rw [h.clause?, Model.clause?, hp]
  rfl

theorem Observes.value (h : Observes s m demand) : s.value = m.slots.value := by
  funext x
  rw [value_eq, h.held?]
  rfl

/-- A run that touches values only and leaves every enabled clause met. -/
theorem Observes.adopts (h : Observes s m demand) (h' : Observes s' m' demand)
    (hslots : m.slots.Reassigned m'.slots) (hclauses : m'.clauses = m.clauses)
    (hmet : (∀ c priority x, (c, priority) ∈ m.enabled → (demand c).Mentions x →
        m.slots.contains x = true) →
      ∀ c priority, (c, priority) ∈ m.enabled → (demand c).Met m'.slots.value) :
    Adopts s s' where
  contains x := by
    rw [h'.held?, h.held?, Model.held?, Model.held?, Option.isSome_map, Option.isSome_map]
    exact hslots.isSome_get? x
  clause? := by rw [h'.clause?, h.clause?, Model.clause?_congr hclauses]
  issued := by rw [h'.issued, h.issued, Model.issued_congr hclauses]
  reference _ := h'.reference
  met hlive p d hp := by
    have hp' : s.clause? p = some (d, true) := by
      rw [← hp, h'.clause?, h.clause?, Model.clause?_congr hclauses]
    obtain ⟨c, priority, hc, rfl⟩ := h.exists_enabled hp'
    rw [h'.value]
    refine hmet (fun c priority x hc hx ↦ ?_) c priority hc
    obtain ⟨q, hq⟩ := h.clause?_of_enabled hc
    have hx' := hlive q _ x hq hx
    rwa [h.held?, Model.held?, Option.isSome_map] at hx'

/-- What a run comes to: it fails and nothing observable changed, or it succeeds and every clause
that is on is met. -/
def Runs (s : Solver) (outcome : Except SolverError Unit × Solver) : Prop :=
  (∃ e, outcome.1 = .error e) ∧ Alike s outcome.2 ∨ outcome.1 = .ok () ∧ Adopts s outcome.2

theorem Alike.adopts (h : Alike s s') (h' : Adopts s' s'') : Adopts s s'' where
  contains x := by rw [h'.contains, h.held?]
  clause? := h'.clause?.trans h.clause?
  issued := h'.issued.trans h.issued
  reference := h'.reference ∘ h.reference
  met hlive := h'.met fun p d x hp hx ↦ by
    rw [h.clause?] at hp
    rw [h.held?]
    exact hlive p d x hp hx

theorem Adopts.alike (h : Adopts s s') (h' : Alike s' s'') : Adopts s s'' where
  contains x := by rw [h'.held?, h.contains]
  clause? := h'.clause?.trans h.clause?
  issued := h'.issued.trans h.issued
  reference := h'.reference ∘ h.reference
  met hlive p d hp := by
    have hvalue : s''.value = s'.value := by
      funext x
      rw [value_eq, h'.held?, value_eq]
    rw [hvalue]
    exact h.met hlive p d (h'.clause? ▸ hp)

theorem Adopts.trusted (h : Adopts s s') (hs : s.Trusted) : s'.Trusted where
  reference := h.reference hs.reference
  wellFormed p d on := h.clause? ▸ hs.wellFormed p d on

theorem Alike.runs {outcome : Except SolverError Unit × Solver} (h : Alike s s')
    (h' : Runs s' outcome) : Runs s outcome := by
  rcases h' with ⟨he, halike⟩ | ⟨hok, hadopts⟩
  · exact .inl ⟨he, h.trans halike⟩
  · exact .inr ⟨hok, h.adopts hadopts⟩

variable {name innerName : String} {weight : Float} {start : Slots}

theorem runs_relaxation {r : Relaxation} (fixed : Option ExtVar)
    (hstart : r.model.slots.Reassigned start) :
    Runs ⟨name, innerName, weight, .relaxation r⟩
      (answer ⟨name, innerName, weight, .relaxation r⟩ .relaxation (r.runFrom fixed start)) := by
  unfold Relaxation.runFrom
  cases hrun : r.run fixed start with
  | error e => exact .inl ⟨⟨e, rfl⟩, rfl, rfl, rfl, id⟩
  | ok slots =>
    refine .inr ⟨rfl, ?_⟩
    refine (observes_relaxation ..).adopts (observes_relaxation ..)
      (hstart.trans (Relaxation.reassigned_of_run hrun)) rfl fun _ c priority hc ↦ ?_
    cases c with
    | relation rels => exact Relaxation.met_of_run hrun hc
    | keeps x v => trivial

theorem runs_dataflow {d : Dataflow} (fixed : List ExtVar)
    (hd : Trusted ⟨name, innerName, weight, .dataflow d⟩)
    (hstart : d.model.slots.Reassigned start) :
    Runs ⟨name, innerName, weight, .dataflow d⟩
      (answer ⟨name, innerName, weight, .dataflow d⟩ .dataflow (d.runFrom fixed start)) := by
  unfold Dataflow.runFrom
  cases hrun : d.propagate fixed start with
  | error e => exact .inl ⟨⟨e, rfl⟩, rfl, rfl, rfl, id⟩
  | ok slots =>
    have hordered : ∀ form ∈ d.equations, form.Ordered := by
      intro form hform
      obtain ⟨⟨c, priority⟩, hc, hform⟩ := List.mem_flatMap.1 hform
      cases c with
      | keeps x v => exact absurd hform (by simp)
      | relation forms =>
        obtain ⟨p, hp⟩ := (observes_dataflow name innerName weight d).clause?_of_enabled hc
        exact hd.wellFormed p _ _ hp form hform
    obtain ⟨hslots, hbalanced⟩ := Dataflow.balanced_of_propagate hordered hrun
    refine .inr ⟨rfl, ?_⟩
    refine (observes_dataflow ..).adopts (observes_dataflow ..) (hstart.trans hslots) rfl
      fun _ c priority hc ↦ ?_
    cases c with
    | relation forms => exact fun f hf ↦ hbalanced f (Dataflow.mem_equations hc hf)
    | keeps x v => trivial

theorem runs_domainSearch {d : DomainSearch} (fixed : Option ExtVar)
    (hstart : d.model.slots.Reassigned start) :
    Runs ⟨name, innerName, weight, .domainSearch d⟩
      (answer ⟨name, innerName, weight, .domainSearch d⟩ .domainSearch
        (d.runFrom fixed start)) := by
  unfold DomainSearch.runFrom
  cases hrun : d.search fixed start with
  | error e => exact .inl ⟨⟨e, rfl⟩, rfl, rfl, rfl, id⟩
  | ok slots =>
    refine .inr ⟨rfl, ?_⟩
    refine (observes_domainSearch ..).adopts (observes_domainSearch ..)
      (hstart.trans (DomainSearch.reassigned_of_search hrun)) rfl fun hlive c priority hc ↦ ?_
    cases c with
    | relation t =>
      refine DomainSearch.met_of_search (fun t ht x hx ↦ ?_) hrun (DomainSearch.mem_predicates hc)
      obtain ⟨⟨c, priority⟩, hc, heq⟩ := List.mem_filterMap.1 ht
      cases c with
      | keeps x v => cases heq
      | relation t' =>
        cases heq
        rw [hstart.contains]
        exact hlive _ priority x hc hx
    | keeps x v => trivial

/-- **Solving.** Whatever solver it is, a success leaves every clause that is on met, and a failure
leaves everything as it was. -/
theorem runs_solve (hs : s.Trusted) : Runs s s.solve := by
  obtain ⟨name, innerName, weight, algorithm⟩ := s
  cases algorithm with
  | relaxation r =>
    have hcount : Alike ⟨name, innerName, weight, .relaxation r⟩
        ⟨name, innerName, weight, .relaxation { r with model := r.model.countSolve }⟩ :=
      ⟨rfl, rfl, rfl, id⟩
    exact hcount.runs (runs_relaxation none (.refl _))
  | dataflow d =>
    have hcount : Alike ⟨name, innerName, weight, .dataflow d⟩
        ⟨name, innerName, weight, .dataflow { d with model := d.model.countSolve }⟩ :=
      ⟨rfl, rfl, rfl, id⟩
    exact hcount.runs (runs_dataflow [] (hcount.trusted hs) (.refl _))
  | domainSearch d =>
    have hcount : Alike ⟨name, innerName, weight, .domainSearch d⟩
        ⟨name, innerName, weight, .domainSearch { d with model := d.model.countSolve }⟩ :=
      ⟨rfl, rfl, rfl, id⟩
    exact hcount.runs (runs_domainSearch none (.refl _))
  | keepsRejected r => exact hs.reference.elim
  | stub b => exact hs.reference.elim
  | custom c => exact hs.reference.elim

/-- **Suggesting.** The same holds of a suggested value, unless the variable holds it already and
nothing has to be done. -/
theorem runs_suggest (hs : s.Trusted) (x : ExtVar) (v : Value) :
    Runs s (s.suggest x v) ∨ (s.suggest x v).1 = .ok () ∧ Alike s (s.suggest x v).2 := by
  obtain ⟨name, innerName, weight, algorithm⟩ := s
  cases algorithm with
  | relaxation r =>
    left
    dsimp only [suggest, Relaxation.suggest]
    split
    · exact .inl ⟨⟨_, rfl⟩, .refl _⟩
    · have hcount : Alike ⟨name, innerName, weight, .relaxation r⟩
          ⟨name, innerName, weight, .relaxation { r with model := r.model.countSolve }⟩ :=
        ⟨rfl, rfl, rfl, id⟩
      split
      · exact .inl ⟨⟨_, rfl⟩, hcount⟩
      · next hassign =>
        obtain ⟨-, rfl⟩ := Slots.of_assign?_ok hassign
        exact hcount.runs (runs_relaxation (some x) (.assign ..))
  | dataflow d =>
    dsimp only [suggest, Dataflow.suggest]
    split
    · exact .inl (.inl ⟨⟨_, rfl⟩, .refl _⟩)
    · split
      · exact .inl (.inl ⟨⟨_, rfl⟩, .refl _⟩)
      · split
        · exact .inr ⟨rfl, .refl _⟩
        · have hcount : Alike ⟨name, innerName, weight, .dataflow d⟩ ⟨name, innerName, weight,
              .dataflow { d with model := d.model.countConstruction.countSolve }⟩ :=
            ⟨rfl, rfl, rfl, id⟩
          exact .inl (hcount.runs (runs_dataflow [x] (hcount.trusted hs) (.assign ..)))
  | domainSearch d =>
    left
    dsimp only [suggest, DomainSearch.suggest]
    have hcount : Alike ⟨name, innerName, weight, .domainSearch d⟩
        ⟨name, innerName, weight, .domainSearch { d with model := d.model.countSolve }⟩ :=
      ⟨rfl, rfl, rfl, id⟩
    split
    · exact .inl ⟨⟨_, rfl⟩, hcount⟩
    · next hassign =>
      obtain ⟨-, rfl⟩ := Slots.of_assign?_ok hassign
      exact hcount.runs (runs_domainSearch (some x) (.assign ..))
  | keepsRejected r => exact hs.reference.elim
  | stub b => exact hs.reference.elim
  | custom c => exact hs.reference.elim

theorem reassigned_of_assignBatch {batch : List (ExtVar × Value)} {slots slots' : Slots}
    (h : Dataflow.assignBatch slots batch = .ok slots') : slots.Reassigned slots' := by
  induction batch generalizing slots with
  | nil =>
    cases h
    exact .refl _
  | cons e batch ih =>
    obtain ⟨slots₁, h₁, h⟩ := Except.of_bind_ok h
    obtain ⟨number, -, h₁⟩ := Except.of_bind_ok h₁
    cases h₁
    exact (Slots.Reassigned.assign ..).trans (ih h)

/-- **Edit batches.** The same holds of a batch of values. -/
theorem runs_resolveBatch (hs : s.Trusted) (values : List Value) :
    Runs s (s.resolveBatch values) := by
  obtain ⟨name, innerName, weight, algorithm⟩ := s
  cases algorithm with
  | dataflow d =>
    dsimp only [resolveBatch, Dataflow.resolveBatch]
    split
    · exact .inl ⟨⟨_, rfl⟩, .refl _⟩
    · split
      · exact .inl ⟨⟨_, rfl⟩, .refl _⟩
      · have hcount : Alike ⟨name, innerName, weight, .dataflow d⟩
            ⟨name, innerName, weight, .dataflow { d with model := d.model.countSolve }⟩ :=
          ⟨rfl, rfl, rfl, id⟩
        split
        · exact .inl ⟨⟨_, rfl⟩, hcount⟩
        · next hassign =>
          exact hcount.runs
            (runs_dataflow _ (hcount.trusted hs) (reassigned_of_assignBatch hassign))
  | custom c => exact hs.reference.elim
  | _ => exact .inl ⟨⟨_, rfl⟩, .refl _⟩

end Solver

end LiveConstraints
