import LiveConstraints.Proofs.Algorithms.Stepping
import LiveConstraints.Proofs.Behaviours
import LiveConstraints.Proofs.Numbers.Distance
import LiveConstraints.Proofs.Rollback
/-!
# Coefficients

Whatever lowering a term does to a form, it drops the small coefficients last. So a stored coefficient
is never below the floor, however the ones it was computed from cancelled, underflowed or overflowed
(`LinearForm.substantial_of_ofTerm`), and therefore it is neither zero nor not-a-number.

A solver installs no equations but those it has compiled (`Dataflow.Compiled`), whatever is asked of it,
so the planner never divides by any other number (`LinearForm.sound_of_lowering`).
-/

namespace LiveConstraints

open Float.Model (UnpackedFloat)

/-! ### Numbers above the floor -/

namespace Numbers

variable {c : Float}

/-- A number that may be divided by. -/
def divides (c : Float) : Bool := !(c == 0.0) && !c.isNaN

/-- What is not below the floor in magnitude is neither a zero nor not-a-number. -/
theorem divides_of_floor_le (h : coefficientFloor ≤ c.abs) : divides c = true := by
  have hpositive : ∀ s, ¬ coefficientFloor ≤ (ofParts (.zero s)).abs := by
    rintro (_ | _) <;> decide +kernel
  have hnumber : ¬ coefficientFloor ≤ (ofParts .notANumber).abs := by decide +kernel
  have hnan : c.isNaN = (parts c).isNaN := rfl
  have hzero : (c == 0.0) = ((parts c).compare (.zero .positive) == some .eq) := rfl
  rw [divides, hnan, hzero]
  rw [← ofParts_parts c] at h
  generalize parts c = u at h
  rcases u with s | _ | s | ⟨s, m, e, hm⟩
  · cases s <;> rfl
  · exact absurd h hnumber
  · exact absurd h (hpositive s)
  · cases s <;> rfl

end Numbers

/-! ### Forms -/

namespace LinearForm

variable {t : Term} {f : LinearForm} {x : ExtVar} {c : Float}

/-- No coefficient is below the floor. -/
def Substantial (f : LinearForm) : Prop := ∀ e ∈ f.coefficients.entries, coefficientFloor ≤ e.2.abs

theorem substantial_prune (f : LinearForm) : f.prune.Substantial := fun _ he ↦
  of_decide_eq_true (List.mem_filter.1 he).2

theorem substantial_scaled (f : LinearForm) (k : Float) : (f.scaled k).Substantial :=
  substantial_prune _

theorem substantial_plus (f g : LinearForm) (sign : Float) : (f.plus g sign).Substantial :=
  substantial_prune _

theorem substantial_ofVariable (x : ExtVar) : (ofVariable x).Substantial := by
  intro e he
  obtain rfl : e = (x, 1.0) := List.mem_singleton.1 he
  show coefficientFloor ≤ (1.0 : Float).abs
  decide +kernel

theorem substantial_ofConstant (k : Float) : (ofConstant k).Substantial := nofun

/-- Lowering ends with an operation that drops the small coefficients, or starts with one. -/
theorem substantial_of_ofTerm (h : ofTerm t = .ok f) : f.Substantial := by
  unfold ofTerm at h
  split at h
  · cases h
    exact substantial_ofVariable _
  · cases h
    exact substantial_ofConstant _
  · cases h
  · obtain ⟨g, -, h⟩ := Except.of_bind_ok h
    cases h
    exact substantial_scaled _ _
  · obtain ⟨g, -, h⟩ := Except.of_bind_ok h
    obtain ⟨g', -, h⟩ := Except.of_bind_ok h
    cases h
    exact substantial_plus _ _ _
  · obtain ⟨g, -, h⟩ := Except.of_bind_ok h
    obtain ⟨g', -, h⟩ := Except.of_bind_ok h
    cases h
    exact substantial_plus _ _ _
  · obtain ⟨g, -, h⟩ := Except.of_bind_ok h
    obtain ⟨g', -, h⟩ := Except.of_bind_ok h
    split at h
    · cases h
      exact substantial_scaled _ _
    · split at h
      · cases h
        exact substantial_scaled _ _
      · cases h
  · obtain ⟨g, -, h⟩ := Except.of_bind_ok h
    dsimp only at h
    split at h
    · cases h
    · split at h
      · cases h
      · obtain ⟨g', -, h⟩ := Except.of_bind_ok h
        cases h
        exact substantial_scaled _ _
  all_goals cases h

end LinearForm

theorem LinearRelation.substantial_of_ofTerm {t : Term} {rels : List LinearRelation}
    (h : ofTerm t = .ok rels) {rel : LinearRelation} (hrel : rel ∈ rels) : rel.form.Substantial := by
  obtain ⟨found, hfound, h⟩ := Except.of_bind_ok h
  cases h
  obtain ⟨r, hr, rfl⟩ := List.mem_filterMap.1 hrel
  obtain ⟨c, -, hc⟩ := Except.mem_of_mapM_ok hfound hr
  unfold ofConjunct? at hc
  split at hc
  · cases hc
  · split at hc
    · cases hc
    · obtain ⟨f, -, hc⟩ := Except.of_bind_ok hc
      obtain ⟨g, -, hc⟩ := Except.of_bind_ok hc
      cases hc
      exact LinearForm.substantial_plus _ _ _
  · cases hc

/-! ### Compiled equations -/

namespace Dataflow

variable {d d' : Dataflow} {fixed : List ExtVar} {s : Slots}

/-- The equations of a clause are those of a lowered term. -/
def CompiledClause : Clause (List LinearForm) Float → Prop
  | .relation forms => ∃ t rels, LinearRelation.ofTerm t = .ok rels ∧
      ∀ form ∈ forms, ∃ rel ∈ rels, rel.form = form
  | .keeps _ _ => True

/-- All clauses have been compiled. -/
def Compiled (d : Dataflow) : Prop :=
  ∀ p c, d.model.clauses.get? p = some c → CompiledClause c.clause

theorem compiled_empty : Compiled {} := by
  intro p c h
  rw [Arena.get?_empty] at h
  cases h

theorem Compiled.congr (h : d.Compiled) (hclauses : d'.model.clauses = d.model.clauses) :
    d'.Compiled := fun p c hp ↦ h p c (hclauses ▸ hp)

theorem Compiled.install (h : d.Compiled) {c : Clause (List LinearForm) Float}
    (hc : CompiledClause c) : Compiled { d with model := (d.model.install c).2 } := by
  intro p c' hp
  dsimp only [Model.install, Model.countConstruction] at hp
  obtain ⟨-, rfl⟩ | ⟨-, hp⟩ := Arena.of_get?_insert hp
  · exact hc
  · exact h p c' hp

theorem Compiled.setEnabled (h : d.Compiled) (p : Primitive) (priority : Option Priority) :
    Compiled { d with model := (d.model.setEnabled p priority).2 } := by
  unfold Model.setEnabled
  split
  · intro q c hq
    dsimp only at hq
    rw [Arena.get?_modify] at hq
    split at hq
    · obtain ⟨c', hc', rfl⟩ := Option.map_eq_some_iff.1 hq
      exact h q c' hc'
    · exact h q c hq
  · exact h

theorem Compiled.remove (h : d.Compiled) (p : Primitive) :
    Compiled { d with model := { d.model with clauses := d.model.clauses.remove p } } := by
  intro q c hq
  exact h q c (Arena.of_get?_remove hq).2

theorem clauses_runFrom (d : Dataflow) (fixed : List ExtVar) (s : Slots) :
    (d.runFrom fixed s).2.model.clauses = d.model.clauses := by
  unfold runFrom Model.settle
  dsimp only
  split <;> rfl

theorem clauses_suggest (d : Dataflow) (x : ExtVar) (v : Value) :
    (d.suggest x v).2.model.clauses = d.model.clauses := by
  unfold suggest
  split
  · rfl
  · split
    · rfl
    · dsimp only
      split
      · rfl
      · rw [clauses_runFrom]
        rfl

theorem clauses_resolveBatch (d : Dataflow) (solver : String) (values : List Value) :
    (d.resolveBatch solver values).2.model.clauses = d.model.clauses := by
  unfold resolveBatch
  split
  · rfl
  · split
    · rfl
    · dsimp only
      split
      · rfl
      · rw [clauses_runFrom]
        rfl

theorem clauses_beginEdit (d : Dataflow) (xs : List ExtVar) :
    (d.beginEdit xs).2.model.clauses = d.model.clauses := by
  unfold beginEdit
  split <;> rfl

theorem clauses_declare (d : Dataflow) (v : Value) :
    (d.declare v).2.model.clauses = d.model.clauses := by
  unfold declare
  split <;> rfl

theorem clauses_stay (d : Dataflow) (x : ExtVar) (priority : Priority) :
    (d.model.setStay x priority).2.clauses = d.model.clauses := by
  unfold Model.setStay
  split <;> rfl

theorem Compiled.compile (h : d.Compiled) (t : Term) : (d.compile t).2.Compiled := by
  unfold Dataflow.compile
  split
  · exact h
  · next forms hforms =>
    obtain ⟨-, -, hforms⟩ := Except.of_bind_ok hforms
    obtain ⟨rels, hrels, hforms⟩ := Except.of_bind_ok hforms
    refine h.install (c := .relation forms) ⟨t, rels, Except.of_mapError_ok hrels, fun form hform ↦ ?_⟩
    obtain ⟨rel, hrel, heq⟩ := Except.mem_of_mapM_ok hforms hform
    exact ⟨rel, hrel, form_of_equation? heq⟩

theorem Compiled.keep (h : d.Compiled) (x : ExtVar) (v : Value) : (d.keep x v).2.Compiled := by
  unfold Dataflow.keep
  split
  · exact h
  · split
    · exact h
    · exact h.install (c := .keeps x _) trivial

end Dataflow

namespace Solver

/-- A dataflow solver all of whose clauses have been compiled. -/
def RunsCompiled (s : Solver) : Prop := ∃ d : Dataflow, s.algorithm = .dataflow d ∧ d.Compiled

theorem RunsCompiled.after {s : Solver} (h : s.RunsCompiled) (call : SolverCall) :
    (s.after call).RunsCompiled := by
  obtain ⟨name, innerName, weight, algorithm⟩ := s
  obtain ⟨d, rfl, hd⟩ := h
  cases call with
  | declare v label => exact ⟨_, rfl, hd.congr (d.clauses_declare v)⟩
  | compile t => exact ⟨_, rfl, hd.compile t⟩
  | keep x v => exact ⟨_, rfl, hd.keep x v⟩
  | setEnabled p priority => exact ⟨_, rfl, hd.setEnabled p priority⟩
  | removePrimitive p => exact ⟨_, rfl, hd.remove p⟩
  | solve => exact ⟨_, rfl, hd.congr (Dataflow.clauses_runFrom ..)⟩
  | suggest x v => exact ⟨_, rfl, hd.congr (d.clauses_suggest x v)⟩
  | stay x priority => exact ⟨_, rfl, hd.congr (d.clauses_stay x priority)⟩
  | beginEdit xs => exact ⟨_, rfl, hd.congr (d.clauses_beginEdit xs)⟩
  | resolveBatch values => exact ⟨_, rfl, hd.congr (d.clauses_resolveBatch innerName values)⟩
  | _ => exact ⟨_, rfl, hd.congr rfl⟩

theorem RunsCompiled.replay {s : Solver} (h : s.RunsCompiled) (history : SolverHistory) :
    (s.replay history).RunsCompiled := by
  induction history with
  | nil => exact h
  | cons call history ih => exact ih.after call

end Solver

/-! ### Lowered terms and planning -/

/-- A form over variables of a term, with coefficients that may be divided by. -/
structure LinearForm.Sound (t : Term) (f : LinearForm) : Prop where
  /-- The variables occur in the term. -/
  mentions : ∀ x ∈ f.vars, t.Mentions x
  /-- No coefficient is below the floor. -/
  substantial : ∀ e ∈ f.coefficients.entries, coefficientFloor ≤ e.2.abs
  /-- No coefficient is zero or not-a-number. -/
  divides : ∀ e ∈ f.coefficients.entries, (e.2 == 0.0) = false ∧ e.2.isNaN = false

theorem LinearForm.Lowers.sound {t : Term} {f : LinearForm} (h : Lowers t f) (hf : f.Substantial) :
    f.Sound t where
  mentions := h.mentions
  substantial := hf
  divides e he := by
    have hdivides := Numbers.divides_of_floor_le (hf e he)
    rwa [Numbers.divides, Bool.and_eq_true, Bool.not_eq_true', Bool.not_eq_true'] at hdivides

theorem Dataflow.Compiled.of_mem_equations {d : Dataflow} (h : d.Compiled) {form : LinearForm}
    (hform : form ∈ d.equations) : ∃ t rels, LinearRelation.ofTerm t = .ok rels ∧
      ∃ rel ∈ rels, rel.form = form := by
  obtain ⟨⟨clause, priority⟩, henabled, hform⟩ := List.mem_flatMap.1 hform
  obtain ⟨p, hp⟩ := Solver.mem_enabled.1 henabled
  cases clause with
  | relation forms =>
    obtain ⟨t, rels, hrels, hall⟩ := h p _ hp
    exact ⟨t, rels, hrels, hall form hform⟩
  | keeps x v => cases hform

/-- **Lowered forms are well formed.** A lowered form has no variable but those of its term and no
coefficient below the floor, so none that is zero or not-a-number. Therefore whatever was asked of a
dataflow solver so far, its planner never stops at a division by such a number: with that check the
loop ends in what propagation says, and in nothing else. -/
theorem LinearForm.sound_of_lowering :
    (∀ t f, ofTerm t = .ok f → f.Sound t) ∧
    (∀ t rels, LinearRelation.ofTerm t = .ok rels → ∀ rel ∈ rels, rel.form.Sound t) ∧
    ∀ history, ∃ d,
      (Solver.dataflow.replay history).algorithm = .dataflow d ∧
        ∀ fixed s, ∃ n, ∀ m r, Dataflow.Ends Numbers.divides d fixed s m r ↔
          m = n ∧ r = (d.propagate fixed s).mapError .refused := by
  refine ⟨fun t f h ↦ (lowers_of_ofTerm h).sound (substantial_of_ofTerm h), fun t rels h rel hrel ↦
    (LinearRelation.lowers_of_ofTerm h hrel).sound (LinearRelation.substantial_of_ofTerm h hrel),
    fun history ↦ ?_⟩
  have hfresh : Solver.dataflow.RunsCompiled := ⟨{}, rfl, Dataflow.compiled_empty⟩
  obtain ⟨d, hd, hcompiled⟩ := hfresh.replay history
  have hlowered : ∀ form ∈ d.equations, form.Ordered ∧ form.Substantial := fun form hform ↦ by
    obtain ⟨t, rels, hrels, rel, hrel, rfl⟩ := hcompiled.of_mem_equations hform
    exact ⟨(LinearRelation.lowers_of_ofTerm hrels hrel).ordered,
      LinearRelation.substantial_of_ofTerm hrels hrel⟩
  refine ⟨d, hd, fun fixed s ↦ ?_⟩
  obtain ⟨n, -, hends⟩ := Dataflow.ends_iff (fun form hform ↦ (hlowered form hform).1)
    (fun form hform x c hc ↦ Numbers.divides_of_floor_le
      ((hlowered form hform).2 (x, c) (SortedMap.mem_of_find? hc))) fixed s
  exact ⟨n, hends⟩

/-- A coefficient that no lowering leaves behind stops the loop. -/
example : Dataflow.Scan.turn Numbers.divides ⟨⟨∅, [], [⟨⟨[(⟨0⟩, 0.0)]⟩, 1.0⟩]⟩, 0, false⟩
    = .error (.divisor 0.0) := by rfl

end LiveConstraints
