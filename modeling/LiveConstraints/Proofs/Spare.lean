import LiveConstraints.Proofs.MoveSound
/-!
# Clauses that demand nothing

A clause never changes what it demands, and an identity that was handed out is not handed out again
(`Engine.Grows`). So a primitive that was installed to keep a variable's value stays one that demands
nothing, whatever the engine does in between (`Engine.Spare`); it may be switched and removed at any
time.
-/

namespace LiveConstraints.Engine

variable {e e' e'' : Engine} {s : SolverId} {p : Primitive}

/-- Clauses demand what they demanded, and new ones have new identities. -/
structure Grows (e e' : Engine) : Prop where
  issued : ∀ s, e.issued s ≤ e'.issued s
  demands : ∀ s p d on, p.index < e.issued s → e'.clause? s p = some (d, on) →
    ∃ on, e.clause? s p = some (d, on)

theorem Grows.refl (e : Engine) : Grows e e := ⟨fun _ ↦ Nat.le_refl _, fun _ _ _ on _ h ↦ ⟨on, h⟩⟩

theorem Grows.trans (h : Grows e e') (h' : Grows e' e'') : Grows e e'' where
  issued s := Nat.le_trans (h.issued s) (h'.issued s)
  demands s p d on hp hclause := by
    obtain ⟨on', hclause'⟩ := h'.demands s p d on (Nat.lt_of_lt_of_le hp (h.issued s)) hclause
    exact h.demands s p d on' hp hclause'

theorem grows_of_solvers (solvers : e'.solvers = e.solvers) : Grows e e' := by
  refine ⟨fun s ↦ ?_, fun s p d on _ hclause ↦ ⟨on, ?_⟩⟩
  · exact Nat.le_of_eq (by rw [issued_congr solvers])
  · rwa [clause?_congr solvers] at hclause

theorem grows_of_solver {f : Solver → Solver} (solvers : e'.solvers = e.solvers.modify s f)
    (h : ∀ solver, e.solvers.get? s = some solver → solver.issued ≤ (f solver).issued ∧
      ∀ p d on, p.index < solver.issued → (f solver).clause? p = some (d, on) →
        ∃ on, solver.clause? p = some (d, on)) : Grows e e' := by
  have hcases : ∀ t, e'.solvers.get? t = e.solvers.get? t ∨
      ∃ solver, t = s ∧ e.solvers.get? t = some solver ∧ e'.solvers.get? t = some (f solver) := by
    intro t
    rw [get?_solvers_of_modify solvers]
    split
    · next hts =>
      cases hsolver : e.solvers.get? t with
      | none => exact .inl rfl
      | some solver => exact .inr ⟨solver, hts, rfl, rfl⟩
    · exact .inl rfl
  refine ⟨fun t ↦ ?_, fun t p d on hp hclause ↦ ?_⟩
  · rcases hcases t with hsame | ⟨solver, rfl, hold, hnew⟩
    · exact Nat.le_of_eq (by rw [issued, issued, hsame])
    · rw [issued_eq hold, issued_eq hnew]
      exact (h solver hold).1
  · rcases hcases t with hsame | ⟨solver, rfl, hold, hnew⟩
    · rw [clause?, hsame] at hclause
      exact ⟨on, hclause⟩
    · rw [issued_eq hold] at hp
      rw [clause?_eq hnew] at hclause
      rw [clause?_eq hold]
      exact (h solver hold).2 p d on hp hclause

/-- The clauses of a solver stay, or some of them are switched. -/
theorem grows_of_switched {f : Solver → Solver} (on : Bool) (ps : List Primitive)
    (solvers : e'.solvers = e.solvers.modify s f)
    (h : ∀ solver, e.solvers.get? s = some solver → (f solver).issued = solver.issued ∧
      ∀ q, (f solver).clause? q
        = if q ∈ ps then (solver.clause? q).map fun c ↦ (c.1, on) else solver.clause? q) :
    Grows e e' := by
  refine grows_of_solver solvers fun solver hsolver ↦ ?_
  obtain ⟨hissued, hclause⟩ := h solver hsolver
  refine ⟨Nat.le_of_eq hissued.symm, fun p d b _ hp ↦ ?_⟩
  rw [hclause] at hp
  split at hp
  · obtain ⟨⟨d', b'⟩, hold, heq⟩ := Option.map_eq_some_iff.1 hp
    cases heq
    exact ⟨b', hold⟩
  · exact ⟨b, hp⟩

/-- The clauses of a solver stay. -/
theorem grows_of_same {f : Solver → Solver} (solvers : e'.solvers = e.solvers.modify s f)
    (h : ∀ solver, e.solvers.get? s = some solver → (f solver).issued = solver.issued ∧
      (f solver).clause? = solver.clause?) : Grows e e' := by
  refine grows_of_solver solvers fun solver hsolver ↦ ?_
  obtain ⟨hissued, hclause⟩ := h solver hsolver
  exact ⟨Nat.le_of_eq hissued.symm, fun p d b _ hp ↦ ⟨b, by rwa [hclause] at hp⟩⟩

theorem grows_of_move (h : Move e e') : Grows e e' := by
  cases h with
  | aside config objects vars constraints solvers tame => exact grows_of_solvers solvers
  | activate id c f live solves =>
    refine grows_of_switched true c.primitives rfl fun solver hsolver ↦ ?_
    obtain ⟨switched, htoggles, ⟨-, heq⟩ | hadopts⟩ := solves solver hsolver
    · rw [heq]
      exact ⟨htoggles.issued, htoggles.clause?⟩
    · rw [hadopts.issued, hadopts.clause?]
      exact ⟨htoggles.issued, htoggles.clause?⟩
  | deactivate id c f live toggles =>
    exact grows_of_switched false c.primitives rfl fun solver hsolver ↦
      ⟨(toggles solver hsolver).issued, (toggles solver hsolver).clause?⟩
  | adopt s f adopts =>
    refine grows_of_same rfl fun solver hsolver ↦ ?_
    rcases adopts solver hsolver with h | h
    · exact ⟨h.issued, h.clause?⟩
    · exact ⟨h.issued, h.clause?⟩
  | declare s f declares =>
    refine grows_of_same rfl fun solver hsolver ↦ ?_
    obtain ⟨_, _, h⟩ := declares solver hsolver
    exact ⟨h.issued, h.clause?⟩
  | undeclare s h f forgets free unmentioned =>
    exact grows_of_same rfl fun solver hsolver ↦
      ⟨(forgets solver hsolver).issued, (forgets solver hsolver).clause?⟩
  | install s f installs =>
    refine grows_of_solver rfl fun solver hsolver ↦ ?_
    obtain ⟨q, d, h, -⟩ := installs solver hsolver
    refine ⟨by rw [h.issued]; exact Nat.le_succ _, fun p d' on hp hclause ↦ ⟨on, ?_⟩⟩
    rw [h.clause?, if_neg] at hclause
    · exact hclause
    · rintro rfl
      rw [h.index] at hp
      exact Nat.lt_irrefl _ hp
  | erase s q f erases unowned =>
    refine grows_of_solver rfl fun solver hsolver ↦ ?_
    have h := erases solver hsolver
    refine ⟨Nat.le_of_eq h.issued.symm, fun p d on _ hclause ↦ ⟨on, ?_⟩⟩
    rw [h.clause?] at hclause
    split at hclause
    · cases hclause
    · exact hclause
  | toggle s q on f toggles spare =>
    refine grows_of_switched on [q] rfl fun solver hsolver ↦ ?_
    have h := toggles solver hsolver
    exact ⟨h.issued, fun p ↦ by rw [h.clause?]; simp only [List.mem_singleton]⟩
  | addSolver solver fresh =>
    have hold : ∀ t, t ≠ e.solvers.next →
        (e.solvers.insert solver).get? t = e.solvers.get? t := by
      intro t ht
      rw [Arena.get?_insert, if_neg ht]
    refine ⟨fun t ↦ ?_, fun t p d on hp hclause ↦ ⟨on, ?_⟩⟩
    · by_cases ht : t = e.solvers.next
      · rw [issued, ht, Arena.get?_next]
        exact Nat.zero_le _
      · exact Nat.le_of_eq (by rw [issued, issued, hold t ht])
    · by_cases ht : t = e.solvers.next
      · rw [issued, ht, Arena.get?_next] at hp
        exact absurd hp (Nat.not_lt_zero _)
      · rwa [clause?, hold t ht] at hclause
  | _ => exact grows_of_solvers rfl

theorem grows_of_path (h : Path e e') : Grows e e' := by
  induction h with
  | refl => exact .refl e
  | tail _ hmove ih => exact ih.trans (grows_of_move hmove)

/-- A primitive that was handed out and demands nothing. -/
structure Spare (e : Engine) (s : SolverId) (p : Primitive) : Prop where
  issued : p.index < e.issued s
  idle : ∀ d on, e.clause? s p = some (d, on) → ¬ d.IsRelation

theorem Spare.path (h : e.Spare s p) (hpath : Path e e') : e'.Spare s p := by
  have hgrows := grows_of_path hpath
  refine ⟨Nat.lt_of_lt_of_le h.issued (hgrows.issued s), fun d on hclause ↦ ?_⟩
  obtain ⟨on', hold⟩ := hgrows.demands s p d on h.issued hclause
  exact h.idle d on' hold

/-- A primitive that demands nothing belongs to no constraint. -/
theorem Spare.unowned (h : e.Spare s p) (hs : e.Sound) : ¬ e.Owned s p := by
  rintro ⟨id, c, hc, rfl, hp⟩
  obtain ⟨⟨d, on⟩, hclause⟩ := Option.isSome_iff_exists.1 (hs.existing id c hc p hp)
  exact h.idle d on hclause (hs.covered id c hc p hp d on hclause).relation

end LiveConstraints.Engine
