import LiveConstraints.Engine.Reading
import LiveConstraints.Proofs.Evolution
/-!
# Reading changes only what is remembered

Finding the defining binding of a variable and its closure writes to the memos of variables and to
nothing else (`Engine.Recalls`); finding the defining binding leaves those of closures alone as well
(`Engine.Finds`). Reading, comparing and inspecting are built from looking for defining bindings, so
they stay within any relation that this stays within (`Engine.Reads`).
-/

namespace LiveConstraints

/-- A variable without what is remembered about it. -/
def Variable.withoutMemos (v : Variable) : Variable :=
  { v with definingMemo := none, multiSolver := false, closureMemo := none }

namespace Engine

variable {e e' e'' : Engine}

/-- Only the memos of variables differ, and what is remembered newly is of the present generation. -/
structure Recalls (e e' : Engine) : Prop where
  /-- Nothing but the variables differs. -/
  same : e' = { e with vars := e'.vars }
  /-- No variable was added. -/
  size : e'.vars.cells.size = e.vars.cells.size
  /-- Nothing but the memos of variables differs. -/
  vars : ∀ x, (e'.vars.get? x).map Variable.withoutMemos
    = (e.vars.get? x).map Variable.withoutMemos
  /-- A defining binding that is remembered was remembered before, or is of the present generation. -/
  recent : ∀ {x w g d}, e'.vars.get? x = some w → w.definingMemo = some (g, d) →
    g = e.guards.generation ∨ ∃ v, e.vars.get? x = some v ∧ v.definingMemo = some (g, d)

instance : IsPreorder Engine Recalls where
  refl _ := ⟨rfl, rfl, fun _ ↦ rfl, fun hw hmemo ↦ .inr ⟨_, hw, hmemo⟩⟩
  trans e e' e'' h h' := by
    refine ⟨?_, h'.size.trans h.size, fun x ↦ (h'.vars x).trans (h.vars x), fun hw hmemo ↦ ?_⟩
    · rw [h'.same, h.same]
    · obtain hg | ⟨v, hv, hmemo'⟩ := h'.recent hw hmemo
      · left
        rw [hg, h.same]
      · exact h.recent hv hmemo'

theorem Recalls.trans (h : Recalls e e') (h' : Recalls e' e'') : Recalls e e'' :=
  trans_of Recalls h h'

namespace Recalls

variable (h : Recalls e e')
include h

theorem objects : e'.objects = e.objects := by rw [h.same]

theorem constraints : e'.constraints = e.constraints := by rw [h.same]

theorem solvers : e'.solvers = e.solvers := by rw [h.same]

theorem guards : e'.guards = e.guards := by rw [h.same]

/-- A variable is there before if it is there after. -/
theorem exists_before {x : VarId} {w : Variable} (hw : e'.vars.get? x = some w) :
    ∃ v, e.vars.get? x = some v ∧ w.withoutMemos = v.withoutMemos := by
  have hx := h.vars x
  rw [hw, Option.map_some] at hx
  obtain ⟨v, hv, heq⟩ := Option.map_eq_some_iff.1 hx.symm
  exact ⟨v, hv, heq.symm⟩

/-- A variable is there after if it is there before. -/
theorem exists_after {x : VarId} {v : Variable} (hv : e.vars.get? x = some v) :
    ∃ w, e'.vars.get? x = some w ∧ w.withoutMemos = v.withoutMemos := by
  have hx := h.vars x
  rw [hv, Option.map_some] at hx
  exact Option.map_eq_some_iff.1 hx

theorem modifies : Modifies e e' := by
  rw [h.same]
  refine modifies_of_move (.retouch _ (fun x w hw ↦ ?_) fun x v hv ↦ ?_) rfl rfl rfl
  · obtain ⟨v, hv, heq⟩ := h.exists_before hw
    exact ⟨v, hv, congrArg (·.key) heq, congrArg (·.bindings) heq, congrArg (·.constraints) heq⟩
  · obtain ⟨w, hw, -⟩ := h.exists_after hv
    exact ⟨w, hw⟩

/-- Bindings are not affected. -/
theorem bound {x : VarId} {s : SolverId} {k : ExtVar} : e'.Bound x s k ↔ e.Bound x s k := by
  constructor
  · rintro ⟨w, hw, hk⟩
    obtain ⟨v, hv, heq⟩ := h.exists_before hw
    refine ⟨v, hv, ?_⟩
    rwa [Variable.handle?, ← show w.bindings = v.bindings from congrArg (·.bindings) heq]
  · rintro ⟨v, hv, hk⟩
    obtain ⟨w, hw, heq⟩ := h.exists_after hv
    refine ⟨w, hw, ?_⟩
    rwa [Variable.handle?, show w.bindings = v.bindings from congrArg (·.bindings) heq]

/-- Memberships are not affected. -/
theorem lists {x : VarId} {id : ConstraintId} : e'.Lists x id ↔ e.Lists x id := by
  constructor
  · rintro ⟨w, hw, hid⟩
    obtain ⟨v, hv, heq⟩ := h.exists_before hw
    exact ⟨v, hv, (congrArg (·.constraints) heq : w.constraints = v.constraints) ▸ hid⟩
  · rintro ⟨v, hv, hid⟩
    obtain ⟨w, hw, heq⟩ := h.exists_after hv
    exact ⟨w, hw, (congrArg (·.constraints) heq : w.constraints = v.constraints) ▸ hid⟩

end Recalls

/-- Only the memos of variables differ, and none of a closure. -/
structure Finds (e e' : Engine) : Prop extends Recalls e e' where
  /-- What is remembered of closures is the same. -/
  closures : ∀ x, (e'.vars.get? x).map Variable.closureMemo
    = (e.vars.get? x).map Variable.closureMemo

instance : IsPreorder Engine Finds where
  refl e := ⟨refl_of Recalls e, fun _ ↦ rfl⟩
  trans _ _ _ h h' :=
    ⟨trans_of Recalls h.toRecalls h'.toRecalls, fun x ↦ (h'.closures x).trans (h.closures x)⟩

/-- Changing the memos of one variable. -/
theorem recalls_modify {x : VarId} {f : Variable → Variable}
    (memos : ∀ v, (f v).withoutMemos = v.withoutMemos)
    (recent : ∀ v g d, (f v).definingMemo = some (g, d) →
      g = e.guards.generation ∨ v.definingMemo = some (g, d)) :
    Recalls e { e with vars := e.vars.modify x f } := by
  refine ⟨rfl, congrArg Id.index (Arena.next_modify e.vars x f),
    Arena.map_get?_modify fun v _ ↦ memos v, fun {y w g d} hw hmemo ↦ ?_⟩
  dsimp only at hw
  rw [Arena.get?_modify] at hw
  split at hw
  · obtain ⟨v, hv, rfl⟩ := Option.map_eq_some_iff.1 hw
    exact (recent v g d hmemo).imp_right fun hbefore ↦ ⟨v, hv, hbefore⟩
  · exact .inr ⟨w, hw, hmemo⟩

theorem enabledFor_congr (constraints : e'.constraints = e.constraints) :
    e'.enabledFor = e.enabledFor := by
  funext s id
  rw [enabledFor, constraints, enabledFor]

/-- One constraint changes, but stays on or off and with its solver. -/
theorem enabledFor_modify {id : ConstraintId} {f : Constraint → Constraint}
    (same : ∀ c, (f c).solver = c.solver ∧ (f c).enabled = c.enabled) :
    enabledFor { e with constraints := e.constraints.modify id f } = e.enabledFor := by
  funext s id'
  unfold enabledFor
  rw [Arena.get?_modify]
  split
  · cases e.constraints.get? id' with
    | none => rfl
    | some c => rw [Option.map_some, Option.any_some, Option.any_some, (same c).1, (same c).2]
  · rfl

/-- A relation that looking for defining bindings stays within. -/
class Reads (R : Engine → Engine → Prop) : Prop extends IsPreorder Engine R where
  defining : ∀ {e : Engine} (x : VarId), Step.Within R e (Step.defining x)

end Engine

open Engine

variable {R : Engine → Engine → Prop} {e e' : Engine}

namespace Step

theorem finds_defining (x : VarId) : Within Finds e (defining x) := by
  unfold defining
  refine .get_bind ?_
  split
  · exact .pure _
  · split
    · exact .pure _
    · split
      · exact .pure _
      · refine Within.bind ⟨recalls_modify (fun _ ↦ rfl) fun v g d hmemo ↦ ?_,
          Arena.map_get?_modify fun _ _ ↦ rfl⟩ fun _ _ _ _ ↦ .pure _
        dsimp only at hmemo
        split at hmemo
        · cases hmemo
          exact .inl rfl
        · cases hmemo

theorem recalls_defining (x : VarId) : Within Recalls e (defining x) :=
  (finds_defining x).mono fun _ ↦ Finds.toRecalls

/-- A closure that looks current is reused. Otherwise it is found, and remembered. -/
theorem closure_cases (x : VarId) (e : Engine) :
    (∃ memo, (e.vars.get? x).bind Variable.closureMemo = some memo ∧
      e.guards.looksCurrent memo.1 = true ∧ closure x e = (memo.2, e)) ∨
    closure x e = (e.closure x, { e with vars := e.vars.modify x fun v =>
      { v with closureMemo := some (e.guards.generation, e.closure x) } }) := by
  unfold closure
  rw [get_run]
  cases (e.vars.get? x).bind Variable.closureMemo with
  | none => exact .inr rfl
  | some memo =>
    cases hlooks : e.guards.looksCurrent memo.1 with
    | true => exact .inl ⟨memo, rfl, hlooks, by simp [hlooks]; rfl⟩
    | false => exact .inr (by simp [hlooks]; rfl)

/-- Looking for a closure does no more than to remember what is found. -/
theorem within_closure [IsPreorder Engine R]
    (found : R e { e with vars := e.vars.modify x fun v =>
      { v with closureMemo := some (e.guards.generation, e.closure x) } }) :
    Within R e (closure x) := by
  obtain ⟨memo, -, -, hrun⟩ | hrun := closure_cases x e
  · rw [Within, hrun]
    exact refl_of R e
  · rw [Within, hrun]
    exact found

theorem recalls_closure (x : VarId) : Within Recalls e (closure x) :=
  within_closure (recalls_modify (fun _ ↦ rfl) fun _ _ _ hmemo ↦ .inr hmemo)

end Step

instance : Reads Recalls where
  defining := Step.recalls_defining

/-! ### Whatever looks for defining bindings -/

section Reads

variable [Reads R]

namespace Step

theorem reads_composeWith {readPart : VarId → Step Value}
    (h : ∀ x e, Within R e (readPart x)) (parts : List (String × VarId)) (v : Value) :
    Within R e (composeWith readPart parts v) := by
  induction parts generalizing e v with
  | nil => exact .pure v
  | cons part rest ih => exact (h part.2 e).bind fun _ _ _ _ ↦ ih _

theorem reads_readWithin (n : Nat) (x : VarId) : Within R e (readWithin n x) := by
  induction n generalizing e x with
  | zero => exact .pure _
  | succ n ih =>
    unfold readWithin
    refine .get_bind ?_
    split
    · exact .pure _
    · refine (Reads.defining x).bind fun d e' _ _ ↦ ?_
      split
      · refine .get_bind ?_
        split <;> exact .pure _
      · split
        · exact reads_composeWith (fun x e ↦ ih x) _ _
        · exact .pure _

theorem reads_read (x : VarId) : Within R e (read x) := .get_bind (reads_readWithin _ x)

end Step

namespace Call

theorem reads_readField (obj : ObjectId) (field : String) : Within R e (readField obj field) := by
  refine .slotAt_bind fun slot _ ↦ ?_
  cases slot with
  | plain v => exact .pure v
  | intercepted x => exact .lift (Step.reads_read x)

theorem reads_storedValue (x : VarId) : Within R e (storedValue x) := by
  refine .variableAt_bind fun v _ ↦ ?_
  split
  · exact .pure _
  · exact .lift (Step.reads_read x)

end Call

end Reads

theorem Step.recalls_readWithin (n : Nat) (x : VarId) : Within Recalls e (readWithin n x) :=
  reads_readWithin n x

theorem Step.recalls_read (x : VarId) : Within Recalls e (read x) := reads_read x

namespace Call

theorem recalls_readField (obj : ObjectId) (field : String) :
    Within Recalls e (readField obj field) := reads_readField obj field

theorem recalls_storedValue (x : VarId) : Within Recalls e (storedValue x) := reads_storedValue x

end Call

end LiveConstraints
