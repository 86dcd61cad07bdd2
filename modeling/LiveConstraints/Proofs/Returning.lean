import LiveConstraints.Proofs.Reentrant.Writing
/-!
# Operations that return

An operation that does not lead back into the engine is never interrupted: it succeeds or fails
(`Call.Returns`). These are the ones that a request may come down to.
-/

namespace LiveConstraints

variable {α β : Type}

namespace Call

/-- A computation that succeeds or fails, but is never interrupted. -/
def Returns (m : Call α) : Prop := ∀ e, (m e).1 ≠ .error .tooDeep

namespace Returns

variable {m : Call α} {f : α → Call β}

theorem pure (a : α) : Returns (pure a) := fun _ ↦ by
  show (.ok a : Except Halt α) ≠ _
  simp

theorem fail (err : EngineError) : Returns (fail err : Call α) := fun _ ↦ by
  show (.error (.failed err) : Except Halt α) ≠ _
  simp

/-- Nothing follows on a failure. -/
theorem fail_bind {err : EngineError} : Returns ((Call.fail err : Call α) >>= f) := fun _ ↦ by
  show (.error (.failed err) : Except Halt β) ≠ _
  simp

theorem ofExcept (result : Except EngineError α) : Returns (ofExcept result) := by
  cases result with
  | ok a => exact .pure a
  | error err => exact .fail err

theorem lift (m : Step α) : Returns (liftM m) := fun e ↦ by
  rw [lift_run]
  simp

theorem bind (hm : Returns m) (hf : ∀ a, Returns (f a)) : Returns (m >>= f) := by
  intro e
  rcases hrun : m e with ⟨halt | a, e₁⟩
  · rw [bind_of_error hrun]
    rintro ⟨⟩
    exact hm e (by rw [hrun])
  · rw [bind_of_ok hrun]
    exact hf a e₁

theorem get_bind {f : Engine → Call β} (hf : ∀ e, Returns (f e)) : Returns (get >>= f) :=
  fun e ↦ hf e e

theorem lift_bind {m : Step α} (hf : ∀ a, Returns (f a)) : Returns (liftM m >>= f) := (lift m).bind hf

theorem modify_bind {g : Engine → Engine} {f : PUnit → Call β} (hf : Returns (f ⟨⟩)) :
    Returns (modify g >>= f) := fun e ↦ hf (g e)

theorem forIn {l : List α} {b : β} {f : α → β → Call (ForInStep β)} (h : ∀ a b, Returns (f a b)) :
    Returns (forIn l b f) := by
  induction l generalizing b with
  | nil => exact .pure _
  | cons a l ih =>
    rw [List.forIn_cons]
    refine (h a b).bind fun step ↦ ?_
    cases step with
    | done b => exact .pure _
    | yield b => exact ih

theorem forM {l : List α} {f : α → Call PUnit} (h : ∀ a, Returns (f a)) : Returns (l.forM f) := by
  induction l with
  | nil => exact .pure _
  | cons a l ih => exact (h a).bind fun _ ↦ ih

theorem attempt (hm : Returns m) : Returns (attempt m) := fun e ↦ by
  rcases hrun : m e with ⟨(err | _) | a, e₁⟩
  · rw [attempt_failed hrun]
    simp
  · exact absurd (by rw [hrun]) (hm e)
  · rw [attempt_ok hrun]
    simp

theorem mapM {l : List α} {f : α → Call β} (h : ∀ a, Returns (f a)) : Returns (l.mapM f) := by
  induction l with
  | nil => exact .pure _
  | cons a l ih =>
    rw [List.mapM_cons]
    exact (h a).bind fun _ ↦ ih.bind fun _ ↦ .pure _

theorem ite {p : Prop} [Decidable p] {n : Call α} (hm : Returns m) (hn : Returns n) :
    Returns (if p then m else n) := by
  split
  · exact hm
  · exact hn

end Returns

/-! ### Looking things up -/

theorem Returns.lookup {o : Engine → Option α} {m : Call α} {err : EngineError}
    (h : ∀ e, m e = (found (o e) err, e)) : Returns m := fun e ↦ by
  rw [h]
  cases o e <;> simp [found]

theorem returns_variableAt (x : VarId) : Returns (variableAt x) := .lookup (variableAt_eq x)

theorem returns_constraintAt (id : ConstraintId) : Returns (constraintAt id) :=
  .lookup (constraintAt_eq id)

theorem returns_solverAt (s : SolverId) : Returns (solverAt s) := .lookup (solverAt_eq s)

theorem returns_objectAt (obj : ObjectId) : Returns (objectAt obj) := .lookup (objectAt_eq obj)

theorem returns_changeConstraint (id : ConstraintId) (f : Constraint → Constraint) :
    Returns (changeConstraint id f) := (returns_constraintAt id).bind fun _ ↦ .lift _

theorem returns_callSolver (s : SolverId) (f : Solver → α × Solver) : Returns (callSolver s f) := by
  refine .lift_bind fun a? ↦ ?_
  split
  · exact .pure _
  · exact .fail _

theorem returns_askSolver (s : SolverId) (f : Solver → Except SolverError α × Solver) :
    Returns (askSolver s f) := by
  refine .get_bind fun e ↦ (returns_callSolver s f).bind fun result ↦ ?_
  split
  · exact .pure _
  · exact .fail _

theorem returns_changeSolver (s : SolverId) (f : Solver → Solver) : Returns (changeSolver s f) :=
  returns_callSolver s _

theorem returns_slotAt (obj : ObjectId) (field : String) : Returns (slotAt obj field) :=
  .get_bind fun _ ↦ .ofExcept _

theorem returns_setSlot (obj : ObjectId) (field : String) (slot : FieldSlot) :
    Returns (setSlot obj field slot) := (returns_objectAt obj).bind fun _ ↦ .lift _

theorem returns_fieldNames (obj : ObjectId) : Returns (fieldNames obj) :=
  (returns_objectAt obj).bind fun _ ↦ .pure _

theorem returns_readField (obj : ObjectId) (field : String) : Returns (readField obj field) := by
  refine (returns_slotAt obj field).bind fun slot ↦ ?_
  split
  · exact .pure _
  · exact .lift _

/-! ### Inspecting -/

theorem returns_inspectExpr (context : SortedMap String Value) (expr : Expr) (leaf : Bool)
    (seen : Inspection) : Returns (inspectExpr context expr leaf seen) := by
  induction expr generalizing leaf seen with
  | const v => exact .pure _
  | name n =>
    unfold inspectExpr
    split
    · exact .pure _
    · exact .fail _
  | member base name ih =>
    refine (ih false seen).bind fun result ↦ ?_
    obtain ⟨v, seen⟩ := result
    have hseen : ∀ w, Returns (if leaf && !w.isNone then
        (pure (w, { seen with types := seen.types ++ [w.tag] }) : Call (Value × Inspection))
        else pure (w, seen)) := fun _ ↦ .ite (.pure _) (.pure _)
    cases v with
    | object obj => exact (returns_readField obj name).bind hseen
    | _ =>
      dsimp only
      split
      · exact (Returns.pure _).bind hseen
      · exact (Returns.fail _).bind hseen
  | readonly inner ih => exact ih leaf seen
  | unary op inner ih => exact (ih true seen).bind fun _ ↦ .pure _
  | binary op l r ihl ihr => exact (ihl true seen).bind fun _ ↦ (ihr true _).bind fun _ ↦ .pure _
  | inDomain inner domain ih => exact (ih true _).bind fun _ ↦ .pure _

theorem returns_inspect (context : SortedMap String Value) (predicate : Expr) :
    Returns (inspect context predicate) :=
  (returns_inspectExpr context predicate true {}).bind fun _ ↦ .pure _

/-! ### Requests -/

theorem returns_createObject (fields : List (String × Value)) : Returns (createObject fields) :=
  .get_bind fun _ ↦ .modify_bind (.pure _)

theorem returns_slotOrCreate (obj : ObjectId) (field : String) : Returns (slotOrCreate obj field) := by
  refine (returns_objectAt obj).bind fun o ↦ ?_
  split
  · exact .pure _
  · exact (returns_setSlot obj field _).bind fun _ ↦ .pure _

theorem returns_onWrite (obj : ObjectId) (field : String) (hook : Hook) :
    Returns (onWrite obj field hook) := (returns_objectAt obj).bind fun _ ↦ .lift _

theorem returns_definingOf (obj : ObjectId) (field : String) : Returns (definingOf obj field) := by
  refine .get_bind fun e ↦ ?_
  split
  · exact .pure _
  · exact .lift_bind fun _ ↦ .get_bind fun _ ↦ .pure _

theorem returns_setReadonly (obj : ObjectId) (field : String) (on : Bool) :
    Returns (setReadonly obj field on) := by
  refine .get_bind fun e ↦ ?_
  split
  · exact .fail _
  · refine (returns_variableAt _).bind fun v ↦ Returns.bind (.forIn fun b _ ↦ ?_) fun _ ↦ .pure _
    exact (returns_changeSolver b.1 _).bind fun _ ↦ .pure _

theorem returns_unconstrainWithin (n : Nat) (obj : ObjectId) (field : String) :
    Returns (unconstrainWithin n obj field) := by
  induction n generalizing obj field with
  | zero => exact .pure _
  | succ n ih =>
    unfold unconstrainWithin
    refine (returns_slotAt obj field).bind fun slot ↦ ?_
    split
    · exact .pure _
    · refine .lift_bind fun v ↦ (returns_setSlot obj field _).bind fun _ ↦ .lift_bind fun _ ↦
        .lift_bind fun _ ↦ ?_
      split
      · refine (returns_fieldNames _).bind fun names ↦
          Returns.bind (.forIn fun name _ ↦ ?_) fun _ ↦ .pure _
        exact .get_bind fun e ↦ .ite ((ih _ name).bind fun _ ↦ .pure _) (.pure _)
      · exact .pure _

theorem returns_unconstrain (obj : ObjectId) (field : String) : Returns (unconstrain obj field) :=
  .get_bind fun _ ↦ returns_unconstrainWithin _ obj field

theorem returns_unconstrainAll (obj : ObjectId) : Returns (unconstrainAll obj) := by
  refine (returns_fieldNames obj).bind fun names ↦ Returns.bind (.forIn fun name _ ↦ ?_) fun _ ↦ .pure _
  exact .get_bind fun e ↦ .ite ((returns_unconstrain obj name).bind fun _ ↦ .pure _) (.pure _)

theorem returns_editable (obj : ObjectId) (field : String) : Returns (editable obj field) := by
  refine .get_bind fun e ↦ ?_
  split
  · exact .fail _
  · refine (returns_variableAt _).bind fun v ↦ .ite .fail_bind (.ite .fail_bind ?_)
    refine Returns.bind (.forIn fun b _ ↦ (returns_solverAt b.1).bind fun solver ↦ ?_) fun _ ↦ .pure _
    exact .ite .fail_bind (.pure _)

theorem returns_openEdit (obj : ObjectId) (fields : List String) : Returns (openEdit obj fields) := by
  refine Returns.bind (.mapM fun field ↦ returns_editable obj field) fun handles ↦ ?_
  refine Returns.bind (.forM fun _ ↦ .forM fun b ↦ returns_changeSolver b.1 _) fun _ ↦ ?_
  refine Returns.bind (.forIn fun b _ ↦ ?_) fun _ ↦ .modify_bind (.pure _)
  exact (returns_askSolver _ _).bind fun _ ↦ .pure _

theorem returns_closeIn (solvers : List SolverId) : Returns (closeIn solvers) := by
  induction solvers with
  | nil => exact .pure _
  | cons s rest ih =>
    refine Returns.bind (.attempt (returns_askSolver s _)) fun result ↦ ih.bind fun failures ↦ ?_
    cases result <;> exact .pure _

theorem returns_finishEdit (session : EditSession) : Returns (finishEdit session) := by
  refine Returns.bind (.forM fun _ ↦ .lift _) fun _ ↦ (returns_closeIn _).bind fun failures ↦ ?_
  cases failures with
  | nil => exact .pure _
  | cons err _ => exact .fail _

theorem returns_setWeight (s : SolverId) (weight : Float) : Returns (setWeight s weight) :=
  (returns_changeSolver s _).bind fun _ ↦ .lift _

end Call

end LiveConstraints
