import LiveConstraints.Proofs.Convergence
import LiveConstraints.Proofs.Custody.Answering
/-!
# Read-only fields stay read-only

A predicate pins the fields that it only refers to: its solver may not assign them. What is pinned
while no write holds a handle is secure (`Engine.secure_of_pin`). Between requests no write does, so a
handle that is read-only then is secure, and stays read-only as long as it exists, whatever is asked
of the engine, writes and selections of other solvers included (`Engine.Driven.readonly_run`).

A predicate that is evaluated in the course of a write is another matter. The write may have pinned
the handle already; it will release it, and the pin of the predicate goes with it
(`Engine.exists_writable_pinned`).
-/

namespace LiveConstraints

open Engine

variable {e e' : Engine} {config : Setup} {s : SolverId} {h : ExtVar} {requests : List Request}

theorem Reentry.shielding_ofDepth (n : Nat) : (ofDepth n).Shielding :=
  reacting_ofList n ▸ shielding_reacting _ n

namespace Engine

/-- The read-only flag of a solver's variable that exists. -/
def flag? (e : Engine) (s : SolverId) (h : ExtVar) : Option Bool :=
  (e.solvers.get? s).bind fun solver ↦ solver.flag? h

/-- What is read-only while nothing is pinned is secure. -/
theorem secure_of_unpinned (hunpinned : ∀ x, ¬ e.Pinned x) (hflag : e.flag? s h = some true) :
    e.Secure s h := by
  obtain ⟨solver, hsolver, hflag⟩ := Option.bind_eq_some_iff.1 hflag
  refine ⟨solver, hsolver, Solver.handedOut_of_flag? hflag, fun b hb ↦ ⟨?_, ?_⟩⟩
  · exact Option.some.inj (hb.symm.trans hflag)
  · rintro ⟨x, w, hw, hmem⟩
    refine hunpinned x ⟨w, hw, ?_⟩
    cases hpinned : w.pinned with
    | none =>
      rw [hpinned] at hmem
      cases hmem
    | some _ => rfl

theorem Secure.flag?_ne (hsecure : e.Secure s h) : e.flag? s h ≠ some false := by
  obtain ⟨solver, hsolver, -, hflag⟩ := hsecure
  rw [flag?, hsolver, Option.bind_some]
  exact fun hfalse ↦ Bool.false_ne_true (hflag false hfalse).1

/-- **Pinning.** What a predicate pins while no write has pinned anything is secure. -/
theorem secure_of_pin {scope : Scope} {x : VarId} {b : Bool} (hunpinned : ∀ y, ¬ e.Pinned y)
    (hhandle : e.handle? x scope.solver = some h) (hflag : e.flag? scope.solver h = some b)
    (hpin : Call.pin scope x e = (.ok ⟨⟩, e')) : e'.Secure scope.solver h := by
  obtain ⟨solver, hsolver, hflag⟩ := Option.bind_eq_some_iff.1 hflag
  have hcall := Call.callSolver_eq scope.solver (fun s ↦ ((), s.setReadonly h true)) e
  unfold Call.pin at hpin
  rw [Call.get_run, hhandle] at hpin
  rw [hsolver] at hcall
  cases hcall.symm.trans hpin
  refine secure_of_unpinned hunpinned ?_
  dsimp only [flag?]
  rw [Arena.get?_modify_self, hsolver, Option.map_some, Option.bind_some, Solver.flag?_setReadonly,
    if_pos rfl, hflag, Option.map_some]

/-- Between requests, what is read-only is secure. -/
theorem Driven.secure (hdriven : Driven config e) (hflag : e.flag? s h = some true) :
    e.Secure s h := secure_of_unpinned hdriven.unpinned hflag

/-- **A run** of requests that do not set flags protects what there is. -/
theorem shields_run (hflags : ∀ request ∈ requests, request.setsFlags = false)
    (hreturns : e.returnsAll requests = true) : Shields e (e.run requests) := by
  refine run_induction (fun e₁ h₁ request hmem hne ↦ ?_) (refl_of Shields e) hreturns
  have hanswer : Shields e₁ (e₁.answer request).2 :=
    Call.shields_perform (Reentry.shielding_ofDepth nestingLimit) (hflags request hmem) hne
  exact trans_of Shields h₁ hanswer

/-- **Read-only handles.** A handle that is read-only between requests stays so as long as it exists,
whatever is asked and whatever comes of it, unless someone sets flags: none of the requests does, and
no hook or handler did. -/
theorem Driven.readonly_run (hdriven : Driven config e) (hflag : e.flag? s h = some true)
    (hflags : ∀ request ∈ requests, request.setsFlags = false)
    (hreturns : e.returnsAll requests = true)
    (hmade : (e.run requests).flagsSet = e.flagsSet) :
    (e.run requests).flag? s h ≠ some false := by
  have hprotects := (shields_run hflags hreturns).protects hmade
  exact (hprotects.secures.secure (hdriven.secure hflag)).flag?_ne

/-- A bound on a sum of which one field is only referred to. -/
def sumBounded (interval : Nat) : List Request := [
  .addSolver (.relaxation 1000 1e-9) false,
  .addSolver (.domainSearch 10000) false,
  .createObject [("x", .number 1), ("y", .number 2)],
  .always (.binary .le (.binary .add (Expr.fieldOf 0 "x") (.readonly (Expr.fieldOf 0 "y")))
    (.const (.number 100))) { interval := some interval }]

/-- Both fields are written. -/
def sumWritten : List Request := [.write ⟨0⟩ "x" (.number 5), .write ⟨0⟩ "y" (.number 7)]

/-- The solver keeps its variable for the field, and may not assign it. -/
theorem readonly_run_sumBounded : ((new {}).run (sumBounded 10)).flag? ⟨0⟩ ⟨1⟩ = some true ∧
    (((new {}).run (sumBounded 10)).run sumWritten).flag? ⟨0⟩ ⟨1⟩ = some true := by
  have hdriven : Driven {} ((new {}).run (sumBounded 10)) :=
    .run .new (by decide +kernel)
  have hflag : ((new {}).run (sumBounded 10)).flag? ⟨0⟩ ⟨1⟩ = some true := by decide +kernel
  have hkept : ((((new {}).run (sumBounded 10)).run sumWritten).flag? ⟨0⟩ ⟨1⟩).isSome = true := by
    decide +kernel
  have hne : (((new {}).run (sumBounded 10)).run sumWritten).flag? ⟨0⟩ ⟨1⟩ ≠ some false :=
    hdriven.readonly_run hflag (by decide) (by decide +kernel) (by decide +kernel)
  obtain ⟨_ | _, hb⟩ := Option.isSome_iff_exists.1 hkept
  · exact absurd hb hne
  · exact ⟨hflag, hb⟩

/-- The other field is written, which has the solver of the bound selected anew, while another bound
on the field has a handle of its own in the solver that is selected. -/
def rebounded : List Request := sumBounded 1 ++ [
  .always (.inDomain (Expr.fieldOf 0 "y") [.number 2, .number 3]) { solver := some ⟨1⟩ },
  .write ⟨0⟩ "x" (.number 5)]

/-- Every request succeeded and none sets flags. The bound is on, and its solver may assign the field
that the bound only refers to. -/
theorem exists_writable_pinned : Reachable {} ((new {}).run rebounded) ∧
    (new {}).succeedsAll rebounded = true ∧ (∀ request ∈ rebounded, request.setsFlags = false) ∧
    (((new {}).run rebounded).constraints.get? ⟨0⟩).map (fun c ↦ (c.solver, c.enabled))
      = some (⟨1⟩, true) ∧
    ∃ y h, ((new {}).run rebounded).variableOf? ⟨0⟩ "y" = some y ∧
      ((new {}).run rebounded).handle? y ⟨1⟩ = some h ∧
      ((new {}).run rebounded).flag? ⟨1⟩ h = some false := by
  have hreachable : Reachable {} ((new {}).run rebounded) := by
    refine (Reachable.new rfl).run ?_ (by decide +kernel)
    simp only [rebounded, sumBounded, Admissible, List.cons_append, List.nil_append,
      List.forall_mem_cons]
    exact ⟨.addSolver rfl, .addSolver rfl, .plain rfl, .unhandled rfl, .unhandled rfl, .plain rfl,
      List.forall_mem_nil _⟩
  exact ⟨hreachable, by decide +kernel, by decide, by decide +kernel, ⟨1⟩, ⟨2⟩, by decide +kernel,
    by decide +kernel, by decide +kernel⟩

end Engine

end LiveConstraints
