import LiveConstraints.Proofs.Quiescence.Answering
import LiveConstraints.Proofs.Reselecting.Nesting
/-!
# What variables are bound to was handed out

A variable is bound to a handle when a solver that was asked to represent it handed one out, and a
solver takes no count back. So whatever is asked of an engine, and whatever hooks and handlers do,
every binding is granted by its solver (`Engine.Driven.granted`), and no handle that a solver is yet
to hand out is bound already.

The operations stay within the relation that says so because they stay within any that does not notice
guards, weights, pins and what is deferred (`Engine.Lasting`).
-/

namespace LiveConstraints

open Engine

variable {e e' : Engine} {config : Setup}

/-! ### Bindings -/

namespace Engine

/-- Every binding is granted by its solver. -/
def Granted (e : Engine) : Prop :=
  ∀ x v, e.vars.get? x = some v → ∀ b ∈ v.bindings.entries, e.Grants b

/-- Bindings stay granted. -/
def Honours (e e' : Engine) : Prop := e.Granted → e'.Granted

instance : IsPreorder Engine Honours where
  refl _ := id
  trans _ _ _ h h' := h' ∘ h

/-- Solvers take nothing back, and every binding is granted or was there before. -/
theorem honours_of_bindings (solvers : ∀ {b}, e.Grants b → e'.Grants b)
    (vars : ∀ {x w b}, e'.vars.get? x = some w → b ∈ w.bindings.entries →
      e.Grants b ∨ ∃ y v, e.vars.get? y = some v ∧ b ∈ v.bindings.entries) : Honours e e' := by
  intro hgranted x w hw b hb
  obtain hb | ⟨y, v, hv, hb⟩ := vars hw hb
  · exact solvers hb
  · exact solvers (hgranted y v hv b hb)

/-- Variables and solvers are all that matters. -/
theorem honours_aside (vars : e'.vars = e.vars) (solvers : e'.solvers = e.solvers) :
    Honours e e' :=
  honours_of_bindings (fun hb ↦ by rwa [Grants, solvers]) fun hw hb ↦ .inr ⟨_, _, vars ▸ hw, hb⟩

/-- A variable changes, and is bound newly to what is granted only. -/
theorem honours_variable {x : VarId} {f : Variable → Variable}
    (bindings : ∀ v, ∀ b ∈ (f v).bindings.entries, b ∈ v.bindings.entries ∨ e.Grants b) :
    Honours e { e with vars := e.vars.modify x f } := by
  refine honours_of_bindings id fun hw hb ↦ ?_
  obtain ⟨v, hv, ⟨rfl, rfl⟩ | ⟨-, rfl⟩⟩ := exists_of_modify hw
  · exact (bindings v _ hb).symm.imp_right fun hmem ↦ ⟨_, v, hv, hmem⟩
  · exact .inr ⟨_, _, hv, hb⟩

/-- A solver changes, and takes nothing back. -/
theorem honours_solver {s : SolverId} {f : Solver → Solver}
    (handedOut : ∀ solver, e.solvers.get? s = some solver →
      ∀ {h}, solver.HandedOut h → (f solver).HandedOut h) :
    Honours e { e with solvers := e.solvers.modify s f } := by
  refine honours_of_bindings (fun {b} hb ↦ ?_) fun hw hb ↦ .inr ⟨_, _, hw, hb⟩
  obtain ⟨solver, hsolver, hhanded⟩ := hb
  by_cases hb : b.1 = s
  · refine ⟨f solver, ?_, fun h hh ↦ handedOut solver (hb ▸ hsolver) (hhanded h hh)⟩
    dsimp only
    rw [Arena.get?_modify, if_pos hb, hsolver, Option.map_some]
  · refine ⟨solver, ?_, hhanded⟩
    dsimp only
    rw [Arena.get?_modify, if_neg hb, hsolver]

theorem Recalls.honours (h : Recalls e e') : Honours e e' := by
  refine honours_of_bindings (fun hb ↦ by rwa [Grants, h.solvers]) fun hw hb ↦ ?_
  obtain ⟨v, hv, heq⟩ := h.exists_before hw
  have hbindings : _ = v.bindings := congrArg (·.bindings) heq
  exact .inr ⟨_, v, hv, hbindings ▸ hb⟩

instance : Managing Honours where
  aside _ vars _ solvers _ _ _ _ _ := honours_aside vars solvers
  finds h := h.honours
  current h := h
  retouch _ _ retouches := honours_variable fun v ↦ (retouches v).bindings
  allocate {e v} blank := by
    refine honours_of_bindings id fun hw hb ↦ ?_
    obtain ⟨-, rfl⟩ | ⟨-, hw⟩ := Arena.of_get?_insert hw
    · rw [blank.bindings] at hb
      cases hb
    · exact .inr ⟨_, _, hw, hb⟩
  release _ := honours_of_bindings id fun hw hb ↦ .inr ⟨_, _, (Arena.of_get?_remove hw).2, hb⟩
  adjust _ _ _ := honours_aside rfl rfl
  introduce _ := honours_aside rfl rfl
  retire _ := honours_aside rfl rfl
  confine _ _ operates := honours_solver fun solver hsolver _ ↦ (operates solver hsolver).handedOut
  register solver := by
    refine honours_of_bindings (fun {b} hb ↦ ?_) fun hw hb ↦ .inr ⟨_, _, hw, hb⟩
    obtain ⟨other, hother, hhanded⟩ := hb
    exact ⟨other, Arena.get?_insert_of_get? hother, hhanded⟩

instance : Reentrant Honours :=
  .of_ordinary (fun _ vars _ solvers _ _ _ ↦ honours_aside vars solvers)
    (fun _ _ ↦ honours_aside rfl rfl) (fun _ ↦ honours_aside rfl rfl)
    fun _ _ _ ↦ honours_aside rfl rfl

/-- A read-only flag is set. -/
theorem honours_setReadonly (s : SolverId) (h : ExtVar) (on : Bool) :
    Honours e { e with solvers := e.solvers.modify s fun solver => solver.setReadonly h on } :=
  honours_solver fun _ _ _ hh ↦ by rwa [Solver.handedOut_setReadonly]

instance : Pinning Honours where
  closure x := (Step.recalls_closure x).mono fun _ ↦ Recalls.honours
  weigh _ _ weighs := honours_solver fun solver hsolver _ ↦ by
    obtain ⟨weight, hweight⟩ := weighs solver hsolver
    rw [hweight]
    exact (Solver.locks_setWeight weight).handedOut
  pin _ := Step.within_pinDownstream (fun s h on ↦ honours_setReadonly s h on)
    fun _ ↦ honours_variable fun _ _ hb ↦ .inl hb
  unpin _ := Step.within_unpinDownstream (fun s h on ↦ honours_setReadonly s h on)
    fun _ ↦ honours_variable fun _ _ hb ↦ .inl hb
  suggesting _ h := h

instance : Lasting Honours where
  store _ _ := .lift (honours_variable fun _ _ hb ↦ .inl hb)
  guards _ _ := honours_aside rfl rfl
  bumpFor := Call.ordinary_bumpFor
  unbump := Step.ordinary_unbump
  aside _ _ _ _ := honours_aside rfl rfl
  setReadonly := Call.within_setReadonly fun {_ _ solver} h on hsolver ↦
    honours_solver fun other hother _ hh ↦ by
      rw [Option.some.inj (hother.symm.trans hsolver)] at hh
      rwa [Solver.handedOut_setReadonly]
  setWeight := Call.ordinary_setWeight

/-- **Every binding is granted** between requests, whatever was asked before. -/
theorem Driven.granted (h : Driven config e) : e.Granted := by
  induction h with
  | new => exact fun _ _ hv ↦ nomatch hv
  | answer _ returns ih =>
    exact Call.lasts_perform (R := Honours) (Reentry.lasts_reacting _ _) _ returns ih

end Engine

end LiveConstraints
