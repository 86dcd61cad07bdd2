import LiveConstraints.Engine.Evaluation
import LiveConstraints.Proofs.Release
import LiveConstraints.Proofs.Terms
/-!
# Building a constraint keeps the invariant

Evaluating a predicate attaches every variable it touches, so the term that comes out mentions only
handles that are attached (`gives_evaluate`). That is what a realization has to satisfy: the compiled
clause is off, nobody else's and covered by the constraint's variables.
-/

namespace LiveConstraints

open Engine

variable {e e' : Engine} {scope : Scope} {id : ConstraintId} {s : SolverId}

/-- What a solver sees of an operand is attached. -/
def Operand.Seen (o : Operand) (id : ConstraintId) (s : SolverId) (e : Engine) : Prop :=
  ∀ t, o.term = some t → ∀ h, t.Mentions h → e.Attached id s h

theorem Operand.Seen.gathers {o : Operand} (h : o.Seen id s e) (hg : Gathers id e e') :
    o.Seen id s e' := fun t ht k hk ↦ hg.attached (h t ht k hk)

theorem Operand.seen_native (v : Value) : (Operand.native v).Seen id s e := nofun

/-- An operand is a constant of the solver or what the solver sees. -/
theorem Operand.Seen.toTerm {o : Operand} (ho : o.Seen id s e) {h : ExtVar}
    (hh : o.toTerm.Mentions h) : e.Attached id s h := by
  cases hterm : o.term with
  | none =>
    rw [Operand.toTerm, hterm] at hh
    cases hh
  | some t =>
    rw [Operand.toTerm, hterm] at hh
    exact ho t hterm h hh

/-- What decides a connective is one of its operands, or a boolean that no solver sees. -/
theorem Operand.of_shortcut {op : Operator} {l r o : Operand}
    (h : Operand.shortcut? op l r = some o) : o = l ∨ o = r ∨ ∃ b, o = .native (.bool b) := by
  have hdecide : ∀ {absorbing : Bool} {this other : Operand},
      Operand.decide? absorbing this other = some o → o = other ∨ ∃ b, o = .native (.bool b) := by
    intro absorbing this other h
    unfold Operand.decide? at h
    split at h
    · cases h
      split
      · exact .inr ⟨absorbing, rfl⟩
      · exact .inl rfl
    · cases h
  unfold Operand.shortcut? at h
  split at h
  · obtain h | ⟨-, h⟩ := Option.or_eq_some_iff.1 h
    · exact .inr (hdecide h)
    · exact (hdecide h).imp_right .inr
  · obtain h | ⟨-, h⟩ := Option.or_eq_some_iff.1 h
    · exact .inr (hdecide h)
    · exact (hdecide h).imp_right .inr
  · cases h

theorem Operand.seen_shortcut {op : Operator} {l r o : Operand} (hl : l.Seen id s e)
    (hr : r.Seen id s e) (h : Operand.shortcut? op l r = some o) : o.Seen id s e := by
  obtain rfl | rfl | ⟨b, rfl⟩ := Operand.of_shortcut h
  · exact hl
  · exact hr
  · exact seen_native _

namespace Call

theorem gives_unsolvable (scope : Scope) (op : Operator) (folded : Value) :
    Gives (Gathers scope.constraint) e (unsolvable scope op folded)
      (Operand.Seen · scope.constraint scope.solver) := by
  unfold unsolvable
  split
  · exact .pure (Operand.seen_native _)
  · exact .get_bind (.fail _)

theorem gives_operandOf {op : Operator} {term : Option Term} {wrap : Term → Term} {v : Value}
    (h : ∀ t, term = some t → ∀ k, (wrap t).Mentions k →
      e.Attached scope.constraint scope.solver k) :
    Gives (Gathers scope.constraint) e (operandOf scope op term wrap v)
      (Operand.Seen · scope.constraint scope.solver) := by
  cases term with
  | none => exact .pure (Operand.seen_native _)
  | some t =>
    refine .get_bind ?_
    split
    · refine .pure fun t' ht' k hk ↦ ?_
      cases ht'
      exact h t rfl k hk
    · exact gives_unsolvable ..

theorem gives_variableOperand {x : VarId} (hx : e.TakesPart x scope.constraint) :
    Gives (Gathers scope.constraint) e (variableOperand scope x)
      (Operand.Seen · scope.constraint scope.solver) := by
  refine .get_bind ?_
  have hread : Within (Gathers scope.constraint) e (liftM (Step.read x)) :=
    .lift ((Step.recalls_read x).mono fun _ ↦ Recalls.gathers)
  refine hread.bind_gives fun v e' _ hg ↦ .pure fun t ht k hk ↦ hg.attached ?_
  obtain ⟨h, hh, rfl⟩ := Option.map_eq_some_iff.1 ht
  cases hk
  obtain ⟨w, hw, hbinding⟩ := Option.bind_eq_some_iff.1 hh
  exact ⟨x, ⟨w, hw, hbinding⟩, hx⟩

theorem gathers_pin (hs : e.Sound) (scope : Scope) (x : VarId) :
    Within (Gathers id) e (pin scope x) := by
  refine .get_bind ?_
  split
  · next h _ =>
    refine .of_callSolver fun solver hsolver ↦ ?_
    refine (Step.modifies_adopt hsolver (.inl ?_)).gathers rfl (fun _ _ _ h ↦ h) fun _ h ↦ h
    exact Solver.alike_setReadonly (hs.trusted _ solver hsolver).reference h true
  · exact .pure _

theorem gives_member (hs : e.Sound) (base : Operand) (name : String) :
    Gives (Gathers scope.constraint) e (member scope base name)
      (Operand.Seen · scope.constraint scope.solver) := by
  unfold member
  split
  · next obj _ =>
    refine Gives.bind ⟨gathers_touchField hs _ _ obj name _,
      fun x e' hrun ↦ takesPart_of_touchField hs hrun⟩ fun x e' hg hx ↦ ?_
    exact gives_variableOperand hx
  · split
    · split
      · next parent _ =>
        refine Gives.bind ⟨gathers_touchPart hs _ _ parent name,
          fun x e' hrun ↦ takesPart_of_touchPart hs hrun⟩ fun x e' hg hx ↦ ?_
        exact gives_variableOperand hx
      · split
        · exact .pure (Operand.seen_native _)
        · exact .fail _
    · exact .fail _

theorem gathers_pinOperand (hs : e.Sound) (o : Operand) :
    Within (Gathers scope.constraint) e (pinOperand scope o) := by
  unfold pinOperand
  split
  · next obj _ =>
    refine (within_fieldNames obj).bind fun names e₁ _ h₁ ↦ ?_
    refine Within.bind (.forIn fun name _ _ e₂ h₂ ↦ ?_) fun _ _ _ _ ↦ .pure _
    have hs₂ := h₂.sound (h₁.sound hs)
    refine (gathers_touchField hs₂ _ _ obj name _).bind fun x e₃ _ h₃ ↦ ?_
    exact (gathers_pin (h₃.sound hs₂) scope x).bind fun _ _ _ _ ↦ .pure _
  · exact gathers_pin hs scope _
  · exact .pure _

theorem gives_applyBinary {op : Operator} {l r : Operand}
    (hl : l.Seen scope.constraint scope.solver e) (hr : r.Seen scope.constraint scope.solver e) :
    Gives (Gathers scope.constraint) e (applyBinary scope op l r)
      (Operand.Seen · scope.constraint scope.solver) := by
  unfold applyBinary
  split
  · next o ho => exact .pure (Operand.seen_shortcut hl hr ho)
  · split
    · exact .pure (Operand.seen_native _)
    · refine .get_bind ?_
      split
      · refine .pure fun t ht k hk ↦ ?_
        cases ht
        rcases hk with hk | hk
        · exact hl.toTerm hk
        · exact hr.toTerm hk
      · exact gives_unsolvable ..

/-- **Evaluating.** What a solver sees of a predicate is attached to the constraint. -/
theorem gives_evaluate (hs : e.Sound) (expr : Expr) :
    Gives (Gathers scope.constraint) e (evaluate scope expr)
      (Operand.Seen · scope.constraint scope.solver) := by
  induction expr generalizing e with
  | const v => exact .pure (Operand.seen_native v)
  | name n =>
    unfold evaluate
    split
    · exact .pure (Operand.seen_native _)
    · exact .fail _
  | member base name ih =>
    exact (ih hs).bind fun o e₁ h₁ _ ↦ gives_member (h₁.sound hs) o name
  | readonly inner ih =>
    refine (ih hs).bind fun o e₁ h₁ ho ↦ ?_
    exact (gathers_pinOperand (h₁.sound hs) o).bind_gives fun _ e₂ _ h₂ ↦ .pure (ho.gathers h₂)
  | unary op inner ih =>
    exact (ih hs).bind fun o e₁ _ ho ↦ gives_operandOf fun t ht k hk ↦ ho t ht k hk
  | binary op l r ihl ihr =>
    refine (ihl hs).bind fun ol e₁ h₁ hl ↦ ?_
    exact (ihr (h₁.sound hs)).bind fun or e₂ h₂ hr ↦ gives_applyBinary (hl.gathers h₂) hr
  | inDomain inner domain ih =>
    exact (ih hs).bind fun o e₁ _ ho ↦ gives_operandOf fun t ht k hk ↦ ho t ht k hk

end Call

/-! ### Compiled predicates -/

namespace Engine

/-- A primitive that was just compiled for a constraint: it is nobody's yet, it is off, and it
mentions only what is attached to the constraint. -/
structure Compiles (e : Engine) (id : ConstraintId) (s : SolverId) (p : Primitive) : Prop where
  existing : (e.clause? s p).isSome = true
  free : ¬ e.Owned s p
  clause : ∀ d on, e.clause? s p = some (d, on) → on = false ∧ d.IsRelation ∧
    ∀ h, d.Mentions h → e.Attached id s h

/-- A constraint that has nothing compiled and is off, if it exists. -/
def Bare (e : Engine) (id : ConstraintId) : Prop :=
  ∀ c, e.constraints.get? id = some c → c.enabled = false ∧ c.primitives = []

theorem Gathers.bare (h : Gathers id e e') (hbare : e.Bare id) : e'.Bare id := by
  intro c' hc'
  obtain ⟨c, hc, heq⟩ := h.exists_before hc'
  obtain ⟨henabled, hprimitives⟩ := hbare c hc
  exact ⟨(congrArg (·.enabled) heq).trans henabled, (congrArg (·.primitives) heq).trans hprimitives⟩

/-- A new clause over attached handles. -/
theorem compiles_of_installs (hs : e.Sound) {solver solver' : Solver}
    (hsolver : e.solvers.get? s = some solver) {p : Primitive} {d : Demand}
    (hinstalls : solver.Installs solver' p d) (hrelation : d.IsRelation)
    (vars : e'.vars = e.vars) (constraints : e'.constraints = e.constraints)
    (solvers : e'.solvers = e.solvers.modify s fun _ ↦ solver')
    (attached : ∀ h, d.Mentions h → e.Attached id s h) : e'.Compiles id s p := by
  have hget : e'.solvers.get? s = some solver' := by
    rw [solvers, Arena.get?_modify, if_pos rfl, hsolver, Option.map_some]
  refine ⟨?_, ?_, fun d' on hclause ↦ ?_⟩
  · rw [clause?_eq hget, hinstalls.clause?, if_pos rfl]
    rfl
  · rintro ⟨id', c, hc, rfl, hmem⟩
    rw [constraints] at hc
    have hlt := hs.issued hc hmem
    rw [issued_eq hsolver, hinstalls.index] at hlt
    exact Nat.lt_irrefl _ hlt
  · rw [clause?_eq hget, hinstalls.clause?, if_pos rfl] at hclause
    cases hclause
    refine ⟨rfl, hrelation, fun h hh ↦ ?_⟩
    obtain ⟨x, hb, hlists, hc⟩ := attached h hh
    exact ⟨x, by rwa [Bound, vars], by rwa [Lists, vars], by rwa [constraints]⟩

theorem Compiles.congr {p : Primitive} (h : e.Compiles id s p) (vars : e'.vars = e.vars)
    (constraints : e'.constraints = e.constraints) (solvers : e'.solvers = e.solvers) :
    e'.Compiles id s p := by
  refine ⟨?_, ?_, fun d on hclause ↦ ?_⟩
  · rw [clause?_congr solvers]
    exact h.existing
  · rw [Owned, constraints]
    exact h.free
  · rw [clause?_congr solvers] at hclause
    obtain ⟨hon, hrelation, hattached⟩ := h.clause d on hclause
    refine ⟨hon, hrelation, fun k hk ↦ ?_⟩
    obtain ⟨x, hb, hlists, hc⟩ := hattached k hk
    exact ⟨x, by rwa [Bound, vars], by rwa [Lists, vars], by rwa [constraints]⟩

/-- The constraint adopts what was compiled for it. -/
theorem Compiles.realizable {p : Primitive} (h : e.Compiles id s p) (hs : e.Sound)
    (hbare : e.Bare id) {c : Constraint} (hc : e.constraints.get? id = some c)
    (hsolver : c.solver = s) :
    e.Realizable id { c with primitives := c.primitives ++ [p] } := by
  obtain ⟨henabled, hprimitives⟩ := hbare c hc
  subst hsolver
  rw [hprimitives]
  refine ⟨henabled, fun q hq ↦ ?_, fun q hq d ↦ ?_, fun q hq d on hclause ↦ ?_,
    fun id' c' hc' _ hsolver q hq ↦ ?_⟩ <;> obtain rfl : q = p := by simpa using hq
  · exact h.existing
  · intro hon
    exact Bool.noConfusion (h.clause d true hon).1
  · obtain ⟨-, hrelation, hattached⟩ := h.clause d on hclause
    refine ⟨hrelation, fun k hk ↦ ?_, fun k y hk hb ↦ ?_⟩
    · obtain ⟨x, hb, -⟩ := hattached k hk
      exact hs.bound x _ k hb
    · obtain ⟨x, hx, hlists, c₀, hc₀, hmem⟩ := hattached k hk
      obtain rfl := hs.injective y x _ k hb hx
      obtain rfl : c₀ = c := Option.some.inj (hc₀.symm.trans hc)
      exact ⟨hlists, hmem⟩
  · exact fun hq ↦ h.free ⟨id', c', hc', hsolver, hq⟩

end Engine

namespace Call

/-- A solver compiles a term over attached handles. -/
theorem gives_compile (hs : e.Sound) {t : Term} (ht : ∀ h, t.Mentions h → e.Attached id s h) :
    Gives (Gathers id) e (callSolver s fun solver ↦ solver.compile t)
      fun r e' ↦ ∀ p, r = .ok p → e'.Compiles id s p := by
  refine ⟨.of_callSolver fun solver hsolver ↦ ?_, fun r e' hrun p hr ↦ ?_⟩
  · refine Modifies.gathers ?_ rfl (fun _ _ _ h ↦ h) fun _ h ↦ h
    rcases Solver.compile_spec (hs.trusted s solver hsolver).reference t with
      ⟨-, halike⟩ | ⟨p, d, -, hinstalls, -, hd, -⟩
    · exact Step.modifies_adopt hsolver (.inl halike)
    · refine modifies_of_move (.install s _ fun solver' hsolver' ↦ ⟨p, d, ?_, hd⟩) rfl rfl rfl
      obtain rfl : solver' = solver := Option.some.inj (hsolver'.symm.trans hsolver)
      exact hinstalls
  · subst hr
    rw [callSolver_eq] at hrun
    cases hsolver : e.solvers.get? s with
    | none =>
      rw [hsolver] at hrun
      cases hrun
    | some solver =>
      rw [hsolver] at hrun
      obtain ⟨hresult, rfl⟩ := Prod.mk.inj hrun
      rcases Solver.compile_spec (hs.trusted s solver hsolver).reference t with
        ⟨⟨err, herr⟩, -⟩ | ⟨q, d, hq, hinstalls, hrelation, -, hmentions⟩
      · rw [herr] at hresult
        cases hresult
      · obtain rfl : q = p := by
          rw [hq] at hresult
          cases hresult
          rfl
        exact compiles_of_installs hs hsolver hinstalls hrelation rfl rfl rfl
          fun h hh ↦ ht h (hmentions h hh)

/-- What a term over attached handles is compiled to may be adopted by the constraint. -/
theorem gives_compileTerm (hs : e.Sound) {t : Term}
    (ht : ∀ h, t.Mentions h → e.Attached scope.constraint scope.solver h) :
    Gives (Gathers scope.constraint) e (compileTerm scope t)
      fun p e' ↦ e'.Compiles scope.constraint scope.solver p := by
  refine .get_bind ((gives_compile hs ht).bind fun r e₁ _ hr ↦ ?_)
  cases r with
  | ok p => exact .pure (hr p rfl)
  | error err => exact .fail _

/-- **Compiling a predicate.** What comes out may be adopted by the constraint. -/
theorem gives_compilePredicate (hs : e.Sound) (scope : Scope) (predicate : Expr) :
    Gives (Gathers scope.constraint) e (compilePredicate scope predicate)
      fun r e' ↦ ∀ p, r = .primitive p → e'.Compiles scope.constraint scope.solver p := by
  refine (gives_evaluate hs predicate).bind fun top e₁ h₁ htop ↦ ?_
  split
  · next t ht =>
    split
    · refine (gives_compileTerm (h₁.sound hs) fun h hh ↦ htop t ht h hh).bind fun p e₂ _ hp ↦ ?_
      refine .pure fun q hq ↦ ?_
      cases hq
      exact hp
    · exact .pure nofun
  · split <;> exact .pure nofun

theorem gives_evaluatePredicate (hs : e.Sound) (scope : Scope) (predicate : Expr) :
    Gives (Gathers scope.constraint) e (evaluatePredicate scope predicate)
      fun r e' ↦ ∀ p, r = .primitive p → e'.Compiles scope.constraint scope.solver p := by
  refine .get_bind ?_
  rw [hs.tame.evaluator]
  exact gives_compilePredicate hs scope predicate

/-! ### Building constraints -/

theorem modifies_changeConstraint {f : Constraint → Constraint} (core : ∀ c, SameCore c (f c)) :
    Within Modifies e (changeConstraint id f) :=
  .constraintAt_bind fun _ _ ↦ .lift (Step.within_modifyConstraint core)

/-- A constraint that is off gets another realization. -/
theorem modifies_reshape {f : Constraint → Constraint}
    (h : ∀ c, e.constraints.get? id = some c → c.enabled = false ∧ (f c).options = c.options ∧
      e.Realizable id (f c)) : Within Modifies e (changeConstraint id f) := by
  refine .constraintAt_bind fun c hc _ ↦ ?_
  obtain ⟨hdisabled, hoptions, hrealizable⟩ := h c hc
  refine modifies_of_move (?_ : Move e { e with constraints := e.constraints.modify id f }) rfl rfl
    rfl
  rw [Arena.modify_congr (g := fun _ ↦ f c) hc rfl]
  exact .reshape id c (f c) hc hdisabled hoptions hrealizable

/-- **Realizing.** The invariant is kept by a constraint that is off and has nothing compiled. -/
theorem modifies_realize (hs : e.Sound) (hbare : e.Bare id) :
    Within Modifies e (realize id) := by
  refine .constraintAt_bind fun c hc ↦ .get_bind ?_
  have hs₀ : Sound { e with guards := { e.guards with current := some (id, c.solver) } } :=
    hs.aside rfl rfl rfl (hs.tame.beside rfl rfl rfl rfl rfl)
  have hcompile := gives_evaluatePredicate hs₀ ⟨id, c.solver, c.options⟩ c.predicate
  refine .bracket hcompile.within.attempt (attempt_ne_failed _ _) (fun e₁ h₁ ↦
    h₁.modifies.bracket (f := fun g ↦ { g with current := some (id, c.solver) })
      (g := fun g ↦ { g with current := e.guards.current }) fun _ ↦ rfl)
    fun result e₁ hrun h₁ ↦ .get_bind ?_
  -- the constraint is as bare as before, and the primitive, if there is one, is its to adopt
  have hs₁ := h₁.sound hs₀
  have hs₂ : Sound { e₁ with guards := { e₁.guards with current := e.guards.current } } :=
    hs₁.aside rfl rfl rfl (hs₁.tame.beside rfl rfl rfl rfl rfl)
  have hbare₁ : e₁.Bare id := h₁.bare hbare
  have hsolver₁ : ∀ c', e₁.constraints.get? id = some c' → c'.solver = c.solver := by
    intro c' hc'
    obtain ⟨c₀, hc₀, heq⟩ := h₁.exists_before hc'
    obtain rfl : c₀ = c := Option.some.inj (hc₀.symm.trans hc)
    exact congrArg (·.solver) heq
  refine (Within.ofExcept result).bind fun r e₂ hresult _ ↦ ?_
  obtain ⟨rfl, rfl⟩ : result = .ok r ∧ { e₁ with
      guards := { e₁.guards with current := e.guards.current } } = e₂ := by
    cases result with
    | ok a =>
      cases hresult
      exact ⟨rfl, rfl⟩
    | error err => cases hresult
  cases r with
  | primitive p =>
    have hp : Compiles { e₁ with guards := { e₁.guards with current := e.guards.current } } id
        c.solver p := (hcompile.result _ _ (of_attempt_ok hrun) p rfl).congr rfl rfl rfl
    exact modifies_reshape fun c' hc' ↦
      ⟨(hbare₁ c' hc').1, rfl, hp.realizable hs₂ hbare₁ hc' (hsolver₁ c' hc')⟩
  | native b =>
    cases b with
    | true =>
      dsimp only
      split
      · exact modifies_changeConstraint fun c' ↦ ⟨rfl, rfl, rfl, rfl, rfl, nofun⟩
      · exact .fail _
    | false => exact .fail _
  | value v =>
    dsimp only
    cases c.mode with
    | stay => exact .pure _
    | always => exact .fail _

/-- **Building.** The constraint is new. -/
theorem gives_build (hs : e.Sound) {options : ConstraintOptions}
    (ho : AdmissibleOptions options) (predicate : Expr) (s : SolverId) (mode : BuildMode) :
    Gives Modifies e (build predicate s options mode) fun id e' ↦
      e.constraints.next.index ≤ id.index ∧ id.index < e'.constraints.next.index := by
  refine .solverAt_bind fun _ _ ↦ .get_bind ?_
  have hintroduce : Modifies e { e with constraints := e.constraints.insert (Constraint.mk
      predicate options mode s [] [] false false (options.priority.getD mode.defaultPriority)
      (max 1 (options.interval.getD e.config.reevaluationInterval)) 0 false none) } :=
    modifies_of_move (.introduce _ rfl ho) rfl rfl rfl
  refine .modify_bind hintroduce ?_
  have hs₁ := hintroduce.sound hs
  refine (modifies_realize hs₁ fun c hc ↦ ?_).attempt.bind_gives fun result e₂ _ h₂ ↦ ?_
  · dsimp only at hc
    rw [Arena.get?_insert, if_pos rfl] at hc
    cases hc
    exact ⟨rfl, rfl⟩
  · cases result with
    | ok _ =>
      refine .pure ⟨Nat.le_refl _, Nat.lt_of_lt_of_le ?_ h₂.next_le⟩
      simp
    | error err =>
      refine (Within.lift ?_).bind_gives fun _ _ _ _ ↦ .fail _
      exact (Step.abandon_spec (h₂.sound hs₁) _).mono fun _ h ↦ h.modifies

/-! ### Inspecting -/

theorem reads_inspectExpr {R : Engine → Engine → Prop} [Reads R]
    (context : SortedMap String Value) (expr : Expr) (leaf : Bool) (seen : Inspection) :
    Within R e (inspectExpr context expr leaf seen) := by
  induction expr generalizing e leaf seen with
  | const v => exact .pure _
  | name n =>
    unfold inspectExpr
    split
    · exact .pure _
    · exact .fail _
  | member base name ih =>
    refine (ih false seen).bind fun r e₁ _ _ ↦ ?_
    obtain ⟨v, seen⟩ := r
    have hseen : ∀ w e₂, Within R e₂ (if leaf && !w.isNone then
        (pure (w, { seen with types := seen.types ++ [w.tag] }) : Call (Value × Inspection))
        else pure (w, seen)) := by
      intro w e₂
      split <;> exact .pure _
    cases v with
    | object obj => exact (reads_readField obj name).bind fun w e₂ _ _ ↦ hseen w e₂
    | _ =>
      dsimp only
      split
      · exact (Within.pure _).bind fun w e₂ _ _ ↦ hseen w e₂
      · exact (Within.fail _).bind fun w e₂ _ _ ↦ hseen w e₂
  | readonly inner ih => exact ih leaf seen
  | unary op inner ih => exact (ih true seen).bind fun _ _ _ _ ↦ .pure _
  | binary op l r ihl ihr =>
    exact (ihl true seen).bind fun r e₁ _ _ ↦ (ihr true r.2).bind fun _ _ _ _ ↦ .pure _
  | inDomain inner domain ih => exact (ih true _).bind fun _ _ _ _ ↦ .pure _

theorem reads_inspect {R : Engine → Engine → Prop} [Reads R] (context : SortedMap String Value)
    (predicate : Expr) : Within R e (inspect context predicate) :=
  (reads_inspectExpr context predicate true {}).bind fun _ _ _ _ ↦ .pure _

theorem reads_lookThrough {R : Engine → Engine → Prop} [Reads R] (steps : Inspecting) :
    Within R e (lookThrough steps) := by
  induction steps generalizing e with
  | done result => exact .ofExcept result
  | read obj field next ih => exact (reads_readField obj field).attempt.bind fun r _ _ _ ↦ ih r
  | defining x next ih => exact (Within.lift (Reads.defining x)).bind fun d _ _ _ ↦ ih _
  | look next ih => exact .get_bind (ih _)

/-- **Inspecting** a predicate changes nothing, whoever evaluates it. -/
theorem reads_inspectPredicate {R : Engine → Engine → Prop} [Reads R]
    (context : SortedMap String Value) (predicate : Expr) :
    Within R e (inspectPredicate context predicate) := by
  refine .get_bind ?_
  split
  · exact reads_inspect context predicate
  · exact (reads_lookThrough _).bind fun _ _ _ _ ↦ .pure _

end Call

end LiveConstraints
