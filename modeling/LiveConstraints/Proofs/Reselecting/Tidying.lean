import LiveConstraints.Proofs.Reselecting.Bonds
/-!
# No binding is left behind

A variable joins a constraint before it is bound to the constraint's solver, so nothing becomes loose
while a predicate is evaluated (`Engine.Engages`). When a realization is moved or a constraint is rebuilt,
the variables that only the old realization touched are swept. So building, moving and selecting leave
nothing loose, whatever fails on the way (`Engine.Tidies`); but rebuilding does so only where it succeeds,
for a constraint that cannot be realized any more leaves its variables without sweeping them.
-/

namespace LiveConstraints

open Engine

variable {e e' : Engine} {x : VarId} {id source target : ConstraintId} {s : SolverId} {r : Reentry}
  {S : Set ConstraintId} {c : Constraint}

/-! ### Building -/

namespace Engine

/-- A constraint is there, and a solver realizes it. -/
def Serves (e : Engine) (id : ConstraintId) (s : SolverId) : Prop :=
  ∃ c, e.constraints.get? id = some c ∧ c.solver = s

/-- While a solver realizes a constraint, nothing becomes loose. -/
def Engages (id : ConstraintId) (s : SolverId) (e e' : Engine) : Prop :=
  e.Serves id s → e'.Serves id s ∧ Tightens e e'

instance : IsPreorder Engine (Engages id s) where
  refl e hserves := ⟨hserves, refl_of Tightens e⟩
  trans _ _ _ h h' hserves := by
    obtain ⟨hserves', htightens⟩ := h hserves
    obtain ⟨hserves'', htightens'⟩ := h' hserves'
    exact ⟨hserves'', trans_of Tightens htightens htightens'⟩

theorem Severs.engages (h : Severs ∅ e e') : Engages id s e e' := by
  rintro ⟨c, hc, hsolver⟩
  refine ⟨?_, h.tightens⟩
  obtain hid | ⟨c', hc', heq⟩ := h.solver id c hc
  · exact absurd hid (Set.notMem_empty id)
  · exact ⟨c', hc', heq.trans hsolver⟩

instance : Reads (Engages id s) where
  defining x := ((Step.recalls_defining x).mono fun _ ↦ Recalls.severs).mono fun _ ↦ Severs.engages

end Engine

namespace Call

/-- A variable is bound to the solver of a constraint that it takes part in. -/
theorem engages_bind (hjoined : ∀ v, e.vars.get? x = some v → id ∈ v.constraints.members) :
    Within (Engages id s) e (bind x s) := by
  refine .variableAt_bind fun v _ ↦ ?_
  split
  · refine .lift_bind_of (Step.recalls_read x) (fun _ h ↦ h.severs.engages) fun value e₁ _ h₁ ↦
      .get_bind ?_
    refine .callSolver_bind (fun _ _ ↦ Severs.engages (severs_aside rfl rfl)) fun solver _ ↦ ?_
    refine .modify_bind (fun hserves ↦ ⟨hserves, ?_⟩) (.lift (Severs.engages (severs_aside rfl rfl)))
    rintro y b ⟨w, hw, hb, hunused⟩
    obtain ⟨v₁, hv₁, ⟨rfl, rfl⟩ | ⟨-, rfl⟩⟩ := exists_of_modify hw
    · rcases SortedMap.mem_insertIn hb with rfl | hb
      · -- the solver is that of the constraint
        obtain ⟨c, hc, hsolver⟩ := hserves
        obtain ⟨v, hv, heq⟩ := h₁.exists_before hv₁
        have hmembers : v₁.constraints = v.constraints := congrArg (·.constraints) heq
        exact absurd hsolver (hunused id (hmembers ▸ hjoined v hv) c hc)
      · exact ⟨v₁, hv₁, hb, hunused⟩
    · exact ⟨w, hv₁, hb, hunused⟩
  · exact .pure _

theorem engages_attach (id : ConstraintId) (s : SolverId) (x : VarId) :
    Within (Engages id s) e (attach id s x) := by
  let e₁ : Engine :=
    { e with vars := e.vars.modify x fun v ↦ { v with constraints := v.constraints.add id } }
  have h₁ : Severs ∅ e e₁ :=
    severs_variable (fun _ _ hb ↦ hb) fun _ _ hi ↦ .inr (SortedSet.mem_members_add.2 (.inr hi))
  have hjoined : ∀ v, e₁.vars.get? x = some v → id ∈ v.constraints.members := by
    intro v hv
    obtain ⟨u, -, ⟨-, rfl⟩ | ⟨hne, -⟩⟩ := exists_of_modify hv
    · exact SortedSet.mem_members_add.2 (.inl rfl)
    · exact absurd rfl hne
  have hextend : Within (Engages id s) e₁ (do
      changeConstraint id fun c => if c.vars.contains x then c else { c with vars := c.vars ++ [x] }
      bind x s) := by
    rw [changeConstraint, bind_assoc]
    refine .constraintAt_bind fun c _ ↦ .modify_bind (Severs.engages (severs_constraint (.inr ?_))) ?_
    · exact fun c ↦ by split <;> rfl
    · exact engages_bind hjoined
  exact Within.modify_bind h₁.engages hextend

theorem engages_touchField (id : ConstraintId) (s : SolverId) (obj : ObjectId) (name : String)
    (parent : Option VarId) : Within (Engages id s) e (touchField id s obj name parent) := by
  have hvariable : Within (Severs ∅) e (fieldVariable obj name parent) := by
    refine .slotAt_bind fun slot _ ↦ ?_
    cases slot with
    | intercepted x =>
      refine .modify_bind (severs_retouch (fun v ↦ ?_) fun v ↦ ?_) (.pure _)
      all_goals split <;> rfl
    | plain shadow =>
      refine Within.bind (.get_bind (.modify_bind (severs_allocate rfl) ?_)) fun x e₁ _ _ ↦ ?_
      · exact .lift_bind (severs_aside rfl rfl) fun _ _ _ _ ↦ .pure _
      · refine Within.bind ?_ fun _ _ _ _ ↦ .pure _
        exact .objectAt_bind fun _ _ _ ↦ severs_aside rfl rfl
  refine (hvariable.mono fun _ ↦ Severs.engages).bind fun x e₁ _ _ ↦ ?_
  exact (engages_attach id s x).bind fun _ _ _ _ ↦ .pure _

theorem engages_touchPart (id : ConstraintId) (s : SolverId) (parent : VarId) (name : String) :
    Within (Engages id s) e (touchPart id s parent name) := by
  have hvariable : Within (Severs ∅) e (partVariable parent name) := by
    refine .variableAt_bind fun p _ ↦ ?_
    split
    · exact .pure _
    · refine .lift_bind (Step.reads_read parent) fun value e₁ _ _ ↦ ?_
      split
      · exact .fail _
      · refine Within.bind (.get_bind (.modify_bind (severs_allocate rfl) ?_)) fun x e₂ _ _ ↦ ?_
        · exact .lift_bind (severs_aside rfl rfl) fun _ _ _ _ ↦ .pure _
        · exact .modify_bind (severs_retouch (fun _ ↦ rfl) fun _ ↦ rfl) (.pure _)
  refine (hvariable.mono fun _ ↦ Severs.engages).bind fun x e₁ _ _ ↦ ?_
  exact (engages_attach id s x).bind fun _ _ _ _ ↦ .pure _

instance (options : ConstraintOptions) : Evaluates ⟨id, s, options⟩ (Engages id s) where
  touchField := engages_touchField id s
  touchPart := engages_touchPart id s
  pin x := by
    refine .get_bind ?_
    split
    · exact .of_callSolver fun _ _ ↦ Severs.engages (severs_aside rfl rfl)
    · exact .pure _
  compile _ := .of_callSolver fun _ _ ↦ Severs.engages (severs_aside rfl rfl)

theorem engages_realize (hc : e.constraints.get? id = some c) :
    Within (Engages id c.solver) e (realize id) := by
  refine .constraintAt_bind fun c' hc' ↦ .get_bind ?_
  cases hc.symm.trans hc'
  have hcompile : ∀ e₁, Within (Engages id c.solver) e₁
      (attempt (evaluatePredicate ⟨id, c.solver, c.options⟩ c.predicate)) := fun _ ↦
    (evaluates_evaluatePredicate c.predicate).attempt
  have hchange : ∀ {f : Constraint → Constraint}, (∀ c, (f c).solver = c.solver) → ∀ e₁,
      Within (Engages id c.solver) e₁ (changeConstraint id f) := fun solver e₁ ↦
    .constraintAt_bind fun _ _ ↦ .lift (Severs.engages (severs_constraint (.inr solver)))
  refine .lift_bind (Severs.engages (severs_aside rfl rfl)) fun _ e₁ _ _ ↦ ?_
  refine (hcompile e₁).bind fun result e₂ _ _ ↦ ?_
  refine .lift_bind (Severs.engages (severs_aside rfl rfl)) fun _ e₃ _ _ ↦ .get_bind ?_
  refine (Within.ofExcept result).bind fun compiled e₄ _ _ ↦ ?_
  cases compiled with
  | primitive p =>
    refine hchange ?_ e₄
    exact fun _ ↦ rfl
  | native holds =>
    cases holds with
    | true =>
      dsimp only
      split
      · refine hchange ?_ e₄
        exact fun _ ↦ rfl
      · exact .fail _
    | false => exact .fail _
  | value v =>
    dsimp only
    cases c.mode with
    | stay => exact .pure _
    | always => exact .fail _

/-- **Building** a constraint leaves nothing loose, also when it fails. -/
theorem tidies_build (predicate : Expr) (s : SolverId) (options : ConstraintOptions)
    (mode : BuildMode) : Within Tidies e (build predicate s options mode) := by
  refine .solverAt_bind fun _ _ ↦ .get_bind ?_
  refine .modify_bind ((severs_introduce _).tidies (maintains_insert rfl)) ?_
  refine Within.bind (R := Tidies) (Within.attempt fun hne ht ↦ ?_) fun result e₁ _ _ ↦ ?_
  · have hnew := Arena.get?_insert_next e.constraints
    refine ⟨maintains_realize _ hne ht, ?_⟩
    exact (engages_realize (hnew _) hne ⟨_, hnew _, rfl⟩).2
  · cases result with
    | ok _ => exact .pure _
    | error err => exact .lift_bind (Step.tidies_abandon _) fun _ _ _ _ ↦ .fail _

/-! ### Moving and rebuilding -/

/-- The variables of a list are detached one after another. -/
theorem detachAll_run (xs : List VarId) : ∃ e', (forIn xs PUnit.unit fun x _ ↦ do
    Step.detachUnused x
    pure (.yield PUnit.unit) : Call PUnit) e = (.ok ⟨⟩, e') ∧ Sweeps ∅ {y | y ∈ xs} e e' := by
  have hswept := Step.sweeps_forIn (S := ∅) (e := e) (f := fun x _ ↦ do
    Step.detachUnused x
    pure (.yield PUnit.unit)) (fun x e₁ ↦ ⟨rfl, Step.sweeps_detachUnused x⟩) xs
  refine ⟨_, forIn_run ?_, hswept⟩
  exact fun _ _ _ ↦ rfl

theorem severs_joinAll (source target : ConstraintId) (ws : List VarId) :
    Within (Severs {source, target}) e (forIn ws PUnit.unit fun x _ ↦ do
      Step.modifyVariable x fun v =>
        { v with constraints := SortedSet.add (v.constraints.erase source) target }
      pure (.yield PUnit.unit)) := by
  refine .forIn fun x _ _ e₁ _ ↦ .modify_bind (severs_variable (fun _ _ hb ↦ hb) fun v i hi ↦ ?_) (.pure _)
  rw [SortedSet.mem_members_add, SortedSet.mem_members_erase]
  by_cases hsource : i = source
  · exact .inl (.inl hsource)
  · exact .inr (.inr ⟨hi, hsource⟩)

theorem severs_leaveSome (xs ws : List VarId) (hid : id ∈ S) :
    Within (Severs S) e (forIn xs PUnit.unit fun x _ ↦
      if !ws.contains x then do
        Step.leave x id
        pure (.yield PUnit.unit)
      else pure (.yield PUnit.unit)) := by
  refine .forIn fun x _ _ e₁ _ ↦ ?_
  split
  · exact .lift_bind (Step.severs_leave x hid) fun _ _ _ _ ↦ .pure _
  · exact .pure _

/-- **Moving a realization** leaves nothing loose. -/
theorem tidies_transplantInto (hne : source ≠ target) :
    Within Tidies e (transplantInto source target) := by
  refine fun hreturns ht ↦ ⟨maintains_transplantInto hne hreturns ht, ?_⟩
  refine (?_ : Within Tightens e _) hreturns
  refine .constraintAt_bind fun old hold ↦ ?_
  have hsolvers : Within (fun e e' ↦ SameShape e e' ∧ Severs ∅ e e') e
      (forIn old.primitives PUnit.unit fun p _ ↦ do
        Step.modifySolver old.solver fun s => s.removePrimitive p
        pure (.yield PUnit.unit)) := fun hne ↦
    ⟨sameShape_modifyAll _ _ _ hne, operating_modifyAll (R := Severs ∅)
      (fun p _ ↦ (Solver.sameFlags_removePrimitive p).operates) hne⟩
  refine hsolvers.bind_of (fun _ h ↦ h.2.tightens) fun _ e₁ _ h₁ ↦ ?_
  have ht₁ : e₁.Tied := h₁.1.maintains ht
  refine .constraintAt_bind fun winner hwinner ↦ ?_
  obtain ⟨old₁, hold₁, hvars⟩ := h₁.1.constraint_after hold
  rw [← hvars]
  let f : Constraint → Constraint := fun c =>
    { c with
      solver := winner.solver
      primitives := winner.primitives
      vars := winner.vars
      isTest := winner.isTest
      measurement := winner.measurement
      enabled := false }
  obtain ⟨e₂, e₃, hjoin, -, hleave, -, hchange⟩ := move_runs hne hold₁ winner.vars f
  have hremove : (modify fun e ↦ { e with constraints := e.constraints.remove source } : Call PUnit) e₁
      = (.ok ⟨⟩, { e₁ with constraints := e₁.constraints.remove source }) := rfl
  let e₄ : Engine := (Step.tick { e₃ with constraints := e₃.constraints.modify target f }).2
  have hmoved : Severs {source, target} e₁ e₄ :=
    calc Severs {source, target} e₁ { e₁ with constraints := e₁.constraints.remove source } :=
          severs_retire (.inl rfl)
      Severs {source, target} _ e₂ := (severs_joinAll source target winner.vars).of_ok hjoin
      Severs {source, target} _ e₃ := (severs_leaveSome _ _ (.inr rfl)).of_ok hleave
      Severs {source, target} _ { e₃ with constraints := e₃.constraints.modify target f } :=
          severs_constraint (.inl (.inr rfl))
      Severs {source, target} _ e₄ := severs_aside rfl rfl
  refine (?_ : Within (fun _ e' ↦ Tightens e₁ e') e₁ _)
  refine .ok_bind hremove (.ok_bind hjoin (.ok_bind hleave (.ok_bind hchange ?_)))
  obtain ⟨e₅, hdetach, hswept⟩ := detachAll_run (e := e₄)
    (SortedSet.ofMembers (old₁.vars ++ winner.vars)).members
  refine .ok_bind (lift_run Step.tick _) (.ok_bind hdetach fun _ ↦ ?_)
  have htightens : Tightens e₁ e₅ := by
    refine .of_sweeps ht₁ hmoved hswept (fun _ hi ↦ absurd hi (Set.notMem_empty _)) ?_
    rintro i hi y ⟨c, hc, hy⟩
    refine SortedSet.mem_members_ofMembers.2 (List.mem_append.2 ?_)
    rcases hi with rfl | rfl
    · cases hwinner.symm.trans hc
      exact .inr hy
    · cases hold₁.symm.trans hc
      exact .inl hy
  exact trans_of Tightens htightens (Severs.tightens (severs_aside rfl rfl))

end Call

namespace Engine

/-- A constraint may lose its variables, but is realized by whom it was. -/
structure Dismantles (id : ConstraintId) (e e' : Engine) : Prop where
  severs : Severs {id} e e'
  serves : ∀ s, e.Serves id s → e'.Serves id s

instance : IsPreorder Engine (Dismantles id) where
  refl e := ⟨refl_of (Severs {id}) e, fun _ h ↦ h⟩
  trans _ _ _ h h' := ⟨trans_of (Severs {id}) h.severs h'.severs, fun s hs ↦ h'.serves s (h.serves s hs)⟩

theorem Severs.dismantles (h : Severs ∅ e e') : Dismantles id e e' :=
  ⟨h.mono (Set.empty_subset _), fun _ hs ↦ (h.engages hs).1⟩

end Engine

namespace Call

theorem dismantles_dismantle (id : ConstraintId) (c : Constraint) :
    Within (Dismantles id) e (dismantle id c) := by
  have hchange : ∀ {f : Constraint → Constraint}, (∀ c, (f c).solver = c.solver) → ∀ e₁,
      Within (Dismantles id) e₁ (changeConstraint id f) := fun solver e₁ ↦
    .constraintAt_bind fun _ _ ↦ .lift (Severs.dismantles (severs_constraint (.inr solver)))
  refine .lift_bind (Severs.dismantles (Step.severs_disable id)) fun _ e₁ _ _ ↦ ?_
  refine Within.bind (hchange ?_ e₁) fun _ e₂ _ _ ↦ ?_
  · exact fun _ ↦ rfl
  refine Within.bind ((operating_modifyAll (R := Severs ∅) fun p _ ↦
    (Solver.sameFlags_removePrimitive p).operates).mono fun _ ↦ Severs.dismantles) fun _ e₃ _ _ ↦ ?_
  refine Within.bind (.forIn fun x _ _ e₄ _ ↦ ?_) fun _ e₄ _ _ ↦ hchange ?_ e₄
  · refine .lift_bind ⟨Step.severs_leave x rfl, fun _ h ↦ h⟩ fun _ _ _ _ ↦ .pure _
  · exact fun _ ↦ rfl

/-- What was let go of has no loose bindings. -/
theorem gives_forsake (s : SolverId) (xs : List VarId) :
    Gives (Severs ∅) e (forsake s xs) fun _ e' ↦ ∀ y ∈ xs, ∀ b, ¬ e'.Loose y b := by
  unfold forsake
  refine (Gives.forIn_all (P := fun rest _ e' ↦ ∀ y ∈ xs, y ∈ rest ∨ ∀ b, ¬ e'.Loose y b)
    (fun y hy ↦ .inl hy) fun x rest _ e₁ _ hP ↦ ?_).bind fun _ e₁ _ hP ↦ .pure fun y hy ↦ ?_
  case refine_2 => exact (hP y hy).resolve_left List.not_mem_nil
  have hdetach : ∀ e₂, Severs ∅ e₁ e₂ → Gives (Severs ∅) e₂ (do
      Step.detachUnused x
      pure (ForInStep.yield PUnit.unit) : Call (ForInStep PUnit)) fun step e' ↦
        ∃ b', step = .yield b' ∧ ∀ y ∈ xs, y ∈ rest ∨ ∀ b, ¬ e'.Loose y b := by
    intro e₂ h₂
    have hswept : Sweeps ∅ {x} e₂ (Step.detachUnused x e₂).2 := Step.sweeps_detachUnused x
    refine .of_run rfl hswept.severs ⟨_, rfl, fun y hy ↦ ?_⟩
    rcases hP y hy with hmem | hnot
    · rcases List.mem_cons.1 hmem with rfl | hmem
      · exact .inr (hswept.swept (fun _ hi ↦ absurd hi (Set.notMem_empty _)) y rfl)
      · exact .inl hmem
    · exact .inr fun b hloose ↦ hnot b (h₂.tightens y b (hswept.severs.tightens y b hloose))
  refine .get_bind ?_
  split
  · refine Within.bind_gives (.of_callSolver fun _ _ ↦ severs_aside rfl rfl) fun _ e₂ _ h₂ ↦ ?_
    exact hdetach e₂ h₂
  · exact hdetach e₁ (refl_of (Severs ∅) e₁)

/-- **Realizing anew** successfully leaves nothing loose. A variable that the constraint does not reach
any more is swept, and one that it still reaches is bound to its solver on its account. -/
theorem tidies_of_reroute {reached : List VarId} (hc : e.constraints.get? id = some c)
    (hrun : reroute id c e = (.ok reached, e')) : Tidies e e' := by
  obtain ⟨_, e₁, hdismantle, hrun⟩ := of_bind_ok hrun
  obtain ⟨_, e₂, hrealize, hrun⟩ := of_bind_ok hrun
  obtain ⟨c₂, hc₂, hrun⟩ := of_lookup_bind_ok (constraintAt_eq id e₂) hrun
  obtain ⟨_, e₃, hforsake, hrun⟩ := of_bind_ok hrun
  cases hrun
  intro ht
  have ht₁ : e₁.Tied := (maintains_dismantle hc).of_ok hdismantle ht
  have ht₂ : e₂.Tied := (maintains_realize id).of_ok hrealize ht₁
  refine ⟨(maintains_forsake _ _).of_ok hforsake ht₂, fun y b hloose ↦ ?_⟩
  have h₁ : Dismantles id e e₁ := (dismantles_dismantle id c).of_ok hdismantle
  obtain ⟨c₁, hc₁, hsolver⟩ := h₁.serves c.solver ⟨c, hc, rfl⟩
  obtain ⟨⟨c₂', hc₂', hsolver₂⟩, h₂⟩ :=
    (engages_realize hc₁).of_ok hrealize ⟨c₁, hc₁, rfl⟩
  have hforsaken := gives_forsake (e := e₂) c.solver (c.vars.filter fun x => !c₂.vars.contains x)
  have hloose₂ : e₂.Loose y b := (hforsaken.within.of_ok hforsake).tightens y b hloose
  have hloose₁ : e₁.Loose y b := h₂ y b hloose₂
  by_cases hy : y ∈ c.vars
  · by_cases hreached : y ∈ c₂.vars
    · obtain ⟨v, hv, -, hunused⟩ := hloose₂
      have hmem : id ∈ v.constraints.members := (ht₂.linked.lists y v id hv).2 ⟨c₂, hc₂, hreached⟩
      have hne : c.solver ≠ b.1 := by
        rw [← hsolver, ← hsolver₂]
        exact hunused id hmem c₂' hc₂'
      refine h₁.severs.loose hloose₁ ?_
      rintro _ - i - rfl c' hc'
      cases hc.symm.trans hc'
      exact hne
    · refine absurd hloose (hforsaken.result _ _ hforsake y (List.mem_filter.2 ⟨hy, ?_⟩) b)
      simpa using hreached
  · refine h₁.severs.loose_of_tied ht hloose₁ ?_
    rintro i rfl ⟨c', hc', hy'⟩
    cases hc.symm.trans hc'
    exact hy hy'

end Call

/-! ### Selecting -/

namespace Engine

theorem tidies_aside (objects : e'.objects = e.objects) (vars : e'.vars = e.vars)
    (constraints : e'.constraints = e.constraints) : Tidies e e' :=
  (severs_aside vars constraints).tidies (sameShape_aside objects vars constraints).maintains

instance : Selecting Tidies where
  defining x := Severs.tidies (Reads.defining x) (SameShape.maintains (Step.sameShape_defining x))
  beside _ objects vars constraints _ _ _ _ := tidies_aside objects vars constraints
  current {e e' c} h := by
    have hbefore : Tidies e { e with guards := { e.guards with current := c } } :=
      tidies_aside rfl rfl rfl
    have hafter : Tidies e' { e' with guards := { e'.guards with current := e.guards.current } } :=
      tidies_aside rfl rfl rfl
    exact trans_of Tidies hbefore (trans_of Tidies h hafter)
  annotate _ _ core := Severs.tidies (severs_constraint (.inr fun c ↦ (core c).solver))
    (sameShape_constraint fun c ↦ (core c).vars).maintains
  operate _ _ _ := tidies_aside rfl rfl rfl
  defer _ := tidies_aside rfl rfl rfl
  recordHook _ _ _ := tidies_aside rfl rfl rfl
  disable id := Severs.tidies (Step.severs_disable id) (SameShape.maintains (Step.sameShape_disable id))
  switch {e id c} hc hne := by
    have hsevers : Call.Within (Severs ∅) e (Call.switch id c) := Switching.switch hc
    have hshape : Call.Within SameShape e (Call.switch id c) :=
      .lift_bind Step.sameShape_tick fun _ _ _ _ ↦ (Call.sameShape_activate id c).attempt
    exact (hsevers hne).tidies (hshape hne).maintains
  deactivate id c := Severs.tidies (Switching.deactivate id c)
    (SameShape.maintains (Call.sameShape_deactivate id c))
  abandon := Step.tidies_abandon
  build := Call.tidies_build
  transplantInto := Call.tidies_transplantInto

instance : Heedless Tidies where
  store x v hne := Severs.tidies (Storing.store x v hne) (Call.sameShape_store x v hne).maintains
  guards _ _ := tidies_aside rfl rfl rfl
  bumpFor x origin d := Severs.tidies (Heedless.bumpFor x origin d)
    (SameShape.maintains (Call.sameShape_bumpFor x origin d))
  unbump s xs := Severs.tidies (Heedless.unbump s xs)
    (SameShape.maintains (Step.sameShape_unbump s xs))

end Engine

namespace Call

theorem tidies_of_recalculate (hr : r.Remains Tidies) (hrun : recalculate r id e = (.ok (), e')) :
    Tidies e e' := by
  rw [recalculate_eq] at hrun
  obtain ⟨c, hc, hrun⟩ := of_lookup_bind_ok (constraintAt_eq id e) hrun
  split at hrun
  · cases hrun
    exact refl_of Tidies e
  obtain ⟨reached, e₁, hreroute, hrun⟩ := of_bind_ok hrun
  exact trans_of Tidies (tidies_of_reroute hc hreroute)
    ((stays_reengage hr.stays id c reached).of_ok hrun)

end Call

/-- By strict ways back, nothing is left loose. -/
theorem Reentry.remains_tidies (n : Nat) : (limited true n).Remains Tidies :=
  remains_limited (fun id hr ↦ Call.stays_reevaluate hr.stays id)
    (fun _ hr ↦ ⟨nofun, fun _ ↦ Call.tidies_of_recalculate hr⟩) n

end LiveConstraints
