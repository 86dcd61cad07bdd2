import LiveConstraints.Proofs.Reading
import Mathlib.Data.Set.Insert
/-!
# What is remembered and what a search finds

A read uses the defining binding that is remembered, if it may. `Engine.value` is what a read would
find by searching every time, and `Engine.Current` says that what is remembered is what a search
finds; then reading and searching agree (`Step.read_of_current`), and reading keeps the memos
current. What a search finds depends on little (`Engine.Still`), which makes it possible to compare
what fields report before and after a call.
-/

namespace LiveConstraints

open Engine

variable {e e' e'' : Engine} {x : VarId} {v w : Variable} {s : SolverId} {S : Set VarId}

/-- A variable has one binding for each solver. -/
theorem Variable.handle?_of_mem {h : ExtVar} (ordered : v.bindings.Ordered) (hmem : (s, h) ∈ v.handles) :
    v.handle? s = some h := by
  obtain ⟨⟨t, k?⟩, hentry, hk⟩ := List.mem_filterMap.1 hmem
  obtain ⟨k, rfl, heq⟩ := Option.map_eq_some_iff.1 hk
  cases heq
  rw [Variable.handle?, ordered.find?_of_mem hentry]
  rfl

theorem Variable.mem_handles {h : ExtVar} (hhandle : v.handle? s = some h) : (s, h) ∈ v.handles :=
  List.mem_filterMap.2
    ⟨(s, some h), SortedMap.mem_of_find? (Option.join_eq_some_iff.1 hhandle), rfl⟩

/-- A variable as searches and reads use it. -/
def Variable.used (v : Variable) : Variable :=
  { v.withoutMemos with parent := none, pinned := none }

/-! ### Reading by search -/

namespace Engine

/-- The defining binding of a variable, by search. -/
def soughtDefining (e : Engine) (v : Variable) : Option Defining :=
  match e.currentDefining? v with
  | some d => some d
  | none => e.searchDefining v

/-- Replaces the parts of a composite value. -/
def composed (readPart : VarId → Value) : List (String × VarId) → Value → Value
  | [], v => v
  | (name, part) :: rest, v =>
    composed readPart rest (((readPart part).asNumber?.bind fun x ↦ v.withPart? name x).getD v)

/-- The value of a variable by search, at most `n` levels of parts deep. -/
def valueWithin (e : Engine) : Nat → VarId → Value
  | 0, _ => .none
  | n + 1, x =>
    match e.vars.get? x with
    | none => .none
    | some v =>
      match e.soughtDefining v with
      | some d => ((e.solvers.get? d.solver).map fun s ↦ s.value d.handle).getD v.shadow
      | none =>
        if v.shadow.isComposite then composed (e.valueWithin n) v.parts.entries v.shadow
        else v.shadow

/-- The value of a variable by search. -/
def value (e : Engine) (x : VarId) : Value := e.valueWithin e.vars.cells.size x

/-! ### What a search depends on -/

/-- The weight of a solver. -/
def weight? (e : Engine) (s : SolverId) : Option Float := (e.solvers.get? s).map Solver.weight

/-- A solver gets another weight. -/
theorem weight?_weigh (e : Engine) (s t : SolverId) (f : Float → Float) :
    weight? { e with solvers := e.solvers.modify s fun solver =>
      solver.setWeight (f solver.weight) } t
        = if t = s then (e.weight? t).map f else e.weight? t := by
  rw [weight?, Arena.get?_modify]
  split
  · rw [weight?, Option.map_map, Option.map_map]
    rfl
  · rfl

/-- No field reports another value, unless the weights of solvers make it so. -/
structure Still (e e' : Engine) : Prop where
  objects : e'.objects = e.objects
  size : e'.vars.cells.size = e.vars.cells.size
  vars : ∀ x, (e'.vars.get? x).map Variable.used = (e.vars.get? x).map Variable.used
  enabled : e'.enabledFor = e.enabledFor
  values : ∀ s, (e'.solvers.get? s).map Solver.value = (e.solvers.get? s).map Solver.value
  current : e'.guards.current = e.guards.current

instance : IsPreorder Engine Still where
  refl _ := ⟨rfl, rfl, fun _ ↦ rfl, rfl, fun _ ↦ rfl, rfl⟩
  trans _ _ _ h h' := ⟨h'.objects.trans h.objects, h'.size.trans h.size,
    fun x ↦ (h'.vars x).trans (h.vars x), h'.enabled.trans h.enabled,
    fun s ↦ (h'.values s).trans (h.values s), h'.current.trans h.current⟩

theorem Recalls.still (h : Recalls e e') : Still e e' where
  objects := h.objects
  size := h.size
  vars x := by
    have hx := congrArg (Option.map Variable.used) (h.vars x)
    rwa [Option.map_map, Option.map_map] at hx
  enabled := enabledFor_congr h.constraints
  values s := by rw [h.solvers]
  current := by rw [h.guards]

theorem Recalls.weight?_eq (h : Recalls e e') : e'.weight? = e.weight? := by
  funext s
  rw [weight?, h.solvers, weight?]

/-- A variable changes, but not in what searches and reads use. -/
theorem still_variable {f : Variable → Variable} (used : ∀ v, (f v).used = v.used) :
    Still e { e with vars := e.vars.modify x f } :=
  ⟨rfl, congrArg Id.index (Arena.next_modify e.vars x f), Arena.map_get?_modify fun v _ ↦ used v, rfl,
    fun _ ↦ rfl, rfl⟩

theorem Still.exists_after (h : Still e e') (hv : e.vars.get? x = some v) :
    ∃ w, e'.vars.get? x = some w ∧ w.used = v.used := by
  have hx := h.vars x
  rw [hv, Option.map_some] at hx
  exact Option.map_eq_some_iff.1 hx

/-- What makes a binding a candidate is its solver's weight and enabled constraint, and whether there
are constraints at all. -/
theorem definingCandidate?_congr {k : ExtVar}
    (enabled : e'.enabledConstraint? w s = e.enabledConstraint? v s)
    (isEmpty : w.constraints.isEmpty = v.constraints.isEmpty) (hweight : e'.weight? s = e.weight? s) :
    e'.definingCandidate? w s k = e.definingCandidate? v s k := by
  unfold definingCandidate?
  rw [enabled, isEmpty]
  dsimp only
  split
  · rfl
  · have hpair := congrArg (Option.map fun weight ↦
      (weight, (⟨s, e.enabledConstraint? v s, k⟩ : Defining))) hweight
    rwa [weight?, weight?, Option.map_map, Option.map_map] at hpair

theorem mem_of_foldl_heavier {l : List (Float × Defining)} {best : Option (Float × Defining)}
    {c : Float × Defining} (h : l.foldl heavier best = some c) : best = some c ∨ c ∈ l := by
  induction l generalizing best with
  | nil => exact .inl h
  | cons a l ih =>
    rcases ih h with hfirst | hlater
    · unfold heavier at hfirst
      split at hfirst
      · exact .inr (List.mem_cons.2 (.inl (Option.some.inj hfirst).symm))
      · split at hfirst
        · exact .inr (List.mem_cons.2 (.inl (Option.some.inj hfirst).symm))
        · exact .inl hfirst
    · exact .inr (List.mem_cons_of_mem a hlater)

theorem isSome_foldl_heavier {l : List (Float × Defining)} {best : Option (Float × Defining)}
    (h : best.isSome = true ∨ l ≠ []) : (l.foldl heavier best).isSome = true := by
  induction l generalizing best with
  | nil => exact h.resolve_right fun hne ↦ hne rfl
  | cons a l ih =>
    refine ih (.inl ?_)
    unfold heavier
    split
    · rfl
    · split <;> rfl

/-- A binding to a solver that has an enabled constraint on the variable could define it. -/
theorem definingCandidate?_of_enabled {solver : Solver} (hsolver : e.solvers.get? s = some solver)
    (henabled : (e.enabledConstraint? v s).isSome = true) (h : ExtVar) :
    e.definingCandidate? v s h = some (solver.weight, ⟨s, e.enabledConstraint? v s, h⟩) := by
  unfold definingCandidate?
  rw [hsolver]
  dsimp only
  rw [Option.isNone_eq_false_iff.2 henabled, Bool.false_and]
  rfl

/-- A search finds something if one of the solvers has an enabled constraint on the variable. -/
theorem exists_searchDefining {solver : Solver} {h : ExtVar} (hmem : (s, h) ∈ v.handles)
    (hsolver : e.solvers.get? s = some solver) (henabled : (e.enabledConstraint? v s).isSome = true) :
    ∃ d, e.searchDefining v = some d := by
  have hcandidates : (v.handles.filterMap fun b ↦ e.definingCandidate? v b.1 b.2) ≠ [] :=
    List.ne_nil_of_mem (List.mem_filterMap.2 ⟨_, hmem, definingCandidate?_of_enabled hsolver henabled h⟩)
  obtain ⟨c, hc⟩ := Option.isSome_iff_exists.1 (isSome_foldl_heavier (.inr hcandidates))
  exact ⟨c.2, congrArg (Option.map Prod.snd) hc⟩

/-- What a search finds is a binding to a solver, with the first constraint of the solver that is on;
there is one if there is any constraint at all. -/
theorem of_searchDefining {d : Defining} (h : e.searchDefining v = some d) :
    (d.solver, d.handle) ∈ v.handles ∧ d.constraint = e.enabledConstraint? v d.solver ∧
      (∃ solver, e.solvers.get? d.solver = some solver) ∧
        (v.constraints.isEmpty = false → d.constraint.isSome = true) := by
  obtain ⟨c, hc, rfl⟩ := Option.map_eq_some_iff.1 h
  obtain hnone | hmem := mem_of_foldl_heavier hc
  · cases hnone
  · obtain ⟨⟨s, k⟩, hbound, hcandidate⟩ := List.mem_filterMap.1 hmem
    unfold definingCandidate? at hcandidate
    dsimp only at hcandidate
    split at hcandidate
    · cases hcandidate
    · next hcondition =>
      obtain ⟨solver, hsolver, rfl⟩ := Option.map_eq_some_iff.1 hcandidate
      refine ⟨hbound, rfl, ⟨solver, hsolver⟩, fun hne ↦ ?_⟩
      rw [hne, Bool.not_false, Bool.and_true, Option.isNone_iff_eq_none] at hcondition
      exact Option.isSome_iff_ne_none.2 hcondition

/-- Searches find the same if the candidates are the same. -/
theorem searchDefining_of_candidates (handles : w.handles = v.handles)
    (candidates : ∀ b ∈ v.handles,
      e'.definingCandidate? w b.1 b.2 = e.definingCandidate? v b.1 b.2) :
    e'.searchDefining w = e.searchDefining v := by
  unfold searchDefining
  rw [handles, List.filterMap_congr candidates]

theorem searchDefining_congr (enabled : e'.enabledFor = e.enabledFor) (hweight : e'.weight? = e.weight?)
    (hvw : w.used = v.used) : e'.searchDefining w = e.searchDefining v := by
  have hbindings : w.bindings = v.bindings := congrArg (·.bindings) hvw
  have hconstraints : w.constraints = v.constraints := congrArg (·.constraints) hvw
  refine searchDefining_of_candidates (by rw [Variable.handles, hbindings, Variable.handles])
    fun b _ ↦ definingCandidate?_congr ?_ (by rw [hconstraints]) (congrFun hweight b.1)
  rw [enabledConstraint?, hconstraints, enabled, enabledConstraint?]

theorem soughtDefining_congr (enabled : e'.enabledFor = e.enabledFor)
    (current : e'.guards.current = e.guards.current) (hweight : e'.weight? = e.weight?)
    (hvw : w.used = v.used) : e'.soughtDefining w = e.soughtDefining v := by
  have hbindings : w.bindings = v.bindings := congrArg (·.bindings) hvw
  have hcurrent : e'.currentDefining? w = e.currentDefining? v := by
    simp only [currentDefining?, current, Variable.handle?, hbindings]
  rw [soughtDefining, hcurrent, searchDefining_congr enabled hweight hvw, soughtDefining]

/-- What a composite value is composed of depends on the values of the parts only. -/
theorem composed_congr {f g : VarId → Value} {parts : List (String × VarId)}
    (h : ∀ part ∈ parts, f part.2 = g part.2) (u : Value) : composed f parts u = composed g parts u := by
  induction parts generalizing u with
  | nil => rfl
  | cons part rest ih =>
    obtain ⟨hfirst, hrest⟩ := List.forall_mem_cons.1 h
    rw [composed, composed, hfirst, ih hrest]

/-- Some variables, and solvers, differ at most where reads do not look. -/
structure SameReadings (S : Set VarId) (e e' : Engine) : Prop where
  size : e'.vars.cells.size = e.vars.cells.size
  gone : ∀ x ∈ S, e.vars.get? x = none → e'.vars.get? x = none
  vars : ∀ x ∈ S, ∀ v, e.vars.get? x = some v → ∃ w, e'.vars.get? x = some w ∧
    e'.soughtDefining w = e.soughtDefining v ∧ w.parts = v.parts ∧
      ((∀ d, e.soughtDefining v = some d → e.solvers.get? d.solver = none) → w.shadow = v.shadow)
  parts : ∀ x ∈ S, ∀ v, e.vars.get? x = some v → ∀ part ∈ v.parts.entries, part.2 ∈ S
  values : ∀ s, (e'.solvers.get? s).map Solver.value = (e.solvers.get? s).map Solver.value

theorem SameReadings.valueWithin_eq (h : SameReadings S e e') (n : Nat) (hxS : x ∈ S) :
    e'.valueWithin n x = e.valueWithin n x := by
  induction n generalizing x with
  | zero => rfl
  | succ n ih =>
    cases hx : e.vars.get? x with
    | none => rw [valueWithin, valueWithin, hx, h.gone x hxS hx]
    | some v =>
      obtain ⟨w, hw, hsought, hparts, hshadow⟩ := h.vars x hxS v hx
      have hvalue : ∀ d : Defining, (e'.solvers.get? d.solver).map (fun s ↦ s.value d.handle)
          = (e.solvers.get? d.solver).map fun s ↦ s.value d.handle := by
        intro d
        have hs := congrArg (Option.map fun f ↦ f d.handle) (h.values d.solver)
        rwa [Option.map_map, Option.map_map] at hs
      rw [valueWithin, valueWithin, hx, hw]
      dsimp only
      rw [hsought]
      cases hd : e.soughtDefining v with
      | some d =>
        dsimp only
        rw [hvalue]
        cases hsolver : e.solvers.get? d.solver with
        | some solver => rfl
        | none => exact hshadow fun d' hd' ↦ by rwa [← Option.some.inj (hd.symm.trans hd')]
      | none =>
        dsimp only
        have hundefined : w.shadow = v.shadow := hshadow fun d' hd' ↦ nomatch hd.symm.trans hd'
        rw [hundefined, hparts,
          composed_congr fun part hpart ↦ ih (h.parts x hxS v hx part hpart)]

/-- **Engines that read alike** report the same values. -/
theorem SameReadings.value_eq (h : SameReadings S e e') (hx : x ∈ S) : e'.value x = e.value x := by
  rw [value, h.size, h.valueWithin_eq _ hx, value]

theorem Still.sameReadings (h : Still e e') (hweight : e'.weight? = e.weight?) :
    SameReadings Set.univ e e' where
  size := h.size
  gone x _ hx := by
    have hx' := h.vars x
    rwa [hx, Option.map_none, Option.map_eq_none_iff] at hx'
  vars x _ v hx := by
    obtain ⟨w, hw, hvw⟩ := h.exists_after hx
    exact ⟨w, hw, soughtDefining_congr h.enabled h.current hweight hvw, congrArg (·.parts) hvw,
      fun _ ↦ congrArg (·.shadow) hvw⟩
  parts _ _ _ _ _ _ := Set.mem_univ _
  values := h.values

theorem valueWithin_congr (h : Still e e') (hweight : e'.weight? = e.weight?) (n : Nat)
    (x : VarId) : e'.valueWithin n x = e.valueWithin n x :=
  (h.sameReadings hweight).valueWithin_eq n (Set.mem_univ x)

/-- **Unmoved engines** report the same values. -/
theorem value_congr (h : Still e e') (hweight : e'.weight? = e.weight?) : e'.value = e.value :=
  funext fun x ↦ (h.sameReadings hweight).value_eq (Set.mem_univ x)

end Engine

/-! ### Generations -/

namespace Guards

variable {guards : Guards} {g : Nat}

/-- What looks like the present generation is the present one, unless it is too long ago to tell. -/
theorem eq_of_looksCurrent (h : guards.looksCurrent g = true) (past : g ≤ guards.generation)
    (recent : guards.generation < g + UInt64.size) : g = guards.generation := by
  have hmod := congrArg UInt64.toNat (beq_iff_eq.1 h)
  rw [UInt64.toNat_ofNat', UInt64.toNat_ofNat'] at hmod
  have hsize : UInt64.size = 2 ^ 64 := rfl
  omega

end Guards

namespace Engine

/-- On the way from one engine to another the generation did not come round. -/
def Unwrapped (e e' : Engine) : Prop :=
  e'.guards.generation = e.guards.generation ∨ e'.guards.generation < UInt64.size

theorem Unwrapped.split {e e' e'' : Engine} (h : Unwrapped e e'')
    (hle : e.guards.generation ≤ e'.guards.generation)
    (hle' : e'.guards.generation ≤ e''.guards.generation) : Unwrapped e e' ∧ Unwrapped e' e'' := by
  unfold Unwrapped at h ⊢
  omega

/-! ### Current memos -/

/-- What a variable remembers of its defining binding is not so old that its generation came round. -/
def Recent (e : Engine) (v : Variable) : Prop :=
  ∀ g d, v.definingMemo = some (g, d) → e.guards.generation < g + UInt64.size

theorem recent_of_lt {v : Variable} (h : e.guards.generation < UInt64.size) : e.Recent v :=
  fun _ _ _ ↦ Nat.lt_of_lt_of_le h (Nat.le_add_left _ _)

/-- What is remembered is what a search finds, nothing is remembered from the future, and nothing from
so long ago that it could be mistaken for the present. -/
structure Current (e : Engine) : Prop where
  past : ∀ x v g d, e.vars.get? x = some v → v.definingMemo = some (g, d) →
    g ≤ e.guards.generation
  recent : ∀ x v, e.vars.get? x = some v → e.Recent v
  right : ∀ x v d, e.vars.get? x = some v → v.multiSolver = false →
    v.definingMemo = some (e.guards.generation, d) → d = e.searchDefining v

/-- Whether what a variable remembers may stand. -/
def mayStand (e : Engine) (v : Variable) : Bool :=
  match v.definingMemo with
  | none => true
  | some (g, d) => g < e.guards.generation && e.guards.generation < g + UInt64.size ||
      g = e.guards.generation && (v.multiSolver || d = e.searchDefining v)

theorem current_iff : e.Current ↔ ∀ entry ∈ e.vars.live, e.mayStand entry.2 = true := by
  constructor
  · rintro h ⟨x, v⟩ hmem
    have hv := Arena.mem_live.1 hmem
    unfold mayStand
    split
    · rfl
    · next g d hmemo =>
      obtain hlt | rfl := Nat.lt_or_eq_of_le (h.past x v g d hv hmemo)
      · rw [decide_eq_true hlt, decide_eq_true (h.recent x v hv g d hmemo)]
        rfl
      · cases hmulti : v.multiSolver with
        | true => simp
        | false => simp [h.right x v d hv hmulti hmemo]
  · intro h
    refine ⟨fun x v g d hv hmemo ↦ ?_, fun x v hv g d hmemo ↦ ?_, fun x v d hv hmulti hmemo ↦ ?_⟩ <;>
      have hx := h (x, v) (Arena.mem_live.2 hv) <;> rw [mayStand, hmemo] at hx
    · simp only [Bool.or_eq_true, Bool.and_eq_true, decide_eq_true_eq] at hx
      omega
    · simp only [Bool.or_eq_true, Bool.and_eq_true, decide_eq_true_eq] at hx
      have hsize : 0 < UInt64.size := Nat.two_pow_pos 64
      omega
    · simpa [hmulti] using hx

instance : Decidable e.Current := decidable_of_iff' _ current_iff

/-- What is remembered may be used in a generation that looks like the one that it was found in. -/
theorem memo_of_remembered {d : Option Defining} (hd : e.rememberedDefining? v = some d) :
    v.multiSolver = false ∧ ∃ g, v.definingMemo = some (g, d) ∧ e.guards.looksCurrent g = true := by
  unfold rememberedDefining? at hd
  split at hd
  · cases hd
  · next hfree =>
    simp only [Bool.or_eq_true, not_or, Bool.not_eq_true] at hfree
    split at hd
    · next g found hmemo =>
      split at hd
      · next hg =>
        cases hd
        exact ⟨hfree.2, g, hmemo, hg⟩
      · cases hd
    · cases hd

theorem Current.remembered (h : Current e) (hv : e.vars.get? x = some v) {d : Option Defining}
    (hd : e.rememberedDefining? v = some d) : d = e.searchDefining v := by
  obtain ⟨hmulti, g, hmemo, hlooks⟩ := memo_of_remembered hd
  obtain rfl := Guards.eq_of_looksCurrent hlooks (h.past x v g d hv hmemo) (h.recent x v hv g d hmemo)
  exact h.right x v d hv hmulti hmemo

/-- What variables remember stays, and what is searched for is the same. -/
theorem Current.keep (h : Current e) (generation : e'.guards.generation = e.guards.generation)
    (vars : ∀ x w, e'.vars.get? x = some w → ∃ v, e.vars.get? x = some v ∧
      w.definingMemo = v.definingMemo ∧ w.multiSolver = v.multiSolver ∧
        e'.searchDefining w = e.searchDefining v) : Current e' where
  past x w g d hw hmemo := by
    obtain ⟨v, hv, hmemos, -, -⟩ := vars x w hw
    rw [generation]
    exact h.past x v g d hv (hmemos ▸ hmemo)
  recent x w hw g d hmemo := by
    obtain ⟨v, hv, hmemos, -, -⟩ := vars x w hw
    rw [generation]
    exact h.recent x v hv g d (hmemos ▸ hmemo)
  right x w d hw hmulti hmemo := by
    obtain ⟨v, hv, hmemos, hmulti', hsearch⟩ := vars x w hw
    rw [hsearch]
    exact h.right x v d hv (hmulti' ▸ hmulti) (by rw [← hmemos, hmemo, generation])

/-- What a variable remembers changes to what a search finds. -/
theorem Current.modify (h : Current e) {f : Variable → Variable}
    (used : ∀ v, (f v).used = v.used)
    (memo : ∀ v, e.vars.get? x = some v → ∀ g d, (f v).definingMemo = some (g, d) →
      g = e.guards.generation ∧ d = e.searchDefining v)
    (he : e' = { e with vars := e.vars.modify x f }) : Current e' := by
  have hstill : Still e e' := by
    rw [he]
    exact still_variable used
  have hsearch : ∀ v w : Variable, w.used = v.used → e'.searchDefining w = e.searchDefining v :=
    fun v w hvw ↦ searchDefining_congr hstill.enabled (by rw [he]; rfl) hvw
  have hguards : e'.guards = e.guards := by rw [he]
  have hvars : e'.vars = e.vars.modify x f := by rw [he]
  refine ⟨fun y w g d hw hmemo ↦ ?_, fun y w hw g d hmemo ↦ ?_, fun y w d hw hmulti hmemo ↦ ?_⟩ <;>
    rw [hvars] at hw
  · obtain ⟨u, hu, ⟨rfl, rfl⟩ | ⟨-, rfl⟩⟩ := exists_of_modify hw
    · exact Nat.le_of_eq (by rw [hguards, (memo u hu g d hmemo).1])
    · rw [hguards]
      exact h.past y w g d hu hmemo
  · obtain ⟨u, hu, ⟨rfl, rfl⟩ | ⟨-, rfl⟩⟩ := exists_of_modify hw
    · rw [hguards, (memo u hu g d hmemo).1]
      exact Nat.lt_add_of_pos_right (Nat.two_pow_pos 64)
    · rw [hguards]
      exact h.recent y w hu g d hmemo
  · rw [hguards] at hmemo
    obtain ⟨u, hu, ⟨rfl, rfl⟩ | ⟨-, rfl⟩⟩ := exists_of_modify hw
    · rw [hsearch u _ (used u)]
      exact (memo u hu _ d hmemo).2
    · rw [hsearch w w rfl]
      exact h.right y w d hu hmulti hmemo

end Engine

namespace Step

theorem defining_of_none (hx : e.vars.get? x = none) : defining x e = (none, e) := by
  show (match e.vars.get? x with
    | none => pure none
    | some v => _ : Step (Option Defining)) e = _
  rw [hx]
  rfl

/-- The outcome of looking for the defining binding. -/
theorem defining_of_some (hx : e.vars.get? x = some v) :
    defining x e = match e.currentDefining? v with
      | some d => (some d, e)
      | none =>
        match e.rememberedDefining? v with
        | some d => (d, e)
        | none => (e.searchDefining v, { e with vars := e.vars.modify x fun w ↦ { w with
            multiSolver := decide (1 < e.constrainingSolvers v)
            definingMemo :=
              if e.guards.current.isNone && !decide (1 < e.constrainingSolvers v) then
                some (e.guards.generation, e.searchDefining v)
              else none } }) := by
  show (match e.vars.get? x with
    | none => pure none
    | some v => _ : Step (Option Defining)) e = _
  rw [hx]
  dsimp only
  cases e.currentDefining? v with
  | some d => rfl
  | none =>
    cases e.rememberedDefining? v with
    | some d => rfl
    | none => rfl

/-- **Looking for the defining binding** agrees with searching for it. -/
theorem defining_of_current (h : e.Current) (x : VarId) :
    (defining x e).1 = (e.vars.get? x).bind e.soughtDefining ∧ (defining x e).2.Current := by
  cases hx : e.vars.get? x with
  | none =>
    rw [defining_of_none hx]
    exact ⟨rfl, h⟩
  | some v =>
    rw [defining_of_some hx, Option.bind_some, soughtDefining]
    cases e.currentDefining? v with
    | some d => exact ⟨rfl, h⟩
    | none =>
      cases hremembered : e.rememberedDefining? v with
      | some d => exact ⟨h.remembered hx hremembered, h⟩
      | none =>
        refine ⟨rfl, h.modify ?_ (fun w hw g d hmemo ↦ ?_) rfl⟩
        · exact fun _ ↦ rfl
        obtain rfl : w = v := Option.some.inj (hw.symm.trans hx)
        dsimp only at hmemo
        split at hmemo
        · cases hmemo
          exact ⟨rfl, rfl⟩
        · cases hmemo

theorem composeWith_of_current {readPart : VarId → Step Value} {f : VarId → Value}
    (hread : ∀ {e' : Engine}, Recalls e e' → e'.Current → ∀ x,
      (readPart x e').1 = f x ∧ Recalls e' (readPart x e').2 ∧ (readPart x e').2.Current)
    (parts : List (String × VarId)) (u : Value) (hrecalls : Recalls e e') (h : e'.Current) :
    (composeWith readPart parts u e').1 = composed f parts u ∧
      (composeWith readPart parts u e').2.Current := by
  induction parts generalizing e' u with
  | nil => exact ⟨rfl, h⟩
  | cons part rest ih =>
    obtain ⟨hvalue, hrecalls', hcurrent⟩ := hread hrecalls h part.2
    unfold composeWith composed
    rw [bind_run, hvalue]
    exact ih _ (hrecalls.trans hrecalls') hcurrent

/-- Reading, when the variable exists. -/
theorem readWithin_succ (n : Nat) (hx : e.vars.get? x = some v) :
    readWithin (n + 1) x e = match (defining x e).1 with
      | some d => (((defining x e).2.solvers.get? d.solver).map fun s ↦ s.value d.handle).getD
          v.shadow |> fun u ↦ (u, (defining x e).2)
      | none =>
        if v.shadow.isComposite then
          composeWith (readWithin n) v.parts.entries v.shadow (defining x e).2
        else (v.shadow, (defining x e).2) := by
  rw [readWithin, get_run, hx]
  dsimp only
  rw [bind_run]
  cases (defining x e).1 with
  | none =>
    dsimp only
    split <;> rfl
  | some d =>
    dsimp only
    rw [get_run]
    cases (defining x e).2.solvers.get? d.solver <;> rfl

theorem readWithin_of_none (n : Nat) (hx : e.vars.get? x = none) :
    readWithin n x e = (.none, e) := by
  cases n with
  | zero => rfl
  | succ n =>
    show (match e.vars.get? x with
      | none => pure .none
      | some v => _ : Step Value) e = _
    rw [hx]
    rfl

theorem readWithin_of_current (h : e.Current) (n : Nat) (x : VarId) :
    (readWithin n x e).1 = e.valueWithin n x ∧ (readWithin n x e).2.Current := by
  induction n generalizing e x with
  | zero => exact ⟨rfl, h⟩
  | succ n ih =>
    cases hx : e.vars.get? x with
    | none =>
      rw [readWithin_of_none _ hx, valueWithin, hx]
      exact ⟨rfl, h⟩
    | some v =>
      obtain ⟨hdefining, hcurrent⟩ := defining_of_current h x
      have hrecalls : Recalls e (defining x e).2 := recalls_defining x
      rw [hx, Option.bind_some] at hdefining
      rw [readWithin_succ n hx, valueWithin, hx, hdefining]
      dsimp only
      cases e.soughtDefining v with
      | some d =>
        dsimp only
        rw [hrecalls.solvers]
        exact ⟨rfl, hcurrent⟩
      | none =>
        dsimp only
        split
        · refine composeWith_of_current (fun {e'} hrecalls' hcurrent' y ↦ ?_) _ _ hrecalls hcurrent
          obtain ⟨hvalue, hafter⟩ := ih hcurrent' y
          refine ⟨?_, recalls_readWithin n y, hafter⟩
          rw [hvalue, valueWithin_congr hrecalls'.still hrecalls'.weight?_eq]
        · exact ⟨rfl, hcurrent⟩

/-- **Reading** agrees with searching, and keeps the memos current. -/
theorem read_of_current (h : e.Current) (x : VarId) :
    (read x e).1 = e.value x ∧ (read x e).2.Current := readWithin_of_current h _ x

/-- A variable that a solver defines has the value that the solver reports. -/
theorem read_of_defining {d : Defining} {solver : Solver} (hd : (defining x e).1 = some d)
    (hsolver : e.solvers.get? d.solver = some solver) : (read x e).1 = solver.value d.handle := by
  cases hx : e.vars.get? x with
  | none =>
    rw [defining_of_none hx] at hd
    cases hd
  | some v =>
    have hrecalls : Recalls e (defining x e).2 := recalls_defining x
    obtain ⟨n, hn⟩ := Nat.exists_eq_succ_of_ne_zero
      (Nat.ne_of_gt (Nat.zero_lt_of_lt (Arena.lt_next_of_get? hx)))
    show (readWithin e.vars.cells.size x e).1 = _
    rw [show e.vars.cells.size = n + 1 from hn, readWithin_succ n hx, hd]
    dsimp only
    rw [hrecalls.solvers, hsolver]
    rfl

/-- A variable that no solver defines and that has no parts reads as it is stored. -/
theorem read_of_undefined (hv : e.vars.get? x = some v) (hparts : v.parts.isEmpty = true)
    (hundefined : ∀ d, (defining x e).1 = some d → e.solvers.get? d.solver = none) :
    read x e = (v.shadow, (defining x e).2) := by
  obtain ⟨n, hn⟩ := Nat.exists_eq_succ_of_ne_zero
    (Nat.ne_of_gt (Nat.zero_lt_of_lt (Arena.lt_next_of_get? hv)))
  have hrecalls : Recalls e (defining x e).2 := recalls_defining x
  show readWithin e.vars.cells.size x e = _
  rw [show e.vars.cells.size = n + 1 from hn, readWithin_succ n hv]
  cases hdefining : (defining x e).1 with
  | some d =>
    dsimp only
    rw [hrecalls.solvers, hundefined d hdefining]
    rfl
  | none =>
    dsimp only
    split
    · rw [List.isEmpty_iff.1 hparts]
      rfl
    · rfl

end Step

end LiveConstraints
