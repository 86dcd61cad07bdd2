import LiveConstraints.Proofs.Algorithms.Planning
import LiveConstraints.Proofs.Algorithms.Searching
import LiveConstraints.Proofs.Rollback
/-!
# Solving a solved model

A solver that is asked to solve what it has just solved ends where it is: each algorithm, run from the
values that a run ended with, ends with these values.

* A plan is followed step by step (`Dataflow.Plan.Follows`). What the first run had determined has its final
  value by then, so the second run finds the same equations ready and computes the same outputs.
* A relaxation starts from what the first run started from as far as variables are pinned, and its first
  sweep finds nothing violated.
* A search tries the current value of each variable first, and with these values every predicate is true
  (`DomainSearch.explore_of_current`). It takes as many candidates as there are variables to search, which is
  what the first run took at least.

A search that tries a value for a variable that does not exist does not come back to it: nothing remembers
the value that was found (`Solver.exists_moved_again`).
-/

namespace LiveConstraints

/-- A run of steps is matched step by step. What is asked of the states of the first run is asked of the last
one only, since it holds of the state before a step if it holds of the state after it. -/
theorem Except.exists_foldlM_of_foldlM {α ε σ τ : Type} {f : σ → α → Except ε σ} {g : τ → α → Except ε τ}
    {R : σ → τ → Prop} {S : σ → Prop} (hback : ∀ {p p'} a, f p a = .ok p' → S p' → S p)
    (hstep : ∀ {p p' q} a, R p q → S p' → f p a = .ok p' → ∃ q', g q a = .ok q' ∧ R p' q')
    {l : List α} {p p' : σ} {q : τ} (h : R p q) (hend : S p') (hrun : l.foldlM f p = .ok p') :
    ∃ q', l.foldlM g q = .ok q' ∧ R p' q' := by
  have hbegin : ∀ {l : List α} {p : σ}, l.foldlM f p = .ok p' → S p := by
    intro l
    induction l with
    | nil =>
      intro p hrun
      cases hrun
      exact hend
    | cons a l ih =>
      intro p hrun
      rw [List.foldlM_cons] at hrun
      obtain ⟨p₁, hstep₁, hrun⟩ := of_bind_ok hrun
      exact hback a hstep₁ (ih hrun)
  induction l generalizing p q with
  | nil =>
    cases hrun
    exact ⟨q, rfl, h⟩
  | cons a l ih =>
    rw [List.foldlM_cons] at hrun
    obtain ⟨p₁, hfirst, hrun⟩ := of_bind_ok hrun
    obtain ⟨q₁, hfirst', h₁⟩ := hstep a h (hbegin hrun) hfirst
    obtain ⟨q', hrun', h'⟩ := ih h₁ hrun
    refine ⟨q', ?_, h'⟩
    rw [List.foldlM_cons, hfirst']
    exact hrun'

namespace Slots

variable {s s' : Slots} {x : ExtVar}

theorem Reassigned.symm (h : s.Reassigned s') : s'.Reassigned s := ⟨h.1.symm, h.2.symm⟩

/-- Where only values may differ and none does, nothing differs. -/
theorem Reassigned.eq_of_value (h : s.Reassigned s') (hvalue : ∀ x, s'.value x = s.value x) : s' = s := by
  refine cells_ext h.1 fun x ↦ ?_
  have hflags : (s'.get? x).map (fun c ↦ (c.readonly, c.stay))
      = (s.get? x).map fun c ↦ (c.readonly, c.stay) := congrFun h.2 x
  have hx := hvalue x
  rw [value, value] at hx
  cases hs : s.get? x with
  | none =>
    rw [hs] at hflags
    exact Option.map_eq_none_iff.1 hflags
  | some c =>
    rw [hs] at hflags hx
    obtain ⟨c', hs', hc⟩ := Option.map_eq_some_iff.1 hflags
    obtain ⟨hreadonly, hstay⟩ := Prod.mk.inj hc
    rw [hs'] at hx ⊢
    obtain ⟨v, readonly, stay⟩ := c
    obtain ⟨v', readonly', stay'⟩ := c'
    cases hreadonly
    cases hstay
    obtain rfl : v' = v := hx
    rfl

theorem Reassigned.stayRank (h : s.Reassigned s') (x : ExtVar) :
    Dataflow.stayRank s' x = Dataflow.stayRank s x := by
  have hflags := congrArg (Option.bind · Prod.snd) (congrFun h.2 x)
  simp only [flags, Option.bind_map] at hflags
  exact congrArg (fun stay ↦ (Option.map Priority.rank stay).getD 0) hflags

theorem Reassigned.assigned {v : Value} (h : s.Reassigned s') :
    (s.assign x v).Reassigned (s'.assign x v) :=
  (Reassigned.assign s x v).symm.trans (h.trans (.assign s' x v))

end Slots

/-! ### Dataflow -/

namespace Dataflow

open Plan

variable {d : Dataflow} {final s s' : Slots} {p p' q : Plan} {form : LinearForm} {x : ExtVar}

/-- The stage `q` of a run from the variables that another run ended with, at the time when that run was at
the stage `p`. A variable has its final value already or the one that it has in the other run. -/
structure Plan.Follows (final : Slots) (p q : Plan) : Prop where
  determined : q.determined = p.determined
  pending : q.pending = p.pending
  flags : p.slots.Reassigned q.slots
  value : ∀ x, q.slots.value x = final.value x ∨ q.slots.value x = p.slots.value x
  readonly : ∀ x, p.slots.isReadonly x = true → q.slots.value x = p.slots.value x

/-- Each variable that is determined has its final value. -/
def Plan.Reaches (final : Slots) (p : Plan) : Prop :=
  ∀ x ∈ p.determined, final.value x = p.slots.value x

theorem Plan.Extends.reaches (h : Extends p p') (hp : p'.Reaches final) : p.Reaches final :=
  fun x hx ↦ (hp x (h.determined x hx)).trans (h.final x hx)

namespace Plan.Follows

theorem undetermined (h : Follows final p q) (form : LinearForm) :
    q.undetermined form = p.undetermined form := by
  rw [Plan.undetermined, Plan.undetermined, h.determined]

/-- Both runs agree about what has its final value in the first one. -/
theorem value_eq (h : Follows final p q) (hx : final.value x = p.slots.value x) :
    q.slots.value x = p.slots.value x :=
  (h.value x).elim (·.trans hx) id

theorem determine (h : Follows final p q) (x : ExtVar) :
    Follows final (p.determine x) (q.determine x) := by
  unfold Plan.determine
  rw [h.determined]
  split
  · exact h
  · exact { h with determined := rfl }

/-- Both runs assign the same value to a variable. -/
theorem assign (h : Follows final p q) (hx : p.slots.contains x = true) (v : Value) :
    Follows final { p with slots := p.slots.assign x v } { q with slots := q.slots.assign x v } where
  determined := h.determined
  pending := h.pending
  flags := h.flags.assigned
  value y := by
    by_cases hy : y = x
    · rw [hy, Slots.value_assign_self hx, Slots.value_assign_self ((h.flags.contains x).trans hx)]
      exact .inr rfl
    · rw [Slots.value_assign_of_ne hy, Slots.value_assign_of_ne hy]
      exact h.value y
  readonly y hro := by
    by_cases hy : y = x
    · rw [hy, Slots.value_assign_self hx, Slots.value_assign_self ((h.flags.contains x).trans hx)]
    · rw [Slots.value_assign_of_ne hy, Slots.value_assign_of_ne hy]
      exact h.readonly y (((Slots.Reassigned.assign p.slots x v).isReadonly y).symm.trans hro)

/-- Both runs read the same numbers off what is determined. -/
theorem number_eq (h : Follows final p q) (hp : p.Reaches final) (hx : x ∈ p.determined) :
    q.slots.number x = p.slots.number x := by
  rw [Slots.number_eq, Slots.number_eq, numberOf, numberOf, h.value_eq (hp x hx)]

/-- Both runs find the same residual of an equation that is determined. -/
theorem evaluate_eq (h : Follows final p q) (hp : p.Reaches final) (hform : p.undetermined form = []) :
    form.evaluate q.slots.number = form.evaluate p.slots.number := by
  refine LinearForm.evaluate_congr fun x hx ↦ h.number_eq hp ?_
  by_contra hopen
  have hmem : x ∈ p.undetermined form := mem_undetermined.2 ⟨hx, hopen⟩
  rw [hform] at hmem
  cases hmem

/-- Both runs compute the same value for the variable that is left of an equation. -/
theorem solveFor_eq (h : Follows final p q) (hp : p.Reaches final) (hform : p.undetermined form = [x]) :
    solveFor q.slots form x = solveFor p.slots form x := by
  refine congrArg (fun rest ↦ Float.neg rest / (form.coefficients.find? x).getD 0.0)
    (LinearForm.evaluate_congr fun y hy ↦ ?_)
  by_cases hyx : y = x
  · rw [hyx]
    simp only [beq_self_eq_true, if_true]
  · have hdetermined : y ∈ p.determined := by
      by_contra hopen
      have hmem : y ∈ p.undetermined form := mem_undetermined.2 ⟨hy, hopen⟩
      rw [hform] at hmem
      exact hyx (List.mem_singleton.1 hmem)
    rw [h.number_eq hp hdetermined]

theorem assign?_eq (h : Follows final p q) (hx : p.slots.contains x = true) (v : Value) :
    q.slots.assign? x v = .ok (q.slots.assign x v) := if_pos ((h.flags.contains x).trans hx)

/-- An equation is visited with the same outcome. -/
theorem visit (h : Follows final p q) (hfinal : p'.Reaches final)
    (hvisit : Dataflow.visit p form = .ok p') :
    ∃ q', Dataflow.visit q form = .ok q' ∧ Follows final p' q' := by
  have hp : p.Reaches final := (visited_of_visit hvisit).later.reaches hfinal
  unfold Dataflow.visit at hvisit ⊢
  rw [h.undetermined]
  split at hvisit
  · next hnone =>
    rw [h.evaluate_eq hp hnone]
    dsimp only at hvisit ⊢
    split at hvisit
    · cases hvisit
    · next hsmall =>
      cases hvisit
      exact ⟨q, if_neg hsmall, h⟩
  · next output hout =>
    obtain ⟨slots, hslots, hvisit⟩ := Except.of_bind_ok hvisit
    cases hvisit
    obtain ⟨hexists, rfl⟩ := Slots.of_assign?_ok hslots
    refine ⟨_, ?_, (h.assign hexists (.number (solveFor p.slots form output))).determine output⟩
    rw [h.solveFor_eq hp hout, h.assign?_eq hexists]
    rfl
  · cases hvisit
    exact ⟨_, rfl, { h with pending := congrArg (· ++ [form]) h.pending }⟩

theorem foldlM_visit {forms : List LinearForm} (h : Follows final p q)
    (hfinal : p'.Reaches final)
    (hvisits : forms.foldlM Dataflow.visit p = .ok p') :
    ∃ q', forms.foldlM Dataflow.visit q = .ok q' ∧ Follows final p' q' :=
  Except.exists_foldlM_of_foldlM (f := Dataflow.visit) (g := Dataflow.visit)
    (R := Follows final) (S := (·.Reaches final))
    (fun _ hvisit hfinal ↦ (visited_of_visit hvisit).later.reaches hfinal)
    (fun _ h hfinal hvisit ↦ h.visit hfinal hvisit) h hfinal hvisits

theorem chooseOutput_eq (h : s.Reassigned s') (xs : List ExtVar) :
    chooseOutput s' xs = chooseOutput s xs := by
  induction xs with
  | nil => rfl
  | cons x xs ih =>
    rw [chooseOutput, chooseOutput, ih]
    cases chooseOutput s xs with
    | none => rfl
    | some y => simp only [h.stayRank]

theorem commit (h : Follows final p q) : Follows final (Dataflow.commit p) (Dataflow.commit q) := by
  unfold Dataflow.commit
  rw [h.pending]
  split
  · exact h
  · dsimp only
    rw [h.undetermined, chooseOutput_eq h.flags]
    refine List.foldl_rel h fun x _ p q h ↦ ?_
    split
    · exact h
    · exact h.determine x

theorem passes {n : Nat} (h : Follows final p q) (hfinal : p'.Reaches final)
    (hpasses : Dataflow.passes n p = .ok p') :
    ∃ q', Dataflow.passes n q = .ok q' ∧ Follows final p' q' := by
  induction n generalizing p q with
  | zero =>
    cases hpasses
    exact ⟨q, rfl, h⟩
  | succ n ih =>
    unfold Dataflow.passes at hpasses ⊢
    rw [h.pending]
    split at hpasses
    · next hempty =>
      cases hpasses
      exact ⟨q, if_pos hempty, h⟩
    · next hnonempty =>
      obtain ⟨next, hpass, hpasses⟩ := Except.of_bind_ok hpasses
      have hlater : Extends next p' := by
        obtain ⟨_, _, hrest⟩ := carries_of_passes hpasses
        refine Extends.trans ?_ hrest.later
        split
        · exact (commit_ok next).1
        · exact .refl next
      obtain ⟨next', hpass', hnext⟩ := ({ h with pending := rfl } : Follows final
          { p with pending := [] } { q with pending := [] }).foldlM_visit (hlater.reaches hfinal) hpass
      have hstep : Follows final
          (if next.pending.length = p.pending.length then Dataflow.commit next else next)
          (if next'.pending.length = p.pending.length then Dataflow.commit next' else next') := by
        rw [hnext.pending]
        split
        · exact hnext.commit
        · exact hnext
      obtain ⟨q', hpasses', h'⟩ := ih hstep hpasses
      refine ⟨q', ?_, h'⟩
      rw [if_neg hnonempty, pass, h.pending, hpass']
      exact hpasses'

theorem startOne {keeper : ExtVar × Float × Bool} (h : Follows final p q)
    (hstart : Dataflow.startOne [] p keeper = .ok p') :
    ∃ q', Dataflow.startOne [] q keeper = .ok q' ∧ Follows final p' q' := by
  obtain ⟨x, v, required⟩ := keeper
  unfold Dataflow.startOne at hstart ⊢
  dsimp only at hstart ⊢
  rw [h.flags.isReadonly]
  split at hstart
  · next hheld =>
    have hro : p.slots.isReadonly x = true := by simpa using hheld
    rw [if_pos hheld, h.readonly x hro]
    split at hstart
    · cases hstart
    · next hkeeps =>
      cases hstart
      exact ⟨q, if_neg hkeeps, h⟩
  · next hfree =>
    obtain ⟨slots, hslots, hstart⟩ := Except.of_bind_ok hstart
    cases hstart
    obtain ⟨hexists, rfl⟩ := Slots.of_assign?_ok hslots
    have hstep := h.assign hexists (.number v)
    rw [if_neg hfree, h.assign?_eq hexists]
    refine ⟨_, rfl, ?_⟩
    split
    · exact hstep.determine x
    · exact hstep

theorem foldlM_startOne {keepers : List (ExtVar × Float × Bool)} (h : Follows final p q)
    (hstarts : keepers.foldlM (Dataflow.startOne []) p = .ok p') :
    ∃ q', keepers.foldlM (Dataflow.startOne []) q = .ok q' ∧ Follows final p' q' :=
  Except.exists_foldlM_of_foldlM (f := Dataflow.startOne []) (g := Dataflow.startOne [])
    (R := Follows final) (S := fun _ ↦ True) (fun _ _ ↦ id) (fun _ h _ hstart ↦ h.startOne hstart)
    h trivial hstarts

theorem determineReadonly (h : Follows final p q) :
    Follows final (Dataflow.determineReadonly p) (Dataflow.determineReadonly q) := by
  unfold Dataflow.determineReadonly
  rw [h.pending]
  refine List.foldl_rel h fun x _ p q h ↦ ?_
  rw [h.flags.isReadonly]
  split
  · exact h.determine x
  · exact h

end Plan.Follows

/-- A run leaves read-only variables as they are. -/
theorem value_of_propagate_of_readonly {fixed : List ExtVar} (hx : s.isReadonly x = true)
    (h : d.propagate fixed s = .ok s') : s'.value x = s.value x := by
  obtain ⟨started, hstarted, h⟩ := Except.of_bind_ok h
  obtain ⟨final, hfinal, h⟩ := Except.of_bind_ok h
  cases h
  obtain ⟨hflags, -⟩ := Dataflow.foldlM_startOne hstarted
  obtain ⟨checked, solved, hcarries⟩ := carries_of_passes hfinal
  have hstart : started.slots.value x = s.value x := value_of_foldlM_startOne (.inl hx) hstarted
  refine (hcarries.kept x fun hout ↦ ?_).trans
    ((congrArg (Slots.value · x) (determineReadonly_ok started).1).trans hstart)
  -- a read-only variable of a pending equation is determined, so it is no output
  obtain ⟨e, he, rfl⟩ := List.mem_map.1 hout
  refine hcarries.undetermined e he (mem_determined_determineReadonly.2 (.inr ⟨?_, ?_⟩))
  · have hmem : e.1 ∈ (final.pending : Multiset LinearForm) + (checked + solved.map Prod.fst) := by
      simp only [Multiset.mem_add, Multiset.mem_coe]
      exact .inr (.inr (List.mem_map_of_mem he))
    rw [hcarries.account, (determineReadonly_ok started).2] at hmem
    exact List.mem_flatMap.2 ⟨e.1, by simpa using hmem, (hcarries.computes e he).2.1⟩
  · exact (hflags.isReadonly e.2).trans hx

/-- **A plan is followed again.** -/
theorem propagate_of_propagate (h : d.propagate [] s = .ok s') : d.propagate [] s' = .ok s' := by
  have hreadonly : ∀ x, s.isReadonly x = true → s'.value x = s.value x :=
    fun x hx ↦ value_of_propagate_of_readonly hx h
  obtain ⟨started, hstarted, h⟩ := Except.of_bind_ok h
  obtain ⟨final, hfinal, h⟩ := Except.of_bind_ok h
  cases h
  have hflags : s.Reassigned final.slots := by
    have hlater := (passes_ok hfinal).1.slots
    rw [(determineReadonly_ok started).1] at hlater
    exact (Dataflow.foldlM_startOne hstarted).1.trans hlater
  have hbegin : Follows final.slots { slots := s, determined := [], pending := d.equations }
      { slots := final.slots, determined := [], pending := d.equations } :=
    ⟨rfl, rfl, hflags, fun _ ↦ .inl rfl, hreadonly⟩
  obtain ⟨started', hstarted', hstart⟩ := hbegin.foldlM_startOne hstarted
  obtain ⟨final', hfinal', hend⟩ := hstart.determineReadonly.passes (fun _ _ ↦ rfl) hfinal
  have hsame : final'.slots = final.slots :=
    hend.flags.eq_of_value fun x ↦ (hend.value x).elim id id
  unfold propagate
  dsimp only
  rw [hstarted']
  have hpasses : Dataflow.passes (2 * d.equations.length) (Dataflow.determineReadonly started')
      = .ok final' := hfinal'
  show (Dataflow.passes (2 * d.equations.length) (Dataflow.determineReadonly started') >>= _) = _
  rw [hpasses]
  exact congrArg Except.ok hsame

theorem solve_of_propagate (h : d.propagate [] d.model.slots = .ok s') :
    d.solve = (.ok (), { d with model := { d.model.countSolve with slots := s' } }) := by
  have hrun : propagate { d with model := d.model.countSolve } [] d.model.countSolve.slots = .ok s' := h
  rw [solve, runFrom, hrun]
  rfl

/-- Solving again counts a run and does nothing else. -/
theorem solve_of_solve (h : d.solve.1 = .ok ()) :
    d.solve.2.solve = (.ok (), { d.solve.2 with model := d.solve.2.model.countSolve }) := by
  cases hrun : d.propagate [] d.model.slots with
  | error e =>
    have hrun' : propagate { d with model := d.model.countSolve } [] d.model.countSolve.slots
        = .error e := hrun
    rw [solve, runFrom, hrun'] at h
    cases h
  | ok s' =>
    rw [solve_of_propagate hrun]
    exact solve_of_propagate (propagate_of_propagate hrun)

end Dataflow

/-! ### Relaxation -/

namespace Relaxation

variable {r : Relaxation} {final s s' t : Slots} {fixed : Option ExtVar} {tolerance : Float}
  {pinned : List ExtVar} {active : List LinearRelation}

/-- Starting sets the same variables to the same values, also where a variable that is not set has its
final value already. -/
theorem start_of_reassigned {starts : List (ExtVar × Float)} (hpinned : ∀ e ∈ starts, e.1 ∈ pinned)
    (hflags : s.Reassigned t)
    (hvalue : ∀ x, t.value x = final.value x ∨ x ∈ pinned ∧ t.value x = s.value x)
    (h : start fixed starts s = .ok s') : ∃ t', start fixed starts t = .ok t' ∧ s'.Reassigned t' ∧
      ∀ x, t'.value x = final.value x ∨ x ∈ pinned ∧ t'.value x = s'.value x := by
  induction starts generalizing s t with
  | nil =>
    cases h
    exact ⟨t, rfl, hflags, hvalue⟩
  | cons e starts ih =>
    obtain ⟨s₁, h₁, h⟩ := Except.of_bind_ok h
    have hrest : ∀ e' ∈ starts, e'.1 ∈ pinned := fun e' he' ↦ hpinned e' (List.mem_cons_of_mem _ he')
    have hcons (t : Slots) : start fixed (e :: starts) t =
        (if some e.1 == fixed || t.isReadonly e.1 then .ok t else t.assign? e.1 (.number e.2))
          >>= start fixed starts := List.foldlM_cons
    rw [hcons, hflags.isReadonly]
    dsimp only at h₁
    split at h₁
    · next hheld =>
      cases h₁
      rw [if_pos hheld]
      exact ih hrest hflags hvalue h
    · next hfree =>
      obtain ⟨hexists, rfl⟩ := Slots.of_assign?_ok h₁
      have hexists' : t.contains e.1 = true := (hflags.contains e.1).trans hexists
      rw [if_neg hfree, Slots.assign?, if_pos hexists']
      refine ih hrest hflags.assigned (fun x ↦ ?_) h
      by_cases hx : x = e.1
      · rw [hx, Slots.value_assign_self hexists, Slots.value_assign_self hexists']
        exact .inr ⟨hpinned e List.mem_cons_self, rfl⟩
      · rw [Slots.value_assign_of_ne hx, Slots.value_assign_of_ne hx]
        exact hvalue x

/-- A sweep over relations that hold moves nothing. -/
theorem sweeps_of_settled (hholds : ∀ rel ∈ active, rel.violation? s.number tolerance = none) (n : Nat) :
    sweeps tolerance pinned active (n + 1) s = .ok (some s) := by
  have hsweep : ∀ {active : List LinearRelation},
      (∀ rel ∈ active, rel.violation? s.number tolerance = none) →
      active.foldlM (visit tolerance pinned) (s, true) = .ok (s, true) := by
    intro active
    induction active with
    | nil => exact fun _ ↦ rfl
    | cons rel active ih =>
      intro hholds
      have hrepair : repair? tolerance pinned rel s = .ok none := by
        rw [repair?, hholds rel List.mem_cons_self]
      rw [List.foldlM_cons, visit, hrepair]
      exact ih fun rel' hrel' ↦ hholds rel' (List.mem_cons_of_mem _ hrel')
  show (sweep tolerance pinned active s >>= _) = _
  rw [show sweep tolerance pinned active s = .ok (s, true) from hsweep hholds]
  rfl

/-- **Relaxing again moves nothing**, unless a demand that is not required sets a variable back. -/
theorem run_of_run (hrequired : ∀ x v priority, (.keeps x v, priority) ∈ r.model.enabled →
    priority.isRequired = true) (h : r.run none s = .ok s') : r.run none s' = .ok s' := by
  obtain ⟨s₁, hstart, hsweeps⟩ := of_run_ok h
  have hflags : s.Reassigned s' := reassigned_of_run h
  have hpinned : ∀ e ∈ (r.task none).starts, e.1 ∈ (r.task none).pinned := by
    rw [task_eq]
    intro e he
    obtain ⟨⟨_ | ⟨x, v⟩, priority⟩, hc, heq⟩ := List.mem_filterMap.1 he
    · cases heq
    · cases heq
      exact List.mem_append_right _
        (List.mem_filterMap.2 ⟨_, hc, if_pos (hrequired x v priority hc)⟩)
  obtain ⟨t, ht, hmoved, hvalue⟩ :=
    start_of_reassigned hpinned hflags (fun _ ↦ .inl rfl : ∀ x, s'.value x = s'.value x ∨ _) hstart
  -- what starting set was pinned, so the sweeps left it where it was set
  have hsame : t = s' := by
    refine ((sweeps_ok hsweeps).1.symm.trans hmoved).eq_of_value fun x ↦ ?_
    rcases hvalue x with hx | ⟨hx, hset⟩
    · exact hx
    · exact hset.trans (value_of_sweeps (.inl hx) hsweeps).symm
  have hsettled : sweeps r.tolerance (r.task none).pinned (r.task none).active r.maxSweeps s'
      = .ok (some s') := by
    obtain ⟨-, hholds⟩ := sweeps_ok hsweeps
    cases hn : r.maxSweeps with
    | zero =>
      rw [hn] at hsweeps
      cases hsweeps
    | succ n => exact sweeps_of_settled hholds n
  unfold run
  dsimp only
  rw [ht, hsame]
  show (sweeps _ _ _ _ _ >>= _) = _
  rw [hsettled]
  rfl

theorem solve_of_run (h : r.run none r.model.slots = .ok s') :
    r.solve = (.ok (), { r with model := { r.model.countSolve with slots := s' } }) := by
  have hrun : run { r with model := r.model.countSolve } none r.model.countSolve.slots = .ok s' := h
  rw [solve, runFrom, hrun]
  rfl

/-- Solving again counts a run and does nothing else. -/
theorem solve_of_solve (hrequired : ∀ x v priority, (.keeps x v, priority) ∈ r.model.enabled →
    priority.isRequired = true) (h : r.solve.1 = .ok ()) :
    r.solve.2.solve = (.ok (), { r.solve.2 with model := r.solve.2.model.countSolve }) := by
  cases hrun : r.run none r.model.slots with
  | error e =>
    have hrun' : run { r with model := r.model.countSolve } none r.model.countSolve.slots = .error e :=
      hrun
    rw [solve, runFrom, hrun'] at h
    cases h
  | ok s' =>
    rw [solve_of_run hrun]
    exact solve_of_run (run_of_run hrequired hrun)

end Relaxation

/-! ### Domain search -/

namespace DomainSearch

open Problem

variable {p : Problem} {a : Assignment} {m : SortedMap ExtVar Value} {xs : List ExtVar} {nodes : Nat}
  {d : DomainSearch} {s s' : Slots} {fixed : Option ExtVar} {x : ExtVar}

/-- How far an exploration has counted at least, if it assigns `len` variables. -/
def Exploration.Advances (nodes len : Nat) : Exploration → Prop
  | .found _ n => nodes + len ≤ n
  | .exhausted n => nodes ≤ n
  | .gaveUp => True

theorem advances_of_tryEach {maxNodes len : Nat} {explore : SortedMap ExtVar Value → Nat → Exploration}
    (h : ∀ v n, (explore (m.insert x v) n).Advances n len) (vs : List Value) :
    (tryEach maxNodes explore x m vs nodes).Advances nodes (len + 1) := by
  induction vs generalizing nodes with
  | nil => exact Nat.le_refl _
  | cons v vs ih =>
    unfold tryEach
    split
    · trivial
    · have hv := h v (nodes + 1)
      revert hv
      cases explore (m.insert x v) (nodes + 1) with
      | found m' n => exact fun hv ↦ (Nat.add_right_comm nodes 1 len ▸ hv : nodes + len + 1 ≤ n)
      | gaveUp => exact id
      | exhausted n =>
        intro hv
        have hn : nodes + 1 ≤ n := hv
        have hrest : (tryEach maxNodes explore x m vs n).Advances n (len + 1) := ih
        revert hrest
        dsimp only
        cases tryEach maxNodes explore x m vs n with
        | found m' k => exact fun hk ↦ Nat.le_trans (by omega) (hk : n + (len + 1) ≤ k)
        | exhausted k => exact fun hk ↦ Nat.le_trans (by omega) (hk : n ≤ k)
        | gaveUp => exact id

/-- An exploration that finds something has tried a candidate for each variable. -/
theorem advances_of_explore : (explore p xs a nodes).Advances nodes xs.length := by
  induction xs generalizing a nodes with
  | nil =>
    unfold explore
    split <;> exact Nat.le_refl _
  | cons x xs ih =>
    unfold explore
    split
    · exact Nat.le_refl _
    · exact advances_of_tryEach (fun v n ↦ ih) _

theorem consistent_of_accepts (h : p.accepts a.values = true) : p.consistent a = true :=
  List.all_eq_true.2 fun c hc ↦ List.all_eq_true.1 h c (List.mem_of_mem_filter hc)

/-- Where every predicate is true and the current value of each variable is its first candidate, the current
values are found, and as many candidates are tried as there are variables. -/
theorem explore_of_current (haccepts : p.accepts a.values = true)
    (hcurrent : ∀ x ∈ xs, ∃ v rest, a.values.find? x = some v ∧ p.choices (reading a.values) x = v :: rest)
    (hlimit : nodes + xs.length ≤ p.maxNodes) :
    ∃ m n, explore p xs a nodes = .found m n ∧ m.find? = a.values.find? := by
  induction xs generalizing a nodes with
  | nil =>
    unfold explore
    exact ⟨a.values, nodes, if_pos (consistent_of_accepts haccepts), rfl⟩
  | cons x xs ih =>
    obtain ⟨v, rest, hv, hchoices⟩ := hcurrent x List.mem_cons_self
    have hinsert : (a.values.insert x v).find? = a.values.find? := by
      funext y
      rw [SortedMap.find?_insert]
      split
      · next hy => rw [hy, hv]
      · rfl
    have hreading : reading (a.values.insert x v) = reading a.values := by
      funext y
      rw [reading, reading, hinsert]
    rw [List.length_cons] at hlimit
    obtain ⟨m, n, hfound, hm⟩ := @ih ⟨a.values.insert x v, a.assigned ++ [x]⟩ (nodes + 1)
      (by rwa [accepts, hreading]) (fun y hy ↦ by
        dsimp only
        rw [hinsert, hreading]
        exact hcurrent y (List.mem_cons_of_mem _ hy)) (by omega)
    refine ⟨m, n, ?_, hm.trans hinsert⟩
    unfold explore
    have hcandidates : candidates ((p.domains.find? x).getD []) (a.value x) = v :: rest := hchoices
    rw [consistent_of_accepts haccepts, Bool.not_true, if_neg Bool.false_ne_true, hcandidates, tryEach,
      if_neg (by omega), hfound]

/-- A candidate of a variable is its first candidate where the variable has it, if the values of the domain
are near themselves. -/
theorem candidates_of_mem {domain : List Value} {current v : Value}
    (hnear : ∀ v ∈ domain, v.near v = true) (h : v ∈ candidates domain current) :
    ∃ rest, candidates domain v = v :: rest := by
  have hv : (domain.any fun u ↦ u.near v) = true := by
    unfold candidates at h
    dsimp only at h
    have hothers : v ∈ domain.filter (fun u ↦ !u.near current) → (domain.any fun u ↦ u.near v) = true :=
      fun hmem ↦ List.any_eq_true.2 ⟨v, List.mem_of_mem_filter hmem, hnear v (List.mem_of_mem_filter hmem)⟩
    split at h
    · next hany =>
      rcases List.mem_cons.1 h with rfl | h
      · exact hany
      · exact hothers h
    · exact hothers h
  exact ⟨_, if_pos hv⟩

theorem mem_intersection {lists : List (List Value)} {v : Value} (h : v ∈ intersection lists) :
    ∃ vs ∈ lists, v ∈ vs := by
  obtain _ | ⟨vs, rest⟩ := lists
  · cases h
  · exact ⟨vs, List.mem_cons_self, List.mem_of_mem_filter h⟩

/-- Which variables are searched depends on flags only. -/
theorem searchOrder_of_reassigned (h : s.Reassigned s') :
    d.searchOrder fixed s' = d.searchOrder fixed s := by
  rw [searchOrder, searchOrder, funext h.isReadonly]

/-- No demand is about a variable that is searched. -/
theorem find?_keptValues (hx : x ∈ d.searchOrder fixed s) : (d.keptValues fixed).find? x = none := by
  have hfold : ∀ (ks : List (ExtVar × Value)) (m : SortedMap ExtVar Value), x ∉ ks.map Prod.fst →
      (ks.foldl (fun m k ↦ m.insert k.1 k.2) m).find? x = m.find? x := by
    intro ks
    induction ks with
    | nil => exact fun _ _ ↦ rfl
    | cons k ks ih =>
      intro m hx
      rw [List.map_cons, List.mem_cons, not_or] at hx
      rw [List.foldl_cons, ih _ hx.2, SortedMap.find?_insert_of_ne m hx.1]
  refine hfold _ ∅ fun hkept ↦ ?_
  have hfree := (List.mem_filter.1 hx).2
  simp only [Bool.and_eq_true, Bool.not_eq_true', List.contains_eq_mem, decide_eq_false_iff_not,
    List.mem_append, not_or] at hfree
  exact hfree.1.1.2 hkept

/-- What a search that ends with variables has found: a combination of candidates under which every predicate
is true. -/
structure Finds (d : DomainSearch) (fixed : Option ExtVar) (s : Slots) (m : SortedMap ExtVar Value) : Prop where
  leaf : m ∈ d.problem.leaves (d.searchOrder fixed s) (d.startValues fixed s)
  accepts : d.problem.accepts m = true
  ordered : m.Ordered
  known : ∀ x ∈ d.involved, (m.find? x).isSome = true
  /-- The limit leaves room for a candidate of each variable. -/
  room : 0 + (d.searchOrder fixed s).length ≤ d.problem.maxNodes

theorem finds_of_explore {n : Nat}
    (h : explore d.problem (d.searchOrder fixed s) (d.begins fixed s) 0 = .found m n) :
    d.Finds fixed s m := by
  have hreports : Reports _ (explore d.problem (d.searchOrder fixed s) (d.begins fixed s) 0) :=
    reports_of_search
  have hadvances : (explore d.problem (d.searchOrder fixed s) (d.begins fixed s) 0).Advances 0 _ :=
    advances_of_explore
  have hcounts : Counts _ 0 _ (explore d.problem (d.searchOrder fixed s) (d.begins fixed s) 0) :=
    counts_of_explore (Nat.zero_le _)
  rw [h] at hreports hadvances hcounts
  have hfirst : _ = some m := hreports
  exact {
    leaf := List.mem_of_find?_eq_some hfirst
    accepts := List.find?_some hfirst
    ordered := (consistent_of_explore h).2.1 startValues_ok.1
    known := fun x hx ↦ (consistent_of_explore h).2.2 x (startValues_ok.2 x hx)
    room := Nat.le_trans hadvances hcounts.2 }

namespace Finds

/-- A search from the variables that one ended with starts from the values that it found. -/
theorem find?_startValues_written (h : d.Finds fixed s m)
    (hexist : ∀ x ∈ d.searchOrder fixed s, s.contains x = true) :
    (d.startValues fixed (written s m)).find? = m.find? := by
  funext x
  rw [find?_startValues, value_written h.ordered]
  by_cases hx : x ∈ d.searchOrder fixed s
  · have hin : x ∈ d.involved := List.mem_of_mem_filter hx
    obtain ⟨v, hv⟩ := Option.isSome_iff_exists.1 (h.known x hin)
    rw [find?_keptValues hx, Option.none_or, if_pos hin, if_pos (hexist x hx), hv, Option.getD_some]
  · rw [find?_of_mem_leaves h.leaf hx]
    show _ = (d.startValues fixed s).find? x
    rw [find?_startValues]
    cases (d.keptValues fixed).find? x with
    | some v => rfl
    | none =>
      rw [Option.none_or, Option.none_or]
      split
      · split
        · rfl
        · next hmissing => rw [value_of_missing (Bool.eq_false_iff.2 hmissing)]
      · rfl

/-- What was found for a searched variable is the first of its candidates where the variable has it. -/
theorem choices_eq (h : d.Finds fixed s m)
    (hnear : ∀ x, ∀ vs ∈ d.allowances x, ∀ v ∈ vs, v.near v = true) (hx : x ∈ d.searchOrder fixed s) :
    ∃ v rest, m.find? x = some v ∧ d.problem.choices (reading m) x = v :: rest := by
  obtain ⟨v, hv⟩ := Option.isSome_iff_exists.1 (h.known x (List.mem_of_mem_filter hx))
  have hread : reading m x = v := by rw [reading, hv, Option.getD_some]
  have hmem : v ∈ candidates (intersection (d.allowances x)) (reading (d.startValues fixed s) x) := by
    rw [← hread, ← getD_find?_domains]
    exact mem_choices_of_mem_leaves nodup_searchOrder h.leaf hx
  obtain ⟨rest, hrest⟩ := candidates_of_mem (fun w hw ↦ by
    obtain ⟨vs, hvs, hw⟩ := mem_intersection hw
    exact hnear x vs hvs w hw) hmem
  refine ⟨v, rest, hv, ?_⟩
  rw [Problem.choices, hread, ← hrest, ← getD_find?_domains]
  rfl

end Finds

/-- **Searching again moves nothing**, if the values that variables are allowed are near themselves and the
variables that are searched exist. -/
theorem search_of_search (hnear : ∀ x, ∀ vs ∈ d.allowances x, ∀ v ∈ vs, v.near v = true)
    (hexist : ∀ x ∈ d.searchOrder fixed s, s.contains x = true) (h : d.search fixed s = .ok s') :
    d.search fixed s' = .ok s' := by
  have hflags : s.Reassigned s' := reassigned_of_search h
  rw [search_eq] at h
  split at h
  case h_2 => cases h
  case h_3 => cases h
  case h_1 m n hfound =>
  cases h
  have hfinds := finds_of_explore hfound
  have hstart := hfinds.find?_startValues_written hexist
  have hreading : reading (d.begins fixed (written s m)).values = reading m :=
    funext fun x ↦ congrArg (Option.getD · _) (congrFun hstart x)
  -- every predicate is true at the start, and each variable has its first candidate
  have haccepts : d.problem.accepts (d.begins fixed (written s m)).values = true := by
    rw [accepts, hreading]
    exact hfinds.accepts
  have hcurrent : ∀ x ∈ d.searchOrder fixed s, ∃ v rest,
      (d.begins fixed (written s m)).values.find? x = some v ∧
      d.problem.choices (reading (d.begins fixed (written s m)).values) x = v :: rest := by
    intro x hx
    rw [hreading]
    obtain ⟨v, rest, hv, hchoices⟩ := hfinds.choices_eq hnear hx
    exact ⟨v, rest, (congrFun hstart x).trans hv, hchoices⟩
  obtain ⟨m', n', hfound', hm'⟩ := explore_of_current haccepts hcurrent hfinds.room
  have hordered' : m'.Ordered := (consistent_of_explore hfound').2.1 startValues_ok.1
  rw [search_eq, searchOrder_of_reassigned hflags, hfound']
  refine congrArg Except.ok ((reassigned_written _ m').eq_of_value fun x ↦ ?_)
  have hfind : m'.find? x = m.find? x := congrFun (hm'.trans hstart) x
  rw [value_written hordered', hfind, hflags.contains, value_written hfinds.ordered]
  split
  · cases m.find? x <;> rfl
  · rfl

theorem solve_of_search (h : d.search none d.model.slots = .ok s') :
    d.solve = (.ok (), { d with model := { d.model.countSolve with slots := s' } }) := by
  have hrun : search { d with model := d.model.countSolve } none d.model.countSolve.slots = .ok s' := h
  rw [solve, runFrom, hrun]
  rfl

/-- Solving again counts a run and does nothing else. -/
theorem solve_of_solve (hnear : ∀ x, ∀ vs ∈ d.allowances x, ∀ v ∈ vs, v.near v = true)
    (hexist : ∀ x ∈ d.searchOrder none d.model.slots, d.model.slots.contains x = true)
    (h : d.solve.1 = .ok ()) :
    d.solve.2.solve = (.ok (), { d.solve.2 with model := d.solve.2.model.countSolve }) := by
  cases hrun : d.search none d.model.slots with
  | error e =>
    have hrun' : search { d with model := d.model.countSolve } none d.model.countSolve.slots = .error e :=
      hrun
    rw [solve, runFrom, hrun'] at h
    cases h
  | ok s' =>
    rw [solve_of_search hrun]
    exact solve_of_search (search_of_search hnear hexist hrun)

end DomainSearch

/-! ### Solvers -/

namespace Solver

/-- What it takes for solving again to move nothing: in relaxation, that every demand to keep a value that
is on is required; in domain search, that the values that variables are allowed are near themselves and
the variables that are searched exist. -/
def Repeatable (s : Solver) : Prop :=
  match s.algorithm with
  | .relaxation r => ∀ c ∈ r.model.enabled, ∀ x v, c.1 = .keeps x v → c.2.isRequired = true
  | .dataflow _ => True
  | .domainSearch d =>
    (∀ t ∈ d.predicates, ∀ r ∈ DomainSearch.restrictions t, ∀ v ∈ r.2, v.near v = true) ∧
      ∀ x ∈ d.searchOrder none d.model.slots, d.model.slots.contains x = true
  | .keepsRejected _ | .stub _ | .custom _ => False

/-- **Solving again moves nothing.** After a call that succeeds another one succeeds too, counts a run and
does nothing else; each variable has the very value that it had. -/
theorem solve_again (s : Solver) (hs : s.Repeatable) (h : s.solve.1 = .ok ()) :
    s.solve.2.solve = (.ok (), s.solve.2.update Model.countSolve id .solve) ∧
      s.solve.2.solve.2.value = s.solve.2.value := by
  have hagain : s.solve.2.solve = (.ok (), s.solve.2.update Model.countSolve id .solve) := by
    obtain ⟨name, innerName, weight, algorithm⟩ := s
    cases algorithm with
    | relaxation r =>
      exact congrArg (answer ⟨name, innerName, weight, _⟩ .relaxation)
        (r.solve_of_solve (fun x v priority hc ↦ hs _ hc x v rfl) h)
    | dataflow d => exact congrArg (answer ⟨name, innerName, weight, _⟩ .dataflow) (d.solve_of_solve h)
    | domainSearch d =>
      refine congrArg (answer ⟨name, innerName, weight, _⟩ .domainSearch)
        (d.solve_of_solve (fun x vs hvs v hv ↦ ?_) hs.2 h)
      obtain ⟨r, hr, rfl⟩ := List.mem_map.1 hvs
      obtain ⟨t, ht, hr⟩ := List.mem_flatMap.1 (List.mem_of_mem_filter hr)
      exact hs.1 t ht r hr v hv
    | keepsRejected r => exact hs.elim
    | stub b => exact hs.elim
    | custom c => exact hs.elim
  refine ⟨hagain, ?_⟩
  rw [hagain]
  funext x
  obtain ⟨name, innerName, weight, algorithm⟩ := s
  cases algorithm with
  | custom c => exact hs.elim
  | _ => rfl

/-- Solving moves the variables to two and three, and solving again leaves them there. -/
theorem solve_again_fiveFromTwo : ∃ s : Solver, s.algorithm = .domainSearch .fiveFromTwo ∧
    s.value ⟨0⟩ = .number 1 ∧ s.solve.2.value ⟨0⟩ = .number 2 ∧ s.solve.2.solve.2.value ⟨0⟩ = .number 2 := by
  have hrepeatable : (∀ t ∈ DomainSearch.fiveFromTwo.predicates, ∀ r ∈ DomainSearch.restrictions t,
      ∀ v ∈ r.2, v.near v = true) ∧
      ∀ x ∈ DomainSearch.fiveFromTwo.searchOrder none DomainSearch.fiveFromTwo.model.slots,
        DomainSearch.fiveFromTwo.model.slots.contains x = true := by decide +kernel
  have hsolved : (named "domain" 50 (.domainSearch .fiveFromTwo)).solve.2.value ⟨0⟩ = .number 2 := by
    decide +kernel
  obtain ⟨-, hvalue⟩ := solve_again (named "domain" 50 (.domainSearch .fiveFromTwo)) hrepeatable
    (Except.eq_ok_of_isOk (by decide +kernel))
  exact ⟨_, rfl, by decide +kernel, hsolved, (congrFun hvalue _).trans hsolved⟩

/-- Two variables, the second of which does not exist any more. Where it is one, the first has to be at most
one and not too small; where it is two, the first has to be seven. -/
def forgetful : DomainSearch :=
  let (_, d) := DomainSearch.declare { maxNodes := 100 } (.number 0)
  let (_, d) := d.declare (.number 1)
  let (_, d) := d.compile (.inDomain (.var ⟨1⟩) [.number 1, .number 2])
  let (_, d) := d.compile (.inDomain (.var ⟨0⟩) [.number 5e-10, .number 7])
  let (_, d) := d.compile (.binary .or
    (.binary .and (.binary .eq (.var ⟨1⟩) (.const (.number 1)))
      (.binary .and
        (.binary .ge (.binary .mul (.var ⟨0⟩) (.const (.number 1e10))) (.const (.number 4)))
        (.binary .le (.var ⟨0⟩) (.const (.number 1)))))
    (.binary .and (.binary .eq (.var ⟨1⟩) (.const (.number 2)))
      (.binary .eq (.var ⟨0⟩) (.const (.number 7)))))
  let (_, model) := d.model.setEnabled ⟨0⟩ (some .required)
  let (_, model) := model.setEnabled ⟨1⟩ (some .required)
  let (_, model) := model.setEnabled ⟨2⟩ (some .required)
  { d with model := { model with slots := model.slots.remove ⟨1⟩ } }

/-- All values that variables are allowed are near themselves, and solving again moves the first variable. At
first it is zero, which is tried in place of the smaller value and does not do. At seven the smaller value
itself is tried, with one for the second variable, before two is. -/
theorem exists_moved_again : ∃ s : Solver, s.algorithm = .domainSearch forgetful ∧
    (∀ t ∈ forgetful.predicates, ∀ r ∈ DomainSearch.restrictions t, ∀ v ∈ r.2, v.near v = true) ∧
    s.solve.1 = .ok () ∧ s.solve.2.solve.1 = .ok () ∧
    s.solve.2.value ⟨0⟩ = .number 7 ∧ s.solve.2.solve.2.value ⟨0⟩ ≠ .number 7 :=
  ⟨named "domain" 50 (.domainSearch forgetful), rfl, by decide +kernel,
    Except.eq_ok_of_isOk (by decide +kernel), Except.eq_ok_of_isOk (by decide +kernel),
    by decide +kernel, by decide +kernel⟩

end Solver

end LiveConstraints
