import LiveConstraints.Engine.Editing
import LiveConstraints.Proofs.Rollback
import Mathlib.Data.List.Induction
/-!
# What a batch sets

A dataflow solver sets the variables of its open edit session to the values of a batch and holds them
while it moves the others, so it holds the batch when it is done (`Dataflow.of_resolveBatch`). A session
deals its fields out to the solvers: each solver is named once, with the positions of the fields that it
has a handle for (`EditSession.mem_of_mem_solvers`).
-/

namespace LiveConstraints

/-! ### Held variables -/

namespace Dataflow

open Plan

variable {d : Dataflow} {plan plan' : Plan} {fixed : List ExtVar} {s s' : Slots} {x : ExtVar}

/-- A variable that is held is determined, and has the value that it is held at. -/
def Holds (plan plan' : Plan) (fixed : List ExtVar) : Prop :=
  ∀ x ∈ fixed, x ∈ plan.determined → x ∈ plan'.determined ∧
    plan'.slots.value x = plan.slots.value x

theorem holds_of_startOne {keeper : ExtVar × Float × Bool}
    (h : startOne fixed plan keeper = .ok plan') : Holds plan plan' fixed := by
  obtain ⟨y, v, required⟩ := keeper
  intro x hx hdetermined
  rcases startOne_cases h with ⟨-, rfl, -⟩ | ⟨hfree, -, hslots, -, hlater⟩
  · exact ⟨hdetermined, rfl⟩
  · have hne : x ≠ y := by
      rintro rfl
      exact hfree (.inl hx)
    rw [hslots]
    exact ⟨(hlater x).2 (.inl hdetermined), Slots.value_assign_of_ne hne⟩

theorem holds_of_foldlM_startOne {keepers : List (ExtVar × Float × Bool)}
    (h : keepers.foldlM (startOne fixed) plan = .ok plan') : Holds plan plan' fixed := by
  induction keepers generalizing plan with
  | nil =>
    cases h
    exact fun _ _ hdetermined ↦ ⟨hdetermined, rfl⟩
  | cons keeper keepers ih =>
    rw [List.foldlM_cons] at h
    obtain ⟨plan₁, h₁, h⟩ := Except.of_bind_ok h
    intro x hx hdetermined
    obtain ⟨hdetermined₁, hvalue₁⟩ := holds_of_startOne h₁ x hx hdetermined
    obtain ⟨hdetermined', hvalue⟩ := ih h x hx hdetermined₁
    exact ⟨hdetermined', hvalue.trans hvalue₁⟩

theorem extends_determineReadonly (plan : Plan) : Extends plan (determineReadonly plan) := by
  have hfold : ∀ (xs : List ExtVar) (plan : Plan), Extends plan
      (xs.foldl (fun plan x ↦ if plan.slots.isReadonly x then plan.determine x else plan) plan) := by
    intro xs
    induction xs with
    | nil => exact .refl
    | cons x xs ih =>
      intro plan
      rw [List.foldl_cons]
      split
      · exact (extends_determine plan x).trans (ih _)
      · exact ih plan
  exact hfold _ plan

/-- **What a run holds** does not move. -/
theorem value_of_propagate (h : d.propagate fixed s = .ok s') (hx : x ∈ fixed) :
    s'.value x = s.value x := by
  obtain ⟨started, hstarted, h⟩ := Except.of_bind_ok h
  obtain ⟨final, hfinal, h⟩ := Except.of_bind_ok h
  cases h
  obtain ⟨hdetermined, hvalue⟩ := holds_of_foldlM_startOne hstarted x hx hx
  have hlater := (extends_determineReadonly started).trans (passes_ok hfinal).1
  exact (hlater.final x hdetermined).trans hvalue

/-! ### Batches -/

theorem value_of_assignBatch_of_notMem {batch : List (ExtVar × Value)}
    (h : assignBatch s batch = .ok s') (hx : x ∉ batch.map Prod.fst) : s'.value x = s.value x := by
  induction batch generalizing s with
  | nil =>
    cases h
    rfl
  | cons first rest ih =>
    obtain ⟨y, v⟩ := first
    obtain ⟨s₁, h₁, h⟩ := Except.of_bind_ok h
    obtain ⟨number, -, h₁⟩ := Except.of_bind_ok h₁
    cases h₁
    rw [List.map_cons, List.mem_cons, not_or] at hx
    rw [ih h hx.2, Slots.value_assign_of_ne hx.1]

/-- Each variable of a batch that exists has the value that the batch gives to it. -/
theorem value_of_assignBatch {batch : List (ExtVar × Value)} (h : assignBatch s batch = .ok s')
    (hnodup : (batch.map Prod.fst).Nodup) {v : Value} (hmem : (x, v) ∈ batch)
    (hx : s.contains x = true) : s'.value x = v := by
  induction batch generalizing s with
  | nil => cases hmem
  | cons first rest ih =>
    obtain ⟨y, w⟩ := first
    obtain ⟨s₁, h₁, hrest⟩ := Except.of_bind_ok h
    obtain ⟨number, hnumber, h₁⟩ := Except.of_bind_ok h₁
    cases h₁
    rw [List.map_cons, List.nodup_cons] at hnodup
    rcases List.mem_cons.1 hmem with heq | hmem
    · cases heq
      rw [value_of_assignBatch_of_notMem hrest hnodup.1, Slots.value_assign_self hx]
      unfold number? at hnumber
      split at hnumber
      · next n hn =>
        cases hnumber
        cases v <;> cases hn
        rfl
      · cases hnumber
    · refine ih hrest hnodup.2 hmem ?_
      rw [(Slots.Reassigned.assign ..).contains, hx]

/-- **Batches.** A solver that took a batch has an open session, and its variables hold the batch. -/
theorem of_resolveBatch {solver : String} {values : List Value}
    (h : (d.resolveBatch solver values).1 = .ok ()) :
    ∃ xs, d.editing = some xs ∧ xs.length = values.length ∧
      (xs.Nodup → ∀ x v, (x, v) ∈ xs.zip values → d.model.slots.contains x = true →
        (d.resolveBatch solver values).2.model.slots.value x = v) := by
  unfold resolveBatch at h ⊢
  cases hediting : d.editing with
  | none =>
    rw [hediting] at h
    cases h
  | some xs =>
    rw [hediting] at h
    dsimp only at h ⊢
    split at h
    · cases h
    next hlength =>
    rw [if_neg hlength]
    have hlength : xs.length = values.length := Decidable.not_not.1 hlength
    refine ⟨xs, rfl, hlength, fun hnodup x v hmem hx ↦ ?_⟩
    cases hassign : assignBatch d.model.slots (xs.zip values) with
    | error err =>
      rw [show (d.model.countSolve).slots = d.model.slots from rfl, hassign] at h
      cases h
    | ok start =>
      rw [show (d.model.countSolve).slots = d.model.slots from rfl, hassign] at h
      rw [show (d.model.countSolve).slots = d.model.slots from rfl, hassign]
      dsimp only [runFrom] at h ⊢
      cases hrun : propagate { model := d.model.countSolve, editing := some xs } xs start with
      | error err =>
        rw [hrun] at h
        cases h
      | ok slots =>
        have hkeys : ((xs.zip values).map Prod.fst).Nodup := by
          rwa [List.map_fst_zip (Nat.le_of_eq hlength)]
        rw [Model.settle]
        dsimp only
        rw [value_of_propagate hrun (List.of_mem_zip hmem).1]
        exact value_of_assignBatch hassign hkeys hmem hx

end Dataflow

/-! ### Shares -/

namespace EditSession

variable {fields : List (VarId × List (SolverId × ExtVar))} {s t : SolverId} {h : ExtVar} {x : VarId}
  {handles : List (SolverId × ExtVar)} {i p : Nat} {positions : List Nat}
  {l : List (SolverId × List Nat)}

theorem lookup_assign (p : Nat) (s t : SolverId) (l : List (SolverId × List Nat)) :
    (assign p s l).lookup t
      = if t = s then some ((l.lookup s).getD [] ++ [p]) else l.lookup t := by
  induction l with
  | nil =>
    unfold assign
    split
    · next heq => rw [heq, List.lookup_cons_self]; rfl
    · next hne => rw [List.lookup_cons, beq_false_of_ne hne]
  | cons first rest ih =>
    obtain ⟨u, members⟩ := first
    unfold assign
    by_cases hu : u = s
    · subst hu
      rw [if_pos rfl, List.lookup_cons_self]
      by_cases ht : t = u
      · rw [if_pos ht, ht, List.lookup_cons_self]
        rfl
      · rw [if_neg ht, List.lookup_cons, List.lookup_cons, beq_false_of_ne ht]
    · rw [if_neg hu, List.lookup_cons, ih]
      by_cases ht : t = u
      · subst ht
        rw [beq_self_eq_true, if_neg hu, if_neg hu, List.lookup_cons_self]
      · rw [beq_false_of_ne ht, List.lookup_cons, List.lookup_cons, beq_false_of_ne ht,
          beq_false_of_ne (Ne.symm hu)]

theorem keys_assign (p : Nat) (s : SolverId) (l : List (SolverId × List Nat)) :
    (assign p s l).map Prod.fst
      = if s ∈ l.map Prod.fst then l.map Prod.fst else l.map Prod.fst ++ [s] := by
  induction l with
  | nil => rfl
  | cons first rest ih =>
    obtain ⟨u, members⟩ := first
    unfold assign
    by_cases hu : u = s
    · rw [if_pos hu, if_pos (by simp [hu])]
      rfl
    · rw [if_neg hu, List.map_cons, ih, List.map_cons]
      have hiff : s ∈ u :: rest.map Prod.fst ↔ s ∈ rest.map Prod.fst := by
        simp [Ne.symm hu]
      by_cases hmem : s ∈ rest.map Prod.fst
      · rw [if_pos hmem, if_pos (hiff.2 hmem)]
      · rw [if_neg hmem, if_neg fun hm ↦ hmem (hiff.1 hm), List.cons_append]

/-- The handles of some fields, each as its solver and the position of its field. -/
def deals (fields : List (VarId × List (SolverId × ExtVar))) : List (SolverId × Nat) :=
  fields.zipIdx.flatMap fun (field, i) ↦ field.2.map fun b ↦ (b.1, i)

/-- The positions that are dealt out to a solver. -/
def share (deals : List (SolverId × Nat)) (s : SolverId) : List Nat :=
  (deals.filter fun b ↦ b.1 = s).map Prod.snd

/-- Solvers have been dealt out positions. -/
structure Dealt (deals : List (SolverId × Nat)) (l : List (SolverId × List Nat)) : Prop where
  nodup : (l.map Prod.fst).Nodup
  lookup : ∀ s, l.lookup s = if share deals s = [] then none else some (share deals s)

theorem Dealt.assign {deals : List (SolverId × Nat)} (hd : Dealt deals l) (b : SolverId × Nat) :
    Dealt (deals ++ [b]) (EditSession.assign b.2 b.1 l) where
  nodup := by
    rw [keys_assign]
    split
    · exact hd.nodup
    · next hmem => exact List.nodup_append.2 ⟨hd.nodup, by simp, by
        rintro a ha c hc rfl
        rw [List.mem_singleton.1 hc] at ha
        exact hmem ha⟩
  lookup t := by
    have hshare : share (deals ++ [b]) t = share deals t ++ if b.1 = t then [b.2] else [] := by
      unfold share
      rw [List.filter_append, List.map_append]
      congr 1
      by_cases hb : b.1 = t <;> simp [hb]
    have hold : ∀ t, (l.lookup t).getD [] = share deals t := by
      intro t
      rw [hd.lookup]
      split
      · next hnil => rw [hnil]; rfl
      · rfl
    rw [lookup_assign, hshare]
    by_cases hb : t = b.1
    · rw [if_pos hb, if_pos hb.symm, hold, hb, if_neg (by simp)]
    · rw [if_neg hb, if_neg (Ne.symm hb), List.append_nil, hd.lookup]

theorem dealt_ofFields (fields : List (VarId × List (SolverId × ExtVar))) :
    Dealt (deals fields) (ofFields fields).solvers := by
  have hfold : ∀ (l : List (SolverId × Nat)), Dealt l
      (l.foldl (fun solvers b ↦ EditSession.assign b.2 b.1 solvers) []) := by
    intro l
    induction l using List.reverseRecOn with
    | nil => exact ⟨List.nodup_nil, fun _ ↦ rfl⟩
    | append_singleton l b ih =>
      rw [List.foldl_append]
      exact ih.assign b
  have hsolvers : (ofFields fields).solvers
      = (deals fields).foldl (fun solvers b ↦ EditSession.assign b.2 b.1 solvers) [] := by
    rw [deals, List.foldl_flatMap, ofFields]
    dsimp only
    congr 1
    funext solvers field
    rw [List.foldl_map]
  rw [hsolvers]
  exact hfold _

theorem mem_share_deals : i ∈ share (deals fields) s ↔
    ∃ x handles h, fields[i]? = some (x, handles) ∧ (s, h) ∈ handles := by
  unfold share deals
  constructor
  · intro hi
    obtain ⟨⟨t, j⟩, hb, rfl⟩ := List.mem_map.1 hi
    obtain ⟨hmem, ht⟩ := List.mem_filter.1 hb
    obtain ⟨⟨⟨x, handles⟩, j'⟩, hfield, hb⟩ := List.mem_flatMap.1 hmem
    obtain ⟨⟨t', h⟩, hh, heq⟩ := List.mem_map.1 hb
    cases heq
    refine ⟨x, handles, h, List.mem_zipIdx_iff_getElem?.1 hfield, ?_⟩
    rwa [← show t' = s by simpa using ht]
  · rintro ⟨x, handles, h, hfield, hh⟩
    refine List.mem_map.2 ⟨(s, i), List.mem_filter.2 ⟨?_, by simp⟩, rfl⟩
    refine List.mem_flatMap.2 ⟨((x, handles), i), List.mem_zipIdx_iff_getElem?.2 hfield, ?_⟩
    exact List.mem_map.2 ⟨(s, h), hh, rfl⟩

theorem Dealt.lookup_of_mem {deals : List (SolverId × Nat)} (hd : Dealt deals l)
    (hmem : (s, positions) ∈ l) : positions = share deals s := by
  have hlookup : l.lookup s = some positions := by
    have hnodup := hd.nodup
    clear hd
    induction l with
    | nil => cases hmem
    | cons first rest ih =>
      rw [List.map_cons, List.nodup_cons] at hnodup
      rcases List.mem_cons.1 hmem with rfl | hmem
      · exact List.lookup_cons_self
      · have hne : s ≠ first.1 := by
          rintro rfl
          exact hnodup.1 (List.mem_map.2 ⟨_, hmem, rfl⟩)
        rw [List.lookup_cons, beq_false_of_ne hne]
        exact ih hmem hnodup.2
  rw [hd.lookup] at hlookup
  split at hlookup
  · cases hlookup
  · exact (Option.some.inj hlookup).symm

/-- A solver gets the positions of the fields that it has a handle for. -/
theorem mem_of_mem_solvers (hmem : (s, positions) ∈ (ofFields fields).solvers) :
    i ∈ positions ↔ ∃ x handles h, fields[i]? = some (x, handles) ∧ (s, h) ∈ handles := by
  rw [(dealt_ofFields fields).lookup_of_mem hmem, mem_share_deals]

/-- Every field is dealt out to the solvers that have a handle for it. -/
theorem exists_mem_solvers (hfield : fields[i]? = some (x, handles)) (hh : (s, h) ∈ handles) :
    ∃ positions, (s, positions) ∈ (ofFields fields).solvers ∧ i ∈ positions := by
  have hshare : i ∈ share (deals fields) s := mem_share_deals.2 ⟨x, handles, h, hfield, hh⟩
  have hlookup := (dealt_ofFields fields).lookup s
  rw [if_neg (List.ne_nil_of_mem hshare)] at hlookup
  obtain ⟨l₁, l₂, heq, -⟩ := List.lookup_eq_some_iff.1 hlookup
  refine ⟨share (deals fields) s, ?_, hshare⟩
  rw [heq]
  exact List.mem_append_right _ List.mem_cons_self

/-- No position is dealt out twice, if each field has one handle at most. -/
theorem nodup_of_mem_solvers (hsole : ∀ field ∈ fields, field.2.length ≤ 1)
    (hmem : (s, positions) ∈ (ofFields fields).solvers) : positions.Nodup := by
  rw [(dealt_ofFields fields).lookup_of_mem hmem]
  have hdeals : ∀ l : List ((VarId × List (SolverId × ExtVar)) × Nat),
      (∀ field ∈ l, field.1.2.length ≤ 1) →
        ((l.flatMap fun (field, i) ↦ field.2.map fun b ↦ (b.1, i)).map Prod.snd).Sublist
          (l.map Prod.snd) := by
    intro l hl
    induction l with
    | nil => exact .slnil
    | cons first rest ih =>
      obtain ⟨⟨x, handles⟩, i⟩ := first
      have hrest := ih fun field hfield ↦ hl field (List.mem_cons_of_mem _ hfield)
      rw [List.flatMap_cons, List.map_append, List.map_cons]
      match handles, hl _ List.mem_cons_self with
      | [], _ => exact hrest.cons _
      | [b], _ => exact hrest.cons_cons _
  refine List.Nodup.sublist ((List.filter_sublist.map _).trans (hdeals _ fun field hfield ↦ ?_)) ?_
  · exact hsole field.1 (List.mem_of_getElem? (List.mem_zipIdx_iff_getElem?.1 hfield))
  · rw [List.zipIdx_map_snd]
    exact List.nodup_range'

end EditSession

end LiveConstraints
