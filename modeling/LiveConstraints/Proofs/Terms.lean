import LiveConstraints.LinearForm
import LiveConstraints.Proofs.Tables
/-!
# Terms and linear forms

Which variables a term mentions, and that its value depends on nothing else. Lowering a term into
a linear form adds no variable and keeps the coefficients in the order of their variables
(`LinearForm.lowers_of_ofTerm`), so no variable has two coefficients: the dataflow planner rests on
that.
-/

namespace LiveConstraints

/-! ### Successful sequences -/

namespace Except

variable {ε α β : Type}

/-- A sequence that succeeds has a first part that succeeds. -/
theorem of_bind_ok {m : Except ε α} {f : α → Except ε β} {b : β} (h : m >>= f = .ok b) :
    ∃ a, m = .ok a ∧ f a = .ok b := by
  cases m with
  | ok a => exact ⟨a, rfl, h⟩
  | error e => cases h

theorem of_mapError_ok {ε' : Type} {m : Except ε α} {f : ε → ε'} {a : α}
    (h : m.mapError f = .ok a) : m = .ok a := by
  cases m with
  | ok b =>
    cases h
    rfl
  | error e => cases h

/-- What a successful pass over a list collects comes from its members. -/
theorem mem_of_mapM_ok {f : α → Except ε β} {xs : List α} {ys : List β} (h : xs.mapM f = .ok ys)
    {y : β} (hy : y ∈ ys) : ∃ x ∈ xs, f x = .ok y := by
  induction xs generalizing ys with
  | nil =>
    rw [List.mapM_nil] at h
    cases h
    exact absurd hy (by simp)
  | cons x xs ih =>
    rw [List.mapM_cons] at h
    obtain ⟨y', hy', h⟩ := of_bind_ok h
    obtain ⟨ys', hys', h⟩ := of_bind_ok h
    cases h
    rcases List.mem_cons.1 hy with rfl | hy
    · exact ⟨x, List.mem_cons_self, hy'⟩
    · obtain ⟨x', hx', hfx'⟩ := ih hys' hy
      exact ⟨x', List.mem_cons_of_mem _ hx', hfx'⟩

end Except

namespace Term

/-! ### Variables of a term -/

/-- A variable occurs in a term. -/
def Mentions (x : ExtVar) : Term → Prop
  | .var y => x = y
  | .const _ => False
  | .unary _ t => t.Mentions x
  | .binary _ l r => l.Mentions x ∨ r.Mentions x
  | .inDomain t _ => t.Mentions x

theorem mem_collectVariables {x : ExtVar} {t : Term} {seen : List ExtVar} :
    x ∈ t.collectVariables seen ↔ x ∈ seen ∨ t.Mentions x := by
  induction t generalizing seen with
  | var y =>
    simp only [collectVariables, Mentions]
    split
    · next h =>
      have hy : y ∈ seen := by simpa using h
      exact ⟨.inl, fun h ↦ h.elim id fun h ↦ h ▸ hy⟩
    · simp
  | const v => simp [collectVariables, Mentions]
  | unary op t ih => exact ih
  | binary op l r ihl ihr => rw [collectVariables, ihr, ihl, Mentions, or_assoc]
  | inDomain t domain ih => exact ih

theorem mem_vars {x : ExtVar} {t : Term} : x ∈ t.vars ↔ t.Mentions x := by
  rw [vars, mem_collectVariables]
  simp

/-- The value of a term depends on the variables it mentions only. -/
theorem evaluate_congr {t : Term} {f g : ExtVar → Value} (h : ∀ x, t.Mentions x → f x = g x) :
    t.evaluate f = t.evaluate g := by
  induction t with
  | var y => exact h y rfl
  | const v => rfl
  | unary op t ih => rw [evaluate, evaluate, ih h]
  | binary op l r ihl ihr =>
    rw [evaluate, evaluate, ihl fun x hx ↦ h x (.inl hx), ihr fun x hx ↦ h x (.inr hx)]
  | inDomain t domain ih => rw [evaluate, evaluate, ih h]

theorem mentions_of_mem_conjuncts {t c : Term} {x : ExtVar} (hc : c ∈ t.conjuncts)
    (hx : c.Mentions x) : t.Mentions x := by
  induction t using conjuncts.induct with
  | case1 l r ihl ihr =>
    rw [conjuncts, List.mem_append] at hc
    exact hc.imp ihl ihr
  | case2 t hne =>
    rw [conjuncts, List.mem_singleton] at hc
    · exact hc ▸ hx
    · exact hne

end Term

namespace LinearForm

/-! ### Linear forms -/

theorem foldl_terms_congr {v w : ExtVar → Float} {es : List (ExtVar × Float)} (sum : Float)
    (h : ∀ e ∈ es, v e.1 = w e.1) :
    es.foldl (fun sum e ↦ sum + e.2 * v e.1) sum = es.foldl (fun sum e ↦ sum + e.2 * w e.1) sum := by
  induction es generalizing sum with
  | nil => rw [List.foldl_nil, List.foldl_nil]
  | cons e r ih =>
    rw [List.foldl_cons, List.foldl_cons, h e List.mem_cons_self]
    exact ih _ fun e he ↦ h e (List.mem_cons_of_mem _ he)

/-- The value of a form depends on its variables only. -/
theorem evaluate_congr {f : LinearForm} {v w : ExtVar → Float} (h : ∀ x ∈ f.vars, v x = w x) :
    f.evaluate v = f.evaluate w := by
  have hterms : ∀ e ∈ f.coefficients.entries, v e.1 = w e.1 :=
    fun e he ↦ h e.1 (List.mem_map.2 ⟨e, he, rfl⟩)
  exact congrArg (· + f.constant) (foldl_terms_congr _ hterms)

/-- Every variable of the form has one coefficient. -/
def Ordered (f : LinearForm) : Prop := f.coefficients.Ordered

theorem Ordered.nodup_vars {f : LinearForm} (h : f.Ordered) : f.vars.Nodup := h.nodup_keys

theorem Ordered.prune {f : LinearForm} (h : f.Ordered) : f.prune.Ordered :=
  h.sublist List.filter_sublist

theorem Ordered.scaled {f : LinearForm} (h : f.Ordered) (k : Float) : (f.scaled k).Ordered :=
  Ordered.prune (List.pairwise_map.2 h)

theorem Ordered.plus {f g : LinearForm} (h : f.Ordered) (sign : Float) :
    (f.plus g sign).Ordered := by
  have hfold : ∀ (es : List (ExtVar × Float)) (m : SortedMap ExtVar Float), m.Ordered →
      (es.foldl (fun m e ↦ m.insert e.1 ((m.find? e.1).getD 0.0 + sign * e.2)) m).Ordered := by
    intro es
    induction es with
    | nil => exact fun m hm ↦ hm
    | cons e r ih => exact fun m hm ↦ ih _ (hm.insert _ _)
  exact Ordered.prune (hfold _ _ h)

theorem vars_prune {f : LinearForm} {x : ExtVar} (h : x ∈ f.prune.vars) : x ∈ f.vars := by
  obtain ⟨e, he, rfl⟩ := List.mem_map.1 h
  exact List.mem_map_of_mem (List.mem_of_mem_filter he)

theorem vars_scaled {f : LinearForm} {k : Float} {x : ExtVar} (h : x ∈ (f.scaled k).vars) :
    x ∈ f.vars := by
  obtain ⟨e, he, rfl⟩ := List.mem_map.1 (vars_prune h)
  obtain ⟨e', he', rfl⟩ := List.mem_map.1 he
  exact List.mem_map.2 ⟨e', he', rfl⟩

/-- Adding up coefficients adds the keys of the summands only. -/
theorem mem_keys_foldl_insert {x : ExtVar} {sign : Float} {es : List (ExtVar × Float)}
    {m : SortedMap ExtVar Float}
    (h : x ∈ (es.foldl (fun m e ↦ m.insert e.1 ((m.find? e.1).getD 0.0 + sign * e.2)) m).keys) :
    x ∈ m.keys ∨ x ∈ es.map Prod.fst := by
  induction es generalizing m with
  | nil => exact .inl h
  | cons e r ih =>
    rw [List.foldl_cons] at h
    rcases ih h with h | h
    · rw [SortedMap.mem_keys_iff, SortedMap.find?_insert] at h
      split at h
      · next heq => exact .inr (heq ▸ List.mem_cons_self)
      · exact .inl (SortedMap.mem_keys_iff.2 h)
    · exact .inr (List.mem_cons_of_mem _ h)

theorem vars_plus {f g : LinearForm} {sign : Float} {x : ExtVar} (h : x ∈ (f.plus g sign).vars) :
    x ∈ f.vars ∨ x ∈ g.vars := by
  simp only [plus] at h
  exact mem_keys_foldl_insert (vars_prune h)

theorem ordered_ofVariable (x : ExtVar) : (ofVariable x).Ordered := by
  unfold ofVariable Ordered
  dsimp only
  exact SortedMap.ordered_empty.insert x _

theorem vars_ofVariable (x : ExtVar) : (ofVariable x).vars = [x] := by
  simp only [ofVariable, vars, SortedMap.keys, SortedMap.insert, SortedMap.empty,
    SortedMap.insertIn, List.map_cons, List.map_nil]

theorem vars_ofConstant (k : Float) : (ofConstant k).vars = [] := rfl

theorem ordered_ofConstant (k : Float) : (ofConstant k).Ordered := SortedMap.ordered_empty

/-- What lowering a term gives: one coefficient for each variable, and no variable that the term
does not mention. -/
structure Lowers (t : Term) (f : LinearForm) : Prop where
  /-- Every variable has one coefficient. -/
  ordered : f.Ordered
  /-- The variables are those of the term. -/
  mentions : ∀ x ∈ f.vars, t.Mentions x

theorem Lowers.scaled {t u : Term} {f : LinearForm} (h : Lowers t f)
    (hsub : ∀ x, t.Mentions x → u.Mentions x) (k : Float) : Lowers u (f.scaled k) where
  ordered := h.ordered.scaled k
  mentions x hx := hsub x (h.mentions x (vars_scaled hx))

theorem Lowers.plus {l r u : Term} {f g : LinearForm} (hf : Lowers l f) (hg : Lowers r g)
    (hl : ∀ x, l.Mentions x → u.Mentions x) (hr : ∀ x, r.Mentions x → u.Mentions x)
    (sign : Float) : Lowers u (f.plus g sign) where
  ordered := hf.ordered.plus sign
  mentions x hx :=
    (vars_plus hx).elim (fun hx ↦ hl x (hf.mentions x hx)) fun hx ↦ hr x (hg.mentions x hx)

/-- Lowering succeeds with a form over the variables of the term. -/
theorem lowers_of_ofTerm {t : Term} {f : LinearForm} (h : ofTerm t = .ok f) : Lowers t f := by
  induction t using ofTerm.induct generalizing f with
  | case1 x =>
    rw [ofTerm] at h
    cases h
    refine ⟨ordered_ofVariable x, fun y hy ↦ ?_⟩
    rw [vars_ofVariable, List.mem_singleton] at hy
    exact hy
  | case2 k =>
    rw [ofTerm] at h
    cases h
    exact ⟨ordered_ofConstant k, fun y hy ↦ absurd hy (by simp [vars_ofConstant])⟩
  | case4 t ih =>
    rw [ofTerm] at h
    obtain ⟨f, hf, h⟩ := Except.of_bind_ok h
    cases h
    exact (ih hf).scaled (u := .unary .neg t) (fun _ hx ↦ hx) _
  | case5 l r ihl ihr =>
    rw [ofTerm] at h
    obtain ⟨f, hf, h⟩ := Except.of_bind_ok h
    obtain ⟨g, hg, h⟩ := Except.of_bind_ok h
    cases h
    exact (ihl hf).plus (ihr hg) (fun _ ↦ Or.inl) (fun _ ↦ Or.inr) _
  | case6 l r ihl ihr =>
    rw [ofTerm] at h
    obtain ⟨f, hf, h⟩ := Except.of_bind_ok h
    obtain ⟨g, hg, h⟩ := Except.of_bind_ok h
    cases h
    exact (ihl hf).plus (ihr hg) (fun _ ↦ Or.inl) (fun _ ↦ Or.inr) _
  | case7 l r ihl ihr =>
    rw [ofTerm] at h
    obtain ⟨f, hf, h⟩ := Except.of_bind_ok h
    obtain ⟨g, hg, h⟩ := Except.of_bind_ok h
    split at h
    · cases h
      exact (ihr hg).scaled (fun _ ↦ Or.inr) _
    · split at h
      · cases h
        exact (ihl hf).scaled (fun _ ↦ Or.inl) _
      · cases h
  | case8 l r ihr ihl =>
    rw [ofTerm] at h
    obtain ⟨g, hg, h⟩ := Except.of_bind_ok h
    dsimp only at h
    split at h
    · cases h
    · split at h
      · cases h
      · obtain ⟨f, hf, h⟩ := Except.of_bind_ok h
        cases h
        exact (ihl hf).scaled (fun _ ↦ Or.inl) _
  | _ => simp_all [ofTerm]

end LinearForm

namespace LinearRelation

/-! ### Linear relations -/

/-- A relation holds or not by the values of its variables only. -/
theorem violation?_congr {rel : LinearRelation} {v w : ExtVar → Float} {tolerance : Float}
    (h : ∀ x ∈ rel.form.vars, v x = w x) :
    rel.violation? v tolerance = rel.violation? w tolerance := by
  simp only [violation?, LinearForm.evaluate_congr h]

theorem lowers_of_ofConjunct {t : Term} {rel : LinearRelation}
    (h : ofConjunct? t = .ok (some rel)) : LinearForm.Lowers t rel.form := by
  unfold ofConjunct? at h
  split at h
  · cases h
  · split at h
    · cases h
    · obtain ⟨f, hf, h⟩ := Except.of_bind_ok h
      obtain ⟨g, hg, h⟩ := Except.of_bind_ok h
      cases h
      exact (LinearForm.lowers_of_ofTerm hf).plus (LinearForm.lowers_of_ofTerm hg)
        (fun _ ↦ Or.inl) (fun _ ↦ Or.inr) _
  · cases h

/-- The relations of a lowered conjunction are over forms of its variables. -/
theorem lowers_of_ofTerm {t : Term} {rels : List LinearRelation} (h : ofTerm t = .ok rels)
    {rel : LinearRelation} (hrel : rel ∈ rels) : LinearForm.Lowers t rel.form := by
  obtain ⟨found, hfound, h⟩ := Except.of_bind_ok h
  cases h
  obtain ⟨r, hr, rfl⟩ := List.mem_filterMap.1 hrel
  obtain ⟨c, hc, hcr⟩ := Except.mem_of_mapM_ok hfound hr
  have hlower := lowers_of_ofConjunct hcr
  exact ⟨hlower.ordered, fun x hx ↦ Term.mentions_of_mem_conjuncts hc (hlower.mentions x hx)⟩

end LinearRelation

end LiveConstraints
