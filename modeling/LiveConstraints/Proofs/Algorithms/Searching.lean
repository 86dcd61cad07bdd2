import LiveConstraints.Proofs.Algorithms.Relaxing
import LiveConstraints.Proofs.DomainSearch
/-!
# Domain search is exact

What a search has to find is said without reference to how it searches: each variable that may be
searched has a list of candidates, and of all combinations of candidates, in lexicographic order, the first
is wanted under which every enabled predicate is true (`DomainSearch.solutions`).

The exploration visits the leaves of a tree (`Problem.leaves`) from left to right and leaves out subtrees.
A subtree is left out when a predicate all of whose variables are assigned is false, and then it is
false at every leaf below, so nothing is missed (`DomainSearch.reports_of_explore`). The leaves are the
combinations (`Problem.leaves_eq`). What the search expands on the way never exceeds the limit
(`DomainSearch.counts_of_explore`).
-/

namespace LiveConstraints

/-- The combinations of one member of each list, in lexicographic order. -/
def combinations : List (List Value) → List (List Value)
  | [] => [[]]
  | vs :: rest => vs.flatMap fun v ↦ (combinations rest).map (v :: ·)

/-- Values with others put in for some variables. -/
def placing (value : ExtVar → Value) (xs : List ExtVar) (vs : List Value) (x : ExtVar) : Value :=
  ((xs.zip vs).lookup x).getD (value x)

theorem lookup_zip_of_not_mem {xs : List ExtVar} (vs : List Value) {x : ExtVar} (hx : x ∉ xs) :
    (xs.zip vs).lookup x = none := by
  rw [List.lookup_eq_none_iff]
  rintro ⟨y, v⟩ hy
  exact bne_iff_ne.2 fun heq ↦ hx (heq ▸ (List.of_mem_zip hy).1)

theorem placing_of_not_mem {value : ExtVar → Value} {xs : List ExtVar} (vs : List Value) {x : ExtVar}
    (hx : x ∉ xs) : placing value xs vs x = value x := by
  rw [placing, lookup_zip_of_not_mem vs hx, Option.getD_none]

theorem length_of_mem_combinations {choices : List (List Value)} {vs : List Value}
    (h : vs ∈ combinations choices) : vs.length = choices.length := by
  induction choices generalizing vs with
  | nil =>
    obtain rfl := List.mem_singleton.1 h
    rfl
  | cons c choices ih =>
    obtain ⟨v, -, h⟩ := List.mem_flatMap.1 h
    obtain ⟨ws, hws, rfl⟩ := List.mem_map.1 h
    rw [List.length_cons, List.length_cons, ih hws]

theorem map_placing {value : ExtVar → Value} {xs : List ExtVar} {vs : List Value} (hxs : xs.Nodup)
    (hlength : vs.length = xs.length) : xs.map (placing value xs vs) = vs := by
  induction xs generalizing vs with
  | nil => exact (List.length_eq_zero_iff.1 hlength).symm
  | cons x xs ih =>
    obtain _ | ⟨v, vs⟩ := vs
    · cases hlength
    · obtain ⟨hx, hxs⟩ := List.nodup_cons.1 hxs
      have htail : xs.map (placing value (x :: xs) (v :: vs)) = xs.map (placing value xs vs) :=
        List.map_congr_left fun y hy ↦ by
          have hne : (y == x) = false := beq_false_of_ne fun heq ↦ hx (heq ▸ hy)
          rw [placing, placing, List.zip_cons_cons, List.lookup_cons, hne]
      rw [List.map_cons, htail, ih hxs (Nat.succ.inj hlength), placing, List.zip_cons_cons,
        List.lookup_cons_self, Option.getD_some]

/-- Variables collected from a term stand in the list once each. -/
theorem Term.nodup_collectVariables {t : Term} {seen : List ExtVar} (h : seen.Nodup) :
    (t.collectVariables seen).Nodup := by
  induction t generalizing seen with
  | var x =>
    unfold collectVariables
    split
    · exact h
    · next hx =>
      refine List.nodup_append.2 ⟨h, List.pairwise_singleton _ x, fun y hy z hz heq ↦ hx ?_⟩
      obtain rfl := List.mem_singleton.1 hz
      exact List.contains_iff_mem.2 (heq ▸ hy)
  | const v => exact h
  | unary op t ih => exact ih h
  | binary op l r ihl ihr => exact ihr (ihl h)
  | inDomain t allowed ih => exact ih h

namespace DomainSearch

/-! ### The tree of a search -/

namespace Problem

variable {p : Problem} {m m' : SortedMap ExtVar Value} {xs : List ExtVar} {x y : ExtVar}

/-- The values of a map as a look-up. -/
def reading (m : SortedMap ExtVar Value) (x : ExtVar) : Value := (m.find? x).getD .none

/-- The candidates of a variable where the variables have given values. -/
def choices (p : Problem) (value : ExtVar → Value) (x : ExtVar) : List Value :=
  candidates ((p.domains.find? x).getD []) (value x)

/-- All ways of giving variables candidates one after the other. -/
def leaves (p : Problem) : List ExtVar → SortedMap ExtVar Value → List (SortedMap ExtVar Value)
  | [], m => [m]
  | x :: xs, m => (p.choices (reading m) x).flatMap fun v ↦ p.leaves xs (m.insert x v)

/-- Every predicate is true. -/
def accepts (p : Problem) (m : SortedMap ExtVar Value) : Bool :=
  p.checks.all fun c ↦ (c.term.evaluate (reading m)).isTrue

theorem reading_insert_of_ne (hxy : x ≠ y) (v : Value) : reading (m.insert y v) x = reading m x := by
  rw [reading, SortedMap.find?_insert_of_ne m hxy, reading]

theorem find?_of_mem_leaves (h : m' ∈ p.leaves xs m) (hx : x ∉ xs) : m'.find? x = m.find? x := by
  induction xs generalizing m with
  | nil =>
    obtain rfl := List.mem_singleton.1 h
    rfl
  | cons y xs ih =>
    obtain ⟨v, -, h⟩ := List.mem_flatMap.1 h
    rw [ih h fun hmem ↦ hx (List.mem_cons_of_mem _ hmem),
      SortedMap.find?_insert_of_ne m (List.ne_of_not_mem_cons hx)]

/-- A variable has one of its candidates at every leaf. -/
theorem mem_choices_of_mem_leaves (hxs : xs.Nodup) (h : m' ∈ p.leaves xs m) (hx : x ∈ xs) :
    reading m' x ∈ p.choices (reading m) x := by
  induction xs generalizing m with
  | nil => cases hx
  | cons y xs ih =>
    obtain ⟨hy, hxs⟩ := List.nodup_cons.1 hxs
    obtain ⟨v, hv, h⟩ := List.mem_flatMap.1 h
    rcases List.mem_cons.1 hx with rfl | hx
    · rwa [reading, find?_of_mem_leaves h hy, SortedMap.find?_insert_self, Option.getD_some]
    · have hmem := ih hxs h hx
      rwa [choices, reading_insert_of_ne (ne_of_mem_of_not_mem hx hy)] at hmem

/-- A map with values put in for some variables. -/
def place (m : SortedMap ExtVar Value) (xs : List ExtVar) (vs : List Value) :
    SortedMap ExtVar Value :=
  (xs.zip vs).foldl (fun m e ↦ m.insert e.1 e.2) m

theorem find?_place (hxs : xs.Nodup) (vs : List Value) :
    (place m xs vs).find? x = ((xs.zip vs).lookup x).or (m.find? x) := by
  induction xs generalizing m vs with
  | nil => rfl
  | cons y xs ih =>
    obtain _ | ⟨v, vs⟩ := vs
    · rfl
    · obtain ⟨hy, hxs⟩ := List.nodup_cons.1 hxs
      have hstep : place m (y :: xs) (v :: vs) = place (m.insert y v) xs vs := rfl
      rw [hstep, ih hxs, List.zip_cons_cons, List.lookup_cons, SortedMap.find?_insert]
      by_cases hx : x = y
      · subst hx
        rw [lookup_zip_of_not_mem vs hy, beq_self_eq_true, if_pos rfl]
        rfl
      · rw [beq_false_of_ne hx, if_neg hx]

theorem reading_place (hxs : xs.Nodup) (vs : List Value) :
    reading (place m xs vs) = placing (reading m) xs vs := by
  funext x
  rw [reading, find?_place hxs, placing, reading]
  cases (xs.zip vs).lookup x <;> rfl

/-- The leaves are the combinations of candidates. -/
theorem leaves_eq (hxs : xs.Nodup) :
    p.leaves xs m = (combinations (xs.map (p.choices (reading m)))).map (place m xs) := by
  induction xs generalizing m with
  | nil => rfl
  | cons x xs ih =>
    obtain ⟨hx, hxs⟩ := List.nodup_cons.1 hxs
    rw [leaves, List.map_cons, combinations, List.map_flatMap]
    refine List.flatMap_congr fun v _ ↦ ?_
    -- putting in a value for the first variable does not change the candidates of the others
    have hchoices : xs.map (p.choices (reading (m.insert x v))) = xs.map (p.choices (reading m)) :=
      List.map_congr_left fun y hy ↦ by
        rw [choices, choices, reading_insert_of_ne (ne_of_mem_of_not_mem hy hx)]
    rw [ih hxs, hchoices, List.map_map]
    rfl

end Problem

/-! ### Exploring -/

variable {p : Problem} {a : Assignment} {m : SortedMap ExtVar Value} {xs : List ExtVar} {nodes : Nat}

/-- What an exploration reports about the leaf that it looks for. -/
def Reports (leaf : Option (SortedMap ExtVar Value)) : Exploration → Prop
  | .found m _ => leaf = some m
  | .exhausted _ => leaf = none
  | .gaveUp => True

theorem reports_of_tryEach {maxNodes : Nat} {explore : SortedMap ExtVar Value → Nat → Exploration}
    {x : ExtVar} {leaves : Value → List (SortedMap ExtVar Value)}
    {accepts : SortedMap ExtVar Value → Bool}
    (h : ∀ v n, Reports ((leaves v).find? accepts) (explore (m.insert x v) n)) (vs : List Value) :
    Reports ((vs.flatMap leaves).find? accepts) (tryEach maxNodes explore x m vs nodes) := by
  induction vs generalizing nodes with
  | nil => rfl
  | cons v vs ih =>
    unfold tryEach
    split
    · trivial
    · have hv := h v (nodes + 1)
      rw [List.flatMap_cons, List.find?_append]
      cases hbelow : explore (m.insert x v) (nodes + 1) with
      | found m' n =>
        rw [hbelow] at hv
        rw [(hv : _ = some m')]
        rfl
      | exhausted n =>
        rw [hbelow] at hv
        rw [(hv : _ = none)]
        exact ih
      | gaveUp => trivial

/-- A predicate that is false although its variables are assigned is false at every leaf below. -/
theorem not_accepts_of_inconsistent (hdisjoint : ∀ x ∈ a.assigned, x ∉ xs)
    (hchecks : ∀ c ∈ p.checks, ∀ x, c.term.Mentions x → x ∈ c.vars)
    (h : p.consistent a = false) (hm : m ∈ p.leaves xs a.values) : p.accepts m = false := by
  obtain ⟨c, hc, hfalse⟩ := List.all_eq_false.1 h
  obtain ⟨hc, hassigned⟩ := List.mem_filter.1 hc
  refine List.all_eq_false.2 ⟨c, hc, ?_⟩
  have hsame : c.term.evaluate (Problem.reading m) = c.term.evaluate a.value :=
    Term.evaluate_congr fun x hx ↦ by
      have hin : x ∈ a.assigned :=
        List.contains_iff_mem.1 (List.all_eq_true.1 hassigned x (hchecks c hc x hx))
      rw [Problem.reading, Problem.find?_of_mem_leaves hm (hdisjoint x hin), Assignment.value]
  rwa [hsame]

/-- **No solution is missed.** An exploration that ends with a result has found the first leaf at which
every predicate is true, or there is none. -/
theorem reports_of_explore (hxs : xs.Nodup) (hdisjoint : ∀ x ∈ a.assigned, x ∉ xs)
    (hchecks : ∀ c ∈ p.checks, ∀ x, (c.term.Mentions x ↔ x ∈ c.vars))
    (hall : ∀ c ∈ p.checks, ∀ x ∈ c.vars, x ∈ a.assigned ++ xs) :
    Reports ((p.leaves xs a.values).find? p.accepts) (explore p xs a nodes) := by
  induction xs generalizing a nodes with
  | nil =>
    have hsame : p.consistent a = p.accepts a.values := by
      have hfilter : p.checks.filter (fun c ↦ c.vars.all a.assigned.contains) = p.checks :=
        List.filter_eq_self.2 fun c hc ↦ List.all_eq_true.2 fun x hx ↦ by
          have hin := hall c hc x hx
          rw [List.append_nil] at hin
          exact List.contains_iff_mem.2 hin
      rw [Problem.consistent, hfilter]
      rfl
    unfold explore
    rw [Problem.leaves, List.find?_singleton, hsame]
    cases p.accepts a.values <;> rfl
  | cons x xs ih =>
    obtain ⟨hx, hxs'⟩ := List.nodup_cons.1 hxs
    unfold explore
    cases hconsistent : p.consistent a with
    | false =>
      refine List.find?_eq_none.2 fun m hm ↦ ?_
      rw [not_accepts_of_inconsistent hdisjoint (fun c hc y ↦ (hchecks c hc y).1) hconsistent hm]
      exact Bool.false_ne_true
    | true =>
      refine reports_of_tryEach (fun v n ↦ ih hxs' ?_ ?_) _
      · intro y hy
        rcases List.mem_append.1 hy with hy | hy
        · exact fun hmem ↦ hdisjoint y hy (List.mem_cons_of_mem _ hmem)
        · exact List.mem_singleton.1 hy ▸ hx
      · intro c hc y hy
        rw [List.append_assoc, List.singleton_append]
        exact hall c hc y hy

/-! ### Counting -/

/-- The candidates that are expanded while others are tried for a variable. -/
def triedEach (maxNodes : Nat) (explore : SortedMap ExtVar Value → Nat → Exploration)
    (below : SortedMap ExtVar Value → Nat → List (ExtVar × Value)) (x : ExtVar)
    (m : SortedMap ExtVar Value) : List Value → Nat → List (ExtVar × Value)
  | [], _ => []
  | v :: vs, nodes =>
    if maxNodes < nodes + 1 then []
    else
      (x, v) :: below (m.insert x v) (nodes + 1) ++
        match explore (m.insert x v) (nodes + 1) with
        | .exhausted nodes => triedEach maxNodes explore below x m vs nodes
        | _ => []

/-- The candidates that an exploration expands, in order. -/
def expanded (p : Problem) : List ExtVar → Assignment → Nat → List (ExtVar × Value)
  | [], _, _ => []
  | x :: xs, a, nodes =>
    if !p.consistent a then []
    else
      triedEach p.maxNodes (fun m nodes ↦ explore p xs ⟨m, a.assigned ++ [x]⟩ nodes)
        (fun m nodes ↦ expanded p xs ⟨m, a.assigned ++ [x]⟩ nodes) x a.values
        (candidates ((p.domains.find? x).getD []) (a.value x)) nodes

/-- The count at the end of an exploration; one that gives up has used up the limit. -/
def Exploration.used (maxNodes : Nat) : Exploration → Nat
  | .found _ n => n
  | .exhausted n => n
  | .gaveUp => maxNodes

/-- The count of an exploration goes up by one for each candidate that is expanded, and not above the
limit. -/
def Counts (maxNodes nodes : Nat) (expanded : List (ExtVar × Value)) (outcome : Exploration) : Prop :=
  nodes + expanded.length = outcome.used maxNodes ∧ outcome.used maxNodes ≤ maxNodes

theorem counts_of_tryEach {maxNodes : Nat} {explore : SortedMap ExtVar Value → Nat → Exploration}
    {below : SortedMap ExtVar Value → Nat → List (ExtVar × Value)} {x : ExtVar}
    (h : ∀ v n, n ≤ maxNodes → Counts maxNodes n (below (m.insert x v) n) (explore (m.insert x v) n))
    (vs : List Value) (hnodes : nodes ≤ maxNodes) :
    Counts maxNodes nodes (triedEach maxNodes explore below x m vs nodes)
      (tryEach maxNodes explore x m vs nodes) := by
  induction vs generalizing nodes with
  | nil => exact ⟨rfl, hnodes⟩
  | cons v vs ih =>
    unfold tryEach triedEach
    split
    · exact ⟨Nat.le_antisymm hnodes (Nat.le_of_lt_succ ‹_›), Nat.le_refl _⟩
    · obtain ⟨hcount, hle⟩ := h v (nodes + 1) (by omega)
      have hlength (es : List (ExtVar × Value)) :
          nodes + ((x, v) :: below (m.insert x v) (nodes + 1) ++ es).length
            = (explore (m.insert x v) (nodes + 1)).used maxNodes + es.length := by
        rw [List.length_append, List.length_cons, ← hcount]
        omega
      rw [Counts, hlength]
      revert hle
      cases explore (m.insert x v) (nodes + 1) with
      | found _ _ | gaveUp => exact fun hle ↦ ⟨rfl, hle⟩
      | exhausted n => exact ih

/-- **The limit is kept.** -/
theorem counts_of_explore (hnodes : nodes ≤ p.maxNodes) :
    Counts p.maxNodes nodes (expanded p xs a nodes) (explore p xs a nodes) := by
  induction xs generalizing a nodes with
  | nil =>
    unfold explore expanded
    split <;> exact ⟨rfl, hnodes⟩
  | cons x xs ih =>
    unfold explore expanded
    split
    · exact ⟨rfl, hnodes⟩
    · exact counts_of_tryEach (fun v n hn ↦ ih hn) _ hnodes

/-! ### Domains -/

/-- The lists of values that memberships allow a variable. -/
def allowed (rs : List (ExtVar × List Value)) (x : ExtVar) : List (List Value) :=
  (rs.filter fun r ↦ r.1 == x).map Prod.snd

/-- The values of the first list that are near a value of each other list. -/
def intersection : List (List Value) → List Value
  | [] => []
  | vs :: rest => vs.filter fun v ↦ rest.all fun allowed ↦ allowed.any fun a ↦ a.near v

theorem find?_foldl_restrict (rs : List (ExtVar × List Value)) (ds : SortedMap ExtVar (List Value))
    (x : ExtVar) : (rs.foldl (fun ds r ↦ restrict ds r.1 r.2) ds).find? x =
      match (ds.find? x).toList ++ allowed rs x with
      | [] => none
      | lists => some (intersection lists) := by
  induction rs generalizing ds with
  | nil =>
    rw [List.foldl_nil]
    cases ds.find? x with
    | none => rfl
    | some vs => exact congrArg some (List.filter_eq_self.2 fun _ _ ↦ rfl).symm
  | cons r rs ih =>
    rw [List.foldl_cons, ih, restrict]
    by_cases hr : r.1 = x
    · subst hr
      have hallowed : allowed (r :: rs) r.1 = r.2 :: allowed rs r.1 := by
        simp only [allowed, List.filter_cons, beq_self_eq_true, if_true, List.map_cons]
      rw [hallowed]
      cases hfind : ds.find? r.1 with
      | none => simp [SortedMap.find?_insert_self]
      | some vs =>
        simp [SortedMap.find?_insert_self, intersection, List.filter_filter, Bool.and_comm]
    · have hallowed : allowed (r :: rs) x = allowed rs x := by
        simp only [allowed, List.filter_cons, beq_false_of_ne hr, Bool.false_eq_true, if_false]
      have hne : x ≠ r.1 := fun heq ↦ hr heq.symm
      rw [hallowed]
      cases ds.find? r.1 <;> simp only [SortedMap.find?_insert_of_ne _ hne]

variable {d d' : DomainSearch} {s s' : Slots} {fixed : Option ExtVar} {x : ExtVar}
  {request : Option (ExtVar × Value)}

/-- The values that the memberships at the top of the enabled predicates allow a variable, list by list. -/
def allowances (d : DomainSearch) (x : ExtVar) : List (List Value) :=
  allowed (d.predicates.flatMap restrictions) x

theorem find?_domains (d : DomainSearch) (x : ExtVar) : d.domains.find? x =
    match d.allowances x with
    | [] => none
    | lists => some (intersection lists) :=
  find?_foldl_restrict _ ∅ x

theorem getD_find?_domains (d : DomainSearch) (x : ExtVar) :
    (d.domains.find? x).getD [] = intersection (d.allowances x) := by
  rw [find?_domains]
  cases d.allowances x <;> rfl

/-! ### Runs -/

/-- What a search works on. -/
def problem (d : DomainSearch) : Problem :=
  { checks := d.predicates.map fun t ↦ ⟨t, t.vars⟩
    domains := d.domains
    maxNodes := d.maxNodes }

/-- What a search starts from. -/
def begins (d : DomainSearch) (fixed : Option ExtVar) (s : Slots) : Assignment :=
  ⟨d.startValues fixed s, d.involved.filter fun x ↦ !(d.searchOrder fixed s).contains x⟩

/-- The variables after the values of an assignment are written back. -/
def written (s : Slots) (m : SortedMap ExtVar Value) : Slots :=
  m.entries.foldl (fun s e ↦ s.assign e.1 e.2) s

theorem search_eq (d : DomainSearch) (fixed : Option ExtVar) (s : Slots) : d.search fixed s =
    match explore d.problem (d.searchOrder fixed s) (d.begins fixed s) 0 with
    | .found m _ => .ok (written s m)
    | .exhausted _ => .error (.unsatisfiable .noAssignment)
    | .gaveUp => .error (.unsatisfiable (.searchGaveUp d.maxNodes)) := rfl

theorem reassigned_written (s : Slots) (m : SortedMap ExtVar Value) : s.Reassigned (written s m) :=
  reassigned_foldl_assign _ _

theorem value_of_missing (hx : s.contains x = false) : s.value x = .none := by
  rw [Slots.value, Option.isSome_eq_false_iff.1 hx |> Option.isNone_iff_eq_none.1]
  rfl

/-- A variable that exists gets what the assignment has for it. -/
theorem value_written {m : SortedMap ExtVar Value} (hm : m.Ordered) (x : ExtVar) :
    (written s m).value x = if s.contains x then (m.find? x).getD (s.value x) else .none := by
  split
  · next hx =>
    cases hfind : m.find? x with
    | none =>
      refine value_foldl_assign_of_not_mem fun e he heq ↦ ?_
      obtain ⟨y, v⟩ := e
      obtain rfl := heq
      cases hfind.symm.trans (hm.find?_of_mem he)
    | some v => exact value_foldl_assign hm hx (SortedMap.mem_of_find? hfind)
  · next hx =>
    refine value_of_missing ?_
    rw [(reassigned_written s m).contains]
    exact Bool.eq_false_iff.2 hx

/-- The values that enabled demands to keep a value put in. -/
def keptValues (d : DomainSearch) (fixed : Option ExtVar) : SortedMap ExtVar Value :=
  (d.keepers fixed).foldl (fun m k ↦ m.insert k.1 k.2) ∅

theorem find?_startValues : (d.startValues fixed s).find? x =
    ((d.keptValues fixed).find? x).or (if x ∈ d.involved then some (s.value x) else none) := by
  have hfill : ∀ (xs : List ExtVar) (m : SortedMap ExtVar Value),
      (xs.foldl (fun m x ↦ if m.contains x then m else m.insert x (s.value x)) m).find? x
        = (m.find? x).or (if x ∈ xs then some (s.value x) else none) := by
    intro xs
    induction xs with
    | nil => exact fun m ↦ (Option.or_none).symm
    | cons y xs ih =>
      intro m
      rw [List.foldl_cons, ih]
      by_cases hy : m.contains y = true
      · rw [if_pos hy]
        by_cases hx : x = y
        · subst hx
          obtain ⟨v, hv⟩ := Option.isSome_iff_exists.1 hy
          rw [hv]
          rfl
        · simp only [List.mem_cons, hx, false_or]
      · rw [if_neg hy, SortedMap.find?_insert]
        by_cases hx : x = y
        · subst hx
          have hnone : m.find? x = none := Option.not_isSome_iff_eq_none.1 hy
          rw [if_pos rfl, hnone, if_pos List.mem_cons_self]
          rfl
        · simp only [List.mem_cons, hx, false_or, if_false]
  exact hfill _ _

theorem nodup_involved (d : DomainSearch) : d.involved.Nodup := by
  have hfold : ∀ (ts : List Term) (seen : List ExtVar), seen.Nodup →
      (ts.foldl (fun seen t ↦ t.collectVariables seen) seen).Nodup := by
    intro ts
    induction ts with
    | nil => exact fun _ hseen ↦ hseen
    | cons t ts ih => exact fun _ hseen ↦ ih _ (Term.nodup_collectVariables hseen)
  exact hfold _ _ List.nodup_nil

theorem nodup_searchOrder : (d.searchOrder fixed s).Nodup := d.nodup_involved.filter _

/-- The exploration of a search reports the first leaf at which every predicate is true. -/
theorem reports_of_search : Reports
    ((d.problem.leaves (d.searchOrder fixed s) (d.startValues fixed s)).find? d.problem.accepts)
    (explore d.problem (d.searchOrder fixed s) (d.begins fixed s) 0) := by
  refine reports_of_explore nodup_searchOrder (fun x hx ↦ ?_) (fun c hc x ↦ ?_) fun c hc x hx ↦ ?_
  · simpa using (List.mem_filter.1 hx).2
  · obtain ⟨t, -, rfl⟩ := List.mem_map.1 hc
    exact Term.mem_vars.symm
  · obtain ⟨t, ht, rfl⟩ := List.mem_map.1 hc
    have hin : x ∈ d.involved := mem_involved.2 ⟨t, ht, Term.mem_vars.1 hx⟩
    by_cases horder : x ∈ d.searchOrder fixed s
    · exact List.mem_append_right _ horder
    · exact List.mem_append_left _ (List.mem_filter.2 ⟨hin, by simpa using horder⟩)

/-! ### What a search has to find -/

/-- Every enabled predicate is true. -/
def satisfied (d : DomainSearch) (value : ExtVar → Value) : Bool :=
  d.predicates.all fun t ↦ (t.evaluate value).isTrue

/-- The variables of the enabled predicates, in order of occurrence, that are neither read-only nor
suggested and to which a membership at the top of an enabled predicate allows some values only. -/
def searched (d : DomainSearch) (request : Option (ExtVar × Value)) : List ExtVar :=
  d.involved.filter fun x ↦ request.map Prod.fst != some x && !d.model.slots.isReadonly x
    && !(d.allowances x).isEmpty

/-- The values to try for a variable: the one that it has, if the values that are allowed contain one near
it, and then those that are allowed and not near it. -/
def choices (d : DomainSearch) (value : ExtVar → Value) (x : ExtVar) : List Value :=
  candidates (intersection (d.allowances x)) (value x)

/-- The combinations of values to try under which every enabled predicate is true, in lexicographic
order. -/
def solutions (d : DomainSearch) (request : Option (ExtVar × Value)) : List (List Value) :=
  let value := (d.model.slots.suggested request).value
  (combinations ((d.searched request).map (d.choices value))).filter fun vs ↦
    d.satisfied (placing value (d.searched request) vs)

/-- Solves, or suggests a value to a variable. -/
def ask (d : DomainSearch) : Option (ExtVar × Value) → Except SolverError Unit × DomainSearch
  | none => d.solve
  | some (x, v) => d.suggest x v

/-- The candidates that a call expands. -/
def expansions (d : DomainSearch) (request : Option (ExtVar × Value)) : List (ExtVar × Value) :=
  let fixed := request.map Prod.fst
  let s := d.model.slots.suggested request
  expanded d.problem (d.searchOrder fixed s) (d.begins fixed s) 0

theorem nodup_searched : (d.searched request).Nodup := d.nodup_involved.filter _

theorem keepers_eq_nil (hkeeps : ∀ x v priority, (.keeps x v, priority) ∉ d.model.enabled) :
    d.keepers fixed = [] := by
  refine List.filterMap_eq_nil_iff.2 ?_
  rintro ⟨t | ⟨x, v⟩, priority⟩ hc
  · rfl
  · exact absurd hc (hkeeps x v priority)

theorem searchOrder_eq (hkeepers : d.keepers (request.map Prod.fst) = []) :
    d.searchOrder (request.map Prod.fst) (d.model.slots.suggested request) = d.searched request := by
  refine List.filter_congr fun x _ ↦ ?_
  have hdomain : d.domains.contains x = !(d.allowances x).isEmpty := by
    rw [SortedMap.contains, find?_domains]
    cases d.allowances x <;> rfl
  have hfixed : (request.map Prod.fst).toList.contains x = (request.map Prod.fst == some x) := by
    rw [Bool.eq_iff_iff, List.contains_iff_mem, Option.mem_toList, beq_iff_eq]
  rw [hkeepers, List.map_nil, List.append_nil, hfixed, hdomain,
    (Slots.reassigned_suggested d.model.slots request).isReadonly, bne]

/-- Where nothing is to keep a value, the variables start with the values that they have. -/
theorem find?_startValues_of_eq_nil (hkeepers : d.keepers fixed = []) :
    (d.startValues fixed s).find? x = if x ∈ d.involved then some (s.value x) else none := by
  rw [find?_startValues, keptValues, hkeepers]
  rfl

theorem reading_startValues (hkeepers : d.keepers fixed = []) (hx : x ∈ d.involved) :
    Problem.reading (d.startValues fixed s) x = s.value x := by
  rw [Problem.reading, find?_startValues_of_eq_nil hkeepers, if_pos hx, Option.getD_some]

/-- The first leaf at which every predicate is true is the first solution. -/
theorem find?_leaves (hkeepers : d.keepers (request.map Prod.fst) = []) :
    (d.problem.leaves (d.searched request)
        (d.startValues (request.map Prod.fst) (d.model.slots.suggested request))).find? d.problem.accepts
      = (d.solutions request).head?.map (Problem.place
        (d.startValues (request.map Prod.fst) (d.model.slots.suggested request)) (d.searched request)) := by
  have hchoices : (d.searched request).map (d.problem.choices (Problem.reading
      (d.startValues (request.map Prod.fst) (d.model.slots.suggested request))))
      = (d.searched request).map (d.choices (d.model.slots.suggested request).value) :=
    List.map_congr_left fun x hx ↦ by
      rw [Problem.choices, reading_startValues hkeepers (List.mem_of_mem_filter hx), choices,
        ← getD_find?_domains]
      rfl
  rw [Problem.leaves_eq nodup_searched, hchoices, List.find?_map, solutions, List.head?_filter]
  refine congrArg _ (congrArg (List.find? · _) (funext fun vs ↦ ?_))
  rw [Function.comp_apply, Problem.accepts, Problem.reading_place nodup_searched, Bool.eq_iff_iff]
  simp only [problem, satisfied, List.all_eq_true, List.mem_map, forall_exists_index, and_imp,
    forall_apply_eq_imp_iff₂]
  refine forall₂_congr fun t ht ↦ ?_
  rw [Term.evaluate_congr fun x hx ↦ ?_]
  rw [placing, placing, reading_startValues hkeepers (mem_involved.2 ⟨t, ht, hx⟩)]

/-- What a search that ends with variables has found. -/
theorem value_of_search (hkeepers : d.keepers (request.map Prod.fst) = [])
    (hexist : ∀ x ∈ d.involved, d.model.slots.contains x = true)
    (h : d.search (request.map Prod.fst) (d.model.slots.suggested request) = .ok s') :
    ∃ vs, (d.solutions request).head? = some vs ∧
      ∀ x, s'.value x = placing (d.model.slots.suggested request).value (d.searched request) vs x := by
  have hreports : Reports _ (explore d.problem
      (d.searchOrder (request.map Prod.fst) (d.model.slots.suggested request))
      (d.begins (request.map Prod.fst) (d.model.slots.suggested request)) 0) := reports_of_search
  rw [search_eq] at h
  rw [searchOrder_eq hkeepers] at h hreports
  split at h
  · next m nodes hfound =>
    cases h
    rw [hfound, find?_leaves hkeepers] at hreports
    obtain ⟨vs, hvs, hm⟩ := Option.map_eq_some_iff.1 (hreports : _ = some m)
    refine ⟨vs, hvs, fun x ↦ ?_⟩
    rw [value_written ((consistent_of_explore hfound).2.1 startValues_ok.1), ← hm,
      Problem.find?_place nodup_searched, placing,
      find?_startValues_of_eq_nil hkeepers]
    split
    · cases ((d.searched request).zip vs).lookup x with
      | some v => rfl
      | none =>
        rw [Option.none_or, Option.getD_none]
        split <;> rfl
    · next hmissing =>
      -- a variable that does not exist occurs in no enabled predicate
      have hx : x ∉ d.searched request := fun hx ↦
        hmissing (((Slots.reassigned_suggested _ request).contains x).trans
          (hexist x (List.mem_of_mem_filter hx)))
      rw [lookup_zip_of_not_mem vs hx, Option.getD_none,
        value_of_missing (Bool.eq_false_iff.2 hmissing)]
  · cases h
  · cases h

/-- Why a search fails. -/
theorem solutions_of_search_error {err : SolverError} (hkeepers : d.keepers (request.map Prod.fst) = [])
    (h : d.search (request.map Prod.fst) (d.model.slots.suggested request) = .error err) :
    (err = .unsatisfiable .noAssignment ∧ d.solutions request = []) ∨
      err = .unsatisfiable (.searchGaveUp d.maxNodes) := by
  have hreports : Reports _ (explore d.problem
      (d.searchOrder (request.map Prod.fst) (d.model.slots.suggested request))
      (d.begins (request.map Prod.fst) (d.model.slots.suggested request)) 0) := reports_of_search
  rw [search_eq] at h
  rw [searchOrder_eq hkeepers] at h hreports
  split at h
  · cases h
  · next nodes hexhausted =>
    cases h
    rw [hexhausted, find?_leaves hkeepers] at hreports
    have hnone := Option.map_eq_none_iff.1 (hreports : _ = none)
    exact .inl ⟨rfl, List.head?_eq_none_iff.1 hnone⟩
  · cases h
    exact .inr rfl

/-! ### Calls -/

/-- A call about variables that exist runs a search and settles on what it ends with. -/
theorem ask_eq (hexists : ∀ x v, request = some (x, v) → d.model.slots.contains x = true) :
    d.ask request =
      let run := d.search (request.map Prod.fst) (d.model.slots.suggested request)
      let (result, model) := d.model.countSolve.settle run
      (result, { d with model }) := by
  obtain _ | ⟨x, v⟩ := request
  · rfl
  · have hassign : d.model.countSolve.slots.assign? x v = .ok (d.model.slots.assign x v) :=
      if_pos (hexists x v rfl)
    rw [ask, suggest]
    dsimp only
    rw [hassign]
    rfl

theorem ask_of_missing {v : Value} (hx : d.model.slots.contains x = false) :
    d.ask (some (x, v)) = (.error (.unknownVariable x), { d with model := d.model.countSolve }) := by
  have hassign : d.model.countSolve.slots.assign? x v = .error (.unknownVariable x) := if_neg (by
    rw [Model.countSolve, hx]
    exact Bool.false_ne_true)
  rw [ask, suggest]
  dsimp only
  rw [hassign]

/-- A call that succeeds has run a search. -/
theorem search_of_ask_ok {d' : DomainSearch} (h : d.ask request = (.ok (), d')) :
    (∀ x v, request = some (x, v) → d.model.slots.contains x = true) ∧
      d.search (request.map Prod.fst) (d.model.slots.suggested request) = .ok d'.model.slots := by
  by_cases hexists : ∀ x v, request = some (x, v) → d.model.slots.contains x = true
  · rw [ask_eq hexists] at h
    refine ⟨hexists, ?_⟩
    cases hsearch : d.search (request.map Prod.fst) (d.model.slots.suggested request) <;>
      rw [hsearch] at h <;> cases h
    rfl
  · push Not at hexists
    obtain ⟨x, v, rfl, hx⟩ := hexists
    rw [ask_of_missing (Bool.eq_false_iff.2 hx)] at h
    cases h

/-- A call that fails was about a variable that does not exist, or has run a search that failed. -/
theorem search_of_ask_error {err : SolverError} {d' : DomainSearch}
    (h : d.ask request = (.error err, d')) :
    d.search (request.map Prod.fst) (d.model.slots.suggested request) = .error err ∨
      ∃ x v, request = some (x, v) ∧ d.model.slots.contains x = false ∧ err = .unknownVariable x := by
  by_cases hexists : ∀ x v, request = some (x, v) → d.model.slots.contains x = true
  · rw [ask_eq hexists] at h
    refine .inl ?_
    cases hsearch : d.search (request.map Prod.fst) (d.model.slots.suggested request) <;>
      rw [hsearch] at h <;> cases h
    rfl
  · push Not at hexists
    obtain ⟨x, v, rfl, hx⟩ := hexists
    have hmissing : d.model.slots.contains x = false := Bool.eq_false_iff.2 hx
    rw [ask_of_missing hmissing] at h
    cases h
    exact .inr ⟨x, v, rfl, hmissing, rfl⟩

/-- **Domain search is exact.** No demand that a variable keeps a value is on, and the variables of the
enabled predicates exist. A call that succeeds gives the searched variables the first solution, leaves a
suggested variable with the value that was suggested and moves no other. One that fails because there is
no assignment is right about it. Otherwise it has given up, or was asked about a variable that does not
exist. In no case are more candidates expanded than the limit. -/
theorem exact_of_ask (hkeeps : ∀ x v priority, (.keeps x v, priority) ∉ d.model.enabled)
    (hexist : ∀ x ∈ d.involved, d.model.slots.contains x = true) :
    (∀ d', d.ask request = (.ok (), d') →
      (d.solutions request).head? = some ((d.searched request).map d'.model.slots.value) ∧
      (∀ x v, request = some (x, v) → d'.model.slots.value x = v) ∧
      ∀ x ∉ d.searched request, (∀ v, request ≠ some (x, v)) →
        d'.model.slots.value x = d.model.slots.value x) ∧
    (∀ err d', d.ask request = (.error err, d') →
      (err = .unsatisfiable .noAssignment ∧ d.solutions request = []) ∨
      err = .unsatisfiable (.searchGaveUp d.maxNodes) ∨
      ∃ x v, request = some (x, v) ∧ d.model.slots.contains x = false ∧ err = .unknownVariable x) ∧
    (d.expansions request).length ≤ d.maxNodes := by
  have hkeepers : d.keepers (request.map Prod.fst) = [] := keepers_eq_nil hkeeps
  refine ⟨fun d' h ↦ ?_, fun err d' h ↦ ?_, ?_⟩
  · obtain ⟨hexists, hsearch⟩ := search_of_ask_ok h
    obtain ⟨vs, hvs, hvalue⟩ := value_of_search hkeepers hexist hsearch
    have hlength : vs.length = (d.searched request).length := by
      have hmem := List.mem_of_mem_filter (List.mem_of_head? hvs)
      rw [length_of_mem_combinations hmem, List.length_map]
    refine ⟨?_, ?_, fun x hx hnot ↦ ?_⟩
    · rw [hvs]
      exact congrArg some ((map_placing nodup_searched hlength).symm.trans
        (List.map_congr_left fun x _ ↦ (hvalue x).symm))
    · rintro x v rfl
      have hx : x ∉ d.searched (some (x, v)) := fun hx ↦ by simpa using (List.mem_filter.1 hx).2
      rw [hvalue, placing_of_not_mem vs hx]
      exact Slots.value_assign_self (hexists x v rfl)
    · rw [hvalue, placing_of_not_mem vs hx]
      obtain _ | ⟨y, v⟩ := request
      · rfl
      · exact Slots.value_assign_of_ne fun heq ↦ hnot v (heq ▸ rfl)
  · rcases search_of_ask_error h with hsearch | hmissing
    · exact (solutions_of_search_error hkeepers hsearch).imp_right .inl
    · exact .inr (.inr hmissing)
  · obtain ⟨hcount, hle⟩ : Counts d.problem.maxNodes 0 (d.expansions request) _ :=
      counts_of_explore (Nat.zero_le _)
    rw [Nat.zero_add] at hcount
    exact Nat.le_trans (Nat.le_of_eq hcount) hle

/-- Two variables from one to three that add up to five, both of them one. -/
def fiveFromTwo : DomainSearch :=
  let (_, d) := declare { maxNodes := 100 } (.number 1)
  let (_, d) := d.declare (.number 1)
  let (_, d) := d.compile (.inDomain (.var ⟨0⟩) [.number 1, .number 2, .number 3])
  let (_, d) := d.compile (.inDomain (.var ⟨1⟩) [.number 1, .number 2, .number 3])
  let (_, d) := d.compile (.binary .eq (.binary .add (.var ⟨0⟩) (.var ⟨1⟩)) (.const (.number 5)))
  let (_, model) := d.model.setEnabled ⟨0⟩ (some .required)
  let (_, model) := model.setEnabled ⟨1⟩ (some .required)
  let (_, model) := model.setEnabled ⟨2⟩ (some .required)
  { d with model }

/-- The first solution is two and three, and solving finds it. -/
theorem exact_of_ask_fiveFromTwo : ∃ d', fiveFromTwo.ask none = (.ok (), d') ∧
    (fiveFromTwo.solutions none).head? = some ([⟨0⟩, ⟨1⟩].map d'.model.slots.value) ∧
    (fiveFromTwo.expansions none).length ≤ 100 := by
  have hok : (fiveFromTwo.ask none).1 = .ok () := Except.eq_ok_of_isOk (by decide +kernel)
  have hsearched : fiveFromTwo.searched none = [⟨0⟩, ⟨1⟩] := by decide +kernel
  have hrelations : ∃ a b c, fiveFromTwo.model.enabled.map Prod.fst
      = [.relation a, .relation b, .relation c] := ⟨_, _, _, rfl⟩
  obtain ⟨a, b, c, hrelations⟩ := hrelations
  have hexist : ∀ x ∈ fiveFromTwo.involved, fiveFromTwo.model.slots.contains x = true := by
    decide +kernel
  have hkeeps : ∀ x v priority, (.keeps x v, priority) ∉ fiveFromTwo.model.enabled := by
    intro x v priority hmem
    have hclause := List.mem_map_of_mem (f := Prod.fst) hmem
    simp [hrelations] at hclause
  obtain ⟨hsuccess, -, hlimit⟩ := exact_of_ask hkeeps hexist
  obtain ⟨hfirst, -, -⟩ := hsuccess _ (Prod.ext hok rfl)
  rw [hsearched] at hfirst
  exact ⟨_, Prod.ext hok rfl, hfirst, hlimit⟩

/-- A suggestion to a variable that does not exist is refused although a solution exists and nothing has to
be searched. -/
theorem exists_refused_of_missing : ∃ (d : DomainSearch) (request : Option (ExtVar × Value)),
    (∀ x v priority, (.keeps x v, priority) ∉ d.model.enabled) ∧
    (∀ x ∈ d.involved, d.model.slots.contains x = true) ∧
    ∃ err, (d.ask request).1 = .error err ∧ err ≠ .unsatisfiable .noAssignment ∧
      err ≠ .unsatisfiable (.searchGaveUp d.maxNodes) :=
  ⟨{ maxNodes := 100 }, some (⟨0⟩, .number 1), nofun, nofun, .unknownVariable ⟨0⟩, rfl, nofun, nofun⟩

end DomainSearch

end LiveConstraints
