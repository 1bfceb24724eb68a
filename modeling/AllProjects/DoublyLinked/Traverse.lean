import AllProjects.DoublyLinked.Splices

/-!
# Iterators, searching and release

An iterator walks along the list or against it. Both are a step along `oriented`, and `list_find`,
`list_at` and the loop of `list_destroy` are proved against what is left of it.
-/

namespace AllProjects.DoublyLinked

open NodeHeap

variable {V : Type} {s : State V} {d : Deque V} {i : ℕ} {dir : Direction}

theorem firstPtr_reverse (l : List (ℕ × V)) : firstPtr l.reverse none = lastPtr none l := by
  rw [firstPtr, lastPtr, List.head?_reverse]

theorem dropWhile_addr {l₁ l₂ : List (ℕ × V)} {x : ℕ × V} (hx : x.1 ∉ l₁.map Prod.fst) :
    (l₁ ++ x :: l₂).dropWhile (fun y ↦ decide (y.1 ≠ x.1)) = x :: l₂ := by
  rw [List.dropWhile_append_of_pos, List.dropWhile_cons_of_neg]
  · rw [decide_eq_true_iff]
    exact fun h ↦ h rfl
  · intro y hy
    rw [decide_eq_true_iff]
    rintro heq
    exact hx (List.mem_map.mpr ⟨y, hy, heq⟩)

theorem dropWhile_absent {l : List (ℕ × V)} {a : ℕ} (ha : a ∉ l.map Prod.fst) :
    l.dropWhile (fun y ↦ decide (y.1 ≠ a)) = [] := by
  rw [List.dropWhile_eq_nil_iff]
  intro y hy
  rw [decide_eq_true_iff]
  rintro heq
  exact ha (List.mem_map.mpr ⟨y, hy, heq⟩)

namespace Deque

theorem oriented_perm (d : Deque V) (dir : Direction) : (d.oriented dir).Perm d.list := by
  cases dir with
  | head => exact List.Perm.refl _
  | tail => exact List.reverse_perm _

theorem mem_oriented_addr (d : Deque V) (dir : Direction) {a : ℕ} :
    a ∈ (d.oriented dir).map Prod.fst ↔ a ∈ d.addresses :=
  ((d.oriented_perm dir).map Prod.fst).mem_iff

end Deque

/-- The state with an iterator allocated, or moved. -/
def State.withIterator (s : State V) (i : ℕ) (it : Iterator) : State V :=
  { s with iterators := s.iterators.insert i it }

namespace State

theorem withIterator_withIterator (s : State V) (i : ℕ) (it it' : Iterator) :
    (s.withIterator i it).withIterator i it' = s.withIterator i it' := by
  rw [withIterator, withIterator, Finmap.insert_insert]
  rfl

theorem derefIterator_withIterator (s : State V) (i : ℕ) (it : Iterator) :
    derefIterator (s.withIterator i it) (some i) = .ok (i, it) := by
  rw [derefIterator, withIterator, Finmap.lookup_insert]

theorem destroy_withIterator {s : State V} {i : ℕ} (hi : i ∉ s.iterators) (it : Iterator) :
    listIteratorDestroy (s.withIterator i it) (some i) = .ok s := by
  have hmem : i ∈ (s.withIterator i it).iterators := Finmap.mem_insert.mpr (.inl rfl)
  have herase : (s.iterators.insert i it).erase i = s.iterators := by
    apply Finmap.ext_lookup
    intro j
    rcases eq_or_ne j i with rfl | hne
    · rw [Finmap.lookup_erase, Finmap.lookup_eq_none.mpr hi]
    · rw [Finmap.lookup_erase_ne hne, Finmap.lookup_insert_of_ne _ hne]
  rw [listIteratorDestroy, if_pos hmem]
  exact congrArg (fun its ↦ Except.ok { s with iterators := its }) herase

end State

namespace Represents

theorem lookup_oriented (hr : Represents s d) {l₁ l₂ : List (ℕ × V)} {x : ℕ × V}
    (ho : d.oriented dir = l₁ ++ x :: l₂) : ∃ n, s.nodes.lookup x.1 = some n ∧ n.data = x.2
      ∧ (if dir = .head then n.next else n.prev) = firstPtr l₂ none := by
  have hlinked := hr.isList.linked
  cases dir with
  | head =>
    have hl : d.list = l₁ ++ x :: l₂ := ho
    rw [hl] at hlinked
    exact ⟨_, hlinked.lookup, rfl, rfl⟩
  | tail =>
    have hl : d.list = l₂.reverse ++ x :: l₁.reverse := by
      have hrev := congrArg List.reverse ho
      rw [Deque.oriented, List.reverse_reverse, List.reverse_append, List.reverse_cons,
        List.append_assoc] at hrev
      exact hrev
    rw [hl] at hlinked
    refine ⟨_, hlinked.lookup, rfl, ?_⟩
    rw [if_neg Direction.noConfusion, ← firstPtr_reverse, List.reverse_reverse]

theorem nodup_oriented (hr : Represents s d) (dir : Direction) :
    ((d.oriented dir).map Prod.fst).Nodup :=
  ((d.oriented_perm dir).map Prod.fst).nodup_iff.mpr hr.nodup

theorem rest_eq (hr : Represents s d) {l₁ l₂ : List (ℕ × V)} {x : ℕ × V}
    (ho : d.oriented dir = l₁ ++ x :: l₂) : d.rest ⟨some x.1, dir⟩ = x :: l₂ := by
  have hnodup := hr.nodup_oriented dir
  rw [ho, List.map_append, List.nodup_append] at hnodup
  rw [Deque.rest]
  dsimp only
  rw [ho]
  apply dropWhile_addr
  intro hin
  exact hnodup.2.2 x.1 hin x.1 List.mem_cons_self rfl

/-- An allocated node is stepped over, inside the list or beside it. -/
theorem next_withIterator (s : State V) {a : ℕ} {n : LinkedNode V}
    (ha : s.nodes.lookup a = some n) (i : ℕ) (dir : Direction) :
    listIteratorNext (s.withIterator i ⟨some a, dir⟩) (some i) = .ok (some a,
      s.withIterator i ⟨if dir = .head then n.next else n.prev, dir⟩) := by
  have hnode : (s.withIterator i ⟨some a, dir⟩).nodes.deref (some a) = .ok n := deref_some ha
  rw [listIteratorNext, State.derefIterator_withIterator, Except.ok_bind_eq]
  dsimp only
  rw [if_pos (Option.some_ne_none a), hnode, Except.ok_bind_eq]
  exact congrArg (fun t ↦ Except.ok (some a, t)) (s.withIterator_withIterator i _ _)

theorem next_withIterator_none (s : State V) (i : ℕ) (dir : Direction) :
    listIteratorNext (s.withIterator i ⟨none, dir⟩) (some i)
      = .ok (none, s.withIterator i ⟨none, dir⟩) := by
  rw [listIteratorNext, State.derefIterator_withIterator, Except.ok_bind_eq]
  rfl

theorem next_oriented (hr : Represents s d) {l₁ l₂ : List (ℕ × V)} {x : ℕ × V}
    (ho : d.oriented dir = l₁ ++ x :: l₂) (i : ℕ) :
    listIteratorNext (s.withIterator i ⟨some x.1, dir⟩) (some i)
      = .ok (some x.1, s.withIterator i ⟨firstPtr l₂ none, dir⟩) := by
  obtain ⟨n, hn, -, hnext⟩ := hr.lookup_oriented ho
  rw [next_withIterator s hn, hnext]

theorem listIteratorNext (hr : Represents s d) {it : Iterator} {r : Option ℕ} {d' : Deque V}
    (hi : d.iterators.lookup i = some it) (hd : d.advance i it = some (r, d')) :
    ∃ t, listIteratorNext s (some i) = .ok (r, t) ∧ Represents t d' := by
  have hs : s = s.withIterator i it := by
    have hsame : s.iterators.insert i it = s.iterators := by
      apply Finmap.ext_lookup
      intro j
      rcases eq_or_ne j i with rfl | hne
      · rw [Finmap.lookup_insert, hr.iterators, hi]
      · rw [Finmap.lookup_insert_of_ne _ hne]
    rw [State.withIterator, hsame]
  obtain ⟨next, dir⟩ := it
  rw [hs]
  cases next with
  | none =>
    obtain ⟨rfl, rfl⟩ := Prod.mk.injEq .. ▸ Option.some.inj hd
    exact ⟨_, next_withIterator_none s i dir, hs ▸ hr⟩
  | some a =>
    rw [Deque.advance] at hd
    dsimp only at hd
    split at hd
    · rename_i hin
      obtain ⟨rfl, rfl⟩ := Prod.mk.injEq .. ▸ Option.some.inj hd
      have hnode : ∃ n, s.nodes.lookup a = some n ∧ (if dir = .head then n.next else n.prev)
          = firstPtr (d.rest ⟨some a, dir⟩).tail none := by
        by_cases hlist : a ∈ d.addresses
        · obtain ⟨x, hx, rfl⟩ := List.mem_map.mp ((d.mem_oriented_addr dir).mpr hlist)
          obtain ⟨l₁, l₂, ho⟩ := List.append_of_mem hx
          obtain ⟨n, hn, -, hnext⟩ := hr.lookup_oriented ho
          exact ⟨n, hn, by rw [hnext, hr.rest_eq ho, List.tail_cons]⟩
        · obtain ⟨v, hv⟩ := Finmap.mem_iff.mp (hin.resolve_left hlist)
          have habsent : a ∉ (d.oriented dir).map Prod.fst := fun h ↦
            hlist ((d.mem_oriented_addr dir).mp h)
          refine ⟨_, hr.lookup_loose hv, ?_⟩
          rw [Deque.rest]
          dsimp only
          rw [dropWhile_absent habsent]
          cases dir <;> rfl
      obtain ⟨n, hn, hnext⟩ := hnode
      refine ⟨_, next_withIterator s hn i dir, ?_⟩
      rw [hnext]
      exact { hr with iterators := by rw [State.withIterator, hr.iterators] }
    · cases hd

/-! ## Searching -/

theorem findLoop [DecidableEq V] (hr : Represents s d) (hi : i ∉ s.iterators) (val : V)
    {l₁ l₂ : List (ℕ × V)} (hl : d.list = l₁ ++ l₂) {k : ℕ} (hk : l₂.length < k) :
    findLoop (some i) val k (s.withIterator i ⟨firstPtr l₂ none, .head⟩)
      = .ok ((l₂.find? fun x ↦ matchValue d.match_ val x.2).map Prod.fst, s) := by
  induction l₂ generalizing l₁ k with
  | nil =>
    obtain ⟨k, rfl⟩ := Nat.exists_eq_succ_of_ne_zero (Nat.ne_of_gt hk)
    rw [firstPtr_nil, DoublyLinked.findLoop, next_withIterator_none, Except.ok_bind_eq]
    dsimp only
    rw [if_pos rfl, State.destroy_withIterator hi]
    rfl
  | cons x l ih =>
    obtain ⟨k, rfl⟩ := Nat.exists_eq_succ_of_ne_zero (Nat.ne_of_gt (Nat.zero_lt_of_lt hk))
    have ho : d.oriented .head = l₁ ++ x :: l := hl
    obtain ⟨n, hn, hdata, -⟩ := hr.lookup_oriented ho
    have hnode : (s.withIterator i ⟨firstPtr l none, .head⟩).nodes.deref (some x.1) = .ok n :=
      deref_some hn
    have hmatch : (s.withIterator i ⟨firstPtr l none, .head⟩).self.match_ = d.match_ := hr.match_
    rw [firstPtr_cons, DoublyLinked.findLoop, hr.next_oriented ho, Except.ok_bind_eq]
    dsimp only
    rw [if_neg (Option.some_ne_none x.1), hnode, Except.ok_bind_eq, hmatch, hdata, List.find?_cons]
    cases hm : matchValue d.match_ val x.2 with
    | true =>
      rw [if_pos rfl, State.destroy_withIterator hi]
      rfl
    | false =>
      rw [if_neg Bool.false_ne_true]
      have hl' : d.list = (l₁ ++ [x]) ++ l := by
        rw [hl, List.append_assoc, List.singleton_append]
      exact ih hl' (Nat.lt_of_succ_lt_succ hk)

theorem listFind [DecidableEq V] (hr : Represents s d) (hi : i ∉ d.iterators) (val : V) :
    listFind s (some i) val
      = .ok ((d.list.find? fun x ↦ matchValue d.match_ val x.2).map Prod.fst, s) := by
  have hnew : listIteratorNew s (some i) .head
      = (some i, s.withIterator i ⟨firstPtr d.list none, .head⟩) := by
    rw [← hr.isList.head_eq]
    rfl
  have hfuel : d.list.length < s.nodes.keys.card + 1 := Nat.lt_succ_of_le hr.isList.length_le_card
  rw [DoublyLinked.listFind, hnew]
  rw [← hr.iterators] at hi
  have hnil : d.list = [] ++ d.list := rfl
  exact hr.findLoop hi val hnil hfuel

theorem atLoop (hr : Represents s d) {l₁ l₂ : List (ℕ × V)} {x : ℕ × V}
    (ho : d.oriented dir = l₁ ++ x :: l₂) {k : ℕ} {y : ℕ × V} (hk : (x :: l₂)[k]? = some y) :
    ∃ it, atLoop (some i) k (some x.1, s.withIterator i ⟨firstPtr l₂ none, dir⟩)
      = .ok (some y.1, s.withIterator i it) := by
  induction k generalizing l₁ l₂ x with
  | zero =>
    obtain rfl := Option.some.inj hk
    exact ⟨_, rfl⟩
  | succ k ih =>
    rw [List.getElem?_cons_succ] at hk
    cases l₂ with
    | nil => cases hk
    | cons z l₂ =>
      have ho' : d.oriented dir = (l₁ ++ [x]) ++ z :: l₂ := by
        rw [ho, List.append_assoc, List.singleton_append]
      rw [firstPtr_cons, DoublyLinked.atLoop, hr.next_oriented ho', Except.ok_bind_eq]
      exact ih ho' hk

theorem listAt_some (hr : Represents s d) (hi : i ∉ d.iterators) {index : ℤ} {y : ℕ × V}
    (hy : d.nodeAt index = some y) : listAt s (some i) index = .ok (some y.1, s) := by
  set dir := if index < 0 then Direction.tail else .head with hdir
  set k := (if index < 0 then -index - 1 else index).toNat with hkdef
  have hget : (d.oriented dir)[k]? = some y := by
    rw [hdir, hkdef, ← hy, Deque.nodeAt]
    split <;> rfl
  have hlt : k < s.self.len := by
    rw [hr.len, ← (d.oriented_perm dir).length_eq]
    exact (List.getElem?_eq_some_iff.mp hget).1
  have hnew : listIteratorNew s (some i) dir
      = (some i, s.withIterator i ⟨firstPtr (d.oriented dir) none, dir⟩) := by
    rw [listIteratorNew, hr.isList.head_eq, hr.isList.tail_eq, ← firstPtr_reverse]
    cases dir <;> rfl
  rw [← hr.iterators] at hi
  rw [listAt, ← hdir, ← hkdef, if_pos hlt, hnew]
  dsimp only
  cases ho : d.oriented dir with
  | nil => rw [ho] at hget; cases hget
  | cons x l =>
    have ho' : d.oriented dir = [] ++ x :: l := ho
    rw [ho] at hget
    obtain ⟨it, hloop⟩ := hr.atLoop (i := i) ho' hget
    rw [firstPtr_cons, hr.next_oriented ho', Except.ok_bind_eq, hloop, Except.ok_bind_eq]
    dsimp only
    rw [State.destroy_withIterator hi, Except.ok_bind_eq]

/-- `list_at` of an index past the list: no iterator is made. -/
theorem listAt_none (hr : Represents s d) (malloc : Option ℕ) {index : ℤ}
    (hy : d.nodeAt index = none) : listAt s malloc index = .ok (none, s) := by
  have hlt : ¬ (if index < 0 then -index - 1 else index).toNat < s.self.len := by
    rw [hr.len]
    rw [Deque.nodeAt] at hy
    split at hy
    · rw [List.getElem?_eq_none_iff, List.length_reverse] at hy
      rw [if_pos ‹_›]
      exact Nat.not_lt.mpr hy
    · rw [List.getElem?_eq_none_iff] at hy
      rw [if_neg ‹_›]
      exact Nat.not_lt.mpr hy
  rw [listAt, if_neg hlt]

end Represents

/-! ## Release -/

/-- The loop of `list_destroy` frees what it walks along, each node and each value once. -/
theorem destroyLoop_linked {h : NodeHeap V} {p : Option ℕ} {l : List (ℕ × V)}
    (hl : Linked h p l none) (hnodup : (l.map Prod.fst).Nodup) (free : Bool) (freed : List V) :
    ∃ h', destroyLoop free l.length h freed (firstPtr l none)
        = .ok (h', if free then freed ++ l.map Prod.snd else freed)
      ∧ ∀ b, h'.lookup b = if b ∈ l.map Prod.fst then none else h.lookup b := by
  induction l generalizing h p freed with
  | nil =>
    refine ⟨h, ?_, fun b ↦ rfl⟩
    rw [List.map_nil, List.append_nil, ite_self]
    rfl
  | cons x l ih =>
    rw [List.map_cons, List.nodup_cons] at hnodup
    have hrest : Linked (h.erase x.1) (some x.1) l none := by
      apply hl.2.congr
      intro y hy
      apply Finmap.lookup_erase_ne
      rintro heq
      exact hnodup.1 (heq ▸ List.mem_map_of_mem hy)
    obtain ⟨h', hloop, hsame⟩ := ih hrest hnodup.2 (if free then freed ++ [x.2] else freed)
    refine ⟨h', ?_, ?_⟩
    · rw [firstPtr_cons, List.length_cons, destroyLoop, deref_some hl.1, Except.ok_bind_eq,
        freeNode, if_pos (Finmap.mem_of_lookup_eq_some hl.1), Except.ok_bind_eq]
      dsimp only
      rw [hloop]
      cases free
      · rfl
      · rw [if_pos rfl, if_pos rfl, if_pos rfl, List.append_assoc]
        rfl
    · intro b
      rw [hsame b, List.map_cons]
      by_cases hb : b ∈ l.map Prod.fst
      · rw [if_pos hb, if_pos (List.mem_cons_of_mem _ hb)]
      · rw [if_neg hb]
        rcases eq_or_ne b x.1 with rfl | hne
        · rw [if_pos List.mem_cons_self, Finmap.lookup_erase]
        · rw [if_neg fun hin ↦ (List.mem_cons.mp hin).elim hne hb, Finmap.lookup_erase_ne hne]

/-- **`list_destroy`.** The nodes beside the list are all that is left. -/
theorem Represents.listDestroy (hr : Represents s d) : ∃ h, listDestroy s
      = .ok (h, if d.free then d.freed ++ d.list.map Prod.snd else d.freed)
    ∧ ∀ a, h.lookup a = (d.loose.lookup a).map fun v ↦ ⟨v, none, none⟩ := by
  obtain ⟨h, hloop, hlookup⟩ :=
    destroyLoop_linked hr.isList.linked hr.nodup s.self.free s.freed
  refine ⟨h, ?_, ?_⟩
  · rw [DoublyLinked.listDestroy, hr.len, hr.isList.head_eq, hloop, hr.free, hr.freed]
  · intro a
    rw [hlookup]
    by_cases ha : a ∈ d.list.map Prod.fst
    · rw [if_pos ha, hr.disjoint a ha]
      rfl
    · rw [if_neg ha, hr.outside a ha]

end AllProjects.DoublyLinked
