import AllProjects.DoublyLinked.Deque

/-!
# Pushing, popping and unlinking

All five operations splice: a push joins the list with a single node, a pop ends the list one node
earlier and clears the links of that node, and `list_remove` joins what stands before the node with
what stands behind it. The shared part of each kind is stated once, for any way to cut the list.
-/

namespace AllProjects.DoublyLinked

open NodeHeap

variable {V : Type} {s : State V} {d : Deque V} {a : ℕ} {v : V}

theorem incr_eq {n : ℕ} (hn : n + 1 < 2 ^ 32) : incr n = n + 1 := Nat.mod_eq_of_lt hn

theorem decr_eq {n : ℕ} (hn : n + 1 < 2 ^ 32) : decr (n + 1) = n := by
  rw [decr]
  omega

namespace Represents

theorem nodup (hr : Represents s d) : d.addresses.Nodup := hr.isList.nodup

/-! ## Pushing -/

/-- The heap after a node from beside the list is joined to it, at either end. -/
theorem isList_join_loose (hr : Represents s d) (hv : d.loose.lookup a = some v)
    {l₁ l₂ : List (ℕ × V)} {p q : Option ℕ} (h₁ : Linked s.nodes none l₁ q)
    (h₂ : Linked s.nodes p l₂ none) (hperm : (l₁ ++ l₂).Perm ((a, v) :: d.list)) :
    IsList ((s.nodes.linkNext (lastPtr none l₁) (firstPtr l₂ none)).linkPrev
      (firstPtr l₂ none) (lastPtr none l₁)) (l₁ ++ l₂) (firstPtr (l₁ ++ l₂) none)
      (lastPtr none (l₁ ++ l₂)) := by
  have hnodup : ((l₁ ++ l₂).map Prod.fst).Nodup := by
    rw [(hperm.map Prod.fst).nodup_iff, List.map_cons, List.nodup_cons]
    exact ⟨hr.not_mem_addresses hv, hr.nodup⟩
  exact ⟨h₁.join h₂ hnodup, hnodup, rfl, rfl⟩

theorem join_loose (hr : Represents s d) (hv : d.loose.lookup a = some v)
    (hroom : d.list.length + 1 < 2 ^ 32) {l₁ l₂ : List (ℕ × V)} {p q : Option ℕ}
    (h₁ : Linked s.nodes none l₁ q) (h₂ : Linked s.nodes p l₂ none)
    (hperm : (l₁ ++ l₂).Perm ((a, v) :: d.list)) :
    Represents
      { s with
        self := { s.self with
          head := firstPtr (l₁ ++ l₂) none
          tail := lastPtr none (l₁ ++ l₂)
          len := incr s.self.len }
        nodes := (s.nodes.linkNext (lastPtr none l₁) (firstPtr l₂ none)).linkPrev
          (firstPtr l₂ none) (lastPtr none l₁) }
      { d with list := l₁ ++ l₂, loose := d.loose.erase a } := by
  have haddr : ((l₁ ++ l₂).map Prod.fst).Perm (a :: d.addresses) := hperm.map Prod.fst
  have hlen : (l₁ ++ l₂).length = d.list.length + 1 := hperm.length_eq
  constructor
  · exact hr.isList_join_loose hv h₁ h₂ hperm
  · intro b hb
    have hb' : b ∉ a :: d.addresses := fun hin ↦ hb (haddr.mem_iff.mpr hin)
    rw [List.mem_cons, not_or] at hb'
    rw [Deque.addresses, List.map_append, List.mem_append, not_or] at hb
    rw [lookup_join _ _ _ hb.1 hb.2, hr.outside b hb'.2, Finmap.lookup_erase_ne hb'.1]
  · intro b hb
    rcases List.mem_cons.mp (haddr.mem_iff.mp hb) with rfl | hin
    · exact Finmap.lookup_erase _ d.loose
    · have hne : b ≠ a := fun heq ↦ hr.not_mem_addresses hv (heq ▸ hin)
      exact (Finmap.lookup_erase_ne hne).trans (hr.disjoint b hin)
  · rw [hlen, hr.len, incr_eq hroom]
  · rw [hlen]
    exact hroom
  · exact hr.iterators
  · exact hr.freed
  · exact hr.free
  · exact hr.match_

theorem len_ne_zero (hr : Represents s d) : s.self.len ≠ 0 ↔ d.list ≠ [] := by
  rw [hr.len, Ne, List.length_eq_zero_iff]

/-- What `list_rpush` does, whether or not the counter has room. -/
theorem listRpush_eq (hr : Represents s d) (hv : d.loose.lookup a = some v) :
    DoublyLinked.listRpush s (some a) = .ok (some a,
      { s with
        self := { s.self with
          head := firstPtr (d.list ++ [(a, v)]) none
          tail := some a
          len := incr s.self.len }
        nodes := (s.nodes.linkNext s.self.tail (some a)).linkPrev (some a) s.self.tail }) := by
  have ha := hr.lookup_loose hv
  by_cases hne : d.list = []
  · have hlen : ¬ s.self.len ≠ 0 := fun h ↦ hr.len_ne_zero.mp h hne
    have htail : s.self.tail = none := by rw [hr.isList.tail_eq, hne, lastPtr_nil]
    rw [DoublyLinked.listRpush, if_neg (Option.some_ne_none a), if_neg hlen,
      setNext_eq_linkNext ha, linkNext_self ha rfl, Except.ok_bind_eq, setPrev_eq_linkPrev ha,
      Except.ok_bind_eq, htail, hne]
    rfl
  · obtain ⟨l, c, hl⟩ : ∃ l c, d.list = l ++ [c] :=
      ⟨_, _, (List.dropLast_append_getLast hne).symm⟩
    have htail : s.self.tail = some c.1 := by rw [hr.isList.tail_eq, hl, lastPtr_concat]
    have hc : s.nodes.lookup c.1 = some ⟨c.2, none, lastPtr none l⟩ := by
      have hlinked := hr.isList.linked
      rw [hl] at hlinked
      exact hlinked.lookup
    have hca : c.1 ≠ a := by
      rintro rfl
      apply hr.not_mem_addresses hv
      rw [Deque.addresses, hl, List.map_append, List.mem_append]
      exact .inr List.mem_cons_self
    have ha' : (s.nodes.linkPrev (some a) s.self.tail).lookup a = some ⟨v, none, s.self.tail⟩ := by
      rw [lookup_linkPrev, if_pos rfl, ha]
      rfl
    have hc' : (s.nodes.linkPrev (some a) s.self.tail).lookup c.1
        = some ⟨c.2, none, lastPtr none l⟩ := by
      rw [lookup_linkPrev, if_neg hca, hc]
    have hhead : firstPtr (d.list ++ [(a, v)]) none = s.self.head := by
      rw [hr.isList.head_eq, firstPtr_append, hl]
      cases l <;> rfl
    rw [DoublyLinked.listRpush, if_neg (Option.some_ne_none a), if_pos (hr.len_ne_zero.mpr hne),
      setPrev_eq_linkPrev ha, Except.ok_bind_eq, setNext_eq_linkNext ha', linkNext_self ha' rfl,
      Except.ok_bind_eq]
    nth_rewrite 2 [htail]
    rw [setNext_eq_linkNext hc', Except.ok_bind_eq, hhead, ← linkNext_linkPrev, ← htail]

theorem listRpush (hr : Represents s d) (hv : d.loose.lookup a = some v)
    (hroom : d.list.length + 1 < 2 ^ 32) :
    ∃ t, listRpush s (some a) = .ok (some a, t)
      ∧ Represents t { d with list := d.list ++ [(a, v)], loose := d.loose.erase a } := by
  have hsingle : Linked s.nodes none [(a, v)] none := ⟨hr.lookup_loose hv, trivial⟩
  have hjoin := hr.join_loose hv hroom hr.isList.linked hsingle (List.perm_append_singleton _ _)
  rw [← hr.isList.tail_eq, lastPtr_concat] at hjoin
  exact ⟨_, hr.listRpush_eq hv, hjoin⟩

theorem listLpush (hr : Represents s d) (hv : d.loose.lookup a = some v)
    (hroom : d.list.length + 1 < 2 ^ 32) :
    ∃ t, listLpush s (some a) = .ok (some a, t)
      ∧ Represents t { d with list := (a, v) :: d.list, loose := d.loose.erase a } := by
  have ha := hr.lookup_loose hv
  have hsingle : Linked s.nodes none [(a, v)] none := ⟨ha, trivial⟩
  have hjoin := hr.join_loose hv hroom hsingle hr.isList.linked (List.Perm.refl _)
  have hlast : lastPtr none [(a, v)] = some a := rfl
  rw [← hr.isList.head_eq] at hjoin
  by_cases hne : d.list = []
  · refine ⟨_, ?_, hjoin⟩
    have hlen : ¬ s.self.len ≠ 0 := fun h ↦ hr.len_ne_zero.mp h hne
    have hhead : s.self.head = none := by rw [hr.isList.head_eq, hne, firstPtr_nil]
    rw [DoublyLinked.listLpush, if_neg (Option.some_ne_none a), if_neg hlen,
      setNext_eq_linkNext ha, linkNext_self ha rfl, Except.ok_bind_eq, setPrev_eq_linkPrev ha,
      linkPrev_self ha rfl, Except.ok_bind_eq, hhead, hne, linkPrev_none, hlast,
      linkNext_self ha rfl]
    rfl
  · refine ⟨_, ?_, hjoin⟩
    obtain ⟨c, l, hl⟩ := List.exists_cons_of_ne_nil hne
    have hhead : s.self.head = some c.1 := by rw [hr.isList.head_eq, hl, firstPtr_cons]
    have hc : s.nodes.lookup c.1 = some ⟨c.2, firstPtr l none, none⟩ := by
      have hlinked := hr.isList.linked
      rw [hl] at hlinked
      exact hlinked.1
    have hca : c.1 ≠ a := by
      rintro rfl
      apply hr.not_mem_addresses hv
      rw [Deque.addresses, hl]
      exact List.mem_cons_self
    have ha' : (s.nodes.linkNext (some a) s.self.head).lookup a = some ⟨v, s.self.head, none⟩ := by
      rw [lookup_linkNext, if_pos rfl, ha]
      rfl
    have hc' : (s.nodes.linkNext (some a) s.self.head).lookup c.1
        = some ⟨c.2, firstPtr l none, none⟩ := by
      rw [lookup_linkNext, if_neg hca, hc]
    have htail : lastPtr none ([(a, v)] ++ d.list) = s.self.tail := by
      rw [hr.isList.tail_eq, lastPtr_append, hl, lastPtr_cons, lastPtr_cons]
    rw [DoublyLinked.listLpush, if_neg (Option.some_ne_none a), if_pos (hr.len_ne_zero.mpr hne),
      setNext_eq_linkNext ha, Except.ok_bind_eq, setPrev_eq_linkPrev ha', linkPrev_self ha' rfl,
      Except.ok_bind_eq]
    nth_rewrite 2 [hhead]
    rw [setPrev_eq_linkPrev hc', Except.ok_bind_eq, htail, ← hhead]
    rfl

/-! ## Popping -/

/-- A node is cut off the list and left beside it. -/
theorem detach (hr : Represents s d) {x : ℕ × V} {l : List (ℕ × V)} {h : NodeHeap V}
    (hperm : d.list.Perm (x :: l)) (hl : Linked h none l none)
    (hx : (h.lookup x.1).map LinkedNode.data = some x.2)
    (hsame : ∀ b ∉ d.addresses, h.lookup b = s.nodes.lookup b) :
    Represents
      { s with
        self := { s.self with
          head := firstPtr l none
          tail := lastPtr none l
          len := decr s.self.len }
        nodes := h.detach x.1 }
      { d with list := l, loose := d.loose.insert x.1 x.2 } := by
  have haddr : d.addresses.Perm (x.1 :: l.map Prod.fst) := hperm.map Prod.fst
  have hlen : d.list.length = l.length + 1 := hperm.length_eq
  have hnodup := hr.nodup
  rw [haddr.nodup_iff, List.nodup_cons] at hnodup
  constructor
  · refine ⟨hl.congr ?_, hnodup.2, rfl, rfl⟩
    intro y hy
    rw [lookup_detach, if_neg]
    rintro heq
    exact hnodup.1 (heq ▸ List.mem_map_of_mem hy)
  · intro b hb
    rw [lookup_detach]
    rcases eq_or_ne b x.1 with rfl | hne
    · rw [if_pos rfl, Finmap.lookup_insert]
      obtain ⟨n, hn, hdata⟩ := Option.map_eq_some_iff.mp hx
      rw [hn, Option.map_some, Option.map_some, hdata]
    · have hout : b ∉ d.addresses := by
        intro hin
        rcases List.mem_cons.mp (haddr.mem_iff.mp hin) with heq | hin
        · exact hne heq
        · exact hb hin
      rw [if_neg hne, hsame b hout, hr.outside b hout, Finmap.lookup_insert_of_ne _ hne]
  · intro b hb
    have hne : b ≠ x.1 := fun heq ↦ hnodup.1 (heq ▸ hb)
    have hin : b ∈ d.addresses := haddr.mem_iff.mpr (List.mem_cons_of_mem _ hb)
    exact (Finmap.lookup_insert_of_ne _ hne).trans (hr.disjoint b hin)
  · have hbound := hr.bound
    rw [hlen] at hbound
    rw [hr.len, hlen, decr_eq hbound]
  · have hbound := hr.bound
    rw [hlen] at hbound
    exact Nat.lt_of_succ_lt hbound
  · exact hr.iterators
  · exact hr.freed
  · exact hr.free
  · exact hr.match_

theorem listRpop (hr : Represents s d) {l : List (ℕ × V)} {x : ℕ × V} (hl : d.list = l ++ [x]) :
    ∃ t, listRpop s = .ok (some x.1, t)
      ∧ Represents t { d with list := l, loose := d.loose.insert x.1 x.2 } := by
  have hlinked := hr.isList.linked
  rw [hl] at hlinked
  have hx := hlinked.lookup
  have hperm : d.list.Perm (x :: l) := by
    rw [hl]
    exact List.perm_append_singleton x l
  have hnodup := hr.nodup
  rw [Deque.addresses, (hperm.map Prod.fst).nodup_iff, List.map_cons, List.nodup_cons] at hnodup
  have htail : s.self.tail = some x.1 := by rw [hr.isList.tail_eq, hl, lastPtr_concat]
  have hzero : s.self.len ≠ 0 := hr.len_ne_zero.mpr (by rw [hl]; exact List.concat_ne_nil x l)
  have hlen : decr s.self.len = l.length := by
    have hbound := hr.bound
    rw [hl, List.length_append] at hbound
    rw [hr.len, hl, List.length_append, List.length_singleton, decr_eq hbound]
  rw [DoublyLinked.listRpop, if_neg hzero]
  rcases List.eq_nil_or_concat l with rfl | ⟨l₀, c, rfl⟩
  · have hd := hr.detach hperm (h := s.nodes) trivial (by rw [hx]; rfl) fun _ _ ↦ rfl
    have hlen' : ¬ decr s.self.len ≠ 0 := fun h ↦ h hlen
    refine ⟨_, ?_, hd⟩
    rw [if_neg hlen', Except.pure_eq_ok, Except.ok_bind_eq, htail]
    exact setPrev_bind_setNext hx _
  · rw [List.concat_eq_append] at *
    have hc : s.nodes.lookup c.1 = some ⟨c.2, some x.1, lastPtr none l₀⟩ :=
      (linked_append.mp hlinked).1.lookup
    have hlast : lastPtr none (l₀ ++ [c]) = some c.1 := lastPtr_concat none l₀ c
    have hout : ∀ b ∉ (l₀ ++ [c]).map Prod.fst,
        (s.nodes.linkNext (some c.1) none).lookup b = s.nodes.lookup b := by
      intro b hb
      rw [← hlast]
      exact lookup_linkNext_of_ne _ (lastPtr_ne hb) none
    have hx' := (hout x.1 hnodup.1).trans hx
    have hcut := (linked_append.mp hlinked).1.setLast hnodup.2 none
    rw [hlast] at hcut
    have hd := hr.detach hperm hcut (by rw [hx']; rfl) fun b hb ↦ hout b fun hin ↦
      hb ((hperm.map Prod.fst).mem_iff.mpr (List.mem_cons_of_mem _ hin))
    have hlen' : decr s.self.len ≠ 0 := by
      rw [hlen, List.length_append]
      exact Nat.succ_ne_zero _
    have hhead : firstPtr (l₀ ++ [c]) none = s.self.head := by
      rw [hr.isList.head_eq, hl, firstPtr_append (l₀ ++ [c])]
      cases l₀ <;> rfl
    rw [hhead, hlast] at hd
    refine ⟨_, ?_, hd⟩
    rw [if_pos hlen', htail, deref_some hx, Except.ok_bind_eq, hlast, setNext_eq_linkNext hc,
      Except.ok_bind_eq, Except.pure_eq_ok, Except.ok_bind_eq]
    exact setPrev_bind_setNext hx' _

theorem listLpop (hr : Represents s d) {l : List (ℕ × V)} {x : ℕ × V} (hl : d.list = x :: l) :
    ∃ t, listLpop s = .ok (some x.1, t)
      ∧ Represents t { d with list := l, loose := d.loose.insert x.1 x.2 } := by
  have hlinked := hr.isList.linked
  rw [hl] at hlinked
  have hx := hlinked.1
  have hperm : d.list.Perm (x :: l) := by rw [hl]
  have hnodup := hr.nodup
  rw [Deque.addresses, hl, List.map_cons, List.nodup_cons] at hnodup
  have hhead : s.self.head = some x.1 := by rw [hr.isList.head_eq, hl, firstPtr_cons]
  have hzero : s.self.len ≠ 0 := hr.len_ne_zero.mpr (by rw [hl]; exact List.cons_ne_nil x l)
  have hlen : decr s.self.len = l.length := by
    have hbound := hr.bound
    rw [hl, List.length_cons] at hbound
    rw [hr.len, hl, List.length_cons, decr_eq hbound]
  rw [DoublyLinked.listLpop, if_neg hzero]
  cases l with
  | nil =>
    have hd := hr.detach hperm (h := s.nodes) trivial (by rw [hx]; rfl) fun _ _ ↦ rfl
    have hlen' : ¬ decr s.self.len ≠ 0 := fun h ↦ h hlen
    refine ⟨_, ?_, hd⟩
    rw [if_neg hlen', Except.pure_eq_ok, Except.ok_bind_eq, hhead]
    exact setPrev_bind_setNext hx _
  | cons c l =>
    have hc := hlinked.2.1
    have hout : ∀ b ∉ (c :: l).map Prod.fst,
        (s.nodes.linkPrev (some c.1) none).lookup b = s.nodes.lookup b := fun b hb ↦
      lookup_linkPrev_of_ne _ (firstPtr_ne hb) none
    have hx' := (hout x.1 hnodup.1).trans hx
    have hcut := hlinked.2.setFirst hnodup.2 none
    have hd := hr.detach hperm hcut (by rw [firstPtr_cons, hx']; rfl) fun b hb ↦ hout b fun hin ↦
      hb ((hperm.map Prod.fst).mem_iff.mpr (List.mem_cons_of_mem _ hin))
    have hlen' : decr s.self.len ≠ 0 := by
      rw [hlen]
      exact Nat.succ_ne_zero _
    have htail : lastPtr none (c :: l) = s.self.tail := by
      rw [hr.isList.tail_eq, hl, lastPtr_cons, lastPtr_cons, lastPtr_cons]
    rw [htail, firstPtr_cons] at hd
    refine ⟨_, ?_, hd⟩
    rw [if_pos hlen', hhead, deref_some hx, Except.ok_bind_eq, firstPtr_cons,
      setPrev_eq_linkPrev hc, Except.ok_bind_eq, Except.pure_eq_ok, Except.ok_bind_eq]
    exact setPrev_bind_setNext hx' _

/-! ## Unlinking -/

/-- The neighbours of a node are joined and it is freed. -/
theorem join_erase (hr : Represents s d) {l₁ l₂ : List (ℕ × V)} {x : ℕ × V}
    (hl : d.list = l₁ ++ x :: l₂) :
    Represents
      { s with
        self := { s.self with
          head := firstPtr (l₁ ++ l₂) none
          tail := lastPtr none (l₁ ++ l₂)
          len := decr s.self.len }
        nodes := ((s.nodes.linkNext (lastPtr none l₁) (firstPtr l₂ none)).linkPrev
          (firstPtr l₂ none) (lastPtr none l₁)).erase x.1
        freed := if s.self.free then s.freed ++ [x.2] else s.freed }
      { d with
        list := l₁ ++ l₂
        freed := if d.free then d.freed ++ [x.2] else d.freed } := by
  have hlinked := hr.isList.linked
  rw [hl] at hlinked
  obtain ⟨h₁, -, h₂⟩ := linked_append.mp hlinked
  have haddr : d.addresses.Perm (x.1 :: (l₁ ++ l₂).map Prod.fst) := by
    rw [Deque.addresses, hl]
    exact List.perm_middle.map Prod.fst
  have hlen : d.list.length = (l₁ ++ l₂).length + 1 := by
    rw [hl]
    exact List.perm_middle.length_eq
  have hnodup := hr.nodup
  rw [haddr.nodup_iff, List.nodup_cons] at hnodup
  have hbound := hr.bound
  rw [hlen] at hbound
  constructor
  · refine ⟨(h₁.join h₂ hnodup.2).congr ?_, hnodup.2, rfl, rfl⟩
    intro y hy
    apply Finmap.lookup_erase_ne
    rintro heq
    exact hnodup.1 (heq ▸ List.mem_map_of_mem hy)
  · intro b hb
    rcases eq_or_ne b x.1 with rfl | hne
    · have hx := hr.disjoint x.1 (haddr.mem_iff.mpr List.mem_cons_self)
      exact (Finmap.lookup_erase _ _).trans (by rw [hx]; rfl)
    · have hout : b ∉ d.addresses := by
        intro hin
        rcases List.mem_cons.mp (haddr.mem_iff.mp hin) with heq | hin
        · exact hne heq
        · exact hb hin
      rw [Deque.addresses, List.map_append, List.mem_append, not_or] at hb
      rw [Finmap.lookup_erase_ne hne, lookup_join _ _ _ hb.1 hb.2, hr.outside b hout]
  · intro b hb
    exact hr.disjoint b (haddr.mem_iff.mpr (List.mem_cons_of_mem _ hb))
  · rw [hr.len, hlen, decr_eq hbound]
  · exact Nat.lt_of_succ_lt hbound
  · exact hr.iterators
  · rw [hr.free, hr.freed]
  · exact hr.free
  · exact hr.match_

theorem listRemove (hr : Represents s d) {l₁ l₂ : List (ℕ × V)} {x : ℕ × V}
    (hl : d.list = l₁ ++ x :: l₂) :
    ∃ t, listRemove s (some x.1) = .ok t
      ∧ Represents t { d with
          list := l₁ ++ l₂
          freed := if d.free then d.freed ++ [x.2] else d.freed } := by
  refine ⟨_, ?_, hr.join_erase hl⟩
  have hlinked := hr.isList.linked
  rw [hl] at hlinked
  obtain ⟨h₁, hx, h₂⟩ := linked_append.mp hlinked
  have haddr : d.addresses.Perm (x.1 :: (l₁ ++ l₂).map Prod.fst) := by
    rw [Deque.addresses, hl]
    exact List.perm_middle.map Prod.fst
  have hnodup := hr.nodup
  rw [haddr.nodup_iff, List.nodup_cons, List.map_append, List.mem_append, not_or] at hnodup
  obtain ⟨⟨hx₁, hx₂⟩, hnodup⟩ := hnodup
  have hfront : unlinkFront s.self s.nodes ⟨x.2, firstPtr l₂ none, lastPtr none l₁⟩
      = .ok ({ s.self with head := firstPtr (l₁ ++ l₂) none },
        s.nodes.linkNext (lastPtr none l₁) (firstPtr l₂ none)) := by
    rcases List.eq_nil_or_concat l₁ with rfl | ⟨l, c, rfl⟩
    · rfl
    · rw [List.concat_eq_append] at *
      have hc := h₁.lookup
      have hhead : firstPtr (l ++ [c] ++ l₂) none = s.self.head := by
        rw [hr.isList.head_eq, hl, firstPtr_append (l ++ [c]), firstPtr_append (l ++ [c])]
        cases l <;> rfl
      rw [unlinkFront, lastPtr_concat, if_pos (Option.some_ne_none c.1), setNext_eq_linkNext hc,
        hhead]
      rfl
  have hx' : (s.nodes.linkNext (lastPtr none l₁) (firstPtr l₂ none)).lookup x.1
      = some ⟨x.2, firstPtr l₂ none, lastPtr none l₁⟩ := by
    rw [lookup_linkNext_of_ne _ (lastPtr_ne hx₁), hx]
  have hback : ∀ self : ListT V, self.tail = s.self.tail →
      unlinkBack self (s.nodes.linkNext (lastPtr none l₁) (firstPtr l₂ none))
        ⟨x.2, firstPtr l₂ none, lastPtr none l₁⟩
      = .ok ({ self with tail := lastPtr none (l₁ ++ l₂) },
        (s.nodes.linkNext (lastPtr none l₁) (firstPtr l₂ none)).linkPrev (firstPtr l₂ none)
          (lastPtr none l₁)) := by
    intro self hself
    cases l₂ with
    | nil =>
      rw [List.append_nil]
      rfl
    | cons c l =>
      have hc : (s.nodes.linkNext (lastPtr none l₁) (some c.1)).lookup c.1
          = some ⟨c.2, firstPtr l none, some x.1⟩ := by
        rw [lookup_linkNext_of_ne, h₂.1]
        apply lastPtr_ne
        rw [List.nodup_append] at hnodup
        intro hin
        exact hnodup.2.2 c.1 hin c.1 List.mem_cons_self rfl
      have htail : lastPtr none (l₁ ++ c :: l) = self.tail := by
        rw [hself, hr.isList.tail_eq, hl, lastPtr_append, lastPtr_append, lastPtr_cons,
          lastPtr_cons, lastPtr_cons]
      rw [unlinkBack, firstPtr_cons, if_pos (Option.some_ne_none c.1), setPrev_eq_linkPrev hc,
        htail]
      rfl
  have hx'' : ((s.nodes.linkNext (lastPtr none l₁) (firstPtr l₂ none)).linkPrev (firstPtr l₂ none)
      (lastPtr none l₁)).lookup x.1 = some ⟨x.2, firstPtr l₂ none, lastPtr none l₁⟩ := by
    rw [lookup_linkPrev_of_ne _ (firstPtr_ne hx₂), hx']
  rw [DoublyLinked.listRemove, deref_some hx, Except.ok_bind_eq, hfront, Except.ok_bind_eq]
  dsimp only
  rw [deref_some hx', Except.ok_bind_eq, hback { s.self with head := firstPtr (l₁ ++ l₂) none } rfl,
    Except.ok_bind_eq]
  dsimp only
  rw [deref_some hx'', Except.ok_bind_eq, freeNode, if_pos (Finmap.mem_of_lookup_eq_some hx'')]
  rfl

end Represents

end AllProjects.DoublyLinked
