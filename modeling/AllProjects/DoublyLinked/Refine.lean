import AllProjects.DoublyLinked.Traverse
import AllProjects.Transition.Run

/-!
# The list library refines its lists

Whatever a client does that keeps to the rules, the library returns the pointers that the list
returns, and its heap goes on holding that list. In particular no call reads or writes through a
pointer to nothing, and no node is lost: at any time the nodes are those of the list and those the
client holds.
-/

namespace AllProjects.DoublyLinked

variable {V : Type} {s : State V} {d d' : Deque V}

theorem find_addr {l : List (ℕ × V)} {a : ℕ} {x : ℕ × V}
    (hx : l.find? (fun y ↦ decide (y.1 = a)) = some x) :
    ∃ l₁ l₂, l = l₁ ++ x :: l₂ ∧ x.1 = a
      ∧ l.eraseP (fun y ↦ decide (y.1 = a)) = l₁ ++ l₂ := by
  obtain ⟨hxa, l₁, l₂, rfl, hl₁⟩ := List.find?_eq_some_iff_append.mp hx
  have hhead : (x :: l₂).eraseP (fun y ↦ decide (y.1 = a)) = l₂ := List.eraseP_cons_of_pos hxa
  refine ⟨l₁, l₂, rfl, decide_eq_true_iff.mp hxa, ?_⟩
  rw [List.eraseP_append_right, hhead]
  intro y hy
  have hne := hl₁ y hy
  rwa [Bool.not_eq_eq_eq_not, Bool.not_true, ← Bool.not_eq_true] at hne

theorem Deque.takeLoose_eq_some {a : ℕ} {v : V} (ha : d.takeLoose a = some v) :
    d.loose.lookup a = some v ∧ d.list.length + 1 < 2 ^ 32 := by
  rw [takeLoose] at ha
  split at ha
  · exact ⟨ha, ‹_›⟩
  · cases ha

theorem Deque.lookAt_eq_some {malloc r : Option ℕ} {x : Option (ℕ × V)}
    (hd : d.lookAt malloc x = some (r, d')) :
    ∃ i, malloc = some i ∧ i ∉ d.iterators ∧ r = x.map Prod.fst ∧ d' = d := by
  cases malloc with
  | none => cases hd
  | some i =>
    rw [lookAt] at hd
    split at hd
    · cases hd
    · cases hd
      exact ⟨i, rfl, ‹_›, rfl, rfl⟩

namespace Represents

theorem nodeNew (hr : Represents s d) {a : ℕ} (ha : ¬(a ∈ d.addresses ∨ a ∈ d.loose)) (v : V) :
    Represents (listNodeNew s (some a) v).2 { d with loose := d.loose.insert a v } := by
  obtain ⟨hlist, -⟩ := not_or.mp ha
  have hne : ∀ b ∈ d.addresses, b ≠ a := by
    rintro b hb rfl
    exact hlist hb
  constructor
  · apply hr.isList.congr
    intro x hx
    exact Finmap.lookup_insert_of_ne _ (hne x.1 (List.mem_map_of_mem hx))
  · intro b hb
    rcases eq_or_ne b a with rfl | hba
    · rw [Finmap.lookup_insert]
      exact Finmap.lookup_insert _
    · rw [Finmap.lookup_insert_of_ne _ hba, ← hr.outside b hb]
      exact Finmap.lookup_insert_of_ne _ hba
  · intro b hb
    exact (Finmap.lookup_insert_of_ne _ (hne b hb)).trans (hr.disjoint b hb)
  · exact hr.len
  · exact hr.bound
  · exact hr.iterators
  · exact hr.freed
  · exact hr.free
  · exact hr.match_

theorem freeNode (hr : Represents s d) {a : ℕ} (ha : a ∈ d.loose) :
    Represents { s with nodes := s.nodes.erase a } { d with loose := d.loose.erase a } := by
  obtain ⟨v, hv⟩ := Finmap.mem_iff.mp ha
  have hne : ∀ b ∈ d.addresses, b ≠ a := by
    rintro b hb rfl
    exact hr.not_mem_addresses hv hb
  constructor
  · apply hr.isList.congr
    intro x hx
    exact Finmap.lookup_erase_ne (hne x.1 (List.mem_map_of_mem hx))
  · intro b hb
    rcases eq_or_ne b a with rfl | hba
    · rw [Finmap.lookup_erase]
      exact congrArg (Option.map _) (Finmap.lookup_erase b d.loose).symm
    · rw [Finmap.lookup_erase_ne hba, hr.outside b hb]
      exact congrArg (Option.map _) (Finmap.lookup_erase_ne hba).symm
  · intro b hb
    exact (Finmap.lookup_erase_ne (hne b hb)).trans (hr.disjoint b hb)
  · exact hr.len
  · exact hr.bound
  · exact hr.iterators
  · exact hr.freed
  · exact hr.free
  · exact hr.match_

theorem iteratorNewFromNode (hr : Represents s d) {malloc node r : Option ℕ} {dir : Direction}
    (hd : d.newIterator ⟨node, dir⟩ malloc = some (r, d')) :
    ∃ t, listIteratorNewFromNode s malloc node dir = (r, t) ∧ Represents t d' := by
  cases malloc with
  | none =>
    cases hd
    exact ⟨s, rfl, hr⟩
  | some i =>
    rw [Deque.newIterator] at hd
    split at hd
    · cases hd
    · cases hd
      exact ⟨_, rfl, { hr with iterators := by rw [hr.iterators] }⟩

theorem iteratorDestroy (hr : Represents s d) {i : ℕ} (hi : i ∈ d.iterators) :
    ∃ t, listIteratorDestroy s (some i) = .ok t
      ∧ Represents t { d with iterators := d.iterators.erase i } := by
  rw [← hr.iterators] at hi
  refine ⟨_, if_pos hi, { hr with iterators := ?_ }⟩
  rw [hr.iterators]

theorem pop_nil (hr : Represents s d) (hl : d.list = []) :
    DoublyLinked.listRpop s = .ok (none, s) ∧ DoublyLinked.listLpop s = .ok (none, s) := by
  have hlen : s.self.len = 0 := by
    rw [hr.len, hl]
    rfl
  exact ⟨if_pos hlen, if_pos hlen⟩

end Represents

/-! ## The counter -/

/-- The `2 ^ 32`-nd node is linked in, but the counter is at zero again. Nothing can be popped or
looked up by its index, and `list_destroy` leaves all nodes where they are. -/
theorem counter_wraps {a : ℕ} {v : V} (hr : Represents s d) (hv : d.loose.lookup a = some v)
    (hfull : d.list.length + 1 = 2 ^ 32) :
    ∃ t, listRpush s (some a) = .ok (some a, t)
      ∧ IsList t.nodes (d.list ++ [(a, v)]) t.self.head t.self.tail
      ∧ listRpop t = .ok (none, t) ∧ listLpop t = .ok (none, t)
      ∧ (∀ malloc index, listAt t malloc index = .ok (none, t))
      ∧ listDestroy t = .ok (t.nodes, t.freed) := by
  have hsingle : Linked s.nodes none [(a, v)] none := ⟨hr.lookup_loose hv, trivial⟩
  have hlist := hr.isList_join_loose hv hr.isList.linked hsingle (List.perm_append_singleton _ _)
  rw [← hr.isList.tail_eq, lastPtr_concat] at hlist
  have hlen : incr s.self.len = 0 := by rw [incr, hr.len, hfull, Nat.mod_self]
  refine ⟨_, hr.listRpush_eq hv, hlist, if_pos hlen, if_pos hlen, ?_, ?_⟩
  · intro malloc index
    apply if_neg
    rw [hlen]
    exact Nat.not_lt_zero _
  · rw [listDestroy]
    dsimp only
    rw [hlen]
    rfl

theorem notMem_range_addr {n : ℕ} : n ∉ ((List.range n).map fun i ↦ (i, 0)).map Prod.fst := by
  intro h
  rw [List.map_map, List.mem_map] at h
  obtain ⟨i, hi, heq⟩ := h
  have hlt : i < n := List.mem_range.mp hi
  exact Nat.ne_of_lt hlt heq

theorem exists_represents {n : ℕ} (hn : n < 2 ^ 32) : ∃ s : State ℕ,
    Represents s ⟨(List.range n).map fun i ↦ (i, 0), ∅, ∅, [], false, none⟩ := by
  induction n with
  | zero => exact ⟨listNew, represents_empty⟩
  | succ n ih =>
    obtain ⟨s, hr⟩ := ih (Nat.lt_of_succ_lt hn)
    have hfresh : ¬(n ∈ ((List.range n).map fun i ↦ (i, 0)).map Prod.fst
        ∨ n ∈ (∅ : Finmap fun _ : ℕ ↦ ℕ)) := fun h ↦ h.elim notMem_range_addr Finmap.notMem_empty
    have hroom : ((List.range n).map fun i ↦ (i, 0)).length + 1 < 2 ^ 32 := by
      rw [List.length_map, List.length_range]
      exact hn
    obtain ⟨t, -, ht⟩ := (hr.nodeNew hfresh 0).listRpush (Finmap.lookup_insert _) hroom
    refine ⟨t, ?_⟩
    have hloose : ((∅ : Finmap fun _ : ℕ ↦ ℕ).insert n 0).erase n = ∅ := by
      apply Finmap.ext_lookup
      intro b
      rcases eq_or_ne b n with rfl | hne
      · rw [Finmap.lookup_erase, Finmap.lookup_empty]
      · rw [Finmap.lookup_erase_ne hne, Finmap.lookup_insert_of_ne _ hne]
    rw [hloose] at ht
    rw [List.range_succ, List.map_append]
    exact ht

theorem counter_wraps_full : ∃ (s t : State ℕ) (l : List (ℕ × ℕ)) (a : ℕ), l.length + 1 = 2 ^ 32
    ∧ IsList s.nodes l s.self.head s.self.tail
    ∧ listRpush s (some a) = .ok (some a, t)
    ∧ IsList t.nodes (l ++ [(a, 7)]) t.self.head t.self.tail
    ∧ listDestroy t = .ok (t.nodes, t.freed) := by
  obtain ⟨n, hn⟩ : ∃ n, n + 1 = 2 ^ 32 := ⟨4294967295, by norm_num⟩
  obtain ⟨s, hr⟩ := exists_represents (n := n) (by omega)
  have hlen : ((List.range n).map fun i ↦ (i, 0)).length + 1 = 2 ^ 32 := by
    rw [List.length_map, List.length_range, hn]
  have hfresh : ¬(n ∈ ((List.range n).map fun i ↦ (i, 0)).map Prod.fst
      ∨ n ∈ (∅ : Finmap fun _ : ℕ ↦ ℕ)) := fun h ↦ h.elim notMem_range_addr Finmap.notMem_empty
  obtain ⟨t, hpush, hlist, -, -, -, hdestroy⟩ :=
    counter_wraps (hr.nodeNew hfresh 7) (Finmap.lookup_insert _) hlen
  exact ⟨_, t, _, n, hlen, (hr.nodeNew hfresh 7).isList, hpush, hlist, hdestroy⟩

/-! ## Runs -/

variable [DecidableEq V]

/-- A command of the list and what it returns. -/
def Deque.Step (d : Deque V) (e : Command V × Option ℕ) (d' : Deque V) : Prop :=
  d.step e.1 = some (e.2, d')

/-- A command of the library and what it returns. -/
def State.Step (s : State V) (e : Command V × Option ℕ) (t : State V) : Prop :=
  exec s e.1 = .ok (e.2, t)

namespace Represents

theorem exec (hr : Represents s d) {e : Command V × Option ℕ} (hd : d.Step e d') :
    ∃ t, s.Step e t ∧ Represents t d' := by
  obtain ⟨c, r⟩ := e
  have hd : d.step c = some (r, d') := hd
  have ofOk : ∀ {x : Except Fault (Option ℕ × State V)}, DoublyLinked.exec s c = x →
      (∃ t, x = .ok (r, t) ∧ Represents t d') → ∃ t, s.Step (c, r) t ∧ Represents t d' := by
    rintro x rfl ⟨t, hx, ht⟩
    exact ⟨t, hx, ht⟩
  cases c with
  | nodeNew malloc v =>
    apply ofOk rfl
    cases malloc with
    | none => cases hd; exact ⟨s, rfl, hr⟩
    | some a =>
      rw [Deque.step] at hd
      split at hd
      · cases hd
      · cases hd
        exact ⟨_, rfl, hr.nodeNew ‹_› v⟩
  | rpush node =>
    apply ofOk rfl
    cases node with
    | none => cases hd; exact ⟨s, rfl, hr⟩
    | some a =>
      obtain ⟨v, hv, hres⟩ := Option.map_eq_some_iff.mp hd
      cases hres
      obtain ⟨hloose, hroom⟩ := Deque.takeLoose_eq_some hv
      exact hr.listRpush hloose hroom
  | lpush node =>
    apply ofOk rfl
    cases node with
    | none => cases hd; exact ⟨s, rfl, hr⟩
    | some a =>
      obtain ⟨v, hv, hres⟩ := Option.map_eq_some_iff.mp hd
      cases hres
      obtain ⟨hloose, hroom⟩ := Deque.takeLoose_eq_some hv
      exact hr.listLpush hloose hroom
  | rpop =>
    apply ofOk rfl
    rcases List.eq_nil_or_concat d.list with hl | ⟨l, x, hl⟩
    · rw [Deque.step, hl] at hd
      cases hd
      exact ⟨s, (hr.pop_nil hl).1, hr⟩
    · rw [List.concat_eq_append] at hl
      rw [Deque.step, hl, List.getLast?_concat, List.dropLast_concat] at hd
      cases hd
      exact hr.listRpop hl
  | lpop =>
    apply ofOk rfl
    cases hl : d.list with
    | nil =>
      rw [Deque.step, hl] at hd
      cases hd
      exact ⟨s, (hr.pop_nil hl).2, hr⟩
    | cons x l =>
      rw [Deque.step, hl] at hd
      cases hd
      exact hr.listLpop hl
  | remove node =>
    cases node with
    | none => cases hd
    | some a =>
      obtain ⟨x, hx, hres⟩ := Option.map_eq_some_iff.mp hd
      obtain ⟨l₁, l₂, hl, rfl, herase⟩ := find_addr hx
      obtain ⟨t, hexec, ht⟩ := hr.listRemove hl
      cases hres
      refine ⟨t, ?_, herase ▸ ht⟩
      rw [State.Step, DoublyLinked.exec, hexec]
      rfl
  | find malloc v =>
    apply ofOk rfl
    obtain ⟨i, rfl, hi, rfl, rfl⟩ := Deque.lookAt_eq_some hd
    exact ⟨s, hr.listFind hi v, hr⟩
  | atIndex malloc index =>
    apply ofOk rfl
    rw [Deque.step] at hd
    cases hy : d.nodeAt index with
    | none =>
      rw [hy] at hd
      cases hd
      exact ⟨s, hr.listAt_none malloc hy, hr⟩
    | some y =>
      rw [hy] at hd
      obtain ⟨i, rfl, hi, rfl, rfl⟩ := Deque.lookAt_eq_some hd
      exact ⟨s, hr.listAt_some hi hy, hr⟩
  | iteratorNew malloc dir =>
    apply ofOk rfl
    obtain ⟨t, ht, hrt⟩ := hr.iteratorNewFromNode hd
    refine ⟨t, congrArg Except.ok ?_, hrt⟩
    rw [listIteratorNew, ← ht, hr.isList.head_eq, hr.isList.tail_eq, ← firstPtr_reverse]
    cases dir <;> rfl
  | iteratorNewFromNode malloc node dir =>
    apply ofOk rfl
    obtain ⟨t, ht, hrt⟩ := hr.iteratorNewFromNode hd
    exact ⟨t, congrArg Except.ok ht, hrt⟩
  | iteratorNext it =>
    apply ofOk rfl
    cases it with
    | none => cases hd
    | some i =>
      obtain ⟨it, hi, hadv⟩ := Option.bind_eq_some_iff.mp hd
      exact hr.listIteratorNext hi hadv
  | iteratorDestroy it =>
    cases it with
    | none => cases hd; exact ⟨s, rfl, hr⟩
    | some i =>
      rw [Deque.step] at hd
      split at hd
      · cases hd
        obtain ⟨t, hexec, ht⟩ := hr.iteratorDestroy ‹_›
        refine ⟨t, ?_, ht⟩
        rw [State.Step, DoublyLinked.exec, hexec]
        rfl
      · cases hd
  | setFree free => cases hd; exact ⟨_, rfl, { hr with free := rfl }⟩
  | setMatch m => cases hd; exact ⟨_, rfl, { hr with match_ := rfl }⟩
  | freeNode node =>
    cases node with
    | none => cases hd; exact ⟨s, rfl, hr⟩
    | some a =>
      rw [Deque.step] at hd
      split at hd
      · rename_i ha
        cases hd
        refine ⟨_, ?_, hr.freeNode ha⟩
        rw [State.Step, DoublyLinked.exec, DoublyLinked.freeNode,
          if_pos ((hr.mem_nodes a).mpr (.inr ha))]
        rfl
      · cases hd

/-- **Every run.** The library returns what the list returns. -/
theorem run (hr : Represents s d) {es : List (Command V × Option ℕ)}
    (hrun : Run Deque.Step d es d') : ∃ t, Run State.Step s es t ∧ Represents t d' := by
  induction hrun generalizing s with
  | nil d => exact ⟨s, Run.nil s, hr⟩
  | cons hstep _ ih =>
    obtain ⟨t, hst, ht⟩ := hr.exec hstep
    obtain ⟨u, htu, hu⟩ := ih ht
    exact ⟨u, Run.cons hst htu, hu⟩

end Represents

/-- **Refinement.** On a client that keeps to the rules the library runs without a fault and returns
what the list returns, and at the end the heap holds the list, both ways, and no nodes but those of
the list and those the client holds. -/
theorem library_refines_deque {es : List (Command V × Option ℕ)}
    (hrun : Run Deque.Step Deque.empty es d) : ∃ s, Run State.Step listNew es s
      ∧ Represents s d ∧ ∀ a, a ∈ s.nodes ↔ a ∈ d.addresses ∨ a ∈ d.loose := by
  obtain ⟨s, hs, hr⟩ := represents_empty.run hrun
  exact ⟨s, hs, hr, hr.mem_nodes⟩

/-- Two nodes are pushed, found and indexed, and one is removed. -/
def pushFindRemove : List (Command ℕ × Option ℕ) :=
  [(.setFree true, none), (.nodeNew (some 1) 10, some 1), (.rpush (some 1), some 1),
    (.nodeNew (some 2) 20, some 2), (.lpush (some 2), some 2), (.find (some 5) 10, some 1),
    (.atIndex (some 5) (-1), some 1), (.remove (some 1), none), (.find (some 5) 10, none)]

theorem library_refines_deque_two : ∃ d s, d.addresses = [2] ∧ d.freed = [10]
    ∧ Run State.Step listNew pushFindRemove s
    ∧ Represents s d ∧ ∀ a, a ∈ s.nodes ↔ a ∈ d.addresses ∨ a ∈ d.loose := by
  have hrun : Run Deque.Step Deque.empty pushFindRemove _ := .cons rfl <| .cons rfl <|
    .cons rfl <| .cons rfl <| .cons rfl <| .cons rfl <| .cons rfl <| .cons rfl <| .cons rfl <|
    .nil _
  obtain ⟨s, hs⟩ := library_refines_deque hrun
  exact ⟨_, s, rfl, rfl, hs⟩

end AllProjects.DoublyLinked
