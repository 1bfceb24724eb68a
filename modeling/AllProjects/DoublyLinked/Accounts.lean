import AllProjects.DoublyLinked.Refine

/-!
# What becomes of the nodes

A command does one of a few things to the nodes: it makes one, moves one into the list or out of
it, or gives one back. `Effect` says so once. From it follows the account of the values: each one is
passed to the `free` callback once, or sits in a node that the client holds.
-/

namespace AllProjects.DoublyLinked

variable {V : Type}

/-- The node a command takes out of the list. -/
def takenOut : Command V × Option ℕ → Option ℕ
  | (.remove node, _) => node
  | (.rpop, r) => r
  | (.lpop, r) => r
  | _ => none

/-- The value of the node a command makes. -/
def created : Command V × Option ℕ → Option V
  | (.nodeNew (some _) v, _) => some v
  | _ => none

/-- A command moves at most one node. -/
inductive Effect (d : Deque V) (e : Command V × Option ℕ) (d' : Deque V) : Prop
  | still : d'.list = d.list → d'.loose = d.loose → d'.freed = d.freed → created e = none →
    takenOut e = none → (d'.free = d.free ∨ e.1 = .setFree d'.free) → Effect d e d'
  | make (a : ℕ) (v : V) : e.1 = .nodeNew (some a) v → a ∉ d.loose →
    d' = { d with loose := d.loose.insert a v } → Effect d e d'
  | release (a : ℕ) : e.1 = .freeNode (some a) → a ∈ d.loose →
    d' = { d with loose := d.loose.erase a } → Effect d e d'
  | push (l₁ : List (ℕ × V)) (x : ℕ × V) (l₂ : List (ℕ × V)) : d.list = l₁ ++ l₂ →
    d.loose.lookup x.1 = some x.2 → created e = none → takenOut e = none →
    d' = { d with list := l₁ ++ x :: l₂, loose := d.loose.erase x.1 } → Effect d e d'
  | pop (l₁ : List (ℕ × V)) (x : ℕ × V) (l₂ : List (ℕ × V)) : d.list = l₁ ++ x :: l₂ →
    created e = none → takenOut e = some x.1 →
    d' = { d with list := l₁ ++ l₂, loose := d.loose.insert x.1 x.2 } → Effect d e d'
  | remove (l₁ : List (ℕ × V)) (x : ℕ × V) (l₂ : List (ℕ × V)) : d.list = l₁ ++ x :: l₂ →
    created e = none → takenOut e = some x.1 →
    d' = { d with
      list := l₁ ++ l₂
      freed := if d.free then d.freed ++ [x.2] else d.freed } → Effect d e d'

variable {s : State V} {d d' : Deque V} {e : Command V × Option ℕ}

theorem Deque.newIterator_eq_some {it : Iterator} {malloc r : Option ℕ}
    (hd : d.newIterator it malloc = some (r, d')) : d' = d ∨ ∃ i, i ∉ d.iterators
      ∧ d' = { d with iterators := d.iterators.insert i it } := by
  cases malloc with
  | none => cases hd; exact .inl rfl
  | some i =>
    rw [newIterator] at hd
    split at hd
    · cases hd
    · cases hd
      exact .inr ⟨i, ‹_›, rfl⟩

theorem Deque.advance_eq_some {i : ℕ} {it : Iterator} {r : Option ℕ}
    (hd : d.advance i it = some (r, d')) : r = it.next ∧ (it.next = none ∧ d' = d
      ∨ d' = { d with
        iterators :=
          d.iterators.insert i { it with next := firstPtr (d.rest it).tail none } }) := by
  rw [advance] at hd
  split at hd
  · rename_i hnext
    cases hd
    exact ⟨hnext.symm, .inl ⟨hnext, rfl⟩⟩
  · rename_i a hnext
    split at hd
    · cases hd
      exact ⟨hnext.symm, .inr rfl⟩
    · cases hd

/-- **What a step does to the nodes.** -/
theorem Deque.Step.effect [DecidableEq V] (h : d.Step e d') : Effect d e d' := by
  obtain ⟨c, r⟩ := e
  have h : d.step c = some (r, d') := h
  have ofIter : ∀ {it : Iterator} {malloc : Option ℕ}, created (c, r) = none →
      takenOut (c, r) = none → d.newIterator it malloc = some (r, d') → Effect d (c, r) d' := by
    intro it malloc hc ht hd
    obtain rfl | ⟨i, -, rfl⟩ := Deque.newIterator_eq_some hd
    · exact .still rfl rfl rfl hc ht (.inl rfl)
    · exact .still rfl rfl rfl hc ht (.inl rfl)
  cases c with
  | nodeNew malloc v =>
    cases malloc with
    | none => cases h; exact .still rfl rfl rfl rfl rfl (.inl rfl)
    | some a =>
      rw [Deque.step] at h
      split at h
      · cases h
      · rename_i ha
        cases h
        exact .make a v rfl (not_or.mp ha).2 rfl
  | rpush node =>
    cases node with
    | none => cases h; exact .still rfl rfl rfl rfl rfl (.inl rfl)
    | some a =>
      obtain ⟨v, hv, hres⟩ := Option.map_eq_some_iff.mp h
      cases hres
      exact .push d.list (a, v) [] (List.append_nil _).symm (Deque.takeLoose_eq_some hv).1 rfl rfl
        rfl
  | lpush node =>
    cases node with
    | none => cases h; exact .still rfl rfl rfl rfl rfl (.inl rfl)
    | some a =>
      obtain ⟨v, hv, hres⟩ := Option.map_eq_some_iff.mp h
      cases hres
      exact .push [] (a, v) d.list rfl (Deque.takeLoose_eq_some hv).1 rfl rfl rfl
  | rpop =>
    rcases List.eq_nil_or_concat d.list with hl | ⟨l, x, hl⟩
    · rw [Deque.step, hl] at h
      cases h
      exact .still rfl rfl rfl rfl rfl (.inl rfl)
    · rw [List.concat_eq_append] at hl
      rw [Deque.step, hl, List.getLast?_concat, List.dropLast_concat] at h
      cases h
      exact .pop l x [] hl rfl rfl (by rw [List.append_nil])
  | lpop =>
    cases hl : d.list with
    | nil =>
      rw [Deque.step, hl] at h
      cases h
      exact .still rfl rfl rfl rfl rfl (.inl rfl)
    | cons x l =>
      rw [Deque.step, hl] at h
      cases h
      exact .pop [] x l hl rfl rfl rfl
  | remove node =>
    cases node with
    | none => cases h
    | some a =>
      obtain ⟨x, hx, hres⟩ := Option.map_eq_some_iff.mp h
      obtain ⟨l₁, l₂, hl, rfl, herase⟩ := find_addr hx
      cases hres
      exact .remove l₁ x l₂ hl rfl rfl (by rw [herase])
  | find malloc v =>
    obtain ⟨i, -, -, -, rfl⟩ := Deque.lookAt_eq_some h
    exact .still rfl rfl rfl rfl rfl (.inl rfl)
  | atIndex malloc index =>
    rw [Deque.step] at h
    split at h
    · cases h
      exact .still rfl rfl rfl rfl rfl (.inl rfl)
    · obtain ⟨i, -, -, -, rfl⟩ := Deque.lookAt_eq_some h
      exact .still rfl rfl rfl rfl rfl (.inl rfl)
  | iteratorNew malloc dir => exact ofIter rfl rfl h
  | iteratorNewFromNode malloc node dir => exact ofIter rfl rfl h
  | iteratorNext it =>
    cases it with
    | none => cases h
    | some i =>
      obtain ⟨it, -, hadv⟩ := Option.bind_eq_some_iff.mp h
      obtain ⟨-, ⟨-, rfl⟩ | rfl⟩ := Deque.advance_eq_some hadv
      · exact .still rfl rfl rfl rfl rfl (.inl rfl)
      · exact .still rfl rfl rfl rfl rfl (.inl rfl)
  | iteratorDestroy it =>
    cases it with
    | none => cases h; exact .still rfl rfl rfl rfl rfl (.inl rfl)
    | some i =>
      rw [Deque.step] at h
      split at h
      · cases h
        exact .still rfl rfl rfl rfl rfl (.inl rfl)
      · cases h
  | setFree free => cases h; exact .still rfl rfl rfl rfl rfl (.inr rfl)
  | setMatch m => cases h; exact .still rfl rfl rfl rfl rfl (.inl rfl)
  | freeNode node =>
    cases node with
    | none => cases h; exact .still rfl rfl rfl rfl rfl (.inl rfl)
    | some a =>
      rw [Deque.step] at h
      split at h
      · cases h
        exact .release a rfl ‹_› rfl
      · cases h

/-! ## The account -/

/-- The values in the nodes of a heap. -/
def heldValues (h : NodeHeap V) : Multiset V := h.entries.map fun n ↦ n.2.data

/-- The values in the nodes of the list and in those beside it. -/
def Deque.values (d : Deque V) : Multiset V :=
  (d.list.map Prod.snd : Multiset V) + d.loose.entries.map fun n ↦ n.2

/-- A command after which all values are still accounted for: the client leaves the callback set,
and does not free a node on its own. -/
def Command.accounted : Command V → Prop
  | .setFree free => free = true
  | .freeNode node => node = none
  | _ => True

theorem entries_eq_cons {β : Type} {h : Finmap fun _ : ℕ ↦ β} {a : ℕ} {v : β}
    (ha : h.lookup a = some v) : h.entries = ⟨a, v⟩ ::ₘ (h.erase a).entries := by
  have hinsert : (h.erase a).insert a v = h := by
    apply Finmap.ext_lookup
    intro b
    rcases eq_or_ne b a with rfl | hne
    · rw [Finmap.lookup_insert, ha]
    · rw [Finmap.lookup_insert_of_ne _ hne, Finmap.lookup_erase_ne hne]
  rw [← Finmap.entries_insert_of_notMem (Finmap.notMem_erase_self), hinsert]

theorem heldValues_eq {h : NodeHeap V} {loose : Finmap fun _ : ℕ ↦ V}
    (hsame : ∀ a, h.lookup a = (loose.lookup a).map fun v ↦ ⟨v, none, none⟩) :
    heldValues h = loose.entries.map fun n ↦ n.2 := by
  have hentries : h.entries
      = loose.entries.map fun n ↦ (⟨n.1, ⟨n.2, none, none⟩⟩ : Σ _ : ℕ, LinkedNode V) := by
    rw [Multiset.Nodup.ext h.nodup_entries]
    · rintro ⟨a, n⟩
      rw [← Finmap.lookup_eq_some_iff, hsame, Multiset.mem_map, Option.map_eq_some_iff]
      constructor
      · rintro ⟨v, hv, rfl⟩
        exact ⟨⟨a, v⟩, Finmap.lookup_eq_some_iff.mp hv, rfl⟩
      · rintro ⟨⟨b, v⟩, hv, heq⟩
        cases heq
        exact ⟨v, Finmap.lookup_eq_some_iff.mpr hv, rfl⟩
    · apply loose.nodup_entries.map
      rintro ⟨a, v⟩ ⟨b, w⟩ heq
      cases heq
      rfl
  rw [heldValues, hentries, Multiset.map_map]
  rfl

theorem coe_values_middle (l₁ l₂ : List (ℕ × V)) (x : ℕ × V) :
    (((l₁ ++ x :: l₂).map Prod.snd : List V) : Multiset V)
      = x.2 ::ₘ (((l₁ ++ l₂).map Prod.snd : List V) : Multiset V) :=
  Multiset.coe_eq_coe.mpr (List.perm_middle.map Prod.snd)

variable [DecidableEq V]

theorem Deque.Step.free_eq (h : d.Step e d') (hacc : e.1.accounted) (hfree : d.free = true) :
    d'.free = true := by
  obtain ⟨c, r⟩ := e
  cases h.effect with
  | make a v _ _ hd => rw [hd, ← hfree]
  | release a _ _ hd => rw [hd, ← hfree]
  | push l₁ x l₂ _ _ _ _ hd => rw [hd, ← hfree]
  | pop l₁ x l₂ _ _ _ hd => rw [hd, ← hfree]
  | remove l₁ x l₂ _ _ _ hd => rw [hd, ← hfree]
  | still _ _ _ _ _ hset =>
    rcases hset with heq | rfl
    · rw [heq, hfree]
    · exact hacc

/-- **One command.** What it creates is added to the account, and nothing else changes it. -/
theorem Deque.Step.account {s : State V} (hr : Represents s d) (h : d.Step e d')
    (hacc : e.1.accounted) (hfree : d.free = true) :
    (d'.freed : Multiset V) + d'.values = d.freed + d.values + (created e).toList := by
  obtain ⟨c, r⟩ := e
  cases h.effect with
  | still hlist hloose hfreed hc _ _ =>
    rw [Deque.values, Deque.values, hlist, hloose, hfreed, hc]
    exact (add_zero _).symm
  | make a v hcmd ha hd =>
    obtain rfl : c = .nodeNew (some a) v := hcmd
    rw [hd, Deque.values, Deque.values, Finmap.entries_insert_of_notMem ha, Multiset.map_cons,
      ← Multiset.singleton_add, add_left_comm (d.list.map Prod.snd : Multiset V), add_left_comm,
      add_comm]
    rfl
  | release a hcmd _ _ =>
    obtain rfl : c = .freeNode (some a) := hcmd
    cases hacc
  | push l₁ x l₂ hl hx hc _ hd =>
    rw [hd, Deque.values, Deque.values, hl, entries_eq_cons hx, hc, coe_values_middle,
      Multiset.map_cons, Multiset.cons_add, Multiset.add_cons, Multiset.add_cons,
      Multiset.add_cons, Option.toList_none, Multiset.coe_nil, add_zero]
  | pop l₁ x l₂ hl hc _ hd =>
    have hout : x.1 ∉ d.loose := by
      rw [← Finmap.lookup_eq_none]
      apply hr.disjoint
      rw [Deque.addresses, hl, List.map_append]
      exact List.mem_append_right _ List.mem_cons_self
    rw [hd, Deque.values, Deque.values, hl, Finmap.entries_insert_of_notMem hout, hc,
      coe_values_middle, Multiset.map_cons, Multiset.add_cons, Multiset.add_cons,
      Multiset.cons_add, Multiset.add_cons, Option.toList_none, Multiset.coe_nil, add_zero]
  | remove l₁ x l₂ hl hc _ hd =>
    have hfreed : ((d.freed ++ [x.2] : List V) : Multiset V) = x.2 ::ₘ (d.freed : Multiset V) :=
      Multiset.coe_eq_coe.mpr (List.perm_append_singleton _ _)
    rw [hd, Deque.values, Deque.values, hl, hc, if_pos hfree, coe_values_middle]
    dsimp only
    rw [hfreed, Multiset.cons_add, Multiset.cons_add, Multiset.add_cons, Option.toList_none,
      Multiset.coe_nil, add_zero]

theorem account_of_run {s : State V} (hr : Represents s d) {es : List (Command V × Option ℕ)}
    (hrun : Run Deque.Step d es d') (hacc : ∀ e ∈ es, e.1.accounted) (hfree : d.free = true) :
    d'.free = true ∧ (d'.freed : Multiset V) + d'.values
      = d.freed + d.values + (es.filterMap created : Multiset V) := by
  induction hrun generalizing s with
  | nil d => exact ⟨hfree, (add_zero ((d.freed : Multiset V) + d.values)).symm⟩
  | @cons d d₁ d' e es hstep _ ih =>
    have he := hacc e List.mem_cons_self
    obtain ⟨t, -, ht⟩ := hr.exec hstep
    obtain ⟨hfree', hrest⟩ := ih ht (fun e' he' ↦ hacc e' (List.mem_cons_of_mem _ he'))
      (hstep.free_eq he hfree)
    refine ⟨hfree', ?_⟩
    rw [hrest, hstep.account hr he hfree, List.filterMap_cons, add_assoc]
    cases created e <;> rfl

/-- **Release.** With the `free` callback set from the beginning, `list_destroy` at the end of any
run leaves each value that a node was made for in one of two places: it was passed to the callback,
once, or it is in a node outside the list. -/
theorem list_destroy_accounts {es : List (Command V × Option ℕ)}
    (hrun : Run Deque.Step Deque.empty ((.setFree true, none) :: es) d)
    (hacc : ∀ e ∈ es, e.1.accounted) :
    ∃ s h freed, Run State.Step listNew ((.setFree true, none) :: es) s
      ∧ listDestroy s = .ok (h, freed)
      ∧ (∀ a, a ∈ h ↔ a ∈ d.loose)
      ∧ (freed : Multiset V) + heldValues h = (es.filterMap created : Multiset V) := by
  obtain ⟨s, hs, hr⟩ := represents_empty.run hrun
  obtain ⟨h, hdestroy, hlookup⟩ := hr.listDestroy
  refine ⟨s, h, _, hs, hdestroy, ?_, ?_⟩
  · intro a
    rw [← Finmap.lookup_isSome, hlookup, Option.isSome_map, Finmap.lookup_isSome]
  cases hrun with
  | cons hset hrest =>
    cases hset
    have hr₀ : Represents { (listNew : State V) with self := { listNew.self with free := true } }
        { (Deque.empty : Deque V) with free := true } := { represents_empty with free := rfl }
    obtain ⟨hfree, haccount⟩ := account_of_run hr₀ hrest hacc rfl
    have hzero : ((({ (Deque.empty : Deque V) with free := true }).freed : Multiset V)
        + ({ (Deque.empty : Deque V) with free := true } : Deque V).values) = 0 := rfl
    rw [hzero, zero_add] at haccount
    rw [if_pos hfree, heldValues_eq hlookup, ← haccount, Deque.values, ← Multiset.coe_add,
      add_assoc]

/-- Two nodes are pushed, and one is taken out again. -/
def pushPop : List (Command ℕ × Option ℕ) :=
  [(.nodeNew (some 1) 10, some 1), (.rpush (some 1), some 1), (.nodeNew (some 2) 20, some 2),
    (.lpush (some 2), some 2), (.rpop, some 1)]

theorem list_destroy_accounts_two : ∃ (d : Deque ℕ) (s : State ℕ) (h : NodeHeap ℕ)
    (freed : List ℕ), d.addresses = [2]
    ∧ Run State.Step listNew ((.setFree true, none) :: pushPop) s
    ∧ listDestroy s = .ok (h, freed)
    ∧ (∀ a, a ∈ h ↔ a ∈ d.loose)
    ∧ (freed : Multiset ℕ) + heldValues h = (pushPop.filterMap created : Multiset ℕ) := by
  have hrun : Run Deque.Step Deque.empty ((.setFree true, none) :: pushPop) _ := .cons rfl <|
    .cons rfl <| .cons rfl <| .cons rfl <| .cons rfl <| .cons rfl <| .nil _
  obtain ⟨s, h, freed, hall⟩ := list_destroy_accounts hrun (by simp [pushPop, Command.accounted])
  exact ⟨_, s, h, freed, rfl, hall⟩

end AllProjects.DoublyLinked
