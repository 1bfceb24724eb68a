import AllProjects.Memory.Bytes

/-!
# Doubly linked lists on a heap

A heap maps addresses to nodes, and a pointer is an address or NULL. A stretch of linked nodes is
described by the list of its addresses and contents, together with the pointers that enter and leave
it: `Linked h p l q` says that the nodes of `l` are linked both ways, that the first one points back
to `p` and that the last one points on to `q`. Such stretches are concatenated and cut, which is
what all rules below come from; they hold for nodes with any contents.
-/

namespace AllProjects

variable {α : Type}

/-- A node. `none` is NULL. -/
structure LinkedNode (α : Type) where
  data : α
  next : Option ℕ
  prev : Option ℕ
  deriving DecidableEq

/-- The nodes that are allocated. -/
abbrev NodeHeap (α : Type) := Finmap fun _ : ℕ ↦ LinkedNode α

namespace NodeHeap

/-- Read the node behind a pointer. -/
def deref (h : NodeHeap α) : Option ℕ → Except Fault (LinkedNode α)
  | none => .error .segv
  | some a =>
    match h.lookup a with
    | some n => .ok n
    | none => .error .segv

/-- `p->next = q`. -/
def setNext (h : NodeHeap α) (p q : Option ℕ) : Except Fault (NodeHeap α) :=
  match p with
  | none => .error .segv
  | some a =>
    match h.lookup a with
    | some n => .ok (h.insert a { n with next := q })
    | none => .error .segv

/-- `while (p) { q = p; p = p->next; free(q); }`. Every round takes a node from the heap, so a bound
of their number is never in the way: when it is reached the heap is empty. -/
def freeList : ℕ → NodeHeap α → Option ℕ → Except Fault (NodeHeap α)
  | _, h, none => .ok h
  | 0, _, some _ => .error .segv
  | k + 1, h, some a =>
    match h.lookup a with
    | some n => freeList k (h.erase a) n.next
    | none => .error .segv

theorem deref_some {h : NodeHeap α} {a : ℕ} {n : LinkedNode α} (ha : h.lookup a = some n) :
    h.deref (some a) = .ok n := by
  rw [deref, ha]

theorem setNext_some {h : NodeHeap α} {a : ℕ} {n : LinkedNode α} (ha : h.lookup a = some n)
    (q : Option ℕ) : h.setNext (some a) q = .ok (h.insert a { n with next := q }) := by
  rw [setNext, ha]

end NodeHeap

/-! ## Linked stretches -/

/-- The pointer to the first node of `l`, or `q` when there is none. -/
def firstPtr (l : List (ℕ × α)) (q : Option ℕ) : Option ℕ := (l.head?.map Prod.fst).or q

/-- The pointer to the last node of `l`, or `p` when there is none. -/
def lastPtr (p : Option ℕ) (l : List (ℕ × α)) : Option ℕ := (l.getLast?.map Prod.fst).or p

@[simp] theorem firstPtr_nil (q : Option ℕ) : firstPtr ([] : List (ℕ × α)) q = q := rfl

@[simp] theorem firstPtr_cons (x : ℕ × α) (l : List (ℕ × α)) (q : Option ℕ) :
    firstPtr (x :: l) q = some x.1 := rfl

@[simp] theorem lastPtr_nil (p : Option ℕ) : lastPtr p ([] : List (ℕ × α)) = p := rfl

@[simp] theorem lastPtr_concat (p : Option ℕ) (l : List (ℕ × α)) (x : ℕ × α) :
    lastPtr p (l ++ [x]) = some x.1 := by
  rw [lastPtr, List.getLast?_concat]
  rfl

theorem lastPtr_cons (p : Option ℕ) (x : ℕ × α) (l : List (ℕ × α)) :
    lastPtr p (x :: l) = lastPtr (some x.1) l := by
  cases hl : l.getLast? with
  | none =>
    obtain rfl := List.getLast?_eq_none_iff.mp hl
    rfl
  | some y => rw [lastPtr, lastPtr, List.getLast?_cons, hl]; rfl

theorem firstPtr_append (l l' : List (ℕ × α)) (q : Option ℕ) :
    firstPtr (l ++ l') q = firstPtr l (firstPtr l' q) := by
  cases l with
  | nil => rfl
  | cons x l => rfl

/-- The nodes of `l` are linked both ways, back to `p` and on to `q`. -/
def Linked (h : NodeHeap α) : Option ℕ → List (ℕ × α) → Option ℕ → Prop
  | _, [], _ => True
  | p, x :: l, q => h.lookup x.1 = some ⟨x.2, firstPtr l q, p⟩ ∧ Linked h (some x.1) l q

theorem linked_append {h : NodeHeap α} {p q : Option ℕ} {l l' : List (ℕ × α)} :
    Linked h p (l ++ l') q ↔ Linked h p l (firstPtr l' q) ∧ Linked h (lastPtr p l) l' q := by
  induction l generalizing p with
  | nil => exact ⟨fun hl ↦ ⟨trivial, hl⟩, fun hl ↦ hl.2⟩
  | cons x l ih =>
    rw [List.cons_append, Linked, Linked, ih, firstPtr_append, lastPtr_cons, and_assoc]

theorem Linked.congr {h h' : NodeHeap α} {p q : Option ℕ} {l : List (ℕ × α)}
    (hl : Linked h p l q) (hsame : ∀ x ∈ l, h'.lookup x.1 = h.lookup x.1) : Linked h' p l q := by
  induction l generalizing p with
  | nil => trivial
  | cons x l ih =>
    refine ⟨(hsame x List.mem_cons_self).trans hl.1, ih hl.2 ?_⟩
    intro y hy
    exact hsame y (List.mem_cons_of_mem _ hy)

theorem Linked.lookup {h : NodeHeap α} {p q : Option ℕ} {l l' : List (ℕ × α)} {x : ℕ × α}
    (hl : Linked h p (l ++ x :: l') q) :
    h.lookup x.1 = some ⟨x.2, firstPtr l' q, lastPtr p l⟩ := (linked_append.mp hl).2.1

theorem Linked.exists_lookup {h : NodeHeap α} {p q : Option ℕ} {l : List (ℕ × α)}
    (hl : Linked h p l q) {x : ℕ × α} (hx : x ∈ l) : ∃ n, h.lookup x.1 = some n ∧ n.data = x.2 := by
  obtain ⟨l₁, l₂, rfl⟩ := List.append_of_mem hx
  exact ⟨_, hl.lookup, rfl⟩

/-! ## Traversals -/

/-- What is visited on the way from a pointer to NULL. -/
inductive Walk (follow : LinkedNode α → Option ℕ) (h : NodeHeap α) :
    Option ℕ → List (ℕ × α) → Prop
  | null : Walk follow h none []
  | node {a : ℕ} {n : LinkedNode α} {l : List (ℕ × α)} : h.lookup a = some n →
      Walk follow h (follow n) l → Walk follow h (some a) ((a, n.data) :: l)

/-- A pointer leads to one sequence of nodes. -/
theorem Walk.unique {follow : LinkedNode α → Option ℕ} {h : NodeHeap α} {p : Option ℕ}
    {l l' : List (ℕ × α)} (hl : Walk follow h p l) (hl' : Walk follow h p l') : l = l' := by
  induction hl generalizing l' with
  | null =>
    cases hl'
    rfl
  | node ha _ ih =>
    cases hl' with
    | node ha' hrest =>
      rw [ha] at ha'
      obtain rfl := Option.some.inj ha'
      rw [ih hrest]

theorem Linked.walk_next {h : NodeHeap α} {p : Option ℕ} {l : List (ℕ × α)}
    (hl : Linked h p l none) : Walk LinkedNode.next h (firstPtr l none) l := by
  induction l generalizing p with
  | nil => exact .null
  | cons x l ih => exact .node (n := ⟨x.2, firstPtr l none, p⟩) hl.1 (ih hl.2)

theorem Linked.walk_prev {h : NodeHeap α} {q : Option ℕ} {l : List (ℕ × α)}
    (hl : Linked h none l q) : Walk LinkedNode.prev h (lastPtr none l) l.reverse := by
  induction l using List.reverseRecOn generalizing q with
  | nil => exact .null
  | append_singleton l x ih =>
    rw [lastPtr_concat, List.reverse_concat]
    exact .node (n := ⟨x.2, q, lastPtr none l⟩) hl.lookup (ih (linked_append.mp hl).1)

/-! ## Lists -/

/-- The list `l` between `head` and `tail`. -/
structure IsList (h : NodeHeap α) (l : List (ℕ × α)) (head tail : Option ℕ) : Prop where
  linked : Linked h none l none
  nodup : (l.map Prod.fst).Nodup
  head_eq : head = firstPtr l none
  tail_eq : tail = lastPtr none l

namespace IsList

variable {h : NodeHeap α} {l : List (ℕ × α)} {head tail : Option ℕ}

theorem nil (h : NodeHeap α) : IsList h [] none none := ⟨trivial, List.nodup_nil, rfl, rfl⟩

theorem congr (hl : IsList h l head tail) {h' : NodeHeap α}
    (hsame : ∀ x ∈ l, h'.lookup x.1 = h.lookup x.1) : IsList h' l head tail :=
  ⟨hl.linked.congr hsame, hl.nodup, hl.head_eq, hl.tail_eq⟩

theorem unique (hl : IsList h l head tail) {l' : List (ℕ × α)} {tail' : Option ℕ}
    (hl' : IsList h l' head tail') : l = l' := by
  have hwalk := hl.linked.walk_next
  rw [← hl.head_eq, hl'.head_eq] at hwalk
  exact hwalk.unique hl'.linked.walk_next

theorem ne_of_fresh (hl : IsList h l head tail) {a : ℕ} (ha : h.lookup a = none) {x : ℕ × α}
    (hx : x ∈ l) : x.1 ≠ a := by
  rintro rfl
  obtain ⟨n, hn, -⟩ := hl.linked.exists_lookup hx
  rw [ha] at hn
  cases hn

theorem single (h : NodeHeap α) (a : ℕ) (x : α) :
    IsList (h.insert a ⟨x, none, none⟩) [(a, x)] (some a) (some a) :=
  ⟨⟨Finmap.lookup_insert h, trivial⟩, List.nodup_singleton a, rfl, rfl⟩

/-- **Append a node.** It points back to the last node, which is made to point on to it. -/
theorem push (hl : IsList h l head tail) (hne : l ≠ []) {a : ℕ} (ha : h.lookup a = none) (x : α) :
    ∃ h', NodeHeap.setNext (h.insert a ⟨x, none, tail⟩) tail (some a) = .ok h'
      ∧ IsList h' (l ++ [(a, x)]) head (some a)
      ∧ ∀ b, b ∉ (l ++ [(a, x)]).map Prod.fst → h'.lookup b = h.lookup b := by
  obtain ⟨l, c, rfl⟩ : ∃ l₀ c, l = l₀ ++ [c] := ⟨_, _, (List.dropLast_append_getLast hne).symm⟩
  have hfresh : ∀ y ∈ l ++ [c], y.1 ≠ a := fun y hy ↦ hl.ne_of_fresh ha hy
  have hca : c.1 ≠ a := hfresh c (by simp)
  have htail : tail = some c.1 := hl.tail_eq.trans (lastPtr_concat none l c)
  obtain ⟨hfront, hc, -⟩ := linked_append.mp hl.linked
  have hlc : ∀ y ∈ l, y.1 ≠ c.1 := by
    intro y hy
    have hnodup := hl.nodup
    rw [List.map_append, List.nodup_append] at hnodup
    exact hnodup.2.2 y.1 (List.mem_map_of_mem hy) c.1 (by simp)
  rw [htail, NodeHeap.setNext_some ((Finmap.lookup_insert_of_ne h hca).trans hc)]
  refine ⟨_, rfl, ⟨?_, ?_, ?_, ?_⟩, ?_⟩
  · rw [List.append_assoc, linked_append]
    constructor
    · -- the front of the list is not touched
      apply hfront.congr
      intro y hy
      rw [Finmap.lookup_insert_of_ne _ (hlc y hy), Finmap.lookup_insert_of_ne _ (hfresh y _)]
      exact List.mem_append_left _ hy
    · refine ⟨Finmap.lookup_insert _, ?_, trivial⟩
      rw [Finmap.lookup_insert_of_ne _ (Ne.symm hca), Finmap.lookup_insert]
      rfl
  · rw [List.map_append, List.nodup_append]
    refine ⟨hl.nodup, List.nodup_singleton a, ?_⟩
    intro b hb b' hb'
    obtain ⟨y, hy, rfl⟩ := List.mem_map.mp hb
    obtain rfl := List.mem_singleton.mp hb'
    exact hfresh y hy
  · rw [hl.head_eq, firstPtr_append (l ++ [c])]
    cases l <;> rfl
  · exact (lastPtr_concat none (l ++ [c]) (a, x)).symm
  · intro b hb
    rw [List.map_append, List.mem_append, List.map_append, List.mem_append] at hb
    have hbc : b ≠ c.1 := fun heq ↦ hb (.inl (.inr (List.mem_singleton.mpr heq)))
    have hba : b ≠ a := fun heq ↦ hb (.inr (List.mem_singleton.mpr heq))
    rw [Finmap.lookup_insert_of_ne _ hbc, Finmap.lookup_insert_of_ne _ hba]

/-! ## Positions -/

theorem lookup_get (hl : IsList h l head tail) {i : ℕ} {x : ℕ × α} (hx : l[i]? = some x) :
    h.lookup x.1 = some ⟨x.2, l[i + 1]?.map Prod.fst,
      if i = 0 then none else l[i - 1]?.map Prod.fst⟩ := by
  obtain ⟨hi, rfl⟩ := List.getElem?_eq_some_iff.mp hx
  have hsplit : l = l.take i ++ l[i] :: l.drop (i + 1) := by
    rw [← List.drop_eq_getElem_cons hi, List.take_append_drop]
  have hlink := hl.linked
  rw [hsplit] at hlink
  rw [hlink.lookup, firstPtr, lastPtr, List.head?_drop, List.getLast?_take, Option.or_none,
    Option.or_none]
  by_cases h0 : i = 0
  · rw [if_pos h0, if_pos h0]
    rfl
  · have hprev : i - 1 < l.length := by omega
    rw [if_neg h0, if_neg h0, List.getElem?_eq_getElem hprev]
    rfl

theorem head_eq_get (hl : IsList h l head tail) : head = l[0]?.map Prod.fst := by
  rw [hl.head_eq, firstPtr, Option.or_none, List.head?_eq_getElem?]

theorem tail_eq_get (hl : IsList h l head tail) : tail = l[l.length - 1]?.map Prod.fst := by
  rw [hl.tail_eq, lastPtr, Option.or_none, List.getLast?_eq_getElem?]

theorem eq_of_addr (hl : IsList h l head tail) {i j : ℕ} {x y : ℕ × α} (hx : l[i]? = some x)
    (hy : l[j]? = some y) (heq : x.1 = y.1) : i = j := by
  have hi : i < (l.map Prod.fst).length := by
    rw [List.length_map]
    exact (List.getElem?_eq_some_iff.mp hx).1
  apply (List.getElem?_inj hi hl.nodup).mp
  rw [List.getElem?_map, List.getElem?_map, hx, hy]
  exact congrArg some heq

/-! ## Release -/

theorem length_le_card (hl : IsList h l head tail) : l.length ≤ h.keys.card := by
  have hsub : (l.map Prod.fst).toFinset ⊆ h.keys := by
    intro a ha
    obtain ⟨x, hx, rfl⟩ := List.mem_map.mp (List.mem_toFinset.mp ha)
    obtain ⟨n, hn, -⟩ := hl.linked.exists_lookup hx
    exact Finmap.mem_keys.mpr (Finmap.mem_of_lookup_eq_some hn)
  calc l.length = (l.map Prod.fst).toFinset.card := by
        rw [List.toFinset_card_of_nodup hl.nodup, List.length_map]
    _ ≤ h.keys.card := Finset.card_le_card hsub

end IsList

/-- The loop frees the nodes of the list and nothing else. -/
theorem Linked.freeList {h : NodeHeap α} {p : Option ℕ} {l : List (ℕ × α)}
    (hl : Linked h p l none) (hnodup : (l.map Prod.fst).Nodup) {k : ℕ} (hk : l.length ≤ k) :
    ∃ h', NodeHeap.freeList k h (firstPtr l none) = .ok h'
      ∧ ∀ b, b ∉ l.map Prod.fst → h'.lookup b = h.lookup b := by
  induction l generalizing h p k with
  | nil => cases k <;> exact ⟨h, rfl, fun _ _ ↦ rfl⟩
  | cons x l ih =>
    cases k with
    | zero => exact absurd hk (Nat.not_succ_le_zero _)
    | succ k =>
      rw [List.map_cons, List.nodup_cons] at hnodup
      have hrest : Linked (h.erase x.1) (some x.1) l none := by
        apply hl.2.congr
        intro y hy
        apply Finmap.lookup_erase_ne
        rintro heq
        exact hnodup.1 (List.mem_map.mpr ⟨y, hy, heq⟩)
      obtain ⟨h', hfree, hsame⟩ := ih hrest hnodup.2 (Nat.le_of_succ_le_succ hk)
      refine ⟨h', ?_, ?_⟩
      · rw [firstPtr_cons, NodeHeap.freeList, hl.1]
        exact hfree
      · intro b hb
        rw [List.map_cons, List.mem_cons, not_or] at hb
        rw [hsame b hb.2, Finmap.lookup_erase_ne hb.1]

/-- **Release a list.** Nodes outside it stay. -/
theorem IsList.freeList {h : NodeHeap α} {l : List (ℕ × α)} {head tail : Option ℕ}
    (hl : IsList h l head tail) : ∃ h', NodeHeap.freeList h.keys.card h head = .ok h'
      ∧ ∀ b, b ∉ l.map Prod.fst → h'.lookup b = h.lookup b := by
  rw [hl.head_eq]
  exact hl.linked.freeList hl.nodup hl.length_le_card

end AllProjects
