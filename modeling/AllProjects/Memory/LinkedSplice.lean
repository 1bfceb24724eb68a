import AllProjects.Memory.LinkedList

/-!
# Splicing linked lists

`p->next = q` and `q->prev = p` change one field of one node. Written as total operations that do
nothing on NULL, they have one lookup equation each, and a pair of them joins two stretches of a
list into one. Pushing a node at either end joins a stretch with a single node; popping one and
unlinking one in the middle join what stands around it.
-/

namespace AllProjects

variable {α : Type}

namespace NodeHeap

/-- `p->prev = q`. -/
def setPrev (h : NodeHeap α) (p q : Option ℕ) : Except Fault (NodeHeap α) :=
  match p with
  | none => .error .segv
  | some a =>
    match h.lookup a with
    | some n => .ok (h.insert a { n with prev := q })
    | none => .error .segv

/-- Change the node at `a`, if there is one. -/
def modify (h : NodeHeap α) (a : ℕ) (f : LinkedNode α → LinkedNode α) : NodeHeap α :=
  match h.lookup a with
  | some n => h.insert a (f n)
  | none => h

/-- `if (p) p->next = q`. -/
def linkNext (h : NodeHeap α) (p q : Option ℕ) : NodeHeap α :=
  match p with
  | some a => h.modify a fun n ↦ { n with next := q }
  | none => h

/-- `if (p) p->prev = q`. -/
def linkPrev (h : NodeHeap α) (p q : Option ℕ) : NodeHeap α :=
  match p with
  | some a => h.modify a fun n ↦ { n with prev := q }
  | none => h

theorem lookup_modify (h : NodeHeap α) (a b : ℕ) (f : LinkedNode α → LinkedNode α) :
    (h.modify a f).lookup b = if b = a then (h.lookup b).map f else h.lookup b := by
  rw [modify]
  rcases eq_or_ne b a with rfl | hne
  · rw [if_pos rfl]
    cases hb : h.lookup b with
    | some n => exact Finmap.lookup_insert h
    | none => exact hb
  · rw [if_neg hne]
    cases h.lookup a with
    | some n => exact Finmap.lookup_insert_of_ne h hne
    | none => rfl

@[simp] theorem linkNext_none (h : NodeHeap α) (q : Option ℕ) : h.linkNext none q = h := rfl

@[simp] theorem linkPrev_none (h : NodeHeap α) (q : Option ℕ) : h.linkPrev none q = h := rfl

theorem lookup_linkNext (h : NodeHeap α) (a b : ℕ) (q : Option ℕ) :
    (h.linkNext (some a) q).lookup b
      = if b = a then (h.lookup b).map fun n ↦ { n with next := q } else h.lookup b :=
  h.lookup_modify a b _

theorem lookup_linkPrev (h : NodeHeap α) (a b : ℕ) (q : Option ℕ) :
    (h.linkPrev (some a) q).lookup b
      = if b = a then (h.lookup b).map fun n ↦ { n with prev := q } else h.lookup b :=
  h.lookup_modify a b _

theorem lookup_linkNext_of_ne (h : NodeHeap α) {p : Option ℕ} {b : ℕ} (hb : p ≠ some b)
    (q : Option ℕ) : (h.linkNext p q).lookup b = h.lookup b := by
  cases p with
  | none => rfl
  | some a => rw [lookup_linkNext, if_neg fun heq ↦ hb (congrArg some heq.symm)]

theorem lookup_linkPrev_of_ne (h : NodeHeap α) {p : Option ℕ} {b : ℕ} (hb : p ≠ some b)
    (q : Option ℕ) : (h.linkPrev p q).lookup b = h.lookup b := by
  cases p with
  | none => rfl
  | some a => rw [lookup_linkPrev, if_neg fun heq ↦ hb (congrArg some heq.symm)]

theorem setNext_eq_linkNext {h : NodeHeap α} {a : ℕ} {n : LinkedNode α} (ha : h.lookup a = some n)
    (q : Option ℕ) : h.setNext (some a) q = .ok (h.linkNext (some a) q) := by
  rw [setNext_some ha, linkNext, modify, ha]

theorem setPrev_eq_linkPrev {h : NodeHeap α} {a : ℕ} {n : LinkedNode α} (ha : h.lookup a = some n)
    (q : Option ℕ) : h.setPrev (some a) q = .ok (h.linkPrev (some a) q) := by
  rw [setPrev, ha, linkPrev, modify, ha]

theorem linkNext_self {h : NodeHeap α} {a : ℕ} {n : LinkedNode α} (ha : h.lookup a = some n)
    {q : Option ℕ} (hq : n.next = q) : h.linkNext (some a) q = h := by
  apply Finmap.ext_lookup
  intro b
  rw [lookup_linkNext]
  split
  · rename_i heq
    rw [heq, ha, Option.map_some, ← hq]
  · rfl

theorem linkPrev_self {h : NodeHeap α} {a : ℕ} {n : LinkedNode α} (ha : h.lookup a = some n)
    {q : Option ℕ} (hq : n.prev = q) : h.linkPrev (some a) q = h := by
  apply Finmap.ext_lookup
  intro b
  rw [lookup_linkPrev]
  split
  · rename_i heq
    rw [heq, ha, Option.map_some, ← hq]
  · rfl

theorem linkNext_linkPrev (h : NodeHeap α) (p q r s : Option ℕ) :
    (h.linkNext p q).linkPrev r s = (h.linkPrev r s).linkNext p q := by
  cases p with
  | none => rfl
  | some a =>
    cases r with
    | none => rfl
    | some b =>
      apply Finmap.ext_lookup
      intro c
      rw [lookup_linkPrev, lookup_linkNext, lookup_linkNext, lookup_linkPrev]
      split <;> split <;> cases h.lookup c <;> rfl

/-- A node that points nowhere. -/
def detach (h : NodeHeap α) (a : ℕ) : NodeHeap α :=
  (h.linkPrev (some a) none).linkNext (some a) none

theorem lookup_detach (h : NodeHeap α) (a b : ℕ) : (h.detach a).lookup b
    = if b = a then (h.lookup b).map fun n ↦ ⟨n.data, none, none⟩ else h.lookup b := by
  rw [detach, lookup_linkNext, lookup_linkPrev]
  split
  · rw [Option.map_map]
    rfl
  · rfl

theorem setPrev_bind_setNext {β : Type} {h : NodeHeap α} {a : ℕ} {n : LinkedNode α}
    (ha : h.lookup a = some n) (f : NodeHeap α → Except Fault β) :
    (h.setPrev (some a) none >>= fun h ↦ h.setNext (some a) none >>= f) = f (h.detach a) := by
  have ha' : (h.linkPrev (some a) none).lookup a = some { n with prev := none } := by
    rw [lookup_linkPrev, if_pos rfl, ha]
    rfl
  rw [setPrev_eq_linkPrev ha, Except.ok_bind_eq, setNext_eq_linkNext ha', Except.ok_bind_eq]
  rfl

end NodeHeap

/-! ## The ends of a stretch -/

theorem firstPtr_eq_some {l : List (ℕ × α)} {a : ℕ} (ha : firstPtr l none = some a) :
    ∃ v, (a, v) ∈ l := by
  cases l with
  | nil => cases ha
  | cons x l =>
    obtain rfl := Option.some.inj ha
    exact ⟨x.2, List.mem_cons_self⟩

theorem lastPtr_eq_some {l : List (ℕ × α)} {a : ℕ} (ha : lastPtr none l = some a) :
    ∃ v, (a, v) ∈ l := by
  rcases List.eq_nil_or_concat l with rfl | ⟨l, x, rfl⟩
  · cases ha
  · rw [List.concat_eq_append, lastPtr_concat] at ha
    obtain rfl := Option.some.inj ha
    exact ⟨x.2, by simp⟩

theorem lastPtr_append (p : Option ℕ) (l l' : List (ℕ × α)) :
    lastPtr p (l ++ l') = lastPtr (lastPtr p l) l' := by
  rcases List.eq_nil_or_concat l' with rfl | ⟨l', x, rfl⟩
  · rw [List.append_nil, lastPtr_nil]
  · rw [List.concat_eq_append, ← List.append_assoc, lastPtr_concat, lastPtr_concat]

theorem firstPtr_ne {l : List (ℕ × α)} {b : ℕ} (hb : b ∉ l.map Prod.fst) :
    firstPtr l none ≠ some b := by
  intro heq
  obtain ⟨v, hv⟩ := firstPtr_eq_some heq
  exact hb (List.mem_map.mpr ⟨(b, v), hv, rfl⟩)

theorem lastPtr_ne {l : List (ℕ × α)} {b : ℕ} (hb : b ∉ l.map Prod.fst) :
    lastPtr none l ≠ some b := by
  intro heq
  obtain ⟨v, hv⟩ := lastPtr_eq_some heq
  exact hb (List.mem_map.mpr ⟨(b, v), hv, rfl⟩)

namespace Linked

variable {h : NodeHeap α} {p q : Option ℕ} {l l₁ l₂ : List (ℕ × α)}

theorem setLast (hl : Linked h p l q) (hnodup : (l.map Prod.fst).Nodup) (r : Option ℕ) :
    Linked (h.linkNext (lastPtr none l) r) p l r := by
  rcases List.eq_nil_or_concat l with rfl | ⟨l, x, rfl⟩
  · trivial
  rw [List.concat_eq_append] at hl hnodup ⊢
  obtain ⟨hfront, hx, -⟩ := linked_append.mp hl
  rw [List.map_append, List.nodup_append] at hnodup
  rw [lastPtr_concat, linked_append]
  refine ⟨hfront.congr ?_, ?_, trivial⟩
  · intro y hy
    apply NodeHeap.lookup_linkNext_of_ne
    intro heq
    exact hnodup.2.2 y.1 (List.mem_map_of_mem hy) x.1 (by simp) (Option.some.inj heq).symm
  · rw [NodeHeap.lookup_linkNext, if_pos rfl, hx]
    rfl

theorem setFirst (hl : Linked h p l q) (hnodup : (l.map Prod.fst).Nodup) (r : Option ℕ) :
    Linked (h.linkPrev (firstPtr l none) r) r l q := by
  cases l with
  | nil => trivial
  | cons x l =>
    rw [List.map_cons, List.nodup_cons] at hnodup
    rw [firstPtr_cons]
    refine ⟨?_, hl.2.congr ?_⟩
    · rw [NodeHeap.lookup_linkPrev, if_pos rfl, hl.1]
      rfl
    · intro y hy
      apply NodeHeap.lookup_linkPrev_of_ne
      intro heq
      exact hnodup.1 (List.mem_map.mpr ⟨y, hy, (Option.some.inj heq).symm⟩)

/-- **Join two stretches.** Whatever they pointed to at the joint, they point to each other. -/
theorem join {r s : Option ℕ} (h₁ : Linked h p l₁ r) (h₂ : Linked h s l₂ q)
    (hnodup : ((l₁ ++ l₂).map Prod.fst).Nodup) :
    Linked ((h.linkNext (lastPtr none l₁) (firstPtr l₂ q)).linkPrev (firstPtr l₂ none)
      (lastPtr p l₁)) p (l₁ ++ l₂) q := by
  rw [List.map_append, List.nodup_append] at hnodup
  obtain ⟨hnodup₁, hnodup₂, hdisj⟩ := hnodup
  have hout : ∀ y ∈ l₁, y.1 ∉ l₂.map Prod.fst := fun y hy hy₂ ↦
    hdisj y.1 (List.mem_map_of_mem hy) y.1 hy₂ rfl
  have hout' : ∀ y ∈ l₂, y.1 ∉ l₁.map Prod.fst := fun y hy hy₁ ↦
    hdisj y.1 hy₁ y.1 (List.mem_map_of_mem hy) rfl
  rw [linked_append]
  constructor
  · apply (h₁.setLast hnodup₁ (firstPtr l₂ q)).congr
    intro y hy
    exact NodeHeap.lookup_linkPrev_of_ne _ (firstPtr_ne (hout y hy)) _
  · apply setFirst (p := s) _ hnodup₂
    apply h₂.congr
    intro y hy
    exact NodeHeap.lookup_linkNext_of_ne _ (lastPtr_ne (hout' y hy)) _

end Linked

theorem NodeHeap.lookup_join (h : NodeHeap α) {l₁ l₂ : List (ℕ × α)} {b : ℕ} (p q : Option ℕ)
    (h₁ : b ∉ l₁.map Prod.fst) (h₂ : b ∉ l₂.map Prod.fst) :
    ((h.linkNext (lastPtr none l₁) q).linkPrev (firstPtr l₂ none) p).lookup b = h.lookup b := by
  rw [lookup_linkPrev_of_ne _ (firstPtr_ne h₂), lookup_linkNext_of_ne _ (lastPtr_ne h₁)]

/-! ## Freeing -/

namespace NodeHeap

theorem freeList_lookup_none {k : ℕ} {h h' : NodeHeap α} {p : Option ℕ}
    (hfree : freeList k h p = .ok h') {b : ℕ} (hb : h.lookup b = none) : h'.lookup b = none := by
  induction k generalizing h p with
  | zero =>
    cases p with
    | none =>
      cases hfree
      exact hb
    | some a => cases hfree
  | succ k ih =>
    cases p with
    | none =>
      cases hfree
      exact hb
    | some a =>
      rw [freeList] at hfree
      cases ha : h.lookup a with
      | none =>
        rw [ha] at hfree
        cases hfree
      | some n =>
        rw [ha] at hfree
        apply ih hfree
        rcases eq_or_ne b a with rfl | hne
        · exact Finmap.lookup_erase _ h
        · rwa [Finmap.lookup_erase_ne hne]

end NodeHeap

theorem Linked.freed {h h' : NodeHeap α} {p : Option ℕ} {l : List (ℕ × α)} (hl : Linked h p l none)
    (hnodup : (l.map Prod.fst).Nodup) {k : ℕ}
    (hfree : NodeHeap.freeList k h (firstPtr l none) = .ok h') : ∀ x ∈ l, h'.lookup x.1 = none := by
  induction l generalizing h p k with
  | nil => exact fun x hx ↦ absurd hx List.not_mem_nil
  | cons x l ih =>
    rw [firstPtr_cons] at hfree
    cases k with
    | zero => cases hfree
    | succ k =>
      rw [NodeHeap.freeList, hl.1] at hfree
      rw [List.map_cons, List.nodup_cons] at hnodup
      have hrest : Linked (h.erase x.1) (some x.1) l none := by
        apply hl.2.congr
        intro y hy
        apply Finmap.lookup_erase_ne
        intro heq
        exact hnodup.1 (List.mem_map.mpr ⟨y, hy, heq⟩)
      intro y hy
      rcases List.mem_cons.mp hy with rfl | hy
      · exact NodeHeap.freeList_lookup_none hfree (Finmap.lookup_erase _ h)
      · exact ih hrest hnodup.2 hfree y hy

/-- **Freeing a list** takes its nodes off the heap, and no others. -/
theorem IsList.mem_freeList {h h' : NodeHeap α} {l : List (ℕ × α)} {head tail : Option ℕ}
    (hl : IsList h l head tail) (hfree : NodeHeap.freeList h.keys.card h head = .ok h') (b : ℕ) :
    b ∈ h' ↔ b ∈ h ∧ b ∉ l.map Prod.fst := by
  obtain ⟨h'', hfree', hframe⟩ := hl.freeList
  obtain rfl : h' = h'' := Except.ok.inj (hfree.symm.trans hfree')
  by_cases hb : b ∈ l.map Prod.fst
  · obtain ⟨x, hx, rfl⟩ := List.mem_map.mp hb
    rw [hl.head_eq] at hfree
    have hnone := hl.linked.freed hl.nodup hfree x hx
    exact iff_of_false (Finmap.lookup_eq_none.mp hnone) fun h ↦ h.2 hb
  · rw [← Finmap.lookup_isSome, ← Finmap.lookup_isSome, hframe b hb]
    exact (and_iff_left hb).symm

end AllProjects
