import AllProjects.DoublyLinked.Commands

/-!
# What the list library is for

A list is a sequence of nodes, each with its address and its value, and beside it stand the nodes
the client has made or taken out. A step is undefined where the client breaks the rules of the
library: it pushes a node that is not its own, removes one that is not in the list, lets an iterator
step from a node that is gone, or fills the counter. It is undefined, too, where `list_find` or
`list_at` gets no memory for its iterator, which is used unchecked. `Represents` connects this to the
heap, whose nodes are exactly those of the list and those beside it.
-/

namespace AllProjects.DoublyLinked

variable {V : Type}

/-- The list, the nodes outside it, the iterators, and the values given to the `free` callback. -/
structure Deque (V : Type) where
  list : List (ℕ × V)
  loose : Finmap fun _ : ℕ ↦ V
  iterators : Finmap fun _ : ℕ ↦ Iterator
  freed : List V
  free : Bool
  match_ : Option (V → V → Bool)

namespace Deque

/-- The empty list. -/
def empty : Deque V := ⟨[], ∅, ∅, [], false, none⟩

/-- The addresses of the list's nodes. -/
def addresses (d : Deque V) : List ℕ := d.list.map Prod.fst

/-- The list as an iterator of this direction sees it. -/
def oriented (d : Deque V) : Direction → List (ℕ × V)
  | .head => d.list
  | .tail => d.list.reverse

/-- What an iterator is still to return of the list. -/
def rest (d : Deque V) (it : Iterator) : List (ℕ × V) :=
  match it.next with
  | none => []
  | some a => (d.oriented it.direction).dropWhile fun x ↦ decide (x.1 ≠ a)

/-- The node at an index, from the end for a negative one. -/
def nodeAt (d : Deque V) (index : ℤ) : Option (ℕ × V) :=
  if index < 0 then d.list.reverse[(-index - 1).toNat]? else d.list[index.toNat]?

/-- Allocate an iterator. -/
def newIterator (d : Deque V) (it : Iterator) : Option ℕ → Option (Option ℕ × Deque V)
  | none => some (none, d)
  | some i =>
    if i ∈ d.iterators then none
    else some (some i, { d with iterators := d.iterators.insert i it })

/-- Return a node that was found with an iterator, which has to be allocated and is freed again. -/
def lookAt (d : Deque V) (malloc : Option ℕ) (x : Option (ℕ × V)) :
    Option (Option ℕ × Deque V) :=
  match malloc with
  | none => none
  | some i => if i ∈ d.iterators then none else some (x.map Prod.fst, d)

/-- Take a node that is beside the list, and where there is room for it. -/
def takeLoose (d : Deque V) (a : ℕ) : Option V :=
  if d.list.length + 1 < 2 ^ 32 then d.loose.lookup a else none

/-- Step an iterator. -/
def advance (d : Deque V) (i : ℕ) (it : Iterator) : Option (Option ℕ × Deque V) :=
  match it.next with
  | none => some (none, d)
  | some a =>
    if a ∈ d.addresses ∨ a ∈ d.loose then
      let next := firstPtr (d.rest it).tail none
      some (some a, { d with iterators := d.iterators.insert i { it with next := next } })
    else none

/-- What a command returns and does. -/
def step [DecidableEq V] (d : Deque V) : Command V → Option (Option ℕ × Deque V)
  | .nodeNew none _ => some (none, d)
  | .nodeNew (some a) v =>
    if a ∈ d.addresses ∨ a ∈ d.loose then none
    else some (some a, { d with loose := d.loose.insert a v })
  | .rpush none => some (none, d)
  | .rpush (some a) => (d.takeLoose a).map fun v ↦
    (some a, { d with list := d.list ++ [(a, v)], loose := d.loose.erase a })
  | .lpush none => some (none, d)
  | .lpush (some a) => (d.takeLoose a).map fun v ↦
    (some a, { d with list := (a, v) :: d.list, loose := d.loose.erase a })
  | .rpop => some <|
    match d.list.getLast? with
    | none => (none, d)
    | some x => (some x.1, { d with list := d.list.dropLast, loose := d.loose.insert x.1 x.2 })
  | .lpop => some <|
    match d.list with
    | [] => (none, d)
    | x :: l => (some x.1, { d with list := l, loose := d.loose.insert x.1 x.2 })
  | .remove none => none
  | .remove (some a) => (d.list.find? fun x ↦ decide (x.1 = a)).map fun x ↦
    (none, { d with
      list := d.list.eraseP fun y ↦ decide (y.1 = a)
      freed := if d.free then d.freed ++ [x.2] else d.freed })
  | .find malloc v => d.lookAt malloc (d.list.find? fun x ↦ matchValue d.match_ v x.2)
  | .atIndex malloc index =>
    match d.nodeAt index with
    | none => some (none, d)
    | some x => d.lookAt malloc (some x)
  | .iteratorNew malloc direction =>
    d.newIterator ⟨firstPtr (d.oriented direction) none, direction⟩ malloc
  | .iteratorNewFromNode malloc node direction => d.newIterator ⟨node, direction⟩ malloc
  | .iteratorNext none => none
  | .iteratorNext (some i) => (d.iterators.lookup i).bind fun it ↦ d.advance i it
  | .iteratorDestroy none => some (none, d)
  | .iteratorDestroy (some i) =>
    if i ∈ d.iterators then some (none, { d with iterators := d.iterators.erase i }) else none
  | .setFree free => some (none, { d with free := free })
  | .setMatch m => some (none, { d with match_ := m })
  | .freeNode none => some (none, d)
  | .freeNode (some a) =>
    if a ∈ d.loose then some (none, { d with loose := d.loose.erase a }) else none

end Deque

/-- The heap holds this list, these nodes beside it, and no others. -/
structure Represents (s : State V) (d : Deque V) : Prop where
  isList : IsList s.nodes d.list s.self.head s.self.tail
  outside : ∀ a ∉ d.addresses,
    s.nodes.lookup a = (d.loose.lookup a).map fun v ↦ ⟨v, none, none⟩
  disjoint : ∀ a ∈ d.addresses, d.loose.lookup a = none
  len : s.self.len = d.list.length
  bound : d.list.length < 2 ^ 32
  iterators : s.iterators = d.iterators
  freed : s.freed = d.freed
  free : s.self.free = d.free
  match_ : s.self.match_ = d.match_

theorem represents_empty : Represents (listNew : State V) Deque.empty where
  isList := IsList.nil ∅
  outside := fun a _ ↦ Finmap.lookup_empty a
  disjoint := fun a _ ↦ Finmap.lookup_empty a
  len := rfl
  bound := Nat.two_pow_pos 32
  iterators := rfl
  freed := rfl
  free := rfl
  match_ := rfl

namespace Represents

variable {s : State V} {d : Deque V}

theorem lookup_loose (hr : Represents s d) {a : ℕ} {v : V} (ha : d.loose.lookup a = some v) :
    s.nodes.lookup a = some ⟨v, none, none⟩ := by
  have hout : a ∉ d.addresses := by
    intro hin
    rw [hr.disjoint a hin] at ha
    cases ha
  rw [hr.outside a hout, ha]
  rfl

theorem not_mem_addresses (hr : Represents s d) {a : ℕ} {v : V} (ha : d.loose.lookup a = some v) :
    a ∉ d.addresses := by
  intro hin
  rw [hr.disjoint a hin] at ha
  cases ha

/-- **Nothing is lost.** The nodes of the heap are those of the list and those beside it. -/
theorem mem_nodes (hr : Represents s d) (a : ℕ) :
    a ∈ s.nodes ↔ a ∈ d.addresses ∨ a ∈ d.loose := by
  by_cases hin : a ∈ d.addresses
  · obtain ⟨x, hx, rfl⟩ := List.mem_map.mp hin
    obtain ⟨n, hn, -⟩ := hr.isList.linked.exists_lookup hx
    exact ⟨fun _ ↦ .inl hin, fun _ ↦ Finmap.mem_of_lookup_eq_some hn⟩
  · rw [← Finmap.lookup_isSome, hr.outside a hin, Option.isSome_map, Finmap.lookup_isSome]
    exact ⟨.inr, fun h ↦ h.resolve_left hin⟩

end Represents

end AllProjects.DoublyLinked
