import AllProjects.Memory.LinkedSplice

/-!
# The linked list library

The functions of the library as they stand in the source, on a heap of nodes. A value is a `void *`,
so all the library does with one is to compare it, hand it to the callbacks and give it back. The
callback `free` is seen through the values it was called with. What `malloc` returns is an argument
of the functions that call it.
-/

namespace AllProjects.DoublyLinked

open NodeHeap

variable {V : Type}

/-- `list_direction_t`: `LIST_HEAD` and `LIST_TAIL`. -/
inductive Direction
  | head
  | tail
  deriving DecidableEq

/-- `list_iterator_t`. -/
structure Iterator where
  next : Option ℕ
  direction : Direction
  deriving DecidableEq

/-- `list_t`. Of `free` it matters whether it is set. -/
structure ListT (V : Type) where
  head : Option ℕ
  tail : Option ℕ
  len : ℕ
  free : Bool
  match_ : Option (V → V → Bool)

/-- A list, all nodes and iterators that are allocated, and the values that were passed to
`self->free`. -/
structure State (V : Type) where
  self : ListT V
  nodes : NodeHeap V
  iterators : Finmap fun _ : ℕ ↦ Iterator
  freed : List V

/-- `list_new()`. -/
def listNew : State V := ⟨⟨none, none, 0, false, none⟩, ∅, ∅, []⟩

/-- `++len` on an `unsigned int`. -/
def incr (len : ℕ) : ℕ := (len + 1) % 2 ^ 32

/-- `--len` on an `unsigned int`. -/
def decr (len : ℕ) : ℕ := (len + (2 ^ 32 - 1)) % 2 ^ 32

/-- `LIST_FREE(node)` on a node. -/
def freeNode (h : NodeHeap V) : Option ℕ → Except Fault (NodeHeap V)
  | none => .ok h
  | some a => if a ∈ h then .ok (h.erase a) else .error .segv

/-- `list_node_new`. -/
def listNodeNew (s : State V) (malloc : Option ℕ) (val : V) : Option ℕ × State V :=
  match malloc with
  | none => (none, s)
  | some a => (some a, { s with nodes := s.nodes.insert a ⟨val, none, none⟩ })

/-- `list_rpush`. -/
def listRpush (s : State V) (node : Option ℕ) : Except Fault (Option ℕ × State V) :=
  if node = none then .ok (none, s)
  else if s.self.len ≠ 0 then do
    let nodes ← s.nodes.setPrev node s.self.tail
    let nodes ← nodes.setNext node none
    let nodes ← nodes.setNext s.self.tail node
    let self := { s.self with tail := node, len := incr s.self.len }
    .ok (node, { s with self := self, nodes := nodes })
  else do
    let nodes ← s.nodes.setNext node none
    let nodes ← nodes.setPrev node none
    let self := { s.self with head := node, tail := node, len := incr s.self.len }
    .ok (node, { s with self := self, nodes := nodes })

/-- `list_lpush`. -/
def listLpush (s : State V) (node : Option ℕ) : Except Fault (Option ℕ × State V) :=
  if node = none then .ok (none, s)
  else if s.self.len ≠ 0 then do
    let nodes ← s.nodes.setNext node s.self.head
    let nodes ← nodes.setPrev node none
    let nodes ← nodes.setPrev s.self.head node
    let self := { s.self with head := node, len := incr s.self.len }
    .ok (node, { s with self := self, nodes := nodes })
  else do
    let nodes ← s.nodes.setNext node none
    let nodes ← nodes.setPrev node none
    let self := { s.self with head := node, tail := node, len := incr s.self.len }
    .ok (node, { s with self := self, nodes := nodes })

/-- `list_rpop`. -/
def listRpop (s : State V) : Except Fault (Option ℕ × State V) :=
  if s.self.len = 0 then .ok (none, s)
  else do
    let node := s.self.tail
    let len := decr s.self.len
    let (self, nodes) ←
      if len ≠ 0 then do
        let n ← s.nodes.deref node
        let nodes ← s.nodes.setNext n.prev none
        pure ({ s.self with tail := n.prev, len := len }, nodes)
      else pure ({ s.self with head := none, tail := none, len := len }, s.nodes)
    let nodes ← nodes.setPrev node none
    let nodes ← nodes.setNext node none
    .ok (node, { s with self := self, nodes := nodes })

/-- `list_lpop`. -/
def listLpop (s : State V) : Except Fault (Option ℕ × State V) :=
  if s.self.len = 0 then .ok (none, s)
  else do
    let node := s.self.head
    let len := decr s.self.len
    let (self, nodes) ←
      if len ≠ 0 then do
        let n ← s.nodes.deref node
        let nodes ← s.nodes.setPrev n.next none
        pure ({ s.self with head := n.next, len := len }, nodes)
      else pure ({ s.self with head := none, tail := none, len := len }, s.nodes)
    let nodes ← nodes.setPrev node none
    let nodes ← nodes.setNext node none
    .ok (node, { s with self := self, nodes := nodes })

/-- `node->prev ? (node->prev->next = node->next) : (self->head = node->next)`. -/
def unlinkFront (self : ListT V) (h : NodeHeap V) (n : LinkedNode V) :
    Except Fault (ListT V × NodeHeap V) :=
  if n.prev ≠ none then (h.setNext n.prev n.next).map fun h ↦ (self, h)
  else .ok ({ self with head := n.next }, h)

/-- `node->next ? (node->next->prev = node->prev) : (self->tail = node->prev)`. -/
def unlinkBack (self : ListT V) (h : NodeHeap V) (n : LinkedNode V) :
    Except Fault (ListT V × NodeHeap V) :=
  if n.next ≠ none then (h.setPrev n.next n.prev).map fun h ↦ (self, h)
  else .ok ({ self with tail := n.prev }, h)

/-- `list_remove`. The fields of the node are read where the source reads them. -/
def listRemove (s : State V) (node : Option ℕ) : Except Fault (State V) := do
  let n ← s.nodes.deref node
  let (self, nodes) ← unlinkFront s.self s.nodes n
  let n ← nodes.deref node
  let (self, nodes) ← unlinkBack self nodes n
  let n ← nodes.deref node
  let nodes ← freeNode nodes node
  .ok
    { s with
      self := { self with len := decr self.len }
      nodes := nodes
      freed := if self.free then s.freed ++ [n.data] else s.freed }

/-! ## Iterators -/

/-- `list_iterator_new_from_node`. -/
def listIteratorNewFromNode (s : State V) (malloc node : Option ℕ) (direction : Direction) :
    Option ℕ × State V :=
  match malloc with
  | none => (none, s)
  | some i => (some i, { s with iterators := s.iterators.insert i ⟨node, direction⟩ })

/-- `list_iterator_new`. -/
def listIteratorNew (s : State V) (malloc : Option ℕ) (direction : Direction) :
    Option ℕ × State V :=
  let node := if direction = .head then s.self.head else s.self.tail
  listIteratorNewFromNode s malloc node direction

/-- Read the iterator behind a pointer. -/
def derefIterator (s : State V) : Option ℕ → Except Fault (ℕ × Iterator)
  | none => .error .segv
  | some i =>
    match s.iterators.lookup i with
    | some it => .ok (i, it)
    | none => .error .segv

/-- `list_iterator_next`. -/
def listIteratorNext (s : State V) (self : Option ℕ) : Except Fault (Option ℕ × State V) := do
  let (i, it) ← derefIterator s self
  let curr := it.next
  if curr ≠ none then do
    let n ← s.nodes.deref curr
    let it := { it with next := if it.direction = .head then n.next else n.prev }
    .ok (curr, { s with iterators := s.iterators.insert i it })
  else .ok (curr, s)

/-- `list_iterator_destroy`. -/
def listIteratorDestroy (s : State V) : Option ℕ → Except Fault (State V)
  | none => .ok s
  | some i =>
    if i ∈ s.iterators then .ok { s with iterators := s.iterators.erase i } else .error .segv

/-! ## Searching -/

/-- The comparison of `list_find`: `self->match(val, node->val)`, or `val == node->val`. -/
def matchValue [DecidableEq V] (m : Option (V → V → Bool)) (val data : V) : Bool :=
  match m with
  | some m => m val data
  | none => decide (val = data)

/-- The `while` loop of `list_find`. It has found out everything after as many rounds as there are
nodes and one more: then it is going round in circles. -/
def findLoop [DecidableEq V] (it : Option ℕ) (val : V) :
    ℕ → State V → Except Fault (Option ℕ × State V)
  | 0, _ => .error .diverges
  | k + 1, s => do
    let (node, s) ← listIteratorNext s it
    if node = none then do
      let s ← listIteratorDestroy s it
      .ok (none, s)
    else do
      let n ← s.nodes.deref node
      if matchValue s.self.match_ val n.data then do
        let s ← listIteratorDestroy s it
        .ok (node, s)
      else findLoop it val k s

/-- `list_find`. -/
def listFind [DecidableEq V] (s : State V) (malloc : Option ℕ) (val : V) :
    Except Fault (Option ℕ × State V) :=
  let (it, s) := listIteratorNew s malloc .head
  findLoop it val (s.nodes.keys.card + 1) s

/-- `while (index--) node = list_iterator_next(it)`. -/
def atLoop (it : Option ℕ) : ℕ → Option ℕ × State V → Except Fault (Option ℕ × State V)
  | 0, r => .ok r
  | k + 1, r => do
    let r ← listIteratorNext r.2 it
    atLoop it k r

/-- `list_at`, of an `int`. -/
def listAt (s : State V) (malloc : Option ℕ) (index : ℤ) : Except Fault (Option ℕ × State V) :=
  let direction := if index < 0 then Direction.tail else .head
  -- `~index` is `-index - 1`
  let k := (if index < 0 then -index - 1 else index).toNat
  if k < s.self.len then do
    let (it, s) := listIteratorNew s malloc direction
    let r ← listIteratorNext s it
    let (node, s) ← atLoop it k r
    let s ← listIteratorDestroy s it
    .ok (node, s)
  else .ok (none, s)

/-! ## Release -/

/-- `while (len--)` of `list_destroy`, from the node `curr` on. -/
def destroyLoop (free : Bool) :
    ℕ → NodeHeap V → List V → Option ℕ → Except Fault (NodeHeap V × List V)
  | 0, h, freed, _ => .ok (h, freed)
  | len + 1, h, freed, curr => do
    let n ← h.deref curr
    let h ← freeNode h curr
    destroyLoop free len h (if free then freed ++ [n.data] else freed) n.next

/-- `list_destroy`: the nodes that are left, and the values passed to `self->free`. -/
def listDestroy (s : State V) : Except Fault (NodeHeap V × List V) :=
  destroyLoop s.self.free s.self.len s.nodes s.freed s.self.head

/-! ## What a client does -/

/-- A call, or an assignment to a callback, or `free` of a node. -/
inductive Command (V : Type)
  | nodeNew (malloc : Option ℕ) (val : V)
  | rpush (node : Option ℕ)
  | lpush (node : Option ℕ)
  | rpop
  | lpop
  | remove (node : Option ℕ)
  | find (malloc : Option ℕ) (val : V)
  | atIndex (malloc : Option ℕ) (index : ℤ)
  | iteratorNew (malloc : Option ℕ) (direction : Direction)
  | iteratorNewFromNode (malloc node : Option ℕ) (direction : Direction)
  | iteratorNext (it : Option ℕ)
  | iteratorDestroy (it : Option ℕ)
  | setFree (free : Bool)
  | setMatch (m : Option (V → V → Bool))
  | freeNode (node : Option ℕ)

/-- Carry out a command: the pointer it returns (NULL when it returns none), and the state after
it. -/
def exec [DecidableEq V] (s : State V) : Command V → Except Fault (Option ℕ × State V)
  | .nodeNew malloc val => .ok (listNodeNew s malloc val)
  | .rpush node => listRpush s node
  | .lpush node => listLpush s node
  | .rpop => listRpop s
  | .lpop => listLpop s
  | .remove node => do
    let s ← listRemove s node
    .ok (none, s)
  | .find malloc val => listFind s malloc val
  | .atIndex malloc index => listAt s malloc index
  | .iteratorNew malloc direction => .ok (listIteratorNew s malloc direction)
  | .iteratorNewFromNode malloc node direction =>
    .ok (listIteratorNewFromNode s malloc node direction)
  | .iteratorNext it => listIteratorNext s it
  | .iteratorDestroy it => do
    let s ← listIteratorDestroy s it
    .ok (none, s)
  | .setFree free => .ok (none, { s with self := { s.self with free := free } })
  | .setMatch m => .ok (none, { s with self := { s.self with match_ := m } })
  | .freeNode node => do
    let nodes ← freeNode s.nodes node
    .ok (none, { s with nodes := nodes })

end AllProjects.DoublyLinked
