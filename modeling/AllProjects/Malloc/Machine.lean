import AllProjects.Memory.Bytes

/-!
# The allocation hooks

The program installs its own `malloc` and `free`. It keeps one doubly linked list of chunk headers
between two sentinels, `mem_head` and `mem_tail`, in the memory that it obtains from `sbrk`.

A state is the data segment with its break, `errno`, and the four global pointers. The memory is
byte addressed and every access is checked against what is mapped of the segment, so reading through
`NULL` or through the `(void*) -1` of a failed `sbrk` is a fault and not some value. The kernel maps
whole pages. How far they reach behind the break is a parameter: an access there need not fault.
Numbers are those of a 64-bit machine: `size_t` arithmetic wraps, and the argument of `sbrk` is read
as a signed `intptr_t`.

The loops carry a bound on their iterations, one for each byte of the segment. A chunk occupies at
least the bytes of its header, so a walk along the list that outruns this bound is on a cycle.

The hooks' `printf` reports are left out; they read no more than what is modelled here.
-/

namespace AllProjects

namespace Malloc

/-! ## Machine numbers -/

/-- `sizeof(MEM_CHUNK_STRUCT)`: `size` at 0, `stat` at 8, `mp_next` at 16, `mp_prev` at 24. -/
def sizeofMemChunk : ℕ := 32

/-- A `size_t` or a pointer, reduced to 64 bits. -/
def wrap (x : ℕ) : ℕ := x % 2 ^ 64

/-- `a - b` on `size_t` or pointers. -/
def wrapSub (a b : ℕ) : ℕ := (a + 2 ^ 64 - b) % 2 ^ 64

/-- A `size_t` converted to the signed `intptr_t` that `sbrk` takes. -/
def intptr (x : ℕ) : ℤ := if x < 2 ^ 63 then x else (x : ℤ) - 2 ^ 64

/-- The error number that a failing `sbrk` leaves in `errno`. -/
def ENOMEM : ℕ := 12

/-! ## The state -/

/-- Where the memory ends that is mapped for a break. User addresses lie in the lower half of the
64-bit space. -/
structure Paging where
  endOf : ℕ → ℕ
  le_endOf (brk : ℕ) : brk ≤ endOf brk
  endOf_le (brk : ℕ) : endOf brk ≤ max brk (2 ^ 63)

/-- Pages of 4096 bytes, and nothing mapped behind them. -/
def Paging.small : Paging where
  endOf brk := if brk ≤ 2 ^ 63 then (brk + 4095) / 4096 * 4096 else brk
  le_endOf brk := by split <;> omega
  endOf_le brk := by split <;> omega

/-- The process as the allocator sees it. `limit` is the highest break that the kernel grants. -/
structure Machine where
  mem : Mem
  paging : Paging
  start : ℕ
  brk : ℕ
  limit : Fin (2 ^ 63)
  errno : ℕ
  hlb : ℕ
  hub : ℕ
  memHead : ℕ
  memTail : ℕ

namespace Machine

/-- A process before `init`: an empty data segment at the break, and null globals. -/
def boot (mem : Mem) (paging : Paging) (brk : ℕ) (limit : Fin (2 ^ 63)) (errno : ℕ) :
    Machine where
  mem := mem
  paging := paging
  start := brk
  brk := brk
  limit := limit
  errno := errno
  hlb := 0
  hub := 0
  memHead := 0
  memTail := 0

variable (s : Machine)

/-- `sbrk`: move the break and return its old value, or fail with `(void*) -1` and `ENOMEM`. -/
def sbrk (incr : ℤ) : ℕ × Machine :=
  if s.start ≤ (s.brk : ℤ) + incr ∧ (s.brk : ℤ) + incr ≤ s.limit.val then
    (s.brk, { s with brk := ((s.brk : ℤ) + incr).toNat })
  else (2 ^ 64 - 1, { s with errno := ENOMEM })

/-- The end of the last page of the data segment. -/
def mappedEnd : ℕ := s.paging.endOf s.brk

/-- Read a `w`-byte number inside the pages of the data segment. -/
def load (a w : ℕ) : Except Fault ℕ := s.mem.loadIn s.start s.mappedEnd a w

/-- Write a `w`-byte number inside the pages of the data segment. -/
def store (a w v : ℕ) : Except Fault Machine :=
  (s.mem.storeIn s.start s.mappedEnd a w v).map fun m ↦ { s with mem := m }

/-! ### Header fields -/

/-- `chunk->size`. -/
def size (chunk : ℕ) : Except Fault ℕ := s.load chunk 8

/-- `chunk->stat`, a `short`. -/
def stat (chunk : ℕ) : Except Fault ℕ := s.load (chunk + 8) 2

/-- `chunk->mp_next`. -/
def mpNext (chunk : ℕ) : Except Fault ℕ := s.load (chunk + 16) 8

/-- `chunk->mp_prev`. -/
def mpPrev (chunk : ℕ) : Except Fault ℕ := s.load (chunk + 24) 8

def setSize (chunk v : ℕ) : Except Fault Machine := s.store chunk 8 v

def setStat (chunk v : ℕ) : Except Fault Machine := s.store (chunk + 8) 2 v

def setMpNext (chunk v : ℕ) : Except Fault Machine := s.store (chunk + 16) 8 v

def setMpPrev (chunk v : ℕ) : Except Fault Machine := s.store (chunk + 24) 8 v

/-! ## `init` -/

/-- The headers of the two sentinels. -/
def linkSentinels : Except Fault Machine := do
  let s ← s.setSize s.memHead sizeofMemChunk
  let s ← s.setStat s.memHead 1
  let s ← s.setMpNext s.memHead s.memTail
  let s ← s.setMpPrev s.memHead 0
  let s ← s.setSize s.memTail sizeofMemChunk
  let s ← s.setStat s.memTail 1
  let s ← s.setMpNext s.memTail 0
  s.setMpPrev s.memTail s.memHead

/-- `init`: the two sentinels, side by side at the bottom of the heap. -/
def init : Except Fault Machine :=
  let (hlb, s) := s.sbrk 0
  let (memHead, s) := s.sbrk (intptr sizeofMemChunk)
  let (memTail, s) := s.sbrk (intptr sizeofMemChunk)
  let (hub, s) := s.sbrk 0
  { s with hlb, hub, memHead, memTail }.linkSentinels

/-! ## `my_malloc_hook` -/

/-- The bound on the iterations of a loop over the list. -/
def fuel : ℕ := s.brk - s.start

/-- The inner loop: starting after a free chunk, absorb free neighbours until `free_mem` reaches
the request. Returns `free_mem` and `s_curs`. -/
def absorbLoop (size : ℕ) : ℕ → ℕ → ℕ → Except Fault (ℕ × ℕ)
  | 0, _, _ => .error .diverges
  | fuel + 1, freeMem, sCurs =>
    if freeMem < size then do
      if (← s.stat sCurs) = 0 then
        let freeMem := wrap (freeMem + wrap ((← s.size sCurs) + sizeofMemChunk))
        absorbLoop size fuel freeMem (← s.mpNext sCurs)
      else return (freeMem, sCurs)
    else return (freeMem, sCurs)

/-- The outer loop: look for a free chunk that, with its free successors, holds the request.
Returns `free_mem`, `m_curs` and `s_curs`; `free_mem` is 0 whenever the loop condition is tested.
A run that is too small is left at `s_curs`, whose successor is examined next. -/
def scanLoop (size : ℕ) : ℕ → ℕ → ℕ → Except Fault (ℕ × ℕ × ℕ)
  | 0, _, _ => .error .diverges
  | fuel + 1, mCurs, sCurs =>
    if mCurs ≠ s.memTail then do
      if (← s.stat mCurs) = 0 then
        let sCurs ← s.mpNext mCurs
        let (freeMem, sCurs) ← s.absorbLoop size s.fuel (← s.size mCurs) sCurs
        if freeMem ≥ size then return (freeMem, mCurs, sCurs)
        else scanLoop size fuel (← s.mpNext sCurs) sCurs
      else scanLoop size fuel (← s.mpNext mCurs) sCurs
    else return (0, mCurs, sCurs)

/-- No run fits: a new chunk at the break, linked before `mem_tail`. -/
def growHeap (size : ℕ) : Except Fault (ℕ × Machine) := do
  let (memChunk, s) := s.sbrk (intptr (wrap (size + sizeofMemChunk)))
  let result := wrap (memChunk + sizeofMemChunk)
  let s ← s.setSize memChunk size
  let s ← s.setStat memChunk 1
  if (← s.mpNext s.memHead) = s.memTail then
    let s ← s.setMpNext memChunk s.memTail
    let s ← s.setMpPrev memChunk s.memHead
    let s ← s.setMpNext s.memHead memChunk
    let s ← s.setMpPrev s.memTail memChunk
    return (result, s)
  else
    let s ← s.setMpNext memChunk s.memTail
    let s ← s.setMpPrev memChunk (← s.mpPrev s.memTail)
    let s ← s.setMpNext (← s.mpPrev s.memTail) memChunk
    let s ← s.setMpPrev s.memTail memChunk
    return (result, s)

/-- A run fits: cut the request off its front when the rest can hold a header and 16 bytes, and
hand out the whole run otherwise. -/
def takeRun (size freeMem mCurs sCurs : ℕ) : Except Fault (ℕ × Machine) := do
  let result := wrap (mCurs + sizeofMemChunk)
  if wrapSub freeMem size ≥ sizeofMemChunk + 16 then
    let memChunk := wrap (mCurs + wrap (size + sizeofMemChunk))
    let s ← s.setSize memChunk (wrapSub (wrapSub freeMem size) sizeofMemChunk)
    let s ← s.setStat memChunk 0
    let s ← s.setMpNext memChunk sCurs
    let s ← s.setMpPrev memChunk mCurs
    let s ← s.setMpPrev sCurs memChunk
    let s ← s.setSize mCurs size
    let s ← s.setStat mCurs 1
    let s ← s.setMpNext mCurs memChunk
    return (result, s)
  else
    let s ← s.setSize mCurs freeMem
    let s ← s.setStat mCurs 1
    let s ← s.setMpNext mCurs sCurs
    let s ← s.setMpPrev sCurs mCurs
    return (result, s)

/-- `hub = sbrk(0)`. -/
def refreshHub : Machine :=
  let (hub, s) := s.sbrk 0
  { s with hub }

/-- `my_malloc_hook`. A request of no bytes returns `NULL` before anything else happens; `errno`
is only consulted when the chunk is already taken. -/
def myMallocHook (size : ℕ) : Except Fault (ℕ × Machine) := do
  if size = 0 then return (0, s)
  let size := wrap (wrap (size + 7) / 8 * 8)
  let (freeMem, mCurs, sCurs) ← s.scanLoop size s.fuel (← s.mpNext s.memHead) 0
  let (result, s) ←
    if mCurs = s.memTail then s.growHeap size else s.takeRun size freeMem mCurs sCurs
  let s := s.refreshHub
  -- `errno` may be from an earlier call
  return (if s.errno ≠ ENOMEM then result else 0, s)

/-! ## `my_free_hook` -/

/-- Count the free bytes from a chunk up to the next chunk in use, or to `mem_tail`. Returns
`free_mem` and `m_curs`. -/
def forwardLoop : ℕ → ℕ → ℕ → Except Fault (ℕ × ℕ)
  | 0, _, _ => .error .diverges
  | fuel + 1, freeMem, mCurs =>
    if mCurs ≠ s.memTail then do
      if (← s.stat mCurs) = 1 then return (freeMem, mCurs)
      else
        let freeMem := wrap (freeMem + wrap ((← s.size mCurs) + sizeofMemChunk))
        forwardLoop fuel freeMem (← s.mpNext mCurs)
    else return (freeMem, mCurs)

/-- The same, backwards to the previous chunk in use, or to `mem_head`. -/
def backwardLoop : ℕ → ℕ → ℕ → Except Fault (ℕ × ℕ)
  | 0, _, _ => .error .diverges
  | fuel + 1, freeMem, mCurs =>
    if mCurs ≠ s.memHead then do
      if (← s.stat mCurs) = 1 then return (freeMem, mCurs)
      else
        let freeMem := wrap (freeMem + wrap ((← s.size mCurs) + sizeofMemChunk))
        backwardLoop fuel freeMem (← s.mpPrev mCurs)
    else return (freeMem, mCurs)

/-- Unlink everything behind `m_curs` and give its bytes back. -/
def trimHeap (freeMem mCurs : ℕ) : Except Fault Machine := do
  let s ← s.setMpPrev s.memTail mCurs
  let s ← s.setMpNext mCurs s.memTail
  return (s.sbrk (intptr (wrapSub 0 freeMem))).2

/-- `my_free_hook`. -/
def myFreeHook (ptr : ℕ) : Except Fault Machine := do
  let memChunk := wrapSub ptr sizeofMemChunk
  if (← s.stat memChunk) = 0 then return s
  let s ← s.setStat memChunk 0
  let (freeMem, mCurs) ← s.forwardLoop s.fuel 0 memChunk
  if mCurs = s.memTail then
    let (freeMem, mCurs) ← s.backwardLoop s.fuel freeMem (← s.mpPrev memChunk)
    let s ← s.trimHeap freeMem mCurs
    return s.refreshHub
  else return s.refreshHub

/-! ## The list as a reader sees it -/

/-- The chunks from `a` up to `mem_tail`, along `mp_next`. -/
def followNext : ℕ → ℕ → Except Fault (List ℕ)
  | 0, _ => .error .diverges
  | fuel + 1, a =>
    if a = s.memTail then return []
    else do
      let rest ← followNext fuel (← s.mpNext a)
      return a :: rest

/-- The chunks from `a` down to `mem_head`, along `mp_prev`. -/
def followPrev : ℕ → ℕ → Except Fault (List ℕ)
  | 0, _ => .error .diverges
  | fuel + 1, a =>
    if a = s.memHead then return []
    else do
      let rest ← followPrev fuel (← s.mpPrev a)
      return a :: rest

/-- The addresses of the chunks strictly between the sentinels, first to last. -/
def chunksForward : Except Fault (List ℕ) := do
  s.followNext s.fuel (← s.mpNext s.memHead)

/-- The same chunks, last to first. -/
def chunksBackward : Except Fault (List ℕ) := do
  s.followPrev s.fuel (← s.mpPrev s.memTail)

end Machine

end Malloc

end AllProjects
