import AllProjects.Malloc.Loops

/-!
# The hooks refine the abstract heap

`my_malloc_hook` and `my_free_hook`, started in a memory that holds a heap, end in a memory that
holds the heap after `allocate` or `release`. They end without a fault, except that an allocation
which needs a larger break faults when `sbrk` refuses it: the source uses the `(void*) -1` as a
chunk before it looks at `errno`.

The frame is part of the refinement. Neither hook writes a byte of a payload that is in use: all
writes go to headers of the list, to the tail sentinel, or inside a run of free chunks.
-/

namespace AllProjects

namespace Malloc

open Machine

/-! ## Updates -/

/-- The byte at `x` belongs to the payload of a chunk in use. -/
def PayloadByte (s : Machine) (cs : List Chunk) (x : ℕ) : Prop :=
  ∃ off c, ChunkAt (sentinel :: cs) off c ∧ off ≠ 0 ∧ c.inUse = true ∧
    s.start + off + sizeofMemChunk ≤ x ∧ x < s.start + off + c.extent

/-- What an operation does to a machine: it holds another list, and the payloads in use keep their
bytes. -/
structure Update (s : Machine) (cs : List Chunk) (s' : Machine) (cs' : List Chunk) : Prop where
  layout : Layout s' cs'
  start : s'.start = s.start
  limit : s'.limit = s.limit
  errno : s'.errno = s.errno
  frame : ∀ x, PayloadByte s cs x → s'.mem x = s.mem x

theorem PayloadByte.not_header {s : Machine} {cs : List Chunk} {x : ℕ} (hx : PayloadByte s cs x)
    {off : ℕ} {c : Chunk} (hc : ChunkAt (sentinel :: cs) off c) :
    ¬(s.start + off ≤ x ∧ x < s.start + off + 32) := by
  obtain ⟨o, d, hd, -, -, hlo, hhi⟩ := hx
  rw [sizeofMemChunk] at hlo
  have hext : c.extent = 32 + c.size := rfl
  rcases hd.eq_or_disjoint hc with ⟨rfl, -⟩ | h | h
  · omega
  · omega
  · omega

theorem PayloadByte.bounds {s : Machine} {cs : List Chunk} {x : ℕ} (h : Layout s cs)
    (hx : PayloadByte s cs x) : s.start + 64 ≤ x ∧ x < s.brk := by
  obtain ⟨o, d, hd, hne, -, hlo, hhi⟩ := hx
  have hle := hd.le_span
  have hoff := Layout.off_eq_zero_or_le hd
  have hbrk := h.brk
  omega

theorem PayloadByte.not_free {s : Machine} {cs pre mid post : List Chunk} {x : ℕ}
    (hsplit : sentinel :: cs = pre ++ mid ++ post) (hfree : ∀ c ∈ mid, c.inUse = false)
    (hx : PayloadByte s cs x) :
    x < s.start + span pre ∨ s.start + span pre + span mid ≤ x := by
  obtain ⟨o, d, hd, -, huse, hlo, hhi⟩ := hx
  rw [hsplit] at hd
  rcases chunkAt_append.mp hd with hl | ⟨o', rfl, -⟩
  · rcases chunkAt_append.mp hl with hl | ⟨o', -, hr⟩
    · have hle := hl.le_span
      exact Or.inl (by omega)
    · rw [hfree d hr.mem] at huse
      cases huse
  · rw [span_append] at hlo
    exact Or.inr (by omega)

/-! ## The writes of an operation -/

/-- The six writes of an allocation at the break, which are the same for the empty list. -/
def grownMem (s : Machine) (size L : ℕ) : Mem :=
  (((((s.mem.store s.brk 8 size).store (s.brk + 8) 2 1).store (s.brk + 16) 8 s.memTail).store
    (s.brk + 24) 8 L).store (L + 16) 8 s.brk).store (s.memTail + 24) 8 s.brk

/-- The writes that cut a request off a run. `A` and `F` are the headers of the run and of what
follows it, and the rest of the run becomes the chunk at `N`. -/
def splitMem (m : Mem) (size capacity A N F : ℕ) : Mem :=
  (((((((m.store N 8 (capacity - size - 32)).store (N + 8) 2 0).store (N + 16) 8 F).store
    (N + 24) 8 A).store (F + 24) 8 N).store A 8 size).store (A + 8) 2 1).store (A + 16) 8 N

/-- The writes that hand out a whole run. -/
def absorbMem (m : Mem) (capacity A F : ℕ) : Mem :=
  (((m.store A 8 capacity).store (A + 8) 2 1).store (A + 16) 8 F).store (F + 24) 8 A

namespace Layout

variable {s : Machine} {cs : List Chunk}

theorem lastAddr_bounds (h : Layout s cs) {L : ℕ}
    (hL : L = lastAddr 0 s.start (sentinel :: cs)) :
    s.start ≤ L ∧ L + 32 ≤ s.brk ∧ (L = s.start ∨ s.start + 64 ≤ L) ∧
      ∃ off c, ChunkAt (sentinel :: cs) off c ∧ L = s.start + off := by
  obtain ⟨ds, d, hds⟩ := exists_concat cs
  have hLd : L = s.start + span ds := by rw [hL, hds, lastAddr_concat]
  have hd : ChunkAt (sentinel :: cs) (span ds) d := ⟨ds, [], hds, rfl⟩
  have hle := hd.le_span
  have hoff := off_eq_zero_or_le hd
  have hext : d.extent = 32 + d.size := rfl
  have hbrk := h.brk
  exact ⟨by omega, by omega, by omega, span ds, d, hd, hLd⟩

/-! ## `sbrk` -/

end Layout

theorem sbrk_refused {s : Machine} {incr : ℤ} (h : ¬(s.brk : ℤ) + incr ≤ s.limit.val) :
    s.sbrk incr = (2 ^ 64 - 1, { s with errno := ENOMEM }) :=
  if_neg fun hok ↦ h hok.2

theorem sbrk_zero (s : Machine) : ∃ p e, s.sbrk 0 = (p, { s with errno := e }) := by
  rw [sbrk]
  split
  · exact ⟨s.brk, s.errno, by simp⟩
  · exact ⟨_, ENOMEM, rfl⟩

namespace Layout

variable {s : Machine} {cs : List Chunk}

/-! ## `hub` -/

theorem refreshHub_eq (h : Layout s cs) : s.refreshHub = { s with hub := s.brk } := by
  have hbrk := h.brk
  have hle := h.brk_le
  rw [refreshHub, sbrk_eq (by omega) (by omega)]
  simp [withBrk]

theorem refreshHub (h : Layout s cs) : Layout s.refreshHub cs := by
  rw [h.refreshHub_eq]
  exact ⟨h.hlb, h.memHead, h.memTail, h.brk, h.brk_le, h.seg, h.tail⟩

/-! ## A new chunk at the break -/

theorem growHeap_header {t : Machine} {size p : ℕ} (hok : s.growHeap size = .ok (p, t)) :
    (s.sbrk (intptr (wrap (size + sizeofMemChunk)))).1 + 32
      ≤ (s.sbrk (intptr (wrap (size + sizeofMemChunk)))).2.mappedEnd := by
  rw [growHeap] at hok
  obtain ⟨memChunk, u, hu⟩ : ∃ memChunk u,
      s.sbrk (intptr (wrap (size + sizeofMemChunk))) = (memChunk, u) := ⟨_, _, rfl⟩
  rw [hu] at hok ⊢
  obtain ⟨s₁, h₁, hok⟩ := Except.bind_eq_ok_iff.mp hok
  obtain ⟨s₂, h₂, hok⟩ := Except.bind_eq_ok_iff.mp hok
  obtain ⟨next, -, hok⟩ := Except.bind_eq_ok_iff.mp hok
  have hmapped : s₂.mappedEnd = u.mappedEnd := (store_ok h₂).2.2.trans (store_ok h₁).2.2
  -- the back link is the last field of the header, in either branch
  split at hok
  · obtain ⟨s₃, h₃, hok⟩ := Except.bind_eq_ok_iff.mp hok
    obtain ⟨s₄, h₄, -⟩ := Except.bind_eq_ok_iff.mp hok
    obtain ⟨-, hhi, -⟩ := store_ok h₄
    have hmapped₃ := (store_ok h₃).2.2
    dsimp only
    omega
  · obtain ⟨s₃, h₃, hok⟩ := Except.bind_eq_ok_iff.mp hok
    obtain ⟨prev, -, hok⟩ := Except.bind_eq_ok_iff.mp hok
    obtain ⟨s₄, h₄, -⟩ := Except.bind_eq_ok_iff.mp hok
    obtain ⟨-, hhi, -⟩ := store_ok h₄
    have hmapped₃ := (store_ok h₃).2.2
    dsimp only
    omega

theorem sbrk_grow (h : Layout s cs) {size : ℕ} (hroom : s.brk + (size + 32) ≤ s.limit.val) :
    s.sbrk (intptr (wrap (size + sizeofMemChunk))) = (s.brk, s.withBrk (s.brk + (size + 32))) := by
  have hlimit := s.limit.isLt
  have hbrk := h.brk
  have hincr : intptr (wrap (size + sizeofMemChunk)) = (size + 32 : ℕ) := by
    rw [sizeofMemChunk, wrap_of_lt (by omega), intptr, if_pos (by omega)]
  rw [hincr, sbrk_eq (by omega) (by omega)]
  rfl

/-- The writes of an allocation at the break, wherever the increment has taken the break to. -/
theorem growHeap_eq (h : Layout s cs) {size b : ℕ}
    (hsbrk : s.sbrk (intptr (wrap (size + sizeofMemChunk))) = (s.brk, s.withBrk b))
    (hmapped : s.brk + 32 ≤ s.paging.endOf b) {L : ℕ}
    (hL : L = lastAddr 0 s.start (sentinel :: cs)) :
    s.growHeap size = .ok (s.brk + 32, (s.withBrk b).withMem (grownMem s size L)) := by
  have hlt := h.brk_lt
  have hbrk := h.brk
  have htail := h.memTail
  have hhead := h.memHead
  rw [span_sentinel_cons] at hbrk
  rw [sizeofMemChunk] at hbrk htail
  obtain ⟨hLlo, hLhi, hLoff, -⟩ := h.lastAddr_bounds hL
  have hback : s.mem.load (s.memTail + 24) 8 = L := by rw [h.tail.prev, hL]
  have hfirst : s.mem.load (s.memHead + 16) 8 = entry (s.start + 64) cs s.memTail := by
    rw [hhead]
    exact h.seg.1.next
  have hwrap : wrap (s.brk + sizeofMemChunk) = s.brk + 32 :=
    wrap_of_lt (by rw [sizeofMemChunk]; omega)
  rw [growHeap, hsbrk]
  simp (disch := ((try simp only [withMem_start, withBrk_start, withMem_mappedEnd,
    withBrk_mappedEnd]); omega)) only [setSize_eq_ok, setStat_eq_ok, setMpNext_eq_ok,
    setMpPrev_eq_ok, mpNext_eq_ok, mpPrev_eq_ok, Except.ok_bind_eq, withMem_mem, withBrk_mem,
    withMem_withMem, withMem_memHead, withBrk_memHead, withMem_memTail, withBrk_memTail,
    Mem.load_store_of_disjoint, hfirst, hback, hwrap]
  cases cs with
  | nil =>
    have hLhead : L = s.memHead := by rw [hL, hhead]; rfl
    rw [entry_nil, if_pos rfl, ← hLhead]
    rfl
  | cons c cs =>
    rw [entry_cons, if_neg (by omega)]
    rfl

theorem growHeap_granted (h : Layout s cs) {size : ℕ}
    (hroom : s.brk + (size + 32) ≤ s.limit.val) {L : ℕ}
    (hL : L = lastAddr 0 s.start (sentinel :: cs)) :
    s.growHeap size
      = .ok (s.brk + 32, (s.withBrk (s.brk + (size + 32))).withMem (grownMem s size L)) := by
  have hmapped := s.paging.le_endOf (s.brk + (size + 32))
  exact h.growHeap_eq (h.sbrk_grow hroom) (by omega) hL

/-- The heap grows only by what the kernel grants. When the kernel refuses, no header can be written
at the `(void*) -1`. -/
theorem growHeap_ok (h : Layout s cs) {size p : ℕ} {t : Machine}
    (hsize : size + sizeofMemChunk < 2 ^ 63) (hok : s.growHeap size = .ok (p, t)) :
    s.brk + (size + 32) ≤ s.limit.val := by
  have hheader := growHeap_header hok
  have hincr : intptr (wrap (size + sizeofMemChunk)) = (size + sizeofMemChunk : ℕ) := by
    rw [wrap_of_lt (by omega), intptr, if_pos hsize]
  rw [hincr] at hheader
  by_cases hroom : (s.brk : ℤ) + (size + sizeofMemChunk : ℕ) ≤ s.limit.val
  · rw [sizeofMemChunk] at hroom
    omega
  · rw [sbrk_refused hroom] at hheader
    have hend : s.mappedEnd ≤ 2 ^ 63 := h.mappedEnd_le
    have hfixed : Machine.mappedEnd { s with errno := ENOMEM } = s.mappedEnd := rfl
    dsimp only at hheader
    rw [hfixed] at hheader
    omega

theorem growHeap_update (h : Layout s cs) {words : ℕ}
    (hroom : s.brk + (8 * words + 32) ≤ s.limit.val) :
    ∃ s', s.growHeap (8 * words) = .ok (s.brk + 32, s') ∧
      Update s cs s' (cs ++ [⟨words, true⟩]) := by
  obtain ⟨L, hL⟩ : ∃ L, L = lastAddr 0 s.start (sentinel :: cs) := ⟨_, rfl⟩
  obtain ⟨hLlo, hLhi, hLoff, off, c, hc, hLc⟩ := h.lastAddr_bounds hL
  have hlt := h.brk_lt
  have htail := h.memTail
  rw [sizeofMemChunk] at htail
  have hbrk64 : s.start + 64 ≤ s.brk := by
    have hbrk := h.brk
    rw [span_sentinel_cons, sizeofMemChunk] at hbrk
    omega
  have hext : (⟨words, true⟩ : Chunk).extent = 8 * words + 32 := Nat.add_comm _ _
  refine ⟨_, h.growHeap_granted hroom hL, ?_, rfl, rfl, rfl, ?_⟩
  · rw [← hext]
    refine h.grow hL (by rw [hext]; exact hroom) ⟨?_, ?_, ?_, ?_⟩ ?_ ?_ ?_
    · simp (disch := omega) only [grownMem, Mem.load_store_of_disjoint]
      exact Mem.load_store_same _ (by omega)
    · simp (disch := omega) only [grownMem, Mem.load_store_of_disjoint]
      exact Mem.load_store_same _ (by omega)
    · simp (disch := omega) only [grownMem, Mem.load_store_of_disjoint]
      exact Mem.load_store_same _ (by omega)
    · simp (disch := omega) only [grownMem, Mem.load_store_of_disjoint]
      exact Mem.load_store_same _ (by omega)
    · simp (disch := omega) only [grownMem, Mem.load_store_of_disjoint]
      exact Mem.load_store_same _ (by omega)
    · exact Mem.load_store_same _ (by omega)
    · intro x hx hno hno'
      simp (disch := omega) only [grownMem, Mem.store_apply_of_disjoint]
  · intro x hx
    have hbounds := hx.bounds h
    have hheader := hx.not_header hc
    simp (disch := omega) only [withMem_mem, grownMem, Mem.store_apply_of_disjoint]

/-! ## A run of free chunks -/

section TakeRun

variable {size capacity A F : ℕ}

theorem takeRun_split (h : Layout s cs) (hA : s.start ≤ A) (hF : F = A + 32 + capacity)
    (hF' : F + 32 ≤ s.brk) (hsize : size + 48 ≤ capacity) :
    s.takeRun size capacity A F
      = .ok (A + 32, s.withMem (splitMem s.mem size capacity A (A + (size + 32)) F)) := by
  have hlt := h.brk_lt
  have hmapped := s.brk_le_mappedEnd
  have hsub : wrapSub capacity size = capacity - size := wrapSub_of_le (by omega) (by omega)
  have hsub' : wrapSub (capacity - size) sizeofMemChunk = capacity - size - 32 :=
    wrapSub_of_le (by rw [sizeofMemChunk]; omega) (by omega)
  have hnew : wrap (A + wrap (size + sizeofMemChunk)) = A + (size + 32) := by
    rw [sizeofMemChunk, wrap_of_lt (x := size + 32) (by omega), wrap_of_lt (by omega)]
  have hresult : wrap (A + sizeofMemChunk) = A + 32 := wrap_of_lt (by rw [sizeofMemChunk]; omega)
  rw [takeRun, hsub, hsub', hnew, hresult, if_pos (by rw [sizeofMemChunk]; omega)]
  simp (disch := ((try simp only [withMem_start, withMem_mappedEnd]); omega)) only [setSize_eq_ok,
    setStat_eq_ok, setMpNext_eq_ok, setMpPrev_eq_ok, Except.ok_bind_eq, withMem_mem,
    withMem_withMem]
  rfl

theorem takeRun_absorb (h : Layout s cs) (hA : s.start ≤ A) (hF : F = A + 32 + capacity)
    (hF' : F + 32 ≤ s.brk) (hsize : size ≤ capacity) (hsize' : ¬size + 48 ≤ capacity) :
    s.takeRun size capacity A F = .ok (A + 32, s.withMem (absorbMem s.mem capacity A F)) := by
  have hlt := h.brk_lt
  have hmapped := s.brk_le_mappedEnd
  have hsub : wrapSub capacity size = capacity - size := wrapSub_of_le hsize (by omega)
  have hresult : wrap (A + sizeofMemChunk) = A + 32 := wrap_of_lt (by rw [sizeofMemChunk]; omega)
  rw [takeRun, hsub, hresult, if_neg (by rw [sizeofMemChunk]; omega)]
  simp (disch := ((try simp only [withMem_start, withMem_mappedEnd]); omega)) only [setSize_eq_ok,
    setStat_eq_ok, setMpNext_eq_ok, setMpPrev_eq_ok, Except.ok_bind_eq, withMem_mem,
    withMem_withMem]
  rfl

end TakeRun

end Layout

/-- A run that the scan found, in memory: it starts at `A`, `F` follows it and `P` precedes it. -/
structure RunAt (s : Machine) (f : Fit) (A F P : ℕ) : Prop where
  layout : Layout s (f.before ++ f.run ++ f.after)
  run_ne_nil : f.run ≠ []
  eight_dvd : 8 ∣ f.capacity
  span_run : span f.run = f.capacity + 32
  addr : A = s.start + span (sentinel :: f.before)
  next : F = entry (A + span f.run) f.after s.memTail
  prev : P = lastAddr 0 s.start (sentinel :: f.before)
  next_eq : F = A + 32 + f.capacity
  lower : s.start + 64 ≤ A
  upper : F + 32 ≤ s.brk
  load_prev : s.mem.load (A + 24) 8 = P
  frame : ∀ x, PayloadByte s (f.before ++ f.run ++ f.after) x → x < A ∨ F + 32 ≤ x

theorem Layout.runAt {s : Machine} {f : Fit} (h : Layout s (f.before ++ f.run ++ f.after))
    (hrun : f.run ≠ []) (hafter : f.after ≠ []) (hfree : ∀ c ∈ f.run, c.inUse = false) :
    ∃ A F P, RunAt s f A F P := by
  obtain ⟨A, hA⟩ : ∃ A, A = s.start + span (sentinel :: f.before) := ⟨_, rfl⟩
  have hspan := sizeofMemChunk_le_span hrun
  have hcapacity : f.capacity = span f.run - 32 := rfl
  rw [sizeofMemChunk] at hspan
  -- the chunk behind the run, and the first chunk of the run
  obtain ⟨d, ds, hd⟩ := List.exists_cons_of_ne_nil hafter
  obtain ⟨e, es, he⟩ := List.exists_cons_of_ne_nil hrun
  have hsplitF : sentinel :: (f.before ++ f.run ++ f.after)
      = (sentinel :: f.before ++ f.run) ++ d :: ds := by
    rw [hd]
    simp
  have hsplitA : sentinel :: (f.before ++ f.run ++ f.after)
      = (sentinel :: f.before) ++ e :: (es ++ f.after) := by
    rw [he]
    simp
  have hatF := h.headerAt hsplitF
  have hatA := h.headerAt hsplitA
  have hAF : s.start + span (sentinel :: f.before ++ f.run) = A + span f.run := by
    rw [hA, span_append, add_assoc]
  rw [hAF] at hatF
  rw [← hA] at hatA
  refine ⟨A, entry (A + span f.run) f.after s.memTail, _, h, hrun, f.eight_dvd_capacity hrun,
    by omega, hA, rfl, rfl, ?_, ?_, ?_, hatA.header.prev, fun x hx ↦ ?_⟩
  · rw [entry_of_ne_nil hafter]
    omega
  · rw [hA, span_sentinel_cons, sizeofMemChunk]
    omega
  · rw [entry_of_ne_nil hafter]
    exact hatF.upper
  · have hout := hx.not_free (show sentinel :: (f.before ++ f.run ++ f.after)
      = (sentinel :: f.before) ++ f.run ++ f.after from rfl) hfree
    have hheadAt : ChunkAt (sentinel :: (f.before ++ f.run ++ f.after))
        (span (sentinel :: f.before ++ f.run)) d :=
      ⟨sentinel :: f.before ++ f.run, ds, hsplitF, rfl⟩
    have hhead := hx.not_header hheadAt
    rw [entry_of_ne_nil hafter]
    omega

namespace RunAt

variable {s : Machine} {f : Fit} {A F P words : ℕ}

theorem split_update (h : RunAt s f A F P) (hsplit : 8 * words + 48 ≤ f.capacity) :
    Update s (f.before ++ f.run ++ f.after)
      (s.withMem (splitMem s.mem (8 * words) f.capacity A (A + (8 * words + 32)) F))
      (f.chunks words) := by
  have hlt := h.layout.brk_lt
  have hlower := h.lower
  have hupper := h.upper
  have hnext := h.next_eq
  have hdvd := h.eight_dvd
  have hspan := h.span_run
  have htail := h.layout.memTail
  rw [sizeofMemChunk] at htail
  have hchunks : f.chunks words = f.before ++ [⟨words, true⟩,
      ⟨(f.capacity - 8 * words - sizeofMemChunk) / 8, false⟩] ++ f.after := by
    rw [Fit.chunks, if_pos (by rw [sizeofMemChunk]; omega)]
    simp
  have hext : A + (⟨words, true⟩ : Chunk).extent = A + (8 * words + 32) := by
    simp only [Chunk.extent, Chunk.size, sizeofMemChunk]
    omega
  have hrest : (⟨(f.capacity - 8 * words - sizeofMemChunk) / 8, false⟩ : Chunk).size
      = f.capacity - 8 * words - 32 := by
    simp only [Chunk.size, sizeofMemChunk]
    omega
  have hspan' : span [⟨words, true⟩, ⟨(f.capacity - 8 * words - sizeofMemChunk) / 8, false⟩]
      = span f.run := by
    simp only [span_cons, span_nil, Chunk.extent, Chunk.size, sizeofMemChunk]
    omega
  refine ⟨?_, rfl, rfl, rfl, ?_⟩
  · rw [hchunks]
    refine h.layout.splice h.run_ne_nil (by simp) hspan' h.addr h.next h.prev ?_ ?_ ?_
    -- the four fields of the served chunk, and the four of the rest
    · rw [Seg, Seg, hext, entry_cons, entry_nil]
      refine ⟨⟨?_, ?_, ?_, ?_⟩, ⟨?_, ?_, ?_, ?_⟩, trivial⟩
      · simp (disch := omega) only [splitMem, Mem.load_store_of_disjoint]
        exact Mem.load_store_same _ (by omega)
      · simp (disch := omega) only [splitMem, Mem.load_store_of_disjoint]
        exact Mem.load_store_same _ (by omega)
      · exact Mem.load_store_same _ (by omega)
      · simp (disch := omega) only [splitMem, Mem.load_store_of_disjoint]
        exact h.load_prev
      · simp (disch := omega) only [splitMem, Mem.load_store_of_disjoint]
        rw [hrest]
        exact Mem.load_store_same _ (by omega)
      · simp (disch := omega) only [splitMem, Mem.load_store_of_disjoint]
        exact Mem.load_store_same _ (by omega)
      · simp (disch := omega) only [splitMem, Mem.load_store_of_disjoint]
        exact Mem.load_store_same _ (by omega)
      · simp (disch := omega) only [splitMem, Mem.load_store_of_disjoint]
        exact Mem.load_store_same _ (by omega)
    · rw [lastAddr_cons, lastAddr_cons, lastAddr_nil, hext]
      simp (disch := omega) only [splitMem, Mem.load_store_of_disjoint]
      exact Mem.load_store_same _ (by omega)
    · intro x hx hno
      simp (disch := omega) only [splitMem, Mem.store_apply_of_disjoint]
  · intro x hx
    have hframe := h.frame x hx
    simp (disch := omega) only [withMem_mem, splitMem, Mem.store_apply_of_disjoint]

theorem absorb_update (h : RunAt s f A F P) (hsplit : ¬8 * words + 48 ≤ f.capacity) :
    Update s (f.before ++ f.run ++ f.after) (s.withMem (absorbMem s.mem f.capacity A F))
      (f.chunks words) := by
  have hlt := h.layout.brk_lt
  have hlower := h.lower
  have hupper := h.upper
  have hnext := h.next_eq
  have hdvd := h.eight_dvd
  have hspan := h.span_run
  have htail := h.layout.memTail
  rw [sizeofMemChunk] at htail
  have hchunks : f.chunks words = f.before ++ [⟨f.capacity / 8, true⟩] ++ f.after := by
    rw [Fit.chunks, if_neg (by rw [sizeofMemChunk]; omega)]
    simp
  have hsize : (⟨f.capacity / 8, true⟩ : Chunk).size = f.capacity := Nat.mul_div_cancel' hdvd
  have hspan' : span [⟨f.capacity / 8, true⟩] = span f.run := by
    rw [span_cons, span_nil, Chunk.extent, hsize, sizeofMemChunk]
    omega
  refine ⟨?_, rfl, rfl, rfl, ?_⟩
  · rw [hchunks]
    refine h.layout.splice h.run_ne_nil (by simp) hspan' h.addr h.next h.prev
      ⟨⟨?_, ?_, ?_, ?_⟩, trivial⟩ ?_ ?_
    · simp (disch := omega) only [absorbMem, Mem.load_store_of_disjoint]
      rw [hsize]
      exact Mem.load_store_same _ (by omega)
    · simp (disch := omega) only [absorbMem, Mem.load_store_of_disjoint]
      exact Mem.load_store_same _ (by omega)
    · simp (disch := omega) only [absorbMem, Mem.load_store_of_disjoint]
      exact Mem.load_store_same _ (by omega)
    · simp (disch := omega) only [absorbMem, Mem.load_store_of_disjoint]
      exact h.load_prev
    · exact Mem.load_store_same _ (by omega)
    · intro x hx hno
      simp (disch := omega) only [absorbMem, Mem.store_apply_of_disjoint]
  · intro x hx
    have hframe := h.frame x hx
    simp (disch := omega) only [withMem_mem, absorbMem, Mem.store_apply_of_disjoint]

theorem takeRun_update (h : RunAt s f A F P) (hcap : 8 * words ≤ f.capacity) :
    ∃ s', s.takeRun (8 * words) f.capacity A F = .ok (A + 32, s') ∧
      Update s (f.before ++ f.run ++ f.after) s' (f.chunks words) := by
  have hlower := h.lower
  by_cases hsplit : 8 * words + 48 ≤ f.capacity
  · exact ⟨_, h.layout.takeRun_split (by omega) h.next_eq h.upper hsplit, h.split_update hsplit⟩
  · exact ⟨_, h.layout.takeRun_absorb (by omega) h.next_eq h.upper hcap hsplit,
      h.absorb_update hsplit⟩

end RunAt

/-- A machine that holds the heap `h`, and whose `hub` is the break. -/
structure Holds (s : Machine) (h : Heap) : Prop where
  layout : Layout s h.chunks
  hub : s.hub = s.brk

/-! ## `init` -/

/-- The headers of the two sentinels. -/
def sentinelMem (m : Mem) (a : ℕ) : Mem :=
  (((((((m.store a 8 32).store (a + 8) 2 1).store (a + 16) 8 (a + 32)).store (a + 24) 8 0).store
    (a + 32) 8 32).store (a + 40) 2 1).store (a + 48) 8 0).store (a + 56) 8 a

/-- The machine that `init` leaves behind. -/
def initialized (mem : Mem) (paging : Paging) (brk : ℕ) (limit : Fin (2 ^ 63)) (errno : ℕ) :
    Machine where
  mem := sentinelMem mem brk
  paging := paging
  start := brk
  brk := brk + 64
  limit := limit
  errno := errno
  hlb := brk
  hub := brk + 64
  memHead := brk
  memTail := brk + 32

section Init

variable {mem : Mem} {paging : Paging} {brk errno : ℕ} {limit : Fin (2 ^ 63)}

theorem linkSentinels_eq {t : Machine} (hhead : t.memHead = t.start)
    (htail : t.memTail = t.start + 32) (hbrk : t.start + 64 ≤ t.brk) :
    t.linkSentinels = .ok (t.withMem (sentinelMem t.mem t.start)) := by
  have hmapped := t.brk_le_mappedEnd
  rw [linkSentinels, hhead]
  simp (disch := ((try simp only [withMem_start, withMem_mappedEnd]); omega)) only [setSize_eq_ok,
    setStat_eq_ok, setMpNext_eq_ok, setMpPrev_eq_ok, Except.ok_bind_eq, withMem_mem,
    withMem_withMem, withMem_memHead, withMem_memTail, hhead, htail]
  rfl

/-- Without room for both sentinels, one of them cannot be written. -/
theorem linkSentinels_refused {t : Machine}
    (hrefused : t.brk = t.start ∧ t.memHead = 2 ^ 64 - 1 ∨ t.brk ≤ 2 ^ 63 ∧
      t.memTail = 2 ^ 64 - 1 ∧ t.memHead = t.start ∧ t.start + 32 ≤ t.brk) :
    t.linkSentinels = .error .segv := by
  have hmapped := t.brk_le_mappedEnd
  have hend : t.mappedEnd ≤ max t.brk (2 ^ 63) := t.paging.endOf_le t.brk
  rw [linkSentinels]
  rcases hrefused with ⟨hempty, hhead⟩ | ⟨hbrk, htail, hhead, hroom⟩
  · rw [setSize, store, Mem.storeIn, if_neg (by omega)]
    rfl
  · simp (disch := ((try simp only [withMem_start, withMem_mappedEnd]); omega)) only [setSize_eq_ok,
      setStat_eq_ok, setMpNext_eq_ok, setMpPrev_eq_ok, Except.ok_bind_eq, withMem_mem,
      withMem_withMem, withMem_memHead, withMem_memTail, hhead]
    rw [setSize, store, Mem.storeIn, if_neg (by rw [withMem_mappedEnd]; omega)]
    rfl

theorem init_eq (hroom : brk + 64 ≤ limit.val) :
    (boot mem paging brk limit errno).init = .ok (initialized mem paging brk limit errno) := by
  have hint : intptr sizeofMemChunk = 32 := by decide
  have h0 : (boot mem paging brk limit errno).sbrk 0 = (brk, boot mem paging brk limit errno) :=
    sbrk_eq (by simp [boot]) (by simp only [boot]; omega)
  have h1 : (boot mem paging brk limit errno).sbrk 32
      = (brk, (boot mem paging brk limit errno).withBrk (brk + 32)) :=
    sbrk_eq (by simp only [boot]; omega) (by simp only [boot]; omega)
  have h2 : ((boot mem paging brk limit errno).withBrk (brk + 32)).sbrk 32
      = (brk + 32, (boot mem paging brk limit errno).withBrk (brk + 64)) :=
    sbrk_eq (by simp only [boot, withBrk]; omega) (by simp only [boot, withBrk]; omega)
  have h3 : ((boot mem paging brk limit errno).withBrk (brk + 64)).sbrk 0
      = (brk + 64, (boot mem paging brk limit errno).withBrk (brk + 64)) :=
    sbrk_eq (by simp only [boot, withBrk]; omega) (by simp only [boot, withBrk]; omega)
  simp only [init, hint, h0, h1, h2, h3]
  exact linkSentinels_eq rfl rfl le_rfl

/-- `init` completes only when the kernel grants both sentinels: it writes through the `(void*) -1`
of a failed `sbrk`. -/
theorem init_refused (hroom : ¬brk + 64 ≤ limit.val) :
    (boot mem paging brk limit errno).init = .error .segv := by
  have hint : intptr sizeofMemChunk = 32 := by decide
  have hlimit := limit.isLt
  obtain ⟨p, e, h0⟩ := sbrk_zero (boot mem paging brk limit errno)
  simp only [init, hint, h0]
  obtain ⟨t, ht⟩ : ∃ t : Machine, t = { boot mem paging brk limit errno with errno := e } :=
    ⟨_, rfl⟩
  have hstart : t.start = brk := by rw [ht]; rfl
  have hbrk : t.brk = brk := by rw [ht]; rfl
  have hlim : t.limit = limit := by rw [ht]; rfl
  rw [← ht]
  by_cases hhead : brk + 32 ≤ limit.val
  · -- only the head sentinel is granted
    have h1 : t.sbrk 32 = (brk, t.withBrk (brk + 32)) := by
      rw [sbrk_eq (by omega) (by omega), hbrk]
      rfl
    have h2 : (t.withBrk (brk + 32)).sbrk 32
        = (2 ^ 64 - 1, { t.withBrk (brk + 32) with errno := ENOMEM }) :=
      sbrk_refused (by rw [withBrk_brk, withBrk_limit]; omega)
    obtain ⟨p', e', h3⟩ := sbrk_zero { t.withBrk (brk + 32) with errno := ENOMEM }
    simp only [h1, h2, h3]
    refine linkSentinels_refused (Or.inr ⟨?_, rfl, hstart.symm, ?_⟩)
    · dsimp only [withBrk]
      omega
    · dsimp only [withBrk]
      omega
  · have h1 : t.sbrk 32 = (2 ^ 64 - 1, { t with errno := ENOMEM }) := sbrk_refused (by omega)
    have h2 : ({ t with errno := ENOMEM } : Machine).sbrk 32
        = (2 ^ 64 - 1, { t with errno := ENOMEM }) := sbrk_refused (by dsimp only; omega)
    obtain ⟨p', e', h3⟩ := sbrk_zero { t with errno := ENOMEM }
    simp only [h1, h2, h3]
    exact linkSentinels_refused (Or.inl ⟨hbrk.trans hstart.symm, rfl⟩)

theorem holds_initialized (hroom : brk + 64 ≤ limit.val) :
    Holds (initialized mem paging brk limit errno) Heap.empty := by
  have hlimit := limit.isLt
  refine ⟨⟨rfl, rfl, rfl, rfl, hroom, ⟨⟨?_, ?_, ?_, ?_⟩, trivial⟩, ⟨?_, ?_, ?_, ?_⟩⟩, rfl⟩
  all_goals
    simp (disch := omega) only [initialized, sentinelMem, Mem.load_store_of_disjoint]
    exact Mem.load_store_same _ (by omega)

end Init

/-! ## `my_malloc_hook` -/

/-- The words that a request of `n` bytes is rounded up to. -/
def requestWords (n : ℕ) : ℕ := (n + 7) / 8

/-- The pointer handed out for the chunk at an offset behind the first header. -/
def payloadAt (s : Machine) (off : ℕ) : ℕ := s.start + 2 * sizeofMemChunk + off + sizeofMemChunk

theorem Update.refreshHub {s s' : Machine} {cs cs' : List Chunk} (h : Update s cs s' cs') :
    Update s cs s'.refreshHub cs' ∧ s'.refreshHub.hub = s'.refreshHub.brk := by
  have hlayout := h.layout.refreshHub
  rw [h.layout.refreshHub_eq] at hlayout ⊢
  exact ⟨⟨hlayout, h.start, h.limit, h.errno, h.frame⟩, rfl⟩

section Allocate

variable {s : Machine} {h : Heap} {n words : ℕ}

/-- Rounding up takes a request to a whole number of words, though not always to enough of them. -/
theorem round_eq (hwords : wrap (n + 7) / 8 = words) :
    wrap (wrap (n + 7) / 8 * 8) = 8 * words := by
  have hlt : wrap (n + 7) < 2 ^ 64 := Nat.mod_lt _ (by omega)
  rw [hwords, wrap_of_lt (by omega), mul_comm]

theorem wrap_div_eq (hsize : n + 7 < 2 ^ 64) : wrap (n + 7) / 8 = requestWords n := by
  rw [wrap_of_lt hsize, requestWords]

theorem Layout.mpNext_memHead {cs : List Chunk} (h : Layout s cs) :
    s.mpNext s.memHead = .ok (entry (s.start + span [sentinel]) cs s.memTail) := by
  rw [h.memHead]
  exact (h.headerAt (List.nil_append _).symm).mpNext

/-- Where the scan of the hook ends, however it follows the links of the chunks. -/
theorem Holds.scan (hs : Holds s h) (link : ℕ → Except Fault ℕ) (hlink : s.FollowsChunks link)
    (size : ℕ) :
    ∃ first, s.mpNext s.memHead = .ok first ∧
      (findFit size h.chunks = none → ∃ sCurs,
        s.scanLoopVia link size s.fuel first 0 = .ok (0, s.memTail, sCurs)) ∧
      ∀ f, findFit size h.chunks = some f →
        s.scanLoopVia link size s.fuel first 0
          = .ok (f.capacity, s.start + span (sentinel :: f.before),
              entry (s.start + span (sentinel :: f.before) + span f.run) f.after s.memTail) := by
  obtain ⟨hnone, hsome⟩ := hs.layout.scanLoopVia_eq hlink (getLast?_sentinel_cons h.last_inUse) size
    List.singleton_append.symm (lt_trans (by simp) hs.layout.length_lt_fuel) 0
  refine ⟨_, hs.layout.mpNext_memHead, hnone, fun f hf ↦ ?_⟩
  rw [hsome f hf, span_append (_ ++ _), ← add_assoc]
  rfl

theorem myMallocHook_of_none (hs : Holds s h) (hn : n ≠ 0)
    (hwords : wrap (n + 7) / 8 = words)
    (hf : findFit (8 * words) h.chunks = none) :
    s.myMallocHook n = s.growHeap (8 * words) >>= fun (result, t) ↦
      .ok (if t.refreshHub.errno ≠ ENOMEM then result else 0, t.refreshHub) := by
  obtain ⟨first, hfirst, hnone, -⟩ := hs.scan s.mpNext (fun _ _ ↦ rfl) (8 * words)
  obtain ⟨sCurs, hscan⟩ := hnone hf
  rw [scanLoopVia_mpNext] at hscan
  rw [myMallocHook, if_neg hn, round_eq hwords, hfirst, Except.ok_bind_eq, hscan,
    Except.ok_bind_eq]
  dsimp only
  rw [if_pos rfl]
  rfl

theorem myMallocHook_of_some (hs : Holds s h) (hn : n ≠ 0)
    (hwords : wrap (n + 7) / 8 = words) {f : Fit}
    (hf : findFit (8 * words) h.chunks = some f) {A F P : ℕ} (hat : RunAt s f A F P) :
    s.myMallocHook n = s.takeRun (8 * words) f.capacity A F >>= fun (result, t) ↦
      .ok (if t.refreshHub.errno ≠ ENOMEM then result else 0, t.refreshHub) := by
  obtain ⟨first, hfirst, -, hsome⟩ := hs.scan s.mpNext (fun _ _ ↦ rfl) (8 * words)
  have hscan := hsome f hf
  rw [scanLoopVia_mpNext, ← hat.addr, ← hat.next] at hscan
  have hne : A ≠ s.memTail := by
    have hlower := hat.lower
    rw [hs.layout.memTail, sizeofMemChunk]
    omega
  rw [myMallocHook, if_neg hn, round_eq hwords, hfirst, Except.ok_bind_eq, hscan,
    Except.ok_bind_eq]
  dsimp only
  rw [if_neg hne]
  rfl

/-- **`my_malloc_hook` refines `Heap.allocate`.** The hook completes when the request fits into a
run of free chunks, and when the kernel grants the larger break. -/
theorem myMallocHook_refines (hs : Holds s h) (hn : n ≠ 0)
    (hwords : wrap (n + 7) / 8 = words)
    (hroom : findFit (8 * words) h.chunks = none →
      s.brk + (8 * words + sizeofMemChunk) ≤ s.limit.val) :
    ∃ s', s.myMallocHook n
        = .ok (if s.errno ≠ ENOMEM then payloadAt s (h.allocateOffset words) else 0, s') ∧
      Update s h.chunks s' (h.allocate words).chunks ∧
      Holds s' (h.allocate words) := by
  have hl := hs.layout
  cases hf : findFit (8 * words) h.chunks with
  | none =>
    obtain ⟨t, ht, hupd⟩ := hl.growHeap_update (hroom hf)
    obtain ⟨hupd', hhub⟩ := hupd.refreshHub
    have hresult : s.brk + 32 = payloadAt s (h.allocateOffset words) := by
      rw [Heap.allocateOffset_of_none hf, payloadAt, hl.brk, span_sentinel_cons, sizeofMemChunk]
      omega
    rw [← Heap.allocateChunks_of_none hf] at hupd'
    refine ⟨t.refreshHub, ?_, hupd', hupd'.layout, hhub⟩
    rw [myMallocHook_of_none hs hn hwords hf, ht, Except.ok_bind_eq, ← hresult, ← hupd'.errno]
  | some f =>
    obtain ⟨hsplit, hrun, hfree, hcap⟩ := findFit_spec hf
    have hl' := hl
    rw [hsplit] at hl'
    obtain ⟨A, F, P, hat⟩ := hl'.runAt hrun (h.ne_nil_of_free hsplit hrun hfree) hfree
    obtain ⟨t, ht, hupd⟩ := hat.takeRun_update hcap
    obtain ⟨hupd', hhub⟩ := hupd.refreshHub
    have hresult : A + 32 = payloadAt s (h.allocateOffset words) := by
      rw [Heap.allocateOffset_of_some hf, payloadAt, hat.addr, span_sentinel_cons, sizeofMemChunk]
      omega
    rw [← hsplit, ← Heap.allocateChunks_of_some hf] at hupd'
    refine ⟨t.refreshHub, ?_, hupd', hupd'.layout, hhub⟩
    rw [myMallocHook_of_some hs hn hwords hf hat, ht, Except.ok_bind_eq, ← hresult, ← hupd'.errno]

/-- The hook completes only when it gets the larger break that it needs. -/
theorem myMallocHook_room (hs : Holds s h) (hn : n ≠ 0) (hwords : wrap (n + 7) / 8 = words)
    (hf : findFit (8 * words) h.chunks = none) (hlt : 8 * words + sizeofMemChunk < 2 ^ 63) {p : ℕ}
    {s' : Machine} (hok : s.myMallocHook n = .ok (p, s')) :
    s.brk + (8 * words + sizeofMemChunk) ≤ s.limit.val := by
  rw [myMallocHook_of_none hs hn hwords hf] at hok
  obtain ⟨⟨result, t⟩, hgrow, -⟩ := Except.bind_eq_ok_iff.mp hok
  exact hs.layout.growHeap_ok hlt hgrow

/-- Every completed allocation is an abstract one, unless the increment wraps. -/
theorem myMallocHook_ok (hs : Holds s h) (hn : n ≠ 0) (hwords : wrap (n + 7) / 8 = words)
    (hlt : findFit (8 * words) h.chunks = none → 8 * words + sizeofMemChunk < 2 ^ 63)
    {p : ℕ} {s' : Machine} (hok : s.myMallocHook n = .ok (p, s')) :
    p = (if s.errno ≠ ENOMEM then payloadAt s (h.allocateOffset words) else 0) ∧
      Update s h.chunks s' (h.allocate words).chunks ∧
      Holds s' (h.allocate words) := by
  have hroom : findFit (8 * words) h.chunks = none →
      s.brk + (8 * words + sizeofMemChunk) ≤ s.limit.val :=
    fun hf ↦ myMallocHook_room hs hn hwords hf (hlt hf) hok
  obtain ⟨t, ht, hupd, hholds⟩ := myMallocHook_refines hs hn hwords hroom
  rw [ht, Except.ok.injEq, Prod.mk.injEq] at hok
  obtain ⟨rfl, rfl⟩ := hok
  exact ⟨rfl, hupd, hholds⟩

end Allocate

/-! ## `my_free_hook` -/

/-- The two writes that unlink everything behind `L` from a list with tail sentinel `T`. -/
def trimMem (m : Mem) (L T : ℕ) : Mem := (m.store (T + 24) 8 L).store (L + 16) 8 T

theorem intptr_wrapSub_zero {x : ℕ} (h : x < 2 ^ 63) : intptr (wrapSub 0 x) = -(x : ℤ) := by
  rcases Nat.eq_zero_or_pos x with rfl | hpos
  · decide
  · have hsub : wrapSub 0 x = 2 ^ 64 - x := by
      rw [wrapSub, Nat.mod_eq_of_lt (by omega)]
      omega
    rw [hsub, intptr, if_neg (by omega)]
    omega

namespace Layout

variable {s : Machine} {cs : List Chunk}

theorem setStat_update {pre post : List Chunk} {c : Chunk} (h : Layout s (pre ++ c :: post)) {A : ℕ}
    (hA : A = s.start + span (sentinel :: pre)) :
    s.setStat A 0 = .ok (s.withMem (s.mem.store (A + 8) 2 0)) ∧
      Update s (pre ++ c :: post) (s.withMem (s.mem.store (A + 8) 2 0))
        (pre ++ c.release :: post) := by
  have hsplit : sentinel :: (pre ++ c :: post) = (sentinel :: pre) ++ c :: post := rfl
  have hat := h.headerAt hsplit
  have hup := hat.upper'
  rw [← hA] at hat hup
  have hA64 : s.start + 64 ≤ A := by rw [hA, span_sentinel_cons, sizeofMemChunk]; omega
  have htail := h.memTail
  rw [sizeofMemChunk] at htail
  obtain ⟨F, hF⟩ : ∃ F, F = entry (A + span [c]) post s.memTail := ⟨_, rfl⟩
  -- the next header is another chunk's or the tail's, and points back to this one
  have hF' : F = s.memTail ∨ A + 32 ≤ F := by
    have hext : c.extent = 32 + c.size := rfl
    rw [hF]
    cases post with
    | nil => exact Or.inl rfl
    | cons d post => rw [entry_cons, span_cons]; omega
  have hprev : s.mem.load (F + 24) 8 = A := by
    rw [hF]
    cases post with
    | nil =>
      rw [entry_nil, h.tail.prev, ← List.cons_append, lastAddr_concat, hA]
    | cons d post =>
      have hsplit' : sentinel :: (pre ++ c :: d :: post)
          = (sentinel :: pre ++ [c]) ++ d :: post := by simp
      have hatF := (h.headerAt hsplit').header.prev
      rw [lastAddr_concat, span_append, ← add_assoc, ← hA] at hatF
      exact hatF
  have hwhole : Layout s (pre ++ [c] ++ post) := by simpa using h
  have hlayout : Layout (s.withMem (s.mem.store (A + 8) 2 0)) (pre ++ [c.release] ++ post) :=
    splice hwhole (by simp) (by simp) (by simp) hA hF rfl ⟨⟨?_, ?_, ?_, ?_⟩, trivial⟩ ?_ ?_
  · refine ⟨setStat_eq_ok (by omega) hat.mapped, by simpa using hlayout, rfl, rfl, rfl,
      fun x hx ↦ ?_⟩
    have hheader := hx.not_header ⟨sentinel :: pre, post, hsplit, rfl⟩
    rw [← hA] at hheader
    simp (disch := omega) only [withMem_mem, Mem.store_apply_of_disjoint]
  · simp (disch := omega) only [Mem.load_store_of_disjoint]
    exact hat.header.size
  · exact Mem.load_store_same _ (by omega)
  · simp (disch := omega) only [Mem.load_store_of_disjoint]
    rw [hat.header.next, hF, span_cons, span_nil, add_zero]
    rfl
  · simp (disch := omega) only [Mem.load_store_of_disjoint]
    exact hat.header.prev
  · rw [Mem.load_store_of_disjoint _ (by omega)]
    exact hprev
  · intro x hx hno
    have hext : span [c] = 32 + c.size := rfl
    simp (disch := omega) only [Mem.store_apply_of_disjoint]

theorem trimHeap_eq {ds : List Chunk} (h : Layout s (cs ++ ds)) {L : ℕ}
    (hL : L = lastAddr 0 s.start (sentinel :: cs)) :
    s.trimHeap (span ds) L
        = .ok ((s.withMem (trimMem s.mem L s.memTail)).withBrk (s.brk - span ds)) ∧
      Layout ((s.withMem (trimMem s.mem L s.memTail)).withBrk (s.brk - span ds)) cs := by
  obtain ⟨es, e, hes⟩ := exists_concat cs
  have hlast : ChunkAt (sentinel :: cs) (span es) e := ⟨es, [], hes, rfl⟩
  have hLe : L = s.start + span es := by rw [hL, hes, lastAddr_concat]
  have hle := hlast.le_span
  have hoff := off_eq_zero_or_le hlast
  have hext : e.extent = 32 + e.size := rfl
  have htail := h.memTail
  have hbrk := h.brk
  have hbrk_le := h.brk_le
  have hlt := h.brk_lt
  rw [sizeofMemChunk] at htail
  rw [← List.cons_append, span_append] at hbrk
  have hcs := span_sentinel_cons cs
  rw [sizeofMemChunk] at hcs
  have hsbrk : s.brk - span ds = ((s.brk : ℤ) + -(span ds : ℤ)).toNat := by omega
  constructor
  · have hmapped := s.brk_le_mappedEnd
    rw [trimHeap, intptr_wrapSub_zero (by omega)]
    simp (disch := ((try simp only [withMem_start, withMem_mappedEnd]); omega)) only
      [setMpNext_eq_ok, setMpPrev_eq_ok, Except.ok_bind_eq, withMem_mem, withMem_withMem,
        withMem_memTail]
    rw [sbrk_eq (by rw [withMem_start, withMem_brk]; omega)
      (by rw [withMem_brk, withMem_limit]; omega), hsbrk]
    rfl
  · refine h.trim hL ?_ ?_ ?_
    · exact Mem.load_store_same _ (by omega)
    · rw [trimMem, Mem.load_store_of_disjoint _ (by omega)]
      exact Mem.load_store_same _ (by omega)
    · intro x hx hx'
      simp (disch := omega) only [trimMem, Mem.store_apply_of_disjoint]

end Layout

theorem payloadAt_eq (s : Machine) (pre : List Chunk) :
    payloadAt s (span pre) = s.start + span (sentinel :: pre) + sizeofMemChunk := by
  rw [payloadAt, span_sentinel_cons]
  omega

section Free

variable {s : Machine} {pre post : List Chunk} {c : Chunk} {A : ℕ} {chunks : List ℕ}

/-- A payload byte lies outside the header at which a shorter list ends. -/
theorem PayloadByte.not_lastAddr {cs ds : List Chunk} {x : ℕ} (hx : PayloadByte s (cs ++ ds) x) :
    ¬(lastAddr 0 s.start (sentinel :: cs) ≤ x ∧ x < lastAddr 0 s.start (sentinel :: cs) + 32) := by
  obtain ⟨es, e, hes⟩ := Layout.exists_concat cs
  rw [hes, lastAddr_concat]
  refine hx.not_header (c := e) ?_
  rw [← List.cons_append, hes]
  exact chunkAt_append_left ⟨es, [], rfl, rfl⟩ ds

/-- Releasing the last chunk gives back the free chunks in front of it as well. -/
theorem Layout.free_last (h : Layout s (pre ++ [c])) (hA : A = s.start + span (sentinel :: pre))
    {t : Machine} (ht : t = s.withMem (s.mem.store (A + 8) 2 0))
    (hupd : Update s (pre ++ [c]) t (pre ++ [c.release]))
    (hin : HeadersIn chunks (s.start + span [sentinel]) pre) :
    ∃ prev freeMem mCurs u, t.mpPrev A = .ok prev ∧
      t.backwardLoopIn chunks t.fuel (span [c]) prev = .ok (freeMem, mCurs) ∧
      t.trimHeap freeMem mCurs = .ok u ∧ Update s (pre ++ [c]) u (trimFree pre) := by
  have hlt := hupd.layout
  have hbrk := hlt.brk
  have hbrk_lt := hlt.brk_lt
  have hlower : s.start + 64 ≤ A := by rw [hA, span_sentinel_cons, sizeofMemChunk]; omega
  have htail := h.memTail
  rw [sizeofMemChunk] at htail
  have hat := hlt.headerAt List.cons_append.symm
  rw [hupd.start, ← hA, ← hupd.start] at hat
  rw [span_sentinel_cons, span_append] at hbrk
  have hmem : span [c] + span pre < 2 ^ 64 := by
    have hc : span [c] = span [c.release] := rfl
    omega
  have hfuel : pre.length < t.fuel := lt_of_le_of_lt (by simp; omega) hlt.length_lt_fuel
  rw [← hupd.start] at hin
  have hback := hlt.backwardLoopIn_eq rfl hin hfuel hmem
  have hfree : span [c] + span (trailingFree pre) = span (trailingFree pre ++ [c.release]) := by
    rw [span_append, add_comm]
    rfl
  have hdrop : pre ++ [c.release] = trimFree pre ++ (trailingFree pre ++ [c.release]) := by
    rw [← List.append_assoc, trimFree_append_trailingFree]
  have hlt' := hlt
  rw [hdrop] at hlt'
  obtain ⟨htrim, hlu⟩ := hlt'.trimHeap_eq rfl
  refine ⟨_, _, _, _, hat.mpPrev, hback, by rw [hfree]; exact htrim, hlu, hupd.start, hupd.limit,
    hupd.errno, fun x hx ↦ ?_⟩
  have hmem : t.mem = s.mem.store (A + 8) 2 0 := by rw [ht, withMem_mem]
  have htail' : t.memTail = s.memTail := by rw [ht, withMem_memTail]
  have hbounds := hx.bounds h
  have hheader := hx.not_header ⟨sentinel :: pre, [], rfl, rfl⟩
  rw [← hA] at hheader
  have hkept : PayloadByte s (trimFree pre ++ (trailingFree pre ++ [c])) x := by
    rw [← List.append_assoc, trimFree_append_trailingFree]
    exact hx
  have hlast := hkept.not_lastAddr
  simp (disch := omega) only [withBrk_mem, withMem_mem, trimMem, hmem, htail', hupd.start,
    Mem.store_apply_of_disjoint]

theorem Layout.forwardLoop_last (h : Layout s (pre ++ [c]))
    (hin : HeadersIn chunks (s.start + span (sentinel :: pre)) [c]) (hc : c.inUse = false) :
    s.forwardLoopIn chunks s.fuel 0 (s.start + span (sentinel :: pre))
      = .ok (span [c], s.memTail) := by
  have hbrk := h.brk
  have hbrk_lt := h.brk_lt
  rw [← List.cons_append, span_append] at hbrk
  have hlen : [c].length < s.fuel := lt_of_le_of_lt (by simp) h.length_lt_fuel
  have hlt : 0 + span [c] < 2 ^ 64 := by omega
  have hloop := h.forwardLoopIn_eq List.cons_append.symm hin hlen hlt
  rw [entry_cons] at hloop
  rw [hloop]
  simp [hc]

theorem Layout.forwardLoop_ne_memTail (h : Layout s (pre ++ c :: post))
    (hin : HeadersIn chunks (s.start + span (sentinel :: pre)) (c :: post)) {d : Chunk}
    (hd : d ∈ post) (huse : d.inUse = true) (hc : c.inUse = false) :
    ∃ freeMem mCurs, s.forwardLoopIn chunks s.fuel 0 (s.start + span (sentinel :: pre))
      = .ok (freeMem, mCurs) ∧ mCurs ≠ s.memTail := by
  have hbrk := h.brk
  have hbrk_lt := h.brk_lt
  rw [← List.cons_append, span_append] at hbrk
  have hlen : (c :: post).length < s.fuel :=
    lt_of_le_of_lt (by simp; omega) h.length_lt_fuel
  have hlt : 0 + span (c :: post) < 2 ^ 64 := by omega
  have hloop := h.forwardLoopIn_eq List.cons_append.symm hin hlen hlt
  rw [entry_cons, List.takeWhile_cons_of_pos (by simp [hc]),
    List.dropWhile_cons_of_pos (by simp [hc])] at hloop
  have hdrop : post.dropWhile (fun c ↦ !c.inUse) ≠ [] := by
    intro hnil
    have hfree := List.dropWhile_eq_nil_iff.mp hnil d hd
    rw [huse] at hfree
    cases hfree
  obtain ⟨e, es, hes⟩ := List.exists_cons_of_ne_nil hdrop
  refine ⟨_, _, hloop, ?_⟩
  rw [hes, entry_cons, add_assoc, ← span_append]
  have hsplit : sentinel :: (pre ++ c :: post)
      = (sentinel :: pre ++ c :: post.takeWhile fun c ↦ !c.inUse) ++ e :: es := by
    rw [← hes]
    simp
  exact h.ne_memTail hsplit

/-- Freeing a chunk in use completes and releases it, and reads no headers but those of the list.
The bytes of the released payload are left as they are. -/
theorem myFreeHookIn_refines {h : Heap} (hs : Holds s h)
    (hin : HeadersIn chunks (s.start + span [sentinel]) h.chunks)
    (hsplit : h.chunks = pre ++ c :: post) (hc : c.inUse = true) :
    ∃ s', s.myFreeHookIn chunks (payloadAt s (span pre)) = .ok s' ∧
      Update s h.chunks s' (h.release pre.length).chunks ∧ Holds s' (h.release pre.length) := by
  have hl := hs.layout
  rw [hsplit] at hl
  rw [hsplit, headersIn_append, add_assoc, ← span_append, List.singleton_append] at hin
  obtain ⟨hinPre, hin⟩ := hin
  obtain ⟨A, hA⟩ : ∃ A, A = s.start + span (sentinel :: pre) := ⟨_, rfl⟩
  have hat := hl.headerAt List.cons_append.symm
  rw [← hA] at hat hin
  obtain ⟨hlisted, hinPost⟩ := headersIn_cons.mp hin
  have hup := hat.upper'
  have hbrk_lt := hl.brk_lt
  obtain ⟨hset, hupd⟩ := hl.setStat_update hA
  obtain ⟨t, ht⟩ : ∃ t, t = s.withMem (s.mem.store (A + 8) 2 0) := ⟨_, rfl⟩
  rw [← ht] at hset hupd
  -- clearing `stat` leaves the headers where they are
  have hin' : HeadersIn chunks (t.start + span (sentinel :: pre)) (c.release :: post) := by
    rw [hupd.start, ← hA]
    exact headersIn_cons.mpr ⟨hlisted, hinPost⟩
  have hptr : wrapSub (payloadAt s (span pre)) sizeofMemChunk = A := by
    rw [payloadAt_eq, ← hA, wrapSub_of_le (Nat.le_add_left _ _) (by rw [sizeofMemChunk]; omega)]
    omega
  rw [myFreeHookIn, hptr, readIn_of_mem hlisted, hat.stat, Except.ok_bind_eq,
    if_neg (by rw [Chunk.stat_of_inUse hc]; decide), hset, Except.ok_bind_eq]
  -- the walk ends at `mem_tail` exactly when the chunk is the last one
  by_cases hpost : post = []
  · subst hpost
    have hloop := hupd.layout.forwardLoop_last hin' (Chunk.inUse_release c)
    have hspan : span [c.release] = span [c] := rfl
    rw [hupd.start, ← hA, hspan] at hloop
    obtain ⟨prev, freeMem, mCurs, u, hprev, hback, htrim, hupd'⟩ := hl.free_last hA ht hupd hinPre
    rw [← trimFree_concat_of_free (Chunk.inUse_release c) pre, ← Heap.chunks_release hsplit,
      ← hsplit] at hupd'
    obtain ⟨hupd'', hhub⟩ := hupd'.refreshHub
    refine ⟨u.refreshHub, ?_, hupd'', hupd''.layout, hhub⟩
    rw [hloop, Except.ok_bind_eq]
    dsimp only
    rw [if_pos rfl, readIn_of_mem hlisted, hprev, Except.ok_bind_eq, hback, Except.ok_bind_eq,
      htrim]
    rfl
  · obtain ⟨ds, d, rfl⟩ := (List.eq_nil_or_concat post).resolve_left hpost
    rw [List.concat_eq_append] at *
    have hd : d.inUse = true := by
      refine h.last_inUse d ?_
      rw [hsplit, ← List.cons_append, ← List.append_assoc, List.getLast?_concat]
      rfl
    have htrim : trimFree (pre ++ c.release :: (ds ++ [d])) = pre ++ c.release :: (ds ++ [d]) := by
      rw [← List.cons_append, ← List.append_assoc, trimFree_concat_of_inUse hd]
    obtain ⟨freeMem, mCurs, hloop, hne⟩ :=
      hupd.layout.forwardLoop_ne_memTail hin' (d := d) (by simp) hd (Chunk.inUse_release c)
    rw [hupd.start, ← hA] at hloop
    rw [← htrim, ← Heap.chunks_release hsplit, ← hsplit] at hupd
    obtain ⟨hupd', hhub⟩ := hupd.refreshHub
    refine ⟨t.refreshHub, ?_, hupd', hupd'.layout, hhub⟩
    rw [hloop, Except.ok_bind_eq]
    exact if_neg hne

/-- **`my_free_hook` refines `Heap.release`.** Freeing a chunk in use always completes. The bytes
of the released payload are left as they are. -/
theorem myFreeHook_refines {h : Heap} (hs : Holds s h) (hsplit : h.chunks = pre ++ c :: post)
    (hc : c.inUse = true) :
    ∃ s', s.myFreeHook (payloadAt s (span pre)) = .ok s' ∧
      Update s h.chunks s' (h.release pre.length).chunks ∧ Holds s' (h.release pre.length) := by
  have hin : HeadersIn (List.range s.brk) (s.start + span [sentinel]) h.chunks := by
    intro off c hat
    have hle := hat.le_span
    have hpos := extent_pos c
    have hbrk := hs.layout.brk
    rw [List.mem_range, span_cons, span_nil]
    rw [span_cons] at hbrk
    omega
  obtain ⟨s', hfree, hupd⟩ := myFreeHookIn_refines hs hin hsplit hc
  exact ⟨s', myFreeHook_of_myFreeHookIn hfree, hupd⟩

end Free

end Malloc

end AllProjects
