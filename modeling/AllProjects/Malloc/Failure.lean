import AllProjects.Malloc.Placement

/-!
# Requests that cannot be served

What `my_malloc_hook` does for any `size_t` and any answer of the kernel. There are three ways for a
request to go wrong, and they are independent.

* `sbrk` refuses. The hook writes a header at the `(void*) -1` before it looks at `errno`, and
  faults.
* `errno` is `ENOMEM` for another reason. The hook takes the chunk and returns `NULL`.
* The arithmetic wraps. Rounding up turns the seven largest sizes into a request of no bytes. From
  `2 ^ 63 - 32` on, the increment that `sbrk` reads is negative or less than a header. The header is
  written across the new break then, which faults only when it leaves the last mapped page.

A request that fits into a free run is safe from the first and from the last of the wraps, since no
run is that large.
-/

namespace AllProjects

namespace Malloc

open Machine

/-! ## The request of the hook -/

/-- The size that the hook works with: the request, rounded up in `size_t` arithmetic. -/
def rounded (n : ℕ) : ℕ := wrap (wrap (n + 7) / 8 * 8)

/-- The increment that the hook asks `sbrk` for. -/
def increment (n : ℕ) : ℤ := intptr (wrap (rounded n + sizeofMemChunk))

theorem rounded_eq (n : ℕ) : rounded n = 8 * (wrap (n + 7) / 8) := round_eq rfl

theorem le_rounded {n : ℕ} (h : n + 7 < 2 ^ 64) : n ≤ rounded n := by
  rw [rounded_eq, wrap_of_lt h]
  omega

/-- The largest sizes are rounded down to nothing. -/
theorem rounded_eq_zero {n : ℕ} (h : n < 2 ^ 64) (h' : 2 ^ 64 ≤ n + 7) : rounded n = 0 := by
  rw [rounded_eq, wrap]
  omega

theorem rounded_lt (n : ℕ) : rounded n < 2 ^ 64 := by
  have hlt : wrap (n + 7) < 2 ^ 64 := Nat.mod_lt _ (by omega)
  rw [rounded_eq]
  omega

theorem increment_lt {n : ℕ} (h : 2 ^ 63 ≤ rounded n + sizeofMemChunk) :
    increment n < sizeofMemChunk := by
  have hlt := rounded_lt n
  obtain ⟨k, hk⟩ : ∃ k, rounded n = 8 * k := ⟨_, rounded_eq n⟩
  rw [increment, intptr, wrap]
  rw [sizeofMemChunk] at h ⊢
  split
  · omega
  · omega

theorem increment_of_lt {n : ℕ} (h : rounded n + sizeofMemChunk < 2 ^ 63) :
    increment n = (rounded n + sizeofMemChunk : ℕ) := by
  rw [increment, wrap_of_lt (by omega), intptr, if_pos h]

namespace Machine

variable (s : Machine) (n : ℕ)

/-- The scan ends at `mem_tail`, and the hook goes on to `sbrk`. -/
def CallsSbrk : Prop :=
  ∃ first freeMem sCurs, s.mpNext s.memHead = .ok first ∧
    s.scanLoop (rounded n) s.fuel first 0 = .ok (freeMem, s.memTail, sCurs)

/-- `sbrk` returns `(void*) -1` for the increment of the hook. -/
def SbrkFails : Prop := (s.sbrk (increment n)).1 = 2 ^ 64 - 1

instance : Decidable (s.SbrkFails n) := inferInstanceAs (Decidable (_ = _))

/-- A header at the break lies in what is mapped once `sbrk` has moved the break. -/
def HeaderMapped : Prop :=
  s.brk + sizeofMemChunk ≤ s.paging.endOf ((s.brk : ℤ) + increment n).toNat

instance : Decidable (s.HeaderMapped n) := inferInstanceAs (Decidable (_ ≤ _))

theorem sbrk_of_not_sbrkFails {s : Machine} {n : ℕ} (h : ¬s.SbrkFails n) :
    s.start ≤ (s.brk : ℤ) + increment n ∧ (s.brk : ℤ) + increment n ≤ s.limit.val := by
  rw [SbrkFails, sbrk] at h
  split at h
  · assumption
  · exact absurd rfl h

end Machine

section Hook

variable {s t : Machine} {h : Heap} {n p : ℕ}

/-- The hook calls `sbrk` exactly when no free run is large enough. -/
theorem Holds.callsSbrk_iff (hs : Holds s h) : s.CallsSbrk n ↔ ¬Fits (rounded n) h.chunks := by
  obtain ⟨first, hfirst, hnone, hsome⟩ := hs.scan s.mpNext (fun _ _ ↦ rfl) (rounded n)
  simp only [scanLoopVia_mpNext] at hnone hsome
  constructor
  · rintro ⟨first', freeMem, sCurs, hfirst', hscan⟩ hfits
    rw [hfirst, Except.ok.injEq] at hfirst'
    subst hfirst'
    obtain ⟨f, hf⟩ := exists_findFit_iff.mpr hfits
    -- a run starts behind both sentinels
    rw [hsome f hf, Except.ok.injEq, Prod.mk.injEq, Prod.mk.injEq, hs.layout.memTail,
      span_sentinel_cons, sizeofMemChunk] at hscan
    omega
  · intro hno
    obtain ⟨sCurs, hscan⟩ := hnone (findFit_eq_none_iff.mpr hno)
    exact ⟨first, 0, sCurs, hfirst, hscan⟩

theorem Holds.hook_ok (hs : Holds s h) (hn : 1 ≤ n)
    (hlt : ¬Fits (rounded n) h.chunks → rounded n + sizeofMemChunk < 2 ^ 63)
    (hok : s.myMallocHook n = .ok (p, t)) :
    p = (if s.errno ≠ ENOMEM then payloadAt s (h.allocateOffset (wrap (n + 7) / 8)) else 0) ∧
      Update s h.chunks t (h.allocate (wrap (n + 7) / 8)).chunks ∧
      (¬Fits (rounded n) h.chunks → s.brk + (rounded n + sizeofMemChunk) ≤ s.limit.val) := by
  rw [rounded_eq] at hlt ⊢
  obtain ⟨hp, hupd, -⟩ :=
    myMallocHook_ok hs (by omega) rfl (fun hf ↦ hlt (findFit_eq_none_iff.mp hf)) hok
  refine ⟨hp, hupd, fun hno ↦ ?_⟩
  exact myMallocHook_room hs (by omega) rfl (findFit_eq_none_iff.mpr hno) (hlt hno) hok

theorem Holds.exists_hook (hs : Holds s h) (hn : 1 ≤ n)
    (hroom : ¬Fits (rounded n) h.chunks →
      s.brk + (rounded n + sizeofMemChunk) ≤ s.limit.val) :
    ∃ p t, s.myMallocHook n = .ok (p, t) := by
  rw [rounded_eq] at hroom
  obtain ⟨t, ht, -⟩ := myMallocHook_refines hs (by omega) rfl
    fun hf ↦ hroom (findFit_eq_none_iff.mp hf)
  exact ⟨_, t, ht⟩

/-- An allocation changes the list: the served chunk was not in use before. -/
theorem Heap.allocate_chunks_ne (h : Heap) (words : ℕ) : (h.allocate words).chunks ≠ h.chunks := by
  intro heq
  obtain ⟨c, hat, huse, -, hnew⟩ := h.chunkAt_allocate_new words
  rw [heq] at hat
  exact hnew c huse hat

theorem Update.size_served
    (hupd : Update s h.chunks t (h.allocate (wrap (n + 7) / 8)).chunks) :
    ∃ size, t.size (payloadAt s (h.allocateOffset (wrap (n + 7) / 8)) - sizeofMemChunk) = .ok size ∧
      rounded n ≤ size ∧ size < 2 ^ 63 := by
  obtain ⟨c, hat, -, hwords, -⟩ := h.chunkAt_allocate_new (wrap (n + 7) / 8)
  have hread := hupd.layout.size_payloadAt hat
  rw [System.payloadAt_congr hupd.start] at hread
  have hle := hat.le_span
  have hext : c.extent = sizeofMemChunk + c.size := rfl
  have hbrk := hupd.layout.brk
  have hlt := hupd.layout.brk_lt
  rw [span_sentinel_cons] at hbrk
  refine ⟨c.size, hread, ?_, by omega⟩
  rw [rounded_eq, Chunk.size]
  omega

/-- Only an increment that wraps can leave the header unmapped. -/
theorem headerMapped_of_lt (hlt : rounded n + sizeofMemChunk < 2 ^ 63) : s.HeaderMapped n := by
  have hle := s.paging.le_endOf (s.brk + (rounded n + sizeofMemChunk))
  rw [HeaderMapped, increment_of_lt hlt]
  norm_cast
  omega

/-- A chunk at the break is linked wherever `sbrk` has moved the break, and `NULL` is returned for a
stale `ENOMEM` only. -/
theorem Holds.hook_grows (hs : Holds s h) (hn : 1 ≤ n) (hno : ¬Fits (rounded n) h.chunks)
    (hgrant : ¬s.SbrkFails n) (hmapped : s.HeaderMapped n) :
    ∃ t, s.myMallocHook n = .ok (if s.errno ≠ ENOMEM then s.brk + 32 else 0, t) ∧
      t.headers ≠ s.headers := by
  have hl := hs.layout
  obtain ⟨hlo, hhi⟩ := sbrk_of_not_sbrkFails hgrant
  obtain ⟨b, hb⟩ : ∃ b, b = ((s.brk : ℤ) + increment n).toNat := ⟨_, rfl⟩
  obtain ⟨L, hL⟩ : ∃ L, L = lastAddr 0 s.start (sentinel :: h.chunks) := ⟨_, rfl⟩
  rw [HeaderMapped, ← hb] at hmapped
  have hsbrk : s.sbrk (increment n) = (s.brk, s.withBrk b) := by rw [hb, sbrk_eq hlo hhi]
  have hgrow := hl.growHeap_eq hsbrk hmapped hL
  obtain ⟨t, ht⟩ : ∃ t, t = (s.withBrk b).withMem (grownMem s (rounded n) L) := ⟨_, rfl⟩
  have hhub : t.refreshHub = { t with hub := b } := by
    have hstart : t.start = s.start := by rw [ht, withMem_start, withBrk_start]
    have hbrk : t.brk = b := by rw [ht, withMem_brk, withBrk_brk]
    have hlimit : t.limit = s.limit := by rw [ht, withMem_limit, withBrk_limit]
    rw [refreshHub, sbrk_eq (by omega) (by omega), hbrk]
    simp [withBrk]
  refine ⟨t.refreshHub, ?_, ?_⟩
  · have hnone := findFit_eq_none_iff.mpr hno
    rw [rounded_eq] at hnone hgrow ht
    rw [myMallocHook_of_none hs (by omega) rfl hnone, hgrow, ← ht, Except.ok_bind_eq]
    dsimp only
    rw [hhub]
    simp only [ht, withMem_errno, withBrk_errno]
  · -- `mem_tail` now points back to the new chunk
    intro hheaders
    rw [hl.headers_eq, ← hL] at hheaders
    have hprev : t.refreshHub.mpPrev s.memTail = .ok L := by
      have hback := mpPrev_memTail_of_headers hheaders
      rw [hhub, ht] at hback ⊢
      exact hback
    obtain ⟨-, hLhi, -⟩ := hl.lastAddr_bounds hL
    have hbrk := hl.brk_lt
    obtain ⟨-, -, hload⟩ := (Mem.loadIn_eq_ok_iff _).mp hprev
    rw [hhub, ht] at hload
    have hstored : (grownMem s (rounded n) L).load (s.memTail + 24) 8 = s.brk :=
      Mem.load_store_same _ (by omega)
    have hLbrk : L = s.brk := hload.trans hstored
    omega

/-- A call that completes at the break got it, and wrote the header below the mapped end. -/
theorem Holds.hook_mapped (hs : Holds s h) (hn : 1 ≤ n) (hno : ¬Fits (rounded n) h.chunks)
    (hok : s.myMallocHook n = .ok (p, t)) : ¬s.SbrkFails n ∧ s.HeaderMapped n := by
  have hl := hs.layout
  have hnone := findFit_eq_none_iff.mpr hno
  rw [rounded_eq] at hnone
  rw [myMallocHook_of_none hs (by omega) rfl hnone] at hok
  obtain ⟨⟨result, u⟩, hgrow, -⟩ := Except.bind_eq_ok_iff.mp hok
  have hheader := Layout.growHeap_header hgrow
  rw [← rounded_eq] at hheader
  have hbrk := hl.brk_lt
  have hend := hl.mappedEnd_le
  by_cases hgrant : s.start ≤ (s.brk : ℤ) + increment n ∧ (s.brk : ℤ) + increment n ≤ s.limit.val
  · have hsbrk := sbrk_eq hgrant.1 hgrant.2
    rw [← increment, hsbrk] at hheader
    exact ⟨by rw [SbrkFails, hsbrk]; dsimp only; omega, hheader⟩
  · rw [← increment, sbrk, if_neg hgrant] at hheader
    have hfixed : Machine.mappedEnd { s with errno := ENOMEM } = s.mappedEnd := rfl
    dsimp only at hheader
    omega

end Hook

/-! ## Failure -/

/-- A refused `sbrk` makes the hook return `NULL`, and whenever the hook returns `NULL` the headers
and the break are as before. -/
def FailsCleanly (s : Machine) (n : ℕ) : Prop :=
  (s.CallsSbrk n → s.SbrkFails n → ∃ t, s.myMallocHook n = .ok (0, t)) ∧
    ∀ t, s.myMallocHook n = .ok (0, t) → t.headers = s.headers ∧ t.brk = s.brk

section FailsCleanly

variable {s t : Machine} {h : Heap} {n : ℕ}

theorem Holds.hook_null (hs : Holds s h) (hn : 1 ≤ n) (hok : s.myMallocHook n = .ok (0, t)) :
    s.errno = ENOMEM ∧ t.headers ≠ s.headers := by
  by_cases hfits : Fits (rounded n) h.chunks
  · obtain ⟨hp, hupd, -⟩ := hs.hook_ok hn (fun hno ↦ absurd hfits hno) hok
    constructor
    · by_contra herrno
      rw [if_pos herrno] at hp
      exact payloadAt_ne_zero s _ hp.symm
    · intro hheaders
      exact h.allocate_chunks_ne _ (hs.layout.eq_of_headers hupd.layout hupd.start hheaders)
  · obtain ⟨hgrant, hmapped⟩ := hs.hook_mapped hn hfits hok
    obtain ⟨u, hu, hheaders⟩ := hs.hook_grows hn hfits hgrant hmapped
    rw [hok, Except.ok.injEq, Prod.mk.injEq] at hu
    obtain ⟨hp, rfl⟩ := hu
    refine ⟨?_, hheaders⟩
    by_contra herrno
    rw [if_pos herrno] at hp
    omega

/-- A stale `ENOMEM` makes every call that completes return `NULL`. -/
theorem Holds.exists_hook_null (hs : Holds s h) (hn : 1 ≤ n) (herrno : s.errno = ENOMEM)
    (hcomplete : Fits (rounded n) h.chunks ∨ ¬s.SbrkFails n ∧ s.HeaderMapped n) :
    ∃ t, s.myMallocHook n = .ok (0, t) := by
  by_cases hfits : Fits (rounded n) h.chunks
  · have hno : ¬Fits (rounded n) h.chunks → rounded n + sizeofMemChunk < 2 ^ 63 :=
      fun hno ↦ absurd hfits hno
    obtain ⟨p, t, ht⟩ := hs.exists_hook hn fun hno ↦ absurd hfits hno
    obtain ⟨hp, -⟩ := hs.hook_ok hn hno ht
    rw [if_neg (not_not.mpr herrno)] at hp
    exact ⟨t, hp ▸ ht⟩
  · obtain ⟨hgrant, hmapped⟩ := hcomplete.resolve_left hfits
    obtain ⟨t, ht, -⟩ := hs.hook_grows hn hfits hgrant hmapped
    rw [if_neg (not_not.mpr herrno)] at ht
    exact ⟨t, ht⟩

/-- A failure that changes nothing is one that never happens: `sbrk` does not refuse, and no stale
`ENOMEM` is in the way of a call that completes. -/
theorem Holds.failsCleanly (hs : Holds s h) (hn : 1 ≤ n) :
    FailsCleanly s n ↔
      (Fits (rounded n) h.chunks ∨ ¬s.SbrkFails n) ∧
        (s.errno = ENOMEM → ¬Fits (rounded n) h.chunks ∧
          2 ^ 63 ≤ rounded n + sizeofMemChunk ∧ ¬s.HeaderMapped n) := by
  constructor
  · rintro ⟨hfails, hnull⟩
    have hserved : Fits (rounded n) h.chunks ∨ ¬s.SbrkFails n := by
      by_contra hno
      obtain ⟨hfits, hfail⟩ := not_or.mp hno
      rw [not_not] at hfail
      obtain ⟨t, ht⟩ := hfails (hs.callsSbrk_iff.mpr hfits) hfail
      exact (hs.hook_mapped hn hfits ht).1 hfail
    refine ⟨hserved, fun herrno ↦ ?_⟩
    -- a call that completes takes a chunk that nobody gets
    have hstuck : ¬(Fits (rounded n) h.chunks ∨ ¬s.SbrkFails n ∧ s.HeaderMapped n) := by
      intro hcomplete
      obtain ⟨t, ht⟩ := hs.exists_hook_null hn herrno hcomplete
      exact (hs.hook_null hn ht).2 (hnull t ht).1
    obtain ⟨hfits, hunmapped⟩ := not_or.mp hstuck
    have hno : ¬s.HeaderMapped n := fun h ↦ hunmapped ⟨hserved.resolve_left hfits, h⟩
    exact ⟨hfits, not_lt.mp fun hlt ↦ hno (headerMapped_of_lt hlt), hno⟩
  · rintro ⟨hserved, hstale⟩
    refine ⟨fun hcalls hfail ↦ ?_, fun t ht ↦ ?_⟩
    · exact absurd hfail (hserved.resolve_left (hs.callsSbrk_iff.mp hcalls))
    · obtain ⟨hfits, -, hunmapped⟩ := hstale (hs.hook_null hn ht).1
      exact absurd (hs.hook_mapped hn hfits ht).2 hunmapped

end FailsCleanly

/-! ## Wrapping -/

/-- The hook returns `NULL` or a chunk of at least `n` bytes, and an increment that it asks `sbrk`
for is at least `n` bytes and a header. -/
def NeverWraps (s : Machine) (n : ℕ) : Prop :=
  (∃ p t, s.myMallocHook n = .ok (p, t) ∧
    (p = 0 ∨ ∃ size, t.size (p - sizeofMemChunk) = .ok size ∧ n ≤ size)) ∧
  (s.CallsSbrk n → (n + sizeofMemChunk : ℕ) ≤ increment n)

section NeverWraps

variable {s : Machine} {h : Heap} {n : ℕ}

theorem Holds.hook_enough (hs : Holds s h) (hn : 1 ≤ n)
    (hlt : ¬Fits (rounded n) h.chunks → rounded n + sizeofMemChunk < 2 ^ 63) {p : ℕ} {t : Machine}
    (hok : s.myMallocHook n = .ok (p, t)) (hround : n + 7 < 2 ^ 64 ∨ s.errno = ENOMEM) :
    p = 0 ∨ ∃ size, t.size (p - sizeofMemChunk) = .ok size ∧ n ≤ size := by
  obtain ⟨rfl, hupd, -⟩ := hs.hook_ok hn hlt hok
  by_cases herrno : s.errno = ENOMEM
  · exact Or.inl (if_neg (not_not.mpr herrno))
  · obtain ⟨size, hread, hle, -⟩ := hupd.size_served
    rw [if_pos herrno]
    exact Or.inr ⟨size, hread, (le_rounded (hround.resolve_right herrno)).trans hle⟩

theorem Holds.neverWraps (hs : Holds s h) (hn : 1 ≤ n) (hn' : n < 2 ^ 64) :
    NeverWraps s n ↔
      (Fits (rounded n) h.chunks ∧ (n + 7 < 2 ^ 64 ∨ s.errno = ENOMEM)) ∨
        (¬Fits (rounded n) h.chunks ∧ n + 7 < 2 ^ 64 ∧
          s.brk + (rounded n + sizeofMemChunk) ≤ s.limit.val) := by
  constructor
  · rintro ⟨⟨p, t, hok, hres⟩, hincr⟩
    by_cases hfits : Fits (rounded n) h.chunks
    · refine Or.inl ⟨hfits, ?_⟩
      by_contra hno
      obtain ⟨hround, herrno⟩ := not_or.mp hno
      obtain ⟨hp, hupd, -⟩ := hs.hook_ok hn (fun hno ↦ absurd hfits hno) hok
      -- no chunk is as large as a size whose rounding wraps
      obtain ⟨size, hread, -, hsize⟩ := hupd.size_served
      rw [if_pos herrno] at hp
      rcases hres with hzero | ⟨size', hread', hle⟩
      · exact payloadAt_ne_zero s _ (hp.symm.trans hzero)
      · rw [hp, hread, Except.ok.injEq] at hread'
        omega
    · have hle := hincr (hs.callsSbrk_iff.mpr hfits)
      have hlt : rounded n + sizeofMemChunk < 2 ^ 63 := by
        by_contra hwraps
        have hless := increment_lt (not_lt.mp hwraps)
        omega
      refine Or.inr ⟨hfits, ?_, (hs.hook_ok hn (fun _ ↦ hlt) hok).2.2 hfits⟩
      by_contra hround
      have hzero := rounded_eq_zero hn' (not_lt.mp hround)
      rw [increment_of_lt hlt, hzero] at hle
      omega
  · rintro (⟨hfits, hround⟩ | ⟨hfits, hround, hroom⟩)
    · obtain ⟨p, t, ht⟩ := hs.exists_hook hn fun hno ↦ absurd hfits hno
      exact ⟨⟨p, t, ht, hs.hook_enough hn (fun hno ↦ absurd hfits hno) ht hround⟩,
        fun hcalls ↦ absurd hfits (hs.callsSbrk_iff.mp hcalls)⟩
    · obtain ⟨p, t, ht⟩ := hs.exists_hook hn fun _ ↦ hroom
      have hlimit := s.limit.isLt
      have hlt : rounded n + sizeofMemChunk < 2 ^ 63 := by omega
      refine ⟨⟨p, t, ht, hs.hook_enough hn (fun _ ↦ hlt) ht (Or.inl hround)⟩, fun _ ↦ ?_⟩
      have hle := le_rounded hround
      rw [increment_of_lt hlt]
      omega

end NeverWraps

theorem not_fits_nil (size : ℕ) : ¬Fits size [] := by
  rintro ⟨before, run, after, hrun, -⟩
  have hnil := hrun.split
  simp [hrun.ne_nil] at hnil

namespace System

/-- **A failed allocation changes nothing** exactly when no allocation fails: a larger break is not
needed or not refused, and `errno` is not `ENOMEM` before the call, unless the increment wraps, the
header at the break is not mapped, and the call does not return. -/
theorem failsCleanly_iff {s : System} (h : s.Reachable) {cs : List Chunk}
    (hcs : Layout s.machine cs) {n : ℕ} (hn : 1 ≤ n) :
    FailsCleanly s.machine n ↔
      (Fits (rounded n) cs ∨ ¬s.machine.SbrkFails n) ∧
        (s.machine.errno = ENOMEM → ¬Fits (rounded n) cs ∧
          2 ^ 63 ≤ rounded n + sizeofMemChunk ∧ ¬s.machine.HeaderMapped n) := by
  obtain ⟨g, hg⟩ := h.exists_inv
  obtain rfl := hg.holds.layout.unique hcs
  exact hg.holds.failsCleanly hn

theorem failsCleanly_iff_free :
    ∃ (s : System) (cs : List Chunk), s.live = [(4240, 20)] ∧ s.Reachable ∧ Layout s.machine cs ∧
      (FailsCleanly s.machine 8 ↔
        (Fits (rounded 8) cs ∨ ¬s.machine.SbrkFails 8) ∧
          (s.machine.errno = ENOMEM → ¬Fits (rounded 8) cs ∧
            2 ^ 63 ≤ rounded 8 + sizeofMemChunk ∧ ¬s.machine.HeaderMapped 8)) := by
  obtain ⟨s, hs, hlive, -⟩ := exists_reachable_free
  obtain ⟨g, hg⟩ := hs.exists_inv
  exact ⟨s, g.chunks, hlive, hs, hg.holds.layout, failsCleanly_iff hs hg.holds.layout (by decide)⟩

/-- A refused `sbrk` is a fault: here the kernel grants nothing but the sentinels. A stale `ENOMEM`
loses a chunk, also one whose increment wraps to 24. -/
theorem not_failsCleanly :
    ((booted 4160 0).Reachable ∧ (booted 4160 0).machine.SbrkFails 1 ∧
      ¬FailsCleanly (booted 4160 0).machine 1) ∧
    (booted 1048576 ENOMEM).Reachable ∧ ¬FailsCleanly (booted 1048576 ENOMEM).machine 1 ∧
      increment (2 ^ 64 - 8) = 24 ∧ ¬FailsCleanly (booted 1048576 ENOMEM).machine (2 ^ 64 - 8) := by
  have hfull : Inv (booted 4160 0) Heap.empty := inv_booted (by decide)
  have hstale : Inv (booted 1048576 ENOMEM) Heap.empty := inv_booted (by decide)
  refine ⟨⟨reachable_booted (by decide), by decide, fun hclean ↦ ?_⟩,
    reachable_booted (by decide), fun hclean ↦ ?_, by decide, fun hclean ↦ ?_⟩
  · obtain ⟨hserved, -⟩ := (hfull.holds.failsCleanly (by decide)).mp hclean
    exact hserved.resolve_left (not_fits_nil _) (by decide)
  · obtain ⟨-, herrno⟩ := (hstale.holds.failsCleanly (by decide)).mp hclean
    exact absurd (herrno rfl).2.1 (by decide)
  · obtain ⟨-, herrno⟩ := (hstale.holds.failsCleanly (by decide)).mp hclean
    exact (herrno rfl).2.2 (by decide)

/-- **Request sizes never wrap** exactly for the requests that fit into a free run or into what the
kernel grants, apart from the seven sizes whose rounding wraps. -/
theorem neverWraps_iff {s : System} (h : s.Reachable) {cs : List Chunk} (hcs : Layout s.machine cs)
    {n : ℕ} (hn : 1 ≤ n) (hn' : n < 2 ^ 64) :
    NeverWraps s.machine n ↔
      (Fits (rounded n) cs ∧ (n + 7 < 2 ^ 64 ∨ s.machine.errno = ENOMEM)) ∨
        (¬Fits (rounded n) cs ∧ n + 7 < 2 ^ 64 ∧
          s.machine.brk + (rounded n + sizeofMemChunk) ≤ s.machine.limit.val) := by
  obtain ⟨g, hg⟩ := h.exists_inv
  obtain rfl := hg.holds.layout.unique hcs
  exact hg.holds.neverWraps hn hn'

theorem neverWraps_iff_free :
    ∃ (s : System) (cs : List Chunk), s.live = [(4240, 20)] ∧ s.Reachable ∧ Layout s.machine cs ∧
      (NeverWraps s.machine 8 ↔
        (Fits (rounded 8) cs ∧ (8 + 7 < 2 ^ 64 ∨ s.machine.errno = ENOMEM)) ∨
          (¬Fits (rounded 8) cs ∧ 8 + 7 < 2 ^ 64 ∧
            s.machine.brk + (rounded 8 + sizeofMemChunk) ≤ s.machine.limit.val)) := by
  obtain ⟨s, hs, hlive, -⟩ := exists_reachable_free
  obtain ⟨g, hg⟩ := hs.exists_inv
  exact ⟨s, g.chunks, hlive, hs, hg.holds.layout,
    neverWraps_iff hs hg.holds.layout (by decide) (by decide)⟩

/-- The largest `size_t` is rounded to 0, so that `sbrk` is asked for a header alone. At `2 ^ 63` it
is asked to take the heap away. -/
theorem largest_size_wraps :
    (booted 1048576 0).Reachable ∧ rounded (2 ^ 64 - 1) = 0 ∧ increment (2 ^ 63) < 0 ∧
      ¬NeverWraps (booted 1048576 0).machine (2 ^ 64 - 1) := by
  have hs : Inv (booted 1048576 0) Heap.empty := inv_booted (by decide)
  refine ⟨reachable_booted (by decide), by decide, by decide, fun hwraps ↦ ?_⟩
  rcases (hs.holds.neverWraps (by decide) (by decide)).mp hwraps with hfits | hgrow
  · exact not_fits_nil _ hfits.1
  · exact absurd hgrow.2.1 (by decide)

end System

end Malloc

end AllProjects
