import AllProjects.Malloc.FirstFit
import AllProjects.Malloc.Runs

/-!
# Where a request is served

The scan of `my_malloc_hook` and the chunk that comes out of it, in every reachable state.

The scan ends inside the list. It would read the null link of `mem_tail` if the chunk that stops a
run could be the tail sentinel; the chunk below the break is in use, so it never is.

The hook then serves the request as a first fit allocator with lazy coalescing does, unless `errno`
happens to be `ENOMEM`. It asks `errno` whether its own `sbrk` failed, and does so on every path:
while a stale `ENOMEM` is left from elsewhere, the chunk is taken and its caller gets `NULL`.
-/

namespace AllProjects

namespace Malloc

open Machine

/-! ## The scan -/

/-- `mp_next` of a chunk of the list; the null link of the tail sentinel is not to be followed. -/
def Machine.mpNextOfChunk (s : Machine) (chunk : ℕ) : Except Fault ℕ :=
  if chunk = s.memTail then .error .segv else s.mpNext chunk

theorem Machine.followsChunks_mpNextOfChunk (s : Machine) : s.FollowsChunks s.mpNextOfChunk :=
  fun _ ha ↦ if_neg ha

theorem Machine.mpNext_of_mpNextOfChunk {s : Machine} (a b : ℕ) (h : s.mpNextOfChunk a = .ok b) :
    s.mpNext a = .ok b := by
  rw [mpNextOfChunk] at h
  split at h
  · cases h
  · exact h

namespace System

/-- **The scan stays in the list.** In every reachable state and for every size the two loops
complete, the scan ends at `mem_tail` or at a chunk of the list, and the same scan with a fault in
place of the link of `mem_tail` completes as well, with the same result. -/
theorem scan_stays_in_list {s : System} (h : s.Reachable) (size : ℕ) :
    ∃ first chunks freeMem mCurs sCurs, s.machine.mpNext s.machine.memHead = .ok first ∧
      s.machine.chunksForward = .ok chunks ∧
      s.machine.scanLoop size s.machine.fuel first 0 = .ok (freeMem, mCurs, sCurs) ∧
      (mCurs = s.machine.memTail ∨ mCurs ∈ chunks) ∧
      s.machine.scanLoopVia s.machine.mpNextOfChunk size s.machine.fuel first 0
        = .ok (freeMem, mCurs, sCurs) := by
  obtain ⟨g, hg⟩ := h.exists_inv
  have hl := hg.holds.layout
  obtain ⟨first, hfirst, hnone, hsome⟩ :=
    hg.holds.scan _ s.machine.followsChunks_mpNextOfChunk size
  cases hf : findFit size g.chunks with
  | none =>
    obtain ⟨sCurs, hscan⟩ := hnone hf
    have hscan' := scanLoopVia_of_ok mpNext_of_mpNextOfChunk hscan
    rw [scanLoopVia_mpNext] at hscan'
    exact ⟨first, _, _, _, _, hfirst, hl.chunksForward_eq, hscan', Or.inl rfl, hscan⟩
  | some f =>
    have hscan := hsome f hf
    have hscan' := scanLoopVia_of_ok mpNext_of_mpNextOfChunk hscan
    rw [scanLoopVia_mpNext] at hscan'
    refine ⟨first, _, _, _, _, hfirst, hl.chunksForward_eq, hscan', Or.inr ?_, hscan⟩
    -- the scan ends at the first chunk of the run
    obtain ⟨hsplit, hrun, -⟩ := findFit_spec hf
    obtain ⟨c, run, hc⟩ := List.exists_cons_of_ne_nil hrun
    have hat : ChunkAt g.chunks (span f.before) c :=
      ⟨f.before, run ++ f.after, by rw [hsplit, hc]; simp, rfl⟩
    have hmem := hat.mem_addresses (s.machine.start + span [sentinel])
    rwa [add_assoc, ← span_append] at hmem

theorem scan_stays_in_list_free :
    ∃ s : System, s.live = [(4240, 20)] ∧ s.Reachable ∧
      ∃ first chunks freeMem mCurs sCurs, s.machine.mpNext s.machine.memHead = .ok first ∧
        s.machine.chunksForward = .ok chunks ∧
        s.machine.scanLoop 24 s.machine.fuel first 0 = .ok (freeMem, mCurs, sCurs) ∧
        (mCurs = s.machine.memTail ∨ mCurs ∈ chunks) ∧
        s.machine.scanLoopVia s.machine.mpNextOfChunk 24 s.machine.fuel first 0
          = .ok (freeMem, mCurs, sCurs) := by
  obtain ⟨s, hs, hlive, -⟩ := exists_reachable_free
  exact ⟨s, hlive, hs, scan_stays_in_list hs 24⟩

end System

/-! ## The chunk that is served -/

/-- The hook serves a request of `n` bytes first fit in the list `cs`: from the lowest free run that
is large enough, of which it absorbs as few chunks as it can, or else at the break. -/
def ServesFirstFit (s : Machine) (cs : List Chunk) (n : ℕ) : Prop :=
  ∃ result t, s.myMallocHook n = .ok (result, t) ∧
    (Fits (8 * requestWords n) cs → t.brk = s.brk ∧
      ∃ before run after k, IsFirstFit (8 * requestWords n) cs before run after k ∧
        result = payloadAt s (span before) ∧
        t.size (result - sizeofMemChunk) = .ok
          (if sizeofMemChunk + 16 ≤ capacity (run.take k) - 8 * requestWords n
            then 8 * requestWords n else capacity (run.take k))) ∧
    (¬Fits (8 * requestWords n) cs →
      t.brk = s.brk + (8 * requestWords n + sizeofMemChunk) ∧ result = s.brk + sizeofMemChunk)

theorem payloadAt_ne_zero (s : Machine) (off : ℕ) : payloadAt s off ≠ 0 := by
  rw [payloadAt, sizeofMemChunk]
  omega

theorem Fit.exists_chunks_cons {f : Fit} (hrun : f.run ≠ []) (words : ℕ) :
    ∃ c rest, f.chunks words = f.before ++ c :: rest ∧
      c.size = if sizeofMemChunk + 16 ≤ f.capacity - 8 * words then 8 * words else f.capacity := by
  rw [chunks]
  split
  · exact ⟨_, _, rfl, rfl⟩
  · exact ⟨_, _, rfl, Nat.mul_div_cancel' (f.eight_dvd_capacity hrun)⟩

theorem Fit.span_chunks {f : Fit} {words : ℕ} (hrun : f.run ≠ []) (hcap : 8 * words ≤ f.capacity) :
    span (f.chunks words) = span (f.before ++ f.run ++ f.after) := by
  obtain ⟨c, cs, hchunks, -, -, -, hspan⟩ := f.exists_chunks_eq hrun hcap
  rw [hchunks, span_append, span_append, hspan, ← span_append, ← span_append]

section Serve

variable {s : Machine} {h : Heap} {n : ℕ}

theorem Update.brk_eq {t : Machine} {cs ds : List Chunk} (hl : Layout s cs)
    (hupd : Update s cs t ds) :
    t.brk + span cs = s.brk + span ds := by
  have hbrk := hupd.layout.brk
  have hbrk' := hl.brk
  rw [hupd.start, span_sentinel_cons] at hbrk
  rw [span_sentinel_cons] at hbrk'
  omega

/-- While `errno` is not `ENOMEM`, the hook is a first fit allocator. -/
theorem Holds.servesFirstFit (hs : Holds s h) (hn : n ≠ 0) (hsize : n + 7 < 2 ^ 64)
    (hroom : ¬Fits (8 * requestWords n) h.chunks →
      s.brk + (8 * requestWords n + sizeofMemChunk) ≤ s.limit.val) (herrno : s.errno ≠ ENOMEM) :
    ServesFirstFit s h.chunks n := by
  have hl := hs.layout
  obtain ⟨t, hhook, hupd, -⟩ := myMallocHook_refines hs hn (wrap_div_eq hsize)
    fun hf ↦ hroom (findFit_eq_none_iff.mp hf)
  have hbrk := hupd.brk_eq hl
  rw [if_pos herrno] at hhook
  rw [Heap.chunks_allocate] at hupd hbrk
  refine ⟨_, t, hhook, ?_⟩
  cases hf : findFit (8 * requestWords n) h.chunks with
  | none =>
    have hno := findFit_eq_none_iff.mp hf
    rw [Heap.allocateChunks_of_none hf, span_append, span_cons, span_nil, Chunk.extent,
      Chunk.size] at hbrk
    dsimp only at hbrk
    refine ⟨fun hfits ↦ absurd hfits hno, fun _ ↦ ⟨by omega, ?_⟩⟩
    rw [Heap.allocateOffset_of_none hf, payloadAt, hl.brk, span_sentinel_cons, add_assoc s.start]
  | some f =>
    obtain ⟨hsplit, hrun, -, hcap⟩ := findFit_spec hf
    have hfits : Fits (8 * requestWords n) h.chunks := exists_findFit_iff.mp ⟨f, hf⟩
    rw [Heap.allocateChunks_of_some hf] at hupd hbrk
    rw [f.span_chunks hrun hcap, ← hsplit] at hbrk
    refine ⟨fun _ ↦ ⟨by omega, ?_⟩, fun hno ↦ absurd hfits hno⟩
    obtain ⟨c, rest, hchunks, hc⟩ := f.exists_chunks_cons hrun (requestWords n)
    have hread := hupd.layout.size_payloadAt ⟨f.before, rest, hchunks, rfl⟩
    rw [hc, System.payloadAt_congr hupd.start] at hread
    rw [Heap.allocateOffset_of_some hf]
    refine ⟨_, _, _, _, findFit_isFirstFit hf, rfl, ?_⟩
    rw [List.take_left]
    exact hread

theorem increment_lt_of_room {cs : List Chunk} {size : ℕ}
    (hroom : ¬Fits size cs → s.brk + (size + sizeofMemChunk) ≤ s.limit.val) :
    findFit size cs = none → size + sizeofMemChunk < 2 ^ 63 := by
  intro hf
  have hgrant := hroom (findFit_eq_none_iff.mp hf)
  have hlimit := s.limit.isLt
  omega

theorem ServesFirstFit.errno (hserves : ServesFirstFit s h.chunks n) (hs : Holds s h) (hn : n ≠ 0)
    (hsize : n + 7 < 2 ^ 64)
    (hlt : findFit (8 * requestWords n) h.chunks = none →
      8 * requestWords n + sizeofMemChunk < 2 ^ 63) : s.errno ≠ ENOMEM := by
  intro herrno
  obtain ⟨result, t, hhook, hreuse, hgrow⟩ := hserves
  obtain ⟨hresult, -⟩ := myMallocHook_ok hs hn (wrap_div_eq hsize) hlt hhook
  rw [if_neg (not_not.mpr herrno)] at hresult
  by_cases hfits : Fits (8 * requestWords n) h.chunks
  · obtain ⟨-, before, -, -, -, -, hpayload, -⟩ := hreuse hfits
    exact payloadAt_ne_zero s (span before) (hpayload.symm.trans hresult)
  · obtain ⟨-, hbrk⟩ := hgrow hfits
    rw [sizeofMemChunk] at hbrk
    omega

end Serve

namespace System

/-- A process before its first allocation, with the break at 4096. -/
def booted (limit : Fin (2 ^ 63)) (errno : ℕ) : System :=
  ⟨initialized (fun _ ↦ 0) .small 4096 limit errno, []⟩

section Booted

variable {limit : Fin (2 ^ 63)} {errno : ℕ} (hroom : 4096 + 64 ≤ limit.val)

include hroom

theorem reachable_booted : (booted limit errno).Reachable :=
  ⟨_, .small, 4096, limit, errno, _, [], init_eq hroom, Run.nil _⟩

theorem inv_booted : Inv (booted limit errno) Heap.empty :=
  ⟨holds_initialized hroom, List.nodup_nil, fun _ hl ↦ absurd hl List.not_mem_nil⟩

end Booted

/-- **First fit with lazy coalescing.** In every reachable state, and for every request whose
rounding does not overflow and whose growth the kernel grants, the hook serves the request first
fit exactly when `errno` is not `ENOMEM` before the call. -/
theorem servesFirstFit_iff {s : System} (h : s.Reachable) {cs : List Chunk}
    (hcs : Layout s.machine cs) {n : ℕ} (hn : 1 ≤ n) (hsize : n + 7 < 2 ^ 64)
    (hroom : ¬Fits (8 * requestWords n) cs →
      s.machine.brk + (8 * requestWords n + sizeofMemChunk) ≤ s.machine.limit.val) :
    ServesFirstFit s.machine cs n ↔ s.machine.errno ≠ ENOMEM := by
  obtain ⟨g, hg⟩ := h.exists_inv
  obtain rfl := hg.holds.layout.unique hcs
  have hn' : n ≠ 0 := by omega
  exact ⟨fun hserves ↦ hserves.errno hg.holds hn' hsize (increment_lt_of_room hroom),
    hg.holds.servesFirstFit hn' hsize hroom⟩

theorem servesFirstFit_iff_free :
    ∃ (s : System) (cs : List Chunk), s.live = [(4240, 20)] ∧ s.Reachable ∧ Layout s.machine cs ∧
      (ServesFirstFit s.machine cs 8 ↔ s.machine.errno ≠ ENOMEM) := by
  obtain ⟨s, hs, hlive, -, hbrk, hlimit⟩ := exists_reachable_free
  obtain ⟨g, hg⟩ := hs.exists_inv
  refine ⟨s, g.chunks, hlive, hs, hg.holds.layout,
    servesFirstFit_iff hs hg.holds.layout (by decide) (by decide) fun _ ↦ ?_⟩
  rw [hbrk, hlimit]
  decide

/-- With a stale `ENOMEM` the first request takes a chunk at the break, and gets `NULL`. -/
theorem staleErrno_not_servesFirstFit :
    (booted 1048576 ENOMEM).Reachable ∧ Layout (booted 1048576 ENOMEM).machine [] ∧
      (booted 1048576 ENOMEM).machine.brk + (8 * requestWords 1 + sizeofMemChunk)
        ≤ (booted 1048576 ENOMEM).machine.limit.val ∧
      ¬ServesFirstFit (booted 1048576 ENOMEM).machine [] 1 := by
  have hs : Inv (booted 1048576 ENOMEM) Heap.empty := inv_booted (by decide)
  refine ⟨reachable_booted (by decide), hs.holds.layout, by decide, fun hserves ↦ ?_⟩
  exact hserves.errno (h := Heap.empty) hs.holds (by decide) (by decide) (by decide) rfl

end System

end Malloc

end AllProjects
