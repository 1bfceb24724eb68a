import AllProjects.Malloc.Placement

/-!
# Allocating and releasing

What a call of `my_malloc_hook` and the `my_free_hook` of its pointer leave behind. The partition
into chunks can differ: a run that was absorbed is not cut up again. What is compared is therefore
the bytes. A byte is free when it lies in a free chunk, header included, and a free range is a
maximal range of such bytes, so neighbouring free chunks are one range however they are divided.

On the chunk list this is one fact: a part of the list that consists of free chunks may be replaced
by any free chunks of the same span (`freeAt_middle`).
-/

namespace AllProjects

namespace Malloc

open Machine

/-! ## Free bytes of a list -/

/-- The byte `y` bytes behind the first header lies in a free chunk. -/
def FreeAt (cs : List Chunk) (y : ℕ) : Prop :=
  ∃ off c, ChunkAt cs off c ∧ c.inUse = false ∧ off ≤ y ∧ y < off + c.extent

section FreeAt

variable {cs ds before mid mid' after : List Chunk} {c : Chunk} {y : ℕ}

theorem freeAt_append :
    FreeAt (cs ++ ds) y ↔ FreeAt cs y ∨ ∃ z, y = span cs + z ∧ FreeAt ds z := by
  constructor
  · rintro ⟨off, c, hat, hc, hlo, hhi⟩
    rcases chunkAt_append.mp hat with hl | ⟨off', rfl, hr⟩
    · exact Or.inl ⟨off, c, hl, hc, hlo, hhi⟩
    · exact Or.inr ⟨y - span cs, by omega, off', c, hr, hc, by omega, by omega⟩
  · rintro (⟨off, c, hat, hc, hlo, hhi⟩ | ⟨z, rfl, off, c, hat, hc, hlo, hhi⟩)
    · exact ⟨off, c, chunkAt_append_left hat ds, hc, hlo, hhi⟩
    · exact ⟨_, c, chunkAt_append_right hat cs, hc, by omega, by omega⟩

theorem freeAt_of_free (hfree : ∀ c ∈ cs, c.inUse = false) : FreeAt cs y ↔ y < span cs := by
  constructor
  · rintro ⟨off, c, hat, -, -, hhi⟩
    exact lt_of_lt_of_le hhi hat.le_span
  · intro hy
    induction cs generalizing y with
    | nil => exact absurd hy (Nat.not_lt_zero y)
    | cons c cs ih =>
      have hc := hfree c List.mem_cons_self
      rw [span_cons] at hy
      rw [← List.singleton_append, freeAt_append]
      by_cases hlt : y < c.extent
      · exact Or.inl ⟨0, c, ⟨[], [], rfl, rfl⟩, hc, Nat.zero_le y, by omega⟩
      · have hrest := ih (y := y - c.extent) (fun d hd ↦ hfree d (List.mem_cons_of_mem _ hd))
          (by omega)
        exact Or.inr ⟨_, by simp; omega, hrest⟩

/-- **Only the extent of free chunks matters.** -/
theorem freeAt_middle (hmid : ∀ c ∈ mid, c.inUse = false) (hmid' : ∀ c ∈ mid', c.inUse = false)
    (hspan : span mid = span mid') :
    FreeAt (before ++ mid ++ after) y ↔ FreeAt (before ++ mid' ++ after) y := by
  simp only [freeAt_append, freeAt_of_free hmid, freeAt_of_free hmid', span_append, hspan]

end FreeAt

/-! ## The abstract round trip -/

/-- The chunks in use at their places, and the free bytes. -/
structure SameBytes (cs ds : List Chunk) : Prop where
  span : span cs = span ds
  inUse : ∀ off c, c.inUse = true → (ChunkAt cs off c ↔ ChunkAt ds off c)
  free : ∀ y, FreeAt cs y ↔ FreeAt ds y

theorem SameBytes.refl (cs : List Chunk) : SameBytes cs cs :=
  ⟨rfl, fun _ _ _ ↦ Iff.rfl, fun _ ↦ Iff.rfl⟩

/-- **Releasing what was just served restores the bytes.** A chunk that was appended is trimmed
again, because the chunk in front of it is in use. A run that was taken is free again, and is not
trimmed, because what follows it ends with a chunk in use. -/
theorem Heap.release_allocate (h : Heap) (words : ℕ) :
    ∃ pre c post, (h.allocate words).chunks = pre ++ c :: post ∧ c.inUse = true ∧
      span pre = h.allocateOffset words ∧
      SameBytes ((h.allocate words).release pre.length).chunks h.chunks := by
  cases hf : findFit (8 * words) h.chunks with
  | none =>
    have hsplit : (h.allocate words).chunks = h.chunks ++ ⟨words, true⟩ :: [] :=
      allocateChunks_of_none hf
    refine ⟨h.chunks, ⟨words, true⟩, [], hsplit, rfl, (allocateOffset_of_none hf).symm, ?_⟩
    rw [chunks_release hsplit, trimFree_concat_of_free (Chunk.inUse_release _),
      trimFree_eq_self h.last_inUse]
    exact SameBytes.refl h.chunks
  | some f =>
    obtain ⟨hsplit, hrun, hfree, hcap⟩ := findFit_spec hf
    obtain ⟨c, cs, hchunks, huse, -, hcs, hspan⟩ := f.exists_chunks_eq hrun hcap
    have hafter := h.ne_nil_of_free hsplit hrun hfree
    have hsplit' : (h.allocate words).chunks = f.before ++ c :: (cs ++ f.after) := by
      rw [chunks_allocate, allocateChunks_of_some hf, hchunks]
      simp
    have hoffset : span f.before = h.allocateOffset words := (allocateOffset_of_some hf).symm
    refine ⟨f.before, c, cs ++ f.after, hsplit', huse, hoffset, ?_⟩
    have hlast : ∀ d ∈ (f.before ++ c.release :: (cs ++ f.after)).getLast?, d.inUse = true := by
      intro d hd
      refine h.last_inUse d ?_
      rw [← List.cons_append, ← List.append_assoc, List.getLast?_append_of_ne_nil _ hafter] at hd
      rw [hsplit, List.getLast?_append_of_ne_nil _ hafter]
      exact hd
    have hreleased : ((h.allocate words).release f.before.length).chunks
        = f.before ++ (c.release :: cs) ++ f.after := by
      rw [chunks_release hsplit', trimFree_eq_self hlast]
      simp
    have hspan' : span (c.release :: cs) = span f.run := hspan
    refine ⟨?_, fun off d hd ↦ ?_, fun y ↦ ?_⟩
    · rw [hreleased, hsplit]
      simp only [span_append, hspan']
    · rw [chunkAt_release hsplit' hd, hoffset]
      exact chunkAt_allocate hd
    · rw [hreleased, hsplit]
      refine freeAt_middle (fun d hd ↦ ?_) hfree hspan'
      rcases List.mem_cons.mp hd with rfl | hd
      · rfl
      · exact hcs d hd

/-! ## What a reader of the memory sees -/

/-- The byte at `x` lies in a free chunk, its header included. -/
def FreeByte (s : Machine) (x : ℕ) : Prop :=
  ∃ chunks a size, s.chunksForward = .ok chunks ∧ a ∈ chunks ∧ s.stat a = .ok 0 ∧
    s.size a = .ok size ∧ a ≤ x ∧ x < a + sizeofMemChunk + size

/-- The bytes from `a` up to `b` are a maximal range of free bytes. -/
structure IsFreeRange (s : Machine) (a b : ℕ) : Prop where
  lt : a < b
  free : ∀ x, a ≤ x → x < b → FreeByte s x
  below : ∀ x, x + 1 = a → ¬FreeByte s x
  above : ¬FreeByte s b

/-- There is a chunk in use with the payload of `size` bytes at `p`. -/
def PayloadInUse (s : Machine) (p size : ℕ) : Prop :=
  ∃ chunks a, s.chunksForward = .ok chunks ∧ a ∈ chunks ∧ s.stat a = .ok 1 ∧
    s.size a = .ok size ∧ p = a + sizeofMemChunk

theorem isFreeRange_congr {s t : Machine} (h : ∀ x, FreeByte t x ↔ FreeByte s x) (a b : ℕ) :
    IsFreeRange t a b ↔ IsFreeRange s a b := by
  constructor
  · rintro ⟨hlt, hfree, hbelow, habove⟩
    exact ⟨hlt, fun x hx hx' ↦ (h x).mp (hfree x hx hx'),
      fun x hx hno ↦ hbelow x hx ((h x).mpr hno), fun hno ↦ habove ((h b).mpr hno)⟩
  · rintro ⟨hlt, hfree, hbelow, habove⟩
    exact ⟨hlt, fun x hx hx' ↦ (h x).mpr (hfree x hx hx'),
      fun x hx hno ↦ hbelow x hx ((h x).mp hno), fun hno ↦ habove ((h b).mp hno)⟩

namespace Layout

variable {s t : Machine} {cs ds : List Chunk}

theorem mem_chunksForward_iff (h : Layout s cs) {a size stat : ℕ} :
    (∃ chunks, s.chunksForward = .ok chunks ∧ a ∈ chunks ∧ s.stat a = .ok stat ∧
      s.size a = .ok size) ↔
      ∃ off c, ChunkAt cs off c ∧ a = s.start + 2 * sizeofMemChunk + off ∧ stat = c.stat ∧
        size = c.size := by
  have hread : ∀ off c, ChunkAt cs off c →
      s.stat (s.start + 2 * sizeofMemChunk + off) = .ok c.stat ∧
        s.size (s.start + 2 * sizeofMemChunk + off) = .ok c.size := by
    rintro off c ⟨before, after, rfl, rfl⟩
    have hat := h.headerAt List.cons_append.symm
    rw [span_sentinel_cons, ← add_assoc] at hat
    exact ⟨hat.stat, hat.size⟩
  constructor
  · rintro ⟨chunks, hchunks, ha, hstat, hsize⟩
    rw [h.chunksForward_eq, Except.ok.injEq] at hchunks
    subst hchunks
    obtain ⟨off, c, hat, rfl⟩ := mem_addresses ha
    obtain ⟨hstat', hsize'⟩ := hread off c hat
    rw [span_sentinel_cons, span_nil, add_zero] at hstat hsize ⊢
    rw [hstat', Except.ok.injEq] at hstat
    rw [hsize', Except.ok.injEq] at hsize
    exact ⟨off, c, hat, rfl, hstat.symm, hsize.symm⟩
  · rintro ⟨off, c, hat, rfl, rfl, rfl⟩
    obtain ⟨hstat, hsize⟩ := hread off c hat
    exact ⟨_, h.chunksForward_eq, hat.mem_addresses _, hstat, hsize⟩

theorem freeByte_iff (h : Layout s cs) {x : ℕ} :
    FreeByte s x ↔ ∃ y, x = s.start + 2 * sizeofMemChunk + y ∧ FreeAt cs y := by
  constructor
  · rintro ⟨chunks, a, size, hchunks, ha, hstat, hsize, hlo, hhi⟩
    obtain ⟨off, c, hat, rfl, hfree, rfl⟩ :=
      h.mem_chunksForward_iff.mp ⟨chunks, hchunks, ha, hstat, hsize⟩
    have hext : c.extent = sizeofMemChunk + c.size := rfl
    have hc : c.inUse = false := by
      by_contra huse
      rw [Chunk.stat_of_inUse (by simpa using huse)] at hfree
      cases hfree
    exact ⟨x - (s.start + 2 * sizeofMemChunk), by omega, off, c, hat, hc, by omega, by omega⟩
  · rintro ⟨y, rfl, off, c, hat, hc, hlo, hhi⟩
    have hext : c.extent = sizeofMemChunk + c.size := rfl
    obtain ⟨chunks, hchunks, ha, hstat, hsize⟩ :=
      h.mem_chunksForward_iff.mpr ⟨off, c, hat, rfl, (Chunk.stat_of_free hc).symm, rfl⟩
    exact ⟨chunks, _, _, hchunks, ha, hstat, hsize, by omega, by omega⟩

theorem payloadInUse_iff (h : Layout s cs) {p size : ℕ} :
    PayloadInUse s p size ↔
      ∃ off c, ChunkAt cs off c ∧ c.inUse = true ∧ p = payloadAt s off ∧ size = c.size := by
  constructor
  · rintro ⟨chunks, a, hchunks, ha, hstat, hsize, rfl⟩
    obtain ⟨off, c, hat, rfl, huse, rfl⟩ :=
      h.mem_chunksForward_iff.mp ⟨chunks, hchunks, ha, hstat, hsize⟩
    have hc : c.inUse = true := by
      by_contra hfree
      rw [Chunk.stat_of_free (by simpa using hfree)] at huse
      cases huse
    exact ⟨off, c, hat, hc, rfl, rfl⟩
  · rintro ⟨off, c, hat, hc, rfl, rfl⟩
    obtain ⟨chunks, hchunks, ha, hstat, hsize⟩ :=
      h.mem_chunksForward_iff.mpr ⟨off, c, hat, rfl, (Chunk.stat_of_inUse hc).symm, rfl⟩
    exact ⟨chunks, _, hchunks, ha, hstat, hsize, rfl⟩

theorem sameBytes (h : Layout s cs) (h' : Layout t ds) (hstart : t.start = s.start)
    (hsame : SameBytes ds cs) :
    t.brk = s.brk ∧ (∀ p size, PayloadInUse t p size ↔ PayloadInUse s p size) ∧
      ∀ a b, IsFreeRange t a b ↔ IsFreeRange s a b := by
  refine ⟨?_, fun p size ↦ ?_, isFreeRange_congr fun x ↦ ?_⟩
  · rw [h.brk, h'.brk, hstart, span_sentinel_cons, span_sentinel_cons, hsame.span]
  · rw [h.payloadInUse_iff, h'.payloadInUse_iff]
    refine exists_congr fun off ↦ exists_congr fun c ↦ ?_
    rw [System.payloadAt_congr hstart]
    exact ⟨fun ⟨hat, hc, hrest⟩ ↦ ⟨(hsame.inUse off c hc).mp hat, hc, hrest⟩,
      fun ⟨hat, hc, hrest⟩ ↦ ⟨(hsame.inUse off c hc).mpr hat, hc, hrest⟩⟩
  · rw [h.freeByte_iff, h'.freeByte_iff, hstart]
    exact exists_congr fun y ↦ and_congr_right fun _ ↦ hsame.free y

/-- Releasing `NULL` reads a header far above the break. -/
theorem myFreeHook_zero (h : Layout s cs) : s.myFreeHook 0 = .error .segv := by
  have hend := h.mappedEnd_le
  have hsub : wrapSub 0 sizeofMemChunk = 2 ^ 64 - 32 := by decide
  rw [myFreeHook, hsub, stat, load, Mem.loadIn, if_neg (by omega)]
  rfl

end Layout

namespace System

/-- A request of `n` bytes and the release of the pointer that it returned leave the live pointers,
the payloads in use, the break and the free ranges as they were. -/
def Neutral (s : System) (n : ℕ) : Prop :=
  ∃ p u t, s.machine.myMallocHook n = .ok (p, u.machine) ∧ s.exec (.malloc n) = .ok u ∧
    u.exec (.free p) = .ok t ∧ t.live = s.live ∧ t.machine.brk = s.machine.brk ∧
    (∀ q size, PayloadInUse t.machine q size ↔ PayloadInUse s.machine q size) ∧
    ∀ a b, IsFreeRange t.machine a b ↔ IsFreeRange s.machine a b

section Neutral

variable {s : System} {h : Heap} {n : ℕ}

theorem filter_live_cons {l : List (ℕ × ℕ)} {p : ℕ} (hnodup : (((p, n) :: l).map Prod.fst).Nodup) :
    ((p, n) :: l).filter (fun l ↦ l.1 ≠ p) = l := by
  rw [List.map_cons, List.nodup_cons] at hnodup
  rw [List.filter_cons_of_neg (by simp), List.filter_eq_self]
  intro e he
  exact decide_eq_true fun heq ↦ hnodup.1 (List.mem_map.mpr ⟨e, he, heq⟩)

theorem Inv.neutral (hs : Inv s h) (hn : n ≠ 0) (hsize : n + 7 < 2 ^ 64)
    (hroom : ¬Fits (8 * requestWords n) h.chunks →
      s.machine.brk + (8 * requestWords n + sizeofMemChunk) ≤ s.machine.limit.val)
    (herrno : s.machine.errno ≠ ENOMEM) : Neutral s n := by
  obtain ⟨m, hhook, hupd, hholds⟩ := myMallocHook_refines hs.holds hn (wrap_div_eq hsize)
    fun hf ↦ hroom (findFit_eq_none_iff.mp hf)
  rw [if_pos herrno] at hhook
  obtain ⟨p, hp⟩ : ∃ p, p = payloadAt s.machine (h.allocateOffset (requestWords n)) := ⟨_, rfl⟩
  rw [← hp] at hhook
  have hmalloc : s.exec (.malloc n) = .ok ⟨m, (p, n) :: s.live⟩ := by
    rw [exec, hhook, Except.ok_bind_eq]
    dsimp only
    rw [if_neg (by rw [hp]; exact payloadAt_ne_zero _ _)]
    rfl
  obtain ⟨hinv, -⟩ := hs.malloc hn hsize (increment_lt_of_room hroom) hmalloc
  -- the release of the served chunk, which stands at `p`
  obtain ⟨pre, c, post, hsplit, huse, hoffset, hsame⟩ := h.release_allocate (requestWords n)
  obtain ⟨t, hfree, hupd', hholds'⟩ := myFreeHook_refines hholds hsplit huse
  rw [hoffset, payloadAt_congr hupd.start, ← hp] at hfree
  refine ⟨p, ⟨m, (p, n) :: s.live⟩, ⟨t, _⟩, hhook, hmalloc, by rw [exec, hfree]; rfl,
    filter_live_cons hinv.nodup, ?_⟩
  exact hs.holds.layout.sameBytes hholds'.layout (hupd'.start.trans hupd.start) hsame

theorem Neutral.errno (hneutral : Neutral s n) (hs : Inv s h) (hn : n ≠ 0)
    (hsize : n + 7 < 2 ^ 64)
    (hlt : findFit (8 * requestWords n) h.chunks = none →
      8 * requestWords n + sizeofMemChunk < 2 ^ 63) : s.machine.errno ≠ ENOMEM := by
  intro herrno
  obtain ⟨p, u, t, hhook, -, hfree, -⟩ := hneutral
  obtain ⟨hp, hupd, -⟩ := myMallocHook_ok hs.holds hn (wrap_div_eq hsize) hlt hhook
  rw [if_neg (not_not.mpr herrno)] at hp
  rw [hp, exec, hupd.layout.myFreeHook_zero] at hfree
  cases hfree

end Neutral

/-- **A request and its release are neutral.** In every reachable state, and for every request
whose rounding does not overflow and whose growth the kernel grants, they give back the live
payloads, the break and the maximal free ranges exactly when `errno` is not `ENOMEM` before. -/
theorem neutral_iff {s : System} (h : s.Reachable) {cs : List Chunk} (hcs : Layout s.machine cs)
    {n : ℕ} (hn : 1 ≤ n) (hsize : n + 7 < 2 ^ 64)
    (hroom : ¬Fits (8 * requestWords n) cs →
      s.machine.brk + (8 * requestWords n + sizeofMemChunk) ≤ s.machine.limit.val) :
    Neutral s n ↔ s.machine.errno ≠ ENOMEM := by
  obtain ⟨g, hg⟩ := h.exists_inv
  obtain rfl := hg.holds.layout.unique hcs
  have hn' : n ≠ 0 := by omega
  exact ⟨fun hneutral ↦ hneutral.errno hg hn' hsize (increment_lt_of_room hroom),
    hg.neutral hn' hsize hroom⟩

theorem neutral_iff_free :
    ∃ (s : System) (cs : List Chunk), s.live = [(4240, 20)] ∧ s.Reachable ∧ Layout s.machine cs ∧
      (Neutral s 8 ↔ s.machine.errno ≠ ENOMEM) := by
  obtain ⟨s, hs, hlive, -, hbrk, hlimit⟩ := exists_reachable_free
  obtain ⟨g, hg⟩ := hs.exists_inv
  refine ⟨s, g.chunks, hlive, hs, hg.holds.layout,
    neutral_iff hs hg.holds.layout (by decide) (by decide) fun _ ↦ ?_⟩
  rw [hbrk, hlimit]
  decide

/-- With a stale `ENOMEM` there is no pointer to release, and releasing `NULL` faults. -/
theorem staleErrno_not_neutral :
    (booted 1048576 ENOMEM).Reachable ∧ Layout (booted 1048576 ENOMEM).machine [] ∧
      (booted 1048576 ENOMEM).machine.brk + (8 * requestWords 1 + sizeofMemChunk)
        ≤ (booted 1048576 ENOMEM).machine.limit.val ∧
      ¬Neutral (booted 1048576 ENOMEM) 1 := by
  have hs : Inv (booted 1048576 ENOMEM) Heap.empty := inv_booted (by decide)
  refine ⟨reachable_booted (by decide), hs.holds.layout, by decide, fun hneutral ↦ ?_⟩
  exact hneutral.errno hs (by decide) (by decide) (by decide) rfl

end System

end Malloc

end AllProjects
