import AllProjects.Malloc.Machine

/-!
# The heap as a list of chunks

What the allocator is for, without memory, pointers or loops: a heap is a list of chunks laid end
to end, the last of which is in use. A request takes the first run of free chunks that holds it,
or a new chunk at the end; a release frees one chunk and drops the free chunks at the end.

Two facts of the source are built into the types. A payload is a whole number of 8-byte words, so
a chunk stores that number. And the break never has a free chunk below it, which is a field of
`Heap`: without it the source's scan would follow the null link of its tail sentinel.

Positions are byte offsets from the first header. A chunk in use never moves, and that is the only
thing a client relies on; it is proved here for both operations, so that no later argument about
payloads has to look at how runs are split.
-/

namespace AllProjects

namespace Malloc

/-! ## Chunks -/

/-- A chunk: the words of its payload, and whether it is in use. -/
structure Chunk where
  words : ℕ
  inUse : Bool
  deriving DecidableEq, Repr

namespace Chunk

/-- The payload size in bytes, the header's `size`. -/
def size (c : Chunk) : ℕ := 8 * c.words

/-- The header's `stat`. -/
def stat (c : Chunk) : ℕ := c.inUse.toNat

/-- Header and payload together. -/
def extent (c : Chunk) : ℕ := sizeofMemChunk + c.size

/-- The same chunk, free. -/
def release (c : Chunk) : Chunk := { c with inUse := false }

@[simp] theorem size_release (c : Chunk) : c.release.size = c.size := rfl

@[simp] theorem extent_release (c : Chunk) : c.release.extent = c.extent := rfl

@[simp] theorem inUse_release (c : Chunk) : c.release.inUse = false := rfl

theorem eight_dvd_size (c : Chunk) : 8 ∣ c.size := ⟨c.words, rfl⟩

theorem stat_of_inUse {c : Chunk} (h : c.inUse = true) : c.stat = 1 := by rw [stat, h]; rfl

theorem stat_of_free {c : Chunk} (h : c.inUse = false) : c.stat = 0 := by rw [stat, h]; rfl

theorem eq_of_size_of_stat {c d : Chunk} (hsize : c.size = d.size) (hstat : c.stat = d.stat) :
    c = d := by
  obtain ⟨words, inUse⟩ := c
  obtain ⟨words', inUse'⟩ := d
  have hwords : words = words' := Nat.eq_of_mul_eq_mul_left (by omega) hsize
  have hinUse : inUse = inUse' := by
    cases inUse <;> cases inUse' <;> first | rfl | cases hstat
  rw [hwords, hinUse]

theorem stat_le_one (c : Chunk) : c.stat ≤ 1 := Bool.toNat_le c.inUse

end Chunk

/-! ## Spans -/

/-- The bytes that a list of chunks occupies. -/
def span (cs : List Chunk) : ℕ := (cs.map Chunk.extent).sum

@[simp] theorem span_nil : span [] = 0 := rfl

@[simp] theorem span_cons (c : Chunk) (cs : List Chunk) : span (c :: cs) = c.extent + span cs := rfl

@[simp] theorem span_append (cs ds : List Chunk) : span (cs ++ ds) = span cs + span ds := by
  rw [span, List.map_append, List.sum_append, ← span, ← span]

theorem eight_dvd_span (cs : List Chunk) : 8 ∣ span cs := by
  induction cs with
  | nil => exact dvd_zero 8
  | cons c cs ih =>
    rw [span_cons, Chunk.extent, sizeofMemChunk, Chunk.size]
    omega

theorem extent_pos (c : Chunk) : 0 < c.extent := by
  rw [Chunk.extent, sizeofMemChunk]
  omega

theorem length_le_span (cs : List Chunk) : sizeofMemChunk * cs.length ≤ span cs := by
  induction cs with
  | nil => exact le_rfl
  | cons c cs ih =>
    rw [span_cons, List.length_cons, Chunk.extent, mul_add, mul_one]
    omega

/-! ## Where a chunk stands -/

/-- The chunk `c` stands `off` bytes behind the first header. -/
def ChunkAt (cs : List Chunk) (off : ℕ) (c : Chunk) : Prop :=
  ∃ before after, cs = before ++ c :: after ∧ span before = off

theorem ChunkAt.mem {cs : List Chunk} {off : ℕ} {c : Chunk} (h : ChunkAt cs off c) : c ∈ cs := by
  obtain ⟨before, after, rfl, -⟩ := h
  exact List.mem_append_right _ List.mem_cons_self

theorem ChunkAt.le_span {cs : List Chunk} {off : ℕ} {c : Chunk} (h : ChunkAt cs off c) :
    off + c.extent ≤ span cs := by
  obtain ⟨before, after, rfl, rfl⟩ := h
  rw [span_append, span_cons]
  omega

theorem chunkAt_cons {d : Chunk} {cs : List Chunk} {off : ℕ} {c : Chunk} :
    ChunkAt (d :: cs) off c ↔
      (off = 0 ∧ c = d) ∨ ∃ off', off = d.extent + off' ∧ ChunkAt cs off' c := by
  constructor
  · rintro ⟨before, after, h, rfl⟩
    cases before with
    | nil =>
      rw [List.nil_append, List.cons.injEq] at h
      exact Or.inl ⟨rfl, h.1.symm⟩
    | cons e before =>
      rw [List.cons_append, List.cons.injEq] at h
      obtain ⟨rfl, rfl⟩ := h
      exact Or.inr ⟨span before, span_cons _ _, before, after, rfl, rfl⟩
  · rintro (⟨rfl, rfl⟩ | ⟨off', rfl, before, after, rfl, rfl⟩)
    · exact ⟨[], cs, rfl, rfl⟩
    · exact ⟨d :: before, after, rfl, span_cons _ _⟩

theorem chunkAt_append_left {cs : List Chunk} {off : ℕ} {c : Chunk} (h : ChunkAt cs off c)
    (ds : List Chunk) : ChunkAt (cs ++ ds) off c := by
  obtain ⟨before, after, rfl, rfl⟩ := h
  exact ⟨before, after ++ ds, by simp, rfl⟩

theorem chunkAt_append_right {ds : List Chunk} {off : ℕ} {c : Chunk} (h : ChunkAt ds off c)
    (cs : List Chunk) : ChunkAt (cs ++ ds) (span cs + off) c := by
  obtain ⟨before, after, rfl, rfl⟩ := h
  exact ⟨cs ++ before, after, by simp, span_append _ _⟩

theorem chunkAt_append {cs ds : List Chunk} {off : ℕ} {c : Chunk} :
    ChunkAt (cs ++ ds) off c ↔
      ChunkAt cs off c ∨ ∃ off', off = span cs + off' ∧ ChunkAt ds off' c := by
  constructor
  · rintro ⟨before, after, h, rfl⟩
    rcases List.append_eq_append_iff.mp h with ⟨mid, rfl, rfl⟩ | ⟨mid, rfl, hmid⟩
    · exact Or.inr ⟨span mid, span_append _ _, mid, after, rfl, rfl⟩
    · cases mid with
      | nil =>
        rw [List.nil_append] at hmid
        exact Or.inr ⟨0, by simp, [], after, hmid.symm, rfl⟩
      | cons e mid =>
        rw [List.cons_append, List.cons.injEq] at hmid
        obtain ⟨rfl, rfl⟩ := hmid
        exact Or.inl ⟨before, mid, rfl, rfl⟩
  · rintro (h | ⟨off', rfl, h⟩)
    · exact chunkAt_append_left h ds
    · exact chunkAt_append_right h cs

theorem ChunkAt.eq_or_disjoint {cs : List Chunk} {off off' : ℕ} {c c' : Chunk}
    (h : ChunkAt cs off c) (h' : ChunkAt cs off' c') :
    (off = off' ∧ c = c') ∨ off + c.extent ≤ off' ∨ off' + c'.extent ≤ off := by
  induction cs generalizing off off' with
  | nil => exact absurd h.mem List.not_mem_nil
  | cons d cs ih =>
    rcases chunkAt_cons.mp h with ⟨rfl, rfl⟩ | ⟨o, rfl, ho⟩ <;>
      rcases chunkAt_cons.mp h' with ⟨rfl, rfl⟩ | ⟨o', rfl, ho'⟩
    · exact Or.inl ⟨rfl, rfl⟩
    · exact Or.inr (Or.inl (by omega))
    · exact Or.inr (Or.inr (by omega))
    · rcases ih ho ho' with ⟨rfl, rfl⟩ | h | h
      · exact Or.inl ⟨rfl, rfl⟩
      · exact Or.inr (Or.inl (by omega))
      · exact Or.inr (Or.inr (by omega))

theorem ChunkAt.le_span_of_concat {cs : List Chunk} {c d : Chunk} {off : ℕ}
    (h : ChunkAt (cs ++ [c]) off d) : off ≤ span cs := by
  rcases h.eq_or_disjoint ⟨cs, [], rfl, rfl⟩ with ⟨rfl, -⟩ | hlt | hlt
  · exact le_rfl
  · omega
  · have hle := h.le_span
    have hpos := extent_pos d
    rw [span_append, span_cons, span_nil] at hle
    omega

theorem ChunkAt.unique {cs : List Chunk} {off : ℕ} {c c' : Chunk} (h : ChunkAt cs off c)
    (h' : ChunkAt cs off c') : c = c' := by
  have hc := extent_pos c
  have hc' := extent_pos c'
  rcases h.eq_or_disjoint h' with ⟨-, rfl⟩ | hlt | hlt
  · rfl
  · omega
  · omega

/-! ## Dropping the free chunks at the end -/

/-- Drop the free chunks at the end of a list. -/
def trimFree (cs : List Chunk) : List Chunk := cs.rdropWhile fun c ↦ !c.inUse

/-- The free chunks at the end of a list. -/
def trailingFree (cs : List Chunk) : List Chunk := cs.rtakeWhile fun c ↦ !c.inUse

@[simp] theorem trimFree_nil : trimFree [] = [] := rfl

theorem trimFree_concat_of_free {c : Chunk} (h : c.inUse = false) (cs : List Chunk) :
    trimFree (cs ++ [c]) = trimFree cs :=
  List.rdropWhile_concat_pos _ _ _ (by simp [h])

theorem trimFree_concat_of_inUse {c : Chunk} (h : c.inUse = true) (cs : List Chunk) :
    trimFree (cs ++ [c]) = cs ++ [c] :=
  List.rdropWhile_concat_neg _ _ _ (by simp [h])

theorem trailingFree_concat_of_free {c : Chunk} (h : c.inUse = false) (cs : List Chunk) :
    trailingFree (cs ++ [c]) = trailingFree cs ++ [c] :=
  List.rtakeWhile_concat_pos _ _ _ (by simp [h])

theorem trailingFree_concat_of_inUse {c : Chunk} (h : c.inUse = true) (cs : List Chunk) :
    trailingFree (cs ++ [c]) = [] :=
  List.rtakeWhile_concat_neg _ _ _ (by simp [h])

theorem trimFree_append_trailingFree (cs : List Chunk) : trimFree cs ++ trailingFree cs = cs :=
  List.rdropWhile_append_rtakeWhile

theorem getLast?_trimFree {cs : List Chunk} {c : Chunk} (h : c ∈ (trimFree cs).getLast?) :
    c.inUse = true := by
  obtain ⟨hne, rfl⟩ := List.mem_getLast?_eq_getLast h
  have hlast := List.rdropWhile_last_not (fun c : Chunk ↦ !c.inUse) cs hne
  rw [Bool.not_eq_true, Bool.not_eq_false'] at hlast
  exact hlast

theorem trimFree_eq_self {cs : List Chunk} (h : ∀ c ∈ cs.getLast?, c.inUse = true) :
    trimFree cs = cs := by
  apply List.rdropWhile_eq_self_iff.mpr
  intro hne
  simpa using h _ (List.getLast?_eq_getLast_of_ne_nil hne)

theorem trimFree_append_of_free {cs ds : List Chunk} (h : ∀ c ∈ ds, c.inUse = false) :
    trimFree (cs ++ ds) = trimFree cs := by
  induction ds using List.reverseRecOn with
  | nil => rw [List.append_nil]
  | append_singleton ds d ih =>
    rw [← List.append_assoc, trimFree_concat_of_free (h d (by simp)),
      ih fun c hc ↦ h c (List.mem_append_left _ hc)]

theorem mem_trailingFree {cs : List Chunk} {c : Chunk} (h : c ∈ trailingFree cs) :
    c.inUse = false := by
  simpa using List.mem_rtakeWhile_imp h

theorem chunkAt_trimFree {cs : List Chunk} {off : ℕ} {c : Chunk} (hc : c.inUse = true) :
    ChunkAt (trimFree cs) off c ↔ ChunkAt cs off c := by
  constructor
  · intro h
    rw [← trimFree_append_trailingFree cs]
    exact chunkAt_append_left h _
  · intro h
    rw [← trimFree_append_trailingFree cs, chunkAt_append] at h
    rcases h with h | ⟨off', -, h⟩
    · exact h
    · rw [mem_trailingFree h.mem] at hc
      cases hc

/-! ## Heaps -/

/-- A heap: chunks end to end, the last one in use. -/
structure Heap where
  chunks : List Chunk
  /-- No free chunk lies directly below the break. -/
  last_inUse : ∀ c ∈ chunks.getLast?, c.inUse = true

namespace Heap

/-- The heap that `init` sets up. -/
def empty : Heap := ⟨[], by simp⟩

@[simp] theorem chunks_empty : empty.chunks = [] := rfl

theorem ne_nil_of_free (h : Heap) {before run after : List Chunk}
    (hsplit : h.chunks = before ++ run ++ after) (hrun : run ≠ [])
    (hfree : ∀ c ∈ run, c.inUse = false) : after ≠ [] := by
  rintro rfl
  obtain ⟨run, c, rfl⟩ := List.eq_nil_or_concat run |>.resolve_left hrun
  have hlast : c ∈ h.chunks.getLast? := by
    rw [hsplit, List.append_nil, List.concat_eq_append, ← List.append_assoc,
      List.getLast?_concat]
    rfl
  have hc := h.last_inUse c hlast
  rw [hfree c (by simp)] at hc
  cases hc

/-- Free the chunk with index `i`, and give back the free chunks at the end. -/
def release (h : Heap) (i : ℕ) : Heap where
  chunks := trimFree (h.chunks.modify i Chunk.release)
  last_inUse := fun _ hc ↦ getLast?_trimFree hc

theorem chunks_release {h : Heap} {before after : List Chunk} {c : Chunk}
    (hsplit : h.chunks = before ++ c :: after) :
    (h.release before.length).chunks = trimFree (before ++ c.release :: after) := by
  have hmodify : h.chunks.modify before.length Chunk.release = before ++ c.release :: after := by
    rw [hsplit, List.modify_eq_take_cons_drop (by simp)]
    simp
  exact congrArg trimFree hmodify

end Heap

/-! ## First fit -/

/-- A place for a request: a run of chunks and what lies around it. -/
structure Fit where
  before : List Chunk
  run : List Chunk
  after : List Chunk
  deriving DecidableEq, Repr

namespace Fit

/-- The bytes that the run offers once its first header is set aside. -/
def capacity (f : Fit) : ℕ := span f.run - sizeofMemChunk

/-- The list after the run was given to a request of `words` words. -/
def chunks (f : Fit) (words : ℕ) : List Chunk :=
  if sizeofMemChunk + 16 ≤ f.capacity - 8 * words then
    f.before ++ ⟨words, true⟩ ::
      ⟨(f.capacity - 8 * words - sizeofMemChunk) / 8, false⟩ :: f.after
  else f.before ++ ⟨f.capacity / 8, true⟩ :: f.after

/-- The same place behind one more chunk. -/
def push (c : Chunk) (f : Fit) : Fit := { f with before := c :: f.before }

end Fit

/-- The free chunks to absorb into a run that has `freeMem` bytes and needs `size`, and the
chunks that remain. -/
def absorb (size : ℕ) : ℕ → List Chunk → List Chunk × List Chunk
  | _, [] => ([], [])
  | freeMem, c :: cs =>
    if freeMem < size ∧ c.inUse = false then
      ((c :: (absorb size (freeMem + c.extent) cs).1), (absorb size (freeMem + c.extent) cs).2)
    else ([], c :: cs)

/-- The first chunk that is free and holds `size` bytes together with its free successors. -/
def findFit (size : ℕ) : List Chunk → Option Fit
  | [] => none
  | c :: cs =>
    if c.inUse = false ∧ size ≤ c.size + span (absorb size c.size cs).1 then
      some ⟨[], c :: (absorb size c.size cs).1, (absorb size c.size cs).2⟩
    else (findFit size cs).map (Fit.push c)

theorem absorb_append (size freeMem : ℕ) (cs : List Chunk) :
    (absorb size freeMem cs).1 ++ (absorb size freeMem cs).2 = cs := by
  induction cs generalizing freeMem with
  | nil => rfl
  | cons c cs ih =>
    rw [absorb]
    split
    · exact congrArg (c :: ·) (ih _)
    · rfl

theorem absorb_free {size freeMem : ℕ} {cs : List Chunk} {c : Chunk}
    (h : c ∈ (absorb size freeMem cs).1) : c.inUse = false := by
  induction cs generalizing freeMem with
  | nil => exact absurd h List.not_mem_nil
  | cons d cs ih =>
    rw [absorb] at h
    split at h
    · rename_i hd
      rcases List.mem_cons.mp h with rfl | h
      · exact hd.2
      · exact ih h
    · exact absurd h List.not_mem_nil

/-- A run that stays too small absorbs every free chunk up to the next chunk in use. -/
theorem absorb_eq_of_lt {size freeMem : ℕ} {cs ds : List Chunk} {d : Chunk}
    (hfree : ∀ c ∈ cs, c.inUse = false) (hd : d.inUse = true) (hlt : freeMem + span cs < size) :
    absorb size freeMem (cs ++ d :: ds) = (cs, d :: ds) := by
  induction cs generalizing freeMem with
  | nil => rw [List.nil_append, absorb, if_neg (by simp [hd])]
  | cons c cs ih =>
    rw [span_cons] at hlt
    rw [List.cons_append, absorb, if_pos ⟨by omega, hfree c List.mem_cons_self⟩,
      ih (fun c' h ↦ hfree c' (List.mem_cons_of_mem _ h)) (by omega)]

/-- No chunk of a run that is too small starts a fit, so the search goes on behind it. -/
theorem findFit_skip {size : ℕ} {cs ds : List Chunk} {d : Chunk}
    (hfree : ∀ c ∈ cs, c.inUse = false) (hd : d.inUse = true)
    (hlt : span cs < size + sizeofMemChunk) :
    findFit size (cs ++ d :: ds)
      = (findFit size ds).map fun f ↦ { f with before := cs ++ d :: f.before } := by
  induction cs with
  | nil =>
    rw [List.nil_append, findFit, if_neg (by simp [hd])]
    rfl
  | cons c cs ih =>
    have hcs : ∀ c' ∈ cs, c'.inUse = false := fun c' h ↦ hfree c' (List.mem_cons_of_mem _ h)
    rw [span_cons, Chunk.extent] at hlt
    rw [List.cons_append, findFit, absorb_eq_of_lt hcs hd (by omega), if_neg (by simp; omega),
      ih hcs (by omega), Option.map_map]
    rfl

theorem findFit_spec {size : ℕ} {cs : List Chunk} {f : Fit} (h : findFit size cs = some f) :
    cs = f.before ++ f.run ++ f.after ∧ f.run ≠ [] ∧ (∀ c ∈ f.run, c.inUse = false) ∧
      size ≤ f.capacity := by
  induction cs generalizing f with
  | nil => cases h
  | cons c cs ih =>
    rw [findFit] at h
    split at h
    · rename_i hc
      cases h
      refine ⟨by simp [absorb_append], by simp, ?_, ?_⟩
      · intro d hd
        rcases List.mem_cons.mp hd with rfl | hd
        · exact hc.1
        · exact absorb_free hd
      · rw [Fit.capacity, span_cons, Chunk.extent]
        omega
    · obtain ⟨g, hg, rfl⟩ := Option.map_eq_some_iff.mp h
      obtain ⟨hsplit, hne, hfree, hcap⟩ := ih hg
      exact ⟨congrArg (c :: ·) hsplit, hne, hfree, hcap⟩

/-! ## Serving a request -/

theorem sizeofMemChunk_le_span {cs : List Chunk} (h : cs ≠ []) : sizeofMemChunk ≤ span cs := by
  cases cs with
  | nil => exact absurd rfl h
  | cons c cs =>
    rw [span_cons, Chunk.extent]
    omega

theorem Fit.eight_dvd_capacity {f : Fit} (h : f.run ≠ []) : 8 ∣ f.capacity := by
  have hdvd := eight_dvd_span f.run
  have hle := sizeofMemChunk_le_span h
  rw [capacity]
  rw [sizeofMemChunk] at hle ⊢
  omega

/-- Splitting and absorbing keep the bytes: what replaces the run spans as much as the run. -/
theorem Fit.exists_chunks_eq {f : Fit} {words : ℕ} (hrun : f.run ≠ [])
    (hcap : 8 * words ≤ f.capacity) :
    ∃ c cs, f.chunks words = f.before ++ (c :: cs) ++ f.after ∧ c.inUse = true ∧
      words ≤ c.words ∧ (∀ d ∈ cs, d.inUse = false) ∧ span (c :: cs) = span f.run := by
  have hle := sizeofMemChunk_le_span hrun
  have hdvd := f.eight_dvd_capacity hrun
  have hspan : f.capacity + sizeofMemChunk = span f.run := Nat.sub_add_cancel hle
  rw [chunks]
  split
  · rename_i hsplit
    refine ⟨⟨words, true⟩, [⟨(f.capacity - 8 * words - sizeofMemChunk) / 8, false⟩], by simp, rfl,
      le_rfl, by simp, ?_⟩
    simp only [span_cons, span_nil, Chunk.extent, Chunk.size]
    rw [sizeofMemChunk] at *
    omega
  · refine ⟨⟨f.capacity / 8, true⟩, [], by simp, rfl, ?_, by simp, ?_⟩
    · exact (Nat.le_div_iff_mul_le (by omega)).mpr (by omega)
    · simp only [span_cons, span_nil, Chunk.extent, Chunk.size]
      omega

namespace Heap

/-- The chunks after a request of `words` words. -/
def allocateChunks (h : Heap) (words : ℕ) : List Chunk :=
  match findFit (8 * words) h.chunks with
  | none => h.chunks ++ [⟨words, true⟩]
  | some f => f.chunks words

/-- Where the served chunk starts. -/
def allocateOffset (h : Heap) (words : ℕ) : ℕ :=
  match findFit (8 * words) h.chunks with
  | none => span h.chunks
  | some f => span f.before

section

variable {h : Heap} {words : ℕ} {f : Fit}

theorem allocateChunks_of_none (hf : findFit (8 * words) h.chunks = none) :
    h.allocateChunks words = h.chunks ++ [⟨words, true⟩] := by
  rw [allocateChunks, hf]

theorem allocateChunks_of_some (hf : findFit (8 * words) h.chunks = some f) :
    h.allocateChunks words = f.chunks words := by
  rw [allocateChunks, hf]

theorem allocateOffset_of_none (hf : findFit (8 * words) h.chunks = none) :
    h.allocateOffset words = span h.chunks := by
  rw [allocateOffset, hf]

theorem allocateOffset_of_some (hf : findFit (8 * words) h.chunks = some f) :
    h.allocateOffset words = span f.before := by
  rw [allocateOffset, hf]

theorem getLast?_allocateChunks {c : Chunk} (hc : c ∈ (h.allocateChunks words).getLast?) :
    c.inUse = true := by
  cases hf : findFit (8 * words) h.chunks with
  | none =>
    rw [allocateChunks_of_none hf, List.getLast?_concat, Option.mem_some] at hc
    rw [← hc]
  | some f =>
    obtain ⟨hsplit, hrun, hfree, hcap⟩ := findFit_spec hf
    obtain ⟨d, ds, hchunks, -⟩ := f.exists_chunks_eq hrun hcap
    have hafter := h.ne_nil_of_free hsplit hrun hfree
    refine h.last_inUse c ?_
    rw [allocateChunks_of_some hf, hchunks, List.getLast?_append_of_ne_nil _ hafter] at hc
    rw [hsplit, List.getLast?_append_of_ne_nil _ hafter]
    exact hc

end

/-- Serve a request of `words` words. -/
def allocate (h : Heap) (words : ℕ) : Heap where
  chunks := h.allocateChunks words
  last_inUse := fun _ hc ↦ getLast?_allocateChunks hc

@[simp] theorem chunks_allocate (h : Heap) (words : ℕ) :
    (h.allocate words).chunks = h.allocateChunks words := rfl

theorem chunkAt_allocate_new (h : Heap) (words : ℕ) :
    ∃ c, ChunkAt (h.allocate words).chunks (h.allocateOffset words) c ∧ c.inUse = true ∧
      words ≤ c.words ∧ ∀ d, d.inUse = true → ¬ChunkAt h.chunks (h.allocateOffset words) d := by
  rw [chunks_allocate]
  cases hf : findFit (8 * words) h.chunks with
  | none =>
    rw [allocateChunks_of_none hf, allocateOffset_of_none hf]
    refine ⟨⟨words, true⟩, ⟨h.chunks, [], rfl, rfl⟩, rfl, le_rfl, ?_⟩
    intro d _ hd
    have hle := hd.le_span
    have hpos := extent_pos d
    omega
  | some f =>
    rw [allocateChunks_of_some hf, allocateOffset_of_some hf]
    obtain ⟨hsplit, hrun, hfree, hcap⟩ := findFit_spec hf
    obtain ⟨c, cs, hchunks, huse, hwords, -⟩ := f.exists_chunks_eq hrun hcap
    refine ⟨c, ⟨f.before, cs ++ f.after, by simp [hchunks], rfl⟩, huse, hwords, fun d hd hat ↦ ?_⟩
    obtain ⟨e, es, he⟩ := List.exists_cons_of_ne_nil hrun
    have hat' : ChunkAt h.chunks (span f.before) e :=
      ⟨f.before, es ++ f.after, by rw [hsplit, he]; simp, rfl⟩
    have hed : e = d := hat'.unique hat
    rw [← hed, hfree e (he ▸ List.mem_cons_self)] at hd
    cases hd

/-- A list whose middle part is replaced by one of the same span: outside the two middles, the
same chunks stand at the same places. -/
theorem chunkAt_middle {before mid mid' after : List Chunk} {off : ℕ} {c : Chunk}
    (hspan : span mid = span mid') (hmid : ∀ o, ¬ChunkAt mid o c)
    (h : ChunkAt (before ++ mid ++ after) off c) : ChunkAt (before ++ mid' ++ after) off c := by
  rcases chunkAt_append.mp h with hl | ⟨off', rfl, hr⟩
  · rcases chunkAt_append.mp hl with hl | ⟨o, -, ho⟩
    · exact chunkAt_append_left (chunkAt_append_left hl _) _
    · exact absurd ho (hmid o)
  · rw [span_append, hspan, ← span_append]
    exact chunkAt_append_right hr _

/-- **Chunks in use stay where they are.** Besides the served chunk, the chunks in use after an
allocation are those before it. -/
theorem chunkAt_allocate {h : Heap} {words off : ℕ} {c : Chunk} (hc : c.inUse = true) :
    ChunkAt (h.allocate words).chunks off c ∧ off ≠ h.allocateOffset words ↔
      ChunkAt h.chunks off c := by
  obtain ⟨e, he, -, -, hold⟩ := h.chunkAt_allocate_new words
  rw [chunks_allocate] at he ⊢
  cases hf : findFit (8 * words) h.chunks with
  | none =>
    rw [allocateOffset_of_none hf] at he hold ⊢
    rw [allocateChunks_of_none hf] at he ⊢
    constructor
    · rintro ⟨hat, hoff⟩
      rcases chunkAt_append.mp hat with hl | ⟨off', rfl, hr⟩
      · exact hl
      · rcases chunkAt_cons.mp hr with ⟨rfl, -⟩ | ⟨o, -, ho⟩
        · exact absurd (Nat.add_zero _) hoff
        · exact absurd ho.mem List.not_mem_nil
    · intro hat
      exact ⟨chunkAt_append_left hat _, fun hoff ↦ hold c hc (hoff ▸ hat)⟩
  | some f =>
    rw [allocateOffset_of_some hf] at he hold ⊢
    rw [allocateChunks_of_some hf] at he ⊢
    obtain ⟨hsplit, hrun, hfree, hcap⟩ := findFit_spec hf
    obtain ⟨d, ds, hchunks, huse, -, hds, hspan⟩ := f.exists_chunks_eq hrun hcap
    rw [hchunks] at he ⊢
    -- in the new middle only the served chunk is in use, in the old one none is
    constructor
    · rintro ⟨hat, hoff⟩
      rw [hsplit]
      rcases chunkAt_append.mp hat with hat' | ⟨off', rfl, hat'⟩
      · rcases chunkAt_append.mp hat' with hat' | ⟨o, rfl, ho⟩
        · exact chunkAt_append_left (chunkAt_append_left hat' _) _
        · rcases chunkAt_cons.mp ho with ⟨rfl, -⟩ | ⟨o', -, ho'⟩
          · exact absurd (Nat.add_zero _) hoff
          · rw [hds c ho'.mem] at hc
            cases hc
      · rw [span_append, hspan, ← span_append]
        exact chunkAt_append_right hat' _
    · intro hat
      refine ⟨?_, fun hoff ↦ hold c hc (hoff ▸ hat)⟩
      rw [hsplit] at hat
      refine chunkAt_middle hspan.symm ?_ hat
      intro o ho
      rw [hfree c ho.mem] at hc
      cases hc

theorem chunkAt_release {h : Heap} {before after : List Chunk} {d : Chunk} {off : ℕ} {c : Chunk}
    (hsplit : h.chunks = before ++ d :: after) (hc : c.inUse = true) :
    ChunkAt (h.release before.length).chunks off c ↔
      ChunkAt h.chunks off c ∧ off ≠ span before := by
  rw [chunks_release hsplit, chunkAt_trimFree hc, hsplit, chunkAt_append, chunkAt_append]
  constructor
  · rintro (hat | ⟨off', rfl, hat⟩)
    · have hle := hat.le_span
      have hpos := extent_pos c
      exact ⟨Or.inl hat, by omega⟩
    · rcases chunkAt_cons.mp hat with ⟨-, rfl⟩ | ⟨o, rfl, ho⟩
      · cases hc
      · have hpos := extent_pos d
        rw [Chunk.extent_release]
        exact ⟨Or.inr ⟨_, rfl, chunkAt_cons.mpr (Or.inr ⟨o, rfl, ho⟩)⟩, by omega⟩
  · rintro ⟨hat | ⟨off', rfl, hat⟩, hoff⟩
    · exact Or.inl hat
    · refine Or.inr ⟨off', rfl, ?_⟩
      rcases chunkAt_cons.mp hat with ⟨rfl, -⟩ | ⟨o, rfl, ho⟩
      · exact absurd (Nat.add_zero _) hoff
      · exact chunkAt_cons.mpr (Or.inr ⟨o, rfl, ho⟩)

end Heap

end Malloc

end AllProjects
