import AllProjects.Malloc.Chunks

/-!
# Chunk lists in memory

`Layout s cs` says that the memory of the machine `s` holds the chunk list `cs`: the headers stand
end to end from the bottom of the heap to the break, each links to its neighbours, and the tail
sentinel links back to the last one.

## The head sentinel is a chunk

`init` gives `mem_head` the size of one header, and the header that follows it is `mem_tail`. So
the head sentinel is laid out like a chunk in use whose payload is the tail sentinel, and the
first real chunk stands exactly where a chunk after it would. The list in memory is therefore
`sentinel :: cs`, which is never empty and never ends with a free chunk; the source's special
cases for the empty list disappear.

## Rewriting links

Every update of the source changes one run of neighbouring headers and the links that point into
it. `Seg.congr` moves a list to a memory that agrees on its headers. `Seg.relink_last` and
`Seg.relink_first` let one link at either end differ. The three layout lemmas (`splice`, `grow`,
`trim`) are assembled from them, one for each shape of update.
-/

namespace AllProjects

namespace Malloc

/-! ## Headers -/

/-- The header of the chunk `c` at `a`, with its links. -/
structure Header (m : Mem) (a : ℕ) (c : Chunk) (prev next : ℕ) : Prop where
  size : m.load a 8 = c.size
  stat : m.load (a + 8) 2 = c.stat
  next : m.load (a + 16) 8 = next
  prev : m.load (a + 24) 8 = prev

theorem Header.congr {m m' : Mem} {a : ℕ} {c : Chunk} {prev next : ℕ} (h : Header m a c prev next)
    (hagree : ∀ x, a ≤ x → x < a + 32 → m' x = m x) : Header m' a c prev next where
  size := by rw [Mem.load_congr fun x hx hx' ↦ hagree x hx (by omega), h.size]
  stat := by rw [Mem.load_congr fun x hx hx' ↦ hagree x (by omega) (by omega), h.stat]
  next := by rw [Mem.load_congr fun x hx hx' ↦ hagree x (by omega) (by omega), h.next]
  prev := by rw [Mem.load_congr fun x hx hx' ↦ hagree x (by omega) (by omega), h.prev]

theorem Header.relink_next {m m' : Mem} {a : ℕ} {c : Chunk} {prev next next' : ℕ}
    (h : Header m a c prev next)
    (hagree : ∀ x, a ≤ x → x < a + 32 → ¬(a + 16 ≤ x ∧ x < a + 24) → m' x = m x)
    (hnext : m'.load (a + 16) 8 = next') : Header m' a c prev next' where
  size := by rw [Mem.load_congr fun x hx hx' ↦ hagree x hx (by omega) (by omega), h.size]
  stat := by rw [Mem.load_congr fun x hx hx' ↦ hagree x (by omega) (by omega) (by omega), h.stat]
  next := hnext
  prev := by rw [Mem.load_congr fun x hx hx' ↦ hagree x (by omega) (by omega) (by omega), h.prev]

theorem Header.relink_prev {m m' : Mem} {a : ℕ} {c : Chunk} {prev prev' next : ℕ}
    (h : Header m a c prev next)
    (hagree : ∀ x, a ≤ x → x < a + 32 → ¬(a + 24 ≤ x ∧ x < a + 32) → m' x = m x)
    (hprev : m'.load (a + 24) 8 = prev') : Header m' a c prev' next where
  size := by rw [Mem.load_congr fun x hx hx' ↦ hagree x hx (by omega) (by omega), h.size]
  stat := by rw [Mem.load_congr fun x hx hx' ↦ hagree x (by omega) (by omega) (by omega), h.stat]
  next := by rw [Mem.load_congr fun x hx hx' ↦ hagree x (by omega) (by omega) (by omega), h.next]
  prev := hprev

/-! ## The ends of a list -/

/-- Where a list of chunks at `a` is entered: its first header, or what follows an empty list. -/
def entry (a : ℕ) (cs : List Chunk) (after : ℕ) : ℕ :=
  match cs with
  | [] => after
  | _ :: _ => a

@[simp] theorem entry_nil (a after : ℕ) : entry a [] after = after := rfl

@[simp] theorem entry_cons (a : ℕ) (c : Chunk) (cs : List Chunk) (after : ℕ) :
    entry a (c :: cs) after = a := rfl

theorem entry_of_ne_nil {cs : List Chunk} (h : cs ≠ []) (a after : ℕ) : entry a cs after = a := by
  cases cs with
  | nil => exact absurd rfl h
  | cons c cs => rfl

theorem entry_append (a : ℕ) (cs ds : List Chunk) (after : ℕ) :
    entry a (cs ++ ds) after = entry a cs (entry (a + span cs) ds after) := by
  cases cs <;> rfl

/-- The last header of a list of chunks at `a`, or `before` for an empty list. -/
def lastAddr : ℕ → ℕ → List Chunk → ℕ
  | before, _, [] => before
  | _, a, c :: cs => lastAddr a (a + c.extent) cs

@[simp] theorem lastAddr_nil (before a : ℕ) : lastAddr before a [] = before := rfl

@[simp] theorem lastAddr_cons (before a : ℕ) (c : Chunk) (cs : List Chunk) :
    lastAddr before a (c :: cs) = lastAddr a (a + c.extent) cs := rfl

theorem lastAddr_append (before a : ℕ) (cs ds : List Chunk) :
    lastAddr before a (cs ++ ds) = lastAddr (lastAddr before a cs) (a + span cs) ds := by
  induction cs generalizing before a with
  | nil => rfl
  | cons c cs ih => rw [List.cons_append, lastAddr_cons, ih, span_cons, lastAddr_cons, add_assoc]

theorem lastAddr_concat (before a : ℕ) (cs : List Chunk) (c : Chunk) :
    lastAddr before a (cs ++ [c]) = a + span cs := by
  rw [lastAddr_append]
  rfl

/-! ## Segments -/

/-- The chunks `cs` stand end to end from `a`, linked to each other, to `before` at the front and
to `after` at the end. -/
def Seg (m : Mem) (after : ℕ) : ℕ → ℕ → List Chunk → Prop
  | _, _, [] => True
  | before, a, c :: cs =>
    Header m a c before (entry (a + c.extent) cs after) ∧ Seg m after a (a + c.extent) cs

section Seg

variable {m m' : Mem} {after before a : ℕ} {cs ds : List Chunk} {c : Chunk}

theorem seg_append :
    Seg m after before a (cs ++ ds) ↔
      Seg m (entry (a + span cs) ds after) before a cs ∧
        Seg m after (lastAddr before a cs) (a + span cs) ds := by
  induction cs generalizing before a with
  | nil => simp [Seg]
  | cons c cs ih =>
    rw [List.cons_append, Seg, ih, Seg, entry_append, span_cons, lastAddr_cons, add_assoc,
      and_assoc]

theorem Seg.header_at (h : Seg m after before a (cs ++ c :: ds)) :
    Header m (a + span cs) c (lastAddr before a cs) (entry (a + span cs + c.extent) ds after) :=
  (seg_append.mp h).2.1

theorem Seg.congr (h : Seg m after before a cs)
    (hagree : ∀ off c, ChunkAt cs off c → ∀ x, a + off ≤ x → x < a + off + 32 → m' x = m x) :
    Seg m' after before a cs := by
  induction cs generalizing before a with
  | nil => trivial
  | cons c cs ih =>
    refine ⟨h.1.congr fun x hx hx' ↦ hagree 0 c ⟨[], cs, rfl, rfl⟩ x hx hx', ih h.2 ?_⟩
    intro off d hd x hx hx'
    exact hagree _ d (chunkAt_cons.mpr (Or.inr ⟨off, rfl, hd⟩)) x (by omega) (by omega)

theorem Seg.relink_last {after' : ℕ} (h : Seg m after before a (cs ++ [c]))
    (hagree : ∀ off d, ChunkAt (cs ++ [c]) off d → ∀ x, a + off ≤ x → x < a + off + 32 →
      ¬(a + span cs + 16 ≤ x ∧ x < a + span cs + 24) → m' x = m x)
    (hnext : m'.load (a + span cs + 16) 8 = after') : Seg m' after' before a (cs ++ [c]) := by
  obtain ⟨hinit, hlast, -⟩ := seg_append.mp h
  refine seg_append.mpr ⟨hinit.congr ?_, ?_, trivial⟩
  · intro off d hd x hx hx'
    have hle := hd.le_span
    have hH : d.extent = 32 + d.size := rfl
    exact hagree off d (chunkAt_append_left hd _) x hx hx' (by omega)
  · have hc : ChunkAt (cs ++ [c]) (span cs) c := ⟨cs, [], rfl, rfl⟩
    exact hlast.relink_next (fun x hx hx' hno ↦ hagree _ c hc x hx hx' hno) hnext

theorem Seg.relink_first {before' : ℕ} (h : Seg m after before a (c :: cs))
    (hagree : ∀ off d, ChunkAt (c :: cs) off d → ∀ x, a + off ≤ x → x < a + off + 32 →
      ¬(a + 24 ≤ x ∧ x < a + 32) → m' x = m x)
    (hprev : m'.load (a + 24) 8 = before') : Seg m' after before' a (c :: cs) := by
  refine ⟨h.1.relink_prev ?_ hprev, h.2.congr ?_⟩
  · intro x hx hx' hno
    exact hagree 0 c ⟨[], cs, rfl, rfl⟩ x hx hx' hno
  · intro off d hd x hx hx'
    have hH : c.extent = 32 + c.size := rfl
    exact hagree _ d (chunkAt_cons.mpr (Or.inr ⟨off, rfl, hd⟩)) x (by omega) (by omega) (by omega)

end Seg

/-! ## Layouts -/

/-- The head sentinel: in use, with the tail sentinel for its payload. -/
def sentinel : Chunk := ⟨4, true⟩

@[simp] theorem span_sentinel_cons (cs : List Chunk) :
    span (sentinel :: cs) = 2 * sizeofMemChunk + span cs := rfl

@[simp] theorem sentinel_inUse : sentinel.inUse = true := rfl

theorem getLast?_sentinel_cons {cs : List Chunk} (h : ∀ c ∈ cs.getLast?, c.inUse = true) :
    ∀ c ∈ (sentinel :: cs).getLast?, c.inUse = true := by
  intro c hc
  rw [List.getLast?_cons, Option.mem_some] at hc
  cases hlast : cs.getLast? with
  | none =>
    rw [hlast] at hc
    rw [← hc]
    rfl
  | some d =>
    rw [hlast] at hc
    exact hc ▸ h d hlast

/-- The machine holds the chunk list `cs` between its sentinels. -/
structure Layout (s : Machine) (cs : List Chunk) : Prop where
  hlb : s.hlb = s.start
  memHead : s.memHead = s.start
  memTail : s.memTail = s.start + sizeofMemChunk
  brk : s.brk = s.start + span (sentinel :: cs)
  brk_le : s.brk ≤ s.limit.val
  seg : Seg s.mem s.memTail 0 s.start (sentinel :: cs)
  tail : Header s.mem s.memTail sentinel (lastAddr 0 s.start (sentinel :: cs)) 0

namespace Machine

/-- The same machine with another memory. -/
def withMem (s : Machine) (m : Mem) : Machine := { s with mem := m }

/-- The same machine with another break. -/
def withBrk (s : Machine) (brk : ℕ) : Machine := { s with brk := brk }

section

variable (s : Machine) (m m' : Mem) (b : ℕ)

@[simp] theorem withMem_mem : (s.withMem m).mem = m := rfl
@[simp] theorem withMem_start : (s.withMem m).start = s.start := rfl
@[simp] theorem withMem_brk : (s.withMem m).brk = s.brk := rfl
@[simp] theorem withMem_mappedEnd : (s.withMem m).mappedEnd = s.mappedEnd := rfl
@[simp] theorem withMem_limit : (s.withMem m).limit = s.limit := rfl
@[simp] theorem withMem_errno : (s.withMem m).errno = s.errno := rfl
@[simp] theorem withMem_hlb : (s.withMem m).hlb = s.hlb := rfl
@[simp] theorem withMem_memHead : (s.withMem m).memHead = s.memHead := rfl
@[simp] theorem withMem_memTail : (s.withMem m).memTail = s.memTail := rfl
@[simp] theorem withMem_withMem : (s.withMem m).withMem m' = s.withMem m' := rfl
@[simp] theorem withBrk_mem : (s.withBrk b).mem = s.mem := rfl
@[simp] theorem withBrk_start : (s.withBrk b).start = s.start := rfl
@[simp] theorem withBrk_brk : (s.withBrk b).brk = b := rfl
@[simp] theorem withBrk_mappedEnd : (s.withBrk b).mappedEnd = s.paging.endOf b := rfl
@[simp] theorem withBrk_limit : (s.withBrk b).limit = s.limit := rfl
@[simp] theorem withBrk_errno : (s.withBrk b).errno = s.errno := rfl
@[simp] theorem withBrk_hlb : (s.withBrk b).hlb = s.hlb := rfl
@[simp] theorem withBrk_memHead : (s.withBrk b).memHead = s.memHead := rfl
@[simp] theorem withBrk_memTail : (s.withBrk b).memTail = s.memTail := rfl

end

/-! ### Accesses that stay in the segment -/

theorem brk_le_mappedEnd (s : Machine) : s.brk ≤ s.mappedEnd := s.paging.le_endOf s.brk

section

variable {s : Machine} {a v : ℕ}

theorem store_eq_ok {w : ℕ} (h : s.start ≤ a) (h' : a + w ≤ s.mappedEnd) :
    s.store a w v = .ok (s.withMem (s.mem.store a w v)) := by
  rw [store, Mem.storeIn_eq_ok s.mem h h']
  rfl

theorem store_ok {t : Machine} {w : ℕ} (h : s.store a w v = .ok t) :
    s.start ≤ a ∧ a + w ≤ s.mappedEnd ∧ t.mappedEnd = s.mappedEnd := by
  obtain ⟨m, hm, rfl⟩ := Except.map_eq_ok_iff.mp h
  obtain ⟨hlo, hhi, -⟩ := (Mem.storeIn_eq_ok_iff _ _).mp hm
  exact ⟨hlo, hhi, rfl⟩

theorem setSize_eq_ok (h : s.start ≤ a) (h' : a + 32 ≤ s.mappedEnd) :
    s.setSize a v = .ok (s.withMem (s.mem.store a 8 v)) :=
  store_eq_ok h (by omega)

theorem setStat_eq_ok (h : s.start ≤ a) (h' : a + 32 ≤ s.mappedEnd) :
    s.setStat a v = .ok (s.withMem (s.mem.store (a + 8) 2 v)) :=
  store_eq_ok (by omega) (by omega)

theorem setMpNext_eq_ok (h : s.start ≤ a) (h' : a + 32 ≤ s.mappedEnd) :
    s.setMpNext a v = .ok (s.withMem (s.mem.store (a + 16) 8 v)) :=
  store_eq_ok (by omega) (by omega)

theorem setMpPrev_eq_ok (h : s.start ≤ a) (h' : a + 32 ≤ s.mappedEnd) :
    s.setMpPrev a v = .ok (s.withMem (s.mem.store (a + 24) 8 v)) :=
  store_eq_ok (by omega) (by omega)

theorem mpNext_eq_ok (h : s.start ≤ a) (h' : a + 32 ≤ s.mappedEnd) :
    s.mpNext a = .ok (s.mem.load (a + 16) 8) :=
  Mem.loadIn_eq_ok s.mem (by omega) (by omega)

theorem mpPrev_eq_ok (h : s.start ≤ a) (h' : a + 32 ≤ s.mappedEnd) :
    s.mpPrev a = .ok (s.mem.load (a + 24) 8) :=
  Mem.loadIn_eq_ok s.mem (by omega) (by omega)

theorem sbrk_eq {incr : ℤ} (h : s.start ≤ (s.brk : ℤ) + incr)
    (h' : (s.brk : ℤ) + incr ≤ s.limit.val) :
    s.sbrk incr = (s.brk, s.withBrk ((s.brk : ℤ) + incr).toNat) :=
  if_pos ⟨h, h'⟩

end

/-- A header of the list, inside the segment: what the loops read at `a`. -/
structure HeaderAt (s : Machine) (a : ℕ) (c : Chunk) (prev next : ℕ) : Prop where
  lower : s.start ≤ a
  upper : a + sizeofMemChunk ≤ s.brk
  header : Header s.mem a c prev next

namespace HeaderAt

variable {s : Machine} {a : ℕ} {c : Chunk} {prev next : ℕ} (h : s.HeaderAt a c prev next)

include h

theorem upper' : a + 32 ≤ s.brk := h.upper

theorem mapped : a + 32 ≤ s.mappedEnd := h.upper.trans s.brk_le_mappedEnd

theorem size : s.size a = .ok c.size := by
  have hup := h.mapped
  rw [Machine.size, load, Mem.loadIn_eq_ok s.mem h.lower (by omega), h.header.size]

theorem stat : s.stat a = .ok c.stat := by
  have hlo := h.lower
  have hup := h.mapped
  rw [Machine.stat, load, Mem.loadIn_eq_ok s.mem (by omega) (by omega), h.header.stat]

theorem mpNext : s.mpNext a = .ok next := by
  rw [mpNext_eq_ok h.lower h.mapped, h.header.next]

theorem mpPrev : s.mpPrev a = .ok prev := by
  rw [mpPrev_eq_ok h.lower h.mapped, h.header.prev]

end HeaderAt

end Machine

namespace Layout

open Machine

variable {s : Machine} {cs : List Chunk}

theorem headerAt (h : Layout s cs) {before after : List Chunk} {c : Chunk}
    (hsplit : sentinel :: cs = before ++ c :: after) :
    s.HeaderAt (s.start + span before) c (lastAddr 0 s.start before)
      (entry (s.start + span before + c.extent) after s.memTail) where
  lower := Nat.le_add_right _ _
  upper := by
    have hbrk := h.brk
    rw [hsplit, span_append, span_cons, Chunk.extent] at hbrk
    omega
  header := by
    have hseg := h.seg
    rw [hsplit] at hseg
    exact hseg.header_at

theorem tailAt (h : Layout s cs) :
    s.HeaderAt s.memTail sentinel (lastAddr 0 s.start (sentinel :: cs)) 0 where
  lower := by rw [h.memTail]; exact Nat.le_add_right _ _
  upper := by
    rw [h.memTail, h.brk, span_sentinel_cons]
    omega
  header := h.tail

theorem ne_memTail (h : Layout s cs) {before after : List Chunk} {c : Chunk}
    (hsplit : sentinel :: cs = before ++ c :: after) : s.start + span before ≠ s.memTail := by
  rw [h.memTail]
  cases before with
  | nil =>
    rw [span_nil, sizeofMemChunk]
    omega
  | cons d before =>
    rw [List.cons_append, List.cons.injEq] at hsplit
    rw [← hsplit.1, span_sentinel_cons, sizeofMemChunk]
    omega

theorem brk_lt (h : Layout s cs) : s.brk < 2 ^ 63 :=
  lt_of_le_of_lt h.brk_le s.limit.isLt

theorem mappedEnd_le (h : Layout s cs) : s.mappedEnd ≤ 2 ^ 63 := by
  have hle : s.mappedEnd ≤ max s.brk (2 ^ 63) := s.paging.endOf_le s.brk
  rwa [max_eq_right h.brk_lt.le] at hle

theorem congr (h : Layout s cs) {m' : Mem}
    (hagree : ∀ off c, ChunkAt (sentinel :: cs) off c →
      ∀ x, s.start + off ≤ x → x < s.start + off + 32 → m' x = s.mem x)
    (htail : ∀ x, s.memTail ≤ x → x < s.memTail + 32 → m' x = s.mem x) :
    Layout (s.withMem m') cs where
  hlb := h.hlb
  memHead := h.memHead
  memTail := h.memTail
  brk := h.brk
  brk_le := h.brk_le
  seg := h.seg.congr hagree
  tail := h.tail.congr htail

/-! ### The three shapes of update

In each lemma `m'` is the memory after the update, described by what it holds where it differs. -/

theorem off_eq_zero_or_le {off : ℕ} {c : Chunk} (h : ChunkAt (sentinel :: cs) off c) :
    off = 0 ∨ 64 ≤ off := by
  rcases chunkAt_cons.mp h with ⟨rfl, -⟩ | ⟨o, rfl, -⟩
  · exact Or.inl rfl
  · exact Or.inr (Nat.le_add_right _ _)

/-- **Replacing a run by one of the same span.** Besides the run itself only the back link of what
follows it may change. -/
theorem splice {pre mid mid' post : List Chunk} {m' : Mem}
    (h : Layout s (pre ++ mid ++ post)) (hmid : mid ≠ []) (hmid' : mid' ≠ [])
    (hspan : span mid' = span mid) {A F P : ℕ} (hA : A = s.start + span (sentinel :: pre))
    (hF : F = entry (A + span mid) post s.memTail) (hP : P = lastAddr 0 s.start (sentinel :: pre))
    (hseg : Seg m' F P A mid') (hprev : m'.load (F + 24) 8 = lastAddr P A mid')
    (hagree : ∀ x, x < A ∨ A + span mid ≤ x → ¬(F + 24 ≤ x ∧ x < F + 32) → m' x = s.mem x) :
    Layout (s.withMem m') (pre ++ mid' ++ post) := by
  have htail := h.memTail
  rw [sizeofMemChunk] at htail
  have hA64 : s.start + 64 ≤ A := by rw [hA, span_sentinel_cons, sizeofMemChunk]; omega
  have hseg₀ := h.seg
  have htail₀ := h.tail
  simp only [← List.cons_append] at hseg₀ htail₀
  rw [seg_append, seg_append, span_append, ← add_assoc, ← hA, ← hF, ← hP,
    entry_of_ne_nil hmid] at hseg₀
  rw [lastAddr_append, lastAddr_append, span_append, ← add_assoc, ← hA, ← hP] at htail₀
  obtain ⟨⟨hpre, -⟩, hpost⟩ := hseg₀
  -- the chunks in front keep their headers
  have hpre' : Seg m' A 0 s.start (sentinel :: pre) := hpre.congr fun off c hc x hx hx' ↦ by
    have hle := hc.le_span
    have hH : c.extent = 32 + c.size := rfl
    have hoff := off_eq_zero_or_le hc
    refine hagree x (Or.inl (by omega)) ?_
    rw [hF]
    cases post with
    | nil => rw [entry_nil]; omega
    | cons d post => rw [entry_cons]; omega
  -- those behind keep theirs, up to the back link of the first
  have hpost' : Seg m' s.memTail (lastAddr P A mid') (A + span mid) post := by
    cases post with
    | nil => trivial
    | cons d post =>
      rw [entry_cons] at hF
      subst hF
      refine hpost.relink_first ?_ hprev
      intro off c _ x hx hx' hno
      exact hagree x (Or.inr (by omega)) hno
  have htail' : Header m' s.memTail sentinel
      (lastAddr (lastAddr P A mid') (A + span mid) post) 0 := by
    cases post with
    | nil =>
      rw [entry_nil] at hF
      subst hF
      exact htail₀.relink_prev (fun x hx hx' hno ↦ hagree x (Or.inl (by omega)) hno) hprev
    | cons d post =>
      rw [entry_cons] at hF
      exact htail₀.congr fun x hx hx' ↦ hagree x (Or.inl (by omega)) (by omega)
  have hbrk := h.brk
  refine ⟨h.hlb, h.memHead, h.memTail, ?_, h.brk_le, ?_, ?_⟩
  · simp only [← List.cons_append, span_append, hspan] at hbrk ⊢
    exact hbrk
  · simp only [← List.cons_append, withMem_mem, withMem_start, withMem_memTail]
    rw [seg_append, seg_append, span_append, ← add_assoc, ← hA, hspan, ← hF,
      entry_of_ne_nil hmid', lastAddr_append, ← hA, ← hP]
    exact ⟨⟨hpre', hseg⟩, hpost'⟩
  · simp only [← List.cons_append, withMem_mem, withMem_start, withMem_memTail]
    rw [lastAddr_append, lastAddr_append, span_append, ← add_assoc, ← hA, hspan, ← hP]
    exact htail'

/-- The head sentinel ends some list, so every layout has a last header. -/
theorem exists_concat (cs : List Chunk) : ∃ ds c, sentinel :: cs = ds ++ [c] := by
  obtain h | ⟨ds, c, h⟩ := List.eq_nil_or_concat (sentinel :: cs)
  · exact absurd h (by simp)
  · exact ⟨ds, c, by rw [h, List.concat_eq_append]⟩

/-- **Appending a chunk at the break.** -/
theorem grow {m' : Mem} {c : Chunk} (h : Layout s cs) {L : ℕ}
    (hL : L = lastAddr 0 s.start (sentinel :: cs)) (hroom : s.brk + c.extent ≤ s.limit.val)
    (hnew : Header m' s.brk c L s.memTail) (hnext : m'.load (L + 16) 8 = s.brk)
    (hprev : m'.load (s.memTail + 24) 8 = s.brk)
    (hagree : ∀ x, x < s.brk → ¬(L + 16 ≤ x ∧ x < L + 24) →
      ¬(s.memTail + 24 ≤ x ∧ x < s.memTail + 32) → m' x = s.mem x) :
    Layout ((s.withBrk (s.brk + c.extent)).withMem m') (cs ++ [c]) := by
  have htail := h.memTail
  rw [sizeofMemChunk] at htail
  have hbrk := h.brk
  have hseg := h.seg
  have htail₀ := h.tail
  obtain ⟨ds, d, hds⟩ := exists_concat cs
  rw [← hL] at htail₀
  have hLd : L = s.start + span ds := by rw [hL, hds, lastAddr_concat]
  have hspan : span (sentinel :: cs) = span ds + d.extent := by rw [hds]; simp
  have hd : d.extent = 32 + d.size := rfl
  have hlast : ChunkAt (sentinel :: cs) (span ds) d := ⟨ds, [], hds, rfl⟩
  have hoffL := off_eq_zero_or_le hlast
  have hseg' : Seg m' s.brk 0 s.start (sentinel :: cs) := by
    rw [hds] at hseg ⊢
    refine hseg.relink_last ?_ (by rw [← hLd]; exact hnext)
    intro off e he x hx hx' hno
    rw [← hds] at he
    have hle := he.le_span
    have he32 : e.extent = 32 + e.size := rfl
    have hoff := off_eq_zero_or_le he
    exact hagree x (by omega) (by rw [hLd]; exact hno) (by omega)
  refine ⟨h.hlb, h.memHead, h.memTail, ?_, ?_, ?_, ?_⟩
  · simp only [← List.cons_append, withMem_brk, withBrk_brk, withMem_start, withBrk_start,
      span_append, span_cons c, span_nil]
    omega
  · exact hroom
  · simp only [← List.cons_append, withMem_mem, withMem_start, withBrk_start, withMem_memTail,
      withBrk_memTail]
    rw [seg_append, ← hbrk, ← hL]
    exact ⟨hseg', hnew, trivial⟩
  · simp only [← List.cons_append, withMem_mem, withMem_start, withBrk_start, withMem_memTail,
      withBrk_memTail]
    rw [lastAddr_concat, ← hbrk]
    refine htail₀.relink_prev (fun x hx hx' hno ↦ hagree x ?_ ?_ hno) hprev
    · rw [span_sentinel_cons, sizeofMemChunk] at hbrk
      omega
    · omega

/-- **Dropping chunks at the break.** -/
theorem trim {m' : Mem} {ds : List Chunk} (h : Layout s (cs ++ ds)) {L : ℕ}
    (hL : L = lastAddr 0 s.start (sentinel :: cs)) (hnext : m'.load (L + 16) 8 = s.memTail)
    (hprev : m'.load (s.memTail + 24) 8 = L)
    (hagree : ∀ x, ¬(L + 16 ≤ x ∧ x < L + 24) →
      ¬(s.memTail + 24 ≤ x ∧ x < s.memTail + 32) → m' x = s.mem x) :
    Layout ((s.withMem m').withBrk (s.brk - span ds)) cs := by
  have htail := h.memTail
  rw [sizeofMemChunk] at htail
  have hbrk := h.brk
  have hbrk_le := h.brk_le
  have hseg := h.seg
  have htail₀ := h.tail
  simp only [← List.cons_append] at hseg hbrk
  obtain ⟨es, e, hes⟩ := exists_concat cs
  have hLe : L = s.start + span es := by rw [hL, hes, lastAddr_concat]
  have hlast : ChunkAt (sentinel :: cs) (span es) e := ⟨es, [], hes, rfl⟩
  have hoffL := off_eq_zero_or_le hlast
  refine ⟨h.hlb, h.memHead, h.memTail, ?_, ?_, ?_, ?_⟩
  · simp only [withBrk_brk, withBrk_start, withMem_start]
    rw [hbrk, span_append]
    omega
  · simp only [withBrk_brk, withBrk_limit, withMem_limit]
    omega
  · simp only [withBrk_mem, withMem_mem, withBrk_start, withMem_start, withBrk_memTail,
      withMem_memTail]
    have hcs := (seg_append.mp hseg).1
    rw [hes] at hcs ⊢
    refine hcs.relink_last ?_ (by rw [← hLe]; exact hnext)
    intro off d hd x hx hx' hno
    rw [← hes] at hd
    have hoff := off_eq_zero_or_le hd
    exact hagree x (by rw [hLe]; exact hno) (by omega)
  · simp only [withBrk_mem, withMem_mem, withBrk_start, withMem_start, withBrk_memTail,
      withMem_memTail]
    rw [← hL]
    exact htail₀.relink_prev (fun x hx hx' hno ↦ hagree x (by omega) hno) hprev

end Layout

end Malloc

end AllProjects
