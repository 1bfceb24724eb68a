import AllProjects.Malloc.Hooks

/-!
# Walking the list

What a reader of the list finds. In a memory that holds the chunks `cs`, the walk along `mp_next`
visits their headers in order, the walk along `mp_prev` in reverse, and the headers tile the heap
from behind the sentinels to the break.

Two machines that start at the same address and hold the same list have the same headers, byte for
byte in every field. So two states may be compared by comparing their chunk lists.
-/

namespace AllProjects

namespace Malloc

open Machine

/-- The header addresses of a list of chunks at `a`. -/
def addresses : ℕ → List Chunk → List ℕ
  | _, [] => []
  | a, c :: cs => a :: addresses (a + c.extent) cs

@[simp] theorem addresses_nil (a : ℕ) : addresses a [] = [] := rfl

@[simp] theorem addresses_cons (a : ℕ) (c : Chunk) (cs : List Chunk) :
    addresses a (c :: cs) = a :: addresses (a + c.extent) cs := rfl

theorem addresses_append (a : ℕ) (cs ds : List Chunk) :
    addresses a (cs ++ ds) = addresses a cs ++ addresses (a + span cs) ds := by
  induction cs generalizing a with
  | nil => rfl
  | cons c cs ih =>
    rw [List.cons_append, addresses_cons, ih, addresses_cons, span_cons, add_assoc]
    rfl

theorem mem_addresses {a x : ℕ} {cs : List Chunk} (h : x ∈ addresses a cs) :
    ∃ off c, ChunkAt cs off c ∧ x = a + off := by
  induction cs generalizing a with
  | nil => exact absurd h List.not_mem_nil
  | cons c cs ih =>
    rcases List.mem_cons.mp h with rfl | h
    · exact ⟨0, c, ⟨[], cs, rfl, rfl⟩, rfl⟩
    · obtain ⟨off, d, hd, rfl⟩ := ih h
      exact ⟨c.extent + off, d, chunkAt_cons.mpr (Or.inr ⟨off, rfl, hd⟩), add_assoc _ _ _⟩

theorem ChunkAt.mem_addresses {cs : List Chunk} {off : ℕ} {c : Chunk} (h : ChunkAt cs off c)
    (a : ℕ) :
    a + off ∈ addresses a cs := by
  obtain ⟨before, after, rfl, rfl⟩ := h
  rw [addresses_append]
  exact List.mem_append_right _ List.mem_cons_self

/-- The chunks whose headers stand at the given addresses tile the bytes from `a` to `b`. -/
def Tiles (s : Machine) : ℕ → List ℕ → ℕ → Prop
  | a, [], b => a = b
  | a, chunk :: rest, b => chunk = a ∧ ∃ size stat, s.size chunk = .ok size ∧ 8 ∣ size ∧
      s.stat chunk = .ok stat ∧ (stat = 0 ∨ stat = 1) ∧
      Tiles s (chunk + sizeofMemChunk + size) rest b

/-- The four fields of a header, as a reader sees them. -/
structure Fields where
  size : ℕ
  stat : ℕ
  mpNext : ℕ
  mpPrev : ℕ
  deriving DecidableEq, Repr

/-- Read a header. -/
def Machine.fields (s : Machine) (chunk : ℕ) : Except Fault (ℕ × Fields) := do
  return (chunk, ⟨← s.size chunk, ← s.stat chunk, ← s.mpNext chunk, ← s.mpPrev chunk⟩)

/-- All headers of the list with their addresses, both sentinels included. -/
def Machine.headers (s : Machine) : Except Fault (List (ℕ × Fields)) := do
  (s.memHead :: s.memTail :: (← s.chunksForward)).mapM s.fields

theorem Machine.mpPrev_memTail_of_headers {s : Machine} {head tail : ℕ × Fields}
    {rest : List (ℕ × Fields)} (h : s.headers = .ok (head :: tail :: rest)) :
    s.mpPrev s.memTail = .ok tail.2.mpPrev := by
  obtain ⟨chunks, -, h⟩ := Except.bind_eq_ok_iff.mp h
  rw [List.mapM_cons] at h
  obtain ⟨head', -, h⟩ := Except.bind_eq_ok_iff.mp h
  rw [List.mapM_cons] at h
  obtain ⟨rest', h', heq⟩ := Except.bind_eq_ok_iff.mp h
  obtain ⟨tail', htail, h'⟩ := Except.bind_eq_ok_iff.mp h'
  obtain ⟨rest'', -, heq'⟩ := Except.bind_eq_ok_iff.mp h'
  cases heq'
  cases heq
  obtain ⟨size, -, h⟩ := Except.bind_eq_ok_iff.mp htail
  obtain ⟨stat, -, h⟩ := Except.bind_eq_ok_iff.mp h
  obtain ⟨next, -, h⟩ := Except.bind_eq_ok_iff.mp h
  obtain ⟨prev, hprev, h⟩ := Except.bind_eq_ok_iff.mp h
  cases h
  exact hprev

theorem Machine.HeaderAt.fields {s : Machine} {a : ℕ} {c : Chunk} {prev next : ℕ}
    (h : s.HeaderAt a c prev next) : s.fields a = .ok (a, ⟨c.size, c.stat, next, prev⟩) := by
  rw [Machine.fields, h.size, h.stat, h.mpNext, h.mpPrev]
  rfl

namespace Layout

variable {s : Machine} {cs : List Chunk}

/-! ## The two directions -/

theorem followNext_eq (h : Layout s cs) {fuel : ℕ} {before after : List Chunk}
    (hsplit : sentinel :: cs = before ++ after) (hfuel : after.length < fuel) :
    s.followNext fuel (entry (s.start + span before) after s.memTail)
      = .ok (addresses (s.start + span before) after) := by
  induction after generalizing before fuel with
  | nil =>
    obtain ⟨fuel, rfl⟩ := Nat.exists_eq_succ_of_ne_zero (Nat.ne_of_gt hfuel)
    rw [entry_nil, followNext, if_pos rfl]
    rfl
  | cons c after ih =>
    obtain ⟨fuel, rfl⟩ := Nat.exists_eq_succ_of_ne_zero (Nat.ne_of_gt (Nat.zero_lt_of_lt hfuel))
    have hrec := ih (hsplit.trans (List.append_cons before c after))
      (Nat.lt_of_succ_lt_succ hfuel)
    rw [span_append, span_cons, span_nil, add_zero, ← add_assoc] at hrec
    rw [entry_cons, followNext, if_neg (h.ne_memTail hsplit), (h.headerAt hsplit).mpNext,
      Except.ok_bind_eq, hrec]
    rfl

theorem followPrev_eq (h : Layout s cs) {fuel : ℕ} {before after : List Chunk}
    (hsplit : cs = before ++ after) (hfuel : before.length < fuel) :
    s.followPrev fuel (lastAddr 0 s.start (sentinel :: before))
      = .ok (addresses (s.start + span [sentinel]) before).reverse := by
  induction before using List.reverseRecOn generalizing after fuel with
  | nil =>
    obtain ⟨fuel, rfl⟩ := Nat.exists_eq_succ_of_ne_zero (Nat.ne_of_gt hfuel)
    have hhead : lastAddr 0 s.start [sentinel] = s.memHead := h.memHead.symm
    rw [hhead, followPrev, if_pos rfl]
    rfl
  | append_singleton before c ih =>
    obtain ⟨fuel, rfl⟩ := Nat.exists_eq_succ_of_ne_zero (Nat.ne_of_gt (Nat.zero_lt_of_lt hfuel))
    have hsplit' : sentinel :: cs = (sentinel :: before) ++ c :: after := by rw [hsplit]; simp
    have hlen : before.length < fuel := by
      rw [List.length_append, List.length_singleton] at hfuel
      omega
    have hrec := ih (hsplit.trans (List.append_cons before c after).symm) hlen
    have hne : s.start + span (sentinel :: before) ≠ s.memHead := by
      rw [h.memHead, span_sentinel_cons, sizeofMemChunk]
      omega
    rw [← List.cons_append, lastAddr_concat, followPrev, if_neg hne, (h.headerAt hsplit').mpPrev,
      Except.ok_bind_eq, hrec, addresses_append, List.reverse_append, add_assoc, ← span_append]
    rfl

theorem chunksForward_eq (h : Layout s cs) :
    s.chunksForward = .ok (addresses (s.start + span [sentinel]) cs) := by
  rw [chunksForward, h.mpNext_memHead, Except.ok_bind_eq]
  exact h.followNext_eq List.singleton_append.symm
    (lt_trans (by simp) h.length_lt_fuel)

theorem chunksBackward_eq (h : Layout s cs) :
    s.chunksBackward = .ok (addresses (s.start + span [sentinel]) cs).reverse := by
  rw [chunksBackward, h.tailAt.mpPrev, Except.ok_bind_eq]
  exact h.followPrev_eq (List.append_nil cs).symm (lt_trans (by simp) h.length_lt_fuel)

/-! ## The tiling -/

theorem tiles_of_split (h : Layout s cs) {before after : List Chunk}
    (hsplit : sentinel :: cs = before ++ after) :
    Tiles s (s.start + span before) (addresses (s.start + span before) after) s.brk := by
  induction after generalizing before with
  | nil =>
    rw [addresses_nil, Tiles, h.brk, hsplit, List.append_nil]
  | cons c after ih =>
    have hat := h.headerAt hsplit
    have hrec := ih (hsplit.trans (List.append_cons before c after))
    rw [span_append, span_cons, span_nil, add_zero, ← add_assoc] at hrec
    have hstat : c.stat = 0 ∨ c.stat = 1 := Nat.le_one_iff_eq_zero_or_eq_one.mp c.stat_le_one
    refine ⟨rfl, c.size, c.stat, hat.size, c.eight_dvd_size, hat.stat, hstat, ?_⟩
    rw [add_assoc (s.start + span before)]
    exact hrec

/-! ## Comparing two lists -/

/-- The header fields of a list of chunks at `a`. -/
def fieldsFrom : ℕ → ℕ → List Chunk → ℕ → List (ℕ × Fields)
  | _, _, [], _ => []
  | prev, a, c :: cs, after =>
    (a, ⟨c.size, c.stat, entry (a + c.extent) cs after, prev⟩)
      :: fieldsFrom a (a + c.extent) cs after

theorem mapM_fields (h : Layout s cs) {before after : List Chunk}
    (hsplit : sentinel :: cs = before ++ after) :
    (addresses (s.start + span before) after).mapM s.fields
      = .ok (fieldsFrom (lastAddr 0 s.start before) (s.start + span before) after s.memTail) := by
  induction after generalizing before with
  | nil => rfl
  | cons c after ih =>
    have hrec := ih (hsplit.trans (List.append_cons before c after))
    rw [lastAddr_concat, span_append, span_cons, span_nil, add_zero, ← add_assoc] at hrec
    rw [addresses_cons, List.mapM_cons, (h.headerAt hsplit).fields, Except.ok_bind_eq, hrec]
    rfl

/-- **The headers are determined by the chunk list.** -/
theorem headers_eq (h : Layout s cs) :
    s.headers = .ok ((s.start, ⟨sentinel.size, sentinel.stat,
        entry (s.start + span [sentinel]) cs s.memTail, 0⟩) ::
      (s.memTail, ⟨sentinel.size, sentinel.stat, 0, lastAddr 0 s.start (sentinel :: cs)⟩) ::
      fieldsFrom s.start (s.start + span [sentinel]) cs s.memTail) := by
  have hhead : s.fields s.start = .ok (s.start, ⟨sentinel.size, sentinel.stat,
      entry (s.start + span [sentinel]) cs s.memTail, 0⟩) :=
    (h.headerAt (List.nil_append _).symm).fields
  have hrest := h.mapM_fields List.singleton_append.symm
  rw [headers, h.chunksForward_eq, Except.ok_bind_eq, h.memHead, List.mapM_cons, List.mapM_cons,
    hhead, h.tailAt.fields, hrest]
  rfl

theorem headers_congr {t : Machine} (h : Layout s cs) (h' : Layout t cs)
    (hstart : t.start = s.start) :
    t.headers = s.headers := by
  rw [h.headers_eq, h'.headers_eq, h.memTail, h'.memTail, hstart]

theorem fieldsFrom_injective {prev a after : ℕ} {ds : List Chunk}
    (h : fieldsFrom prev a cs after = fieldsFrom prev a ds after) : cs = ds := by
  induction cs generalizing prev a ds with
  | nil =>
    cases ds with
    | nil => rfl
    | cons d ds => cases h
  | cons c cs ih =>
    cases ds with
    | nil => cases h
    | cons d ds =>
      rw [fieldsFrom, fieldsFrom, List.cons.injEq, Prod.mk.injEq, Fields.mk.injEq] at h
      obtain ⟨⟨-, hsize, hstat, -, -⟩, hrest⟩ := h
      obtain rfl := Chunk.eq_of_size_of_stat hsize hstat
      rw [ih hrest]

/-- Machines with the same headers hold the same list. -/
theorem eq_of_headers {t : Machine} {ds : List Chunk} (h : Layout s cs) (h' : Layout t ds)
    (hstart : t.start = s.start) (hheaders : t.headers = s.headers) : ds = cs := by
  have htail : t.memTail = s.memTail := by rw [h.memTail, h'.memTail, hstart]
  rw [h.headers_eq, h'.headers_eq, hstart, htail, Except.ok.injEq, List.cons.injEq,
    List.cons.injEq] at hheaders
  exact fieldsFrom_injective hheaders.2.2

theorem unique {ds : List Chunk} (h : Layout s cs) (h' : Layout s ds) : ds = cs :=
  h.eq_of_headers h' rfl rfl

theorem size_payloadAt (h : Layout s cs) {off : ℕ} {c : Chunk} (hat : ChunkAt cs off c) :
    s.size (payloadAt s off - sizeofMemChunk) = .ok c.size := by
  obtain ⟨before, after, rfl, rfl⟩ := hat
  rw [payloadAt_eq, Nat.add_sub_cancel]
  exact (h.headerAt List.cons_append.symm).size

theorem brk_congr {t : Machine} (h : Layout s cs) (h' : Layout t cs) (hstart : t.start = s.start) :
    t.brk = s.brk := by
  rw [h.brk, h'.brk, hstart]

end Layout

end Malloc

end AllProjects
