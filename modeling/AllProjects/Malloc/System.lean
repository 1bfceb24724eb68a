import AllProjects.Malloc.Walk
import AllProjects.Transition.Run

/-!
# The allocator and its clients

A system is a machine with the list of live pointers: those that `my_malloc_hook` returned and that
were not passed to `my_free_hook` since. Clients request, release, and write inside their own
payloads; something else in the process may set `errno` at any time. A call that faults is not a
step, so every run is one in which each `sbrk` that was needed succeeded.

`errno` matters because the hook looks at it after the fact: while it holds a stale `ENOMEM`, every
allocation takes a chunk and returns `NULL`. The invariant `Inv` holds for such runs too. That each
chunk in use has a live pointer is `Owned`, which needs an `errno` without `ENOMEM`.
-/

namespace AllProjects

namespace Malloc

open Machine

/-- A machine, and the live pointers with the sizes they were requested for. -/
structure System where
  machine : Machine
  live : List (ℕ × ℕ)

/-- What happens to a system. -/
inductive Event
  | malloc (n : ℕ)
  | free (ptr : ℕ)
  | write (ptr i : ℕ) (b : UInt8)
  | setErrno (e : ℕ)
  deriving DecidableEq, Repr

namespace System

/-- What clients keep to: sizes that do not wrap, live pointers, and the requested bytes. -/
def Allowed (s : System) : Event → Prop
  | .malloc n => n + 7 + sizeofMemChunk < 2 ^ 63
  | .free ptr => ∃ n, (ptr, n) ∈ s.live
  | .write ptr i _ => ∃ n, (ptr, n) ∈ s.live ∧ i < n
  | .setErrno _ => True

theorem Allowed.lt_two_pow {s : System} {n : ℕ} (h : s.Allowed (.malloc n)) : n + 7 < 2 ^ 64 := by
  have hsize : n + 7 + sizeofMemChunk < 2 ^ 63 := h
  omega

theorem Allowed.increment_lt {s : System} {n : ℕ} (h : s.Allowed (.malloc n)) :
    8 * requestWords n + sizeofMemChunk < 2 ^ 63 := by
  have hsize : n + 7 + sizeofMemChunk < 2 ^ 63 := h
  rw [requestWords]
  omega

/-- The effect of an event. -/
def exec (s : System) : Event → Except Fault System
  | .malloc n => do
    let (result, m) ← s.machine.myMallocHook n
    return ⟨m, if result = 0 then s.live else (result, n) :: s.live⟩
  | .free ptr => do
    let m ← s.machine.myFreeHook ptr
    return ⟨m, s.live.filter fun l ↦ l.1 ≠ ptr⟩
  | .write ptr i b => do
    let m ← s.machine.store (ptr + i) 1 b.toNat
    return { s with machine := m }
  | .setErrno e => .ok { s with machine := { s.machine with errno := e } }

/-- One step: an allowed event that completes. -/
def Step (s : System) (e : Event) (t : System) : Prop := s.Allowed e ∧ s.exec e = .ok t

instance (s : System) : (e : Event) → Decidable (s.Allowed e)
  | .malloc n => inferInstanceAs (Decidable (n + 7 + sizeofMemChunk < 2 ^ 63))
  | .free ptr => decidable_of_iff (ptr ∈ s.live.map Prod.fst) (by simp [Allowed])
  | .write ptr i _ => decidable_of_iff (∃ l ∈ s.live, l.1 = ptr ∧ i < l.2) (by
      constructor
      · rintro ⟨⟨_, n⟩, hl, rfl, hi⟩
        exact ⟨n, hl, hi⟩
      · rintro ⟨n, hl, hi⟩
        exact ⟨_, hl, rfl, hi⟩)
  | .setErrno _ => .isTrue trivial

/-- A step, computed. -/
def step? (s : System) (e : Event) : Option System :=
  if s.Allowed e then (s.exec e).toOption else none

theorem step_of_step? {s t : System} {e : Event} (h : s.step? e = some t) : Step s e t := by
  rw [step?] at h
  split at h
  · rename_i hallowed
    refine ⟨hallowed, ?_⟩
    cases hexec : s.exec e with
    | error f => rw [hexec] at h; cases h
    | ok u => rw [hexec] at h; cases h; rfl
  · cases h

/-- The states of all runs that start with `init`, whatever the process looked like before. -/
def Reachable (t : System) : Prop :=
  ∃ mem paging brk limit errno m es, (boot mem paging brk limit errno).init = .ok m ∧
    Run Step ⟨m, []⟩ es t

/-! ## The invariant -/

/-- The machine holds the heap `h`, and each live pointer is the payload of a chunk in use that is
large enough for its request. -/
structure Inv (s : System) (h : Heap) : Prop where
  holds : Holds s.machine h
  nodup : (s.live.map Prod.fst).Nodup
  owns : ∀ l ∈ s.live, ∃ off c, ChunkAt h.chunks off c ∧ c.inUse = true ∧
    l.1 = payloadAt s.machine off ∧ 0 < l.2 ∧ l.2 ≤ c.size

theorem payloadAt_injective {m : Machine} {off off' : ℕ} (h : payloadAt m off = payloadAt m off') :
    off = off' := by
  rw [payloadAt, payloadAt] at h
  omega

theorem payloadAt_congr {m m' : Machine} (h : m'.start = m.start) (off : ℕ) :
    payloadAt m' off = payloadAt m off := by
  rw [payloadAt, payloadAt, h]

theorem Inv.payloadByte {s : System} {h : Heap} (hs : Inv s h) {l : ℕ × ℕ} (hl : l ∈ s.live) {x : ℕ}
    (hlo : l.1 ≤ x) (hhi : x < l.1 + l.2) : PayloadByte s.machine h.chunks x := by
  obtain ⟨off, c, hat, huse, hptr, -, hsize⟩ := hs.owns l hl
  have hext : c.extent = sizeofMemChunk + c.size := rfl
  rw [payloadAt] at hptr
  refine ⟨2 * sizeofMemChunk + off, c, chunkAt_cons.mpr (Or.inr ⟨off, rfl, hat⟩), ?_, huse, ?_, ?_⟩
  · rw [sizeofMemChunk]
    omega
  · omega
  · omega

/-- Live pointers that stay live keep their chunks through an update which keeps those chunks. -/
theorem Inv.owns_of_update {s : System} {h h' : Heap} (hs : Inv s h) {m : Machine}
    (hstart : m.start = s.machine.start) {l : ℕ × ℕ} (hl : l ∈ s.live)
    (hkeep : ∀ off c, ChunkAt h.chunks off c → c.inUse = true → l.1 = payloadAt s.machine off →
      ChunkAt h'.chunks off c) :
    ∃ off c, ChunkAt h'.chunks off c ∧ c.inUse = true ∧ l.1 = payloadAt m off ∧ 0 < l.2 ∧
      l.2 ≤ c.size := by
  obtain ⟨off, c, hat, huse, hptr, hpos, hsize⟩ := hs.owns l hl
  exact ⟨off, c, hkeep off c hat huse hptr, huse, by rw [hptr, payloadAt_congr hstart], hpos, hsize⟩

theorem inv_init {mem : Mem} {paging : Paging} {brk errno : ℕ} {limit : Fin (2 ^ 63)} {m : Machine}
    (hinit : (boot mem paging brk limit errno).init = .ok m) : Inv ⟨m, []⟩ Heap.empty := by
  have hroom : brk + 64 ≤ limit.val := by
    by_contra hno
    rw [init_refused hno] at hinit
    cases hinit
  rw [init_eq hroom, Except.ok.injEq] at hinit
  subst hinit
  exact ⟨holds_initialized hroom, List.nodup_nil, fun l hl ↦ absurd hl List.not_mem_nil⟩

/-! ## What each event does -/

section Events

variable {s t : System} {h : Heap}

/-- An allocation serves a new pointer, or none while `errno` is `ENOMEM`. -/
theorem Inv.malloc (hs : Inv s h) {n : ℕ} (hn : n ≠ 0) (hsize : n + 7 < 2 ^ 64)
    (hlt : findFit (8 * requestWords n) h.chunks = none →
      8 * requestWords n + sizeofMemChunk < 2 ^ 63)
    (hok : s.exec (.malloc n) = .ok t) :
    Inv t (h.allocate (requestWords n)) ∧
      t.live = (if s.machine.errno = ENOMEM then s.live
        else (payloadAt s.machine (h.allocateOffset (requestWords n)), n) :: s.live) ∧
      Update s.machine h.chunks t.machine (h.allocate (requestWords n)).chunks := by
  obtain ⟨⟨result, m⟩, hhook, ht⟩ := Except.bind_eq_ok_iff.mp hok
  obtain ⟨hresult, hupd, hholds⟩ := myMallocHook_ok hs.holds hn (wrap_div_eq hsize) hlt hhook
  dsimp only at ht
  rw [Except.pure_eq_ok, Except.ok.injEq] at ht
  subst ht
  have hkeep : ∀ l ∈ s.live, ∃ off c, ChunkAt (h.allocate (requestWords n)).chunks off c ∧
      c.inUse = true ∧ l.1 = payloadAt m off ∧ 0 < l.2 ∧ l.2 ≤ c.size := fun l hl ↦
    hs.owns_of_update hupd.start hl fun off c hat huse _ ↦ ((Heap.chunkAt_allocate huse).mpr hat).1
  by_cases herrno : s.machine.errno = ENOMEM
  · rw [if_neg (not_not.mpr herrno)] at hresult
    rw [if_pos herrno]
    exact ⟨⟨hholds, by rw [if_pos hresult]; exact hs.nodup, by rw [if_pos hresult]; exact hkeep⟩,
      if_pos hresult, hupd⟩
  · rw [if_pos herrno] at hresult
    have hne : result ≠ 0 := by
      rw [hresult, payloadAt, sizeofMemChunk]
      omega
    obtain ⟨c, hat, huse, hwords, hnew⟩ := h.chunkAt_allocate_new (requestWords n)
    rw [if_neg herrno, ← hresult]
    refine ⟨⟨hholds, ?_, ?_⟩, if_neg hne, hupd⟩
    · -- the served chunk was not in use, so its pointer is not live yet
      rw [if_neg hne, List.map_cons, List.nodup_cons]
      refine ⟨?_, hs.nodup⟩
      intro hmem
      obtain ⟨l, hl, hptr⟩ := List.mem_map.mp hmem
      obtain ⟨off, d, hd, hduse, hdptr, -⟩ := hs.owns l hl
      have hoff : off = h.allocateOffset (requestWords n) := by
        refine payloadAt_injective (m := s.machine) ?_
        rw [← hdptr, hptr, hresult]
      exact hnew d hduse (hoff ▸ hd)
    · rw [if_neg hne]
      intro l hl
      rcases List.mem_cons.mp hl with rfl | hl
      · refine ⟨_, c, hat, huse, by rw [hresult, payloadAt_congr hupd.start],
          Nat.pos_of_ne_zero hn, ?_⟩
        rw [requestWords] at hwords
        rw [Chunk.size]
        dsimp only
        omega
      · exact hkeep l hl

theorem exec_malloc_zero : s.exec (.malloc 0) = .ok s := rfl

theorem Inv.freeAt (hs : Inv s h) {pre post : List Chunk} {c : Chunk}
    (hsplit : h.chunks = pre ++ c :: post) (huse : c.inUse = true) {ptr : ℕ}
    (hptr : ptr = payloadAt s.machine (span pre)) :
    ∃ t, s.machine.myFreeHook ptr = .ok t ∧
      Inv ⟨t, s.live.filter fun l ↦ l.1 ≠ ptr⟩ (h.release pre.length) ∧
      Update s.machine h.chunks t (h.release pre.length).chunks := by
  subst hptr
  obtain ⟨t, ht, hupd, hholds⟩ := myFreeHook_refines hs.holds hsplit huse
  refine ⟨t, ht, ⟨hholds, ?_, ?_⟩, hupd⟩
  · exact hs.nodup.sublist (List.filter_sublist.map _)
  · intro l hl
    obtain ⟨hl, hne⟩ := List.mem_filter.mp hl
    refine hs.owns_of_update hupd.start hl ?_
    intro off d hat hduse hptr
    refine (Heap.chunkAt_release hsplit hduse).mpr ⟨hat, ?_⟩
    intro hoff
    rw [hptr, hoff] at hne
    simp at hne

theorem Inv.free (hs : Inv s h) {ptr : ℕ} (hallowed : s.Allowed (.free ptr)) :
    ∃ pre c post t, h.chunks = pre ++ c :: post ∧ c.inUse = true ∧
      ptr = payloadAt s.machine (span pre) ∧ s.machine.myFreeHook ptr = .ok t ∧
      Inv ⟨t, s.live.filter fun l ↦ l.1 ≠ ptr⟩ (h.release pre.length) ∧
      Update s.machine h.chunks t (h.release pre.length).chunks := by
  obtain ⟨n, hn⟩ := hallowed
  obtain ⟨_, c, ⟨pre, post, hsplit, rfl⟩, huse, hptr, -⟩ := hs.owns _ hn
  obtain ⟨t, ht, hinv, hupd⟩ := hs.freeAt hsplit huse hptr
  exact ⟨pre, c, post, t, hsplit, huse, hptr, ht, hinv, hupd⟩

/-- A client's write stays out of all headers. -/
theorem Inv.write (hs : Inv s h) {ptr i : ℕ} {b : UInt8} (hallowed : s.Allowed (.write ptr i b)) :
    s.machine.store (ptr + i) 1 b.toNat
        = .ok (s.machine.withMem (s.machine.mem.store (ptr + i) 1 b.toNat)) ∧
      Inv ⟨s.machine.withMem (s.machine.mem.store (ptr + i) 1 b.toNat), s.live⟩ h := by
  obtain ⟨n, hn, hi⟩ := hallowed
  have hbyte := hs.payloadByte hn (Nat.le_add_right ptr i) (Nat.add_lt_add_left hi ptr)
  have hl := hs.holds.layout
  have hbounds := hbyte.bounds hl
  have htail := hl.memTail
  have hmapped := s.machine.brk_le_mappedEnd
  rw [sizeofMemChunk] at htail
  refine ⟨store_eq_ok (by omega) (by omega), ⟨hl.congr ?_ ?_,
    hs.holds.hub⟩, hs.nodup, hs.owns⟩
  · intro off c hat x hx hx'
    have hheader := hbyte.not_header hat
    exact Mem.store_apply_of_disjoint _ (by omega)
  · intro x hx hx'
    exact Mem.store_apply_of_disjoint _ (by omega)

theorem Inv.setErrno (hs : Inv s h) (e : ℕ) :
    Inv { s with machine := { s.machine with errno := e } } h := by
  have hl := hs.holds.layout
  exact ⟨⟨⟨hl.hlb, hl.memHead, hl.memTail, hl.brk, hl.brk_le, hl.seg, hl.tail⟩, hs.holds.hub⟩,
    hs.nodup, hs.owns⟩

theorem Inv.disjoint (hs : Inv s h) {l l' : ℕ × ℕ} (hl : l ∈ s.live) (hl' : l' ∈ s.live)
    (hne : l.1 ≠ l'.1) : l.1 + l.2 ≤ l'.1 ∨ l'.1 + l'.2 ≤ l.1 := by
  obtain ⟨off, c, hat, -, hptr, -, hsize⟩ := hs.owns l hl
  obtain ⟨off', c', hat', -, hptr', -, hsize'⟩ := hs.owns l' hl'
  have hext : c.extent = sizeofMemChunk + c.size := rfl
  have hext' : c'.extent = sizeofMemChunk + c'.size := rfl
  rw [payloadAt] at hptr hptr'
  rcases hat.eq_or_disjoint hat' with ⟨rfl, -⟩ | hlt | hlt
  · exact absurd (hptr.trans hptr'.symm) hne
  · exact Or.inl (by omega)
  · exact Or.inr (by omega)

/-! ## Steps -/

/-- The payload `l` stays live and keeps its bytes. -/
structure Keeps (s t : System) (l : ℕ × ℕ) : Prop where
  live : l ∈ t.live
  bytes : ∀ i < l.2, t.machine.mem (l.1 + i) = s.machine.mem (l.1 + i)

/-- The event releases the pointer or writes to its payload. -/
def Touches (ptr : ℕ) : Event → Prop
  | .free q => q = ptr
  | .write q _ _ => q = ptr
  | _ => False

theorem Inv.keeps_of_update (hs : Inv s h) {cs : List Chunk}
    (hupd : Update s.machine h.chunks t.machine cs) {l : ℕ × ℕ} (hl : l ∈ s.live)
    (hl' : l ∈ t.live) : Keeps s t l where
  live := hl'
  bytes := fun _ hi ↦
    hupd.frame _ (hs.payloadByte hl (Nat.le_add_right _ _) (Nat.add_lt_add_left hi _))

/-- **Every step keeps the invariant**, and every live payload that the event does not touch. -/
theorem Inv.step (hs : Inv s h) {e : Event} (hstep : Step s e t) :
    ∃ h', Inv t h' ∧ t.machine.start = s.machine.start ∧
      ∀ l ∈ s.live, ¬Touches l.1 e → Keeps s t l := by
  obtain ⟨hallowed, hok⟩ := hstep
  cases e with
  | malloc n =>
    by_cases hn : n = 0
    · subst hn
      rw [exec_malloc_zero, Except.ok.injEq] at hok
      subst hok
      exact ⟨h, hs, rfl, fun l hl _ ↦ ⟨hl, fun _ _ ↦ rfl⟩⟩
    · obtain ⟨ht, hlive, hupd⟩ :=
        hs.malloc hn hallowed.lt_two_pow (fun _ ↦ hallowed.increment_lt) hok
      refine ⟨_, ht, hupd.start, fun l hl _ ↦ hs.keeps_of_update hupd hl ?_⟩
      rw [hlive]
      split
      · exact hl
      · exact List.mem_cons_of_mem _ hl
  | free ptr =>
    obtain ⟨pre, c, post, m, -, -, -, hhook, ht, hupd⟩ := hs.free hallowed
    rw [exec, hhook, Except.ok_bind_eq, Except.pure_eq_ok, Except.ok.injEq] at hok
    subst hok
    refine ⟨_, ht, hupd.start, fun l hl hno ↦ hs.keeps_of_update hupd hl ?_⟩
    exact List.mem_filter.mpr ⟨hl, decide_eq_true fun heq ↦ hno heq.symm⟩
  | write ptr i b =>
    obtain ⟨hstore, ht⟩ := hs.write hallowed
    rw [exec, hstore, Except.ok_bind_eq, Except.pure_eq_ok, Except.ok.injEq] at hok
    subst hok
    obtain ⟨n, hn, hi⟩ := hallowed
    refine ⟨h, ht, rfl, fun l hl hno ↦ ⟨hl, ?_⟩⟩
    intro j hj
    have hne : l.1 ≠ ptr := fun heq ↦ hno heq.symm
    have hdisj := hs.disjoint hl hn hne
    exact Mem.store_apply_of_disjoint _ (by omega)
  | setErrno v =>
    rw [exec, Except.ok.injEq] at hok
    subst hok
    exact ⟨h, hs.setErrno v, rfl, fun l hl _ ↦ ⟨hl, fun _ _ ↦ rfl⟩⟩

theorem Inv.exists_malloc (hs : Inv s h) {n : ℕ} (hallowed : s.Allowed (.malloc n))
    (hgrant : s.machine.brk + (8 * requestWords n + sizeofMemChunk) ≤ s.machine.limit.val) :
    ∃ t, Step s (.malloc n) t := by
  by_cases hn : n = 0
  · subst hn
    exact ⟨s, hallowed, exec_malloc_zero⟩
  · obtain ⟨m, hhook, -⟩ := myMallocHook_refines hs.holds hn (wrap_div_eq hallowed.lt_two_pow)
      fun _ ↦ hgrant
    exact ⟨_, hallowed, by rw [exec, hhook]; rfl⟩

theorem Inv.exists_free (hs : Inv s h) {ptr : ℕ} (hallowed : s.Allowed (.free ptr)) :
    ∃ t, Step s (.free ptr) t := by
  obtain ⟨-, -, -, m, -, -, -, hhook, -⟩ := hs.free hallowed
  exact ⟨_, hallowed, by rw [exec, hhook]; rfl⟩

/-! ## Chunks without a live pointer -/

/-- Every chunk in use has a live pointer, and `errno` lets the next one have one too. -/
structure Owned (s : System) (h : Heap) : Prop where
  errno : s.machine.errno ≠ ENOMEM
  owned : ∀ off c, ChunkAt h.chunks off c → c.inUse = true →
    ∃ n, (payloadAt s.machine off, n) ∈ s.live

/-- As long as nothing sets `errno` to `ENOMEM`, no chunk is lost. -/
theorem Owned.step (hs : Inv s h) (ho : Owned s h) {e : Event} (he : e ≠ .setErrno ENOMEM)
    (hstep : Step s e t) : ∃ h', Inv t h' ∧ Owned t h' := by
  obtain ⟨hallowed, hok⟩ := hstep
  cases e with
  | malloc n =>
    by_cases hn : n = 0
    · subst hn
      rw [exec_malloc_zero, Except.ok.injEq] at hok
      subst hok
      exact ⟨h, hs, ho⟩
    · obtain ⟨ht, hlive, hupd⟩ :=
        hs.malloc hn hallowed.lt_two_pow (fun _ ↦ hallowed.increment_lt) hok
      rw [if_neg ho.errno] at hlive
      refine ⟨_, ht, by rw [hupd.errno]; exact ho.errno, fun off c hat huse ↦ ?_⟩
      rw [payloadAt_congr hupd.start, hlive]
      by_cases hoff : off = h.allocateOffset (requestWords n)
      · exact ⟨n, by rw [hoff]; exact List.mem_cons_self⟩
      · obtain ⟨k, hk⟩ := ho.owned off c ((Heap.chunkAt_allocate huse).mp ⟨hat, hoff⟩) huse
        exact ⟨k, List.mem_cons_of_mem _ hk⟩
  | free ptr =>
    obtain ⟨pre, c, post, m, hsplit, -, hptr, hhook, ht, hupd⟩ := hs.free hallowed
    rw [exec, hhook, Except.ok_bind_eq, Except.pure_eq_ok, Except.ok.injEq] at hok
    subst hok
    refine ⟨_, ht, by rw [hupd.errno]; exact ho.errno, fun off d hat huse ↦ ?_⟩
    obtain ⟨hat', hoff⟩ := (Heap.chunkAt_release hsplit huse).mp hat
    obtain ⟨k, hk⟩ := ho.owned off d hat' huse
    rw [payloadAt_congr hupd.start]
    refine ⟨k, List.mem_filter.mpr ⟨hk, decide_eq_true fun heq ↦ hoff ?_⟩⟩
    exact payloadAt_injective (heq.trans hptr)
  | write ptr i b =>
    obtain ⟨hstore, ht⟩ := hs.write hallowed
    rw [exec, hstore, Except.ok_bind_eq, Except.pure_eq_ok, Except.ok.injEq] at hok
    subst hok
    exact ⟨h, ht, ho.errno, ho.owned⟩
  | setErrno v =>
    rw [exec, Except.ok.injEq] at hok
    subst hok
    exact ⟨h, hs.setErrno v, fun heq ↦ he (by rw [← heq]), ho.owned⟩

end Events

end System

end Malloc

end AllProjects
