import AllProjects.Malloc.System

/-!
# Every run of the allocator

The safety of the allocator, over all runs: the chunks tile the heap and both link directions
agree, live payloads neither overlap nor change under foreign events, and the break is as low as
the chunks in use permit. The statements read the machine's memory through the walks of a reader,
not through the abstract heap that the invariant carries.
-/

namespace AllProjects

namespace Malloc

open Machine

namespace System

/-! ## The invariant along a run -/

/-- The invariant, with the origin of the heap and the payloads kept since a state `s`. -/
theorem exists_inv_of_run {s t : System} {es : List Event} (hrun : Run Step s es t)
    (hs : ∃ h, Inv s h) : ∃ h, Inv t h :=
  hrun.invariant (I := fun s ↦ ∃ h, Inv s h)
    (fun _ _ _ ⟨_, hu⟩ hstep ↦ let ⟨h', ht, _⟩ := hu.step hstep; ⟨h', ht⟩) hs

theorem Reachable.exists_inv {s : System} (h : s.Reachable) : ∃ g, Inv s g := by
  obtain ⟨mem, paging, brk, limit, errno, m, es, hinit, hrun⟩ := h
  exact exists_inv_of_run hrun ⟨Heap.empty, inv_init hinit⟩

/-- A payload that no event touches is kept by the whole run. -/
theorem keeps_of_run {s t : System} {es : List Event} (hrun : Run Step s es t)
    (hs : ∃ h, Inv s h) {l : ℕ × ℕ} (hl : l ∈ s.live) (hno : ∀ e ∈ es, ¬Touches l.1 e) :
    Keeps s t l := by
  have hmain : (∃ h, Inv t h) ∧ Keeps s t l :=
    hrun.preserves (I := fun t ↦ (∃ h, Inv t h) ∧ Keeps s t l) (P := fun e ↦ ¬Touches l.1 e)
      (fun u e v ⟨⟨h, hu⟩, hkeep⟩ hno hstep ↦ by
        obtain ⟨h', hv, -, hkeep'⟩ := hu.step hstep
        have hl' := hkeep' l hkeep.live hno
        exact ⟨⟨h', hv⟩, hl'.live, fun i hi ↦ (hl'.bytes i hi).trans (hkeep.bytes i hi)⟩)
      hno ⟨hs, hl, fun _ _ ↦ rfl⟩
  exact hmain.2

/-- In a run that never sees `ENOMEM`, every chunk in use has a live pointer. -/
theorem exists_owned_of_run {mem : Mem} {paging : Paging} {brk errno : ℕ} {limit : Fin (2 ^ 63)}
    {m : Machine} (hinit : (boot mem paging brk limit errno).init = .ok m)
    (herrno : errno ≠ ENOMEM) {es : List Event} {t : System} (hrun : Run Step ⟨m, []⟩ es t)
    (hno : ∀ e ∈ es, e ≠ .setErrno ENOMEM) :
    ∃ h, Inv t h ∧ Owned t h := by
  refine hrun.preserves (I := fun s ↦ ∃ h, Inv s h ∧ Owned s h) (P := fun e ↦ e ≠ .setErrno ENOMEM)
    (fun s e t ⟨h, hs, ho⟩ he hstep ↦ ho.step hs he hstep) hno
    ⟨Heap.empty, inv_init hinit, ?_, fun off c hc ↦ absurd hc.mem List.not_mem_nil⟩
  have hroom : brk + 64 ≤ limit.val := by
    by_contra hno
    rw [init_refused hno] at hinit
    cases hinit
  rw [init_eq hroom, Except.ok.injEq] at hinit
  subst hinit
  exact herrno

theorem exists_run_two :
    ∃ m t, (boot (fun _ ↦ 0) .small 4096 1048576 0).init = .ok m ∧
      Run Step ⟨m, []⟩ [.malloc 10, .malloc 20] t ∧ t.live = [(4240, 20), (4192, 10)] := by
  have heval : (([.malloc 10, .malloc 20] : List Event).foldlM step?
      ⟨initialized (fun _ ↦ 0) .small 4096 1048576 0, []⟩).map System.live
        = some [(4240, 20), (4192, 10)] := by
    decide +kernel
  obtain ⟨t, hrun, hlive⟩ := exists_run_of_map heval
  exact ⟨_, t, init_eq (by decide), hrun.imp fun _ _ _ hstep ↦ step_of_step? hstep, hlive⟩

theorem exists_reachable_free :
    ∃ t : System, t.Reachable ∧ t.live = [(4240, 20)] ∧ t.machine.errno = 0 ∧
      t.machine.brk = 4264 ∧ t.machine.limit.val = 1048576 := by
  have heval : (([.malloc 10, .malloc 20, .free 4192] : List Event).foldlM step?
      ⟨initialized (fun _ ↦ 0) .small 4096 1048576 0, []⟩).map
        (fun t ↦ (t.live, t.machine.errno, t.machine.brk, t.machine.limit.val))
          = some ([(4240, 20)], 0, 4264, 1048576) := by
    decide +kernel
  obtain ⟨t, hrun, hstate⟩ := exists_run_of_map heval
  have hsteps := hrun.imp fun _ _ _ hstep ↦ step_of_step? hstep
  simp only [Prod.mk.injEq] at hstate
  exact ⟨t, ⟨_, _, _, _, _, _, _, init_eq (by decide), hsteps⟩, hstate⟩

/-! ## Tiling -/

/-- **Heap tiling.** In every reachable state both walks complete, they visit the same chunks in
opposite orders, and these chunks tile `[hlb + 2H, hub)`. From there every allocation that the
kernel grants completes, and so does every release of a live pointer. -/
theorem heap_tiling {s : System} (h : s.Reachable) :
    (∃ chunks, s.machine.chunksForward = .ok chunks ∧
      s.machine.chunksBackward = .ok chunks.reverse ∧
      Tiles s.machine (s.machine.hlb + 2 * sizeofMemChunk) chunks s.machine.hub) ∧
    (∀ n, s.Allowed (.malloc n) →
      s.machine.brk + (8 * requestWords n + sizeofMemChunk) ≤ s.machine.limit.val →
      ∃ t, Step s (.malloc n) t) ∧
    (∀ ptr, s.Allowed (.free ptr) → ∃ t, Step s (.free ptr) t) := by
  obtain ⟨g, hg⟩ := h.exists_inv
  have hl := hg.holds.layout
  refine ⟨⟨_, hl.chunksForward_eq, hl.chunksBackward_eq, ?_⟩, fun n ↦ hg.exists_malloc,
    fun ptr ↦ hg.exists_free⟩
  rw [hl.hlb, hg.holds.hub]
  exact hl.tiles_of_split List.singleton_append.symm

theorem heap_tiling_two :
    ∃ s : System, s.live = [(4240, 20), (4192, 10)] ∧ s.Reachable ∧
      ∃ chunks, s.machine.chunksForward = .ok chunks ∧
        s.machine.chunksBackward = .ok chunks.reverse ∧
        Tiles s.machine (s.machine.hlb + 2 * sizeofMemChunk) chunks s.machine.hub := by
  obtain ⟨m, s, hinit, hrun, hlive⟩ := exists_run_two
  have hs : s.Reachable := ⟨_, _, _, _, _, m, _, hinit, hrun⟩
  exact ⟨s, hlive, hs, (heap_tiling hs).1⟩

/-! ## Payloads -/

theorem Inv.payload_bounds {s : System} {h : Heap} (hs : Inv s h) {l : ℕ × ℕ} (hl : l ∈ s.live) :
    s.machine.hlb + 2 * sizeofMemChunk ≤ l.1 ∧ l.1 + l.2 ≤ s.machine.hub := by
  obtain ⟨off, c, hat, -, hptr, -, hsize⟩ := hs.owns l hl
  have hle := hat.le_span
  have hext : c.extent = sizeofMemChunk + c.size := rfl
  have hbrk := hs.holds.layout.brk
  rw [span_sentinel_cons] at hbrk
  rw [hs.holds.layout.hlb, hs.holds.hub, hptr, payloadAt]
  omega

theorem Inv.payload_off_headers {s : System} {h : Heap} (hs : Inv s h) {l : ℕ × ℕ}
    (hl : l ∈ s.live) {a : ℕ}
    (ha : a ∈ s.machine.memHead :: s.machine.memTail ::
      addresses (s.machine.start + span [sentinel]) h.chunks) :
    a + sizeofMemChunk ≤ l.1 ∨ l.1 + l.2 ≤ a := by
  have hlay := hs.holds.layout
  obtain ⟨off, c, hat, -, hptr, -, hsize⟩ := hs.owns l hl
  have hext : c.extent = sizeofMemChunk + c.size := rfl
  rw [payloadAt] at hptr
  rcases List.mem_cons.mp ha with rfl | ha
  · rw [hlay.memHead]
    exact Or.inl (by omega)
  rcases List.mem_cons.mp ha with rfl | ha
  · rw [hlay.memTail]
    exact Or.inl (by omega)
  · obtain ⟨off', d, hd, rfl⟩ := mem_addresses ha
    have hext' : d.extent = sizeofMemChunk + d.size := rfl
    have hspan : span [sentinel] = 2 * sizeofMemChunk := rfl
    rcases hat.eq_or_disjoint hd with ⟨rfl, -⟩ | hlt | hlt
    · exact Or.inl (by omega)
    · exact Or.inr (by omega)
    · exact Or.inl (by omega)

/-- **No overlap and no clobbering.** Live payloads are pairwise disjoint, lie in
`[hlb + 2H, hub)` and contain no header; and a run that does not release a payload or write to it
leaves it live with every byte unchanged. -/
theorem no_overlap_no_clobbering {s : System} (h : s.Reachable) :
    s.live.Pairwise (fun l l' ↦ l.1 + l.2 ≤ l'.1 ∨ l'.1 + l'.2 ≤ l.1) ∧
    (∀ l ∈ s.live, s.machine.hlb + 2 * sizeofMemChunk ≤ l.1 ∧ l.1 + l.2 ≤ s.machine.hub) ∧
    (∃ chunks, s.machine.chunksForward = .ok chunks ∧
      ∀ l ∈ s.live, ∀ a ∈ s.machine.memHead :: s.machine.memTail :: chunks,
        a + sizeofMemChunk ≤ l.1 ∨ l.1 + l.2 ≤ a) ∧
    (∀ es t, Run Step s es t → ∀ l ∈ s.live, (∀ e ∈ es, ¬Touches l.1 e) →
      l ∈ t.live ∧ ∀ i < l.2, t.machine.mem (l.1 + i) = s.machine.mem (l.1 + i)) := by
  obtain ⟨g, hg⟩ := h.exists_inv
  refine ⟨?_, fun l hl ↦ hg.payload_bounds hl,
    ⟨_, hg.holds.layout.chunksForward_eq, fun l hl a ha ↦ hg.payload_off_headers hl ha⟩,
    ?_⟩
  · have hpair := List.pairwise_map.mp hg.nodup
    exact hpair.imp_of_mem fun hl hl' hne ↦ hg.disjoint hl hl' hne
  · intro es t hrun l hl hno
    have hkeep := keeps_of_run hrun ⟨g, hg⟩ hl hno
    exact ⟨hkeep.live, hkeep.bytes⟩

theorem no_overlap_no_clobbering_two :
    ∃ s : System, s.live = [(4240, 20), (4192, 10)] ∧ s.Reachable ∧
      (∀ l ∈ s.live, s.machine.hlb + 2 * sizeofMemChunk ≤ l.1 ∧ l.1 + l.2 ≤ s.machine.hub) ∧
      (∀ es t, Run Step s es t → ∀ l ∈ s.live, (∀ e ∈ es, ¬Touches l.1 e) →
        l ∈ t.live ∧ ∀ i < l.2, t.machine.mem (l.1 + i) = s.machine.mem (l.1 + i)) := by
  obtain ⟨m, s, hinit, hrun, hlive⟩ := exists_run_two
  have hs : s.Reachable := ⟨_, _, _, _, _, m, _, hinit, hrun⟩
  obtain ⟨-, hbounds, -, hkeep⟩ := no_overlap_no_clobbering hs
  exact ⟨s, hlive, hs, hbounds, hkeep⟩

/-! ## The break -/

/-- `hub` is the end of the chunk in front of `mem_tail`, which is in use, or the list is empty. -/
def HubAtLastChunk (m : Machine) : Prop :=
  ∃ last, m.mpPrev m.memTail = .ok last ∧
    ((last = m.memHead ∧ m.hub = m.hlb + 2 * sizeofMemChunk) ∨
      ∃ size, m.stat last = .ok 1 ∧ m.size last = .ok size ∧
        m.hub = last + sizeofMemChunk + size)

/-- `hub` is the end of the highest chunk in use, or none is in use. -/
def HubAtHighestInUse (m : Machine) : Prop :=
  ∃ chunks, m.chunksForward = .ok chunks ∧
    (((∀ a ∈ chunks, m.stat a ≠ .ok 1) ∧ m.hub = m.hlb + 2 * sizeofMemChunk) ∨
      ∃ a ∈ chunks, m.stat a = .ok 1 ∧ (∀ b ∈ chunks, m.stat b = .ok 1 → b ≤ a) ∧
        ∃ size, m.size a = .ok size ∧ m.hub = a + sizeofMemChunk + size)

/-- `hub` is the end of the highest live chunk, or nothing is live. -/
def HubAtHighestLive (s : System) : Prop :=
  (s.live = [] ∧ s.machine.hub = s.machine.hlb + 2 * sizeofMemChunk) ∨
    ∃ l ∈ s.live, (∀ l' ∈ s.live, l'.1 ≤ l.1) ∧
      ∃ size, s.machine.size (l.1 - sizeofMemChunk) = .ok size ∧ s.machine.hub = l.1 + size

theorem Inv.hubAtLastChunk {s : System} {h : Heap} (hs : Inv s h) : HubAtLastChunk s.machine := by
  have hl := hs.holds.layout
  refine ⟨_, hl.tailAt.mpPrev, ?_⟩
  rcases List.eq_nil_or_concat h.chunks with hnil | ⟨cs, c, hcs⟩
  · rw [hnil] at hl ⊢
    refine Or.inl ⟨hl.memHead.symm, ?_⟩
    rw [hs.holds.hub, hl.brk, hl.hlb, span_sentinel_cons, span_nil, add_zero]
  · rw [List.concat_eq_append] at hcs
    have huse : c.inUse = true := h.last_inUse c (by rw [hcs, List.getLast?_concat]; rfl)
    rw [hcs] at hl ⊢
    have hat := hl.headerAt List.cons_append.symm
    rw [← List.cons_append, lastAddr_concat]
    refine Or.inr ⟨c.size, by rw [hat.stat, Chunk.stat_of_inUse huse], hat.size, ?_⟩
    have hbrk := hl.brk
    have hext : c.extent = sizeofMemChunk + c.size := rfl
    rw [← List.cons_append, span_append, span_cons c, span_nil] at hbrk
    rw [hs.holds.hub]
    omega

theorem Inv.hubAtHighestInUse {s : System} {h : Heap} (hs : Inv s h) :
    HubAtHighestInUse s.machine := by
  have hl := hs.holds.layout
  refine ⟨_, hl.chunksForward_eq, ?_⟩
  rcases List.eq_nil_or_concat h.chunks with hnil | ⟨cs, c, hcs⟩
  · rw [hnil] at hl ⊢
    refine Or.inl ⟨fun a ha ↦ absurd ha List.not_mem_nil, ?_⟩
    rw [hs.holds.hub, hl.brk, hl.hlb, span_sentinel_cons, span_nil, add_zero]
  · rw [List.concat_eq_append] at hcs
    have huse : c.inUse = true := h.last_inUse c (by rw [hcs, List.getLast?_concat]; rfl)
    have hlast : ChunkAt h.chunks (span cs) c := ⟨cs, [], hcs, rfl⟩
    have hlisted := hlast.mem_addresses (s.machine.start + span [sentinel])
    rw [hcs] at hl hlisted ⊢
    have hat := hl.headerAt List.cons_append.symm
    rw [span_cons, ← add_assoc] at hat
    refine Or.inr ⟨_, hlisted, by rw [← Chunk.stat_of_inUse huse]; exact hat.stat, ?_, c.size,
      hat.size, ?_⟩
    · intro b hb _
      obtain ⟨off, d, hd, rfl⟩ := mem_addresses hb
      exact Nat.add_le_add_left hd.le_span_of_concat _
    · have hbrk := hl.brk
      have hext : c.extent = sizeofMemChunk + c.size := rfl
      rw [span_sentinel_cons, span_append, span_cons c, span_nil] at hbrk
      have hspan : span [sentinel] = 2 * sizeofMemChunk := rfl
      rw [hs.holds.hub]
      omega

theorem Owned.hubAtHighestLive {s : System} {h : Heap} (hs : Inv s h) (ho : Owned s h) :
    HubAtHighestLive s := by
  have hl := hs.holds.layout
  rcases List.eq_nil_or_concat h.chunks with hnil | ⟨cs, c, hcs⟩
  · refine Or.inl ⟨List.eq_nil_iff_forall_not_mem.mpr ?_, ?_⟩
    · intro l hlive
      obtain ⟨off, c, hat, -⟩ := hs.owns l hlive
      rw [hnil] at hat
      exact absurd hat.mem List.not_mem_nil
    · rw [hs.holds.hub, hl.brk, hl.hlb, hnil, span_sentinel_cons, span_nil, add_zero]
  · rw [List.concat_eq_append] at hcs
    have huse : c.inUse = true := h.last_inUse c (by rw [hcs, List.getLast?_concat]; rfl)
    have hat : ChunkAt h.chunks (span cs) c := ⟨cs, [], hcs, rfl⟩
    obtain ⟨n, hn⟩ := ho.owned _ c hat huse
    refine Or.inr ⟨_, hn, ?_, c.size, ?_, ?_⟩
    · intro l hlive
      -- every live chunk ends at or below the end of the last one
      obtain ⟨off, d, hd, -, hptr, -⟩ := hs.owns l hlive
      rw [hcs] at hd
      have hoff := hd.le_span_of_concat
      rw [hptr, payloadAt, payloadAt]
      omega
    · exact hl.size_payloadAt hat
    · have hbrk := hl.brk
      have hext : c.extent = sizeofMemChunk + c.size := rfl
      rw [hcs, span_sentinel_cons, span_append, span_cons, span_nil] at hbrk
      dsimp only
      rw [hs.holds.hub, payloadAt]
      omega

/-- **The break is as low as possible.** After every step of every run the chunk in front of
`mem_tail` is `mem_head` or in use, `hub` is its end, and no chunk in use stands higher. When
nothing but `sbrk` could have set `errno` to `ENOMEM`, this is the end of the highest live chunk. -/
theorem break_as_low_as_possible {mem : Mem} {paging : Paging} {brk errno : ℕ}
    {limit : Fin (2 ^ 63)} {m : Machine} (hinit : (boot mem paging brk limit errno).init = .ok m)
    {es : List Event} {t : System} (hrun : Run Step ⟨m, []⟩ es t) :
    HubAtLastChunk t.machine ∧ HubAtHighestInUse t.machine ∧
      (errno ≠ ENOMEM → (∀ e ∈ es, e ≠ .setErrno ENOMEM) → HubAtHighestLive t) := by
  obtain ⟨g, hg⟩ := exists_inv_of_run hrun ⟨Heap.empty, inv_init hinit⟩
  refine ⟨hg.hubAtLastChunk, hg.hubAtHighestInUse, ?_⟩
  intro herrno hno
  obtain ⟨h, hh, ho⟩ := exists_owned_of_run hinit herrno hrun hno
  exact ho.hubAtHighestLive hh

theorem break_as_low_as_possible_two :
    ∃ t : System, t.live = [(4240, 20), (4192, 10)] ∧ HubAtLastChunk t.machine ∧
      HubAtHighestInUse t.machine ∧ HubAtHighestLive t := by
  obtain ⟨m, t, hinit, hrun, hlive⟩ := exists_run_two
  obtain ⟨hlast, hinUse, hhighest⟩ := break_as_low_as_possible hinit hrun
  exact ⟨t, hlive, hlast, hinUse, hhighest (by decide) (by decide)⟩

end System

end Malloc

end AllProjects
