import AllProjects.Malloc.FreeRanges

/-!
# Releasing a pointer again

`my_free_hook` looks at `stat` in front of its pointer, and returns when it is 0. So releasing a
pointer once more does nothing, as long as there still is a header in front of it. There need not
be one. The release of the last chunk gives its header back with the break. A free chunk that a
larger request absorbed is part of that chunk's payload, and what stands in place of its header
is up to the client. And `NULL`, which a request of no bytes returns, never had a header.

Here a client may release every value that `my_malloc_hook` has returned to it. A release that
completes cleanly then keeps the invariant of the system, whether the chunk was in use or not. So
the state before the call decides over each call in turn, however often pointers were released
before.
-/

namespace AllProjects

namespace Malloc

open Machine

/-! ## One release -/

/-- Releasing `p` completes, reads no header but those of the list `cs`, and releases a chunk in use
or leaves the list, its flags and the break unchanged. -/
def FreesCleanly (s : Machine) (cs : List Chunk) (p : ℕ) : Prop :=
  ∃ chunks t, s.chunksForward = .ok chunks ∧ s.myFreeHook p = .ok t ∧
    s.myFreeHookIn chunks p = .ok t ∧
    ((∃ pre c post, cs = pre ++ c :: post ∧ c.inUse = true ∧ p = payloadAt s (span pre) ∧
        t.start = s.start ∧ Layout t (trimFree (pre ++ c.release :: post))) ∨
      (t.headers = s.headers ∧ t.brk = s.brk))

/-- `p` is not `NULL`, what is in front of it lies below the break, and no chunk of the list has it
inside. -/
structure HasHeader (s : Machine) (cs : List Chunk) (p : ℕ) : Prop where
  ne_null : p ≠ 0
  below : p < s.brk + sizeofMemChunk
  not_absorbed : ¬∃ off c, ChunkAt cs off c ∧ payloadAt s off < p ∧ p < payloadAt s off + c.extent

theorem exists_chunkAt {cs : List Chunk} {y : ℕ} (hy : y < span cs) :
    ∃ off c, ChunkAt cs off c ∧ off ≤ y ∧ y < off + c.extent := by
  induction cs generalizing y with
  | nil => exact absurd hy (Nat.not_lt_zero y)
  | cons c cs ih =>
    rw [span_cons] at hy
    by_cases hlt : y < c.extent
    · exact ⟨0, c, chunkAt_cons.mpr (Or.inl ⟨rfl, rfl⟩), Nat.zero_le y, by omega⟩
    · obtain ⟨off, d, hd, hlo, hhi⟩ := ih (y := y - c.extent) (by omega)
      exact ⟨_, d, chunkAt_cons.mpr (Or.inr ⟨off, rfl, hd⟩), by omega, by omega⟩

namespace Layout

variable {s : Machine} {cs : List Chunk} {p : ℕ}

theorem hasHeader (h : Layout s cs) {off : ℕ} {c : Chunk} (hat : ChunkAt cs off c) :
    HasHeader s cs (payloadAt s off) where
  ne_null := payloadAt_ne_zero s off
  below := by
    have hle := hat.le_span
    have hpos := extent_pos c
    have hbrk := h.brk
    rw [span_sentinel_cons] at hbrk
    rw [payloadAt]
    omega
  not_absorbed := by
    rintro ⟨off', d, hd, hlo, hhi⟩
    rw [payloadAt, payloadAt] at hlo hhi
    have hpos := extent_pos c
    rcases hat.eq_or_disjoint hd with ⟨rfl, -⟩ | hlt | hlt
    · omega
    · omega
    · omega

/-- Where a payload once was, its header is still there or the chunk is not part of the list. -/
theorem hasHeader_iff (h : Layout s cs) {off : ℕ} :
    HasHeader s cs (payloadAt s off) ↔ ∃ c, ChunkAt cs off c := by
  refine ⟨fun hp ↦ ?_, fun ⟨_, hat⟩ ↦ h.hasHeader hat⟩
  have hbelow := hp.below
  have hbrk := h.brk
  rw [span_sentinel_cons] at hbrk
  rw [payloadAt] at hbelow
  have hoff : off < span cs := by omega
  obtain ⟨off', c, hat, hlo, hhi⟩ := exists_chunkAt hoff
  by_cases heq : off' = off
  · exact ⟨c, heq ▸ hat⟩
  · refine absurd ⟨off', c, hat, ?_, ?_⟩ hp.not_absorbed
    · rw [payloadAt, payloadAt]
      omega
    · rw [payloadAt, payloadAt]
      omega

theorem wrapSub_payloadAt {off : ℕ} (hlt : payloadAt s off < 2 ^ 64) :
    wrapSub (payloadAt s off) sizeofMemChunk = s.start + span [sentinel] + off := by
  have hspan : span [sentinel] = 2 * sizeofMemChunk := rfl
  rw [wrapSub_of_le (by rw [payloadAt]; omega) hlt, payloadAt, hspan]
  omega

theorem myFreeHookIn_free (h : Layout s cs) {chunks : List ℕ}
    (hchunks : s.chunksForward = .ok chunks) {off : ℕ} {c : Chunk} (hat : ChunkAt cs off c)
    (hc : c.inUse = false) (hlt : payloadAt s off < 2 ^ 64) :
    s.myFreeHookIn chunks (payloadAt s off) = .ok s := by
  rw [h.chunksForward_eq, Except.ok.injEq] at hchunks
  subst hchunks
  have hlisted := hat.mem_addresses (s.start + span [sentinel])
  obtain ⟨before, after, rfl, rfl⟩ := hat
  have hstat := (h.headerAt List.cons_append.symm).stat
  rw [span_sentinel_cons, ← add_assoc] at hstat
  have hread : s.stat (s.start + span [sentinel] + span before) = .ok c.stat := hstat
  rw [myFreeHookIn, wrapSub_payloadAt hlt, readIn_of_mem hlisted, hread, Except.ok_bind_eq,
    if_pos (Chunk.stat_of_free hc)]
  rfl

theorem exists_chunkAt_of_freesCleanly (h : Layout s cs) (hclean : FreesCleanly s cs p)
    (hp : p = 0 ∨ ∃ off, p = payloadAt s off ∧ p < 2 ^ 64) :
    ∃ off c, ChunkAt cs off c ∧ p = payloadAt s off := by
  obtain ⟨chunks, t, hchunks, -, hfree, -⟩ := hclean
  rw [h.chunksForward_eq, Except.ok.injEq] at hchunks
  subst hchunks
  rw [myFreeHookIn] at hfree
  obtain ⟨stat, hstat, -⟩ := Except.bind_eq_ok_iff.mp hfree
  obtain ⟨off, c, hat, haddr⟩ := mem_addresses (readIn_eq_ok_iff.mp hstat).1
  refine ⟨off, c, hat, ?_⟩
  rcases hp with rfl | ⟨off', rfl, hlt⟩
  · -- nothing in front of `NULL`
    have hsub : wrapSub 0 sizeofMemChunk = 2 ^ 64 - 32 := by decide
    have hle := hat.le_span
    have hbrk := h.brk
    have hbrk_lt := h.brk_lt
    have hspan : span [sentinel] = 2 * sizeofMemChunk := rfl
    rw [span_sentinel_cons] at hbrk
    omega
  · rw [wrapSub_payloadAt hlt] at haddr
    have hoff : off' = off := by omega
    rw [hoff]

end Layout

/-- **What the header in front of a pointer decides.** -/
theorem Holds.clean_iff_hasHeader {s : Machine} {h : Heap} (hs : Holds s h) {p : ℕ}
    (hp : p = 0 ∨ ∃ off, p = payloadAt s off ∧ p < 2 ^ 64) :
    FreesCleanly s h.chunks p ↔ HasHeader s h.chunks p := by
  have hl := hs.layout
  constructor
  · intro hclean
    obtain ⟨off, c, hat, rfl⟩ := hl.exists_chunkAt_of_freesCleanly hclean hp
    exact hl.hasHeader hat
  · intro hheader
    obtain rfl | ⟨off, rfl, hlt⟩ := hp
    · exact absurd rfl hheader.ne_null
    obtain ⟨c, hat⟩ := hl.hasHeader_iff.mp hheader
    by_cases hc : c.inUse = true
    · have hin : HeadersIn (addresses (s.start + span [sentinel]) h.chunks)
          (s.start + span [sentinel]) h.chunks := fun _ _ hd ↦ hd.mem_addresses _
      obtain ⟨pre, post, hsplit, rfl⟩ := hat
      obtain ⟨t, hfree, hupd, -⟩ := myFreeHookIn_refines hs hin hsplit hc
      have hlayout := hupd.layout
      rw [Heap.chunks_release hsplit] at hlayout
      exact ⟨_, t, hl.chunksForward_eq, myFreeHook_of_myFreeHookIn hfree, hfree,
        Or.inl ⟨pre, c, post, hsplit, hc, rfl, hupd.start, hlayout⟩⟩
    · have hfree := hl.myFreeHookIn_free hl.chunksForward_eq hat (by simpa using hc) hlt
      exact ⟨_, s, hl.chunksForward_eq, myFreeHook_of_myFreeHookIn hfree, hfree,
        Or.inr ⟨rfl, rfl⟩⟩

/-! ## Clients that release a pointer again -/

/-- A system with all values that `my_malloc_hook` has returned so far, `NULL` included. -/
structure Client where
  system : System
  returned : List ℕ

namespace Client

/-- Any returned value may be released. -/
def Allowed (c : Client) : Event → Prop
  | .free ptr => ptr ∈ c.returned
  | e => c.system.Allowed e

/-- What an event returns to the client. -/
def results (s : Machine) : Event → Except Fault (List ℕ)
  | .malloc n => do
    let (result, _) ← s.myMallocHook n
    return [result]
  | _ => .ok []

/-- The effect of an event. -/
def exec (c : Client) (e : Event) : Except Fault Client := do
  return ⟨← c.system.exec e, (← results c.system.machine e) ++ c.returned⟩

/-- One step: an allowed event that completes. -/
def Step (c : Client) (e : Event) (d : Client) : Prop := c.Allowed e ∧ c.exec e = .ok d

/-- What is released still has a header of the list in front of it. -/
def Sound (c : Client) (e : Event) : Prop :=
  ∀ ptr cs, e = .free ptr → Layout c.system.machine cs → HasHeader c.system.machine cs ptr

/-- The system satisfies its invariant, live pointers were returned, and every returned value is
`NULL` or was once a payload. -/
structure Inv (c : Client) (h : Heap) : Prop where
  system : System.Inv c.system h
  live : ∀ l ∈ c.system.live, l.1 ∈ c.returned
  returned : ∀ p ∈ c.returned, p = 0 ∨ ∃ off, p = payloadAt c.system.machine off ∧ p < 2 ^ 64

theorem inv_init {mem : Mem} {paging : Paging} {brk errno : ℕ} {limit : Fin (2 ^ 63)} {m : Machine}
    (hinit : (boot mem paging brk limit errno).init = .ok m) : Inv ⟨⟨m, []⟩, []⟩ Heap.empty where
  system := System.inv_init hinit
  live := fun _ hl ↦ absurd hl List.not_mem_nil
  returned := fun _ hp ↦ absurd hp List.not_mem_nil

section Steps

variable {c d : Client} {h : Heap} {e : Event}

theorem exec_eq_ok_iff :
    c.exec e = .ok d ↔ ∃ rs, c.system.exec e = .ok d.system ∧
      results c.system.machine e = .ok rs ∧ d.returned = rs ++ c.returned := by
  rw [exec]
  constructor
  · intro hexec
    obtain ⟨s, hs, hexec⟩ := Except.bind_eq_ok_iff.mp hexec
    obtain ⟨rs, hrs, hexec⟩ := Except.bind_eq_ok_iff.mp hexec
    rw [Except.pure_eq_ok, Except.ok.injEq] at hexec
    subst hexec
    exact ⟨rs, hs, hrs, rfl⟩
  · rintro ⟨rs, hs, hrs, hd⟩
    rw [hs, Except.ok_bind_eq, hrs, Except.ok_bind_eq, ← hd]
    rfl

theorem Inv.of_returned (hc : Inv c h) {h' : Heap} (hd : System.Inv d.system h')
    (hstart : d.system.machine.start = c.system.machine.start)
    (hlive : ∀ l ∈ d.system.live, l.1 ∈ d.returned)
    (hreturned : ∀ p ∈ d.returned, p ∈ c.returned ∨ p = 0 ∨ ∃ n, (p, n) ∈ d.system.live) :
    Inv d h' := by
  refine ⟨hd, hlive, fun p hp ↦ ?_⟩
  rcases hreturned p hp with hp | hp | ⟨n, hn⟩
  · rcases hc.returned p hp with hnull | ⟨off, hoff, hlt⟩
    · exact Or.inl hnull
    · exact Or.inr ⟨off, by rw [hoff, System.payloadAt_congr hstart], hlt⟩
  · exact Or.inl hp
  · obtain ⟨off, e, hat, -, hoff, -⟩ := hd.owns _ hn
    have hbounds := (hd.payload_bounds hn).2
    have hlt := hd.holds.layout.brk_lt
    rw [hd.holds.hub] at hbounds
    dsimp only at hoff hbounds
    exact Or.inr ⟨off, hoff, by omega⟩

/-- Releasing what has a header keeps the invariant of the system, in use or not. -/
theorem Inv.free (hc : Inv c h) {ptr : ℕ} (hptr : ptr ∈ c.returned)
    (hheader : HasHeader c.system.machine h.chunks ptr) {t : System}
    (hexec : c.system.exec (.free ptr) = .ok t) :
    ∃ h', System.Inv t h' ∧ t.machine.start = c.system.machine.start ∧
      t.live = c.system.live.filter fun l ↦ l.1 ≠ ptr := by
  have hl := hc.system.holds.layout
  obtain rfl | ⟨off, hoff, hlt⟩ := hc.returned ptr hptr
  · exact absurd rfl hheader.ne_null
  rw [hoff] at hheader hlt
  obtain ⟨e, hat⟩ := hl.hasHeader_iff.mp hheader
  obtain ⟨m, hhook, ht⟩ := Except.bind_eq_ok_iff.mp hexec
  rw [Except.pure_eq_ok, Except.ok.injEq] at ht
  subst ht
  by_cases huse : e.inUse = true
  · obtain ⟨pre, post, hsplit, rfl⟩ := hat
    obtain ⟨u, hu, hinv, hupd⟩ := hc.system.freeAt hsplit huse hoff
    rw [hu, Except.ok.injEq] at hhook
    subst hhook
    exact ⟨_, hinv, hupd.start, rfl⟩
  · have hfree := hl.myFreeHookIn_free hl.chunksForward_eq hat (by simpa using huse) hlt
    rw [hoff, myFreeHook_of_myFreeHookIn hfree, Except.ok.injEq] at hhook
    subst hhook
    refine ⟨h, ⟨hc.system.holds, ?_, ?_⟩, rfl, rfl⟩
    · exact hc.system.nodup.sublist (List.filter_sublist.map _)
    · intro l hl
      exact hc.system.owns l (List.mem_filter.mp hl).1

theorem live_of_malloc {n : ℕ} {rs : List ℕ} (hexec : c.system.exec (.malloc n) = .ok d.system)
    (hrs : results c.system.machine (.malloc n) = .ok rs) :
    ∃ p, rs = [p] ∧ d.system.live = if p = 0 then c.system.live else (p, n) :: c.system.live := by
  obtain ⟨⟨p, m⟩, hhook, hp⟩ := Except.bind_eq_ok_iff.mp hrs
  rw [System.exec, hhook, Except.ok_bind_eq] at hexec
  dsimp only at hp hexec
  rw [Except.pure_eq_ok, Except.ok.injEq] at hp hexec
  exact ⟨p, hp.symm, by rw [← hexec]⟩

theorem Inv.step (hc : Inv c h) (hstep : Step c e d) (hsound : Sound c e) : ∃ h', Inv d h' := by
  obtain ⟨hallowed, hexec⟩ := hstep
  obtain ⟨rs, hsystem, hrs, hreturned⟩ := exec_eq_ok_iff.mp hexec
  cases e with
  | malloc n =>
    have hstep : System.Step c.system (.malloc n) d.system := ⟨hallowed, hsystem⟩
    obtain ⟨h', hd, hstart, -⟩ := hc.system.step hstep
    obtain ⟨p, rfl, hlive⟩ := live_of_malloc hsystem hrs
    rw [List.singleton_append] at hreturned
    refine ⟨h', hc.of_returned hd hstart ?_ ?_⟩
    · intro l hl
      rw [hreturned]
      rw [hlive] at hl
      split at hl
      · exact List.mem_cons_of_mem _ (hc.live l hl)
      · rcases List.mem_cons.mp hl with rfl | hl
        · exact List.mem_cons_self
        · exact List.mem_cons_of_mem _ (hc.live l hl)
    · intro q hq
      rw [hreturned] at hq
      rcases List.mem_cons.mp hq with rfl | hq
      -- the new pointer is null, or was served just now
      · by_cases hnull : q = 0
        · exact Or.inr (Or.inl hnull)
        · exact Or.inr (Or.inr ⟨n, by rw [hlive, if_neg hnull]; exact List.mem_cons_self⟩)
      · exact Or.inl hq
  | free ptr =>
    have hheader := hsound ptr h.chunks rfl hc.system.holds.layout
    obtain ⟨h', hd, hstart, hlive⟩ := hc.free hallowed hheader hsystem
    cases hrs
    refine ⟨h', hc.of_returned hd hstart ?_ fun q hq ↦ Or.inl (by rwa [hreturned] at hq)⟩
    intro l hl
    rw [hlive] at hl
    rw [hreturned]
    exact hc.live l (List.mem_filter.mp hl).1
  | write ptr i b =>
    have hstep : System.Step c.system (.write ptr i b) d.system := ⟨hallowed, hsystem⟩
    obtain ⟨h', hd, hstart, -⟩ := hc.system.step hstep
    obtain ⟨m, -, hm⟩ := Except.bind_eq_ok_iff.mp hsystem
    rw [Except.pure_eq_ok, Except.ok.injEq] at hm
    cases hrs
    refine ⟨h', hc.of_returned hd hstart ?_ fun q hq ↦ Or.inl (by rwa [hreturned] at hq)⟩
    rw [hreturned, ← hm]
    exact hc.live
  | setErrno v =>
    have hstep : System.Step c.system (.setErrno v) d.system := ⟨hallowed, hsystem⟩
    obtain ⟨h', hd, hstart, -⟩ := hc.system.step hstep
    rw [System.exec, Except.ok.injEq] at hsystem
    cases hrs
    refine ⟨h', hc.of_returned hd hstart ?_ fun q hq ↦ Or.inl (by rwa [hreturned] at hq)⟩
    rw [hreturned, ← hsystem]
    exact hc.live

/-- A step of clients that release live pointers only is sound. -/
theorem Inv.exists_step (hc : Inv c h) {s : System} (hstep : System.Step c.system e s) :
    ∃ d, d.system = s ∧ c.returned ⊆ d.returned ∧ Step c e d ∧ Sound c e := by
  obtain ⟨hallowed, hexec⟩ := hstep
  have hresults : ∃ rs, results c.system.machine e = .ok rs := by
    cases e with
    | malloc n =>
      obtain ⟨⟨p, m⟩, hhook, -⟩ := Except.bind_eq_ok_iff.mp hexec
      exact ⟨[p], by rw [results, hhook]; rfl⟩
    | free ptr => exact ⟨[], rfl⟩
    | write ptr i b => exact ⟨[], rfl⟩
    | setErrno v => exact ⟨[], rfl⟩
  obtain ⟨rs, hrs⟩ := hresults
  refine ⟨⟨s, rs ++ c.returned⟩, rfl, List.subset_append_right _ _,
    ⟨?_, exec_eq_ok_iff.mpr ⟨rs, hexec, hrs, rfl⟩⟩, ?_⟩
  · cases e with
    | malloc n => exact hallowed
    | free ptr =>
      obtain ⟨n, hn⟩ := hallowed
      exact hc.live _ hn
    | write ptr i b => exact hallowed
    | setErrno v => trivial
  · rintro ptr cs rfl hcs
    obtain rfl := hc.system.holds.layout.unique hcs
    obtain ⟨n, hn⟩ := hallowed
    obtain ⟨off, e, hat, -, hoff, -⟩ := hc.system.owns _ hn
    dsimp only at hoff
    rw [hoff]
    exact hcs.hasHeader hat

end Steps

/-! ## Runs -/

/-- One step that is sound. -/
def SoundStep (c : Client) (e : Event) (d : Client) : Prop := Step c e d ∧ Sound c e

/-- The clients of all runs that start with `init`, in which all releases were sound. -/
def Reachable (d : Client) : Prop :=
  ∃ mem paging brk limit errno m es, (boot mem paging brk limit errno).init = .ok m ∧
    Run SoundStep ⟨⟨m, []⟩, []⟩ es d

theorem exists_inv_of_run {c d : Client} {es : List Event} (hrun : Run SoundStep c es d)
    (hc : ∃ h, Inv c h) : ∃ h, Inv d h :=
  hrun.invariant (I := fun c ↦ ∃ h, Inv c h)
    (fun _ _ _ ⟨_, hu⟩ hstep ↦ hu.step hstep.1 hstep.2) hc

theorem Reachable.exists_inv {d : Client} (h : d.Reachable) : ∃ g, Inv d g := by
  obtain ⟨mem, paging, brk, limit, errno, m, es, hinit, hrun⟩ := h
  exact exists_inv_of_run hrun ⟨Heap.empty, inv_init hinit⟩

theorem exists_run_of_system {c : Client} {s : System} {es : List Event}
    (hrun : Run System.Step c.system es s) (hc : ∃ h, Inv c h) :
    ∃ d, d.system = s ∧ c.returned ⊆ d.returned ∧ Run SoundStep c es d := by
  obtain ⟨r, hr⟩ : ∃ r, r = c.system := ⟨_, rfl⟩
  rw [← hr] at hrun
  induction hrun generalizing c with
  | nil s => exact ⟨c, hr.symm, List.Subset.refl _, Run.nil c⟩
  | cons hstep _ ih =>
    subst hr
    obtain ⟨h, hh⟩ := hc
    obtain ⟨d, hd, hsub, hstep', hsound⟩ := hh.exists_step hstep
    obtain ⟨e, he, hsub', hrest⟩ := ih (hh.step hstep' hsound) hd.symm
    exact ⟨e, he, List.Subset.trans hsub hsub', Run.cons ⟨hstep', hsound⟩ hrest⟩

/-- **When a returned value can be released.** Whatever was released before, and however often, the
release of a returned value is clean exactly when there still is a header in front of it. -/
theorem freesCleanly_iff {d : Client} (h : d.Reachable) {cs : List Chunk}
    (hcs : Layout d.system.machine cs) {p : ℕ} (hp : p ∈ d.returned) :
    FreesCleanly d.system.machine cs p ↔ HasHeader d.system.machine cs p := by
  obtain ⟨g, hg⟩ := h.exists_inv
  obtain rfl := hg.system.holds.layout.unique hcs
  exact hg.system.holds.clean_iff_hasHeader (hg.returned p hp)

/-- Run `es` and then `fs` on a small heap: whether `p` is live in between, and what `view` shows
at the end. -/
def replay {β : Type} (es fs : List Event) (p : ℕ) (view : System → β) : Option (Bool × β) :=
  (es.foldlM System.step? (System.booted 1048576 0)).bind fun s ↦
    (fs.foldlM System.step? s).map fun t ↦ (decide (p ∈ s.live.map Prod.fst), view t)

theorem exists_reachable_of_replay {es fs : List Event} {p : ℕ} {β : Type} {view : System → β}
    {b : β} (heval : replay es fs p view = some (true, b)) :
    ∃ d : Client, d.Reachable ∧ p ∈ d.returned ∧ view d.system = b := by
  obtain ⟨s, hs, hrest⟩ := Option.bind_eq_some_iff.mp heval
  obtain ⟨t, ht, hview⟩ := Option.map_eq_some_iff.mp hrest
  rw [Prod.mk.injEq, decide_eq_true_eq] at hview
  have hinit : (boot (fun _ ↦ 0) .small 4096 1048576 0).init = _ := init_eq (by decide)
  have hbooted : ∃ h, Inv ⟨System.booted 1048576 0, []⟩ h := ⟨Heap.empty, inv_init hinit⟩
  have hrun := (run_of_foldlM hs).imp fun _ _ _ hstep ↦ System.step_of_step? hstep
  obtain ⟨c, hc, -, hclient⟩ :=
    exists_run_of_system (c := ⟨System.booted 1048576 0, []⟩) hrun hbooted
  have hrun' := (run_of_foldlM ht).imp fun _ _ _ hstep ↦ System.step_of_step? hstep
  subst hc
  have hinv := exists_inv_of_run hclient hbooted
  obtain ⟨d, hd, hsub, hclient'⟩ := exists_run_of_system hrun' hinv
  obtain ⟨g, hg⟩ := hinv
  obtain ⟨l, hl, hp⟩ := List.mem_map.mp hview.1
  refine ⟨d, ⟨_, .small, 4096, 1048576, 0, _, _, hinit, hclient.append hclient'⟩, hsub ?_, ?_⟩
  · rw [← hp]
    exact hg.live l hl
  · rw [hd]
    exact hview.2

theorem freesCleanly_iff_twice :
    ∃ (d : Client) (cs : List Chunk), d.Reachable ∧ Layout d.system.machine cs ∧
      4192 ∈ d.returned ∧ d.system.live = [(4240, 20)] ∧
      (FreesCleanly d.system.machine cs 4192 ↔ HasHeader d.system.machine cs 4192) := by
  have heval : replay [.malloc 10, .malloc 20] [.free 4192] 4192 System.live
      = some (true, [(4240, 20)]) := by decide +kernel
  obtain ⟨d, hd, hp, hlive⟩ := exists_reachable_of_replay heval
  obtain ⟨g, hg⟩ := hd.exists_inv
  have hl := hg.system.holds.layout
  exact ⟨d, g.chunks, hd, hl, hp, hlive, freesCleanly_iff hd hl hp⟩

theorem not_hasHeader_of_live {s : System} {h : Heap} (hs : System.Inv s h) {l : ℕ × ℕ}
    (hl : l ∈ s.live) {p : ℕ} (hlo : l.1 < p) (hhi : p < l.1 + l.2) :
    ¬HasHeader s.machine h.chunks p := by
  intro hheader
  obtain ⟨off, c, hat, -, hoff, -, hsize⟩ := hs.owns l hl
  have hext : c.extent = sizeofMemChunk + c.size := rfl
  exact hheader.not_absorbed ⟨off, c, hat, by omega, by omega⟩

theorem Reachable.exists_not_clean {d : Client} (hd : d.Reachable) {p : ℕ} (hp : p ∈ d.returned)
    (hno : ∀ h, System.Inv d.system h → ¬HasHeader d.system.machine h.chunks p) :
    ∃ cs, Layout d.system.machine cs ∧ ¬FreesCleanly d.system.machine cs p := by
  obtain ⟨g, hg⟩ := hd.exists_inv
  refine ⟨g.chunks, hg.system.holds.layout, fun hclean ↦ hno g hg.system ?_⟩
  exact (hg.system.holds.clean_iff_hasHeader (hg.returned p hp)).mp hclean

theorem reachable_null : Reachable ⟨System.booted 1048576 0, [0]⟩ := by
  have hinit : (boot (fun _ ↦ 0) .small 4096 1048576 0).init = _ := init_eq (by decide)
  have hallowed : Allowed ⟨System.booted 1048576 0, []⟩ (.malloc 0) := by
    show 0 + 7 + sizeofMemChunk < 2 ^ 63
    decide
  have hstep : SoundStep ⟨System.booted 1048576 0, []⟩ (.malloc 0)
      ⟨System.booted 1048576 0, [0]⟩ := ⟨⟨hallowed, rfl⟩, fun _ _ hno ↦ by cases hno⟩
  exact ⟨_, .small, 4096, 1048576, 0, _, _, hinit, Run.single hstep⟩

/-- What is not clean: releasing `NULL`; releasing the last chunk twice, which faults when its page
went with it; and releasing a chunk again that a larger one has absorbed, which clears a byte of a
live payload. -/
theorem releases_not_clean :
    (∃ (d : Client) (cs : List Chunk), d.Reachable ∧ Layout d.system.machine cs ∧
      0 ∈ d.returned ∧ ¬FreesCleanly d.system.machine cs 0) ∧
    (∃ (d : Client) (cs : List Chunk), d.Reachable ∧ Layout d.system.machine cs ∧
      8224 ∈ d.returned ∧ d.system.machine.myFreeHook 8224 = .error .segv ∧
      ¬FreesCleanly d.system.machine cs 8224) ∧
    ∃ (d : Client) (cs : List Chunk), d.Reachable ∧ Layout d.system.machine cs ∧
      4240 ∈ d.returned ∧ (4192, 64) ∈ d.system.live ∧ d.system.machine.mem (4192 + 24) = 1 ∧
      (d.system.machine.myFreeHook 4240).map (fun t ↦ t.mem (4192 + 24)) = .ok 0 ∧
      ¬FreesCleanly d.system.machine cs 4240 := by
  refine ⟨?_, ?_, ?_⟩
  · have hnull : 0 ∈ [0] := List.mem_singleton_self 0
    obtain ⟨cs, hcs, hno⟩ := reachable_null.exists_not_clean hnull fun _ _ hp ↦ hp.ne_null rfl
    exact ⟨_, cs, reachable_null, hcs, hnull, hno⟩
  · have heval : replay [.malloc 4000, .malloc 10] [.free 8224] 8224
        (fun t ↦ (t.machine.brk, (t.machine.myFreeHook 8224).map Machine.brk))
          = some (true, 8192, .error .segv) := by decide +kernel
    obtain ⟨d, hd, hp, hview⟩ := exists_reachable_of_replay heval
    rw [Prod.mk.injEq] at hview
    obtain ⟨cs, hcs, hno⟩ := hd.exists_not_clean hp fun _ _ hheader ↦ by
      have hbelow := hheader.below
      rw [hview.1, sizeofMemChunk] at hbelow
      omega
    refine ⟨d, cs, hd, hcs, hp, ?_, hno⟩
    cases hfree : d.system.machine.myFreeHook 8224 with
    | error f => rw [hfree] at hview; exact congrArg _ (Except.error.inj hview.2)
    | ok t => rw [hfree] at hview; cases hview.2
  · have heval : replay [.malloc 16, .malloc 16, .malloc 16]
        [.free 4192, .free 4240, .malloc 64, .write 4192 24 1] 4240
        (fun t ↦ (t.live, t.machine.mem (4192 + 24),
          (t.machine.myFreeHook 4240).map fun u ↦ u.mem (4192 + 24)))
          = some (true, [(4192, 64), (4288, 16)], 1, .ok 0) := by decide +kernel
    obtain ⟨d, hd, hp, hview⟩ := exists_reachable_of_replay heval
    rw [Prod.mk.injEq, Prod.mk.injEq] at hview
    have hlive : (4192, 64) ∈ d.system.live := by
      rw [hview.1]
      exact List.mem_cons_self
    obtain ⟨cs, hcs, hno⟩ := hd.exists_not_clean hp fun _ hs ↦
      not_hasHeader_of_live hs hlive (by decide) (by decide)
    exact ⟨d, cs, hd, hcs, hp, hlive, hview.2.1, hview.2.2, hno⟩

end Client

end Malloc

end AllProjects
