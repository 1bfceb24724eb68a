import AllProjects.Malloc.Runs

/-!
# Freeing commutes

A release frees one chunk and drops the free chunks at the end. Dropping them later makes no
difference: a chunk that a first release dropped is free, and would be dropped with the rest. So a
sequence of releases has the effect of one: free the chunks at all the given offsets, then drop
the free chunks at the end. The offsets enter only through membership, and the order is gone.
-/

namespace AllProjects

namespace Malloc

open Machine

/-! ## Releasing many chunks at once -/

/-- Free the chunks whose offsets are listed; the first chunk stands at `off`. -/
def releaseAt (offs : List ℕ) : ℕ → List Chunk → List Chunk
  | _, [] => []
  | off, c :: cs => (if off ∈ offs then c.release else c) :: releaseAt offs (off + c.extent) cs

@[simp] theorem releaseAt_nil_chunks (offs : List ℕ) (off : ℕ) : releaseAt offs off [] = [] := rfl

theorem releaseAt_cons (offs : List ℕ) (off : ℕ) (c : Chunk) (cs : List Chunk) :
    releaseAt offs off (c :: cs)
      = (if off ∈ offs then c.release else c) :: releaseAt offs (off + c.extent) cs := rfl

theorem extent_ite_release (p : Prop) [Decidable p] (c : Chunk) :
    (if p then c.release else c).extent = c.extent := by
  split
  · exact Chunk.extent_release c
  · rfl

theorem releaseAt_append (offs : List ℕ) (off : ℕ) (cs ds : List Chunk) :
    releaseAt offs off (cs ++ ds) = releaseAt offs off cs ++ releaseAt offs (off + span cs) ds := by
  induction cs generalizing off with
  | nil => rfl
  | cons c cs ih =>
    rw [List.cons_append, releaseAt_cons, ih, releaseAt_cons, span_cons, add_assoc]
    rfl

theorem releaseAt_congr {offs offs' : List ℕ} (h : ∀ o, o ∈ offs ↔ o ∈ offs') (off : ℕ)
    (cs : List Chunk) : releaseAt offs off cs = releaseAt offs' off cs := by
  induction cs generalizing off with
  | nil => rfl
  | cons c cs ih => simp only [releaseAt_cons, h, ih]

theorem releaseAt_of_nil (off : ℕ) (cs : List Chunk) : releaseAt [] off cs = cs := by
  induction cs generalizing off with
  | nil => rfl
  | cons c cs ih => rw [releaseAt_cons, ih, if_neg List.not_mem_nil]

theorem releaseAt_releaseAt (offs offs' : List ℕ) (off : ℕ) (cs : List Chunk) :
    releaseAt offs off (releaseAt offs' off cs) = releaseAt (offs' ++ offs) off cs := by
  induction cs generalizing off with
  | nil => rfl
  | cons c cs ih =>
    rw [releaseAt_cons offs', releaseAt_cons offs, extent_ite_release, ih, releaseAt_cons]
    congr 1
    by_cases h : off ∈ offs
    · rw [if_pos h, if_pos (List.mem_append_right _ h)]
      split <;> rfl
    · by_cases h' : off ∈ offs'
      · rw [if_neg h, if_pos h', if_pos (List.mem_append_left _ h')]
      · rw [if_neg h, if_neg h', if_neg (by simp [h, h'])]

theorem releaseAt_of_lt {o off : ℕ} (h : o < off) (cs : List Chunk) :
    releaseAt [o] off cs = cs := by
  induction cs generalizing off with
  | nil => rfl
  | cons c cs ih =>
    rw [releaseAt_cons, ih (by omega), if_neg (by rw [List.mem_singleton]; omega)]

theorem releaseAt_of_ge {o off : ℕ} {cs : List Chunk} (h : off + span cs ≤ o) :
    releaseAt [o] off cs = cs := by
  induction cs generalizing off with
  | nil => rfl
  | cons c cs ih =>
    have hpos := extent_pos c
    rw [span_cons] at h
    rw [releaseAt_cons, ih (by omega), if_neg (by rw [List.mem_singleton]; omega)]

theorem releaseAt_singleton (pre post : List Chunk) (c : Chunk) :
    releaseAt [span pre] 0 (pre ++ c :: post) = pre ++ c.release :: post := by
  have hpos := extent_pos c
  rw [releaseAt_append, releaseAt_of_ge (by omega), releaseAt_cons, zero_add,
    if_pos List.mem_cons_self, releaseAt_of_lt (by omega)]

theorem releaseAt_free {offs : List ℕ} {off : ℕ} {cs : List Chunk}
    (h : ∀ c ∈ cs, c.inUse = false) : ∀ c ∈ releaseAt offs off cs, c.inUse = false := by
  induction cs generalizing off with
  | nil => exact h
  | cons c cs ih =>
    intro d hd
    rcases List.mem_cons.mp hd with rfl | hd
    · split
      · rfl
      · exact h c List.mem_cons_self
    · exact ih (fun e he ↦ h e (List.mem_cons_of_mem _ he)) d hd

theorem trimFree_releaseAt (offs : List ℕ) (cs : List Chunk) :
    trimFree (releaseAt offs 0 (trimFree cs)) = trimFree (releaseAt offs 0 cs) := by
  have hfree : ∀ c ∈ releaseAt offs (0 + span (trimFree cs)) (trailingFree cs), c.inUse = false :=
    releaseAt_free fun c hc ↦ mem_trailingFree hc
  have happ := releaseAt_append offs 0 (trimFree cs) (trailingFree cs)
  rw [trimFree_append_trailingFree] at happ
  rw [happ, trimFree_append_of_free hfree]

theorem Heap.chunks_release_eq {h : Heap} {pre post : List Chunk} {c : Chunk}
    (hsplit : h.chunks = pre ++ c :: post) :
    (h.release pre.length).chunks = trimFree (releaseAt [span pre] 0 h.chunks) := by
  rw [Heap.chunks_release hsplit, hsplit, releaseAt_singleton]

/-- A release followed by many is all of them at once. -/
theorem Heap.trimFree_release {h : Heap} {pre post : List Chunk} {c : Chunk}
    (hsplit : h.chunks = pre ++ c :: post) (offs : List ℕ) :
    trimFree (releaseAt offs 0 (h.release pre.length).chunks)
      = trimFree (releaseAt (span pre :: offs) 0 h.chunks) := by
  rw [Heap.chunks_release_eq hsplit, trimFree_releaseAt, releaseAt_releaseAt]
  rfl

namespace System

/-! ## Releasing pointers one after another -/

/-- Passing distinct live pointers to `my_free_hook`, one after another, completes, and frees their
chunks all at once. -/
theorem execAll_myFreeHook {ps : List ℕ} (hnodup : ps.Nodup) {s : System} {h : Heap} (hs : Inv s h)
    (hlive : ∀ p ∈ ps, s.Allowed (.free p)) :
    ∃ t, execAll myFreeHook s.machine ps = .ok t ∧ t.start = s.machine.start ∧ t.hub = t.brk ∧
      ∀ offs, ps = offs.map (payloadAt s.machine) →
        Layout t (trimFree (releaseAt offs 0 h.chunks)) := by
  induction ps generalizing s h with
  | nil =>
    refine ⟨s.machine, rfl, rfl, hs.holds.hub, ?_⟩
    intro offs hoffs
    rw [List.map_eq_nil_iff.mp hoffs.symm, releaseAt_of_nil, trimFree_eq_self h.last_inUse]
    exact hs.holds.layout
  | cons p ps ih =>
    obtain ⟨hp, hnodup⟩ := List.nodup_cons.mp hnodup
    obtain ⟨pre, c, post, m, hsplit, -, hptr, hhook, hinv, hupd⟩ :=
      hs.free (hlive p List.mem_cons_self)
    -- the other pointers stay live
    have hrest : ∀ q ∈ ps, Allowed ⟨m, s.live.filter fun l ↦ l.1 ≠ p⟩ (.free q) := by
      intro q hq
      obtain ⟨n, hn⟩ := hlive q (List.mem_cons_of_mem _ hq)
      exact ⟨n, List.mem_filter.mpr ⟨hn, decide_eq_true fun heq ↦ hp (heq ▸ hq)⟩⟩
    obtain ⟨t, ht, hstart, hhub, hlayout⟩ := ih hnodup hinv hrest
    refine ⟨t, by rw [execAll_cons, hhook]; exact ht, hstart.trans hupd.start, hhub,
      fun offs hoffs ↦ ?_⟩
    obtain ⟨off, offs, rfl⟩ : ∃ o os, offs = o :: os :=
      List.exists_cons_of_ne_nil (by rintro rfl; cases hoffs)
    rw [List.map_cons, List.cons.injEq] at hoffs
    have hoff : off = span pre := payloadAt_injective (hoffs.1.symm.trans hptr)
    rw [hoff, ← Heap.trimFree_release hsplit]
    refine hlayout offs (hoffs.2.trans ?_)
    exact List.map_congr_left fun o _ ↦ (payloadAt_congr hupd.start o).symm

theorem Inv.exists_offsets {s : System} {h : Heap} (hs : Inv s h) {ps : List ℕ}
    (hlive : ∀ p ∈ ps, s.Allowed (.free p)) :
    ∃ offs : List ℕ, ps = offs.map (payloadAt s.machine) := by
  induction ps with
  | nil => exact ⟨[], rfl⟩
  | cons p ps ih =>
    obtain ⟨n, hn⟩ := hlive p List.mem_cons_self
    obtain ⟨off, -, -, -, hptr, -⟩ := hs.owns _ hn
    obtain ⟨offs, rfl⟩ := ih fun q hq ↦ hlive q (List.mem_cons_of_mem _ hq)
    exact ⟨off :: offs, by rw [List.map_cons, ← hptr]⟩

/-- **Freeing commutes.** Two orders of passing the same distinct live pointers to `my_free_hook`
both complete, and end with the same headers at the same addresses and with the same break. -/
theorem free_commutes {s : System} (h : s.Reachable) {ps qs : List ℕ} (hnodup : ps.Nodup)
    (hlive : ∀ p ∈ ps, ∃ n, (p, n) ∈ s.live) (hperm : ps.Perm qs) :
    ∃ t u headers, execAll myFreeHook s.machine ps = .ok t ∧
      execAll myFreeHook s.machine qs = .ok u ∧
      t.headers = .ok headers ∧ u.headers = .ok headers ∧ t.brk = u.brk ∧ t.hub = u.hub := by
  obtain ⟨g, hg⟩ := h.exists_inv
  have hlive' : ∀ q ∈ qs, s.Allowed (.free q) := fun q hq ↦ hlive q (hperm.mem_iff.mpr hq)
  obtain ⟨offs, hoffs⟩ := hg.exists_offsets hlive
  obtain ⟨offs', hoffs'⟩ := hg.exists_offsets hlive'
  obtain ⟨t, ht, hstart, hhub, hlayout⟩ := execAll_myFreeHook hnodup hg hlive
  obtain ⟨u, hu, hstart', hhub', hlayout'⟩ :=
    execAll_myFreeHook (hperm.nodup_iff.mp hnodup) hg hlive'
  have hmem : ∀ o, o ∈ offs ↔ o ∈ offs' := by
    intro o
    have hinj : Function.Injective (payloadAt s.machine) := fun _ _ ↦ payloadAt_injective
    have hps : payloadAt s.machine o ∈ ps ↔ o ∈ offs := by
      rw [hoffs, List.mem_map_of_injective hinj]
    have hqs : payloadAt s.machine o ∈ qs ↔ o ∈ offs' := by
      rw [hoffs', List.mem_map_of_injective hinj]
    rw [← hps, ← hqs]
    exact hperm.mem_iff
  have hl := hlayout offs hoffs
  have hl' := hlayout' offs' hoffs'
  rw [← releaseAt_congr hmem] at hl'
  have hsame : t.start = u.start := hstart.trans hstart'.symm
  have hbrk : t.brk = u.brk := Layout.brk_congr hl' hl hsame
  refine ⟨t, u, _, ht, hu, hl.headers_eq, ?_, hbrk, by rw [hhub, hhub', hbrk]⟩
  rw [Layout.headers_congr hl hl' hsame.symm, hl.headers_eq]

theorem free_commutes_two :
    ∃ s : System, s.Reachable ∧ ∃ t u headers,
      execAll myFreeHook s.machine [4192, 4240] = .ok t ∧
      execAll myFreeHook s.machine [4240, 4192] = .ok u ∧
      t.headers = .ok headers ∧ u.headers = .ok headers ∧ t.brk = u.brk ∧ t.hub = u.hub := by
  obtain ⟨m, s, hinit, hrun, hlive⟩ := exists_run_two
  have hs : s.Reachable := ⟨_, _, _, _, _, m, _, hinit, hrun⟩
  refine ⟨s, hs, free_commutes hs (by decide) ?_ (List.Perm.swap _ _ _)⟩
  intro p hp
  rw [hlive]
  rcases List.mem_pair.mp hp with rfl | rfl
  · exact ⟨10, by simp⟩
  · exact ⟨20, by simp⟩

end System

end Malloc

end AllProjects
