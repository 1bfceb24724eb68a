import AllProjects.Malloc.Chunks

/-!
# First fit

What `findFit` finds, said without its recursion. A free run is a maximal sequence of adjacent free
chunks, and its capacity is what one header leaves of its bytes. The search returns a prefix of the
lowest free run whose capacity is enough: the shortest prefix that is enough by itself. It returns
nothing exactly when no free run has the capacity.

The search does not know where a run begins. It enters each run at its first chunk because a chunk
further inside is only tried after all chunks in front of it failed, and then the rest of the run
is too small as well (`le_span_absorb`).
-/

namespace AllProjects

namespace Malloc

/-! ## Runs -/

/-- The chunks `run` between `before` and `after` are a maximal sequence of adjacent free chunks. -/
structure IsFreeRun (cs before run after : List Chunk) : Prop where
  split : cs = before ++ run ++ after
  ne_nil : run ≠ []
  free : ∀ c ∈ run, c.inUse = false
  left : ∀ c ∈ before.getLast?, c.inUse = true
  right : ∀ c ∈ after.head?, c.inUse = true

/-- The bytes of a run that is made into one chunk, its header set aside. -/
def capacity (run : List Chunk) : ℕ := span run - sizeofMemChunk

/-- Some free run holds `size` bytes. -/
def Fits (size : ℕ) (cs : List Chunk) : Prop :=
  ∃ before run after, IsFreeRun cs before run after ∧ size ≤ capacity run

/-- The lowest free run that holds `size` bytes is `run`, and its first `k` chunks are the fewest
that do. -/
structure IsFirstFit (size : ℕ) (cs before run after : List Chunk) (k : ℕ) : Prop where
  isFreeRun : IsFreeRun cs before run after
  lowest : ∀ before' run' after', IsFreeRun cs before' run' after' → size ≤ capacity run' →
    span before ≤ span before'
  pos : 0 < k
  le_length : k ≤ run.length
  enough : size ≤ capacity (run.take k)
  fewest : ∀ j, 0 < j → size ≤ capacity (run.take j) → k ≤ j

theorem capacity_cons (c : Chunk) (cs : List Chunk) : capacity (c :: cs) = c.size + span cs := by
  rw [capacity, span_cons, Chunk.extent]
  omega

/-! ## What is absorbed -/

theorem le_span_absorb {size freeMem : ℕ} {run : List Chunk} (hfree : ∀ c ∈ run, c.inUse = false)
    (hsize : size ≤ freeMem + span run) (after : List Chunk) :
    size ≤ freeMem + span (absorb size freeMem (run ++ after)).1 := by
  induction run generalizing freeMem with
  | nil =>
    rw [span_nil] at hsize
    omega
  | cons c run ih =>
    rw [span_cons] at hsize
    by_cases hlt : freeMem < size
    · have hrec := ih (fun d hd ↦ hfree d (List.mem_cons_of_mem _ hd))
        (show size ≤ freeMem + c.extent + span run by omega)
      rw [List.cons_append, absorb, if_pos ⟨hlt, hfree c List.mem_cons_self⟩, span_cons]
      omega
    · omega

theorem absorb_take_lt {size freeMem i : ℕ} {cs : List Chunk}
    (hi : i < (absorb size freeMem cs).1.length) :
    freeMem + span ((absorb size freeMem cs).1.take i) < size := by
  induction cs generalizing freeMem i with
  | nil => exact absurd hi (Nat.not_lt_zero i)
  | cons c cs ih =>
    rw [absorb] at hi ⊢
    by_cases hc : freeMem < size ∧ c.inUse = false
    · rw [if_pos hc] at hi ⊢
      cases i with
      | zero => simpa using hc.1
      | succ i =>
        have hrec := ih (Nat.lt_of_succ_lt_succ hi)
        rw [List.take_succ_cons, span_cons]
        omega
    · rw [if_neg hc] at hi
      exact absurd hi (Nat.not_lt_zero i)

/-! ## The search -/

section Search

variable {size : ℕ} {cs before run after : List Chunk} {f : Fit}

theorem findFit_cons_of_run {c : Chunk} (hc : c.inUse = false) (hfree : ∀ d ∈ run, d.inUse = false)
    (hsize : size ≤ capacity (c :: run)) (after : List Chunk) :
    findFit size (c :: (run ++ after))
      = some ⟨[], c :: (absorb size c.size (run ++ after)).1,
          (absorb size c.size (run ++ after)).2⟩ := by
  rw [capacity_cons] at hsize
  exact if_pos ⟨hc, le_span_absorb hfree hsize after⟩

/-- Free chunks that are enough are found, or others below them. -/
theorem exists_findFit_le (hrun : run ≠ []) (hfree : ∀ c ∈ run, c.inUse = false)
    (hsize : size ≤ capacity run) (before after : List Chunk) :
    ∃ f, findFit size (before ++ run ++ after) = some f ∧ span f.before ≤ span before := by
  induction before with
  | nil =>
    obtain ⟨c, run, rfl⟩ := List.exists_cons_of_ne_nil hrun
    exact ⟨_, findFit_cons_of_run (hfree c List.mem_cons_self)
      (fun d hd ↦ hfree d (List.mem_cons_of_mem _ hd)) hsize after, le_rfl⟩
  | cons c before ih =>
    obtain ⟨f, hf, hle⟩ := ih
    rw [List.cons_append, List.cons_append, findFit, hf]
    split
    · exact ⟨_, rfl, Nat.zero_le _⟩
    · refine ⟨f.push c, rfl, ?_⟩
      rw [Fit.push, span_cons, span_cons]
      omega

theorem findFit_left (hf : findFit size cs = some f) :
    ∀ c ∈ f.before.getLast?, c.inUse = true := by
  induction cs generalizing f with
  | nil => cases hf
  | cons c cs ih =>
    rw [findFit] at hf
    split at hf
    · cases hf
      simp
    · rename_i hno
      obtain ⟨g, hg, rfl⟩ := Option.map_eq_some_iff.mp hf
      intro d hd
      rw [Fit.push, List.getLast?_cons, Option.mem_some] at hd
      cases hlast : g.before.getLast? with
      | some e =>
        rw [hlast, Option.getD_some] at hd
        exact hd ▸ ih hg e hlast
      | none =>
        -- the fit follows `c`, so `c` would have absorbed it
        rw [hlast, Option.getD_none] at hd
        subst hd
        obtain ⟨hsplit, -, hfree, hcap⟩ := findFit_spec hg
        rw [List.getLast?_eq_none_iff.mp hlast, List.nil_append] at hsplit
        by_contra hc
        rw [Bool.not_eq_true] at hc
        refine hno ⟨hc, ?_⟩
        rw [hsplit]
        refine le_span_absorb hfree (le_trans hcap ?_) g.after
        rw [Fit.capacity]
        omega

/-- The prefix that the search takes is the shortest that is enough. -/
theorem findFit_fewest (hf : findFit size cs = some f) {j : ℕ} (hj : 0 < j)
    (henough : size ≤ capacity (f.run.take j)) : f.run.length ≤ j := by
  induction cs generalizing f with
  | nil => cases hf
  | cons c cs ih =>
    rw [findFit] at hf
    split at hf
    · cases hf
      obtain ⟨j, rfl⟩ := Nat.exists_eq_succ_of_ne_zero hj.ne'
      rw [List.take_succ_cons, capacity_cons] at henough
      by_contra hlt
      have hsmall := absorb_take_lt (Nat.lt_of_succ_lt_succ (not_le.mp hlt))
      omega
    · obtain ⟨g, hg, rfl⟩ := Option.map_eq_some_iff.mp hf
      exact ih (f := g) hg henough

/-- **The search is first fit.** What it finds is the shortest sufficient prefix of the lowest free
run with the capacity. -/
theorem findFit_isFirstFit (hf : findFit size cs = some f) :
    IsFirstFit size cs f.before (f.run ++ f.after.takeWhile fun c ↦ !c.inUse)
      (f.after.dropWhile fun c ↦ !c.inUse) f.run.length := by
  obtain ⟨hsplit, hrun, hfree, hcap⟩ := findFit_spec hf
  refine ⟨⟨?_, by simp [hrun], ?_, findFit_left hf, ?_⟩, ?_, List.length_pos_of_ne_nil hrun,
    by simp, by rw [List.take_left]; exact hcap, ?_⟩
  · rw [← List.append_assoc, List.append_assoc, List.takeWhile_append_dropWhile]
    exact hsplit
  · intro c hc
    rcases List.mem_append.mp hc with hc | hc
    · exact hfree c hc
    · simpa using List.mem_takeWhile_imp hc
  · intro c hc
    have hhead := List.head?_dropWhile_not (fun c : Chunk ↦ !c.inUse) f.after
    rw [Option.mem_def.mp hc] at hhead
    simpa using hhead
  · intro before' run' after' hrun' hcap'
    obtain ⟨g, hg, hle⟩ := exists_findFit_le hrun'.ne_nil hrun'.free hcap' before' after'
    rw [← hrun'.split, hf, Option.some_inj] at hg
    exact hg ▸ hle
  · intro j hj henough
    by_contra hlt
    rw [List.take_append_of_le_length (by omega)] at henough
    exact hlt (findFit_fewest hf hj henough)

/-- **The search misses nothing.** -/
theorem findFit_eq_none_iff : findFit size cs = none ↔ ¬Fits size cs := by
  constructor
  · rintro hnone ⟨before, run, after, hrun, hcap⟩
    obtain ⟨f, hf, -⟩ := exists_findFit_le hrun.ne_nil hrun.free hcap before after
    rw [← hrun.split, hnone] at hf
    cases hf
  · intro hno
    by_contra hsome
    obtain ⟨f, hf⟩ := Option.ne_none_iff_exists'.mp hsome
    have hfirst := findFit_isFirstFit hf
    refine hno ⟨_, _, _, hfirst.isFreeRun, le_trans (findFit_spec hf).2.2.2 ?_⟩
    rw [Fit.capacity, capacity, span_append]
    omega

theorem exists_findFit_iff : (∃ f, findFit size cs = some f) ↔ Fits size cs := by
  rw [← Option.ne_none_iff_exists', Ne, findFit_eq_none_iff, not_not]

end Search

end Malloc

end AllProjects
