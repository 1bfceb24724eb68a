import AllProjects.Malloc.Layout

/-!
# The loops of the hooks

Each loop of the source is proved equal to a function on the chunk list: the two loops of the
allocation scan to `absorb` and `findFit`, the two loops of the release to taking free chunks from
the front and from the back. The bound that the loops carry is never reached, because a list of
chunks has at least one byte of heap for each chunk.

The scan is the only loop that could leave the list. When a run is too small it continues behind
the chunk that stopped it, and reads that chunk's link even if it is the tail sentinel. The
hypothesis that the last chunk is in use is what rules this out. The walks of the release read no
headers but those of the list.
-/

namespace AllProjects

namespace Malloc

open Machine

theorem wrap_of_lt {x : ℕ} (h : x < 2 ^ 64) : wrap x = x := Nat.mod_eq_of_lt h

theorem wrapSub_of_le {a b : ℕ} (h : b ≤ a) (ha : a < 2 ^ 64) : wrapSub a b = a - b := by
  rw [wrapSub]
  omega

/-! ## Following links

The two loops of the allocation scan once more, with another way to follow `mp_next`. For the reads
of the source they are the loops of the source. For reads that differ from them, they show which
links the scan depends on. -/

namespace Machine

variable (s : Machine) (link : ℕ → Except Fault ℕ)

/-- `absorbLoop`, following `link`. -/
def absorbLoopVia (size : ℕ) : ℕ → ℕ → ℕ → Except Fault (ℕ × ℕ)
  | 0, _, _ => .error .diverges
  | fuel + 1, freeMem, sCurs =>
    if freeMem < size then do
      if (← s.stat sCurs) = 0 then
        let freeMem := wrap (freeMem + wrap ((← s.size sCurs) + sizeofMemChunk))
        absorbLoopVia size fuel freeMem (← link sCurs)
      else return (freeMem, sCurs)
    else return (freeMem, sCurs)

/-- `scanLoop`, following `link`. -/
def scanLoopVia (size : ℕ) : ℕ → ℕ → ℕ → Except Fault (ℕ × ℕ × ℕ)
  | 0, _, _ => .error .diverges
  | fuel + 1, mCurs, sCurs =>
    if mCurs ≠ s.memTail then do
      if (← s.stat mCurs) = 0 then
        let sCurs ← link mCurs
        let (freeMem, sCurs) ← s.absorbLoopVia link size s.fuel (← s.size mCurs) sCurs
        if freeMem ≥ size then return (freeMem, mCurs, sCurs)
        else scanLoopVia size fuel (← link sCurs) sCurs
      else scanLoopVia size fuel (← link mCurs) sCurs
    else return (0, mCurs, sCurs)

/-- `link` reads `mp_next`, except that it may do anything at the tail sentinel. -/
def FollowsChunks : Prop := ∀ a, a ≠ s.memTail → link a = s.mpNext a

variable {s link} {link' : ℕ → Except Fault ℕ}

theorem absorbLoopVia_of_ok (hlink : ∀ a b, link a = .ok b → link' a = .ok b)
    {size fuel freeMem sCurs : ℕ} {r : ℕ × ℕ}
    (h : s.absorbLoopVia link size fuel freeMem sCurs = .ok r) :
    s.absorbLoopVia link' size fuel freeMem sCurs = .ok r := by
  induction fuel generalizing freeMem sCurs with
  | zero => cases h
  | succ fuel ih =>
    rw [absorbLoopVia] at h ⊢
    by_cases hsize : freeMem < size
    · rw [if_pos hsize] at h ⊢
      obtain ⟨stat, hstat, h⟩ := Except.bind_eq_ok_iff.mp h
      rw [hstat, Except.ok_bind_eq]
      by_cases hfree : stat = 0
      · rw [if_pos hfree] at h ⊢
        obtain ⟨n, hn, h⟩ := Except.bind_eq_ok_iff.mp h
        obtain ⟨next, hnext, h⟩ := Except.bind_eq_ok_iff.mp h
        rw [hn, Except.ok_bind_eq, hlink _ _ hnext, Except.ok_bind_eq]
        exact ih h
      · rw [if_neg hfree] at h ⊢
        exact h
    · rw [if_neg hsize] at h ⊢
      exact h

theorem scanLoopVia_of_ok (hlink : ∀ a b, link a = .ok b → link' a = .ok b)
    {size fuel mCurs sCurs : ℕ} {r : ℕ × ℕ × ℕ}
    (h : s.scanLoopVia link size fuel mCurs sCurs = .ok r) :
    s.scanLoopVia link' size fuel mCurs sCurs = .ok r := by
  induction fuel generalizing mCurs sCurs with
  | zero => cases h
  | succ fuel ih =>
    rw [scanLoopVia] at h ⊢
    by_cases htail : mCurs ≠ s.memTail
    · rw [if_pos htail] at h ⊢
      obtain ⟨stat, hstat, h⟩ := Except.bind_eq_ok_iff.mp h
      rw [hstat, Except.ok_bind_eq]
      by_cases hfree : stat = 0
      · rw [if_pos hfree] at h ⊢
        obtain ⟨next, hnext, h⟩ := Except.bind_eq_ok_iff.mp h
        obtain ⟨n, hn, h⟩ := Except.bind_eq_ok_iff.mp h
        obtain ⟨⟨freeMem, stop⟩, habs, h⟩ := Except.bind_eq_ok_iff.mp h
        rw [hlink _ _ hnext, Except.ok_bind_eq, hn, Except.ok_bind_eq,
          absorbLoopVia_of_ok hlink habs, Except.ok_bind_eq]
        dsimp only at h ⊢
        by_cases hfit : freeMem ≥ size
        · rw [if_pos hfit] at h ⊢
          exact h
        · rw [if_neg hfit] at h ⊢
          obtain ⟨next', hnext', h⟩ := Except.bind_eq_ok_iff.mp h
          rw [hlink _ _ hnext', Except.ok_bind_eq]
          exact ih h
      · rw [if_neg hfree] at h ⊢
        obtain ⟨next, hnext, h⟩ := Except.bind_eq_ok_iff.mp h
        rw [hlink _ _ hnext, Except.ok_bind_eq]
        exact ih h
    · rw [if_neg htail] at h ⊢
      exact h

variable (s)

theorem absorbLoopVia_mpNext (size fuel freeMem sCurs : ℕ) :
    s.absorbLoopVia s.mpNext size fuel freeMem sCurs = s.absorbLoop size fuel freeMem sCurs := by
  induction fuel generalizing freeMem sCurs with
  | zero => rfl
  | succ fuel ih => simp only [absorbLoopVia, absorbLoop, ih]

theorem scanLoopVia_mpNext (size fuel mCurs sCurs : ℕ) :
    s.scanLoopVia s.mpNext size fuel mCurs sCurs = s.scanLoop size fuel mCurs sCurs := by
  induction fuel generalizing mCurs sCurs with
  | zero => rfl
  | succ fuel ih => simp only [scanLoopVia, scanLoop, absorbLoopVia_mpNext, ih]

end Machine

/-! ## Reading listed headers

The release once more, with a fault in place of every read of a header that is not among `chunks`.
What it writes is not restricted: the last chunk that stays may be `mem_head`. -/

/-- Read a field of a header that is among `chunks`. -/
def readIn (chunks : List ℕ) (read : ℕ → Except Fault ℕ) (chunk : ℕ) : Except Fault ℕ :=
  if chunk ∈ chunks then read chunk else .error .segv

theorem readIn_of_mem {chunks : List ℕ} {chunk : ℕ} (h : chunk ∈ chunks)
    (read : ℕ → Except Fault ℕ) : readIn chunks read chunk = read chunk := if_pos h

theorem readIn_eq_ok_iff {chunks : List ℕ} {read : ℕ → Except Fault ℕ} {chunk v : ℕ} :
    readIn chunks read chunk = .ok v ↔ chunk ∈ chunks ∧ read chunk = .ok v := by
  rw [readIn]
  split
  · rename_i hmem
    exact (and_iff_right hmem).symm
  · rename_i hmem
    exact iff_of_false (by simp) fun h ↦ hmem h.1

theorem of_readIn {chunks : List ℕ} {read : ℕ → Except Fault ℕ} (chunk v : ℕ)
    (h : readIn chunks read chunk = .ok v) : read chunk = .ok v := (readIn_eq_ok_iff.mp h).2

section ReleaseWalk

variable (stat size link : ℕ → Except Fault ℕ) (stop : ℕ)

/-- The two walks of the release, whatever reads the headers: count free bytes along `link` up to
the next chunk in use, or to `stop`. -/
def releaseWalk : ℕ → ℕ → ℕ → Except Fault (ℕ × ℕ)
  | 0, _, _ => .error .diverges
  | fuel + 1, freeMem, mCurs =>
    if mCurs ≠ stop then do
      if (← stat mCurs) = 1 then return (freeMem, mCurs)
      else
        let freeMem := wrap (freeMem + wrap ((← size mCurs) + sizeofMemChunk))
        releaseWalk fuel freeMem (← link mCurs)
    else return (freeMem, mCurs)

variable {stat size link stop} {stat' size' link' : ℕ → Except Fault ℕ}

/-- A walk that completes depends on no more reads than it made. -/
theorem releaseWalk_of_ok (hstat : ∀ a b, stat a = .ok b → stat' a = .ok b)
    (hsize : ∀ a b, size a = .ok b → size' a = .ok b)
    (hlink : ∀ a b, link a = .ok b → link' a = .ok b) {fuel freeMem mCurs : ℕ} {r : ℕ × ℕ}
    (h : releaseWalk stat size link stop fuel freeMem mCurs = .ok r) :
    releaseWalk stat' size' link' stop fuel freeMem mCurs = .ok r := by
  induction fuel generalizing freeMem mCurs with
  | zero => cases h
  | succ fuel ih =>
    rw [releaseWalk] at h ⊢
    by_cases hstop : mCurs ≠ stop
    · rw [if_pos hstop] at h ⊢
      obtain ⟨v, hv, h⟩ := Except.bind_eq_ok_iff.mp h
      rw [hstat _ _ hv, Except.ok_bind_eq]
      by_cases huse : v = 1
      · rw [if_pos huse] at h ⊢
        exact h
      · rw [if_neg huse] at h ⊢
        obtain ⟨n, hn, h⟩ := Except.bind_eq_ok_iff.mp h
        obtain ⟨next, hnext, h⟩ := Except.bind_eq_ok_iff.mp h
        rw [hsize _ _ hn, Except.ok_bind_eq, hlink _ _ hnext, Except.ok_bind_eq]
        exact ih h
    · rw [if_neg hstop] at h ⊢
      exact h

theorem releaseWalk_stop (fuel freeMem : ℕ) :
    releaseWalk stat size link stop (fuel + 1) freeMem stop = .ok (freeMem, stop) :=
  if_neg (not_not.mpr rfl)

end ReleaseWalk

namespace Machine

section Listed

variable (s : Machine) (chunks : List ℕ)

/-- `forwardLoop`, reading the headers in `chunks` only. -/
def forwardLoopIn : ℕ → ℕ → ℕ → Except Fault (ℕ × ℕ) :=
  releaseWalk (readIn chunks s.stat) (readIn chunks s.size) (readIn chunks s.mpNext) s.memTail

/-- `backwardLoop`, reading the headers in `chunks` only. -/
def backwardLoopIn : ℕ → ℕ → ℕ → Except Fault (ℕ × ℕ) :=
  releaseWalk (readIn chunks s.stat) (readIn chunks s.size) (readIn chunks s.mpPrev) s.memHead

/-- `myFreeHook`, reading the headers in `chunks` only. -/
def myFreeHookIn (ptr : ℕ) : Except Fault Machine := do
  let memChunk := wrapSub ptr sizeofMemChunk
  if (← readIn chunks s.stat memChunk) = 0 then return s
  let s ← s.setStat memChunk 0
  let (freeMem, mCurs) ← s.forwardLoopIn chunks s.fuel 0 memChunk
  if mCurs = s.memTail then
    let (freeMem, mCurs) ←
      s.backwardLoopIn chunks s.fuel freeMem (← readIn chunks s.mpPrev memChunk)
    let s ← s.trimHeap freeMem mCurs
    return s.refreshHub
  else return s.refreshHub

theorem forwardLoop_eq_releaseWalk (fuel freeMem mCurs : ℕ) :
    s.forwardLoop fuel freeMem mCurs
      = releaseWalk s.stat s.size s.mpNext s.memTail fuel freeMem mCurs := by
  induction fuel generalizing freeMem mCurs with
  | zero => rfl
  | succ fuel ih => simp only [forwardLoop, releaseWalk, ih]

theorem backwardLoop_eq_releaseWalk (fuel freeMem mCurs : ℕ) :
    s.backwardLoop fuel freeMem mCurs
      = releaseWalk s.stat s.size s.mpPrev s.memHead fuel freeMem mCurs := by
  induction fuel generalizing freeMem mCurs with
  | zero => rfl
  | succ fuel ih => simp only [backwardLoop, releaseWalk, ih]

variable {s chunks}

theorem forwardLoop_of_forwardLoopIn {fuel freeMem mCurs : ℕ} {r : ℕ × ℕ}
    (h : s.forwardLoopIn chunks fuel freeMem mCurs = .ok r) :
    s.forwardLoop fuel freeMem mCurs = .ok r := by
  rw [forwardLoop_eq_releaseWalk]
  exact releaseWalk_of_ok of_readIn of_readIn of_readIn h

theorem backwardLoop_of_backwardLoopIn {fuel freeMem mCurs : ℕ} {r : ℕ × ℕ}
    (h : s.backwardLoopIn chunks fuel freeMem mCurs = .ok r) :
    s.backwardLoop fuel freeMem mCurs = .ok r := by
  rw [backwardLoop_eq_releaseWalk]
  exact releaseWalk_of_ok of_readIn of_readIn of_readIn h

/-- A release that completes without leaving `chunks` is the release of the source. -/
theorem myFreeHook_of_myFreeHookIn {ptr : ℕ} {t : Machine} (h : s.myFreeHookIn chunks ptr = .ok t) :
    s.myFreeHook ptr = .ok t := by
  rw [myFreeHookIn] at h
  rw [myFreeHook]
  obtain ⟨stat, hstat, h⟩ := Except.bind_eq_ok_iff.mp h
  rw [of_readIn _ _ hstat, Except.ok_bind_eq]
  by_cases hfree : stat = 0
  · rw [if_pos hfree] at h ⊢
    exact h
  · rw [if_neg hfree] at h ⊢
    obtain ⟨u, hu, h⟩ := Except.bind_eq_ok_iff.mp h
    obtain ⟨⟨freeMem, mCurs⟩, hforward, h⟩ := Except.bind_eq_ok_iff.mp h
    rw [hu, Except.ok_bind_eq, forwardLoop_of_forwardLoopIn hforward, Except.ok_bind_eq]
    dsimp only at h ⊢
    by_cases htail : mCurs = u.memTail
    · rw [if_pos htail] at h ⊢
      obtain ⟨prev, hprev, h⟩ := Except.bind_eq_ok_iff.mp h
      obtain ⟨r, hbackward, h⟩ := Except.bind_eq_ok_iff.mp h
      rw [of_readIn _ _ hprev, Except.ok_bind_eq, backwardLoop_of_backwardLoopIn hbackward,
        Except.ok_bind_eq]
      exact h
    · rw [if_neg htail] at h ⊢
      exact h

theorem releaseWalk_step {link : ℕ → Except Fault ℕ} {stop fuel freeMem a prev next n : ℕ}
    {c : Chunk} (hat : s.HeaderAt a c prev next) (hlisted : a ∈ chunks) (hne : a ≠ stop)
    (hlink : link a = .ok n) (hmem : freeMem + c.extent < 2 ^ 64) :
    releaseWalk (readIn chunks s.stat) (readIn chunks s.size) (readIn chunks link) stop (fuel + 1)
        freeMem a
      = if c.inUse = true then .ok (freeMem, a)
        else releaseWalk (readIn chunks s.stat) (readIn chunks s.size) (readIn chunks link) stop
          fuel (freeMem + c.extent) n := by
  rw [releaseWalk, if_pos hne, readIn_of_mem hlisted, hat.stat, Except.ok_bind_eq]
  by_cases hc : c.inUse = true
  · rw [if_pos (Chunk.stat_of_inUse hc), if_pos hc]
    rfl
  · have hfree : c.inUse = false := by simpa using hc
    have hext : c.size + sizeofMemChunk = c.extent := Nat.add_comm _ _
    rw [if_neg (by rw [Chunk.stat_of_free hfree]; decide), if_neg hc, readIn_of_mem hlisted,
      hat.size, Except.ok_bind_eq, readIn_of_mem hlisted, hlink, Except.ok_bind_eq, hext,
      wrap_of_lt (x := c.extent) (by omega), wrap_of_lt hmem]

end Listed

end Machine

/-- The headers of the chunks `cs`, which stand at `a`, are among `chunks`. -/
def HeadersIn (chunks : List ℕ) (a : ℕ) (cs : List Chunk) : Prop :=
  ∀ off c, ChunkAt cs off c → a + off ∈ chunks

section HeadersIn

variable {chunks : List ℕ} {a : ℕ} {c : Chunk} {cs ds : List Chunk}

theorem headersIn_cons :
    HeadersIn chunks a (c :: cs) ↔ a ∈ chunks ∧ HeadersIn chunks (a + c.extent) cs := by
  constructor
  · intro h
    refine ⟨h 0 c (chunkAt_cons.mpr (Or.inl ⟨rfl, rfl⟩)), fun off d hd ↦ ?_⟩
    rw [add_assoc]
    exact h _ d (chunkAt_cons.mpr (Or.inr ⟨off, rfl, hd⟩))
  · rintro ⟨ha, h⟩ off d hd
    rcases chunkAt_cons.mp hd with ⟨rfl, -⟩ | ⟨off', rfl, hd'⟩
    · exact ha
    · rw [← add_assoc]
      exact h off' d hd'

theorem headersIn_append :
    HeadersIn chunks a (cs ++ ds) ↔ HeadersIn chunks a cs ∧ HeadersIn chunks (a + span cs) ds := by
  induction cs generalizing a with
  | nil =>
    rw [List.nil_append, span_nil, add_zero, iff_and_self]
    intro _ off c hc
    exact absurd hc.mem List.not_mem_nil
  | cons c cs ih =>
    rw [List.cons_append, headersIn_cons, headersIn_cons, ih, span_cons, and_assoc, add_assoc]

end HeadersIn

theorem absorb_stop {size freeMem : ℕ} {cs : List Chunk}
    (h : freeMem + span (absorb size freeMem cs).1 < size) :
    ∀ d ∈ (absorb size freeMem cs).2.head?, d.inUse = true := by
  induction cs generalizing freeMem with
  | nil =>
    intro d hd
    cases hd
  | cons c cs ih =>
    intro d hd
    by_cases hc : freeMem < size ∧ c.inUse = false
    · rw [absorb, if_pos hc] at h hd
      rw [span_cons] at h
      exact ih (by omega) d hd
    · rw [absorb, if_neg hc, List.head?_cons, Option.mem_some] at hd
      rw [absorb, if_neg hc, span_nil, add_zero] at h
      subst hd
      simpa [h] using hc

/-- Where the scan goes on when a run is too small: the list does not end with the run, and no
chunk of the run starts a fit. -/
theorem exists_stop {size : ℕ} {c : Chunk} {after taken rest : List Chunk} (hc : c.inUse = false)
    (habs : absorb size c.size after = (taken, rest)) (hsmall : c.size + span taken < size)
    (hlast : ∀ e ∈ (c :: after).getLast?, e.inUse = true) :
    ∃ d rest', rest = d :: rest' ∧ d.inUse = true ∧ after = taken ++ d :: rest' ∧
      findFit size (c :: after)
        = (findFit size rest').map fun f ↦ { f with before := c :: taken ++ d :: f.before } := by
  have happ := absorb_append size c.size after
  have hstop := absorb_stop (show c.size + span (absorb size c.size after).1 < size by
    rw [habs]
    exact hsmall)
  have hfree : ∀ e ∈ c :: taken, e.inUse = false := by
    intro e he
    rcases List.mem_cons.mp he with rfl | he
    · exact hc
    · exact absorb_free (show e ∈ (absorb size c.size after).1 by rw [habs]; exact he)
  rw [habs] at happ hstop
  cases rest with
  | nil =>
    obtain ⟨init, e, he⟩ := (List.eq_nil_or_concat (c :: taken)).resolve_left (by simp)
    rw [List.concat_eq_append] at he
    have huse := hlast e (by rw [← happ, List.append_nil, he, List.getLast?_concat]; rfl)
    rw [hfree e (by rw [he]; simp)] at huse
    cases huse
  | cons d rest' =>
    have hd : d.inUse = true := hstop d rfl
    have hspan : span (c :: taken) < size + sizeofMemChunk := by
      rw [span_cons, Chunk.extent]
      omega
    refine ⟨d, rest', rfl, hd, happ.symm, ?_⟩
    rw [← happ, ← List.cons_append]
    exact findFit_skip hfree hd hspan

namespace Layout

variable {s : Machine} {cs : List Chunk}

theorem length_lt_fuel (h : Layout s cs) : (sentinel :: cs).length < s.fuel := by
  have hle := length_le_span (sentinel :: cs)
  have hbrk := h.brk
  have hlen : 0 < (sentinel :: cs).length := List.length_pos_of_ne_nil (by simp)
  rw [fuel]
  rw [sizeofMemChunk] at hle
  omega

theorem span_le (h : Layout s cs) {before after : List Chunk}
    (hsplit : sentinel :: cs = before ++ after) : s.start + span before + span after ≤ s.brk := by
  rw [h.brk, hsplit, span_append, add_assoc]

/-! ## The allocation scan -/

section Scan

variable {link : ℕ → Except Fault ℕ}

theorem absorbLoopVia_eq (h : Layout s cs) (hlink : s.FollowsChunks link)
    {size fuel freeMem : ℕ} {before after : List Chunk}
    (hsplit : sentinel :: cs = before ++ after) (hfuel : after.length < fuel)
    (hmem : freeMem + span after < 2 ^ 64) :
    s.absorbLoopVia link size fuel freeMem (entry (s.start + span before) after s.memTail)
      = .ok (freeMem + span (absorb size freeMem after).1,
          entry (s.start + span before + span (absorb size freeMem after).1)
            (absorb size freeMem after).2 s.memTail) := by
  induction after generalizing before freeMem fuel with
  | nil =>
    obtain ⟨fuel, rfl⟩ := Nat.exists_eq_succ_of_ne_zero (Nat.ne_of_gt hfuel)
    rw [entry_nil, absorbLoopVia]
    by_cases hsize : freeMem < size
    · rw [if_pos hsize, h.tailAt.stat]
      rfl
    · rw [if_neg hsize]
      rfl
  | cons c after ih =>
    obtain ⟨fuel, rfl⟩ := Nat.exists_eq_succ_of_ne_zero (Nat.ne_of_gt (Nat.zero_lt_of_lt hfuel))
    have hat := h.headerAt hsplit
    have hnext := (hlink _ (h.ne_memTail hsplit)).trans hat.mpNext
    rw [entry_cons, absorbLoopVia]
    by_cases hsize : freeMem < size
    · rw [if_pos hsize, hat.stat, Except.ok_bind_eq]
      by_cases hc : c.inUse = false
      · rw [span_cons] at hmem
        have hext : c.size + sizeofMemChunk = c.extent := Nat.add_comm _ _
        have hwrap : wrap (freeMem + wrap (c.size + sizeofMemChunk)) = freeMem + c.extent := by
          rw [hext, wrap_of_lt (x := c.extent) (by omega), wrap_of_lt (by omega)]
        have hlt : freeMem + c.extent + span after < 2 ^ 64 := by omega
        have hrec := ih (hsplit.trans (List.append_cons before c after))
          (Nat.lt_of_succ_lt_succ hfuel) hlt
        rw [if_pos (Chunk.stat_of_free hc), hat.size, Except.ok_bind_eq, hnext,
          Except.ok_bind_eq, hwrap, absorb, if_pos ⟨hsize, hc⟩]
        rw [span_append, span_cons, span_nil, add_zero, ← add_assoc] at hrec
        rw [hrec, span_cons, add_assoc freeMem, add_assoc (s.start + span before)]
      · have huse : c.inUse = true := by simpa using hc
        rw [if_neg (by rw [Chunk.stat_of_inUse huse]; decide), absorb, if_neg (by simp [huse])]
        rfl
    · rw [if_neg hsize, absorb, if_neg (fun hc ↦ hsize hc.1)]
      rfl

/-! The steps of the outer loop, one for each way in which it goes on. -/

section Step

variable {size fuel sCurs : ℕ} {before after : List Chunk} {c : Chunk}

theorem scanLoopVia_tail :
    s.scanLoopVia link size (fuel + 1) s.memTail sCurs = .ok (0, s.memTail, sCurs) := by
  rw [scanLoopVia, if_neg (by simp)]
  rfl

theorem scanLoopVia_inUse (h : Layout s cs) (hlink : s.FollowsChunks link)
    (hsplit : sentinel :: cs = before ++ c :: after) (hc : c.inUse = true) :
    s.scanLoopVia link size (fuel + 1) (s.start + span before) sCurs
      = s.scanLoopVia link size fuel (entry (s.start + span (before ++ [c])) after s.memTail)
          sCurs := by
  have hat := h.headerAt hsplit
  have hspan : s.start + span before + c.extent = s.start + span (before ++ [c]) := by
    simp [add_assoc]
  rw [scanLoopVia, if_pos (h.ne_memTail hsplit), hat.stat, Except.ok_bind_eq,
    if_neg (by rw [Chunk.stat_of_inUse hc]; decide), hlink _ (h.ne_memTail hsplit), hat.mpNext,
    Except.ok_bind_eq, hspan]

theorem scanLoopVia_free (h : Layout s cs) (hlink : s.FollowsChunks link)
    (hsplit : sentinel :: cs = before ++ c :: after) (hc : c.inUse = false)
    {taken rest : List Chunk} (habs : absorb size c.size after = (taken, rest)) :
    s.scanLoopVia link size (fuel + 1) (s.start + span before) sCurs
      = if c.size + span taken ≥ size then
          .ok (c.size + span taken, s.start + span before,
            entry (s.start + span (before ++ c :: taken)) rest s.memTail)
        else link (entry (s.start + span (before ++ c :: taken)) rest s.memTail) >>= fun next ↦
          s.scanLoopVia link size fuel next
            (entry (s.start + span (before ++ c :: taken)) rest s.memTail) := by
  have hat := h.headerAt hsplit
  have hsplit' : sentinel :: cs = (before ++ [c]) ++ after := by rw [hsplit]; simp
  have hspan : s.start + span before + c.extent = s.start + span (before ++ [c]) := by
    simp [add_assoc]
  have hspan' : s.start + span (before ++ [c]) + span taken
      = s.start + span (before ++ c :: taken) := by
    simp [add_assoc]
  have hbound := h.span_le hsplit'
  have hlt := h.brk_lt
  have hext : c.extent = sizeofMemChunk + c.size := rfl
  have hlen : after.length < s.fuel :=
    lt_of_le_of_lt (by rw [hsplit']; simp; omega) h.length_lt_fuel
  have hmem : c.size + span after < 2 ^ 64 := by
    rw [← hspan] at hbound
    omega
  have hloop : s.absorbLoopVia link size s.fuel c.size
      (entry (s.start + span (before ++ [c])) after s.memTail) = _ :=
    h.absorbLoopVia_eq hlink hsplit' hlen hmem
  rw [scanLoopVia, if_pos (h.ne_memTail hsplit), hat.stat, Except.ok_bind_eq,
    if_pos (Chunk.stat_of_free hc), hlink _ (h.ne_memTail hsplit), hat.mpNext, Except.ok_bind_eq,
    hat.size, Except.ok_bind_eq, hspan, hloop, habs, hspan', Except.ok_bind_eq]
  rfl

end Step

/-- **The scan is a first fit search.** From the entry of any part of the list, the outer loop
ends at `mem_tail` when the search finds nothing, and otherwise at the first chunk of the run that
the search finds, with `s_curs` behind the run and its capacity in `free_mem`. -/
theorem scanLoopVia_eq (h : Layout s cs) (hlink : s.FollowsChunks link)
    (hlast : ∀ c ∈ (sentinel :: cs).getLast?, c.inUse = true) (size : ℕ) {fuel : ℕ}
    {before after : List Chunk} (hsplit : sentinel :: cs = before ++ after)
    (hfuel : after.length < fuel) (sCurs : ℕ) :
    (findFit size after = none → ∃ sCurs',
      s.scanLoopVia link size fuel (entry (s.start + span before) after s.memTail) sCurs
        = .ok (0, s.memTail, sCurs')) ∧
    (∀ f, findFit size after = some f →
      s.scanLoopVia link size fuel (entry (s.start + span before) after s.memTail) sCurs
        = .ok (f.capacity, s.start + span (before ++ f.before),
            entry (s.start + span (before ++ f.before ++ f.run)) f.after s.memTail)) := by
  induction hn : after.length using Nat.strong_induction_on
    generalizing before after fuel sCurs with | _ n ih =>
  subst hn
  obtain ⟨fuel, rfl⟩ := Nat.exists_eq_succ_of_ne_zero (Nat.ne_of_gt (Nat.zero_lt_of_lt hfuel))
  cases after with
  | nil => exact ⟨fun _ ↦ ⟨sCurs, scanLoopVia_tail⟩, fun f hf ↦ absurd hf (by simp [findFit])⟩
  | cons c after =>
    rw [List.length_cons] at hfuel ih
    rw [entry_cons]
    by_cases hc : c.inUse = false
    · obtain ⟨taken, rest, habs⟩ : ∃ taken rest, absorb size c.size after = (taken, rest) :=
        ⟨_, _, rfl⟩
      rw [scanLoopVia_free h hlink hsplit hc habs]
      by_cases hfit : size ≤ c.size + span taken
      -- the run of free chunks is large enough
      · have hfound : findFit size (c :: after) = some ⟨[], c :: taken, rest⟩ := by
          rw [findFit, habs, if_pos ⟨hc, hfit⟩]
        rw [hfound, if_pos hfit]
        refine ⟨fun hnone ↦ absurd hnone (by simp), ?_⟩
        intro f hf
        rw [Option.some_inj] at hf
        subst hf
        have hcap : (⟨[], c :: taken, rest⟩ : Fit).capacity = c.size + span taken := by
          rw [Fit.capacity, span_cons, Chunk.extent]
          omega
        rw [hcap, List.append_nil]
      -- it is not, so it ends at a chunk in use, and the search goes on behind that chunk
      · obtain ⟨d, rest', rfl, hd, hafter, hskip⟩ := exists_stop hc habs (by omega)
          (fun e he ↦ hlast e (by
            rw [hsplit, List.getLast?_append_of_ne_nil _ (by simp)]
            exact he))
        have hsplitd : sentinel :: cs = (before ++ c :: taken) ++ d :: rest' := by
          rw [hsplit, hafter]
          simp
        have hsplitr : sentinel :: cs = (before ++ c :: taken ++ [d]) ++ rest' := by
          rw [hsplitd]
          simp
        have hspan : s.start + span (before ++ c :: taken) + d.extent
            = s.start + span (before ++ c :: taken ++ [d]) := by
          simp [add_assoc]
        have hlen : rest'.length < after.length := by
          rw [hafter, List.length_append, List.length_cons]
          omega
        have hlen' : rest'.length < fuel := by omega
        obtain ⟨hnone, hsome⟩ := ih rest'.length (by omega) hsplitr hlen'
          (s.start + span (before ++ c :: taken)) rfl
        rw [if_neg hfit, entry_cons, hlink _ (h.ne_memTail hsplitd), (h.headerAt hsplitd).mpNext,
          Except.ok_bind_eq, hspan, hskip]
        refine ⟨fun hmap ↦ hnone (Option.map_eq_none_iff.mp hmap), ?_⟩
        intro f hf
        obtain ⟨g, hg, rfl⟩ := Option.map_eq_some_iff.mp hf
        rw [hsome g hg]
        simp [Fit.capacity]
    · rw [Bool.not_eq_false] at hc
      have hskip : findFit size (c :: after) = (findFit size after).map (Fit.push c) := by
        rw [findFit, if_neg (by simp [hc])]
      have hsplit' := hsplit.trans (List.append_cons before c after)
      have hlen : after.length < fuel := by omega
      obtain ⟨hnone, hsome⟩ := ih after.length (by omega) hsplit' hlen sCurs rfl
      rw [scanLoopVia_inUse h hlink hsplit hc, hskip]
      refine ⟨fun hmap ↦ hnone (Option.map_eq_none_iff.mp hmap), ?_⟩
      intro f hf
      obtain ⟨g, hg, rfl⟩ := Option.map_eq_some_iff.mp hf
      rw [hsome g hg]
      simp [Fit.capacity, Fit.push]

end Scan

/-! ## The release walks -/

section Release

variable {chunks : List ℕ}

theorem forwardLoopIn_eq (h : Layout s cs) {fuel freeMem : ℕ} {before after : List Chunk}
    (hsplit : sentinel :: cs = before ++ after)
    (hin : HeadersIn chunks (s.start + span before) after) (hfuel : after.length < fuel)
    (hmem : freeMem + span after < 2 ^ 64) :
    s.forwardLoopIn chunks fuel freeMem (entry (s.start + span before) after s.memTail)
      = .ok (freeMem + span (after.takeWhile fun c ↦ !c.inUse),
          entry (s.start + span before + span (after.takeWhile fun c ↦ !c.inUse))
            (after.dropWhile fun c ↦ !c.inUse) s.memTail) := by
  induction after generalizing before freeMem fuel with
  | nil =>
    obtain ⟨fuel, rfl⟩ := Nat.exists_eq_succ_of_ne_zero (Nat.ne_of_gt hfuel)
    rw [entry_nil, forwardLoopIn, releaseWalk_stop]
    rfl
  | cons c after ih =>
    obtain ⟨fuel, rfl⟩ := Nat.exists_eq_succ_of_ne_zero (Nat.ne_of_gt (Nat.zero_lt_of_lt hfuel))
    have hat := h.headerAt hsplit
    obtain ⟨hlisted, hin⟩ := headersIn_cons.mp hin
    rw [span_cons] at hmem
    rw [entry_cons, forwardLoopIn, releaseWalk_step hat hlisted (h.ne_memTail hsplit) hat.mpNext
      (by omega)]
    by_cases hc : c.inUse = true
    · rw [if_pos hc, List.takeWhile_cons_of_neg (by simp [hc]),
        List.dropWhile_cons_of_neg (by simp [hc])]
      rfl
    · have hfree : c.inUse = false := by simpa using hc
      have hlt : freeMem + c.extent + span after < 2 ^ 64 := by omega
      have hspan : s.start + span before + c.extent = s.start + span (before ++ [c]) := by
        simp [add_assoc]
      rw [hspan] at hin
      have hrec := ih (hsplit.trans (List.append_cons before c after)) hin
        (Nat.lt_of_succ_lt_succ hfuel) hlt
      rw [← hspan, forwardLoopIn] at hrec
      rw [if_neg hc, hrec, List.takeWhile_cons_of_pos (by simp [hfree]),
        List.dropWhile_cons_of_pos (by simp [hfree]), span_cons, add_assoc freeMem,
        add_assoc (s.start + span before)]

theorem backwardLoopIn_eq (h : Layout s cs) {fuel freeMem : ℕ} {before after : List Chunk}
    (hsplit : cs = before ++ after)
    (hin : HeadersIn chunks (s.start + span [sentinel]) before) (hfuel : before.length < fuel)
    (hmem : freeMem + span before < 2 ^ 64) :
    s.backwardLoopIn chunks fuel freeMem (lastAddr 0 s.start (sentinel :: before))
      = .ok (freeMem + span (trailingFree before),
          lastAddr 0 s.start (sentinel :: trimFree before)) := by
  induction before using List.reverseRecOn generalizing after freeMem fuel with
  | nil =>
    obtain ⟨fuel, rfl⟩ := Nat.exists_eq_succ_of_ne_zero (Nat.ne_of_gt hfuel)
    have hhead : lastAddr 0 s.start [sentinel] = s.memHead := h.memHead.symm
    rw [hhead, backwardLoopIn, releaseWalk_stop, ← hhead]
    rfl
  | append_singleton before c ih =>
    obtain ⟨fuel, rfl⟩ := Nat.exists_eq_succ_of_ne_zero (Nat.ne_of_gt (Nat.zero_lt_of_lt hfuel))
    have hsplit' : sentinel :: cs = (sentinel :: before) ++ c :: after := by rw [hsplit]; simp
    have hat := h.headerAt hsplit'
    obtain ⟨hin, hc⟩ := headersIn_append.mp hin
    have hlisted := (headersIn_cons.mp hc).1
    rw [add_assoc, ← span_append, List.singleton_append] at hlisted
    have hlast : lastAddr 0 s.start (sentinel :: (before ++ [c]))
        = s.start + span (sentinel :: before) := by
      rw [← List.cons_append, lastAddr_concat]
    have hne : s.start + span (sentinel :: before) ≠ s.memHead := by
      rw [h.memHead, span_sentinel_cons, sizeofMemChunk]
      omega
    rw [span_append, span_cons, span_nil, add_zero] at hmem
    rw [hlast, backwardLoopIn, releaseWalk_step hat hlisted hne hat.mpPrev (by omega)]
    by_cases hc : c.inUse = true
    · rw [if_pos hc, trailingFree_concat_of_inUse hc, trimFree_concat_of_inUse hc, hlast]
      rfl
    · have hfree : c.inUse = false := by simpa using hc
      have hlen : before.length < fuel := by
        rw [List.length_append, List.length_singleton] at hfuel
        omega
      have hlt : freeMem + c.extent + span before < 2 ^ 64 := by omega
      have hrec := ih (hsplit.trans (List.append_cons before c after).symm) hin hlen hlt
      rw [backwardLoopIn] at hrec
      rw [if_neg hc, hrec, trailingFree_concat_of_free hfree, trimFree_concat_of_free hfree,
        span_append, span_cons, span_nil, add_zero, add_assoc, add_comm c.extent]

end Release

end Layout

end Malloc

end AllProjects
