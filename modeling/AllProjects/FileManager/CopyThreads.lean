import AllProjects.FileManager.CopyStatus

/-!
# The copy and its progress bar

F5 starts a thread for `copy_file` and a second one for `display_copy_status`, which reads the
fields that the first one writes, and joins them in this order. The fields come out of `malloc`:
what `copy_file` does not get to write stays as it was found.

## When the loop ends

The loop goes on while `cur_size < fs_src.st_size`. Once `copy_file` has ended nobody changes
either, so the next test is the last one or the loop never ends. `SafeExit` says what has to be true
when `copy_file` takes its last step: the fields are in order, unless the loop is over already or
has read a `cur_size` that ends it, and the division that may still come does not trap.

The two reads of the test are steps of their own, and so are the round of the loop and what comes
before the loop. A division by zero kills the process, with all its threads.
-/

namespace AllProjects

namespace FileManager

/-! ## The threads -/

/-- Where `display_copy_status` stands. `stBlC` is its variable, `cur` the value of `cur_size` that
the test has read. -/
inductive StatusPc
  | unborn
  | setup
  | testCur (stBlC : ℤ)
  | testSize (stBlC cur : ℤ)
  | body (stBlC : ℤ)
  | finish
  | exited
  deriving DecidableEq

/-- Where `main` stands, from the `usleep` between the two calls of `pthread_create` on. -/
inductive MainPc
  | creates
  | joinsCopy
  | joinsStatus
  | joined
  deriving DecidableEq

/-- The three threads. -/
structure CopySystem where
  copy : CopyThread
  status : StatusPc
  main : MainPc
  killed : Bool

/-- Which thread takes a step; the calls of `copy_file` have an answer. -/
inductive CopyEvent
  | copy (a : Answer)
  | status
  | main
  deriving DecidableEq

/-- `copy_file` is over. -/
def CopyThread.Ended (t : CopyThread) : Prop := ∃ b, t.pc = .exited b

instance (t : CopyThread) : Decidable t.Ended :=
  decidable_of_iff (t.pc = .exited true ∨ t.pc = .exited false) (by
    rw [CopyThread.Ended, Bool.exists_bool, or_comm])

/-- A call that ends `copy_file`: one that fails, a short `write`, or the end of the source. -/
def CopyThread.Exits (t : CopyThread) (a : Answer) : Prop :=
  match t.pc, a with
  | _, .fails => True
  | .read _ _ _ _, .bytes n => n = 0
  | .write _ _ _ _ buf, .bytes n => n < buf.length
  | _, _ => False

theorem ended_iff_exits {s t : CopyThread} {a : Answer} (h : CopyStep s a t) :
    t.Ended ↔ s.Exits a := by
  cases h.move with
  | openSrc hpc _ | statSrc hpc _ | openDst hpc | zero hpc | add hpc | write hpc | eof hpc _ =>
    simp [CopyThread.Ended, CopyThread.Exits, CopyThread.goto, hpc]
  | read hpc hn _ _ | short hpc hn =>
    simp [CopyThread.Ended, CopyThread.Exits, CopyThread.goto, hpc, hn]
  | fails _ => simp [CopyThread.Ended, CopyThread.Exits, CopyThread.goto]

theorem cfi_eq_of_ended {s t : CopyThread} {a : Answer} (h : CopyStep s a t) (hend : t.Ended) :
    t.cfi = s.cfi := by
  obtain ⟨b, hb⟩ := hend
  cases h.move with
  | eof _ _ | short _ _ | fails _ => rfl
  | openSrc _ _ | statSrc _ _ | openDst _ | zero _ | read _ _ _ _ | write _ | add _ => cases hb

theorem not_ended_of_copyStep {s t : CopyThread} {a : Answer} (h : CopyStep s a t) : ¬s.Ended := by
  rintro ⟨b, hb⟩
  cases h.move with
  | openSrc hpc _ | statSrc hpc _ | openDst hpc | zero hpc | read hpc _ _ _ | eof hpc _ | write hpc
  | short hpc _ | add hpc =>
    rw [hb] at hpc
    cases hpc
  | fails hpc => exact hpc b hb

namespace CopySystem

variable (s : CopySystem)

/-- `display_copy_status` goes on at `pc`. -/
def gotoStatus (pc : StatusPc) : CopySystem := { s with status := pc }

/-- One step of `display_copy_status`. -/
def statusStep : Option CopySystem :=
  let cfi := s.copy.cfi
  match s.status with
  | .unborn | .exited => none
  | .setup =>
    match stBlC cfi.cols cfi.stSize with
    | none => some { s with killed := true }
    | some c => some (s.gotoStatus (.testCur c))
  | .testCur c => some (s.gotoStatus (.testSize c cfi.curSize))
  | .testSize c cur => some (s.gotoStatus (if cur < cfi.stSize then .body c else .finish))
  | .body c =>
    match markColumn cfi.curSize c with
    | none => some { s with killed := true }
    | some _ => some (s.gotoStatus (.testCur c))
  | .finish => some (s.gotoStatus .exited)

/-- One step of `main`. -/
def mainStep : Option CopySystem :=
  match s.main with
  | .creates => some { s with status := .setup, main := .joinsCopy }
  | .joinsCopy => if s.copy.Ended then some { s with main := .joinsStatus } else none
  | .joinsStatus => if s.status = .exited then some { s with main := .joined } else none
  | .joined => none

/-- One step, as long as the process lives. -/
def step (e : CopyEvent) : Option CopySystem :=
  if s.killed then none
  else match e with
    | .copy a => (copyStep a s.copy).map fun c ↦ { s with copy := c }
    | .status => s.statusStep
    | .main => s.mainStep

/-- A step of the system. -/
def Step (s : CopySystem) (e : CopyEvent) (t : CopySystem) : Prop := s.step e = some t

/-- `copy_file` has been started, on whatever `malloc` left in `cfi`. -/
def start (d : Disk) (cfi : CopyFileInfo) : CopySystem :=
  ⟨⟨d, cfi, .openSrc⟩, .unborn, .creates, false⟩

/-! ## Ending -/

/-- **Both joins return**, whatever the threads do from here on: no run goes on for ever, and one
that cannot go on has `main` behind its joins. -/
structure Settles (s : CopySystem) : Prop where
  bounded : ∃ n, ∀ es t, Run Step s es t → es.length ≤ n
  joined : ∀ es t, Run Step s es t → (∀ e u, ¬Step t e u) → t.main = .joined

/-- Once `copy_file` is over both joins return. -/
def EndsWithCopy (s : CopySystem) : Prop := s.copy.Ended → s.Settles

/-- The next test ends the loop. -/
def AtEnd (s : CopySystem) : Prop := s.copy.cfi.stSize ≤ s.copy.cfi.curSize

/-- **`copy_file` may end here.** -/
def SafeExit (s : CopySystem) : Prop :=
  let cfi := s.copy.cfi
  match s.status with
  | .unborn | .setup => s.AtEnd ∧ Divides cfi.stSize (stBl cfi.cols)
  | .testCur _ => s.AtEnd
  | .testSize c cur => cfi.stSize ≤ cur ∨ s.AtEnd ∧ Divides cfi.curSize c
  | .body c => s.AtEnd ∧ Divides cfi.curSize c
  | .finish | .exited => True

/-- What `main` and the bar know of each other. -/
structure Inv (s : CopySystem) : Prop where
  unborn_iff : s.status = .unborn ↔ s.main = .creates
  exited_of_joined : s.main = .joined → s.status = .exited

variable {s t : CopySystem} {e : CopyEvent}

/-! ### Steps -/

/-- What a step of `display_copy_status` can do. -/
inductive StatusMove (s : CopySystem) : CopySystem → Prop
  | setup {c : ℤ} : s.status = .setup → stBlC s.copy.cfi.cols s.copy.cfi.stSize = some c →
      StatusMove s (s.gotoStatus (.testCur c))
  | testCur {c : ℤ} : s.status = .testCur c →
      StatusMove s (s.gotoStatus (.testSize c s.copy.cfi.curSize))
  | round {c cur : ℤ} : s.status = .testSize c cur → cur < s.copy.cfi.stSize →
      StatusMove s (s.gotoStatus (.body c))
  | stop {c cur : ℤ} : s.status = .testSize c cur → s.copy.cfi.stSize ≤ cur →
      StatusMove s (s.gotoStatus .finish)
  | body {c m : ℤ} : s.status = .body c → markColumn s.copy.cfi.curSize c = some m →
      StatusMove s (s.gotoStatus (.testCur c))
  | finish : s.status = .finish → StatusMove s (s.gotoStatus .exited)
  | setupTraps : s.status = .setup → stBlC s.copy.cfi.cols s.copy.cfi.stSize = none →
      StatusMove s { s with killed := true }
  | bodyTraps {c : ℤ} : s.status = .body c → markColumn s.copy.cfi.curSize c = none →
      StatusMove s { s with killed := true }

/-- What a step of `main` can do. -/
inductive MainMove (s : CopySystem) : CopySystem → Prop
  | creates : s.main = .creates → MainMove s { s with status := .setup, main := .joinsCopy }
  | joinsCopy : s.main = .joinsCopy → s.copy.Ended → MainMove s { s with main := .joinsStatus }
  | joinsStatus : s.main = .joinsStatus → s.status = .exited →
      MainMove s { s with main := .joined }

/-- What a step of the system can do. -/
inductive Move (s : CopySystem) : CopyEvent → CopySystem → Prop
  | copy {a : Answer} {c : CopyThread} : CopyStep s.copy a c → Move s (.copy a) { s with copy := c }
  | status {t : CopySystem} : StatusMove s t → Move s .status t
  | main {t : CopySystem} : MainMove s t → Move s .main t

theorem statusStep_iff : s.statusStep = some t ↔ StatusMove s t := by
  constructor
  · intro h
    unfold statusStep at h
    dsimp only at h
    split at h
    · cases h
    · cases h
    · split at h
      · obtain rfl := Option.some.inj h
        exact .setupTraps ‹_› ‹_›
      · obtain rfl := Option.some.inj h
        exact .setup ‹_› ‹_›
    · obtain rfl := Option.some.inj h
      exact .testCur ‹_›
    · obtain rfl := Option.some.inj h
      split
      · exact .round ‹_› ‹_›
      · exact .stop ‹_› (not_lt.mp ‹_›)
    · split at h
      · obtain rfl := Option.some.inj h
        exact .bodyTraps ‹_› ‹_›
      · obtain rfl := Option.some.inj h
        exact .body ‹_› ‹_›
    · obtain rfl := Option.some.inj h
      exact .finish ‹_›
  · intro h
    cases h with
    | setup hpc hc | setupTraps hpc hc | body hpc hc | bodyTraps hpc hc =>
      simp only [statusStep, hpc, hc]
    | testCur hpc | finish hpc => simp only [statusStep, hpc]
    | round hpc hlt => simp only [statusStep, hpc, if_pos hlt]
    | stop hpc hle => simp only [statusStep, hpc, if_neg (not_lt.mpr hle)]

theorem mainMove_of_mainStep (h : s.mainStep = some t) : MainMove s t := by
  unfold mainStep at h
  split at h
  · obtain rfl := Option.some.inj h
    exact .creates ‹_›
  · split at h
    · obtain rfl := Option.some.inj h
      exact .joinsCopy ‹_› ‹_›
    · cases h
  · split at h
    · obtain rfl := Option.some.inj h
      exact .joinsStatus ‹_› ‹_›
    · cases h
  · cases h

theorem Step.move (h : Step s e t) : s.killed = false ∧ Move s e t := by
  unfold Step step at h
  split at h
  · cases h
  · rename_i hkilled
    refine ⟨Bool.eq_false_of_not_eq_true hkilled, ?_⟩
    split at h
    · obtain ⟨c, hc, rfl⟩ := Option.map_eq_some_iff.mp h
      exact .copy hc
    · exact .status (statusStep_iff.mp h)
    · exact .main (mainMove_of_mainStep h)

/-- A step of `display_copy_status` leaves the other threads alone, and is taken by a thread that
was born and is not over. -/
theorem StatusMove.frame (h : StatusMove s t) : t.copy = s.copy ∧ t.main = s.main
    ∧ s.status ≠ .unborn ∧ t.status ≠ .unborn ∧ s.status ≠ .exited := by
  cases h with
  | setup hpc _ | testCur hpc | round hpc _ | stop hpc _ | body hpc _ | finish hpc =>
    exact ⟨rfl, rfl, by rw [hpc]; rintro ⟨⟩, by rintro ⟨⟩, by rw [hpc]; rintro ⟨⟩⟩
  | setupTraps hpc _ | bodyTraps hpc _ =>
    have hborn : s.status ≠ .unborn := by
      rw [hpc]
      rintro ⟨⟩
    exact ⟨rfl, rfl, hborn, hborn, by rw [hpc]; rintro ⟨⟩⟩

theorem MainMove.copy_eq (h : MainMove s t) : t.copy = s.copy := by
  cases h <;> rfl

theorem Inv.step (hs : s.Inv) (h : Step s e t) : t.Inv := by
  cases h.move.2 with
  | copy _ => exact ⟨hs.unborn_iff, hs.exited_of_joined⟩
  | status h =>
    obtain ⟨-, hmain, hborn, hborn', hexit⟩ := h.frame
    have hcreates : s.main ≠ .creates := fun hm ↦ hborn (hs.unborn_iff.mpr hm)
    refine ⟨iff_of_false hborn' (hmain ▸ hcreates), fun hm ↦ ?_⟩
    exact absurd (hs.exited_of_joined (hmain ▸ hm)) hexit
  | main h =>
    cases h with
    | creates _ => exact ⟨iff_of_false (by rintro ⟨⟩) (by rintro ⟨⟩), by rintro ⟨⟩⟩
    | joinsCopy hm _ =>
      have hborn : s.status ≠ .unborn := by
        rw [Ne, hs.unborn_iff, hm]
        rintro ⟨⟩
      exact ⟨iff_of_false hborn (by rintro ⟨⟩), by rintro ⟨⟩⟩
    | joinsStatus hm hexit =>
      have hborn : s.status ≠ .unborn := by
        rw [hexit]
        rintro ⟨⟩
      exact ⟨iff_of_false hborn (by rintro ⟨⟩), fun _ ↦ hexit⟩

theorem Move.of_ended (h : Move s e t) (hend : s.copy.Ended) : StatusMove s t ∨ MainMove s t := by
  cases h with
  | copy hc => exact absurd hend (not_ended_of_copyStep hc)
  | status h => exact Or.inl h
  | main h => exact Or.inr h

theorem Step.copy_eq (h : Step s e t) (hend : s.copy.Ended) : t.copy = s.copy := by
  obtain h | h := h.move.2.of_ended hend
  · exact h.frame.1
  · exact h.copy_eq

/-! ### From a safe exit on -/

/-- Rounds that are left to the bar after a safe exit. -/
def statusRank (s : CopySystem) : ℕ :=
  match s.status with
  | .unborn => 5
  | .setup | .body _ => 4
  | .testCur _ => 3
  | .testSize _ cur => if cur < s.copy.cfi.stSize then 5 else 2
  | .finish => 1
  | .exited => 0

def mainRank (s : CopySystem) : ℕ :=
  match s.main with
  | .creates => 3
  | .joinsCopy => 2
  | .joinsStatus => 1
  | .joined => 0

theorem StatusMove.safe (hsafe : s.SafeExit) (h : StatusMove s t) :
    t.SafeExit ∧ t.killed = s.killed ∧ t.statusRank < s.statusRank := by
  cases h with
  | setup hpc _ =>
    simp only [SafeExit, hpc] at hsafe
    exact ⟨hsafe.1, rfl, by simp [statusRank, gotoStatus, hpc]⟩
  | testCur hpc =>
    simp only [SafeExit, hpc] at hsafe
    have hle : ¬s.copy.cfi.curSize < s.copy.cfi.stSize := not_lt.mpr hsafe
    exact ⟨Or.inl hsafe, rfl, by simp [statusRank, gotoStatus, hpc, hle]⟩
  | round hpc hlt =>
    simp only [SafeExit, hpc] at hsafe
    exact ⟨hsafe.resolve_left (not_le.mpr hlt), rfl, by simp [statusRank, gotoStatus, hpc, hlt]⟩
  | stop hpc hle =>
    exact ⟨trivial, rfl, by simp [statusRank, gotoStatus, hpc, not_lt.mpr hle]⟩
  | body hpc _ =>
    simp only [SafeExit, hpc] at hsafe
    exact ⟨hsafe.1, rfl, by simp [statusRank, gotoStatus, hpc]⟩
  | finish hpc => exact ⟨trivial, rfl, by simp [statusRank, gotoStatus, hpc]⟩
  | setupTraps hpc htrap =>
    simp only [SafeExit, hpc] at hsafe
    exact absurd hsafe.2 (stBlC_eq_none_iff.mp htrap)
  | bodyTraps hpc htrap =>
    simp only [SafeExit, hpc] at hsafe
    exact absurd hsafe.2 (markColumn_eq_none_iff.mp htrap)

theorem MainMove.safe (hs : s.Inv) (hsafe : s.SafeExit) (h : MainMove s t) :
    t.SafeExit ∧ t.killed = s.killed ∧ t.statusRank ≤ s.statusRank ∧ t.mainRank < s.mainRank := by
  cases h with
  | creates hm =>
    have hpc := hs.unborn_iff.mpr hm
    simp only [SafeExit, hpc] at hsafe
    exact ⟨hsafe, rfl, by simp [statusRank, hpc], by simp [mainRank, hm]⟩
  | joinsCopy hm _ | joinsStatus hm _ => exact ⟨hsafe, rfl, le_rfl, by simp [mainRank, hm]⟩

/-- **After a safe exit every step comes closer to the end**, and the process lives. -/
theorem SafeExit.step (hs : s.Inv) (hsafe : s.SafeExit) (hend : s.copy.Ended) (h : Step s e t) :
    t.SafeExit ∧ t.killed = false
      ∧ t.statusRank + t.mainRank < s.statusRank + s.mainRank := by
  obtain ⟨hkilled, hmove⟩ := h.move
  obtain hmove | hmove := hmove.of_ended hend
  · obtain ⟨ht, hk, hrank⟩ := hmove.safe hsafe
    rw [mainRank, hmove.frame.2.1]
    exact ⟨ht, hk.trans hkilled, Nat.add_lt_add_right hrank _⟩
  · obtain ⟨ht, hk, hle, hrank⟩ := hmove.safe hs hsafe
    exact ⟨ht, hk.trans hkilled, Nat.add_lt_add_of_le_of_lt hle hrank⟩

theorem step_status (hkilled : s.killed = false) (h : StatusMove s t) : Step s .status t := by
  rw [Step, step, hkilled]
  exact statusStep_iff.mpr h

theorem step_main (hkilled : s.killed = false) (h : s.mainStep = some t) : Step s .main t := by
  rw [Step, step, hkilled]
  exact h

theorem exists_statusMove (hborn : s.status ≠ .unborn) (hexit : s.status ≠ .exited) :
    ∃ t, StatusMove s t := by
  cases hpc : s.status with
  | unborn => exact absurd hpc hborn
  | exited => exact absurd hpc hexit
  | setup =>
    cases hc : stBlC s.copy.cfi.cols s.copy.cfi.stSize with
    | none => exact ⟨_, .setupTraps hpc hc⟩
    | some c => exact ⟨_, .setup hpc hc⟩
  | testCur c => exact ⟨_, .testCur hpc⟩
  | testSize c cur =>
    obtain hlt | hle := lt_or_ge cur s.copy.cfi.stSize
    · exact ⟨_, .round hpc hlt⟩
    · exact ⟨_, .stop hpc hle⟩
  | body c =>
    cases hm : markColumn s.copy.cfi.curSize c with
    | none => exact ⟨_, .bodyTraps hpc hm⟩
    | some m => exact ⟨_, .body hpc hm⟩
  | finish => exact ⟨_, .finish hpc⟩

/-- Somebody can move until both joins have returned. -/
theorem exists_step (hs : s.Inv) (hend : s.copy.Ended) (hkilled : s.killed = false)
    (hmain : s.main ≠ .joined) : ∃ e t, Step s e t := by
  cases hm : s.main with
  | joined => exact absurd hm hmain
  | creates => exact ⟨.main, _, step_main hkilled (by rw [mainStep, hm])⟩
  | joinsCopy => exact ⟨.main, _, step_main hkilled (by rw [mainStep, hm, if_pos hend])⟩
  | joinsStatus =>
    by_cases hexit : s.status = .exited
    · exact ⟨.main, _, step_main hkilled (by rw [mainStep, hm, if_pos hexit])⟩
    · have hborn : s.status ≠ .unborn := by
        rw [Ne, hs.unborn_iff, hm]
        rintro ⟨⟩
      obtain ⟨t, ht⟩ := exists_statusMove hborn hexit
      exact ⟨.status, t, step_status hkilled ht⟩

/-- What holds after a safe exit, up to the end. -/
structure Closing (s : CopySystem) : Prop where
  inv : s.Inv
  ended : s.copy.Ended
  alive : s.killed = false
  safe : s.SafeExit

theorem Closing.step (hs : s.Closing) (h : Step s e t) :
    t.Closing ∧ t.statusRank + t.mainRank < s.statusRank + s.mainRank := by
  obtain ⟨hsafe, halive, hrank⟩ := hs.safe.step hs.inv hs.ended h
  exact ⟨⟨hs.inv.step h, h.copy_eq hs.ended ▸ hs.ended, halive, hsafe⟩, hrank⟩

theorem Closing.settles (hs : s.Closing) : s.Settles where
  bounded := ⟨_, fun _ _ hrun ↦ hrun.length_le_of_invariant (fun _ _ _ hs h ↦ hs.step h) hs⟩
  joined := by
    intro es t hrun hstuck
    have ht : t.Closing := hrun.invariant (fun _ _ _ hs h ↦ (hs.step h).1) hs
    by_contra hmain
    obtain ⟨e, u, h⟩ := exists_step ht.inv ht.ended ht.alive hmain
    exact hstuck e u h

/-! ### From an exit that is not safe -/

theorem Settles.step (hs : s.Settles) (h : Step s e t) : t.Settles where
  bounded := by
    obtain ⟨n, hn⟩ := hs.bounded
    refine ⟨n, fun es u hrun ↦ ?_⟩
    have hlen := hn (e :: es) u (Run.cons h hrun)
    rw [List.length_cons] at hlen
    omega
  joined := fun es u hrun ↦ hs.joined (e :: es) u (Run.cons h hrun)

theorem Settles.alive (hs : s.Settles) (hinv : s.Inv) (hexit : s.status ≠ .exited) :
    s.killed = false := by
  by_contra hkilled
  apply hexit
  apply hinv.exited_of_joined
  apply hs.joined [] s (Run.nil s)
  intro e t h
  exact hkilled h.move.1

theorem Settles.exists_mark (hs : s.Settles) (hinv : s.Inv) (hkilled : s.killed = false) {c : ℤ}
    (hpc : s.status = .body c) : ∃ m, markColumn s.copy.cfi.curSize c = some m := by
  cases hm : markColumn s.copy.cfi.curSize c with
  | some m => exact ⟨m, rfl⟩
  | none =>
    have h := step_status hkilled (.bodyTraps hpc hm)
    have halive := (hs.step h).alive (hinv.step h) (by rw [hpc]; rintro ⟨⟩)
    cases halive

/-- **A test that does not end the loop is followed by the same test**, for ever. -/
theorem Settles.atEnd (hs : s.Settles) (hinv : s.Inv) (hkilled : s.killed = false) {c : ℤ}
    (hpc : s.status = .testCur c) : s.AtEnd := by
  by_contra hlt
  rw [AtEnd, not_le] at hlt
  have h₁ : Step s .status (s.gotoStatus (.testSize c s.copy.cfi.curSize)) :=
    step_status hkilled (.testCur hpc)
  have h₂ : Step (s.gotoStatus (.testSize c s.copy.cfi.curSize)) .status (s.gotoStatus (.body c)) :=
    step_status hkilled (.round rfl hlt)
  obtain ⟨m, hm⟩ := ((hs.step h₁).step h₂).exists_mark ((hinv.step h₁).step h₂) hkilled rfl
  have h₃ : Step (s.gotoStatus (.body c)) .status (s.gotoStatus (.testCur c)) :=
    step_status hkilled (.body rfl hm)
  have hback : s.gotoStatus (.testCur c) = s := by
    rw [gotoStatus, ← hpc]
  rw [hback] at h₃
  obtain ⟨n, hn⟩ := hs.bounded
  cases Run.eq_nil_of_bounded hn (Run.cons h₁ (Run.cons h₂ (Run.single h₃)))

theorem Settles.safe_body (hs : s.Settles) (hinv : s.Inv) (hkilled : s.killed = false) {c : ℤ}
    (hpc : s.status = .body c) : s.AtEnd ∧ Divides s.copy.cfi.curSize c := by
  obtain ⟨m, hm⟩ := hs.exists_mark hinv hkilled hpc
  have h := step_status hkilled (.body hpc hm)
  refine ⟨(hs.step h).atEnd (hinv.step h) hkilled rfl, ?_⟩
  by_contra hdiv
  rw [markColumn_eq_none_iff.mpr hdiv] at hm
  cases hm

theorem Settles.safe_setup (hs : s.Settles) (hinv : s.Inv) (hkilled : s.killed = false)
    (hpc : s.status = .setup) :
    s.AtEnd ∧ Divides s.copy.cfi.stSize (stBl s.copy.cfi.cols) := by
  cases hc : stBlC s.copy.cfi.cols s.copy.cfi.stSize with
  | none =>
    have h := step_status hkilled (.setupTraps hpc hc)
    have halive := (hs.step h).alive (hinv.step h) (by rw [hpc]; rintro ⟨⟩)
    cases halive
  | some c =>
    have h := step_status hkilled (.setup hpc hc)
    refine ⟨(hs.step h).atEnd (hinv.step h) hkilled rfl, ?_⟩
    by_contra hdiv
    rw [stBlC_eq_none_iff.mpr hdiv] at hc
    cases hc

theorem Settles.safeExit (hs : s.Settles) (hinv : s.Inv) (hkilled : s.killed = false) :
    s.SafeExit := by
  cases hpc : s.status with
  | unborn =>
    have hm := hinv.unborn_iff.mp hpc
    have h : Step s .main { s with status := .setup, main := .joinsCopy } :=
      step_main hkilled (by rw [mainStep, hm])
    have hsafe := (hs.step h).safe_setup (hinv.step h) hkilled rfl
    simp only [SafeExit, hpc]
    exact hsafe
  | setup =>
    have hsafe := hs.safe_setup hinv hkilled hpc
    simpa only [SafeExit, hpc] using hsafe
  | testCur c =>
    have hend := hs.atEnd hinv hkilled hpc
    simpa only [SafeExit, hpc] using hend
  | testSize c cur =>
    simp only [SafeExit, hpc]
    refine or_iff_not_imp_left.mpr fun hlt ↦ ?_
    have h := step_status hkilled (.round hpc (not_le.mp hlt))
    exact (hs.step h).safe_body (hinv.step h) hkilled rfl
  | body c =>
    have hsafe := hs.safe_body hinv hkilled hpc
    simpa only [SafeExit, hpc] using hsafe
  | finish | exited => simp only [SafeExit, hpc]

/-- **Once `copy_file` is over the joins return exactly after a safe exit.** -/
theorem settles_iff_safeExit (hinv : s.Inv) (hend : s.copy.Ended) (hkilled : s.killed = false) :
    s.Settles ↔ s.SafeExit :=
  ⟨fun hs ↦ hs.safeExit hinv hkilled, fun hsafe ↦ Closing.settles ⟨hinv, hend, hkilled, hsafe⟩⟩

/-! ## The whole run -/

/-- If this is the last step of `copy_file`, it is a safe exit. -/
def ExitSound (s : CopySystem) (e : CopyEvent) : Prop :=
  ∀ a, e = .copy a → s.copy.Exits a → s.SafeExit

theorem start_inv (d : Disk) (cfi : CopyFileInfo) : (start d cfi).Inv :=
  ⟨iff_of_true rfl rfl, by rintro ⟨⟩⟩

theorem Step.endsWithCopy_iff (hs : s.Inv) (hends : s.EndsWithCopy) (h : Step s e t) :
    t.EndsWithCopy ↔ ExitSound s e := by
  by_cases hend : s.copy.Ended
  · have hsettles := hends hend
    exact iff_of_true (fun _ ↦ hsettles.step h) fun _ _ _ ↦ hsettles.safeExit hs h.move.1
  · have ht := hs.step h
    obtain ⟨hkilled, hmove⟩ := h.move
    have hother : t.copy = s.copy → t.EndsWithCopy :=
      fun hcopy hend' ↦ absurd (hcopy ▸ hend') hend
    cases hmove with
    | status h => exact iff_of_true (hother h.frame.1) (by rintro a ⟨⟩)
    | main h => exact iff_of_true (hother h.copy_eq) (by rintro a ⟨⟩)
    | @copy a c hc =>
      have hsame : c.Ended → (SafeExit { s with copy := c } ↔ s.SafeExit) := by
        intro hend'
        simp only [SafeExit, AtEnd, cfi_eq_of_ended hc hend']
      constructor
      · rintro hends' _ ⟨⟩ hexits
        have hend' := (ended_iff_exits hc).mpr hexits
        exact (hsame hend').mp ((hends' hend').safeExit ht hkilled)
      · intro hsound hend'
        have hsafe := hsound a rfl ((ended_iff_exits hc).mp hend')
        exact (settles_iff_safeExit ht hend' hkilled).mpr ((hsame hend').mpr hsafe)

/-- **The progress bar ends with the copy** throughout a run exactly when `copy_file` does not take
its last step but for a safe exit. -/
theorem endsWithCopy_iff_exitSound (d : Disk) (cfi : CopyFileInfo) (es : List CopyEvent)
    (t : CopySystem) : (start d cfi).EndsWithCopy
      ∧ (Run (fun s e t ↦ Step s e t ∧ t.EndsWithCopy) (start d cfi) es t
        ↔ Run (fun s e t ↦ Step s e t ∧ ExitSound s e) (start d cfi) es t) := by
  have hstart : (start d cfi).EndsWithCopy := by
    rintro ⟨b, hb⟩
    cases hb
  refine ⟨hstart, Run.always_iff_sound (I := Inv) ?_ ?_ (start_inv d cfi) hstart⟩
  · exact fun _ _ _ hs h ↦ hs.step h
  · exact fun _ _ _ hs hends h ↦ h.endsWithCopy_iff hs hends

/-- **A source that cannot be opened.** `cur_size` and the size are what `malloc` left there, and
the bar never ends. -/
theorem open_fails_not_endsWithCopy : ¬∀ (d : Disk) (cfi : CopyFileInfo) (es : List CopyEvent)
    (t : CopySystem), Run Step (start d cfi) es t → t.EndsWithCopy := by
  intro hall
  have h : Step (start linkedDisk ⟨[99], [100], 0, 1, 40⟩) (.copy .fails)
      ⟨⟨linkedDisk, ⟨[99], [100], 0, 1, 40⟩, .exited false⟩, .unborn, .creates, false⟩ := rfl
  have hsettles := hall _ _ _ _ (Run.single h) ⟨false, rfl⟩
  have hle : (1 : ℤ) ≤ 0 := (hsettles.safeExit ((start_inv _ _).step h) rfl).1
  exact absurd hle (by decide)

end CopySystem

end FileManager

end AllProjects
