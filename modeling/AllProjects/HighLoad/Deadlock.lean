import AllProjects.HighLoad.Balance

/-!
# When the server stops for good

The main thread does not wait anywhere but in one place: the socket does not block, `msgrcv` has
`IPC_NOWAIT`, but the `msgsnd` of a request waits for room in the queue. Room comes from workers
that take requests and from the main thread itself, which alone takes replies. If every worker waits
for room as well, nobody ever makes any.

All that decides about this is how many requests are unanswered. A queue for `cap` messages and the
workers hold one message each, and the main thread one more. As long as the server takes no datagram
when that many requests are out, somebody can move. If it takes one more, the deadlock is certain:
the workers need no further message to walk into it.
-/

namespace AllProjects

namespace HighLoad

variable {ι : Type} {s t : State ι} {e : Event ι}

/-! ## Deadlock -/

/-- The main thread waits for room for a request, and every worker for room for a reply. -/
def State.Deadlocked (cap : ℕ∞) (s : State ι) : Prop :=
  s.Full cap ∧ (∃ m, s.main = .msgsnd m) ∧ ∀ w, ∃ m, s.workers w = .msgsnd m

/-- The requests that were taken and not answered. -/
def State.unanswered (s : State ι) : ℕ := s.received.countP (fun d ↦ ¬d.IsExit) - s.sent.length

/-- A datagram is taken only when the queue and the workers can hold the unanswered requests, this
one included. -/
def Unpressed [Fintype ι] (cap : ℕ) (s : State ι) : Event ι → Prop
  | .recvfrom (some d) => ¬d.IsExit → s.unanswered < cap + Fintype.card ι
  | _ => True

/-! ## Occupancy -/

/-- How many messages a worker holds. -/
def ClnReplHndl.held : ClnReplHndl → ℕ
  | .msgrcv => 0
  | _ => 1

/-- How many messages the main thread holds. -/
def SrvReqsHndl.held : SrvReqsHndl → ℕ
  | .msgsnd _ | .sendto _ => 1
  | _ => 0

theorem ClnReplHndl.held_le (x : ClnReplHndl) : x.held ≤ 1 := by
  cases x with
  | msgrcv => exact Nat.zero_le 1
  | getCurDt m | msgsnd m => exact le_rfl

theorem SrvReqsHndl.held_of_msgsnd {x : SrvReqsHndl} (h : ∃ m, x = .msgsnd m) : x.held = 1 := by
  obtain ⟨m, rfl⟩ := h
  rfl

variable [Fintype ι]

/-- The messages that are somewhere in the server. -/
def State.pending (s : State ι) : ℕ :=
  s.queue.card + (∑ w, (s.workers w).held) + s.main.held

theorem sum_held_le (s : State ι) : ∑ w, (s.workers w).held ≤ Fintype.card ι := by
  have hle := Finset.sum_le_card_nsmul Finset.univ (fun w ↦ (s.workers w).held) 1
    fun w _ ↦ (s.workers w).held_le
  rwa [smul_eq_mul, mul_one, Finset.card_univ] at hle

theorem pending_update [DecidableEq ι] (s : State ι) (w : ι) (x : ClnReplHndl)
    (q : Multiset ReqsReplMsg) :
    ({ s with queue := q, workers := Function.update s.workers w x } : State ι).pending
      + (s.workers w).held + s.queue.card = s.pending + x.held + q.card := by
  have hsum := sum_threads_update (fun _ ↦ ClnReplHndl.held) s.workers w x
  simp only [State.pending]
  omega

/-- Workers that hold as much as they can hold one message each. -/
theorem held_of_sum (s : State ι) (h : Fintype.card ι ≤ ∑ w, (s.workers w).held) (w : ι) :
    (s.workers w).held = 1 := by
  by_contra hne
  have hlt : ∑ w, (s.workers w).held < ∑ _w : ι, 1 :=
    Finset.sum_lt_sum (fun w _ ↦ (s.workers w).held_le)
      ⟨w, Finset.mem_univ w, lt_of_le_of_ne (s.workers w).held_le hne⟩
  rw [Finset.sum_const, Finset.card_univ, smul_eq_mul, mul_one] at hlt
  exact absurd hlt (not_lt.mpr h)

/-- In a deadlock everything that can hold a message holds one. -/
theorem State.Deadlocked.le_pending {cap : ℕ} (h : s.Deadlocked cap) :
    cap + Fintype.card ι + 1 ≤ s.pending := by
  obtain ⟨hfull, hmain, hworkers⟩ := h
  have hqueue : cap ≤ s.queue.card := Nat.cast_le.mp hfull
  have hsum : ∑ w, (s.workers w).held = Fintype.card ι := by
    rw [Fintype.card_eq_sum_ones]
    apply Finset.sum_congr rfl
    intro w _
    obtain ⟨m, hm⟩ := hworkers w
    rw [hm]
    rfl
  rw [State.pending, SrvReqsHndl.held_of_msgsnd hmain, hsum]
  omega

/-! ## One step -/

/-- The messages in the server are the unanswered requests, the queue keeps to its capacity, and the
server holds one message more than the queue and the workers can only while the main thread waits
with a request. -/
structure Occupancy (cap : ℕ) (s : State ι) : Prop where
  counted : s.received.countP (fun d ↦ ¬d.IsExit) = s.pending + s.sent.length
  fits : s.queue.card ≤ cap
  spare : (∀ m, s.main ≠ .msgsnd m) → s.pending ≤ cap + Fintype.card ι

theorem Occupancy.unanswered {cap : ℕ} (h : Occupancy cap s) : s.unanswered = s.pending := by
  rw [State.unanswered, h.counted, Nat.add_sub_cancel]

variable [DecidableEq ι]

theorem Occupancy.worker {cap : ℕ} (hs : Occupancy cap s) {w : ι} {x : ClnReplHndl}
    {q : Multiset ReqsReplMsg} (hfits : q.card ≤ cap)
    (hkept : x.held + q.card = (s.workers w).held + s.queue.card) :
    Occupancy cap { s with queue := q, workers := Function.update s.workers w x } := by
  have hmoved := pending_update s w x q
  have hpending : ({ s with queue := q, workers := Function.update s.workers w x } :
      State ι).pending = s.pending := by
    omega
  refine ⟨?_, hfits, ?_⟩
  · rw [hpending]
    exact hs.counted
  · intro hother
    rw [hpending]
    exact hs.spare hother

theorem Occupancy.move {cap : ℕ} (hs : Occupancy cap s) (h : Move cap s e t) :
    Occupancy cap t := by
  have hroom : ¬s.Full cap → s.queue.card < cap := fun hfull ↦
    Nat.cast_lt.mp (lt_of_not_ge hfull)
  have hsum := sum_held_le s
  have hcounted := hs.counted
  have hspare := hs.spare
  rw [State.pending] at hcounted hspare
  cases h with
  | eagain hmain | enomsg hmain =>
    rw [hmain] at hcounted hspare
    exact ⟨hcounted, hs.fits, fun _ ↦ hspare fun m hm ↦ (by cases hm)⟩
  | exit hmain hd =>
    rw [hmain] at hcounted hspare
    refine ⟨?_, hs.fits, fun _ ↦ hspare fun m hm ↦ (by cases hm)⟩
    rw [List.countP_append, List.countP_singleton, if_neg (by simpa using hd)]
    exact hcounted
  -- the main thread now holds the message that it is about to put into the queue
  | recvfrom hmain hd =>
    rw [hmain] at hcounted
    refine ⟨?_, hs.fits, fun hother ↦ absurd rfl (hother _)⟩
    rw [List.countP_append, List.countP_singleton, if_pos (by simpa using hd), hcounted,
      State.pending]
    simp only [SrvReqsHndl.held]
    omega
  | msgsndRequest hmain hfull =>
    have hlt := hroom hfull
    rw [hmain] at hcounted
    simp only [SrvReqsHndl.held] at hcounted
    refine ⟨?_, ?_, fun _ ↦ ?_⟩
    all_goals simp only [State.pending, SrvReqsHndl.held, Multiset.card_cons]
    all_goals omega
  | msgrcvReply hmain hm htype =>
    have hcard := Multiset.card_erase_add_one hm
    have hfits := hs.fits
    rw [hmain] at hcounted hspare
    have hle := hspare fun m hm ↦ (by cases hm)
    simp only [SrvReqsHndl.held] at hcounted hle
    refine ⟨?_, ?_, fun _ ↦ ?_⟩
    all_goals simp only [State.pending, SrvReqsHndl.held]
    all_goals omega
  | sendto hmain =>
    rw [hmain] at hcounted hspare
    have hle := hspare fun m hm ↦ (by cases hm)
    simp only [SrvReqsHndl.held] at hcounted hle
    refine ⟨?_, hs.fits, fun _ ↦ ?_⟩
    · rw [hcounted, State.pending, List.length_append]
      simp only [SrvReqsHndl.held, List.length_singleton]
      omega
    · simp only [State.pending, SrvReqsHndl.held]
      omega
  -- what a worker takes from the queue it holds until it answers
  | msgrcvRequest hexit hw hm htype =>
    have hcard := Multiset.card_erase_add_one hm
    have hfits := hs.fits
    refine hs.worker (by omega) ?_
    rw [hw, ← hcard]
    simp only [ClnReplHndl.held]
    omega
  | getCurDt hexit hw =>
    refine hs.worker hs.fits ?_
    rw [hw]
    rfl
  | msgsndReply hexit hw hfull =>
    have hlt := hroom hfull
    rw [← Nat.succ_le_iff] at hlt
    refine hs.worker (by rwa [Multiset.card_cons]) ?_
    rw [hw, Multiset.card_cons]
    simp only [ClnReplHndl.held]
    omega

omit [DecidableEq ι] in
theorem occupancy_initial (cap : ℕ) : Occupancy cap (State.initial : State ι) := by
  have hzero : (State.initial : State ι).pending = 0 := by
    have hsum : ∑ w, ((State.initial : State ι).workers w).held = 0 :=
      Finset.sum_eq_zero fun w _ ↦ rfl
    rw [State.pending, hsum]
    rfl
  refine ⟨?_, Nat.zero_le _, fun _ ↦ ?_⟩
  · rw [hzero]
    rfl
  · rw [hzero]
    exact Nat.zero_le _

theorem occupancy_of_run {cap : ℕ} {es : List (Event ι)}
    (hrun : Run (Step cap) State.initial es s) : Occupancy cap s :=
  hrun.invariant (fun _ _ _ hs h ↦ hs.move (step_iff_move.mp h)) (occupancy_initial cap)

/-! ## Runs -/

omit [Fintype ι] in
theorem Move.requests {cap : ℕ∞} (h : Move cap s e t) :
    s.sent.length ≤ t.sent.length ∧
      (t.received.countP (fun d ↦ ¬d.IsExit) = s.received.countP (fun d ↦ ¬d.IsExit) ∨
        ∃ d, e = .recvfrom (some d) ∧ ¬d.IsExit ∧
          t.received.countP (fun d ↦ ¬d.IsExit) = s.received.countP (fun d ↦ ¬d.IsExit) + 1) := by
  cases h with
  | @exit d hmain hd =>
    refine ⟨le_rfl, Or.inl ?_⟩
    rw [List.countP_append, List.countP_singleton, if_neg (by simpa using hd), Nat.add_zero]
  | @recvfrom d hmain hd =>
    refine ⟨le_rfl, Or.inr ⟨d, rfl, hd, ?_⟩⟩
    rw [List.countP_append, List.countP_singleton, if_pos (by simpa using hd)]
  | sendto hmain =>
    refine ⟨?_, Or.inl rfl⟩
    rw [List.length_append]
    exact Nat.le_add_right _ _
  | _ => exact ⟨le_rfl, Or.inl rfl⟩

/-- **No deadlock without overload.** In a run in which the server takes a datagram only when fewer
requests are unanswered than the queue and the workers can hold, it never deadlocks. -/
theorem not_deadlocked (cap : ℕ) {es : List (Event ι)}
    (hrun : Run (fun s e t ↦ Step cap s e t ∧ Unpressed cap s e) State.initial es s) :
    ¬s.Deadlocked cap := by
  have hinv : Occupancy cap s ∧ s.pending ≤ cap + Fintype.card ι := by
    refine hrun.invariant
      (I := fun s ↦ Occupancy cap s ∧ s.pending ≤ cap + Fintype.card ι) ?_
      ⟨occupancy_initial cap, (occupancy_initial cap).spare fun m hm ↦ (by cases hm)⟩
    intro s e t hs h
    obtain ⟨hocc, hle⟩ := hs
    have hmove := step_iff_move.mp h.1
    have hocc' := hocc.move hmove
    have hcounted := hocc.counted
    have hcounted' := hocc'.counted
    obtain ⟨hsent, hsame | ⟨d, rfl, hd, hone⟩⟩ := hmove.requests
    · exact ⟨hocc', by omega⟩
    · have hlt : s.unanswered < cap + Fintype.card ι := h.2 hd
      rw [hocc.unanswered] at hlt
      exact ⟨hocc', by omega⟩
  intro hdead
  have hfull := hdead.le_pending
  omega

omit [Fintype ι] in
/-- Every worker that works on a request gets to where it waits, whatever the others do. -/
theorem exists_run_getCurDt {cap : ℕ∞} (hexit : s.main ≠ .exited)
    (hheld : ∀ w, (s.workers w).held = 1) (ws : Finset ι) :
    ∃ es t, (∀ e ∈ es, ∃ w curDt, e = .getCurDt w curDt) ∧ Run (Step cap) s es t ∧
      t.queue = s.queue ∧ t.main = s.main ∧ (∀ w, (t.workers w).held = 1) ∧
      ∀ w ∈ ws, ∃ m, t.workers w = .msgsnd m := by
  induction ws using Finset.induction_on with
  | empty =>
    exact ⟨[], s, fun e he ↦ absurd he List.not_mem_nil, Run.nil s, rfl, rfl, hheld,
      fun w hw ↦ absurd hw (Finset.notMem_empty w)⟩
  | insert w ws hw ih =>
    obtain ⟨es, t, hes, hrun, hqueue, hmain, hheld', hws⟩ := ih
    cases hworker : t.workers w with
    | msgrcv =>
      have hone := hheld' w
      rw [hworker] at hone
      exact absurd hone Nat.zero_ne_one
    | msgsnd m =>
      refine ⟨es, t, hes, hrun, hqueue, hmain, hheld', ?_⟩
      intro w' hw'
      rcases Finset.mem_insert.mp hw' with rfl | hw'
      · exact ⟨m, hworker⟩
      · exact hws w' hw'
    | getCurDt m =>
      have hstep : Step cap t (.getCurDt w []) _ :=
        step_iff_move.mpr (.getCurDt (hmain ▸ hexit) hworker)
      refine ⟨es ++ [.getCurDt w []],
        { t with workers := Function.update t.workers w (.msgsnd (m.answer [])) },
        ?_, hrun.snoc hstep, hqueue, hmain, ?_, ?_⟩
      · intro e he
        rcases List.mem_append.mp he with he | he
        · exact hes e he
        · exact ⟨w, [], List.mem_singleton.mp he⟩
      · intro w'
        by_cases heq : w' = w
        · rw [heq]
          simp only [Function.update_self]
          rfl
        · simp only [Function.update_of_ne heq]
          exact hheld' w'
      · intro w' hw'
        by_cases heq : w' = w
        · rw [heq]
          exact ⟨_, Function.update_self _ _ _⟩
        · simp only [Function.update_of_ne heq]
          exact hws w' ((Finset.mem_insert.mp hw').resolve_left heq)

/-- **Overload is deadlock.** Once more requests are unanswered than the queue and the workers can
hold, the workers get stuck without any further message. -/
theorem deadlocked_of_unanswered {cap : ℕ} {es : List (Event ι)}
    (hrun : Run (Step cap) State.initial es s) (h : cap + Fintype.card ι < s.unanswered) :
    ∃ es' t, (∀ e ∈ es', ∃ w curDt, e = .getCurDt w curDt) ∧ Run (Step cap) s es' t ∧
      t.Deadlocked cap := by
  have hocc := occupancy_of_run hrun
  have hfits := hocc.fits
  have hsum := sum_held_le s
  rw [hocc.unanswered] at h
  -- the one message too many is with the main thread
  have hmain : ∃ m, s.main = .msgsnd m := by
    by_contra hnone
    have hle := hocc.spare fun m hm ↦ hnone ⟨m, hm⟩
    omega
  rw [State.pending, SrvReqsHndl.held_of_msgsnd hmain] at h
  have hexit : s.main ≠ .exited := by
    obtain ⟨m, hm⟩ := hmain
    rw [hm]
    exact SrvReqsHndl.noConfusion
  obtain ⟨es', t, hes', hrun', hqueue, hmain', -, hworkers⟩ :=
    exists_run_getCurDt hexit (held_of_sum s (by omega)) Finset.univ
  refine ⟨es', t, hes', hrun', ?_, by rw [hmain']; exact hmain,
    fun w ↦ hworkers w (Finset.mem_univ w)⟩
  rw [State.Full, hqueue, Nat.cast_le]
  omega

theorem not_deadlocked_two :
    ∃ s : State (Fin 1), Run (fun s e t ↦ Step (1 : ℕ) s e t ∧ Unpressed 1 s e) State.initial
      [.recvfrom (some (hello 4000)), .msgsndRequest] s ∧ ¬s.Deadlocked (1 : ℕ) := by
  have hrun : Run (fun s e t ↦ Step (1 : ℕ) s e t ∧ Unpressed 1 s e) (State.initial : State (Fin 1))
      [.recvfrom (some (hello 4000)), .msgsndRequest] _ :=
    Run.cons ⟨step_iff_move.mpr (.recvfrom rfl (by decide)), fun _ ↦ by decide⟩
      (Run.single ⟨step_iff_move.mpr (.msgsndRequest rfl (by decide)), trivial⟩)
  exact ⟨_, hrun, not_deadlocked 1 hrun⟩

/-- One worker and room for one message: the third request is one too many. -/
theorem deadlocked_three :
    ∃ s : State (Fin 1), Run (Step 1) State.initial [.recvfrom (some (hello 4000)), .msgsndRequest,
      .msgrcvRequest 0 (hello 4000).request, .msgrcvReply none, .recvfrom (some (hello 4001)),
      .msgsndRequest, .msgrcvReply none, .recvfrom (some (hello 4002)),
      .getCurDt 0 [91, 93]] s ∧ s.Deadlocked 1 := by
  refine ⟨_, run_of_foldlM (g := exec 1) rfl, ?_, ⟨_, rfl⟩,
    fun w ↦ ⟨(hello 4000).request.answer [91, 93], ?_⟩⟩
  · decide
  · rw [Subsingleton.elim w 0]
    rfl

end HighLoad

end AllProjects
