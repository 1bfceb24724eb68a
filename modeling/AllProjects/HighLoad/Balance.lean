import AllProjects.HighLoad.Server

/-!
# Every request is answered once

A datagram that the server has taken is somewhere: in the hands of the main thread, in the queue, in
the hands of a worker, in the queue again, in the hands of the main thread again, or sent. The
address of its client goes with it unchanged, and each step moves one message to the next place. So
for every client the messages in these places add up to the datagrams that came from it.

An `exit` datagram is not a request: the server drops it and ends.
-/

namespace AllProjects

namespace HighLoad

variable {ι : Type} {cap : ℕ∞} {a : SockaddrIn}

/-! ## The places -/

/-- A message for `a`. -/
def ReqsReplMsg.weight (a : SockaddrIn) (m : ReqsReplMsg) : ℕ := if m.clnAddr = a then 1 else 0

/-- What the main thread holds for `a`. -/
def SrvReqsHndl.heldFor (a : SockaddrIn) : SrvReqsHndl → ℕ
  | .msgsnd m | .sendto m => m.weight a
  | _ => 0

/-- What a worker holds for `a`. -/
def ClnReplHndl.heldFor (a : SockaddrIn) : ClnReplHndl → ℕ
  | .getCurDt m | .msgsnd m => m.weight a
  | .msgrcv => 0

namespace State

variable (s : State ι)

/-- The messages of a type for `a` in the queue. -/
def queuedFor (msgType : ℕ) (a : SockaddrIn) : ℕ :=
  s.queue.countP fun m ↦ m.msgType = msgType ∧ m.clnAddr = a

/-- The datagrams that came from `a`, other than `exit`. -/
def receivedFrom (a : SockaddrIn) : ℕ :=
  s.received.countP fun d ↦ d.clnAddr = a ∧ ¬d.IsExit

/-- The replies that were sent to `a`. -/
def sentTo (a : SockaddrIn) : ℕ := s.sent.countP fun p ↦ p.1 = a

/-- The datagrams from `a` are accounted for. -/
def Balanced [Fintype ι] (a : SockaddrIn) : Prop :=
  s.receivedFrom a = s.queuedFor reqsMsgType a + (∑ w, (s.workers w).heldFor a)
    + s.queuedFor replMsgType a + s.main.heldFor a + s.sentTo a

/-- Only the main thread puts requests into the queue, and only the workers replies. -/
structure Typed : Prop where
  main : ∀ m, s.main = .msgsnd m → m.msgType = reqsMsgType
  worker : ∀ w m, s.workers w = .msgsnd m → m.msgType = replMsgType

end State

/-! ## Messages in the queue -/

theorem countP_cons_type {q : Multiset ReqsReplMsg} {m : ReqsReplMsg} (msgType : ℕ) :
    (m ::ₘ q).countP (fun m ↦ m.msgType = msgType ∧ m.clnAddr = a)
      = q.countP (fun m ↦ m.msgType = msgType ∧ m.clnAddr = a)
        + if m.msgType = msgType then m.weight a else 0 := by
  rw [Multiset.countP_cons, ReqsReplMsg.weight, ite_and]

theorem countP_erase_type {q : Multiset ReqsReplMsg} {m : ReqsReplMsg} (hm : m ∈ q) (msgType : ℕ) :
    q.countP (fun m ↦ m.msgType = msgType ∧ m.clnAddr = a)
      = (q.erase m).countP (fun m ↦ m.msgType = msgType ∧ m.clnAddr = a)
        + if m.msgType = msgType then m.weight a else 0 := by
  rw [← countP_cons_type, Multiset.cons_erase hm]

/-! ## One step -/

variable [DecidableEq ι] {s t : State ι} {e : Event ι}

theorem Move.typed (h : Move cap s e t) (hs : s.Typed) : t.Typed := by
  have hmove : ∀ {w : ι} {x : ClnReplHndl}, (∀ m, x = .msgsnd m → m.msgType = replMsgType) →
      ∀ w' m, Function.update s.workers w x w' = .msgsnd m → m.msgType = replMsgType := by
    intro w x hx w' m hm
    by_cases hw : w' = w
    · rw [hw, Function.update_self] at hm
      exact hx m hm
    · rw [Function.update_of_ne hw] at hm
      exact hs.worker w' m hm
  cases h with
  | eagain hmain => exact ⟨fun m hm ↦ (by cases hm), hs.worker⟩
  | exit hmain hd => exact ⟨fun m hm ↦ (by cases hm), hs.worker⟩
  | recvfrom hmain hd => exact ⟨fun m hm ↦ (by cases hm; rfl), hs.worker⟩
  | msgsndRequest hmain hfull => exact ⟨fun m hm ↦ (by cases hm), hs.worker⟩
  | enomsg hmain hnone => exact ⟨fun m hm ↦ (by cases hm), hs.worker⟩
  | msgrcvReply hmain hm htype => exact ⟨fun m hm ↦ (by cases hm), hs.worker⟩
  | sendto hmain => exact ⟨fun m hm ↦ (by cases hm), hs.worker⟩
  | msgrcvRequest hexit hw hm htype => exact ⟨hs.main, hmove fun m hm ↦ (by cases hm)⟩
  | getCurDt hexit hw => exact ⟨hs.main, hmove fun m hm ↦ (by cases hm; rfl)⟩
  | msgsndReply hexit hw hfull => exact ⟨hs.main, hmove fun m hm ↦ (by cases hm)⟩

omit [DecidableEq ι] in
theorem typed_initial : (State.initial : State ι).Typed :=
  ⟨fun m hm ↦ (by cases hm), fun w m hm ↦ (by cases hm)⟩

section Balance

variable [Fintype ι]

/-- **One step moves one message.** -/
theorem Move.balanced (h : Move cap s e t) (hs : s.Typed) (hbal : s.Balanced a) : t.Balanced a := by
  have hworkers := fun w x ↦ sum_threads_update (fun _ ↦ ClnReplHndl.heldFor a) s.workers w x
  rw [State.Balanced, State.receivedFrom, State.sentTo, State.queuedFor, State.queuedFor] at *
  have hne : reqsMsgType ≠ replMsgType := by decide
  cases h with
  | eagain hmain | enomsg hmain =>
    rw [hmain] at hbal
    exact hbal
  | exit hmain hd =>
    rw [hmain] at hbal
    rw [List.countP_append, List.countP_singleton, if_neg (by simp [hd])]
    exact hbal
  | @recvfrom d hmain hd =>
    have hcount : (if decide (d.clnAddr = a ∧ ¬d.IsExit) = true then 1 else 0)
        = d.request.weight a := by
      by_cases ha : d.clnAddr = a <;> simp [ReqsReplMsg.weight, Datagram.request, ha, hd]
    rw [hmain] at hbal
    rw [List.countP_append, List.countP_singleton, hbal, hcount]
    simp only [SrvReqsHndl.heldFor]
    omega
  | @msgsndRequest m hmain hfull =>
    have htype := hs.main m hmain
    rw [hmain] at hbal
    rw [hbal, countP_cons_type, countP_cons_type, htype, if_pos rfl, if_neg hne]
    simp only [SrvReqsHndl.heldFor]
    omega
  | @msgrcvReply m hmain hm htype =>
    rw [hmain, countP_erase_type hm, countP_erase_type hm replMsgType, htype, if_pos rfl,
      if_neg hne.symm] at hbal
    rw [hbal]
    simp only [SrvReqsHndl.heldFor]
    omega
  | @sendto m hmain =>
    rw [hmain] at hbal
    rw [hbal, List.countP_append, List.countP_singleton]
    simp only [SrvReqsHndl.heldFor, ReqsReplMsg.weight, decide_eq_true_eq]
    omega
  | @msgrcvRequest w m hexit hw hm htype =>
    have hmoved := hworkers w (.getCurDt m)
    rw [countP_erase_type hm, countP_erase_type hm replMsgType, htype, if_pos rfl,
      if_neg hne] at hbal
    rw [hw] at hmoved
    simp only [ClnReplHndl.heldFor] at hmoved hbal ⊢
    omega
  -- an answer goes to the address that the request came from
  | @getCurDt w m curDt hexit hw =>
    have hmoved := hworkers w (.msgsnd (m.answer curDt))
    rw [hw] at hmoved
    have hsame : (m.answer curDt).weight a = m.weight a := rfl
    simp only [ClnReplHndl.heldFor, hsame] at hmoved hbal ⊢
    omega
  | @msgsndReply w m hexit hw hfull =>
    have htype := hs.worker w m hw
    have hmoved := hworkers w .msgrcv
    rw [countP_cons_type, countP_cons_type, htype, if_pos rfl, if_neg hne.symm]
    rw [hw] at hmoved
    simp only [ClnReplHndl.heldFor] at hmoved hbal ⊢
    omega

/-! ## Runs -/

omit [DecidableEq ι] in
theorem balanced_initial (a : SockaddrIn) : (State.initial : State ι).Balanced a := by
  have hzero : ∀ w : ι, ((State.initial : State ι).workers w).heldFor a = 0 := fun _ ↦ rfl
  rw [State.Balanced, Finset.sum_eq_zero fun w _ ↦ hzero w]
  rfl

/-- **The requests balance.** At every point of every run, with any number of workers and any queue,
the datagrams from `a` are the requests and the replies for `a` in the queue, those that the workers
and the main thread hold, and the replies sent to `a`. -/
theorem requests_balance (cap : ℕ∞) {es : List (Event ι)} {s : State ι}
    (hrun : Run (Step cap) State.initial es s) (a : SockaddrIn) :
    s.receivedFrom a = s.queuedFor reqsMsgType a + (∑ w, (s.workers w).heldFor a)
      + s.queuedFor replMsgType a + s.main.heldFor a + s.sentTo a := by
  have hinv : s.Typed ∧ s.Balanced a := by
    refine hrun.invariant (I := fun s ↦ s.Typed ∧ s.Balanced a) ?_
      ⟨typed_initial, balanced_initial a⟩
    intro s e t hs h
    rw [step_iff_move] at h
    exact ⟨h.typed hs.1, h.balanced hs.1 hs.2⟩
  exact hinv.2

end Balance

/-- A datagram with the text `hi`. -/
def hello (port : UInt16) : Datagram := ⟨⟨0x0100007f, port⟩, [104, 105]⟩

theorem requests_balance_two :
    ∃ s : State (Fin 2), Run (Step 1) State.initial [.recvfrom (some (hello 4000)), .msgsndRequest,
        .msgrcvRequest 0 (hello 4000).request, .getCurDt 0 [91, 93], .msgrcvReply none,
        .recvfrom (some (hello 4001)), .msgsndReply 0] s ∧
      s.receivedFrom (hello 4000).clnAddr = s.queuedFor reqsMsgType (hello 4000).clnAddr
        + (∑ w, (s.workers w).heldFor (hello 4000).clnAddr)
        + s.queuedFor replMsgType (hello 4000).clnAddr + s.main.heldFor (hello 4000).clnAddr
        + s.sentTo (hello 4000).clnAddr := by
  have hsome : (List.foldlM (exec 1) (State.initial : State (Fin 2)) [.recvfrom (some (hello 4000)),
      .msgsndRequest, .msgrcvRequest 0 (hello 4000).request, .getCurDt 0 [91, 93],
      .msgrcvReply none, .recvfrom (some (hello 4001)), .msgsndReply 0]).isSome = true := by
    decide
  obtain ⟨s, -, hrun⟩ := exists_run_of_isSome (exec 1) hsome
  exact ⟨s, hrun, requests_balance 1 hrun _⟩

end HighLoad

end AllProjects
