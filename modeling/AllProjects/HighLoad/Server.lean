import AllProjects.Memory.CString
import AllProjects.Transition.Run

/-!
# The high-load UDP server

One thread, `srv_reqs_hndl`, talks to the network and never to a worker directly. It turns a
datagram into a request and puts it into a message queue; a worker, `cln_repl_hndl`, takes a request
out, turns it into a reply and puts it back; the first thread takes the reply out and sends it. Both
directions use the one queue, and only the type of a message tells a request from a reply.

The queue is a bag: a receiver gets some message of the type it asks for. It holds up to a given
number of messages, which may be infinite. A call that would block is a step that cannot be taken.
Every step is one system call, and calls other than the two that the server expects to fail, a
`recvfrom` without a datagram and a `msgrcv` without a reply, succeed.

`received` and `sent` are histories that no step reads.
-/

namespace AllProjects

namespace HighLoad

/-! ## Messages -/

/-- `REQS_MSG_TYPE`. -/
def reqsMsgType : ℕ := 1

/-- `REPL_MSG_TYPE`. -/
def replMsgType : ℕ := 2

/-- `MAX_REQS_MSG_SIZE`. -/
def maxReqsMsgSize : ℕ := 64

/-- `MAX_REPL_MSG_SIZE`. -/
def maxReplMsgSize : ℕ := 128

/-- `sizeof(struct sockaddr_in)`. -/
def sizeofSockaddrIn : ℕ := 16

/-- The address of a client. -/
structure SockaddrIn where
  sinAddr : UInt32
  sinPort : UInt16
  deriving DecidableEq

/-- `REQS_REPL_MSG`. -/
structure ReqsReplMsg where
  msgType : ℕ
  clnAddr : SockaddrIn
  socketLen : ℕ
  request : List UInt8
  reply : List UInt8
  deriving DecidableEq

/-- A datagram and where it comes from. -/
structure Datagram where
  clnAddr : SockaddrIn
  bytes : List UInt8
  deriving DecidableEq

namespace Datagram

variable (d : Datagram)

/-- The number of bytes that `recvfrom` returns. -/
def bts : ℕ := min d.bytes.length maxReqsMsgSize

/-- The cleared buffer `msg` after `recvfrom`. -/
def msg : List UInt8 :=
  d.bytes.take maxReqsMsgSize ++ List.replicate (maxReqsMsgSize - d.bytes.length) 0

/-- The datagram tells the server to end. -/
def IsExit : Prop := strcmp d.msg [101, 120, 105, 116, 0] = .ok 0

instance : Decidable d.IsExit := inferInstanceAs (Decidable (strcmp _ _ = _))

/-- The request that `srv_reqs_hndl` builds. -/
def request : ReqsReplMsg where
  msgType := reqsMsgType
  clnAddr := d.clnAddr
  socketLen := sizeofSockaddrIn
  request := strncpyBuf d.bts d.msg ++ List.replicate (maxReqsMsgSize - d.bts) 0
  reply := List.replicate maxReplMsgSize 0

theorem length_msg : d.msg.length = maxReqsMsgSize := by
  rw [msg, List.length_append, List.length_take, List.length_replicate]
  omega

/-- The `strncpy` of the request stays inside `msg`. -/
theorem strncpy_msg : strncpy d.bts d.msg = .ok (strncpyBuf d.bts d.msg) :=
  strncpy_eq_strncpyBuf (by rw [length_msg]; exact Nat.min_le_right _ _)

end Datagram

/-- What a worker makes of a request, with the date that `get_cur_dt` returns. -/
def ReqsReplMsg.answer (m : ReqsReplMsg) (curDt : List UInt8) : ReqsReplMsg :=
  { m with reply := strncpyBuf maxReplMsgSize curDt, msgType := replMsgType }

/-! ## Threads -/

/-- Where `srv_reqs_hndl` is, by the system call that comes next. -/
inductive SrvReqsHndl
  | recvfrom
  | msgsnd (reqsMsg : ReqsReplMsg)
  | msgrcv
  | sendto (replMsg : ReqsReplMsg)
  | exited
  deriving DecidableEq

/-- Where a `cln_repl_hndl` is. -/
inductive ClnReplHndl
  | msgrcv
  | getCurDt (reqsReplMsg : ReqsReplMsg)
  | msgsnd (reqsReplMsg : ReqsReplMsg)
  deriving DecidableEq

/-- The server. -/
structure State (ι : Type) where
  queue : Multiset ReqsReplMsg
  main : SrvReqsHndl
  workers : ι → ClnReplHndl
  received : List Datagram
  sent : List (SockaddrIn × List UInt8)

/-- A call with its outcome: the datagram that was there, if any; the message that was taken. -/
inductive Event (ι : Type)
  | recvfrom (d : Option Datagram)
  | msgsndRequest
  | msgrcvReply (m : Option ReqsReplMsg)
  | sendto
  | msgrcvRequest (w : ι) (m : ReqsReplMsg)
  | getCurDt (w : ι) (curDt : List UInt8)
  | msgsndReply (w : ι)

section

variable {ι : Type}

/-- After `init_queue`, with the workers started. -/
def State.initial : State ι := ⟨0, .recvfrom, fun _ ↦ .msgrcv, [], []⟩

/-- `msgsnd` blocks while the queue is full. -/
def State.Full (cap : ℕ∞) (s : State ι) : Prop := cap ≤ s.queue.card

instance (cap : ℕ∞) (s : State ι) : Decidable (s.Full cap) := inferInstanceAs (Decidable (_ ≤ _))

/-- The calls of `srv_reqs_hndl`. -/
def execMain (cap : ℕ∞) (s : State ι) : Event ι → Option (State ι)
  | .recvfrom d =>
    match s.main, d with
    | .recvfrom, none => some { s with main := .msgrcv }
    | .recvfrom, some d =>
      if d.IsExit then some { s with main := .exited, received := s.received ++ [d] }
      else some { s with main := .msgsnd d.request, received := s.received ++ [d] }
    | _, _ => none
  | .msgsndRequest =>
    match s.main with
    | .msgsnd m =>
      if s.Full cap then none else some { s with queue := m ::ₘ s.queue, main := .msgrcv }
    | _ => none
  | .msgrcvReply m =>
    match s.main, m with
    | .msgrcv, none =>
      -- `IPC_NOWAIT`: the call comes back when there is no reply
      if s.queue.countP (fun m ↦ m.msgType = replMsgType) = 0 then
        some { s with main := .recvfrom }
      else none
    | .msgrcv, some m =>
      if m ∈ s.queue ∧ m.msgType = replMsgType then
        some { s with queue := s.queue.erase m, main := .sendto m }
      else none
    | _, _ => none
  | .sendto =>
    match s.main with
    | .sendto m =>
      some { s with main := .recvfrom, sent := s.sent ++ [(m.clnAddr, m.reply.takeWhile (· ≠ 0))] }
    | _ => none
  | _ => none

variable [DecidableEq ι]

/-- The calls of the `cln_repl_hndl` threads. -/
def execWorker (cap : ℕ∞) (s : State ι) : Event ι → Option (State ι)
  | .msgrcvRequest w m =>
    match s.workers w with
    | .msgrcv =>
      if m ∈ s.queue ∧ m.msgType = reqsMsgType then
        some { s with
          queue := s.queue.erase m
          workers := Function.update s.workers w (.getCurDt m) }
      else none
    | _ => none
  | .getCurDt w curDt =>
    match s.workers w with
    | .getCurDt m =>
      some { s with workers := Function.update s.workers w (.msgsnd (m.answer curDt)) }
    | _ => none
  | .msgsndReply w =>
    match s.workers w with
    | .msgsnd m =>
      if s.Full cap then none
      else some { s with queue := m ::ₘ s.queue, workers := Function.update s.workers w .msgrcv }
    | _ => none
  | _ => none

/-- One call of any thread. `exit` ends all of them. -/
def exec (cap : ℕ∞) (s : State ι) (e : Event ι) : Option (State ι) :=
  if s.main = .exited then none
  else
    match e with
    | .recvfrom _ | .msgsndRequest | .msgrcvReply _ | .sendto => execMain cap s e
    | .msgrcvRequest _ _ | .getCurDt _ _ | .msgsndReply _ => execWorker cap s e

/-- One step of the server. -/
def Step (cap : ℕ∞) (s : State ι) (e : Event ι) (t : State ι) : Prop := exec cap s e = some t

/-! ## What a step can do -/

/-- The steps of the server, one by one, with what each needs and what it changes. -/
inductive Move (cap : ℕ∞) (s : State ι) : Event ι → State ι → Prop
  | eagain : s.main = .recvfrom → Move cap s (.recvfrom none) { s with main := .msgrcv }
  | exit {d : Datagram} : s.main = .recvfrom → d.IsExit →
      Move cap s (.recvfrom (some d)) { s with main := .exited, received := s.received ++ [d] }
  | recvfrom {d : Datagram} : s.main = .recvfrom → ¬d.IsExit →
      Move cap s (.recvfrom (some d))
        { s with main := .msgsnd d.request, received := s.received ++ [d] }
  | msgsndRequest {m : ReqsReplMsg} : s.main = .msgsnd m → ¬s.Full cap →
      Move cap s .msgsndRequest { s with queue := m ::ₘ s.queue, main := .msgrcv }
  | enomsg : s.main = .msgrcv → s.queue.countP (fun m ↦ m.msgType = replMsgType) = 0 →
      Move cap s (.msgrcvReply none) { s with main := .recvfrom }
  | msgrcvReply {m : ReqsReplMsg} : s.main = .msgrcv → m ∈ s.queue → m.msgType = replMsgType →
      Move cap s (.msgrcvReply (some m)) { s with queue := s.queue.erase m, main := .sendto m }
  | sendto {m : ReqsReplMsg} : s.main = .sendto m →
      Move cap s .sendto
        { s with main := .recvfrom, sent := s.sent ++ [(m.clnAddr, m.reply.takeWhile (· ≠ 0))] }
  | msgrcvRequest {w : ι} {m : ReqsReplMsg} : s.main ≠ .exited → s.workers w = .msgrcv →
      m ∈ s.queue → m.msgType = reqsMsgType → Move cap s (.msgrcvRequest w m)
        { s with queue := s.queue.erase m, workers := Function.update s.workers w (.getCurDt m) }
  | getCurDt {w : ι} {m : ReqsReplMsg} {curDt : List UInt8} : s.main ≠ .exited →
      s.workers w = .getCurDt m → Move cap s (.getCurDt w curDt)
        { s with workers := Function.update s.workers w (.msgsnd (m.answer curDt)) }
  | msgsndReply {w : ι} {m : ReqsReplMsg} : s.main ≠ .exited → s.workers w = .msgsnd m →
      ¬s.Full cap → Move cap s (.msgsndReply w)
        { s with queue := m ::ₘ s.queue, workers := Function.update s.workers w .msgrcv }

theorem step_iff_move {cap : ℕ∞} {s t : State ι} {e : Event ι} :
    Step cap s e t ↔ Move cap s e t := by
  constructor
  -- one constructor for each branch that does not block
  · intro h
    unfold Step exec at h
    split_ifs at h with hexit
    cases e with
    | recvfrom d =>
      simp only [execMain] at h
      split at h
      · cases h
        exact .eagain ‹_›
      · split_ifs at h with hd
        · cases h
          exact .exit ‹_› hd
        · cases h
          exact .recvfrom ‹_› hd
      · cases h
    | msgsndRequest =>
      simp only [execMain] at h
      split at h
      · split_ifs at h with hfull
        cases h
        exact .msgsndRequest ‹_› hfull
      · cases h
    | msgrcvReply m =>
      simp only [execMain] at h
      split at h
      · split_ifs at h with hnone
        cases h
        exact .enomsg ‹_› hnone
      · split_ifs at h with hm
        cases h
        exact .msgrcvReply ‹_› hm.1 hm.2
      · cases h
    | sendto =>
      simp only [execMain] at h
      split at h
      · cases h
        exact .sendto ‹_›
      · cases h
    | msgrcvRequest w m =>
      simp only [execWorker] at h
      split at h
      · split_ifs at h with hm
        cases h
        exact .msgrcvRequest hexit ‹_› hm.1 hm.2
      · cases h
    | getCurDt w curDt =>
      simp only [execWorker] at h
      split at h
      · cases h
        exact .getCurDt hexit ‹_›
      · cases h
    | msgsndReply w =>
      simp only [execWorker] at h
      split at h
      · split_ifs at h with hfull
        cases h
        exact .msgsndReply hexit ‹_› hfull
      · cases h
  · intro h
    cases h <;> simp_all [Step, exec, execMain, execWorker]

end

end HighLoad

end AllProjects
