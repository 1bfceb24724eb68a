import AllProjects.Sctp.Session

/-!
# The server's thread for an SCTP association

`cln_hndl` on its own, call by call: four calls to set up, the loop with `sctp_recvmsg` and `write`,
and on every way out `close` for the file and the socket, `free`, and the end of the thread. What
the calls return is left to the environment; `sctp_recvmsg` may leave `sndrcv_info` as it was. What
is printed is left out.

The thread of a session is such a thread: a step of the session is a call of the thread or none.
-/

namespace AllProjects.Sctp

namespace Handler

/-! ## Calls -/

/-- The calls before the loop. -/
inductive Setup
  | setsockopt
  | inetNtop
  | snprintf
  | openFile
  deriving DecidableEq, Repr

/-- The call that is next, or how the thread has ended. -/
inductive Phase
  | setup (c : Setup)
  | sctpRecvmsg
  | write (msg : List UInt8)
  | closeFd (status : ExitStatus)
  | close (status : ExitStatus)
  | free (status : ExitStatus)
  | pthreadExit (status : ExitStatus)
  | ended (status : ExitStatus)
  deriving DecidableEq

/-- The calls with what they return. -/
inductive Event
  | setup (ok : Bool)
  | sctpRecvmsg (msg : List UInt8) (stream : Option ℕ)
  | recvFails
  | write (rtn : Option ℕ)
  | closeFd
  | close
  | free
  | pthreadExit
  deriving DecidableEq

/-- A thread. That `sctp_recvmsg` has returned 0 is a history that no step reads. -/
structure Thread where
  phase : Phase
  sinfoStream : ℕ
  stored : List UInt8
  closed : Bool
  freed : Bool
  eof : Bool
  deriving DecidableEq

def initial (sinfoStream : ℕ) : Thread := ⟨.setup .setsockopt, sinfoStream, [], false, false, false⟩

def Setup.next : Setup → Phase
  | .setsockopt => .setup .inetNtop
  | .inetNtop => .setup .snprintf
  | .snprintf => .setup .openFile
  | .openFile => .sctpRecvmsg

/-- What follows a message, by its stream number. -/
def afterRecv (stream : ℕ) (msg : List UInt8) : Phase :=
  if stream = msgStream then if IsExit msg then .closeFd .success else .sctpRecvmsg
  else if stream = fileStream then .write msg
  else .sctpRecvmsg

/-- `cln_hndl`, from the call that is next. -/
def clnHndl (s : Thread) : Phase → Event → Option Thread
  | .setup c, .setup true => some { s with phase := c.next }
  | .setup _, .setup false => some { s with phase := .close .failure }
  | .sctpRecvmsg, .sctpRecvmsg msg stream =>
    some { s with
      phase := afterRecv (stream.getD s.sinfoStream) msg
      sinfoStream := stream.getD s.sinfoStream
      eof := s.eof || msg.isEmpty }
  | .sctpRecvmsg, .recvFails => some { s with phase := .closeFd .failure }
  | .write _, .write none => some { s with phase := .closeFd .success }
  | .write msg, .write (some n) =>
    if n ≤ msg.length then
      some { s with
        phase := if n = msg.length then .sctpRecvmsg else .closeFd .success
        stored := s.stored ++ msg.take n }
    else none
  | .closeFd status, .closeFd => some { s with phase := .close status }
  | .close status, .close => some { s with phase := .free status, closed := true }
  | .free status, .free => some { s with phase := .pthreadExit status, freed := true }
  | .pthreadExit status, .pthreadExit => some { s with phase := .ended status }
  | _, _ => none

def Step (s : Thread) (e : Event) (t : Thread) : Prop := clnHndl s s.phase e = some t

/-! ## What a step can do -/

/-- The steps one by one. -/
inductive Move (s : Thread) : Event → Thread → Prop
  | setup {c : Setup} : s.phase = .setup c → Move s (.setup true) { s with phase := c.next }
  | setupFails {c : Setup} : s.phase = .setup c →
      Move s (.setup false) { s with phase := .close .failure }
  | recv {msg : List UInt8} {stream : Option ℕ} : s.phase = .sctpRecvmsg →
      Move s (.sctpRecvmsg msg stream)
        { s with
          phase := afterRecv (stream.getD s.sinfoStream) msg
          sinfoStream := stream.getD s.sinfoStream
          eof := s.eof || msg.isEmpty }
  | recvFails : s.phase = .sctpRecvmsg → Move s .recvFails { s with phase := .closeFd .failure }
  | write {msg : List UInt8} {n : ℕ} : s.phase = .write msg → n ≤ msg.length →
      Move s (.write (some n))
        { s with
          phase := if n = msg.length then .sctpRecvmsg else .closeFd .success
          stored := s.stored ++ msg.take n }
  | writeFails {msg : List UInt8} : s.phase = .write msg →
      Move s (.write none) { s with phase := .closeFd .success }
  | closeFd {status : ExitStatus} : s.phase = .closeFd status →
      Move s .closeFd { s with phase := .close status }
  | close {status : ExitStatus} : s.phase = .close status →
      Move s .close { s with phase := .free status, closed := true }
  | free {status : ExitStatus} : s.phase = .free status →
      Move s .free { s with phase := .pthreadExit status, freed := true }
  | pthreadExit {status : ExitStatus} : s.phase = .pthreadExit status →
      Move s .pthreadExit { s with phase := .ended status }

variable {s t : Thread} {e : Event} {es : List Event}

theorem move_of_clnHndl {phase : Phase} (hphase : s.phase = phase)
    (h : clnHndl s phase e = some t) : Move s e t := by
  rw [clnHndl.eq_def] at h
  split at h
  case h_6 =>
    obtain ⟨hle, ⟨⟩⟩ := Option.ite_none_right_eq_some.mp h
    exact .write hphase hle
  case h_11 => cases h
  all_goals
    cases h
    constructor
    exact hphase

theorem Move.of_step (h : Step s e t) : Move s e t := move_of_clnHndl rfl h

end Handler

/-! ## The thread of a session -/

namespace Conn

open Handler

/-- What the server's thread is about to do. -/
def phaseOf (sinfoStream : ℕ) : ClnHndl → Phase
  | .openFile => .setup .openFile
  | .failed => .close .failure
  | .sctpRecvmsg => .sctpRecvmsg
  | .handle msg => afterRecv sinfoStream msg
  | .exited status _ => .closeFd status

/-- The server's thread in a session. -/
def thread (s : Conn) (eof : Bool) : Thread :=
  ⟨phaseOf s.sinfoStream s.clnHndl, s.sinfoStream, s.stored, false, false, eof⟩

theorem phaseOf_file (msg : List UInt8) : phaseOf fileStream (.handle msg) = .write msg := rfl

/-- What the server does in a session is a call of the thread, or goes on between two calls. -/
theorem ClnMove.thread {s t : Conn} {c : ClnCall} (eof : Bool) (h : ClnMove s c t) :
    t.thread eof = s.thread eof ∨ ∃ e eof', Handler.Step (s.thread eof) e (t.thread eof') := by
  cases h with
  | openFile hpc =>
    refine .inr ⟨.setup true, eof, ?_⟩
    rw [Handler.Step, Conn.thread, hpc]
    rfl
  | openErr hpc =>
    refine .inr ⟨.setup false, eof, ?_⟩
    rw [Handler.Step, Conn.thread, hpc]
    rfl
  | @sctpRecvmsg stream msg _ hpc _ =>
    refine .inr ⟨.sctpRecvmsg msg (some stream), eof || msg.isEmpty, ?_⟩
    rw [Handler.Step, Conn.thread, hpc]
    rfl
  | recvEof hpc =>
    refine .inr ⟨.sctpRecvmsg [] none, eof || true, ?_⟩
    rw [Handler.Step, Conn.thread, hpc]
    rfl
  | recvErr hpc =>
    refine .inr ⟨.recvFails, eof, ?_⟩
    rw [Handler.Step, Conn.thread, hpc]
    rfl
  | text hpc hmsg =>
    refine .inl ?_
    rw [Conn.thread, Conn.thread, hpc, phaseOf.eq_4, afterRecv, if_pos hmsg]
    dsimp only
    split <;> rfl
  | @write msg n hpc hfile hle =>
    refine .inr ⟨.write (some n), eof, ?_⟩
    rw [Handler.Step, Conn.thread, hpc, hfile, phaseOf_file]
    refine (if_pos hle).trans (congrArg some ?_)
    rw [Conn.thread]
    dsimp only
    split <;> rfl
  | writeErr hpc hfile =>
    refine .inr ⟨.write none, eof, ?_⟩
    rw [Handler.Step, Conn.thread, hpc, hfile, phaseOf_file]
    rfl
  | other hpc hmsg hfile =>
    refine .inl ?_
    rw [Conn.thread, Conn.thread, hpc, phaseOf.eq_4, afterRecv, if_neg hmsg, if_neg hfile]
    rfl

theorem ClientMove.thread {s t : Conn} {e : Event} (eof : Bool) (h : ClientMove s e t) :
    t.thread eof = s.thread eof := by
  cases h <;> rfl

theorem exists_run_thread {s t : Conn} {es : List Event} (hrun : Run Step s es t) (eof : Bool) :
    ∃ fs eof', Run Handler.Step (s.thread eof) fs (t.thread eof') := by
  induction hrun generalizing eof with
  | nil s => exact ⟨[], eof, Run.nil _⟩
  | cons hstep _ ih =>
    obtain hclient | ⟨c, rfl, hcln⟩ := hstep.cases
    · rw [← hclient.thread eof]
      exact ih eof
    · obtain heq | ⟨f, eof', hcall⟩ := hcln.thread eof
      · rw [← heq]
        exact ih eof
      · obtain ⟨fs, eof'', hrest⟩ := ih eof'
        exact ⟨f :: fs, eof'', Run.cons hcall hrest⟩

end Conn

end AllProjects.Sctp
