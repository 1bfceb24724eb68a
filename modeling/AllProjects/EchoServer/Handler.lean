import AllProjects.Memory.CString
import AllProjects.Transition.Run

/-!
# The handler of a TCP connection

The echo servers start a thread for each connection. It receives into a cleared buffer, ends when
the buffer holds the C string `exit`, and otherwise sends back as many bytes as it has received. The
servers have a copy of this function each, which differ in the texts that they print.

The results of `recv` and `send` are left to the environment. What was received and what `send` has
accepted are histories that no step reads, and so is the note that `recv` has returned 0.
-/

namespace AllProjects.EchoServer

/-- `MAX_MSG_SIZE` -/
def maxMsgSize : ℕ := 256

/-- The array `msg`, cleared and filled from its start. -/
def buffer (msg : List UInt8) : List UInt8 := msg ++ List.replicate (maxMsgSize - msg.length) 0

/-- `exit` -/
def exitText : List UInt8 := [101, 120, 105, 116]

/-- `!strcmp(msg, "exit")` -/
def IsExit (msg : List UInt8) : Prop := strcmp (buffer msg) (exitText ++ [0]) = .ok 0

instance (msg : List UInt8) : Decidable (IsExit msg) := inferInstanceAs (Decidable (strcmp _ _ = _))

theorem not_isExit_nil : ¬ IsExit [] := by decide

/-! ## Threads -/

inductive ExitStatus
  | success
  | failure
  deriving DecidableEq, Repr

/-- The call that is next, or how the thread has ended. -/
inductive Phase
  | recv
  | send (msg : List UInt8)
  | close (status : ExitStatus)
  | free (status : ExitStatus)
  | pthreadExit (status : ExitStatus)
  | ended (status : ExitStatus)
  deriving DecidableEq, Repr

/-- What is printed, with the arguments of the format. -/
inductive Line
  | perror (text : String)
  | printf (format : String) (msg : List UInt8) (bts : ℕ)
  | puts (text : String)
  deriving DecidableEq, Repr

/-- A connection. -/
structure Conn where
  phase : Phase := .recv
  closed : Bool := false
  freed : Bool := false
  printed : List Line := []
  received : List UInt8 := []
  accepted : List UInt8 := []
  eof : Bool := false
  deriving DecidableEq, Repr

/-- The calls with what they return. -/
inductive Event
  | recv (msg : List UInt8)
  | recvFails
  | send (bts : ℕ)
  | sendFails
  | close
  | free
  | pthreadExit
  deriving DecidableEq, Repr

def Conn.print (s : Conn) (l : Line) : Conn := { s with printed := s.printed ++ [l] }

/-- From the return of `recv` with a message to the next call. -/
def handle (tag : String) (s : Conn) (msg : List UInt8) : Conn :=
  let s := s.print (.printf (tag ++ "Server: recived message from client: '%s' (%d bytes)\n") msg
    msg.length)
  if IsExit msg then
    { s.print (.puts (tag ++ "Server: client message handler thread bye\n")) with
      phase := .close .success }
  else { s with phase := .send msg }

/-- The handler whose texts start with a tag. -/
def exec (tag : String) (s : Conn) : Event → Option Conn
  | .recv msg =>
    if s.phase = .recv ∧ msg.length ≤ maxMsgSize then
      some (handle tag { s with received := s.received ++ msg, eof := s.eof || msg.isEmpty } msg)
    else none
  | .recvFails =>
    if s.phase = .recv then
      some { s.print (.perror (tag ++ "Server: recv(client)")) with phase := .close .failure }
    else none
  | .send bts =>
    match s.phase with
    | .send msg =>
      if bts ≤ msg.length then
        some { s.print (.printf (tag ++ "Server: send message to client: '%s' (%d bytes)\n\n") msg
            bts) with
          phase := .recv, accepted := s.accepted ++ msg.take bts }
      else none
    | _ => none
  | .sendFails =>
    match s.phase with
    | .send _ =>
      some { s.print (.perror (tag ++ "Server: send(client)")) with phase := .close .failure }
    | _ => none
  | .close =>
    match s.phase with
    | .close status => some { s with phase := .free status, closed := true }
    | _ => none
  | .free =>
    match s.phase with
    | .free status => some { s with phase := .pthreadExit status, freed := true }
    | _ => none
  | .pthreadExit =>
    match s.phase with
    | .pthreadExit status => some { s with phase := .ended status }
    | _ => none

def Step (tag : String) (s : Conn) (e : Event) (t : Conn) : Prop := exec tag s e = some t

/-- `cln_hndl` of the server for TCP alone. -/
def clnHndl : Conn → Event → Option Conn := exec ""

/-- `cln_tcp_hndl` of the servers with `epoll`, `select` and `poll`. -/
def clnTcpHndl : Conn → Event → Option Conn := exec "[TCP] "

/-! ## What a step can do -/

/-- The steps one by one, with what each needs and what it changes apart from the output. -/
inductive Move (s : Conn) : Event → Conn → Prop
  | recv {msg : List UInt8} {printed : List Line} : s.phase = .recv → msg.length ≤ maxMsgSize →
      ¬ IsExit msg →
      Move s (.recv msg)
        { s with
          phase := .send msg
          printed := printed
          received := s.received ++ msg
          eof := s.eof || msg.isEmpty }
  | recvExit {msg : List UInt8} {printed : List Line} : s.phase = .recv →
      msg.length ≤ maxMsgSize → IsExit msg →
      Move s (.recv msg)
        { s with
          phase := .close .success
          printed := printed
          received := s.received ++ msg
          eof := s.eof || msg.isEmpty }
  | recvFails {printed : List Line} : s.phase = .recv →
      Move s .recvFails { s with phase := .close .failure, printed := printed }
  | send {msg : List UInt8} {bts : ℕ} {printed : List Line} : s.phase = .send msg →
      bts ≤ msg.length →
      Move s (.send bts)
        { s with phase := .recv, printed := printed, accepted := s.accepted ++ msg.take bts }
  | sendFails {msg : List UInt8} {printed : List Line} : s.phase = .send msg →
      Move s .sendFails { s with phase := .close .failure, printed := printed }
  | close {status : ExitStatus} : s.phase = .close status →
      Move s .close { s with phase := .free status, closed := true }
  | free {status : ExitStatus} : s.phase = .free status →
      Move s .free { s with phase := .pthreadExit status, freed := true }
  | pthreadExit {status : ExitStatus} : s.phase = .pthreadExit status →
      Move s .pthreadExit { s with phase := .ended status }

variable {tag : String} {s t : Conn} {e : Event} {es : List Event} {msg bs : List UInt8}

/-! The three calls of the end, which are always possible. -/

section End

variable {status : ExitStatus}

theorem step_close (hphase : s.phase = .close status) :
    Step tag s .close { s with phase := .free status, closed := true } := by
  rw [Step, exec.eq_def]
  dsimp only
  rw [hphase]

theorem step_free (hphase : s.phase = .free status) :
    Step tag s .free { s with phase := .pthreadExit status, freed := true } := by
  rw [Step, exec.eq_def]
  dsimp only
  rw [hphase]

theorem step_pthreadExit (hphase : s.phase = .pthreadExit status) :
    Step tag s .pthreadExit { s with phase := .ended status } := by
  rw [Step, exec.eq_def]
  dsimp only
  rw [hphase]

end End

theorem Move.handle (hphase : s.phase = .recv) (hlen : msg.length ≤ maxMsgSize) :
    Move s (.recv msg) (handle tag
      { s with received := s.received ++ msg, eof := s.eof || msg.isEmpty } msg) := by
  rw [EchoServer.handle]
  split
  case isTrue hexit => exact .recvExit hphase hlen hexit
  case isFalse hexit => exact .recv hphase hlen hexit

theorem Move.of_step (h : Step tag s e t) : Move s e t := by
  rw [Step, exec.eq_def] at h
  cases e with
  | recv msg =>
    obtain ⟨⟨hphase, hlen⟩, ⟨⟩⟩ := Option.ite_none_right_eq_some.mp h
    exact Move.handle hphase hlen
  | recvFails =>
    obtain ⟨hphase, ⟨⟩⟩ := Option.ite_none_right_eq_some.mp h
    exact .recvFails hphase
  | send bts =>
    dsimp only at h
    split at h
    case h_1 msg hphase =>
      obtain ⟨hle, ⟨⟩⟩ := Option.ite_none_right_eq_some.mp h
      exact .send hphase hle
    case h_2 => cases h
  | sendFails | close | free | pthreadExit =>
    dsimp only at h
    split at h
    case h_1 hphase =>
      cases h
      constructor
      exact hphase
    case h_2 => cases h

/-! ## The bytes -/

/-- What is about to be sent. -/
def Phase.pending : Phase → List UInt8
  | .send msg => msg
  | _ => []

theorem Phase.pending_recv : Phase.recv.pending = [] := rfl

theorem Phase.pending_send (msg : List UInt8) : (Phase.send msg).pending = msg := rfl

/-- The handler still serves: it is about to call `recv` or `send`. -/
def Phase.Serving : Phase → Prop
  | .recv | .send _ => True
  | _ => False

/-- `send` takes all it is offered. -/
def SendsAll (s : Conn) : Event → Prop
  | .send bts => bts = s.phase.pending.length
  | _ => True

/-- Nothing is sent that was not received. -/
def Bounded (s : Conn) : Prop :=
  s.accepted.length + s.phase.pending.length ≤ s.received.length

/-- How many bytes are lost. -/
def Conn.lost (s : Conn) : ℕ := s.received.length - (s.accepted.length + s.phase.pending.length)

/-- What was received was sent, or is about to be. -/
def Echoed (s : Conn) : Prop := s.phase.Serving → s.received = s.accepted ++ s.phase.pending

theorem Move.serving (h : Move s e t) (ht : t.phase.Serving) : s.phase.Serving := by
  cases h with
  | recv hphase | recvExit hphase | recvFails hphase | send hphase | sendFails hphase =>
    rw [hphase]
    trivial
  | close | free | pthreadExit => exact ht.elim

theorem Move.bounded (h : Move s e t) (hs : Bounded s) : Bounded t := by
  rw [Bounded] at hs ⊢
  cases h with
  | recv hphase | recvExit hphase =>
    rw [hphase] at hs
    simp only [Phase.pending, List.length_append, List.length_nil] at hs ⊢
    omega
  | send hphase hle =>
    rw [hphase] at hs
    simp only [Phase.pending, List.length_append, List.length_take, List.length_nil] at hs ⊢
    omega
  | recvFails | sendFails | close | free | pthreadExit =>
    simp only [Phase.pending, List.length_nil] at hs ⊢
    omega

/-- A byte that `send` does not take is lost, and nothing else is. -/
theorem Move.lost (h : Move s e t) (hs : Bounded s) (ht : t.phase.Serving) :
    s.lost ≤ t.lost ∧ (t.lost = s.lost ↔ SendsAll s e) := by
  rw [Bounded] at hs
  rw [Conn.lost, Conn.lost]
  cases h with
  | recv hphase =>
    rw [hphase] at hs ⊢
    simp only [SendsAll, Phase.pending, List.length_append, List.length_nil, iff_true] at hs ⊢
    omega
  | send hphase hle =>
    rw [SendsAll]
    rw [hphase] at hs ⊢
    simp only [Phase.pending, List.length_append, List.length_take, List.length_nil] at hs ⊢
    omega
  | recvExit | recvFails | sendFails | close | free | pthreadExit => exact ht.elim

theorem Move.echoed (h : Move s e t) (hall : SendsAll s e) (hs : Echoed s) : Echoed t := by
  intro ht
  have hreceived := hs (h.serving ht)
  cases h with
  | recv hphase =>
    rw [hphase, Phase.pending_recv, List.append_nil] at hreceived
    rw [Phase.pending_send, hreceived]
  | send hphase =>
    rw [SendsAll, hphase, Phase.pending_send] at hall
    rw [hphase, Phase.pending_send] at hreceived
    rw [Phase.pending_recv, List.append_nil, hall, List.take_length, hreceived]
  | recvExit | recvFails | sendFails | close | free | pthreadExit => exact ht.elim

/-- **The echo loses no byte** up to a call of `recv` exactly when each `send` so far has taken all
it was offered. -/
theorem accepted_eq_received_iff (hrun : Run (Step tag) {} es s) (hrecv : s.phase = .recv) :
    s.accepted = s.received ↔ Run (fun s e t ↦ Step tag s e t ∧ SendsAll s e) {} es s := by
  have hserving : s.phase.Serving := by
    rw [hrecv]
    trivial
  have hpending : s.phase.pending = [] := by rw [hrecv, Phase.pending_recv]
  constructor
  · intro heq
    have hlost : s.lost = 0 := by
      rw [Conn.lost, heq, hpending, List.length_nil]
      omega
    have hopen := hrun.imp_back (P := fun s ↦ s.phase.Serving)
      (fun _ _ _ hstep ↦ (Move.of_step hstep).serving) hserving
    have hsound := Run.eq_iff_sound (I := Bounded)
      (fun _ _ _ h hstep ↦ (Move.of_step hstep.1).bounded h)
      (fun _ _ _ h hstep ↦ (Move.of_step hstep.1).lost h hstep.2) hopen.1 le_rfl
    exact (hsound.mp hlost).imp fun _ _ _ h ↦ ⟨h.1.1, h.2⟩
  · intro hall
    have hechoed := hall.invariant (I := Echoed)
      (fun _ _ _ h hstep ↦ (Move.of_step hstep.1).echoed hstep.2 h) (fun _ ↦ rfl)
    rw [hechoed hserving, hpending, List.append_nil]

theorem accepted_eq_received_iff_hello : ∃ s : Conn,
    Run (Step "") {} [.recv [104, 105], .send 2, .recv [33], .send 1] s
      ∧ s.accepted = [104, 105, 33]
      ∧ (s.accepted = s.received
        ↔ Run (fun s e t ↦ Step "" s e t ∧ SendsAll s e) {}
            [.recv [104, 105], .send 2, .recv [33], .send 1] s) := by
  have hfinal : ([.recv [104, 105], .send 2, .recv [33], .send 1].foldlM (exec "") {}).map
      (fun s ↦ (s.phase, s.accepted)) = some (.recv, [104, 105, 33]) := by decide
  obtain ⟨s, hrun, hs⟩ := exists_run_of_map hfinal
  obtain ⟨hphase, haccepted⟩ := Prod.mk.inj hs
  exact ⟨s, hrun, haccepted, accepted_eq_received_iff hrun hphase⟩

/-- Of two bytes `send` takes one. -/
theorem partialSend_loses : ∃ s : Conn, Run (Step "") {} [.recv [104, 105], .send 1] s
    ∧ s.phase = .recv ∧ s.received = [104, 105] ∧ s.accepted = [104] := by
  have hfinal : ([.recv [104, 105], .send 1].foldlM (exec "") {}).map
      (fun s ↦ (s.phase, s.received, s.accepted)) = some (.recv, [104, 105], [104]) := by decide
  obtain ⟨s, hrun, hs⟩ := exists_run_of_map hfinal
  rw [Prod.mk.injEq, Prod.mk.injEq] at hs
  exact ⟨s, hrun, hs.1, hs.2.1, hs.2.2⟩

end AllProjects.EchoServer
