import AllProjects.Memory.CString
import AllProjects.MessageQueue.Queue
import AllProjects.Transition.Run

/-!
# Server events of the queue chat

The server and its clients talk over one message queue. A client announces itself with a message of
type `SERVER_PID` and then waits for messages of its own process id as the type. The server takes a
message of type `SERVER_PID`, writes the sender's process id over the type, and puts it back.

The queue holds up to a given number of messages, which may be infinite. A call that would block is
a step that cannot be taken, and no call fails otherwise. What a client's message is built in was
never initialised, so the parts that it does not write are whatever was on its stack.

`taken` and `got` are histories that no step reads.
-/

namespace AllProjects

namespace QueueChat

open MessageQueue

/-! ## Messages -/

/-- `SERVER_PID`. -/
def serverPid : ℕ := 1

/-- `MAX_DATA_MSG`. -/
abbrev maxDataMsg : ℕ := 2

/-- `MAX_NAME_SIZE`. -/
def maxNameSize : ℕ := 32

/-- `enum CLIENT_EVENTS`. -/
inductive ClientEvents
  | connected
  | changeName
  | disconnected
  deriving DecidableEq

/-- `SERVER_MSG`. Its first field, `pid`, is the type under which it is queued. -/
structure ServerMsg where
  pid : ℕ
  msgType : ClientEvents
  dataText : Fin maxDataMsg → List UInt8
  dataPid : ℕ
  deriving DecidableEq

/-- What the clients bring: their process ids, their name buffers, and what their message is built
in. -/
structure Clients (ι : Type) where
  clnPid : ι → ℕ
  clnName : ι → List UInt8
  srvMsg : ι → ServerMsg
  injective : Function.Injective clnPid
  two_le : ∀ i, 2 ≤ clnPid i
  length_clnName : ∀ i, (clnName i).length = maxNameSize

section

variable {ι : Type} (C : Clients ι)

/-- The message that a client sends. -/
def Clients.request (i : ι) : ServerMsg where
  pid := serverPid
  msgType := .connected
  dataText := Function.update (C.srvMsg i).dataText 0
    (strncpyBuf maxNameSize (C.clnName i) ++ ((C.srvMsg i).dataText 0).drop maxNameSize)
  dataPid := C.clnPid i

/-- What the server makes of a message. -/
def ServerMsg.respond (m : ServerMsg) : ServerMsg := { m with pid := m.dataPid }

/-- The `strncpy` of the name stays inside the name's buffer. -/
theorem Clients.strncpy_clnName (i : ι) :
    strncpy maxNameSize (C.clnName i) = .ok (strncpyBuf maxNameSize (C.clnName i)) :=
  strncpy_eq_strncpyBuf (C.length_clnName i).ge

/-! ## Threads -/

/-- Where the server's `srv_event_hndl` is. -/
inductive ServerHndl
  | msgrcv
  | msgsnd (srvMsg : ServerMsg)
  deriving DecidableEq

/-- Where a client's `srv_event_hndl` is. -/
inductive ClientHndl
  | msgsnd
  | msgrcv
  deriving DecidableEq

/-- The queue and the threads. -/
structure State (ι : Type) where
  queue : List ServerMsg
  server : ServerHndl
  clients : ι → ClientHndl
  taken : List ServerMsg
  got : ι → List ServerMsg

/-- Whose call is next. -/
inductive Event (ι : Type)
  | clientSnd (i : ι)
  | serverRcv
  | serverSnd
  | clientRcv (i : ι)
  deriving DecidableEq

/-- Nobody has sent anything. -/
def State.initial : State ι := ⟨[], .msgrcv, fun _ ↦ .msgsnd, [], fun _ ↦ []⟩

/-- `msgsnd` blocks while the queue is full. -/
def State.Full (cap : ℕ∞) (s : State ι) : Prop := cap ≤ s.queue.length

instance (cap : ℕ∞) (s : State ι) : Decidable (s.Full cap) := inferInstanceAs (Decidable (_ ≤ _))

variable [DecidableEq ι]

/-- One call. -/
def exec (cap : ℕ∞) (s : State ι) : Event ι → Option (State ι)
  | .clientSnd i =>
    match s.clients i with
    | .msgsnd =>
      -- `msgsnd` blocks
      if s.Full cap then none
      else some { s with
        queue := s.queue ++ [C.request i]
        clients := Function.update s.clients i .msgrcv }
    | .msgrcv => none
  | .serverRcv =>
    match s.server with
    | .msgrcv => (receive ServerMsg.pid serverPid s.queue).map fun p ↦
        { s with queue := p.2, server := .msgsnd p.1.respond, taken := s.taken ++ [p.1] }
    | .msgsnd _ => none
  | .serverSnd =>
    match s.server with
    | .msgrcv => none
    | .msgsnd m =>
      if s.Full cap then none else some { s with queue := s.queue ++ [m], server := .msgrcv }
  | .clientRcv i =>
    match s.clients i with
    | .msgsnd => none
    | .msgrcv => (receive ServerMsg.pid (C.clnPid i) s.queue).map fun p ↦
        { s with queue := p.2, got := Function.update s.got i (s.got i ++ [p.1]) }

/-- One step of the chat. -/
def Step (cap : ℕ∞) (s : State ι) (e : Event ι) (t : State ι) : Prop := exec C cap s e = some t

/-! ## What a step can do -/

/-- The steps, one by one, with what each needs and what it changes. -/
inductive Move (cap : ℕ∞) (s : State ι) : Event ι → State ι → Prop
  | clientSnd {i : ι} : s.clients i = .msgsnd → ¬s.Full cap → Move cap s (.clientSnd i)
      { s with
        queue := s.queue ++ [C.request i]
        clients := Function.update s.clients i .msgrcv }
  | serverRcv {m : ServerMsg} {q : List ServerMsg} : s.server = .msgrcv →
      receive ServerMsg.pid serverPid s.queue = some (m, q) → Move cap s .serverRcv
        { s with queue := q, server := .msgsnd m.respond, taken := s.taken ++ [m] }
  | serverSnd {m : ServerMsg} : s.server = .msgsnd m → ¬s.Full cap → Move cap s .serverSnd
      { s with queue := s.queue ++ [m], server := .msgrcv }
  | clientRcv {i : ι} {m : ServerMsg} {q : List ServerMsg} : s.clients i = .msgrcv →
      receive ServerMsg.pid (C.clnPid i) s.queue = some (m, q) → Move cap s (.clientRcv i)
        { s with queue := q, got := Function.update s.got i (s.got i ++ [m]) }

theorem step_iff_move {cap : ℕ∞} {s t : State ι} {e : Event ι} :
    Step C cap s e t ↔ Move C cap s e t := by
  constructor
  · intro h
    unfold Step exec at h
    cases e with
    | clientSnd i =>
      simp only at h
      split at h
      · split_ifs at h with hfull
        cases h
        exact .clientSnd ‹_› hfull
      · cases h
    | serverRcv =>
      simp only at h
      split at h
      · obtain ⟨p, hp, h⟩ := Option.map_eq_some_iff.mp h
        cases h
        exact .serverRcv ‹_› hp
      · cases h
    | serverSnd =>
      simp only at h
      split at h
      · cases h
      · split_ifs at h with hfull
        cases h
        exact .serverSnd ‹_› hfull
    | clientRcv i =>
      simp only at h
      split at h
      · cases h
      · obtain ⟨p, hp, h⟩ := Option.map_eq_some_iff.mp h
        cases h
        exact .clientRcv ‹_› hp
  · intro h
    cases h <;> simp_all [Step, exec]

end

end QueueChat

end AllProjects
