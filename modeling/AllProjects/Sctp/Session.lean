import AllProjects.Memory.CString
import AllProjects.Transition.Run

/-!
# A session of the SCTP upload

The client has two threads on one association. `file_hndl` reads its file in pieces and sends each
as a message on the stream `FILE_STREAM`; `msg_hndl` sends the lines that are typed, on
`MSG_STREAM`. The server's `cln_hndl` takes the messages of both streams with one buffer, prints
those of the one and writes those of the other to a file of its own, until it reads `exit`.

A message arrives whole, since no thread sends more at once than the buffer of the server holds. The
messages of one stream arrive in the order in which they were sent; a receipt takes the first
message of any stream that has one. What the calls return is left to the environment: a read may be
short, a call may fail, a write may be short, and the client may be gone at any time. Once it is,
and nothing is on the way any more, `sctp_recvmsg` returns 0 and leaves the stream number of the
message before, or whatever was on the stack.

`stored` is what `cln_hndl` has written to its file; it starts with an empty file, and nobody else
is in the session. `fileSent`, `msgSent` and `received` are histories that no step reads.
-/

namespace AllProjects

namespace Sctp

/-! ## Messages -/

/-- `MAX_MSG_SIZE`. -/
def maxMsgSize : ℕ := 256

/-- `MSG_STREAM`. -/
def msgStream : ℕ := 0

/-- `FILE_STREAM`. -/
def fileStream : ℕ := 1

/-- The array `msg` of a thread, cleared and filled from its start. -/
def buffer (msg : List UInt8) : List UInt8 :=
  msg ++ List.replicate (maxMsgSize + 1 - msg.length) 0

/-- The text tells the other side to end. -/
def IsExit (msg : List UInt8) : Prop := strcmp (buffer msg) [101, 120, 105, 116, 0] = .ok 0

instance (msg : List UInt8) : Decidable (IsExit msg) := inferInstanceAs (Decidable (strcmp _ _ = _))

/-- A text with no NUL in it ends the session exactly when it is `exit`. -/
theorem isExit_iff {msg : List UInt8} (h0 : 0 ∉ msg) (hlen : msg.length ≤ maxMsgSize) :
    IsExit msg ↔ msg = [101, 120, 105, 116] := by
  have hbuffer : cstring (buffer msg) = some msg := by
    rw [buffer, Nat.succ_sub hlen, List.replicate_succ]
    exact cstring_append_zero h0 _
  exact strcmp_eq_zero_iff hbuffer rfl

/-- At most `n` bytes, up to and including the first newline, and what is left. -/
def readLine : ℕ → List UInt8 → List UInt8 × List UInt8
  | 0, input => ([], input)
  | _ + 1, [] => ([], [])
  | n + 1, b :: input =>
    if b = 10 then ([b], input) else ((b :: (readLine n input).1), (readLine n input).2)

/-- `fgets`: a line that fits with its NUL, unless there is no input any more. -/
def fgets (n : ℕ) (input : List UInt8) : Option (List UInt8 × List UInt8) :=
  if input = [] then none else some (readLine (n - 1) input)

/-- `msg[strlen(msg)-1] = 0`: the string in the buffer, without its last character. With an empty
string the store is in front of the buffer, and what the client does then is left out. -/
def chop (line : List UInt8) : Option (List UInt8) :=
  (cstring (line ++ [0])).bind fun s ↦ if s = [] then none else some s.dropLast

theorem length_readLine_le (n : ℕ) (input : List UInt8) : (readLine n input).1.length ≤ n := by
  induction n generalizing input with
  | zero => exact le_rfl
  | succ n ih =>
    cases input with
    | nil => exact Nat.zero_le _
    | cons b input =>
      rw [readLine]
      split_ifs
      · exact Nat.succ_le_succ (Nat.zero_le n)
      · exact Nat.succ_le_succ (ih input)

theorem length_chop_le {line msg : List UInt8} (h : chop line = some msg) :
    msg.length ≤ line.length := by
  obtain ⟨s, hs, h⟩ := Option.bind_eq_some_iff.mp h
  have hlt := length_lt_of_cstring hs
  split_ifs at h
  cases h
  rw [List.length_append, List.length_singleton] at hlt
  rw [List.length_dropLast]
  omega

/-! ## Threads -/

/-- Where the client's `file_hndl` is. Where it has failed, its buffer may hold a message that was
not sent. -/
inductive FileHndl
  | openFile
  | read
  | sctpSendmsg (msg : List UInt8)
  | failed (msg : List UInt8)
  | exited

/-- Where the client's `msg_hndl` is. -/
inductive MsgHndl
  | fgets
  | sctpSendmsg (msg : List UInt8)
  | exited

/-- What a thread ends with. -/
inductive ExitStatus
  | success
  | failure
  deriving DecidableEq

/-- Where the server's `cln_hndl` is. Where it has ended, its buffer may hold what was not written
of a message. -/
inductive ClnHndl
  | openFile
  | failed
  | sctpRecvmsg
  | handle (msg : List UInt8)
  | exited (status : ExitStatus) (left : List UInt8)

/-- The calls of `file_hndl`, with what they return. -/
inductive FileCall
  | openFile (ok : Bool)
  | read (rtn : Option ℕ)
  | sctpSendmsg (ok : Bool)

/-- The calls of `msg_hndl`. -/
inductive MsgCall
  | fgets
  | sctpSendmsg (ok : Bool)

/-- The calls of `cln_hndl`, and what it does with a message. -/
inductive ClnCall
  | openFile (ok : Bool)
  | sctpRecvmsg (stream : ℕ)
  | recvEof
  | recvErr
  | handle (rtn : Option ℕ)

/-- Whose call is next. The client as a whole may end at any time. -/
inductive Event
  | file (c : FileCall)
  | msg (c : MsgCall)
  | close
  | cln (c : ClnCall)

/-- A session. -/
structure Conn where
  unread : List UInt8
  fileHndl : FileHndl
  stdin : List UInt8
  msgHndl : MsgHndl
  closed : Bool
  flight : ℕ → List (List UInt8)
  clnHndl : ClnHndl
  sinfoStream : ℕ
  stored : List UInt8
  fileSent : List (List UInt8)
  msgSent : List (List UInt8)
  received : ℕ → List (List UInt8)

namespace Conn

/-- Connected, with a file to send and lines to type. -/
def initial (file stdin : List UInt8) (sinfoStream : ℕ) : Conn :=
  ⟨file, .openFile, stdin, .fgets, false, fun _ ↦ [], .openFile, sinfoStream, [], [], [],
    fun _ ↦ []⟩

/-- `file_hndl`. -/
def execFile (s : Conn) : FileCall → Option Conn
  | .openFile ok =>
    match s.fileHndl with
    | .openFile => some { s with fileHndl := if ok then .read else .failed [] }
    | _ => none
  | .read rtn =>
    match s.fileHndl, rtn with
    | .read, none => some { s with fileHndl := .failed [] }
    | .read, some 0 => if s.unread = [] then some { s with fileHndl := .exited } else none
    | .read, some (n + 1) =>
      if n + 1 ≤ s.unread.length ∧ n + 1 ≤ maxMsgSize then some { s with
        fileHndl := .sctpSendmsg (s.unread.take (n + 1))
        unread := s.unread.drop (n + 1) }
      else none
    | _, _ => none
  | .sctpSendmsg ok =>
    match s.fileHndl with
    | .sctpSendmsg msg =>
      if ok then some { s with
        fileHndl := .read
        flight := Function.update s.flight fileStream (s.flight fileStream ++ [msg])
        fileSent := s.fileSent ++ [msg] }
      else some { s with fileHndl := .failed msg }
    | _ => none

/-- `msg_hndl`. -/
def execMsg (s : Conn) : MsgCall → Option Conn
  | .fgets =>
    match s.msgHndl, Sctp.fgets maxMsgSize s.stdin with
    | .fgets, none => some { s with msgHndl := .exited }
    | .fgets, some (line, rest) =>
      (chop line).map fun msg ↦ { s with msgHndl := .sctpSendmsg msg, stdin := rest }
    | _, _ => none
  | .sctpSendmsg ok =>
    match s.msgHndl with
    | .sctpSendmsg msg =>
      if ok then some { s with
        msgHndl := if IsExit msg then .exited else .fgets
        flight := Function.update s.flight msgStream (s.flight msgStream ++ [msg])
        msgSent := s.msgSent ++ [msg] }
      else some { s with msgHndl := .exited }
    | _ => none

/-- The `write` of `cln_hndl`, and what it does with its result. -/
def execWrite (s : Conn) (msg : List UInt8) : Option ℕ → Option Conn
  | none => some { s with clnHndl := .exited .success msg }
  | some n =>
    if n ≤ msg.length then some { s with
      stored := s.stored ++ msg.take n
      clnHndl := if n = msg.length then .sctpRecvmsg else .exited .success (msg.drop n) }
    else none

/-- `cln_hndl`. -/
def execCln (s : Conn) : ClnCall → Option Conn
  | .openFile ok =>
    match s.clnHndl with
    | .openFile => some { s with clnHndl := if ok then .sctpRecvmsg else .failed }
    | _ => none
  | .sctpRecvmsg stream =>
    match s.clnHndl, s.flight stream with
    | .sctpRecvmsg, msg :: rest => some { s with
        clnHndl := .handle msg
        flight := Function.update s.flight stream rest
        sinfoStream := stream
        received := Function.update s.received stream (s.received stream ++ [msg]) }
    | _, _ => none
  | .recvEof =>
    match s.clnHndl with
    | .sctpRecvmsg =>
      if s.closed ∧ s.flight fileStream = [] ∧ s.flight msgStream = [] then
        some { s with clnHndl := .handle [] }
      else none
    | _ => none
  | .recvErr =>
    match s.clnHndl with
    | .sctpRecvmsg => some { s with clnHndl := .exited .failure [] }
    | _ => none
  | .handle rtn =>
    match s.clnHndl with
    | .handle msg =>
      if s.sinfoStream = msgStream then
        some { s with clnHndl := if IsExit msg then .exited .success [] else .sctpRecvmsg }
      else if s.sinfoStream = fileStream then s.execWrite msg rtn
      else some { s with clnHndl := .sctpRecvmsg }
    | _ => none

/-- One call. -/
def exec (s : Conn) : Event → Option Conn
  | .file c => if s.closed then none else s.execFile c
  | .msg c => if s.closed then none else s.execMsg c
  | .close => some { s with closed := true }
  | .cln c => s.execCln c

/-- One step of a session. -/
def Step (s : Conn) (e : Event) (t : Conn) : Prop := s.exec e = some t

/-! ## What a step can do -/

/-- The steps of the client, one by one, with what each needs and what it changes. -/
inductive ClientMove (s : Conn) : Event → Conn → Prop
  | openFile : s.fileHndl = .openFile →
      ClientMove s (.file (.openFile true)) { s with fileHndl := .read }
  | openErr : s.fileHndl = .openFile →
      ClientMove s (.file (.openFile false)) { s with fileHndl := .failed [] }
  | read {n : ℕ} : s.fileHndl = .read → 0 < n → n ≤ s.unread.length → n ≤ maxMsgSize →
      ClientMove s (.file (.read (some n)))
        { s with fileHndl := .sctpSendmsg (s.unread.take n), unread := s.unread.drop n }
  | readEof : s.fileHndl = .read → s.unread = [] →
      ClientMove s (.file (.read (some 0))) { s with fileHndl := .exited }
  | readErr : s.fileHndl = .read →
      ClientMove s (.file (.read none)) { s with fileHndl := .failed [] }
  | sendFile {msg : List UInt8} : s.fileHndl = .sctpSendmsg msg →
      ClientMove s (.file (.sctpSendmsg true))
        { s with
          fileHndl := .read
          flight := Function.update s.flight fileStream (s.flight fileStream ++ [msg])
          fileSent := s.fileSent ++ [msg] }
  | sendFileErr {msg : List UInt8} : s.fileHndl = .sctpSendmsg msg →
      ClientMove s (.file (.sctpSendmsg false)) { s with fileHndl := .failed msg }
  | fgets {line rest msg : List UInt8} : s.msgHndl = .fgets →
      Sctp.fgets maxMsgSize s.stdin = some (line, rest) → chop line = some msg →
      ClientMove s (.msg .fgets) { s with msgHndl := .sctpSendmsg msg, stdin := rest }
  | fgetsEof : s.msgHndl = .fgets → Sctp.fgets maxMsgSize s.stdin = none →
      ClientMove s (.msg .fgets) { s with msgHndl := .exited }
  | sendMsg {msg : List UInt8} : s.msgHndl = .sctpSendmsg msg →
      ClientMove s (.msg (.sctpSendmsg true))
        { s with
          msgHndl := if IsExit msg then .exited else .fgets
          flight := Function.update s.flight msgStream (s.flight msgStream ++ [msg])
          msgSent := s.msgSent ++ [msg] }
  | sendMsgErr {msg : List UInt8} : s.msgHndl = .sctpSendmsg msg →
      ClientMove s (.msg (.sctpSendmsg false)) { s with msgHndl := .exited }
  | close : ClientMove s .close { s with closed := true }

/-- The steps of the server. -/
inductive ClnMove (s : Conn) : ClnCall → Conn → Prop
  | openFile : s.clnHndl = .openFile → ClnMove s (.openFile true) { s with clnHndl := .sctpRecvmsg }
  | openErr : s.clnHndl = .openFile → ClnMove s (.openFile false) { s with clnHndl := .failed }
  | sctpRecvmsg {stream : ℕ} {msg : List UInt8} {rest : List (List UInt8)} :
      s.clnHndl = .sctpRecvmsg → s.flight stream = msg :: rest → ClnMove s (.sctpRecvmsg stream)
        { s with
          clnHndl := .handle msg
          flight := Function.update s.flight stream rest
          sinfoStream := stream
          received := Function.update s.received stream (s.received stream ++ [msg]) }
  | recvEof : s.clnHndl = .sctpRecvmsg → s.closed → s.flight fileStream = [] →
      s.flight msgStream = [] → ClnMove s .recvEof { s with clnHndl := .handle [] }
  | recvErr : s.clnHndl = .sctpRecvmsg →
      ClnMove s .recvErr { s with clnHndl := .exited .failure [] }
  | text {msg : List UInt8} {rtn : Option ℕ} : s.clnHndl = .handle msg → s.sinfoStream = msgStream →
      ClnMove s (.handle rtn)
        { s with clnHndl := if IsExit msg then .exited .success [] else .sctpRecvmsg }
  | write {msg : List UInt8} {n : ℕ} : s.clnHndl = .handle msg → s.sinfoStream = fileStream →
      n ≤ msg.length → ClnMove s (.handle (some n))
        { s with
          stored := s.stored ++ msg.take n
          clnHndl := if n = msg.length then .sctpRecvmsg else .exited .success (msg.drop n) }
  | writeErr {msg : List UInt8} : s.clnHndl = .handle msg → s.sinfoStream = fileStream →
      ClnMove s (.handle none) { s with clnHndl := .exited .success msg }
  | other {msg : List UInt8} {rtn : Option ℕ} : s.clnHndl = .handle msg →
      s.sinfoStream ≠ msgStream → s.sinfoStream ≠ fileStream →
      ClnMove s (.handle rtn) { s with clnHndl := .sctpRecvmsg }

theorem clnMove_of_execWrite {s t : Conn} {msg : List UInt8} {rtn : Option ℕ}
    (hhandle : s.clnHndl = .handle msg) (hfile : s.sinfoStream = fileStream)
    (h : s.execWrite msg rtn = some t) : ClnMove s (.handle rtn) t := by
  cases rtn with
  | none =>
    cases h
    exact .writeErr hhandle hfile
  | some n =>
    rw [execWrite] at h
    by_cases hn : n ≤ msg.length
    · rw [if_pos hn] at h
      cases h
      exact .write hhandle hfile hn
    · rw [if_neg hn] at h
      cases h

theorem clnMove_of_execCln {s t : Conn} {c : ClnCall} (h : s.execCln c = some t) :
    ClnMove s c t := by
  cases c with
  | openFile ok =>
    simp only [execCln] at h
    split at h
    · cases ok <;> cases h
      · exact .openErr ‹_›
      · exact .openFile ‹_›
    · cases h
  | sctpRecvmsg stream =>
    simp only [execCln] at h
    split at h
    · cases h
      exact .sctpRecvmsg ‹_› ‹_›
    · cases h
  | recvEof =>
    simp only [execCln] at h
    split at h
    · split_ifs at h with hgone
      cases h
      exact .recvEof ‹_› hgone.1 hgone.2.1 hgone.2.2
    · cases h
  | recvErr =>
    simp only [execCln] at h
    split at h
    · cases h
      exact .recvErr ‹_›
    · cases h
  | handle rtn =>
    simp only [execCln] at h
    split at h
    · by_cases hmsg : s.sinfoStream = msgStream
      · rw [if_pos hmsg] at h
        cases h
        exact .text ‹_› hmsg
      rw [if_neg hmsg] at h
      by_cases hfile : s.sinfoStream = fileStream
      · rw [if_pos hfile] at h
        exact clnMove_of_execWrite ‹_› hfile h
      · rw [if_neg hfile] at h
        cases h
        exact .other ‹_› hmsg hfile
    · cases h

theorem clientMove_of_execFile {s t : Conn} {c : FileCall} (h : s.execFile c = some t) :
    ClientMove s (.file c) t := by
  cases c with
  | openFile ok =>
    simp only [execFile] at h
    split at h
    · cases ok <;> cases h
      · exact .openErr ‹_›
      · exact .openFile ‹_›
    · cases h
  | read rtn =>
    simp only [execFile] at h
    split at h
    · cases h
      exact .readErr ‹_›
    · split_ifs at h with heof
      cases h
      exact .readEof ‹_› heof
    · split_ifs at h with hn
      cases h
      exact .read ‹_› (Nat.succ_pos _) hn.1 hn.2
    · cases h
  | sctpSendmsg ok =>
    simp only [execFile] at h
    split at h
    · cases ok <;> cases h
      · exact .sendFileErr ‹_›
      · exact .sendFile ‹_›
    · cases h

theorem clientMove_of_execMsg {s t : Conn} {c : MsgCall} (h : s.execMsg c = some t) :
    ClientMove s (.msg c) t := by
  cases c with
  | fgets =>
    simp only [execMsg] at h
    split at h
    · cases h
      exact .fgetsEof ‹_› ‹_›
    · obtain ⟨msg, hmsg, h⟩ := Option.map_eq_some_iff.mp h
      cases h
      exact .fgets ‹_› ‹_› hmsg
    · cases h
  | sctpSendmsg ok =>
    simp only [execMsg] at h
    split at h
    · cases ok <;> cases h
      · exact .sendMsgErr ‹_›
      · exact .sendMsg ‹_›
    · cases h

theorem Step.cases {s t : Conn} {e : Event} (h : Step s e t) :
    ClientMove s e t ∨ ∃ c, e = .cln c ∧ ClnMove s c t := by
  cases e with
  | file c =>
    simp only [Step, exec] at h
    split_ifs at h
    exact Or.inl (clientMove_of_execFile h)
  | msg c =>
    simp only [Step, exec] at h
    split_ifs at h
    exact Or.inl (clientMove_of_execMsg h)
  | close =>
    cases h
    exact Or.inl .close
  | cln c => exact Or.inr ⟨c, rfl, clnMove_of_execCln h⟩

end Conn

end Sctp

end AllProjects
