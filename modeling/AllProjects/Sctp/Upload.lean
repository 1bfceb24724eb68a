import AllProjects.Sctp.Session

/-!
# What is stored of an upload

The client's file is cut into pieces that follow each other: what the server has stored, what it has
of a message and not stored yet, the messages on the way, what the client has read and not sent, and
what it has not read. Every step of either side moves a boundary between two neighbours, and none
changes the whole. So what is stored is a prefix of the file at any time, whatever a call returns.

Lines that are typed go through the same association and the same buffer, but not through these
pieces. They travel on a stream of their own, and the server writes nothing that came on it.
-/

namespace AllProjects

namespace Sctp

/-- What `file_hndl` has read and not sent. -/
def FileHndl.unsent : FileHndl → List UInt8
  | .sctpSendmsg msg | .failed msg => msg
  | .openFile | .read | .exited => []

/-- What `cln_hndl` has received of the file and not written, when its last message came on this
stream. -/
def ClnHndl.unwritten (stream : ℕ) : ClnHndl → List UInt8
  | .handle msg => if stream = fileStream then msg else []
  | .exited _ left => left
  | .openFile | .failed | .sctpRecvmsg => []

/-! ## Streams -/

section Channel

variable {received flight : ℕ → List (List UInt8)} {sent rest : List (List UInt8)}
  {msg : List UInt8} {i j : ℕ}

/-- A receipt takes a message off its stream, and the stream as a whole is what was sent on it. -/
theorem channel_recv (h : received i ++ flight i = sent) (hj : flight j = msg :: rest) :
    Function.update received j (received j ++ [msg]) i ++ Function.update flight j rest i
      = sent := by
  by_cases hi : i = j
  · rw [hi, Function.update_self, Function.update_self, List.append_assoc, List.singleton_append,
      ← hj, ← hi, h]
  · rw [Function.update_of_ne hi, Function.update_of_ne hi, h]

theorem channel_send (h : received i ++ flight i = sent) :
    received i ++ Function.update flight i (flight i ++ [msg]) i = sent ++ [msg] := by
  rw [Function.update_self, ← List.append_assoc, h]

theorem channel_send_of_ne (msg : List UInt8) (h : received i ++ flight i = sent) (hi : i ≠ j) :
    received i ++ Function.update flight j (flight j ++ [msg]) i = sent := by
  rw [Function.update_of_ne hi, h]

end Channel

theorem fileStream_ne_msgStream : fileStream ≠ msgStream := by decide

theorem ne_fileStream_of_eq {stream : ℕ} (h : stream = msgStream) : stream ≠ fileStream :=
  h.trans_ne fileStream_ne_msgStream.symm

theorem ne_msgStream_of_eq {stream : ℕ} (h : stream = fileStream) : stream ≠ msgStream :=
  h.trans_ne fileStream_ne_msgStream

namespace Conn

/-! ## The pieces of the file -/

/-- The pieces are the file, in this order, and each stream carries what its thread has sent. -/
structure Tracks (file : List UInt8) (s : Conn) : Prop where
  sent : s.fileSent.flatten ++ s.fileHndl.unsent ++ s.unread = file
  onFile : s.received fileStream ++ s.flight fileStream = s.fileSent
  onMsg : s.received msgStream ++ s.flight msgStream = s.msgSent
  stored : (s.received fileStream).flatten = s.stored ++ s.clnHndl.unwritten s.sinfoStream
  handled : ∀ msg, s.clnHndl = .handle msg → s.sinfoStream = fileStream →
    msg = [] ∨ msg ∈ s.received fileStream

variable {file stdin : List UInt8} {stream : ℕ} {s t : Conn} {e : Event} {c : ClnCall}

theorem tracks_initial : Tracks file (initial file stdin stream) where
  sent := rfl
  onFile := rfl
  onMsg := rfl
  stored := rfl
  handled := fun _ h ↦ by cases h

theorem Tracks.clientMove (h : Tracks file s) (hmove : ClientMove s e t) : Tracks file t := by
  have hsent := h.sent
  cases hmove with
  | openFile hfile | openErr hfile | readEof hfile _ | readErr hfile =>
    rw [hfile] at hsent
    exact { h with sent := hsent }
  | @read n hfile _ _ _ =>
    rw [hfile] at hsent
    refine { h with sent := ?_ }
    change s.fileSent.flatten ++ s.unread.take n ++ s.unread.drop n = file
    rw [List.append_assoc, List.take_append_drop]
    rwa [FileHndl.unsent, List.append_nil] at hsent
  | @sendFile msg hfile =>
    rw [hfile, FileHndl.unsent] at hsent
    refine { h with
      sent := ?_
      onFile := channel_send h.onFile
      onMsg := channel_send_of_ne msg h.onMsg fileStream_ne_msgStream.symm }
    rw [List.flatten_append, List.flatten_singleton, FileHndl.unsent, List.append_nil]
    exact hsent
  | @sendFileErr msg hfile =>
    rw [hfile] at hsent
    exact { h with sent := hsent }
  | fgets _ _ _ | fgetsEof _ _ | sendMsgErr _ | close => exact { h with }
  | @sendMsg msg _ =>
    exact { h with
      onFile := channel_send_of_ne msg h.onFile fileStream_ne_msgStream
      onMsg := channel_send h.onMsg }

theorem Tracks.clnMove (h : Tracks file s) (hmove : ClnMove s c t) : Tracks file t := by
  have hstored := h.stored
  cases hmove with
  | openFile hcln | openErr hcln | recvErr hcln =>
    rw [hcln] at hstored
    exact { h with stored := hstored, handled := fun _ heq ↦ by cases heq }
  | @sctpRecvmsg stream msg rest hcln hflight =>
    rw [hcln, ClnHndl.unwritten, List.append_nil] at hstored
    refine { h with
      onFile := channel_recv h.onFile hflight
      onMsg := channel_recv h.onMsg hflight
      stored := ?_
      handled := fun msg' heq hfile ↦ Or.inr ?_ }
    · -- a message of the file's stream is what comes next in the file
      rw [ClnHndl.unwritten]
      by_cases hfile : stream = fileStream
      · rw [if_pos hfile]
        simp only [hfile, Function.update_self, List.flatten_append, List.flatten_singleton,
          hstored]
      · simp only [if_neg hfile, Function.update_of_ne (Ne.symm hfile), hstored, List.append_nil]
    · cases heq
      simp only at hfile
      simp only [hfile, Function.update_self]
      exact List.mem_append_right _ List.mem_cons_self
  | recvEof hcln _ _ _ =>
    rw [hcln] at hstored
    refine { h with stored := ?_, handled := fun _ heq _ ↦ by cases heq; exact Or.inl rfl }
    rw [hstored, ClnHndl.unwritten, ClnHndl.unwritten, ite_self]
  | @text msg rtn hcln hmsg =>
    have hfile := ne_fileStream_of_eq hmsg
    rw [hcln, ClnHndl.unwritten, if_neg hfile] at hstored
    refine { h with stored := ?_, handled := fun _ _ heq ↦ absurd heq hfile }
    simp only
    split_ifs
    · exact hstored
    · exact hstored
  | @write msg n hcln hfile hn =>
    rw [hcln, ClnHndl.unwritten, if_pos hfile] at hstored
    refine { h with stored := ?_, handled := ?_ }
    · simp only
      rw [hstored, List.append_assoc]
      split_ifs with hlen
      · rw [ClnHndl.unwritten, hlen, List.take_length, List.append_nil]
      · rw [ClnHndl.unwritten, List.take_append_drop]
    · intro _ heq _
      simp only at heq
      split_ifs at heq
  | @writeErr msg hcln hfile =>
    rw [hcln, ClnHndl.unwritten, if_pos hfile] at hstored
    exact { h with stored := hstored, handled := fun _ heq ↦ by cases heq }
  | other hcln _ hfile =>
    rw [hcln, ClnHndl.unwritten, if_neg hfile] at hstored
    exact { h with stored := hstored, handled := fun _ heq ↦ by cases heq }

/-- **No step changes the file that the pieces make up.** -/
theorem Tracks.step (h : Tracks file s) (hstep : Step s e t) : Tracks file t := by
  rcases hstep.cases with hmove | ⟨c, rfl, hmove⟩
  · exact h.clientMove hmove
  · exact h.clnMove hmove

theorem tracks_of_run {es : List Event} (hrun : Run Step (initial file stdin stream) es s) :
    Tracks file s :=
  hrun.invariant (fun _ _ _ h hstep ↦ h.step hstep) tracks_initial

/-! ## The stored file -/

theorem Tracks.stored_isPrefix_fileSent (h : Tracks file s) : s.stored <+: s.fileSent.flatten := by
  have hreceived : s.stored <+: (s.received fileStream).flatten := ⟨_, h.stored.symm⟩
  rw [← h.onFile, List.flatten_append]
  exact hreceived.trans (List.prefix_append _ _)

theorem Tracks.fileSent_isPrefix (h : Tracks file s) : s.fileSent.flatten <+: file := by
  rw [← h.sent, List.append_assoc]
  exact List.prefix_append _ _

/-- The stored file changes only through a message that `file_hndl` has sent. -/
theorem Tracks.stored_step (h : Tracks file s) (hstep : Step s e t) :
    t.stored = s.stored ∨ ∃ msg n, s.clnHndl = .handle msg ∧ s.sinfoStream = fileStream ∧
      msg ∈ s.fileSent ∧ t.stored = s.stored ++ msg.take n := by
  rcases hstep.cases with hmove | ⟨c, rfl, hmove⟩
  · cases hmove <;> exact Or.inl rfl
  · cases hmove with
    | @write msg n hcln hfile _ =>
      rcases h.handled msg hcln hfile with rfl | hmem
      · exact Or.inl (by rw [List.take_nil, List.append_nil])
      · refine Or.inr ⟨msg, n, hcln, hfile, ?_, rfl⟩
        rw [← h.onFile]
        exact List.mem_append_left _ hmem
    | _ => exact Or.inl rfl

/-- **The stored file is a prefix of the upload.** So it is in every state of every run. It is made
of what `file_hndl` has sent: a step that changes it appends a part of a message that `file_hndl`
has sent, and what is received on the other stream is what `msg_hndl` has sent. -/
theorem stored_isPrefix {es : List Event} (hrun : Run Step (initial file stdin stream) es s) :
    s.stored <+: file ∧ s.stored <+: s.fileSent.flatten ∧ s.fileSent.flatten <+: file ∧
      s.received msgStream <+: s.msgSent ∧
      ∀ e t, Step s e t → t.stored = s.stored ∨ ∃ msg n, s.clnHndl = .handle msg ∧
        s.sinfoStream = fileStream ∧ msg ∈ s.fileSent ∧ t.stored = s.stored ++ msg.take n := by
  have h := tracks_of_run hrun
  refine ⟨h.stored_isPrefix_fileSent.trans h.fileSent_isPrefix, h.stored_isPrefix_fileSent,
    h.fileSent_isPrefix, ⟨_, h.onMsg⟩, fun _ _ hstep ↦ h.stored_step hstep⟩

/-- Two pieces are sent and a line; of the first piece one byte is written. -/
theorem stored_isPrefix_short :
    ∃ s, Run Step (initial [1, 2, 3] [104, 105, 10] 7) [.file (.openFile true),
      .file (.read (some 2)), .msg .fgets, .file (.sctpSendmsg true), .file (.read (some 1)),
      .msg (.sctpSendmsg true), .file (.sctpSendmsg true), .cln (.openFile true),
      .cln (.sctpRecvmsg msgStream), .cln (.handle none), .cln (.sctpRecvmsg fileStream),
      .cln (.handle (some 1))] s ∧
      s.stored = [1] ∧ s.stored <+: [1, 2, 3] := by
  have hsome : (List.foldlM exec (initial [1, 2, 3] [104, 105, 10] 7) [.file (.openFile true),
      .file (.read (some 2)), .msg .fgets, .file (.sctpSendmsg true), .file (.read (some 1)),
      .msg (.sctpSendmsg true), .file (.sctpSendmsg true), .cln (.openFile true),
      .cln (.sctpRecvmsg msgStream), .cln (.handle none), .cln (.sctpRecvmsg fileStream),
      .cln (.handle (some 1))]).isSome = true := by
    decide
  obtain ⟨s, hs, hrun⟩ := exists_run_of_isSome exec hsome
  have hstored : s.stored = [1] := by
    cases hs
    rfl
  exact ⟨s, hrun, hstored, (stored_isPrefix hrun).1⟩

end Conn

end Sctp

end AllProjects
