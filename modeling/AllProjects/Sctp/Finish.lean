import AllProjects.Sctp.Upload

/-!
# When a finished upload is complete

The end of a session is a message on one stream and the file is on the other, and nothing orders the
two. The server closes its file at `exit`, whether or not the client is done with the file.

A session that has ended normally has stored the whole file exactly when `exit` found nothing of the
file outstanding: all of it read, sent, received and written. The same ending also follows a `write`
that was short, where something is always missing.
-/

namespace AllProjects

namespace Sctp

namespace Conn

variable {file stdin : List UInt8} {stream : ℕ} {s t : Conn} {e : Event} {c : ClnCall}

/-- What the server has not received of the file. -/
def pending (s : Conn) : List UInt8 :=
  (s.flight fileStream).flatten ++ s.fileHndl.unsent ++ s.unread

/-- If the session has ended normally, the file is complete. -/
def Finished (file : List UInt8) (s : Conn) : Prop :=
  ∀ left, s.clnHndl = .exited .success left → s.stored = file

/-- Where the step ends the session, nothing of the file is outstanding: `exit` is read when all of
it was received, and what was received is written. -/
def Complete (s : Conn) (e : Event) : Prop :=
  ∀ msg rtn, s.clnHndl = .handle msg → e = .cln (.handle rtn) →
    (s.sinfoStream = msgStream → IsExit msg → s.pending = []) ∧
      (s.sinfoStream = fileStream → rtn = some msg.length ∨ msg = [] ∧ s.pending = [])

theorem Tracks.stored_append (h : Tracks file s) :
    s.stored ++ (s.clnHndl.unwritten s.sinfoStream ++ s.pending) = file := by
  rw [← h.sent, ← h.onFile, List.flatten_append, h.stored, pending]
  simp only [List.append_assoc]

theorem Tracks.stored_eq_iff (h : Tracks file s) :
    s.stored = file ↔ s.clnHndl.unwritten s.sinfoStream = [] ∧ s.pending = [] := by
  rw [← List.append_eq_nil_iff]
  constructor
  · intro heq
    have happend := h.stored_append
    rwa [heq, List.append_right_eq_self] at happend
  · intro hnil
    have happend := h.stored_append
    rwa [hnil, List.append_nil] at happend

theorem finished_initial : Finished file (initial file stdin stream) := fun _ h ↦ by cases h

theorem complete_handle_iff {msg : List UInt8} {rtn : Option ℕ} (hcln : s.clnHndl = .handle msg) :
    Complete s (.cln (.handle rtn)) ↔
      (s.sinfoStream = msgStream → IsExit msg → s.pending = []) ∧
        (s.sinfoStream = fileStream → rtn = some msg.length ∨ msg = [] ∧ s.pending = []) := by
  constructor
  · intro h
    exact h msg rtn hcln rfl
  · intro h msg' rtn' hcln' hrtn
    obtain rfl := ClnHndl.handle.inj (hcln.symm.trans hcln')
    cases hrtn
    exact h

theorem Tracks.stored_ne_of_short (h : Tracks file s) {msg : List UInt8} {n : ℕ}
    (hcln : s.clnHndl = .handle msg) (hfile : s.sinfoStream = fileStream) (hn : n < msg.length) :
    s.stored ++ msg.take n ≠ file := by
  intro heq
  have ht := (h.clnMove (.write hcln hfile hn.le)).stored_eq_iff.mp heq
  simp only [if_neg hn.ne] at ht
  exact absurd (List.drop_eq_nil_iff.mp ht.1) (not_le.mpr hn)

theorem Tracks.finished_iff_of_clnMove (h : Tracks file s) (hmove : ClnMove s c t) :
    Finished file t ↔ Complete s (.cln c) := by
  have hstored := h.stored_eq_iff
  cases hmove with
  | openFile _ | openErr _ | sctpRecvmsg _ _ | recvEof _ _ _ _ | recvErr _ =>
    exact iff_of_true (fun _ heq ↦ by cases heq) fun _ _ _ heq ↦ by cases heq
  | @text msg rtn hcln hmsg =>
    have hfile := ne_fileStream_of_eq hmsg
    rw [hcln, ClnHndl.unwritten, if_neg hfile] at hstored
    rw [complete_handle_iff hcln]
    constructor
    · intro hfin
      exact ⟨fun _ hexit ↦ (hstored.mp (hfin [] (if_pos hexit))).2, fun heq ↦ absurd heq hfile⟩
    · rintro ⟨hexits, -⟩ left hleft
      simp only at hleft
      split_ifs at hleft with hexit
      exact hstored.mpr ⟨rfl, hexits hmsg hexit⟩
  | @write msg n hcln hfile hn =>
    have hmsg := ne_msgStream_of_eq hfile
    rw [complete_handle_iff hcln]
    rcases hn.eq_or_lt with hlen | hlt
    · apply iff_of_true
      · intro left hleft
        simp only [if_pos hlen] at hleft
        cases hleft
      · exact ⟨fun heq ↦ absurd heq hmsg, fun _ ↦ Or.inl (congrArg some hlen)⟩
    -- after a short write the rest of the message is lost
    · apply iff_of_false
      · intro hfin
        exact h.stored_ne_of_short hcln hfile hlt (hfin (msg.drop n) (if_neg hlt.ne))
      · rintro ⟨-, hwrites⟩
        rcases hwrites hfile with heq | ⟨hnil, -⟩
        · exact hlt.ne (Option.some.inj heq)
        · rw [hnil] at hlt
          exact Nat.not_lt_zero n hlt
  | @writeErr msg hcln hfile =>
    have hmsg := ne_msgStream_of_eq hfile
    rw [hcln, ClnHndl.unwritten, if_pos hfile] at hstored
    rw [complete_handle_iff hcln]
    constructor
    · intro hfin
      exact ⟨fun heq ↦ absurd heq hmsg, fun _ ↦ Or.inr (hstored.mp (hfin msg rfl))⟩
    · rintro ⟨-, hwrites⟩ left -
      exact hstored.mpr ((hwrites hfile).resolve_left (Option.some_ne_none _).symm)
  | @other msg rtn hcln hmsg hfile =>
    rw [complete_handle_iff hcln]
    apply iff_of_true
    · intro _ heq
      cases heq
    · exact ⟨fun heq ↦ absurd heq hmsg, fun heq ↦ absurd heq hfile⟩

/-- A step keeps finished sessions complete exactly when it completes what it finishes. -/
theorem Tracks.finished_iff (h : Tracks file s) (hfin : Finished file s) (hstep : Step s e t) :
    Finished file t ↔ Complete s e := by
  rcases hstep.cases with hmove | ⟨c, rfl, hmove⟩
  · -- the client does not end the session
    cases hmove <;> exact iff_of_true hfin fun _ _ _ heq ↦ by cases heq
  · exact h.finished_iff_of_clnMove hmove

/-- **When a finished upload is complete.** In all states of a run, a session that has ended
normally has stored the whole file, exactly when the server reads `exit` only after it has received
the whole file, and no `write` is short. -/
theorem finished_iff_complete (file stdin : List UInt8) (stream : ℕ) (es : List Event) (s : Conn) :
    Run (fun s e t ↦ Step s e t ∧ Finished file t) (initial file stdin stream) es s ↔
      Run (fun s e t ↦ Step s e t ∧ Complete s e) (initial file stdin stream) es s :=
  Run.always_iff_sound (fun _ _ _ h hstep ↦ h.step hstep) (fun _ _ _ h hfin hstep ↦
    h.finished_iff hfin hstep) tracks_initial finished_initial

/-- The client has sent its file and then `exit`, and `exit` comes first. -/
theorem finished_incomplete :
    ∃ s, Run Step (initial [1] [101, 120, 105, 116, 10] 7) [.file (.openFile true),
      .file (.read (some 1)), .file (.sctpSendmsg true), .file (.read (some 0)), .msg .fgets,
      .msg (.sctpSendmsg true), .cln (.openFile true), .cln (.sctpRecvmsg msgStream),
      .cln (.handle none)] s ∧
      s.clnHndl = .exited .success [] ∧ s.stored = [] ∧ ¬Finished [1] s := by
  have hsome : (List.foldlM exec (initial [1] [101, 120, 105, 116, 10] 7) [.file (.openFile true),
      .file (.read (some 1)), .file (.sctpSendmsg true), .file (.read (some 0)), .msg .fgets,
      .msg (.sctpSendmsg true), .cln (.openFile true), .cln (.sctpRecvmsg msgStream),
      .cln (.handle none)]).isSome = true := by
    decide
  obtain ⟨s, hs, hrun⟩ := exists_run_of_isSome exec hsome
  have hend : s.clnHndl = .exited .success [] := by
    cases hs
    rfl
  have hstored : s.stored = [] := by
    cases hs
    rfl
  refine ⟨s, hrun, hend, hstored, ?_⟩
  intro hfin
  have hfile := hfin [] hend
  rw [hstored] at hfile
  cases hfile

end Conn

end Sctp

end AllProjects
