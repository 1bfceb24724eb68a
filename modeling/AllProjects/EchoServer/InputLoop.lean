import AllProjects.EchoServer.Handler
import AllProjects.Sctp.Session

/-!
# What is typed and what is sent

The clients of the echo servers and the message thread of the SCTP client read a line with `fgets`,
clear the character before the first NUL and send the string that is left, until it is `exit`. That
character is the newline when the line has one, fits into the buffer and has no NUL in it. Otherwise
it is one that was typed; and with a NUL at the start of the line the store is in front of the
buffer.

So every round sends at most what was typed but for the newline, and loses something unless the line
is of the first kind. What the calls that send and receive return is not looked at here: they
succeed.
-/

namespace AllProjects.EchoServer

open Sctp (readLine fgets chop length_readLine_le)

/-! ## Reading a line -/

theorem readLine_append_rest (n : ℕ) (input : List UInt8) :
    (readLine n input).1 ++ (readLine n input).2 = input := by
  induction n generalizing input with
  | zero => rfl
  | succ n ih =>
    cases input with
    | nil => rfl
    | cons b input =>
      rw [readLine]
      split
      · rfl
      · exact congrArg (b :: ·) (ih input)

theorem readLine_newline (n : ℕ) (input : List UInt8) :
    10 ∉ (readLine n input).1 ∨ ∃ l, (readLine n input).1 = l ++ [10] ∧ 10 ∉ l := by
  induction n generalizing input with
  | zero => exact Or.inl List.not_mem_nil
  | succ n ih =>
    cases input with
    | nil => exact Or.inl List.not_mem_nil
    | cons b input =>
      rw [readLine]
      by_cases hb : b = 10
      · rw [if_pos hb, hb]
        exact Or.inr ⟨[], rfl, List.not_mem_nil⟩
      · rw [if_neg hb]
        obtain h | ⟨l, hl, h⟩ := ih input
        · exact Or.inl (List.not_mem_cons_of_ne_of_not_mem (Ne.symm hb) h)
        · refine Or.inr ⟨b :: l, congrArg (b :: ·) hl, ?_⟩
          exact List.not_mem_cons_of_ne_of_not_mem (Ne.symm hb) h

theorem readLine_line {n : ℕ} {l : List UInt8} (h : 10 ∉ l) (hlen : l.length < n)
    (rest : List UInt8) : readLine n (l ++ 10 :: rest) = (l ++ [10], rest) := by
  induction l generalizing n with
  | nil =>
    obtain ⟨n, rfl⟩ := Nat.exists_eq_add_of_lt hlen
    rfl
  | cons b l ih =>
    rw [List.mem_cons, not_or] at h
    rw [List.length_cons] at hlen
    obtain ⟨n, rfl⟩ := Nat.exists_eq_succ_of_ne_zero (show n ≠ 0 by omega)
    rw [List.cons_append, readLine, if_neg (Ne.symm h.1), ih h.2 (by omega)]
    rfl

theorem length_rest_lt {n : ℕ} (hn : 0 < n) {input line rest : List UInt8}
    (h : fgets (n + 1) input = some (line, rest)) : rest.length < input.length := by
  rw [fgets] at h
  split at h
  · cases h
  · rename_i hne
    rw [Nat.add_sub_cancel, Option.some_inj] at h
    obtain ⟨b, input, rfl⟩ := List.exists_cons_of_ne_nil hne
    obtain ⟨n, rfl⟩ := Nat.exists_eq_succ_of_ne_zero hn.ne'
    have happend := congrArg List.length (readLine_append_rest (n + 1) (b :: input))
    have hline : 0 < (readLine (n + 1) (b :: input)).1.length := by
      rw [readLine]
      split <;> exact Nat.succ_pos _
    rw [List.length_append, h] at happend
    rw [h] at hline
    dsimp only at happend hline
    omega

/-! ## The loop -/

/-- `!strcmp(msg, "exit")`, for the string that was sent. -/
def SaysExit (msg : List UInt8) : Prop := strcmp (msg ++ [0]) (exitText ++ [0]) = .ok 0

instance (msg : List UInt8) : Decidable (SaysExit msg) :=
  inferInstanceAs (Decidable (strcmp _ _ = _))

/-- The loop with a buffer of `n + 2` bytes: the messages that are sent and the input that is left,
or `none` when something is stored outside the buffer. -/
def inputLoop (n : ℕ) (input : List UInt8) : Option (List (List UInt8) × List UInt8) :=
  match hline : fgets (n + 2) input with
  | none => some ([], [])
  | some (line, rest) => do
    let msg ← chop line
    if SaysExit msg then some ([msg], rest)
    else
      have : rest.length < input.length := length_rest_lt (Nat.succ_pos n) hline
      let (msgs, left) ← inputLoop n rest
      some (msg :: msgs, left)
termination_by input.length

/-- `msg_hndl` of the SCTP client. -/
def sctpMsgHndl : List UInt8 → Option (List (List UInt8) × List UInt8) := inputLoop 254

variable {n : ℕ} {input line rest left msg : List UInt8} {msgs : List (List UInt8)}

theorem saysExit_iff (h0 : 0 ∉ msg) : SaysExit msg ↔ msg = exitText :=
  strcmp_eq_zero_iff (cstring_append_zero h0 []) rfl

theorem inputLoop_of_some (h : fgets (n + 2) input = some (line, rest)) :
    inputLoop n input = (chop line).bind fun msg ↦
      if SaysExit msg then some ([msg], rest)
      else (inputLoop n rest).map fun r ↦ (msg :: r.1, r.2) := by
  rw [inputLoop]
  split
  · rename_i hnone
    cases h.symm.trans hnone
  · rename_i hline
    cases h.symm.trans hline
    cases chop line with
    | none => rfl
    | some msg => cases inputLoop n rest <;> rfl

theorem fgets_eq_some (h : fgets (n + 2) input = some (line, rest)) :
    input = line ++ rest ∧ (10 ∉ line ∨ ∃ l, line = l ++ [10] ∧ 10 ∉ l) ∧ line.length ≤ n + 1
      ∧ rest.length < input.length := by
  have hlt := length_rest_lt (Nat.succ_pos n) h
  rw [fgets] at h
  split at h
  · cases h
  · rw [Nat.add_sub_cancel_right (n + 1) 1, Option.some_inj] at h
    have happend := readLine_append_rest (n + 1) input
    have hnewline := readLine_newline (n + 1) input
    have hlength := length_readLine_le (n + 1) input
    rw [h] at happend hnewline hlength
    exact ⟨happend.symm, hnewline, hlength, hlt⟩

theorem fgets_line {l : List UInt8} (hl : 10 ∉ l) (hlen : l.length ≤ n) (rest : List UInt8) :
    fgets (n + 2) (l ++ 10 :: rest) = some (l ++ [10], rest) := by
  have hne : l ++ 10 :: rest ≠ [] := List.append_ne_nil_of_right_ne_nil _ (List.cons_ne_nil _ _)
  rw [fgets, if_neg hne, Nat.add_sub_cancel_right (n + 1) 1, readLine_line hl (by omega)]

/-- What the thread has still to send. -/
def toSend (stdin : List UInt8) : Sctp.MsgHndl → Option (List (List UInt8))
  | .fgets => (sctpMsgHndl stdin).map Prod.fst
  | .sctpSendmsg msg =>
    if SaysExit msg then some [msg] else (sctpMsgHndl stdin).map fun r ↦ msg :: r.1
  | .exited => none

/-- What was sent, and what the thread has still to send, is what the loop sends. -/
structure Sending (msgs : List (List UInt8)) (s : Sctp.Conn) : Prop where
  sent : s.msgSent <+: msgs
  rest : s.msgHndl ≠ .exited →
    ∃ more, toSend s.stdin s.msgHndl = some more ∧ msgs = s.msgSent ++ more
  short : ∀ msg, s.msgHndl = .sctpSendmsg msg → 0 ∉ msg ∧ msg.length ≤ Sctp.maxMsgSize

theorem chop_eq_some (h : chop line = some msg) : 0 ∉ msg ∧ msg.length ≤ line.length := by
  refine ⟨?_, Sctp.length_chop_le h⟩
  obtain ⟨s, hs, hmsg⟩ := Option.bind_eq_some_iff.mp h
  have h0 := zero_not_mem_of_cstring hs
  split at hmsg
  · cases hmsg
  · cases hmsg
    exact fun hmem ↦ h0 (List.mem_of_mem_dropLast hmem)

theorem Sending.frame {s t : Sctp.Conn} (h : Sending msgs s) (hsent : t.msgSent = s.msgSent)
    (hmsg : t.msgHndl = s.msgHndl) (hstdin : t.stdin = s.stdin) : Sending msgs t where
  sent := by rw [hsent]; exact h.sent
  rest := by rw [hsent, hmsg, hstdin]; exact h.rest
  short := by rw [hmsg]; exact h.short

theorem Sending.exited {s : Sctp.Conn} (h : Sending msgs s) :
    Sending msgs { s with msgHndl := .exited } where
  sent := h.sent
  rest hne := absurd rfl hne
  short _ heq := by cases heq

theorem Sending.clientMove {s t : Sctp.Conn} {e : Sctp.Event} (h : Sending msgs s)
    (hmove : Sctp.Conn.ClientMove s e t) : Sending msgs t := by
  cases hmove with
  | openFile _ | openErr _ | read _ _ _ _ | readEof _ _ | readErr _ | sendFile _ | sendFileErr _
  | close => exact h.frame rfl rfl rfl
  | @fgets line rest msg hmsg hline hchop =>
    obtain ⟨more, htoSend, hmsgs⟩ := h.rest (by rw [hmsg]; nofun)
    rw [hmsg, toSend, sctpMsgHndl, inputLoop_of_some hline, hchop, Option.bind_some] at htoSend
    obtain ⟨h0, hlen⟩ := chop_eq_some hchop
    refine ⟨h.sent, fun _ ↦ ⟨more, ?_, hmsgs⟩, ?_⟩
    · rw [toSend, ← htoSend]
      split
      · rfl
      · rw [Option.map_map]
        rfl
    · rintro _ ⟨⟩
      have hfits : line.length ≤ 254 + 1 := (fgets_eq_some hline).2.2.1
      exact ⟨h0, hlen.trans (hfits.trans (by decide))⟩
  | fgetsEof _ _ | sendMsgErr _ => exact h.exited
  | @sendMsg msg hmsg =>
    obtain ⟨more, htoSend, hmsgs⟩ := h.rest (by rw [hmsg]; nofun)
    obtain ⟨h0, hlen⟩ := h.short msg hmsg
    rw [hmsg, toSend] at htoSend
    -- both buffers hold the string and a NUL
    have hexit : Sctp.IsExit msg ↔ SaysExit msg :=
      (Sctp.isExit_iff h0 hlen).trans (saysExit_iff h0).symm
    by_cases hsays : SaysExit msg
    · rw [if_pos hsays, Option.some_inj] at htoSend
      rw [if_pos (hexit.mpr hsays)]
      refine ⟨?_, fun hne ↦ absurd rfl hne, fun _ heq ↦ by cases heq⟩
      rw [hmsgs, ← htoSend]
    · rw [if_neg hsays] at htoSend
      obtain ⟨r, hr, rfl⟩ := Option.map_eq_some_iff.mp htoSend
      rw [if_neg (mt hexit.mp hsays)]
      have hsplit : msgs = (s.msgSent ++ [msg]) ++ r.1 := by
        rw [hmsgs, List.append_assoc, List.singleton_append]
      refine ⟨⟨r.1, hsplit.symm⟩, fun _ ↦ ⟨r.1, ?_, hsplit⟩, fun _ heq ↦ by cases heq⟩
      rw [toSend, hr]
      rfl

/-- **In every session** the messages that the thread has sent are the first ones that the loop
sends. -/
theorem msgSent_prefix {file stdin : List UInt8} {sinfoStream : ℕ} {es : List Sctp.Event}
    {s : Sctp.Conn} (hrun : Run Sctp.Conn.Step (Sctp.Conn.initial file stdin sinfoStream) es s)
    (hloop : sctpMsgHndl stdin = some (msgs, left)) : s.msgSent <+: msgs := by
  have hinitial : Sending msgs (Sctp.Conn.initial file stdin sinfoStream) := by
    refine ⟨List.nil_prefix, fun _ ↦ ⟨msgs, ?_, rfl⟩, fun _ heq ↦ by cases heq⟩
    exact congrArg (Option.map Prod.fst) hloop
  apply Sending.sent
  apply hrun.invariant (I := Sending msgs) _ hinitial
  intro s e t h hstep
  obtain hmove | ⟨c, -, hmove⟩ := Sctp.Conn.Step.cases hstep
  · exact h.clientMove hmove
  · cases hmove <;> exact h.frame rfl rfl rfl

end AllProjects.EchoServer
