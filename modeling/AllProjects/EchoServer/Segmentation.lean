import AllProjects.EchoServer.Handler

/-!
# What TCP does to the echo

TCP delivers a stream of bytes, and the handler takes what one call of `recv` returns for a message.
The same stream may come in any pieces. Piece by piece, a single byte at a time, no piece is ever
`exit`; and wherever the four bytes stand in the stream, one of its cuttings delivers exactly them.
So the result depends on the cutting for the streams with `exit` somewhere in them, and for no
others.
-/

namespace AllProjects.EchoServer

/-! ## Comparison with `exit` -/

theorem isExit_exitText : IsExit exitText := by decide

theorem prefix_of_isExit {msg : List UInt8} (h : IsExit msg) : exitText <+: msg := by
  have hexit : cstring (exitText ++ [0]) = some exitText := rfl
  have hbuffer := cstring_eq_of_strcmp hexit (strcmp_eq_zero_symm h)
  obtain ⟨hzero, rest, heq⟩ := cstring_eq_some_iff.mp hbuffer
  rw [buffer, List.append_eq_append_iff] at heq
  obtain ⟨left, hleft, hright⟩ | ⟨left, rfl, -⟩ := heq
  · -- the message is a part of the text, and the zeros behind it must supply the rest
    cases left with
    | nil =>
      rw [List.append_nil] at hleft
      rw [hleft]
    | cons b left =>
      have hb : b ∈ List.replicate (maxMsgSize - msg.length) 0 := by
        rw [hright]
        exact List.mem_cons_self
      rw [List.mem_replicate] at hb
      refine absurd ?_ hzero
      rw [hleft, hb.2]
      exact List.mem_append_right _ List.mem_cons_self
  · exact List.prefix_append _ _

theorem not_isExit_singleton (b : UInt8) : ¬ IsExit [b] := by
  intro h
  have hlen := (prefix_of_isExit h).length_le
  rw [List.length_singleton] at hlen
  exact absurd hlen (by decide)

/-! ## Outcomes -/

/-- Every `recv` returns bytes, and every `send` takes them all. -/
def Smooth (s : Conn) : Event → Prop
  | .recv msg => msg ≠ []
  | .send bts => bts = s.phase.pending.length
  | .recvFails | .sendFails => False
  | .close | .free | .pthreadExit => True

instance (s : Conn) : (e : Event) → Decidable (Smooth s e)
  | .recv msg => inferInstanceAs (Decidable (msg ≠ []))
  | .send bts => inferInstanceAs (Decidable (bts = _))
  | .recvFails | .sendFails => inferInstanceAs (Decidable False)
  | .close | .free | .pthreadExit => inferInstanceAs (Decidable True)

/-- The handler has got a byte stream in some cutting: it waits for more after the last byte, or it
has ended before. -/
structure Outcome (tag : String) (bs : List UInt8) (s : Conn) : Prop where
  run : ∃ es, Run (fun s e t ↦ Step tag s e t ∧ Smooth s e) {} es s
  settled : (s.phase = .recv ∧ s.received = bs)
    ∨ (s.phase = .ended .success ∧ s.received <+: bs)

variable {tag : String} {s t : Conn} {e : Event} {es : List Event} {msg bs : List UInt8}

theorem Smooth.sendsAll (h : Smooth s e) : SendsAll s e := by
  cases e with
  | send => exact h
  | recv | recvFails | sendFails | close | free | pthreadExit => trivial

/-- Where the handler has stopped serving, it has received `exit`. -/
def ExitSeen (s : Conn) : Prop := s.phase.Serving ∨ exitText <:+: s.received

theorem Move.exitSeen (h : Move s e t) (hsmooth : Smooth s e) (hs : ExitSeen s) : ExitSeen t := by
  cases h with
  | recv | send => exact .inl trivial
  | recvExit _ _ hexit =>
    exact .inr ((prefix_of_isExit hexit).isInfix.trans (List.suffix_append _ _).isInfix)
  | recvFails | sendFails => exact hsmooth.elim
  | close hphase | free hphase | pthreadExit hphase =>
    refine .inr (hs.resolve_left ?_)
    rw [hphase]
    exact id

/-- Without `exit` in it a stream has one outcome, in which everything is sent back. -/
theorem Outcome.of_not_infix (h : Outcome tag bs s) (hbs : ¬ exitText <:+: bs) :
    s.phase = .recv ∧ s.received = bs ∧ s.accepted = bs := by
  obtain ⟨⟨es, hrun⟩, hsettled⟩ := h
  have hexit := hrun.invariant (I := ExitSeen)
    (fun _ _ _ h hstep ↦ (Move.of_step hstep.1).exitSeen hstep.2 h) (.inl trivial)
  have hechoed := hrun.invariant (I := Echoed)
    (fun _ _ _ h hstep ↦ (Move.of_step hstep.1).echoed hstep.2.sendsAll h) (fun _ ↦ rfl)
  obtain ⟨hphase, rfl⟩ | ⟨hphase, hprefix⟩ := hsettled
  · have hreceived := hechoed (by rw [hphase]; trivial)
    rw [hphase, Phase.pending_recv, List.append_nil] at hreceived
    exact ⟨hphase, rfl, hreceived.symm⟩
  · refine absurd ((hexit.resolve_left ?_).trans hprefix.isInfix) hbs
    rw [hphase]
    exact id

/-! ## Two cuttings -/

theorem exists_step_recv (hphase : s.phase = .recv) (hlen : msg.length ≤ maxMsgSize)
    (hexit : ¬ IsExit msg) :
    ∃ t, Step tag s (.recv msg) t ∧ t.phase = .send msg ∧ t.received = s.received ++ msg := by
  refine ⟨_, if_pos ⟨hphase, hlen⟩, ?_⟩
  rw [handle, if_neg hexit]
  exact ⟨rfl, rfl⟩

theorem exists_step_exit (hphase : s.phase = .recv) :
    ∃ t, Step tag s (.recv exitText) t ∧ t.phase = .close .success
      ∧ t.received = s.received ++ exitText := by
  refine ⟨_, if_pos ⟨hphase, by decide⟩, ?_⟩
  rw [handle, if_pos isExit_exitText]
  exact ⟨rfl, rfl⟩

theorem exists_step_send (hphase : s.phase = .send msg) :
    ∃ t, Step tag s (.send msg.length) t ∧ t.phase = .recv ∧ t.received = s.received := by
  refine ⟨{ s.print (.printf (tag ++ "Server: send message to client: '%s' (%d bytes)\n\n") msg
    msg.length) with phase := .recv, accepted := s.accepted ++ msg.take msg.length }, ?_, rfl, rfl⟩
  rw [Step, exec.eq_def]
  dsimp only
  rw [hphase]
  exact if_pos le_rfl

/-- One byte at a time. -/
def bytewise (bs : List UInt8) : List Event := bs.flatMap fun b ↦ [.recv [b], .send 1]

theorem run_bytewise (tag : String) (bs : List UInt8) (hphase : s.phase = .recv) :
    ∃ t, Run (fun s e t ↦ Step tag s e t ∧ Smooth s e) s (bytewise bs) t ∧ t.phase = .recv
      ∧ t.received = s.received ++ bs := by
  induction bs generalizing s with
  | nil => exact ⟨s, Run.nil s, hphase, (List.append_nil _).symm⟩
  | cons b bs ih =>
    have hlen : [b].length ≤ maxMsgSize := Nat.succ_le_succ (Nat.zero_le _)
    obtain ⟨u, hrecv, husend, hureceived⟩ := exists_step_recv hphase hlen (not_isExit_singleton b)
    obtain ⟨v, hsend, hvrecv, hvreceived⟩ := exists_step_send husend
    obtain ⟨t, hrun, htphase, htreceived⟩ := ih hvrecv
    have hall : Smooth u (.send 1) := by
      rw [Smooth, husend]
      rfl
    refine ⟨t, Run.cons ⟨hrecv, List.cons_ne_nil _ _⟩ (Run.cons ⟨hsend, hall⟩ hrun), htphase, ?_⟩
    · rw [htreceived, hvreceived, hureceived, List.append_assoc, List.singleton_append]

theorem run_exit (hphase : s.phase = .recv) :
    ∃ t, Run (fun s e t ↦ Step tag s e t ∧ Smooth s e) s
        [.recv exitText, .close, .free, .pthreadExit] t
      ∧ t.phase = .ended .success ∧ t.received = s.received ++ exitText := by
  obtain ⟨u, hexit, huphase, hureceived⟩ := exists_step_exit hphase
  refine ⟨{ u with phase := .ended .success, closed := true, freed := true },
    Run.cons ⟨hexit, List.cons_ne_nil _ _⟩ ?_, rfl, hureceived⟩
  exact Run.cons ⟨step_close huphase, trivial⟩
    (Run.cons ⟨step_free rfl, trivial⟩ (Run.single ⟨step_pthreadExit rfl, trivial⟩))

/-- **The echo depends on the bytes alone**, not on how TCP cuts them, exactly for the streams
without `exit` in them. -/
theorem outcome_unique_iff :
    (∀ s t, Outcome tag bs s → Outcome tag bs t →
        s.accepted = t.accepted ∧ s.received = t.received ∧ s.phase = t.phase)
      ↔ ¬ exitText <:+: bs := by
  constructor
  · rintro hunique ⟨pre, post, rfl⟩
    have hrecv : ({} : Conn).phase = .recv := rfl
    obtain ⟨s, hs, hsphase, hsreceived⟩ := run_bytewise tag (pre ++ exitText ++ post) hrecv
    obtain ⟨u, hu, huphase, hureceived⟩ := run_bytewise tag pre hrecv
    obtain ⟨t, ht, htphase, htreceived⟩ := run_exit huphase
    have hbytewise : Outcome tag (pre ++ exitText ++ post) s :=
      ⟨⟨_, hs⟩, .inl ⟨hsphase, hsreceived⟩⟩
    have hexit : Outcome tag (pre ++ exitText ++ post) t := by
      refine ⟨⟨_, hu.append ht⟩, .inr ⟨htphase, ?_⟩⟩
      rw [htreceived, hureceived]
      exact List.prefix_append _ _
    have hphase := (hunique s t hbytewise hexit).2.2
    rw [hsphase, htphase] at hphase
    cases hphase
  · intro hbs s t hs ht
    obtain ⟨hsphase, hsreceived, hsaccepted⟩ := hs.of_not_infix hbs
    obtain ⟨htphase, htreceived, htaccepted⟩ := ht.of_not_infix hbs
    exact ⟨hsaccepted.trans htaccepted.symm, hsreceived.trans htreceived.symm,
      hsphase.trans htphase.symm⟩

/-- The handler with the discipline of the environment. -/
def smoothExec (tag : String) (s : Conn) (e : Event) : Option Conn :=
  if Smooth s e then exec tag s e else none

theorem smooth_of_smoothExec (h : Run (fun s e t ↦ smoothExec tag s e = some t) s es t) :
    Run (fun s e t ↦ Step tag s e t ∧ Smooth s e) s es t := by
  apply h.imp
  intro s e t hstep
  exact (Option.ite_none_right_eq_some.mp hstep).symm

/-- `exit` in one piece ends the handler, and in two pieces it is sent back. -/
theorem exit_in_two_pieces : ∃ s t : Conn, Outcome "" exitText s ∧ Outcome "" exitText t
    ∧ s.phase = .recv ∧ s.accepted = exitText ∧ t.phase = .ended .success ∧ t.accepted = [] := by
  have hsfinal : ([.recv [101, 120], .send 2, .recv [105, 116], .send 2].foldlM (smoothExec "")
      {}).map (fun s ↦ (s.phase, s.received, s.accepted)) = some (.recv, exitText, exitText) := by
    decide
  have htfinal : ([.recv exitText, .close, .free, .pthreadExit].foldlM (smoothExec "") {}).map
      (fun t ↦ (t.phase, t.received, t.accepted)) = some (.ended .success, exitText, []) := by
    decide
  obtain ⟨s, hsrun, hs⟩ := exists_run_of_map hsfinal
  obtain ⟨t, htrun, ht⟩ := exists_run_of_map htfinal
  rw [Prod.mk.injEq, Prod.mk.injEq] at hs ht
  obtain ⟨hsphase, hsreceived, hsaccepted⟩ := hs
  obtain ⟨htphase, htreceived, htaccepted⟩ := ht
  refine ⟨s, t, ⟨⟨_, smooth_of_smoothExec hsrun⟩, .inl ⟨hsphase, hsreceived⟩⟩,
    ⟨⟨_, smooth_of_smoothExec htrun⟩, .inr ⟨htphase, ?_⟩⟩, hsphase, hsaccepted, htphase, htaccepted⟩
  rw [htreceived]

end AllProjects.EchoServer
