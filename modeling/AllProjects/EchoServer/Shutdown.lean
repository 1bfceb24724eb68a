import AllProjects.EchoServer.Handler
import AllProjects.Sctp.Handler

/-!
# The end of a connection

When the peer closes its side, `recv` and `sctp_recvmsg` return 0. None of the handlers looks at
that. In a TCP handler the cleared buffer is no `exit`, so it is sent, with no bytes in it, and then
`recv` is called again. In the SCTP handler the stream number of the message before decides what
happens to the empty message, and only a `write` that fails ends the loop.

A handler stops at the end of its connection when it is off the socket from then on and, once it
has nothing left to do, has closed the socket, freed its record and ended.
-/

namespace AllProjects

/-! ## TCP -/

namespace EchoServer

/-- The handler stops when the peer has closed. -/
structure StopsAtEof (tag : String) (s : Conn) : Prop where
  off : s.eof = true → ¬ s.phase.Serving
  ends : s.eof = true → (∀ e t, ¬ Step tag s e t) →
    (∃ status, s.phase = .ended status) ∧ s.closed = true ∧ s.freed = true

/-- What was given back on the way out. -/
structure Released (s : Conn) : Prop where
  free : ∀ status, s.phase = .free status → s.closed = true
  pthreadExit : ∀ status, s.phase = .pthreadExit status → s.closed = true ∧ s.freed = true
  ended : ∀ status, s.phase = .ended status → s.closed = true ∧ s.freed = true

variable {tag : String} {s t : Conn} {e : Event} {es : List Event}

theorem Move.released (h : Move s e t) (hs : Released s) : Released t := by
  cases h with
  | recv | recvExit | recvFails | send | sendFails => exact ⟨nofun, nofun, nofun⟩
  | close => exact ⟨fun _ _ ↦ rfl, nofun, nofun⟩
  | free hphase => exact ⟨nofun, fun _ _ ↦ ⟨hs.free _ hphase, rfl⟩, nofun⟩
  | pthreadExit hphase => exact ⟨nofun, nofun, fun _ _ ↦ hs.pthreadExit _ hphase⟩

/-- Off the socket there is a call left until the thread has ended. -/
theorem ended_of_not_serving (hs : ¬ s.phase.Serving) (hstuck : ∀ e t, ¬ Step tag s e t) :
    ∃ status, s.phase = .ended status := by
  cases hphase : s.phase with
  | recv | send =>
    rw [hphase] at hs
    exact absurd trivial hs
  | close status => exact absurd (step_close hphase) (hstuck _ _)
  | free status => exact absurd (step_free hphase) (hstuck _ _)
  | pthreadExit status => exact absurd (step_pthreadExit hphase) (hstuck _ _)
  | ended status => exact ⟨status, rfl⟩

theorem Released.stopsAtEof_iff (h : Released s) :
    StopsAtEof tag s ↔ (s.eof = true → ¬ s.phase.Serving) := by
  refine ⟨StopsAtEof.off, fun hoff ↦ ⟨hoff, ?_⟩⟩
  intro heof hstuck
  obtain ⟨status, hended⟩ := ended_of_not_serving (hoff heof) hstuck
  exact ⟨⟨status, hended⟩, h.ended _ hended⟩

theorem Move.off_iff (h : Move s e t) (hs : s.eof = true → ¬ s.phase.Serving) :
    (t.eof = true → ¬ t.phase.Serving) ↔ e ≠ .recv [] := by
  have hopen : s.phase = .recv → s.eof = false := by
    intro hphase
    rw [← Bool.not_eq_true]
    intro heof
    refine hs heof ?_
    rw [hphase]
    trivial
  cases h with
  | @recv msg _ hphase =>
    rw [hopen hphase, Bool.false_or, List.isEmpty_iff, ne_eq, Event.recv.injEq]
    exact ⟨fun hoff heq ↦ hoff heq trivial, fun hne heq ↦ absurd heq hne⟩
  | @recvExit msg _ hphase _ hexit =>
    refine iff_of_true (fun _ ↦ id) ?_
    rintro ⟨⟩
    exact not_isExit_nil hexit
  | @send msg _ _ hphase =>
    refine iff_of_true ?_ nofun
    intro heof
    refine absurd ?_ (hs heof)
    rw [hphase]
    trivial
  | recvFails | sendFails | close | free | pthreadExit => exact iff_of_true (fun _ ↦ id) nofun

theorem released_initial : Released {} := ⟨nofun, nofun, nofun⟩

theorem stopsAtEof_initial : StopsAtEof tag {} := ⟨nofun, nofun⟩

/-- A TCP handler stops at the end of its connection only where there is no end. -/
theorem run_stopsAtEof_iff :
    Run (fun s e t ↦ Step tag s e t ∧ StopsAtEof tag t) {} es s
      ↔ Run (fun s e t ↦ Step tag s e t ∧ e ≠ .recv []) {} es s := by
  have hreleased : ∀ s e t, Released s → Step tag s e t → Released t :=
    fun _ _ _ h hstep ↦ (Move.of_step hstep).released h
  refine Run.always_iff_sound hreleased ?_ released_initial stopsAtEof_initial
  intro s e t h hs hstep
  rw [(hreleased s e t h hstep).stopsAtEof_iff]
  exact (Move.of_step hstep).off_iff hs.off

/-- How many calls are left. -/
def Phase.rank : Phase → ℕ
  | .recv | .send _ => 4
  | .close _ => 3
  | .free _ => 2
  | .pthreadExit _ => 1
  | .ended _ => 0

theorem Move.rank_lt (h : Move s e t) (ht : ¬ t.phase.Serving) : t.phase.rank < s.phase.rank := by
  cases h with
  | recv | send => exact absurd trivial ht
  | recvExit hphase | recvFails hphase | sendFails hphase | close hphase | free hphase
  | pthreadExit hphase =>
    rw [hphase]
    exact Nat.lt_succ_self _

theorem length_le_of_off
    (hrun : Run (fun s e t ↦ Step tag s e t ∧ ¬ t.phase.Serving) s es t) : es.length ≤ 4 := by
  have hle := hrun.length_le (d := fun s ↦ s.phase.rank)
    fun _ _ _ h ↦ (Move.of_step h.1).rank_lt h.2
  refine hle.trans ?_
  cases s.phase with
  | recv | send | close | free | pthreadExit | ended => exact Nat.le_of_ble_eq_true rfl

end EchoServer

/-! ## SCTP -/

namespace Sctp.Handler

/-- The handler stops when the peer has closed. -/
structure StopsAtEof (s : Thread) : Prop where
  off : s.eof = true → s.phase ≠ .sctpRecvmsg
  ends : s.eof = true → (∀ e t, ¬ Step s e t) →
    (∃ status, s.phase = .ended status) ∧ s.closed = true ∧ s.freed = true

/-- The end of the connection comes to the handler as an empty message of the file, and the `write`
of it fails. -/
def EofFails (s : Thread) : Event → Prop
  | .sctpRecvmsg msg stream => msg = [] → stream.getD s.sinfoStream = fileStream
  | .write rtn => s.eof = true → ∀ msg, s.phase = .write msg → rtn ≠ some msg.length
  | _ => True

/-- What was given back on the way out. Before the loop there is no end of the connection. -/
structure Released (s : Thread) : Prop where
  setup : ∀ c, s.phase = .setup c → s.eof = false
  free : ∀ status, s.phase = .free status → s.closed = true
  pthreadExit : ∀ status, s.phase = .pthreadExit status → s.closed = true ∧ s.freed = true
  ended : ∀ status, s.phase = .ended status → s.closed = true ∧ s.freed = true

variable {s t : Thread} {e : Event} {es : List Event} {sinfoStream : ℕ}

theorem released_initial : Released (initial sinfoStream) := ⟨fun _ _ ↦ rfl, nofun, nofun, nofun⟩

theorem Released.of_phase (h1 : ∀ c, t.phase ≠ .setup c) (h2 : ∀ status, t.phase ≠ .free status)
    (h3 : ∀ status, t.phase ≠ .pthreadExit status) (h4 : ∀ status, t.phase ≠ .ended status) :
    Released t :=
  ⟨fun c h ↦ absurd h (h1 c), fun status h ↦ absurd h (h2 status),
    fun status h ↦ absurd h (h3 status), fun status h ↦ absurd h (h4 status)⟩

theorem afterRecv_cases (stream : ℕ) (msg : List UInt8) :
    afterRecv stream msg = .sctpRecvmsg ∨ afterRecv stream msg = .write msg
      ∨ afterRecv stream msg = .closeFd .success := by
  rw [afterRecv]
  split
  · split
    · exact .inr (.inr rfl)
    · exact .inl rfl
  · split
    · exact .inr (.inl rfl)
    · exact .inl rfl

theorem afterRecv_nil (stream : ℕ) : afterRecv stream [] ≠ .sctpRecvmsg ↔ stream = fileStream := by
  have hexit : ¬ IsExit [] := by decide
  rw [afterRecv, if_neg hexit]
  split
  case isTrue hmsg =>
    rw [hmsg]
    decide
  case isFalse =>
    split
    case isTrue hfile => exact iff_of_true (by decide) hfile
    case isFalse hfile => exact iff_of_false (fun h ↦ h rfl) hfile

theorem Move.released (h : Move s e t) (hs : Released s) : Released t := by
  cases h with
  | @setup c hphase =>
    have heof := hs.setup c hphase
    cases c with
    | setsockopt | inetNtop | snprintf => exact ⟨fun _ _ ↦ heof, nofun, nofun, nofun⟩
    | openFile => exact .of_phase nofun nofun nofun nofun
  | @recv msg stream _ =>
    obtain hrecv | hwrite | hclose := afterRecv_cases (stream.getD s.sinfoStream) msg
    · rw [hrecv]
      exact .of_phase nofun nofun nofun nofun
    · rw [hwrite]
      exact .of_phase nofun nofun nofun nofun
    · rw [hclose]
      exact .of_phase nofun nofun nofun nofun
  | @write msg n _ _ =>
    split
    · exact .of_phase nofun nofun nofun nofun
    · exact .of_phase nofun nofun nofun nofun
  | setupFails | recvFails | writeFails | closeFd => exact .of_phase nofun nofun nofun nofun
  | close => exact ⟨nofun, fun _ _ ↦ rfl, nofun, nofun⟩
  | free hphase => exact ⟨nofun, nofun, fun _ _ ↦ ⟨hs.free _ hphase, rfl⟩, nofun⟩
  | pthreadExit hphase => exact ⟨nofun, nofun, nofun, fun _ _ ↦ hs.pthreadExit _ hphase⟩

theorem Released.ended_of_stuck (h : Released s) (heof : s.eof = true)
    (hoff : s.phase ≠ .sctpRecvmsg) (hstuck : ∀ e t, ¬ Step s e t) :
    ∃ status, s.phase = .ended status := by
  cases hphase : s.phase with
  | setup c =>
    rw [h.setup c hphase] at heof
    cases heof
  | sctpRecvmsg => exact absurd hphase hoff
  | write msg =>
    refine absurd ?_ (hstuck (.write none) { s with phase := .closeFd .success })
    rw [Step, hphase]
    rfl
  | closeFd status =>
    refine absurd ?_ (hstuck .closeFd { s with phase := .close status })
    rw [Step, hphase]
    rfl
  | close status =>
    refine absurd ?_ (hstuck .close { s with phase := .free status, closed := true })
    rw [Step, hphase]
    rfl
  | free status =>
    refine absurd ?_ (hstuck .free { s with phase := .pthreadExit status, freed := true })
    rw [Step, hphase]
    rfl
  | pthreadExit status =>
    refine absurd ?_ (hstuck .pthreadExit { s with phase := .ended status })
    rw [Step, hphase]
    rfl
  | ended status => exact ⟨status, rfl⟩

theorem Released.stopsAtEof_iff (h : Released s) :
    StopsAtEof s ↔ (s.eof = true → s.phase ≠ .sctpRecvmsg) := by
  refine ⟨StopsAtEof.off, fun hoff ↦ ⟨hoff, ?_⟩⟩
  intro heof hstuck
  obtain ⟨status, hended⟩ := h.ended_of_stuck heof (hoff heof) hstuck
  exact ⟨⟨status, hended⟩, h.ended _ hended⟩

theorem Move.off_iff (h : Move s e t) (hreleased : Released s)
    (hs : s.eof = true → s.phase ≠ .sctpRecvmsg) :
    (t.eof = true → t.phase ≠ .sctpRecvmsg) ↔ EofFails s e := by
  cases h with
  | setup hphase =>
    refine iff_of_true ?_ trivial
    intro heof
    exact absurd (hreleased.setup _ hphase) ((Bool.not_eq_false _).mpr heof)
  | @recv msg stream hphase =>
    have hopen : s.eof = false := by
      rw [← Bool.not_eq_true]
      exact fun heof ↦ hs heof hphase
    rw [EofFails, hopen, Bool.false_or, List.isEmpty_iff]
    refine forall_congr' fun hnil ↦ ?_
    rw [hnil]
    exact afterRecv_nil _
  | @write msg n hphase _ =>
    refine forall_congr' fun _ ↦ ?_
    dsimp only
    constructor
    · rintro hne msg' hphase' ⟨⟩
      rw [hphase] at hphase'
      cases hphase'
      exact hne (if_pos rfl)
    · intro hne heq
      rw [ite_eq_left_iff] at heq
      refine absurd (heq fun hlen ↦ hne msg hphase (congrArg some hlen)) nofun
  | writeFails => exact iff_of_true (fun _ ↦ nofun) fun _ _ _ ↦ nofun
  | setupFails | recvFails | closeFd | close | free | pthreadExit =>
    exact iff_of_true (fun _ ↦ nofun) trivial

/-- The SCTP handler stops at the end of its connection only where that comes to it as a part of the
file that it cannot write. -/
theorem run_stopsAtEof_iff :
    Run (fun s e t ↦ Step s e t ∧ StopsAtEof t) (initial sinfoStream) es s
      ↔ Run (fun s e t ↦ Step s e t ∧ EofFails s e) (initial sinfoStream) es s := by
  have hreleased : ∀ s e t, Released s → Step s e t → Released t :=
    fun _ _ _ h hstep ↦ (Move.of_step hstep).released h
  refine Run.always_iff_sound hreleased ?_ released_initial ⟨nofun, nofun⟩
  intro s e t h hs hstep
  rw [(hreleased s e t h hstep).stopsAtEof_iff]
  exact (Move.of_step hstep).off_iff h hs.off

/-- How many calls are left, as long as it is off the socket. -/
def Phase.rank : Phase → ℕ
  | .setup .setsockopt => 9
  | .setup .inetNtop => 8
  | .setup .snprintf => 7
  | .setup .openFile | .sctpRecvmsg => 6
  | .write _ => 5
  | .closeFd _ => 4
  | .close _ => 3
  | .free _ => 2
  | .pthreadExit _ => 1
  | .ended _ => 0

theorem Move.rank_lt (h : Move s e t) (ht : t.phase ≠ .sctpRecvmsg) :
    t.phase.rank < s.phase.rank := by
  cases h with
  | @setup c hphase =>
    rw [hphase]
    cases c with
    | setsockopt | inetNtop | snprintf => exact Nat.lt_succ_self _
    | openFile => exact absurd rfl ht
  | @setupFails c hphase =>
    rw [hphase]
    cases c with
    | setsockopt | inetNtop | snprintf | openFile => exact Nat.le_of_ble_eq_true rfl
  | @recv msg stream hphase =>
    rw [hphase]
    obtain hrecv | hwrite | hclose := afterRecv_cases (stream.getD s.sinfoStream) msg
    · exact absurd hrecv ht
    · dsimp only
      rw [hwrite]
      exact Nat.lt_succ_self _
    · dsimp only
      rw [hclose]
      exact Nat.le_of_ble_eq_true rfl
  | @write msg n hphase _ =>
    rw [hphase]
    dsimp only at ht ⊢
    split
    case isTrue hlen => exact absurd (if_pos hlen) ht
    case isFalse => exact Nat.lt_succ_self _
  | recvFails hphase =>
    rw [hphase]
    exact Nat.le_of_ble_eq_true rfl
  | writeFails hphase | closeFd hphase | close hphase | free hphase | pthreadExit hphase =>
    rw [hphase]
    exact Nat.lt_succ_self _

theorem length_le_of_off
    (hrun : Run (fun s e t ↦ Step s e t ∧ t.phase ≠ .sctpRecvmsg) s es t) :
    es.length ≤ s.phase.rank :=
  hrun.length_le (d := fun s ↦ s.phase.rank) fun _ _ _ h ↦ (Move.of_step h.1).rank_lt h.2

end Sctp.Handler

/-! ## All handlers -/

/-- **Handlers stop when the peer closes** exactly in the runs in which the end of the connection
does not come to a TCP handler, and comes to the SCTP handler only as an empty part of the file that
it then fails to write. -/
theorem handlers_stopAtEof_iff (tag : String) (es : List EchoServer.Event) (s : EchoServer.Conn)
    (sinfoStream : ℕ) (calls : List Sctp.Handler.Event) (t : Sctp.Handler.Thread) :
    (Run (fun s e t ↦ EchoServer.Step tag s e t ∧ EchoServer.StopsAtEof tag t) {} es s
        ↔ Run (fun s e t ↦ EchoServer.Step tag s e t ∧ e ≠ .recv []) {} es s)
      ∧ (Run (fun s e t ↦ Sctp.Handler.Step s e t ∧ Sctp.Handler.StopsAtEof t)
            (Sctp.Handler.initial sinfoStream) calls t
          ↔ Run (fun s e t ↦ Sctp.Handler.Step s e t ∧ Sctp.Handler.EofFails s e)
            (Sctp.Handler.initial sinfoStream) calls t) :=
  ⟨EchoServer.run_stopsAtEof_iff, Sctp.Handler.run_stopsAtEof_iff⟩

/-- The set-up, a text, and the end of the connection. -/
def Sctp.Handler.textThenEof : List Sctp.Handler.Event :=
  [.setup true, .setup true, .setup true, .setup true, .sctpRecvmsg [104] (some Sctp.msgStream),
    .sctpRecvmsg [] none]

/-- At once, or after a text, the peer closes: the one handler sends nothing, the other one receives
again. -/
theorem handlers_go_on_after_eof :
    (∃ s : EchoServer.Conn, Run (EchoServer.Step "") {} [.recv []] s ∧ s.phase = .send []
        ∧ ¬ EchoServer.StopsAtEof "" s)
      ∧ ∃ s : Sctp.Handler.Thread,
        Run Sctp.Handler.Step (Sctp.Handler.initial 0) Sctp.Handler.textThenEof s
          ∧ s.phase = .sctpRecvmsg ∧ ¬ Sctp.Handler.StopsAtEof s := by
  constructor
  · have hfinal : ([.recv []].foldlM (EchoServer.exec "") {}).map (fun s ↦ (s.phase, s.eof))
        = some (.send [], true) := by decide
    obtain ⟨s, hrun, hs⟩ := exists_run_of_map hfinal
    obtain ⟨hphase, heof⟩ := Prod.mk.inj hs
    refine ⟨s, hrun, hphase, fun h ↦ h.off heof ?_⟩
    rw [hphase]
    trivial
  · have hrun : Run Sctp.Handler.Step (Sctp.Handler.initial 0) Sctp.Handler.textThenEof
        ⟨.sctpRecvmsg, 0, [], false, false, true⟩ := run_of_foldlM (by decide)
    exact ⟨_, hrun, rfl, fun h ↦ h.off rfl rfl⟩

end AllProjects
