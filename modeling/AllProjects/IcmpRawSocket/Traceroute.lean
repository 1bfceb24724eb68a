import AllProjects.IcmpRawSocket.Message
import AllProjects.Transition.Run

/-!
# Traceroute

One probe is sent per TTL, and then the program waits for a packet, for three seconds at most. It
prints the sender of the packet as the hop for the current TTL when the identifier in it is its own;
for a time-exceeded message it looks for the identifier at the offset where it stands when no IP
header has options. Whatever the packet was, the next TTL follows, except after an echo reply, which
ends the program.

A packet answers a probe when it is the echo reply to it, or a time-exceeded message that quotes it,
with both IP headers as long as they say they are. What the program prints is right, and it moves on
with reason, exactly when the packets it is given answer the probe that was sent last.
-/

namespace AllProjects.IcmpRawSocket

namespace Traceroute

/-! ## State -/

/-- An echo request as it was sent: the fields as they are on the wire. -/
structure Probe where
  ttl : ℕ
  id : ℕ
  sequence : ℕ
  deriving DecidableEq, Repr

/-- What is printed in a round. -/
inductive Line
  /-- `ttl. *   *   *` -/
  | stars (ttl : ℕ)
  /-- `ttl. address` -/
  | hop (ttl : ℕ) (address : UInt32)
  | unreachable
  deriving DecidableEq, Repr

/-- Where the loop is: before `sendto`, or in `epoll_wait`; or how the program has ended. -/
inductive Phase
  | send
  | wait
  | exitSuccess
  | exitFailure
  deriving DecidableEq, Repr

/-- The loop variables, with the probes sent and the lines printed so far. -/
structure State where
  ttl : ℕ := 1
  seq : ℕ := 0
  phase : Phase := .send
  probes : List Probe := []
  lines : List Line := []
  deriving DecidableEq, Repr

/-- The results of the system calls. A packet comes with its source address. -/
inductive Event
  | sendto
  | sendtoFails
  | timeout
  | epollFails
  | packet (source : UInt32) (p : Packet)
  | recvfromFails
  deriving DecidableEq, Repr

/-! ## Steps -/

/-- The request in `reqs_pckt`: the TTL has eight bits, the other fields sixteen. -/
def State.probe (pid : ℕ) (s : State) : Probe := ⟨s.ttl % 2 ^ 8, pid % 2 ^ 16, s.seq % 2 ^ 16⟩

/-- The end of a round: the next TTL and sequence number. -/
def State.next (s : State) : State := { s with ttl := s.ttl + 1, seq := s.seq + 1, phase := .send }

/-- `printf` -/
def State.print (s : State) (l : Line) : State := { s with lines := s.lines ++ [l] }

/-- The `switch` and what follows it. The identifier of a quoted request is looked up at offset
48. -/
def handle (pid : ℕ) (s : State) (source : UInt32) (p : Packet) : State :=
  if typeAt p (icmpAt p) = icmpEchoReply then
    { (if idAt p (icmpAt p) = pid then s.print (.hop s.ttl source) else s) with
      phase := .exitSuccess }
  else if typeAt p (icmpAt p) = icmpDestUnreach then (s.print .unreachable).next
  else if typeAt p (icmpAt p) = icmpTimeExceeded then
    -- the quoted request, if both IP headers have no options
    (if idAt p 48 = pid then s.print (.hop s.ttl source) else s).next
  else s.next

def exec (pid : ℕ) (s : State) : Event → Option State
  | .sendto =>
    if s.phase = .send then
      some { s with phase := .wait, probes := s.probes ++ [s.probe pid] }
    else none
  | .sendtoFails => if s.phase = .send then some { s with phase := .exitFailure } else none
  | .timeout => if s.phase = .wait then some (s.print (.stars s.ttl)).next else none
  | .epollFails => if s.phase = .wait then some { s with phase := .exitFailure } else none
  | .packet source p => if s.phase = .wait then some (handle pid s source p) else none
  | .recvfromFails => if s.phase = .wait then some { s with phase := .exitFailure } else none

def Step (pid : ℕ) (s : State) (e : Event) (t : State) : Prop := exec pid s e = some t

instance (pid : ℕ) (s : State) (e : Event) (t : State) : Decidable (Step pid s e t) :=
  inferInstanceAs (Decidable (_ = _))

/-! ## What traceroute is for -/

/-- The packet is the echo reply to the probe. -/
def IsReply (p : Packet) (q : Probe) : Prop :=
  typeAt p (icmpAt p) = icmpEchoReply ∧ idAt p (icmpAt p) = q.id
    ∧ sequenceAt p (icmpAt p) = q.sequence

/-- The start of the IP header that an ICMP error quotes. -/
def quotedAt (p : Packet) : ℕ := icmpAt p + 8

/-- The start of the ICMP header that it quotes. -/
def quotedIcmpAt (p : Packet) : ℕ := quotedAt p + iphlenAt p (quotedAt p)

/-- The packet is a time-exceeded message that quotes the probe, an echo request in an ICMP
packet. -/
def Quotes (p : Packet) (q : Probe) : Prop :=
  typeAt p (icmpAt p) = icmpTimeExceeded ∧ byteAt p (quotedAt p + 9) = 1
    ∧ typeAt p (quotedIcmpAt p) = icmpEcho ∧ idAt p (quotedIcmpAt p) = q.id
    ∧ sequenceAt p (quotedIcmpAt p) = q.sequence

instance (p : Packet) (q : Probe) : Decidable (IsReply p q) :=
  inferInstanceAs (Decidable (_ ∧ _ ∧ _))

instance (p : Packet) (q : Probe) : Decidable (Quotes p q) :=
  inferInstanceAs (Decidable (_ ∧ _ ∧ _ ∧ _ ∧ _))

/-- The packet answers a probe that was sent with this TTL. -/
def Answers (s : State) (ttl : ℕ) (p : Packet) : Prop :=
  ∃ q ∈ s.probes, q.ttl = ttl ∧ (IsReply p q ∨ Quotes p q)

/-- Each hop is attributed to the right TTL: a hop is printed for a packet from its address that
answers a probe of its TTL, and the program moves on after an answer to a probe of the TTL or a
timeout. -/
structure Attributed (s : State) (e : Event) (t : State) : Prop where
  printed : ∀ ttl source, t.lines = s.lines ++ [.hop ttl source] →
    ∃ p, e = .packet source p ∧ Answers s ttl p
  moved : t.ttl ≠ s.ttl → e = .timeout ∨ ∃ source p, e = .packet source p ∧ Answers s s.ttl p

/-- The program ends with success on the echo reply to one of its probes. -/
def StopsAtDestination (s : State) (e : Event) (t : State) : Prop :=
  t.phase = .exitSuccess → ∃ source p, e = .packet source p ∧ ∃ q ∈ s.probes, IsReply p q

/-- The packet that ends the wait answers the probe sent last, whose TTL is still one of eight bits;
an echo reply with another identifier, which ends the program without a line, is no answer but does
no harm either. -/
def AnswersLast (pid : ℕ) (s : State) : Event → Prop
  | .packet _ p =>
    if typeAt p (icmpAt p) = icmpEchoReply then
      idAt p (icmpAt p) = pid → s.ttl < 2 ^ 8 ∧ IsReply p (s.probe pid)
    else s.ttl < 2 ^ 8 ∧ Quotes p (s.probe pid)
  | _ => True

/-- Every echo reply that is received answers a probe that was sent. -/
def NoForeignReply (s : State) : Event → Prop
  | .packet _ p => typeAt p (icmpAt p) = icmpEchoReply → ∃ q ∈ s.probes, IsReply p q
  | _ => True

/-! ## The invariant -/

/-- The `k`-th probe. -/
def probeOf (pid k : ℕ) : Probe := ⟨(k + 1) % 2 ^ 8, pid % 2 ^ 16, k % 2 ^ 16⟩

/-- The TTL is one ahead of the sequence number, and one probe was sent for each TTL so far. -/
structure Inv (pid : ℕ) (s : State) : Prop where
  ttl_eq : s.ttl = s.seq + 1
  send : s.phase = .send → s.probes = (List.range s.seq).map (probeOf pid)
  wait : s.phase = .wait → s.probes = (List.range (s.seq + 1)).map (probeOf pid)

variable {pid : ℕ} {s t : State} {e : Event} {source : UInt32} {p : Packet}

theorem Inv.probe_eq (h : Inv pid s) : s.probe pid = probeOf pid s.seq := by
  rw [State.probe, h.ttl_eq, probeOf]

/-- While the TTL fits in eight bits there is one probe with that TTL, the last one. -/
theorem Inv.answers_iff (h : Inv pid s) (hwait : s.phase = .wait) :
    Answers s s.ttl p
      ↔ s.ttl < 2 ^ 8 ∧ (IsReply p (s.probe pid) ∨ Quotes p (s.probe pid)) := by
  have httl := h.ttl_eq
  rw [Answers, h.wait hwait, h.probe_eq]
  constructor
  · rintro ⟨q, hq, hqttl, hanswer⟩
    obtain ⟨k, hk, rfl⟩ := List.mem_map.mp hq
    rw [List.mem_range] at hk
    rw [probeOf] at hqttl
    dsimp only at hqttl
    obtain rfl : k = s.seq := by omega
    exact ⟨by omega, hanswer⟩
  · rintro ⟨hlt, hanswer⟩
    refine ⟨_, List.mem_map.mpr ⟨s.seq, List.mem_range.mpr (Nat.lt_succ_self _), rfl⟩, ?_, hanswer⟩
    rw [probeOf]
    dsimp only
    omega

theorem inv_initial : Inv pid {} := ⟨rfl, fun _ ↦ rfl, nofun⟩

/-! ## What a packet does -/

/-- The line that is printed for a packet. -/
def printed (pid : ℕ) (s : State) (source : UInt32) (p : Packet) : List Line :=
  if typeAt p (icmpAt p) = icmpEchoReply then
    if idAt p (icmpAt p) = pid then [.hop s.ttl source] else []
  else if typeAt p (icmpAt p) = icmpDestUnreach then [.unreachable]
  else if typeAt p (icmpAt p) = icmpTimeExceeded then
    if idAt p 48 = pid then [.hop s.ttl source] else []
  else []

theorem handle_echoReply (h : typeAt p (icmpAt p) = icmpEchoReply) :
    handle pid s source p
      = { s with lines := s.lines ++ printed pid s source p, phase := .exitSuccess } := by
  rw [handle, printed, if_pos h, if_pos h]
  split
  · rfl
  · rw [List.append_nil]

theorem handle_other (h : typeAt p (icmpAt p) ≠ icmpEchoReply) :
    handle pid s source p
      = { s with ttl := s.ttl + 1, seq := s.seq + 1, phase := .send,
                 lines := s.lines ++ printed pid s source p } := by
  rw [handle, printed, if_neg h, if_neg h]
  split
  · rfl
  · split
    · split
      · rfl
      · rw [State.next, List.append_nil]
    · rw [State.next, List.append_nil]

theorem printed_hop {ttl : ℕ} {address : UInt32} :
    printed pid s source p = [.hop ttl address]
      ↔ (ttl = s.ttl ∧ address = source)
        ∧ ((typeAt p (icmpAt p) = icmpEchoReply ∧ idAt p (icmpAt p) = pid)
          ∨ (typeAt p (icmpAt p) = icmpTimeExceeded ∧ idAt p 48 = pid)) := by
  have hhop : [Line.hop s.ttl source] = [Line.hop ttl address]
      ↔ ttl = s.ttl ∧ address = source := by
    rw [List.singleton_inj, Line.hop.injEq, eq_comm, eq_comm (a := source)]
  have hother : icmpEchoReply ≠ icmpTimeExceeded := by decide
  have hunreachable : icmpDestUnreach ≠ icmpTimeExceeded := by decide
  rw [printed]
  split
  case isTrue htype =>
    rw [htype]
    split
    case isTrue hid => simp only [hhop, hid, hother, and_self, false_and, or_false, and_true]
    case isFalse hid => simp only [hid, hother, and_false, false_and, or_self, reduceCtorEq]
  case isFalse htype =>
    split
    case isTrue hunreach =>
      rw [hunreach] at htype ⊢
      simp only [htype, hunreachable, false_and, or_self, and_false, List.cons.injEq, reduceCtorEq]
    case isFalse =>
      split
      case isTrue hexceeded =>
        split
        case isTrue hid => simp only [hhop, hexceeded, hid, and_self, or_true, and_true]
        case isFalse hid => simp only [htype, hid, false_and, and_false, or_self, reduceCtorEq]
      case isFalse hexceeded =>
        simp only [htype, hexceeded, false_and, or_self, and_false, reduceCtorEq]

theorem Inv.handle (h : Inv pid s) (hwait : s.phase = .wait) : Inv pid (handle pid s source p) := by
  have hprobes := h.wait hwait
  by_cases htype : typeAt p (icmpAt p) = icmpEchoReply
  · rw [handle_echoReply htype]
    exact ⟨h.ttl_eq, nofun, nofun⟩
  · rw [handle_other htype]
    exact ⟨congrArg (· + 1) h.ttl_eq, fun _ ↦ hprobes, nofun⟩

theorem Inv.step (h : Inv pid s) (hstep : Step pid s e t) : Inv pid t := by
  cases e with
  | sendto =>
    obtain ⟨hphase, ⟨⟩⟩ := Option.ite_none_right_eq_some.mp hstep
    refine ⟨h.ttl_eq, nofun, fun _ ↦ ?_⟩
    dsimp only
    rw [h.send hphase, h.probe_eq, List.range_succ, List.map_append, List.map_singleton]
  | sendtoFails | epollFails | recvfromFails =>
    obtain ⟨-, ⟨⟩⟩ := Option.ite_none_right_eq_some.mp hstep
    exact ⟨h.ttl_eq, nofun, nofun⟩
  | timeout =>
    obtain ⟨hphase, ⟨⟩⟩ := Option.ite_none_right_eq_some.mp hstep
    exact ⟨congrArg (· + 1) h.ttl_eq, fun _ ↦ h.wait hphase, nofun⟩
  | packet source p =>
    obtain ⟨hphase, ⟨⟩⟩ := Option.ite_none_right_eq_some.mp hstep
    exact h.handle hphase

/-! ## Attribution -/

theorem attributed_of_eq (hlines : t.lines = s.lines) (httl : t.ttl = s.ttl) :
    Attributed s e t := by
  refine ⟨?_, fun hmoved ↦ absurd httl hmoved⟩
  intro ttl source hprinted
  rw [hlines, List.self_eq_append_right] at hprinted
  cases hprinted

theorem attributed_timeout : Attributed s .timeout (s.print (.stars s.ttl)).next := by
  refine ⟨?_, fun _ ↦ .inl rfl⟩
  intro ttl source hprinted
  rw [State.next, State.print, List.append_cancel_left_eq, List.singleton_inj] at hprinted
  cases hprinted

/-- After an echo reply nothing moves, and a line is printed when the identifier is right. -/
theorem Inv.attributed_echoReply (h : Inv pid s) (hwait : s.phase = .wait)
    (htype : typeAt p (icmpAt p) = icmpEchoReply) :
    Attributed s (.packet source p) (Traceroute.handle pid s source p)
      ↔ AnswersLast pid s (.packet source p) := by
  have hquotes : ∀ q, ¬ Quotes p q := by
    intro q hq
    rw [Quotes, htype] at hq
    exact absurd hq.1 (by decide)
  rw [handle_echoReply htype, AnswersLast, if_pos htype]
  constructor
  · rintro ⟨hprinted, -⟩ hid
    have hhop : printed pid s source p = [.hop s.ttl source] :=
      printed_hop.mpr ⟨⟨rfl, rfl⟩, .inl ⟨htype, hid⟩⟩
    obtain ⟨q, ⟨⟩, hanswers⟩ := hprinted s.ttl source (congrArg _ hhop)
    obtain ⟨hlt, hreply | hquote⟩ := (h.answers_iff hwait).mp hanswers
    · exact ⟨hlt, hreply⟩
    · exact absurd hquote (hquotes _)
  · intro hlast
    refine ⟨?_, fun hmoved ↦ absurd rfl hmoved⟩
    intro ttl address hline
    obtain ⟨⟨rfl, rfl⟩, ⟨-, hid⟩ | ⟨hexceeded, -⟩⟩ :=
      printed_hop.mp (List.append_cancel_left hline)
    · obtain ⟨hlt, hreply⟩ := hlast hid
      exact ⟨p, rfl, (h.answers_iff hwait).mpr ⟨hlt, .inl hreply⟩⟩
    · rw [htype] at hexceeded
      exact absurd hexceeded (by decide)

theorem Inv.attributed_other (h : Inv pid s) (hwait : s.phase = .wait)
    (htype : typeAt p (icmpAt p) ≠ icmpEchoReply) :
    Attributed s (.packet source p) (Traceroute.handle pid s source p)
      ↔ AnswersLast pid s (.packet source p) := by
  have hanswers : Answers s s.ttl p ↔ s.ttl < 2 ^ 8 ∧ Quotes p (s.probe pid) := by
    rw [h.answers_iff hwait, or_iff_right]
    exact fun hreply ↦ htype hreply.1
  rw [handle_other htype, AnswersLast, if_neg htype, ← hanswers]
  constructor
  · rintro ⟨-, hmoved⟩
    obtain ⟨⟨⟩⟩ | ⟨address, q, ⟨⟩, hanswer⟩ := hmoved (Nat.succ_ne_self s.ttl)
    exact hanswer
  · intro hanswer
    refine ⟨?_, fun _ ↦ .inr ⟨source, p, rfl, hanswer⟩⟩
    intro ttl address hline
    obtain ⟨⟨rfl, rfl⟩, -⟩ := printed_hop.mp (List.append_cancel_left hline)
    exact ⟨p, rfl, hanswer⟩

theorem Inv.attributed_iff (h : Inv pid s) (hstep : Step pid s e t) :
    Attributed s e t ↔ AnswersLast pid s e := by
  cases e with
  | sendto | sendtoFails | epollFails | recvfromFails =>
    obtain ⟨-, ⟨⟩⟩ := Option.ite_none_right_eq_some.mp hstep
    exact iff_of_true (attributed_of_eq rfl rfl) trivial
  | timeout =>
    obtain ⟨-, ⟨⟩⟩ := Option.ite_none_right_eq_some.mp hstep
    exact iff_of_true attributed_timeout trivial
  | packet source p =>
    obtain ⟨hwait, ⟨⟩⟩ := Option.ite_none_right_eq_some.mp hstep
    by_cases htype : typeAt p (icmpAt p) = icmpEchoReply
    · exact h.attributed_echoReply hwait htype
    · exact h.attributed_other hwait htype

/-- **Each hop is attributed to the right TTL** throughout a run exactly when every packet of the
run answers the probe sent last. -/
theorem attributed_iff_answersLast {es : List Event} :
    Run (fun s e t ↦ Step pid s e t ∧ Attributed s e t) {} es s
      ↔ Run (fun s e t ↦ Step pid s e t ∧ AnswersLast pid s e) {} es s :=
  Run.steps_congr (fun _ _ _ h hstep ↦ h.step hstep) (fun _ _ _ h hstep ↦ h.attributed_iff hstep)
    inv_initial

/-- The answer to the probe that the process 7 sent with TTL 1. -/
def timeExceeded : Packet :=
  ipHeader 1 ++ [11, 0, 0, 0, 0, 0, 0, 0] ++ ipHeader 1 ++ echoMessage 8 7 0

/-- The answer to the first probe comes after the timeout and is printed as the second hop. -/
theorem late_not_attributed : ∃ s t : State, Run (Step 7) {} [.sendto, .timeout, .sendto] s
    ∧ Step 7 s (.packet 5 timeExceeded) t ∧ t.lines = [.stars 1, .hop 2 5]
    ∧ ¬ Attributed s (.packet 5 timeExceeded) t := by
  refine ⟨⟨2, 1, .wait, [⟨1, 7, 0⟩, ⟨2, 7, 1⟩], [.stars 1]⟩,
    ⟨3, 2, .send, [⟨1, 7, 0⟩, ⟨2, 7, 1⟩], [.stars 1, .hop 2 5]⟩, run_of_foldlM (by decide),
    by decide, rfl, ?_⟩
  intro h
  obtain ⟨p, ⟨⟩, q, hq, hanswer⟩ := h.printed 2 5 rfl
  rw [List.mem_cons, List.mem_singleton] at hq
  obtain rfl | rfl := hq
  · exact absurd hanswer (by decide)
  · exact absurd hanswer (by decide)

/-! ## The end -/

theorem stopsAtDestination_iff (hstep : Step pid s e t) :
    StopsAtDestination s e t ↔ NoForeignReply s e := by
  cases e with
  | sendto | sendtoFails | epollFails | recvfromFails | timeout =>
    obtain ⟨hphase, ⟨⟩⟩ := Option.ite_none_right_eq_some.mp hstep
    exact iff_of_true nofun trivial
  | packet source p =>
    obtain ⟨-, ⟨⟩⟩ := Option.ite_none_right_eq_some.mp hstep
    rw [StopsAtDestination, NoForeignReply]
    by_cases htype : typeAt p (icmpAt p) = icmpEchoReply
    · rw [handle_echoReply htype]
      constructor
      · intro h _
        obtain ⟨source, p, ⟨⟩, hreply⟩ := h rfl
        exact hreply
      · intro h _
        exact ⟨source, p, rfl, h htype⟩
    · rw [handle_other htype]
      exact iff_of_true nofun fun h ↦ absurd h htype

/-- **Success only at the destination**, throughout a run, exactly when every echo reply of the run
answers a probe. -/
theorem stopsAtDestination_iff_noForeignReply {es : List Event} :
    Run (fun s e t ↦ Step pid s e t ∧ StopsAtDestination s e t) {} es s
      ↔ Run (fun s e t ↦ Step pid s e t ∧ NoForeignReply s e) {} es s :=
  Run.steps_congr (I := Inv pid) (fun _ _ _ h hstep ↦ h.step hstep)
    (fun _ _ _ _ hstep ↦ stopsAtDestination_iff hstep) inv_initial

/-- The reply to a `ping` of another process ends the program at once. -/
theorem foreignReply_not_stopsAtDestination : ∃ s t : State, Run (Step 7) {} [.sendto] s
    ∧ Step 7 s (.packet 5 (ipHeader 1 ++ echoMessage 0 8 0)) t ∧ t.phase = .exitSuccess
    ∧ ¬ StopsAtDestination s (.packet 5 (ipHeader 1 ++ echoMessage 0 8 0)) t := by
  refine ⟨⟨1, 0, .wait, [⟨1, 7, 0⟩], []⟩, ⟨1, 0, .exitSuccess, [⟨1, 7, 0⟩], []⟩,
    run_of_foldlM (by decide), by decide, rfl, ?_⟩
  intro h
  obtain ⟨source, p, ⟨⟩, q, hq, hreply⟩ := h rfl
  obtain rfl := List.mem_singleton.mp hq
  exact absurd hreply (by decide)

end Traceroute

end AllProjects.IcmpRawSocket
