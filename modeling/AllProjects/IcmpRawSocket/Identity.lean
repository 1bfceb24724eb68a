import AllProjects.IcmpRawSocket.Requests
import AllProjects.IcmpRawSocket.Slots

/-!
# Whose reply it is

A request carries its process id in a field of 16 bits, and the answer to it brings the field back:
an echo reply in its own header, a time-exceeded message in the request that it quotes. Both
programs compare what they find with the process id, which may have more than 16 bits.

For an echo reply they look where the field is, so the answer to a process below `65536` is
recognised and no other one. A time-exceeded message is another matter. `ping` reads the same bytes
of it as of an echo reply, where it has no identifier. `traceroute` reads byte 52, where the
identifier of the quoted request is as long as the IP header in front has no options.
-/

namespace AllProjects.IcmpRawSocket

open Traceroute (quotedAt quotedIcmpAt)

/-! ## Answers -/

/-- An echo reply, or a time-exceeded message that quotes an echo request. -/
def IsAnswer (p : Packet) : Prop :=
  typeAt p (icmpAt p) = icmpEchoReply ∨
    typeAt p (icmpAt p) = icmpTimeExceeded ∧ byteAt p (quotedAt p + 9) = 1
      ∧ typeAt p (quotedIcmpAt p) = icmpEcho

instance (p : Packet) : Decidable (IsAnswer p) := inferInstanceAs (Decidable (_ ∨ _))

/-- The ICMP header in which an answer carries the identifier of the request. -/
def carriedAt (p : Packet) : ℕ :=
  if typeAt p (icmpAt p) = icmpEchoReply then icmpAt p else quotedIcmpAt p

/-- The ICMP header whose identifier `ping` compares with its process id. -/
def Ping.comparedAt (p : Packet) : ℕ := icmpAt p

/-- The ICMP header whose identifier `traceroute` compares with its process id. -/
def Traceroute.comparedAt (p : Packet) : ℕ :=
  if typeAt p (icmpAt p) = icmpEchoReply then icmpAt p else 48

/-- The answer passes the comparison with the process id when it carries back the identifier of the
request `q`, and does not when it carries back that of a process with other low 16 bits. -/
structure Recognises (comparedAt : Packet → ℕ) (pid : ℕ) (q p : Packet) : Prop where
  own : idAt p (carriedAt p) = idAt q 20 → idAt p (comparedAt p) = pid
  foreign : ∀ other, other % 2 ^ 16 ≠ pid % 2 ^ 16 → idAt p (carriedAt p) = other % 2 ^ 16 →
    idAt p (comparedAt p) ≠ pid

/-- An answer to the process with this id carries an id of 16 bits, and the program reads the id
that is carried back; or neither is the process id. -/
structure Comparable (comparedAt : Packet → ℕ) (pid : ℕ) (p : Packet) : Prop where
  fits : idAt p (carriedAt p) = pid % 2 ^ 16 → pid < 2 ^ 16
  reads : idAt p (comparedAt p) = idAt p (carriedAt p)
    ∨ (idAt p (comparedAt p) ≠ pid ∧ idAt p (carriedAt p) ≠ pid)

section

variable {comparedAt : Packet → ℕ} {pid : ℕ} {p q : Packet}

theorem idAt_lt (p : Packet) (i : ℕ) : idAt p i < 2 ^ 16 := by
  have hhi := ((p.take maxPacketSize).getD (i + 4) 0).toNat_lt
  have hlo := ((p.take maxPacketSize).getD (i + 4 + 1) 0).toNat_lt
  rw [idAt, shortAt, byteAt, byteAt]
  omega

/-- Only the identifiers of other processes matter, and every number of 16 bits is one. -/
theorem recognises_iff (hq : idAt q 20 = pid % 2 ^ 16) :
    Recognises comparedAt pid q p ↔ Comparable comparedAt pid p := by
  have hcarried := idAt_lt p (carriedAt p)
  have hcompared := idAt_lt p (comparedAt p)
  constructor
  · rintro ⟨hown, hforeign⟩
    -- the process that the answer is for is an instance of `other`
    have hother := hforeign (idAt p (carriedAt p))
    rw [hq] at hown
    rw [Nat.mod_eq_of_lt hcarried] at hother
    constructor
    · intro heq
      have hpid := hown heq
      omega
    · by_cases heq : idAt p (carriedAt p) = pid % 2 ^ 16
      · have hpid := hown heq
        left
        omega
      · right
        refine ⟨hother heq rfl, ?_⟩
        rintro rfl
        omega
  · rintro ⟨hfits, hreads⟩
    constructor
    · intro hown
      have hlt := hfits (hown.trans hq)
      obtain heq | ⟨-, hne⟩ := hreads
      · omega
      · omega
    · intro other hother heq hpid
      obtain hsame | ⟨hne, -⟩ := hreads
      · omega
      · exact hne hpid

end

/-! ## The comparisons of the programs -/

/-- What `ping` does with an answer: the comparison decides whether it is passed over. -/
theorem Ping.received_of_isAnswer {c : Settings} {s : State} {p : Packet} (h : IsAnswer p) :
    received c s p =
      if idAt p (comparedAt p) = c.reqsId then
        if typeAt p (icmpAt p) = icmpEchoReply then { s with reply := .handle p }
        else { s with ended := true }
      else s := by
  have hexceeded : icmpTimeExceeded ≠ icmpEchoReply := by decide
  rw [received, comparedAt]
  by_cases hid : idAt p (icmpAt p) = c.reqsId
  · rw [if_neg (not_not.mpr hid), if_pos hid]
    obtain htype | ⟨htype, -⟩ := h
    · rw [if_pos htype, if_pos htype]
    · rw [htype, if_neg hexceeded, if_neg (by decide), if_pos rfl, if_neg hexceeded]
  · rw [if_pos hid, if_neg hid]

theorem Traceroute.printed_of_isAnswer {pid : ℕ} {s : State} {source : UInt32} {p : Packet}
    (h : IsAnswer p) :
    printed pid s source p = if idAt p (comparedAt p) = pid then [.hop s.ttl source] else [] := by
  have hexceeded : icmpTimeExceeded ≠ icmpEchoReply := by decide
  rw [printed, comparedAt]
  obtain htype | ⟨htype, -⟩ := h
  · rw [if_pos htype, if_pos htype]
  · rw [htype, if_neg hexceeded, if_neg (by decide), if_pos rfl, if_neg hexceeded]

/-- Among the echo replies only the size of the process id matters, for both programs. -/
theorem comparable_echoReply_iff {pid : ℕ} :
    (∀ p, typeAt p (icmpAt p) = icmpEchoReply →
      Comparable Ping.comparedAt pid p ∧ Comparable Traceroute.comparedAt pid p)
      ↔ pid < 2 ^ 16 := by
  constructor
  · intro h
    obtain ⟨⟨hid, htype⟩, -⟩ := @Ping.Table.echoReply_fields (pid % 2 ^ 16) 0
      (Nat.mod_lt _ (by decide)) (by decide)
    refine (h _ htype).1.fits ?_
    rw [carriedAt, if_pos htype]
    exact hid
  · intro hpid p htype
    have hcarried : carriedAt p = icmpAt p := if_pos htype
    have htraceroute : Traceroute.comparedAt p = icmpAt p := if_pos htype
    refine ⟨⟨fun _ ↦ hpid, .inl ?_⟩, fun _ ↦ hpid, .inl ?_⟩
    · rw [hcarried, Ping.comparedAt]
    · rw [hcarried, htraceroute]

/-- `traceroute` reads the identifier that is quoted where the quoted header starts at byte 48. -/
theorem comparable_quoted {pid : ℕ} {p : Packet} (hpid : pid < 2 ^ 16)
    (hquoted : Traceroute.quotedIcmpAt p = 48) : Comparable Traceroute.comparedAt pid p := by
  refine ⟨fun _ ↦ hpid, .inl ?_⟩
  by_cases htype : typeAt p (icmpAt p) = icmpEchoReply
  · rw [Traceroute.comparedAt, carriedAt, if_pos htype, if_pos htype]
  · rw [Traceroute.comparedAt, carriedAt, if_neg htype, if_neg htype, hquoted]

/-! ## Every request -/

/-- **Own replies are recognised**, of every request in every run of either program, exactly when
the answer is comparable. -/
theorem recognises_iff_comparable (random saddr daddr : ℕ) :
    (∀ (c : Ping.Settings) (diffTime : ℕ → Ping.DiffTime) (es : List Ping.Event)
        (w : Wire Ping.State),
      Run (Ping.WireStep c) (Ping.wireInitial c diffTime random saddr daddr) es w →
        ∀ q ∈ w.sent, ∀ p, IsAnswer p →
          (Recognises Ping.comparedAt c.reqsId q p ↔ Comparable Ping.comparedAt c.reqsId p))
      ∧ ∀ (pid : ℕ) (es : List Traceroute.Event) (w : Wire Traceroute.State),
        Run (Traceroute.WireStep pid) (Traceroute.wireInitial pid random saddr daddr) es w →
          ∀ q ∈ w.sent, ∀ p, IsAnswer p →
            (Recognises Traceroute.comparedAt pid q p
              ↔ Comparable Traceroute.comparedAt pid p) := by
  constructor
  · intro c diffTime es w hrun q hq p _
    obtain ⟨k, hk⟩ := List.mem_iff_getElem?.mp hq
    exact recognises_iff (Ping.allValid_of_run hrun k q hk).2
  · intro pid es w hrun q hq p _
    obtain ⟨k, hk⟩ := List.mem_iff_getElem?.mp hq
    exact recognises_iff (Traceroute.allValid_of_run hrun k q hk).2

theorem Ping.exists_sent {c : Settings} {diffTime : ℕ → DiffTime} {random saddr daddr : ℕ}
    {es : List Event}
    (hexec : (es.foldlM (execWire c) (wireInitial c diffTime random saddr daddr)).map
      (fun w ↦ w.sent.length) = some 1) :
    ∃ w, Run (WireStep c) (wireInitial c diffTime random saddr daddr) es w
      ∧ ∃ q ∈ w.sent, idAt q 20 = c.reqsId % 2 ^ 16 := by
  obtain ⟨w, hrun, hlength⟩ := exists_run_of_map hexec
  obtain ⟨q, hq⟩ := List.length_eq_one_iff.mp hlength
  have hmem : q ∈ w.sent := by
    rw [hq]
    exact List.mem_singleton_self q
  obtain ⟨k, hk⟩ := List.mem_iff_getElem?.mp hmem
  exact ⟨w, hrun, q, hmem, (allValid_of_run hrun k q hk).2⟩

/-- `ping -c 1` up to its request, in the process with this id. -/
theorem Ping.exists_run_sendto (pid : ℕ) :
    ∃ w, Run (WireStep ⟨pid, 1, by decide, by decide⟩)
        (wireInitial ⟨pid, 1, by decide, by decide⟩ (fun _ ↦ ⟨0, 0⟩) 1 2 3)
        [.test, .stamp 10, .sendto] w
      ∧ ∃ q ∈ w.sent, idAt q 20 = pid % 2 ^ 16 :=
  exists_sent rfl

/-- One request of `ping` in the process 7, and its reply. -/
theorem recognises_reply : ∃ w : Wire Ping.State,
    Run (Ping.WireStep ⟨7, 1, by decide, by decide⟩)
        (Ping.wireInitial ⟨7, 1, by decide, by decide⟩ (fun _ ↦ ⟨0, 0⟩) 1 2 3)
        [.test, .stamp 10, .sendto] w
      ∧ ∃ q ∈ w.sent, IsAnswer (Ping.replyTo 0)
        ∧ idAt (Ping.replyTo 0) (carriedAt (Ping.replyTo 0)) = 7
        ∧ Recognises Ping.comparedAt 7 q (Ping.replyTo 0) := by
  obtain ⟨w, hrun, q, hq, -⟩ := Ping.exists_run_sendto 7
  exact ⟨w, hrun, q, hq, by decide, by decide,
    ((recognises_iff_comparable 1 2 3).1 _ _ _ w hrun q hq _ (by decide)).mpr
      ⟨by decide, by decide⟩⟩

/-- The reply to a request of `ping` in the process 65543 carries the identifier 7. -/
theorem reply_not_recognised : ∃ w : Wire Ping.State,
    Run (Ping.WireStep ⟨65543, 1, by decide, by decide⟩)
        (Ping.wireInitial ⟨65543, 1, by decide, by decide⟩ (fun _ ↦ ⟨0, 0⟩) 1 2 3)
        [.test, .stamp 10, .sendto] w
      ∧ ∃ q ∈ w.sent, IsAnswer (Ping.replyTo 0)
        ∧ idAt (Ping.replyTo 0) (carriedAt (Ping.replyTo 0)) = idAt q 20
        ∧ ¬ Recognises Ping.comparedAt 65543 q (Ping.replyTo 0) := by
  obtain ⟨w, hrun, q, hq, hid⟩ := Ping.exists_run_sendto 65543
  have hcarried : idAt (Ping.replyTo 0) (carriedAt (Ping.replyTo 0)) = idAt q 20 := by
    rw [hid]
    decide
  refine ⟨w, hrun, q, hq, by decide, hcarried, ?_⟩
  intro h
  exact absurd (h.own hcarried) (by decide)

end AllProjects.IcmpRawSocket
