import AllProjects.PcapSniffer.WellFormed
import AllProjects.RawSocket.CheckField

/-!
# Verdicts

A report judges a checksum by computing it anew: `valid` is printed when the field holds what is
computed. A receiver does something else. It adds up what the checksum covers, with the field, and
looks for a sum of all ones; and where a UDP header has a zero in the field there is nothing to
check.

The two agree but where a number has two representatives. A field of all ones is never what is
computed, since the covered bytes are never all zeros: the IP header starts with the version and the
pseudo-header contains the protocol. For UDP the zero is another exception.
-/

namespace AllProjects.PcapSniffer

open DnsProxy (htons ntohs)
open RawSocket (networkBytes)

/-! ## What a receiver adds up -/

/-- The IP header, with its checksum. -/
def ipBlock (m : Mem) : List UInt8 := m.slice 14 (iphdrlen m)

/-- What stands for the IP header in the sum of a transport protocol. -/
def pseudo (proto : UInt8) (len : ℕ) (m : Mem) : List UInt8 :=
  m.slice 26 4 ++ m.slice 30 4 ++ 0 :: proto :: networkBytes len

/-- The pseudo-header and the segment or datagram behind it, with its checksum. -/
def transportBlock (proto : UInt8) (len : ℕ) (m : Mem) : List UInt8 :=
  pseudo proto len m ++ m.slice (transport m) len

/-- A segment goes to the end of the IP packet. -/
def tcpBlock (m : Mem) : List UInt8 := transportBlock 6 (totLen m - iphdrlen m) m

/-- A datagram is as long as its header says. -/
def udpBlock (m : Mem) : List UInt8 := transportBlock 17 (udpplen m) m

/-- The field of a transport header, at an offset. -/
def checkField (off : ℕ) (m : Mem) : ℕ := m.load (transport m + off) 2

/-- The receiver of a datagram accepts it: there is no checksum, or it is right. -/
def Accepts (m : Mem) : Prop := checkField 6 m = 0 ∨ ChecksumVerifies (udpBlock m)

instance (m : Mem) : Decidable (Accepts m) := inferInstanceAs (Decidable (_ ∨ _))

/-! ## What is shown -/

/-- The verdicts in an output: the name, and whether it says `valid`. -/
def shown (out : List Output) : List (String × Bool) :=
  (verdicts out).map fun v ↦ (v.1, decide (v.2.1 = v.2.2))

theorem verdicts_evidence (out : List Output) : verdicts (evidence out) = verdicts out := by
  induction out with
  | nil => rfl
  | cons o os ih => cases o <;> simp [verdicts] at ih ⊢ <;> exact ih

/-- Behind the IP header a report rewrites nothing that is judged later. -/
theorem Report.verdicts_printed_of_behind {r : Report} {m : Mem} (hsum : r.sum < 256 ^ 2)
    (h : 14 + iphdrlen m ≤ r.field) (hplace : 26 ≤ r.field) :
    verdicts (r.printed m)
      = [("Checksum", m.load 24 2, ipSum m), (r.name, m.load r.field 2, r.sum)] := by
  have hback : (r.rewritten m).load 24 2 = m.load 24 2 :=
    Mem.load_store_of_disjoint m (Or.inl hplace)
  have hip : ipSum (r.rewritten m) = ipSum m := ipSum_store h (by omega)
  have hown : (r.leave m).load r.field 2 = r.sum := by
    rw [leave, Mem.load_store_of_disjoint _ (Or.inr hplace), rewritten, Mem.load_store_same m hsum]
  rw [verdicts_printed, hback, hip, hown]

/-! ## Comparing and adding up -/

section

variable {m : Mem} {proto : UInt8} {len off : ℕ}

theorem transport_store {a v : ℕ} (h : 15 ≤ a) : transport (m.store a 2 v) = transport m := by
  rw [transport, iphdrlen_store h, transport]

theorem length_pseudo (proto : UInt8) (len : ℕ) (m : Mem) : (pseudo proto len m).length = 12 := by
  simp [pseudo, networkBytes]

theorem transportBlock_store {v : ℕ} (h : 34 ≤ transport m) :
    transportBlock proto len (m.store (transport m + off) 2 v)
      = pseudo proto len m ++ (m.store (transport m + off) 2 v).slice (transport m) len := by
  rw [transportBlock, transport_store (by omega), pseudo, Mem.slice_store_of_disjoint m (by omega),
    Mem.slice_store_of_disjoint m (by omega), pseudo]

theorem exists_ne_zero_transportBlock (hproto : proto ≠ 0) :
    ∃ b ∈ transportBlock proto len m, b ≠ 0 := by
  refine ⟨proto, ?_, hproto⟩
  rw [transportBlock, pseudo]
  simp

/-- **The transport header's field** holds what is computed exactly when the sum is all ones and the
field is not. -/
theorem checkField_eq_iff (h : 34 ≤ transport m) (hproto : proto ≠ 0) (hoff : Even off)
    (hroom : off + 2 ≤ len) :
    checkField off m
        = computeChecksum (transportBlock proto len (m.store (transport m + off) 2 0))
      ↔ ChecksumVerifies (transportBlock proto len m) ∧ checkField off m ≠ 0xffff := by
  have hsum : netSum (transportBlock proto len m)
      = netSum (transportBlock proto len (m.store (transport m + off) 2 0))
        + 256 * checkField off m := by
    have hslice := @RawSocket.netSum_slice_cleared m (transport m) off len hoff hroom
    rw [transportBlock_store h, transportBlock, netSum_append, netSum_append, length_pseudo, hslice,
      netWeight_of_even (by decide), checkField]
    ring
  rw [computeChecksum_eq]
  exact RawSocket.eq_checksum_iff hsum (Mem.load_lt m _ 2) (exists_ne_zero_transportBlock hproto)
    (exists_ne_zero_transportBlock hproto)

theorem ipField_eq_iff (hversion : m.load 14 1 / 16 = 4) (h : 20 ≤ iphdrlen m) :
    m.load 24 2 = ipSum m ↔ ChecksumVerifies (ipBlock m) ∧ m.load 24 2 ≠ 0xffff := by
  have hne : m 14 ≠ 0 := by
    intro hzero
    rw [Mem.load_one, hzero] at hversion
    exact absurd hversion (by decide)
  have hmem : ∀ m' : Mem, m' 14 ∈ m'.slice 14 (iphdrlen m) := fun m' ↦
    List.mem_map.mpr ⟨0, List.mem_range.mpr (by omega), rfl⟩
  have hfirst : (m.store 24 2 0) 14 = m 14 := Mem.store_of_lt m (by decide)
  have hslice := @RawSocket.netSum_slice_cleared m 14 10 (iphdrlen m) (by decide) (by omega)
  rw [ipSum, computeChecksum_eq]
  exact RawSocket.eq_checksum_iff hslice (Mem.load_lt m 24 2) ⟨_, hmem _, hfirst ▸ hne⟩
    ⟨_, hmem m, hne⟩

theorem pseudoHeader_eq (m : Mem) {proto : ℕ} (len : ℕ) (h : m.load 23 1 = proto) :
    pseudoHeader (m.slice 26 4) (m.slice 30 4) (m.load 23 1) (htons len)
      = pseudo (UInt8.ofNat proto) len m := by
  rw [pseudoHeader, pseudo, RawSocket.networkBytes_eq, h]

end

/-! ## TCP -/

section

variable {f : Frame}

theorem IPv4Packet.transport_ge (h : IPv4Packet f) : 34 ≤ transport f.mem := by
  have hle := h.le_iphdrlen
  rw [transport]
  omega

theorem totLen_lt (m : Mem) : totLen m < 2 ^ 16 := DnsProxy.htons_lt _

theorem TcpPacket.tcpplen_eq (h : TcpPacket f) :
    tcpplen f.mem = totLen f.mem - iphdrlen f.mem := by
  have hle := h.iphdrlen_le
  have hlt := totLen_lt f.mem
  rw [tcpplen, ← totLen]
  omega

theorem TcpPacket.tcpSum_eq (h : TcpPacket f) : tcpSum f.mem
    = computeChecksum (tcpBlock (f.mem.store (transport f.mem + 16) 2 0)) := by
  have hge := h.transport_ge
  have htot : totLen (f.mem.store (transport f.mem + 16) 2 0) = totLen f.mem := by
    rw [totLen, Mem.load_store_of_disjoint _ (by omega), totLen]
  rw [tcpBlock, htot, iphdrlen_store (by omega), transportBlock_store hge, tcpSum,
    pseudoHeader_eq f.mem _ h.protocol_eq, h.tcpplen_eq]
  rfl

/-- The tests that are shown: for the header on its own, and for both checksums in a report. -/
structure TcpVerdicts (f : Frame) (ip tcp : Prop) [Decidable ip] [Decidable tcp] : Prop where
  header : shown (printIpHeader f.mem).out = [("Checksum", decide ip)]
  packet : shown (printTcpPacket f.len f.mem).out
    = [("Checksum", decide ip), ("Checksum", decide tcp)]

theorem IPv4Packet.shown_ip (h : IPv4Packet f) :
    decide (f.mem.load 24 2 = ipSum f.mem)
      = decide (ChecksumVerifies (ipBlock f.mem) ∧ f.mem.load 24 2 ≠ 0xffff) :=
  decide_eq_decide.mpr (ipField_eq_iff h.version h.le_iphdrlen)

theorem TcpPacket.shown_tcp (h : TcpPacket f) :
    decide (f.mem.load (transport f.mem + 16) 2 = tcpSum f.mem)
      = decide (ChecksumVerifies (tcpBlock f.mem) ∧ checkField 16 f.mem ≠ 0xffff) := by
  have hge := h.transport_ge
  have hdoff := h.le_doffBytes
  have hheader := h.header_le
  have htot : totLen (f.mem.store (transport f.mem + 16) 2 0) = totLen f.mem := by
    rw [totLen, Mem.load_store_of_disjoint _ (by omega), totLen]
  have hiff := @checkField_eq_iff f.mem 6 (totLen f.mem - iphdrlen f.mem) 16 hge (by decide)
    (by decide) (by omega)
  rw [h.tcpSum_eq, tcpBlock, htot, iphdrlen_store (by omega)]
  exact decide_eq_decide.mpr hiff

theorem shown_report {x : Prog Output Unit} {r : Mem → Report} (hx : Prints x r) {m : Mem}
    (hsum : (r m).sum < 256 ^ 2) (h : 14 + iphdrlen m ≤ (r m).field) (hplace : 26 ≤ (r m).field) :
    shown (x m).out = [("Checksum", decide (m.load 24 2 = ipSum m)),
      ((r m).name, decide (m.load (r m).field 2 = (r m).sum))] := by
  rw [shown, ← verdicts_evidence, hx.evidence_eq, Report.verdicts_printed_of_behind hsum h hplace,
    List.map_cons, List.map_cons, List.map_nil]

/-- **The verdicts are the receiver's, but for fields of ones**: a checksum is shown as valid when
the sum with it is all ones and the field is not. -/
theorem tcpVerdicts (h : TcpPacket f) :
    TcpVerdicts f (ChecksumVerifies (ipBlock f.mem) ∧ f.mem.load 24 2 ≠ 0xffff)
      (ChecksumVerifies (tcpBlock f.mem) ∧ checkField 16 f.mem ≠ 0xffff) := by
  have hge := h.transport_ge
  constructor
  · rw [shown, ← verdicts_evidence, printIpHeader_evidence, verdicts_cons, ← h.shown_ip]
    rfl
  · have hplace : 26 ≤ transport f.mem + 16 := by omega
    rw [shown_report (printTcpPacket_prints f.len) (tcpSum_lt f.mem) (Nat.le_add_right _ _) hplace,
      h.shown_ip, tcpReport, h.shown_tcp]

/-- A TCP packet with both checksums filled in. -/
def filledFrame : Frame := frameOf
  [0, 0, 0, 0, 0, 0, 0, 0, 0, 0, 0, 0, 8, 0,
    0x45, 0, 0, 40, 0, 0, 0, 0, 64, 6, 0x66, 0xce, 10, 0, 0, 1, 10, 0, 0, 2,
    0, 80, 0, 80, 0, 0, 0, 1, 0, 0, 0, 0, 0x50, 2, 4, 0, 0x97, 0x3f, 0, 0] (by decide)

/-- Both sums are all ones without the checksums, and there are ones in the fields. -/
def onesFrame : Frame := frameOf
  [0, 0, 0, 0, 0, 0, 0, 0, 0, 0, 0, 0, 8, 0,
    0x45, 0, 0, 40, 0x66, 0xce, 0, 0, 64, 6, 0xff, 0xff, 10, 0, 0, 1, 10, 0, 0, 2,
    0, 80, 0, 80, 0, 0, 0x97, 0x40, 0, 0, 0, 0, 0x50, 2, 4, 0, 0xff, 0xff, 0, 0] (by decide)

theorem filledFrame_packet : TcpPacket filledFrame := by decide

theorem onesFrame_packet : TcpPacket onesFrame := by decide

theorem filledFrame_valid :
    shown (printTcpPacket filledFrame.len filledFrame.mem).out
      = [("Checksum", true), ("Checksum", true)] :=
  (tcpVerdicts filledFrame_packet).packet.trans (by decide)

/-- A receiver accepts the packet, and the IP checksum is shown as invalid. -/
theorem onesFrame_not_verdicts : TcpPacket onesFrame ∧ ChecksumVerifies (ipBlock onesFrame.mem)
    ∧ ChecksumVerifies (tcpBlock onesFrame.mem)
    ∧ ¬ TcpVerdicts onesFrame (ChecksumVerifies (ipBlock onesFrame.mem))
      (ChecksumVerifies (tcpBlock onesFrame.mem)) := by
  refine ⟨onesFrame_packet, by decide, by decide, ?_⟩
  rintro ⟨hheader, -⟩
  rw [shown, ← verdicts_evidence, printIpHeader_evidence, verdicts_cons, List.map_cons,
    onesFrame_packet.shown_ip] at hheader
  exact absurd hheader (by decide)

/-! ## UDP -/

theorem UdpPacket.shown_udp (h : UdpPacket f) :
    decide (f.mem.load (transport f.mem + 6) 2 = udpSum f.mem)
      = decide (ChecksumVerifies (udpBlock f.mem) ∧ checkField 6 f.mem ≠ 0xffff) := by
  have hge := h.transport_ge
  have hlen := h.le_udpplen
  have hiff := @checkField_eq_iff f.mem 17 (udpplen f.mem) 6 hge (by decide) (by decide) hlen
  have hraw : htons (udpplen f.mem) = f.mem.load (transport f.mem + 4) 2 := by
    have hlt : f.mem.load (transport f.mem + 4) 2 < 2 ^ 16 := Mem.load_lt ..
    exact (DnsProxy.ntohs_htons _).trans (Nat.mod_eq_of_lt hlt)
  have hsum : udpSum f.mem = computeChecksum
      (transportBlock 17 (udpplen f.mem) (f.mem.store (transport f.mem + 6) 2 0)) := by
    rw [transportBlock_store hge, udpSum, ← hraw, pseudoHeader_eq f.mem _ h.protocol_eq]
    rfl
  rw [hsum]
  exact decide_eq_decide.mpr hiff

/-- The verdict that is shown for the UDP checksum is the receiver's. -/
def UdpVerdictFollows (f : Frame) : Prop :=
  (shown (printUdpPacket f.len f.mem).out).lookup "UDP Checksum" = some (decide (Accepts f.mem))

theorem UdpPacket.lookup_eq (h : UdpPacket f) :
    (shown (printUdpPacket f.len f.mem).out).lookup "UDP Checksum"
      = some (decide (ChecksumVerifies (udpBlock f.mem) ∧ checkField 6 f.mem ≠ 0xffff)) := by
  have hge := h.transport_ge
  have hplace : 26 ≤ transport f.mem + 6 := by omega
  rw [shown_report (printUdpPacket_prints f.len) (udpSum_lt f.mem) (Nat.le_add_right _ _) hplace,
    udpReport, h.shown_udp]
  rfl

/-- **The verdict is the receiver's** unless there is no checksum, or one of all ones that is
right. -/
theorem udpVerdictFollows_iff (h : UdpPacket f) : UdpVerdictFollows f
    ↔ (checkField 6 f.mem = 0 → ChecksumVerifies (udpBlock f.mem))
      ∧ (checkField 6 f.mem = 0xffff → ¬ ChecksumVerifies (udpBlock f.mem)) := by
  rw [UdpVerdictFollows, h.lookup_eq, Option.some.injEq, decide_eq_decide, Accepts]
  constructor
  · intro hiff
    refine ⟨fun hzero ↦ (hiff.mpr (Or.inl hzero)).1, ?_⟩
    intro hones hverifies
    exact (hiff.mpr (Or.inr hverifies)).2 hones
  · rintro ⟨hzero, hones⟩
    constructor
    · exact fun hshown ↦ Or.inr hshown.1
    · intro haccepts
      have hverifies := haccepts.elim hzero id
      exact ⟨hverifies, fun hall ↦ hones hall hverifies⟩

/-- A UDP packet with its checksum. -/
def filledUdpFrame : Frame := frameOf
  [0, 0, 0, 0, 0, 0, 0, 0, 0, 0, 0, 0, 8, 0,
    0x45, 0, 0, 28, 0, 0, 0, 0, 64, 17, 0, 0, 10, 0, 0, 1, 10, 0, 0, 2,
    0, 53, 0, 53, 0, 8, 0xeb, 0x71] (by decide)

theorem filledUdpFrame_packet : UdpPacket filledUdpFrame := by decide

theorem filledUdpFrame_follows : UdpVerdictFollows filledUdpFrame :=
  (udpVerdictFollows_iff filledUdpFrame_packet).mpr ⟨by decide, by decide⟩

/-- A datagram without a checksum is accepted and shown as invalid. -/
theorem udpFrame_not_follows : UdpPacket udpFrame ∧ Accepts udpFrame.mem
    ∧ ¬ UdpVerdictFollows udpFrame := by
  refine ⟨udpFrame_packet, by decide, ?_⟩
  rw [UdpVerdictFollows, udpFrame_packet.lookup_eq]
  decide

end

end AllProjects.PcapSniffer
