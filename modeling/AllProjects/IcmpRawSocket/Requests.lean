import AllProjects.IcmpRawSocket.Checksum
import AllProjects.IcmpRawSocket.Ping
import AllProjects.IcmpRawSocket.Traceroute

/-!
# Requests as they are sent

Both programs fill in one packet before their loop and edit it in place from round to round. `ping`
writes the next sequence number and computes the checksum of the ICMP header anew; the IP header
stays. `traceroute` writes the TTL and the sequence number and computes both checksums, after a
timeout and after a packet alike.

What a round has to find in the packet is little: the length of the IP header, which says how much
is added up, and the total length, which says how much is sent. Whatever the round before left in
the fields that it edits, the packet is right again before the next `sendto`.
-/

namespace AllProjects.IcmpRawSocket

open DnsProxy (htons ntohs ntohs_htons htons_lt)
open RawSocket

/-! ## The packet -/

/-- `htonl` on a little-endian machine. -/
def htonl (x : ℕ) : ℕ :=
  x % 256 * 256 ^ 3 + x / 256 % 256 * 256 ^ 2 + x / 256 ^ 2 % 256 * 256 + x / 256 ^ 3 % 256

/-- The fields of both headers, in the order in which they are filled in. Of `htonl(random())` the
low 16 bits go into the packet. -/
def fillHeaders (m : Mem) (random ttl saddr daddr id sequence : ℕ) : Mem :=
  let m := m.store 0 1 (4 * 16 + 5)
  let m := m.store 1 1 0
  let m := m.store 2 2 (20 + 8)
  let m := m.store 4 2 (htonl random)
  let m := m.store 6 2 0
  let m := m.store 8 1 ttl
  let m := m.store 9 1 1
  let m := m.store 10 2 0
  let m := m.store 12 4 saddr
  let m := m.store 16 4 daddr
  let m := m.store 20 1 icmpEcho
  let m := m.store 21 1 0
  let m := m.store 22 2 0
  let m := m.store 24 2 (htons id)
  m.store 26 2 (htons sequence)

/-- The packet that `sendto` is given: as many bytes as the IP header says. -/
def sentPckt (m : Mem) : Packet := m.slice 0 (m.load 2 2)

namespace Ping

/-- `icmp_reqs_hndl` in front of its loop. -/
def firstPckt (random saddr daddr reqsId : ℕ) : Mem :=
  let m := fillHeaders (fun _ ↦ 0) random 255 saddr daddr reqsId 0
  let m := computeIcmpChecksum m 20
  computeIpChecksum m 0

/-- The end of a round. -/
def nextPckt (m : Mem) (seqNum : ℕ) : Mem :=
  let m := m.store 22 2 0
  let m := m.store 26 2 (htons seqNum)
  computeIcmpChecksum m 20

end Ping

namespace Traceroute

/-- `main` in front of its loop. -/
def firstPckt (random saddr daddr pid : ℕ) : Mem :=
  let m := fillHeaders (fun _ ↦ 0) random 1 saddr daddr pid 0
  let m := computeIcmpChecksum m 20
  computeIpChecksum m 0

/-- The end of a round, after a timeout and after a packet. -/
def nextPckt (m : Mem) (ttl seq : ℕ) : Mem :=
  let m := m.store 10 2 0
  let m := m.store 8 1 ttl
  let m := m.store 22 2 0
  let m := m.store 26 2 (htons seq)
  let m := computeIcmpChecksum m 20
  computeIpChecksum m 0

end Traceroute

/-! ## What is right about it -/

/-- A request that is sent after `k` others: both headers add up to all ones, and the sequence
number is `k`. -/
structure ValidRequest (k : ℕ) (p : Packet) : Prop where
  ip : ChecksumVerifies (p.take 20)
  icmp : ChecksumVerifies ((p.drop 20).take 8)
  sequence : sequenceAt p 20 = k % 2 ^ 16

/-- What the loops leave alone: the length of the IP header, the total length and the identifier. -/
structure Filled (id : ℕ) (m : Mem) : Prop where
  ihl_eq : m.load 0 1 = 4 * 16 + 5
  totLen_eq : m.load 2 2 = 20 + 8
  id_eq : m.load 24 2 = htons id

/-- The packet is ready to be sent with this sequence number. -/
structure Sendable (id sequence : ℕ) (m : Mem) : Prop extends Filled id m where
  ip : ChecksumVerifies (m.slice 0 20)
  icmp : ChecksumVerifies (m.slice 20 8)
  sequence_eq : m.load 26 2 = htons sequence

section

variable {m : Mem} {id k sequence ttl : ℕ}

theorem Filled.ihlBytes_eq (h : Filled id m) : ihlBytes 0 m = 20 := by
  rw [ihlBytes, h.ihl_eq]

/-- A store behind the fields that the loops leave alone, or between them. -/
theorem Filled.store (h : Filled id m) {a w v : ℕ} (ha : 4 ≤ a) (hid : a + w ≤ 24 ∨ 26 ≤ a) :
    Filled id (m.store a w v) where
  ihl_eq := (Mem.load_store_of_disjoint m (Or.inl (by omega))).trans h.ihl_eq
  totLen_eq := (Mem.load_store_of_disjoint m (Or.inl (by omega))).trans h.totLen_eq
  id_eq := (Mem.load_store_of_disjoint m (by omega)).trans h.id_eq

theorem Filled.fillChecksum (h : Filled id m) {addr field : ℕ} (count : Mem → ℕ)
    (ha : 4 ≤ addr + field) (hid : addr + field + 2 ≤ 24) :
    Filled id (fillChecksum m addr field count) :=
  (h.store ha (Or.inl hid)).store ha (Or.inl hid)

theorem filled_fillHeaders (m : Mem) (random ttl saddr daddr id sequence : ℕ) :
    Filled id (fillHeaders m random ttl saddr daddr id sequence) := by
  have hlt := htons_lt id
  constructor
  · simp (disch := omega) only [fillHeaders, Mem.load_store_of_disjoint]
    exact Mem.load_store_same m (by decide)
  · simp (disch := omega) only [fillHeaders, Mem.load_store_of_disjoint]
    exact Mem.load_store_same _ (by decide)
  · simp (disch := omega) only [fillHeaders, Mem.load_store_of_disjoint]
    exact Mem.load_store_same _ hlt

theorem checksumVerifies_icmp (m : Mem) :
    ChecksumVerifies ((fillChecksum m 20 2 fun _ ↦ 8).slice 20 8) :=
  checksumVerifies_fillChecksum (by decide) (by decide) (by decide)

theorem Filled.checksumVerifies_ip (h : Filled id m) :
    ChecksumVerifies ((RawSocket.fillChecksum m 0 10 (ihlBytes 0)).slice 0 20) := by
  rw [fillChecksum_ihlBytes, h.ihlBytes_eq]
  exact checksumVerifies_fillChecksum (by decide) (by decide) (by decide)

/-! ## Rounds -/

/-- Both checksums are filled in, the one of the ICMP header first. -/
theorem Filled.sendable (h : Filled id m) (hsequence : m.load 26 2 = htons sequence) :
    Sendable id sequence (RawSocket.fillChecksum (RawSocket.fillChecksum m 20 2 fun _ ↦ 8) 0 10
      (ihlBytes 0)) := by
  have hicmp : Filled id (RawSocket.fillChecksum m 20 2 fun _ ↦ 8) :=
    h.fillChecksum _ (by decide) (by decide)
  constructor
  · exact hicmp.fillChecksum _ (by decide) (by decide)
  · exact hicmp.checksumVerifies_ip
  · rw [slice_fillChecksum_of_disjoint _ _ (Or.inr (by decide))]
    exact checksumVerifies_icmp m
  · rw [load_fillChecksum_of_disjoint _ _ (Or.inr (by decide)),
      load_fillChecksum_of_disjoint _ _ (Or.inr (by decide)), hsequence]

theorem load_store_sequence (m : Mem) (sequence : ℕ) :
    (m.store 26 2 (htons sequence)).load 26 2 = htons sequence :=
  Mem.load_store_same m (htons_lt sequence)

theorem Ping.sendable_firstPckt (random saddr daddr reqsId : ℕ) :
    Sendable reqsId 0 (firstPckt random saddr daddr reqsId) :=
  (filled_fillHeaders ..).sendable (load_store_sequence _ 0)

theorem Traceroute.sendable_firstPckt (random saddr daddr pid : ℕ) :
    Sendable pid 0 (firstPckt random saddr daddr pid) :=
  (filled_fillHeaders ..).sendable (load_store_sequence _ 0)

theorem Ping.sendable_nextPckt (h : Sendable id sequence m) (seqNum : ℕ) :
    Sendable id seqNum (nextPckt m seqNum) := by
  have hround : nextPckt m seqNum = fillChecksum
      ((m.store 22 2 0).store 26 2 (htons seqNum)) 20 2 fun _ ↦ 8 := rfl
  have hfilled := (h.toFilled.store (a := 22) (w := 2) (v := 0) (by decide) (by decide)).store
    (a := 26) (w := 2) (v := htons seqNum) (by decide) (by decide)
  rw [hround]
  constructor
  · exact hfilled.fillChecksum _ (by decide) (by decide)
  · rw [slice_fillChecksum_of_disjoint _ _ (Or.inl (by decide)),
      Mem.slice_store_of_disjoint _ (Or.inl (by decide)),
      Mem.slice_store_of_disjoint _ (Or.inl (by decide))]
    exact h.ip
  · exact checksumVerifies_icmp _
  · rw [load_fillChecksum_of_disjoint _ _ (Or.inr (by decide))]
    exact load_store_sequence _ seqNum

theorem Traceroute.sendable_nextPckt (h : Filled id m) (ttl seq : ℕ) :
    Sendable id seq (nextPckt m ttl seq) := by
  have hfilled := (((h.store (a := 10) (w := 2) (v := 0) (by decide) (by decide)).store
    (a := 8) (w := 1) (v := ttl) (by decide) (by decide)).store
    (a := 22) (w := 2) (v := 0) (by decide) (by decide)).store
    (a := 26) (w := 2) (v := htons seq) (by decide) (by decide)
  exact hfilled.sendable (load_store_sequence _ seq)

/-! ## What is sent -/

theorem byteAt_slice (m : Mem) {n i : ℕ} (hn : n ≤ maxPacketSize) (hi : i < n) :
    byteAt (m.slice 0 n) i = (m i).toNat := by
  have hlength : (m.slice 0 n).length ≤ maxPacketSize := by rwa [Mem.length_slice]
  rw [byteAt, List.take_of_length_le hlength, List.getD_eq_getElem?_getD,
    Mem.getElem?_slice m hi, Option.getD_some, zero_add]

theorem shortAt_slice (m : Mem) {n i : ℕ} (hn : n ≤ maxPacketSize) (hi : i + 1 < n) :
    shortAt (m.slice 0 n) i = ntohs (m.load i 2) := by
  rw [shortAt, byteAt_slice m hn (by omega), byteAt_slice m hn hi, DnsProxy.ntohs_load_two,
    mul_comm]

theorem Filled.sentPckt_eq (h : Filled id m) : sentPckt m = m.slice 0 28 := by
  rw [sentPckt, h.totLen_eq]

theorem Filled.idAt_sentPckt (h : Filled id m) : idAt (sentPckt m) 20 = id % 2 ^ 16 := by
  rw [h.sentPckt_eq, idAt, shortAt_slice m (by decide) (by decide), h.id_eq, ntohs_htons]

theorem Sendable.validRequest (h : Sendable id sequence m) (hk : k % 2 ^ 16 = sequence % 2 ^ 16) :
    ValidRequest k (sentPckt m) := by
  have hparts : m.slice 0 28 = m.slice 0 20 ++ m.slice 20 8 := Mem.slice_add m 0 20 8
  rw [h.sentPckt_eq]
  constructor
  · rw [hparts, List.take_left' (Mem.length_slice m 0 20)]
    exact h.ip
  · rw [hparts, List.drop_left' (Mem.length_slice m 0 20),
      List.take_of_length_le (Mem.length_slice m 20 8).le]
    exact h.icmp
  · rw [sequenceAt, shortAt_slice m (by decide) (by decide), h.sequence_eq, ntohs_htons, hk]

/-! ## Runs

A program together with its packet, and with the packets sent so far. -/

/-- The program, `reqs_pckt`, and what `sendto` was given. -/
structure Wire (σ : Type) where
  proc : σ
  reqsPckt : Mem
  sent : List Packet

namespace Wire

variable {σ : Type}

def sendto (w : Wire σ) (t : σ) : Wire σ :=
  { w with proc := t, sent := w.sent ++ [sentPckt w.reqsPckt] }

/-- The packets that were sent are valid, each for its place. -/
def AllValid (id : ℕ) (w : Wire σ) : Prop :=
  ∀ k p, w.sent[k]? = some p → ValidRequest k p ∧ idAt p 20 = id % 2 ^ 16

theorem AllValid.sendto {w : Wire σ} {t : σ} (h : w.AllValid id)
    (hready : Sendable id sequence w.reqsPckt)
    (hlength : w.sent.length % 2 ^ 16 = sequence % 2 ^ 16) : (w.sendto t).AllValid id := by
  intro k p hp
  obtain hlt | hle := Nat.lt_or_ge k w.sent.length
  · exact h k p ((List.getElem?_append_left hlt).symm.trans hp)
  · rw [Wire.sendto, List.getElem?_append_right hle, List.getElem?_singleton] at hp
    obtain ⟨hzero, ⟨⟩⟩ := Option.ite_none_right_eq_some.mp hp
    obtain rfl : k = w.sent.length := by omega
    exact ⟨hready.validRequest hlength, hready.idAt_sentPckt⟩

end Wire

end

namespace Ping

/-- One step of the process and what it does to the packet. -/
def execWire (c : Settings) (w : Wire State) (e : Event) : Option (Wire State) :=
  (exec c w.proc e).map fun t ↦
    match e with
    | .sendto => w.sendto t
    | .next => { w with proc := t, reqsPckt := nextPckt w.reqsPckt t.seqNum }
    | _ => { w with proc := t }

def WireStep (c : Settings) (w : Wire State) (e : Event) (v : Wire State) : Prop :=
  execWire c w e = some v

/-- The packet is filled in for the addresses of the settings. -/
def wireInitial (c : Settings) (diffTime : ℕ → DiffTime) (random saddr daddr : ℕ) : Wire State :=
  ⟨initial diffTime, firstPckt random saddr daddr c.reqsId, []⟩

/-- The packet is ready with the sequence number of the loop, which counts the packets sent; before
`next` it is one behind. -/
structure WireInv (c : Settings) (w : Wire State) : Prop where
  ready : Sendable c.reqsId w.proc.seqNum w.reqsPckt
  length_eq : w.sent.length = w.proc.seqNum + if w.proc.request = .next then 1 else 0
  valid : w.AllValid c.reqsId

variable {c : Settings} {s t : State} {w v : Wire State} {e : Event}

theorem wireInv_initial (c : Settings) (diffTime : ℕ → DiffTime) (random saddr daddr : ℕ) :
    WireInv c (wireInitial c diffTime random saddr daddr) where
  ready := sendable_firstPckt ..
  length_eq := rfl
  valid _ _ hp := absurd hp (Option.some_ne_none _).symm

theorem WireInv.frame (h : WireInv c w) (hsame : SameRequest w.proc t) :
    WireInv c { w with proc := t } where
  ready := by
    rw [hsame.seqNum]
    exact h.ready
  length_eq := by
    rw [hsame.seqNum, hsame.request]
    exact h.length_eq
  valid := h.valid

theorem WireInv.pass (h : WireInv c w) (hseq : t.seqNum = w.proc.seqNum)
    (hs : w.proc.request ≠ .next) (ht : t.request ≠ .next) : WireInv c { w with proc := t } where
  ready := by
    rw [hseq]
    exact h.ready
  length_eq := by rw [hseq, if_neg ht, h.length_eq, if_neg hs]
  valid := h.valid

theorem WireInv.sendto (h : WireInv c w) (hseq : t.seqNum = w.proc.seqNum)
    (hs : w.proc.request ≠ .next) (ht : t.request = .next) : WireInv c (w.sendto t) where
  ready := by
    rw [Wire.sendto, hseq]
    exact h.ready
  length_eq := by
    rw [Wire.sendto, List.length_append, hseq, if_pos ht, h.length_eq, if_neg hs]
    rfl
  valid := h.valid.sendto h.ready (by rw [h.length_eq, if_neg hs, add_zero])

theorem WireInv.next (h : WireInv c w) (hseq : t.seqNum = w.proc.seqNum + 1)
    (hs : w.proc.request = .next) (ht : t.request ≠ .next) :
    WireInv c { w with proc := t, reqsPckt := nextPckt w.reqsPckt t.seqNum } where
  ready := sendable_nextPckt h.ready t.seqNum
  length_eq := by rw [if_neg ht, hseq, h.length_eq, if_pos hs]
  valid := h.valid

theorem WireInv.step (h : WireInv c w) (hstep : WireStep c w e v) : WireInv c v := by
  obtain ⟨t, hexec, rfl⟩ := Option.map_eq_some_iff.mp hstep
  obtain ⟨-, hmove⟩ := Option.ite_none_left_eq_some.mp hexec
  cases e with
  | test =>
    obtain ⟨hr, ⟨⟩⟩ := Option.ite_none_right_eq_some.mp hmove
    refine h.pass rfl (by rw [hr]; decide) ?_
    dsimp only
    split <;> decide
  | stamp now =>
    obtain ⟨hr, ⟨⟩⟩ := Option.ite_none_right_eq_some.mp hmove
    exact h.pass rfl (by rw [hr]; decide) nofun
  | sendto =>
    obtain ⟨⟨hr, -⟩, ⟨⟩⟩ := Option.ite_none_right_eq_some.mp hmove
    exact h.sendto rfl (by rw [hr]; decide) rfl
  | next =>
    obtain ⟨hr, ⟨⟩⟩ := Option.ite_none_right_eq_some.mp hmove
    exact h.next rfl hr nofun
  | sendtoFails =>
    obtain ⟨-, ⟨⟩⟩ := Option.ite_none_right_eq_some.mp hmove
    exact h.frame ⟨rfl, rfl, rfl, rfl, rfl⟩
  | recvfrom | recvfromFails | handle => exact h.frame (replHndl_sameRequest hmove)
  | join | close | exit => exact h.frame (mainThread_sameRequest hmove)
  | sigint =>
    obtain ⟨⟩ := hmove
    exact h.frame ⟨rfl, rfl, rfl, rfl, rfl⟩

theorem allValid_of_run {diffTime : ℕ → DiffTime} {random saddr daddr : ℕ} {es : List Event}
    (hrun : Run (WireStep c) (wireInitial c diffTime random saddr daddr) es w) :
    w.AllValid c.reqsId :=
  (hrun.invariant (I := WireInv c) (fun _ _ _ h hstep ↦ h.step hstep)
    (wireInv_initial c diffTime random saddr daddr)).valid

end Ping

namespace Traceroute

/-- One step of the program and what it does to the packet: every round but the last ends with an
edit. -/
def execWire (pid : ℕ) (w : Wire State) (e : Event) : Option (Wire State) :=
  (exec pid w.proc e).map fun t ↦
    match e with
    | .sendto => w.sendto t
    | .timeout | .packet .. =>
      if t.phase = .send then { w with proc := t, reqsPckt := nextPckt w.reqsPckt t.ttl t.seq }
      else { w with proc := t }
    | _ => { w with proc := t }

def WireStep (pid : ℕ) (w : Wire State) (e : Event) (v : Wire State) : Prop :=
  execWire pid w e = some v

def wireInitial (pid random saddr daddr : ℕ) : Wire State :=
  ⟨{}, firstPckt random saddr daddr pid, []⟩

/-- Before `sendto` the packet is ready with the sequence number of the loop, which counts the
packets sent. -/
structure WireInv (pid : ℕ) (w : Wire State) : Prop where
  filled : Filled pid w.reqsPckt
  ready : w.proc.phase = .send → Sendable pid w.proc.seq w.reqsPckt
  length_send : w.proc.phase = .send → w.sent.length = w.proc.seq
  length_wait : w.proc.phase = .wait → w.sent.length = w.proc.seq + 1
  valid : w.AllValid pid

variable {pid : ℕ} {s t : State} {w v : Wire State} {e : Event}

theorem wireInv_initial (pid random saddr daddr : ℕ) :
    WireInv pid (wireInitial pid random saddr daddr) where
  filled := (sendable_firstPckt ..).toFilled
  ready _ := sendable_firstPckt ..
  length_send _ := rfl
  length_wait := nofun
  valid _ _ hp := absurd hp (Option.some_ne_none _).symm

theorem WireInv.sendto (h : WireInv pid w) (hs : w.proc.phase = .send) (ht : t.phase = .wait)
    (hseq : t.seq = w.proc.seq) : WireInv pid (w.sendto t) where
  filled := h.filled
  ready hsend := by
    rw [Wire.sendto, ht] at hsend
    cases hsend
  length_send hsend := by
    rw [Wire.sendto, ht] at hsend
    cases hsend
  length_wait _ := by
    rw [Wire.sendto, List.length_append, hseq, h.length_send hs]
    rfl
  valid := h.valid.sendto (h.ready hs) (congrArg (· % 2 ^ 16) (h.length_send hs))

theorem WireInv.ended (h : WireInv pid w) (hsend : t.phase ≠ .send) (hwait : t.phase ≠ .wait) :
    WireInv pid { w with proc := t } where
  filled := h.filled
  ready hphase := absurd hphase hsend
  length_send hphase := absurd hphase hsend
  length_wait hphase := absurd hphase hwait
  valid := h.valid

theorem WireInv.next (h : WireInv pid w) (hs : w.proc.phase = .wait) (ht : t.phase = .send)
    (hseq : t.seq = w.proc.seq + 1) :
    WireInv pid { w with proc := t, reqsPckt := nextPckt w.reqsPckt t.ttl t.seq } where
  filled := (sendable_nextPckt h.filled t.ttl t.seq).toFilled
  ready _ := sendable_nextPckt h.filled t.ttl t.seq
  length_send _ := (h.length_wait hs).trans hseq.symm
  length_wait hwait := by
    rw [ht] at hwait
    cases hwait
  valid := h.valid

theorem WireInv.step (h : WireInv pid w) (hstep : WireStep pid w e v) : WireInv pid v := by
  obtain ⟨t, hexec, rfl⟩ := Option.map_eq_some_iff.mp hstep
  cases e with
  | sendto =>
    obtain ⟨hphase, ⟨⟩⟩ := Option.ite_none_right_eq_some.mp hexec
    exact h.sendto hphase rfl rfl
  | sendtoFails | epollFails | recvfromFails =>
    obtain ⟨-, ⟨⟩⟩ := Option.ite_none_right_eq_some.mp hexec
    exact h.ended nofun nofun
  | timeout =>
    obtain ⟨hphase, ⟨⟩⟩ := Option.ite_none_right_eq_some.mp hexec
    exact h.next hphase rfl rfl
  | packet source p =>
    obtain ⟨hphase, ⟨⟩⟩ := Option.ite_none_right_eq_some.mp hexec
    dsimp only
    by_cases htype : typeAt p (icmpAt p) = icmpEchoReply
    · rw [handle_echoReply htype, if_neg nofun]
      exact h.ended nofun nofun
    · rw [handle_other htype, if_pos rfl]
      exact h.next hphase rfl rfl

theorem allValid_of_run {random saddr daddr : ℕ} {es : List Event}
    (hrun : Run (WireStep pid) (wireInitial pid random saddr daddr) es w) : w.AllValid pid :=
  (hrun.invariant (I := WireInv pid) (fun _ _ _ h hstep ↦ h.step hstep)
    (wireInv_initial pid random saddr daddr)).valid

end Traceroute

/-! ## Every request -/

/-- **Every request that is sent is valid**, in every run of either program. -/
theorem sent_valid :
    (∀ (c : Ping.Settings) (diffTime : ℕ → Ping.DiffTime) (random saddr daddr : ℕ)
        (es : List Ping.Event) (w : Wire Ping.State),
      Run (Ping.WireStep c) (Ping.wireInitial c diffTime random saddr daddr) es w →
        ∀ k p, w.sent[k]? = some p → ValidRequest k p)
      ∧ ∀ (pid random saddr daddr : ℕ) (es : List Traceroute.Event) (w : Wire Traceroute.State),
        Run (Traceroute.WireStep pid) (Traceroute.wireInitial pid random saddr daddr) es w →
          ∀ k p, w.sent[k]? = some p → ValidRequest k p := by
  constructor
  · intro c diffTime random saddr daddr es w hrun k p hp
    exact (Ping.allValid_of_run hrun k p hp).1
  · intro pid random saddr daddr es w hrun k p hp
    exact (Traceroute.allValid_of_run hrun k p hp).1

/-- Two requests of `ping`, and two probes of `traceroute` with a timeout between them. -/
theorem sent_valid_two :
    (∃ w, Run (Ping.WireStep (Ping.settingsOf 2 (by decide) (by decide)))
        (Ping.wireInitial (Ping.settingsOf 2 (by decide) (by decide)) (fun _ ↦ ⟨0, 0⟩) 1 2 3)
        [.test, .stamp 10, .sendto, .next, .test, .stamp 20, .sendto] w
      ∧ w.sent.length = 2 ∧ ∀ k p, w.sent[k]? = some p → ValidRequest k p)
      ∧ ∃ w, Run (Traceroute.WireStep 7) (Traceroute.wireInitial 7 1 2 3)
          [.sendto, .timeout, .sendto] w
        ∧ w.sent.length = 2 ∧ ∀ k p, w.sent[k]? = some p → ValidRequest k p := by
  have hping : (([.test, .stamp 10, .sendto, .next, .test, .stamp 20, .sendto] :
      List Ping.Event).foldlM (Ping.execWire (Ping.settingsOf 2 (by decide) (by decide)))
      (Ping.wireInitial (Ping.settingsOf 2 (by decide) (by decide)) (fun _ ↦ ⟨0, 0⟩) 1 2 3)).map
        (fun w ↦ w.sent.length) = some 2 := by decide
  have htraceroute : (([.sendto, .timeout, .sendto] : List Traceroute.Event).foldlM
      (Traceroute.execWire 7) (Traceroute.wireInitial 7 1 2 3)).map (fun w ↦ w.sent.length)
        = some 2 := by decide
  obtain ⟨w, hw, hlength⟩ := exists_run_of_map hping
  obtain ⟨v, hv, hlength'⟩ := exists_run_of_map htraceroute
  exact ⟨⟨w, hw, hlength, sent_valid.1 _ _ _ _ _ _ w hw⟩,
    v, hv, hlength', sent_valid.2 _ _ _ _ _ v hv⟩

end AllProjects.IcmpRawSocket
