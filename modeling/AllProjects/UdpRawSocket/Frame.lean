import AllProjects.IcmpRawSocket.Requests

/-!
# A frame of the link-layer client

The client builds a whole Ethernet frame: its header, an IP header with a checksum, a UDP header and
the payload. Four lengths are computed from the payload. The number of bytes for `sendto` and the
one that the IP checksum covers stay in the machine; the length of the UDP header is put into
network order, and the total length of the IP header is not.

So whoever reads the frame finds a total length with its two bytes swapped. It is the right one for
a single payload length, for which both bytes are the same.
-/

namespace AllProjects.UdpRawSocket

open DnsProxy (htons ntohs ntohs_htons htons_lt)
open IcmpRawSocket (htonl ihlBytes fillChecksum_ihlBytes)
open RawSocket (fillChecksum)

/-! ## The client -/

/-- `MAX_MSG_SIZE` -/
def maxMsgSize : ℕ := 256

/-- `DEST_MAC0` to `DEST_MAC5`. -/
def destMac : List UInt8 := [0xF0, 0xDE, 0xF1, 0xFE, 0xED, 0x58]

/-- `inet_addr("192.168.2.1")`, which is `SOURCE_IP` as well as `DEST_IP`. -/
def inetAddr : ℕ := 192 + 256 * (168 + 256 * (2 + 256 * 1))

/-- `compute_ip_checksum` -/
def computeIpChecksum (m : Mem) (iph : ℕ) : Mem := fillChecksum m iph 10 (ihlBytes iph)

/-- `dgram` up to the checksum of the IP header. -/
def fillFrame (hwaddr : ℕ) (random len : ℕ) (data : List UInt8) : Mem :=
  let m : Mem := Mem.storeBytes (fun _ ↦ 0) 42 data
  let m := m.store 6 6 hwaddr
  let m := m.storeBytes 0 destMac
  let m := m.store 12 2 (htons 0x0800)
  let m := m.store 14 1 (4 * 16 + 5)
  let m := m.store 15 1 0
  -- `tot_len`, in host order
  let m := m.store 16 2 (20 + 8 + len)
  -- `htonl` for a field of 16 bits
  let m := m.store 18 2 (htonl random)
  let m := m.store 20 2 0
  let m := m.store 22 1 255
  let m := m.store 23 1 17
  let m := m.store 24 2 0
  let m := m.store 26 4 inetAddr
  m.store 30 4 inetAddr

/-- The UDP header. -/
def fillUdp (m : Mem) (len : ℕ) : Mem :=
  let m := m.store 34 2 (htons 9009)
  let m := m.store 36 2 (htons 8888)
  let m := m.store 38 2 (htons (8 + len))
  m.store 40 2 0

/-- `main` up to `sendto`, with the text in place of the literal: `dgram`, and the number of bytes
that `sendto` is given. -/
def clientFrame (hwaddr random : ℕ) (text : List UInt8) : Except Fault (Mem × ℕ) := do
  let data ← strncpy maxMsgSize text
  let len ← strlen data
  let udpplen := (14 + 20 + 8 + len) % 2 ^ 16
  .ok (fillUdp (computeIpChecksum (fillFrame hwaddr random len data) 14) len, udpplen)

/-! ## The reader -/

/-- What `print_ip_header` and `print_udp_packet` read from a frame. -/
structure Reading where
  totLen : ℕ
  check : ℕ
  verif : ℕ
  udpLen : ℕ
  payload : List UInt8

/-- The headers are found by the length in the first byte of the IP header, the payload by the
length in the UDP header. -/
def readFrame (m : Mem) : Reading :=
  let iphdrlen := ihlBytes 14 m
  let udph := 14 + iphdrlen
  let headerSize := 14 + iphdrlen + 8
  let udpLen := ntohs (m.load (udph + 4) 2)
  { totLen := ntohs (m.load (14 + 2) 2)
    check := m.load (14 + 10) 2
    verif := (computeIpChecksum m 14).load (14 + 10) 2
    udpLen := udpLen
    payload := m.slice headerSize (udpLen - 8) }

/-! ## What a frame is for -/

/-- The frame is read as what was put in: lengths, checksum and payload, and `sendto` is given the
Ethernet header and the IP packet. -/
structure DecodesTo (payload : List UInt8) (m : Mem) (bytes : ℕ) : Prop where
  totLen : (readFrame m).totLen = 28 + payload.length
  udpLen : (readFrame m).udpLen = 8 + payload.length
  valid : (readFrame m).check = (readFrame m).verif
  verifies : ChecksumVerifies (m.slice 14 20)
  payload_eq : (readFrame m).payload = payload
  bytes_eq : bytes = 14 + (28 + payload.length)

/-- The client builds a frame that is read as what was put in. -/
def FrameRight (hwaddr random : ℕ) (payload : List UInt8) : Prop :=
  ∃ m bytes, clientFrame hwaddr random (payload ++ [0]) = .ok (m, bytes) ∧ DecodesTo payload m bytes

/-! ## The headers -/

section

variable {hwaddr random len : ℕ} {data : List UInt8} {m m' : Mem}

theorem ihlBytes_fillFrame (hwaddr random len : ℕ) (data : List UInt8) :
    ihlBytes 14 (fillFrame hwaddr random len data) = 20 := by
  have hload : (fillFrame hwaddr random len data).load 14 1 = 4 * 16 + 5 := by
    simp (disch := omega) only [fillFrame, Mem.load_store_of_disjoint]
    exact Mem.load_store_same _ (by decide)
  rw [ihlBytes, hload]

theorem computeIpChecksum_fillFrame (hwaddr random len : ℕ) (data : List UInt8) :
    computeIpChecksum (fillFrame hwaddr random len data) 14
      = fillChecksum (fillFrame hwaddr random len data) 14 10 fun _ ↦ 20 := by
  rw [computeIpChecksum, fillChecksum_ihlBytes, ihlBytes_fillFrame]

theorem load_totLen (h : len ≤ 255) :
    (fillFrame hwaddr random len data).load (14 + 2) 2 = 28 + len := by
  simp (disch := omega) only [fillFrame, Mem.load_store_of_disjoint]
  rw [Mem.load_store_same _ (by omega)]

theorem fillUdp_apply (m : Mem) (len : ℕ) {x : ℕ} (h : x < 34) : fillUdp m len x = m x := by
  simp (disch := omega) only [fillUdp, Mem.store_apply_of_disjoint]

theorem load_fillUdp (m : Mem) (len : ℕ) {a w : ℕ} (h : a + w ≤ 34) :
    (fillUdp m len).load a w = m.load a w :=
  Mem.load_congr fun x _ hx ↦ fillUdp_apply m len (by omega)

theorem load_udpLen (m : Mem) (len : ℕ) : (fillUdp m len).load 38 2 = htons (8 + len) := by
  have hlt := htons_lt (8 + len)
  simp (disch := omega) only [fillUdp, Mem.load_store_of_disjoint]
  exact Mem.load_store_same _ hlt

/-- A header that was filled in is found valid, wherever it is read. -/
theorem load_eq_verif {addr field count : ℕ} (hroom : field + 2 ≤ count) (hcount : count < 2 ^ 32)
    (h : ∀ x, addr ≤ x → x < addr + count →
      m' x = fillChecksum m addr field (fun _ ↦ count) x) :
    m'.load (addr + field) 2
      = (fillChecksum m' addr field fun _ ↦ count).load (addr + field) 2 := by
  have hvalue : ∀ m : Mem, (fillChecksum m addr field fun _ ↦ count).load (addr + field) 2
      = RawSocket.computeChecksum (m.store (addr + field) 2 0) addr count :=
    fun m ↦ Mem.load_store_same _ (RawSocket.computeChecksum_lt ..)
  have hload : m'.load (addr + field) 2
      = (fillChecksum m addr field fun _ ↦ count).load (addr + field) 2 :=
    Mem.load_congr fun x hx hlt ↦ h x (by omega) (by omega)
  -- the field itself is cleared before the sum is taken
  have hcleared : (m'.store (addr + field) 2 0).slice addr count
      = (m.store (addr + field) 2 0).slice addr count := by
    apply Mem.slice_congr
    intro x hx hlt
    by_cases hin : addr + field ≤ x ∧ x < addr + field + 2
    · rw [Mem.store_of_mem _ hin.1 hin.2, Mem.store_of_mem _ hin.1 hin.2]
    · have hout : x < addr + field ∨ addr + field + 2 ≤ x := by omega
      rw [Mem.store_apply_of_disjoint _ hout, h x hx hlt, fillChecksum,
        Mem.store_apply_of_disjoint _ hout]
  rw [hload, hvalue, hvalue, RawSocket.computeChecksum_eq _ hcount,
    RawSocket.computeChecksum_eq _ hcount, hcleared]

end

/-! ## The frame -/

section

variable {hwaddr random : ℕ} {payload : List UInt8}

/-- What `strncpy` leaves in the buffer. -/
def paddedPayload (payload : List UInt8) : List UInt8 :=
  payload ++ List.replicate (maxMsgSize - payload.length) 0

/-- The frame for a payload. -/
def frameOf (hwaddr random : ℕ) (payload : List UInt8) : Mem :=
  fillUdp (computeIpChecksum (fillFrame hwaddr random payload.length (paddedPayload payload)) 14)
    payload.length

theorem clientFrame_eq (hwaddr random : ℕ) (h0 : 0 ∉ payload) (hlen : payload.length ≤ 255) :
    clientFrame hwaddr random (payload ++ [0])
      = .ok (frameOf hwaddr random payload, 42 + payload.length) := by
  have hlt : payload.length < maxMsgSize := Nat.lt_succ_of_le hlen
  have htake : payload.take maxMsgSize = payload := List.take_of_length_le hlt.le
  have hcopy : strncpy maxMsgSize (payload ++ [0]) = .ok (paddedPayload payload) := by
    rw [strncpy_eq_ok _ (cstring_append_zero h0 []), htake]
    rfl
  have hstring : cstring (paddedPayload payload) = some payload := by
    have hcut := cstring_strncpy h0 hlt
    rwa [htake] at hcut
  have hsmall : (14 + 20 + 8 + payload.length) % 2 ^ 16 = 42 + payload.length := by omega
  rw [clientFrame, hcopy]
  change (strlen (paddedPayload payload) >>= fun len ↦ _) = _
  rw [strlen_eq_ok hstring]
  change Except.ok (_, (14 + 20 + 8 + payload.length) % 2 ^ 16) = _
  rw [hsmall]
  rfl

theorem frameOf_apply (hwaddr random : ℕ) (payload : List UInt8) {x : ℕ} (h : x < 34) :
    frameOf hwaddr random payload x
      = fillChecksum (fillFrame hwaddr random payload.length (paddedPayload payload)) 14 10
        (fun _ ↦ 20) x := by
  rw [frameOf, fillUdp_apply _ _ h, computeIpChecksum_fillFrame]

theorem load_frameOf (hwaddr random : ℕ) (payload : List UInt8) {a w : ℕ}
    (h : a + w ≤ 24 ∨ 26 ≤ a ∧ a + w ≤ 34) : (frameOf hwaddr random payload).load a w
      = (fillFrame hwaddr random payload.length (paddedPayload payload)).load a w := by
  rw [frameOf, load_fillUdp _ _ (by omega), computeIpChecksum_fillFrame,
    RawSocket.load_fillChecksum_of_disjoint _ _ (by omega)]

theorem ihlBytes_frameOf (hwaddr random : ℕ) (payload : List UInt8) :
    ihlBytes 14 (frameOf hwaddr random payload) = 20 := by
  rw [ihlBytes, load_frameOf _ _ _ (Or.inl (by decide))]
  exact ihlBytes_fillFrame ..

theorem slice_frameOf (hwaddr random : ℕ) (payload : List UInt8) :
    (frameOf hwaddr random payload).slice 42 payload.length = payload := by
  have hmac : ∀ m : Mem, (m.storeBytes 0 destMac).slice 42 payload.length
      = m.slice 42 payload.length := by
    intro m
    apply Mem.slice_congr
    intro x hx _
    rw [Mem.storeBytes, if_neg]
    rintro ⟨-, hlt⟩
    have hsix : destMac.length = 6 := rfl
    omega
  rw [frameOf, computeIpChecksum_fillFrame, fillUdp]
  simp (disch := omega) only [Mem.slice_store_of_disjoint, RawSocket.slice_fillChecksum_of_disjoint,
    fillFrame, hmac]
  exact Mem.slice_storeBytes_append ..

/-- The total length is read with its bytes swapped. -/
theorem totLen_frameOf (hwaddr random : ℕ) (hlen : payload.length ≤ 255) :
    (readFrame (frameOf hwaddr random payload)).totLen = ntohs (28 + payload.length) := by
  rw [readFrame]
  dsimp only
  rw [load_frameOf _ _ _ (Or.inl (by decide)), load_totLen hlen]

theorem udpLen_readFrame {m : Mem} (hihl : ihlBytes 14 m = 20) :
    (readFrame m).udpLen = ntohs (m.load 38 2) := by
  rw [readFrame, hihl]

theorem payload_readFrame {m : Mem} (hihl : ihlBytes 14 m = 20) :
    (readFrame m).payload = m.slice 42 ((readFrame m).udpLen - 8) := by
  rw [readFrame, hihl]

theorem decodesTo_frameOf_iff (hwaddr random : ℕ) (hlen : payload.length ≤ 255) :
    DecodesTo payload (frameOf hwaddr random payload) (42 + payload.length)
      ↔ ntohs (28 + payload.length) = 28 + payload.length := by
  have hihl := ihlBytes_frameOf hwaddr random payload
  have hudp : (readFrame (frameOf hwaddr random payload)).udpLen = 8 + payload.length := by
    rw [udpLen_readFrame hihl, frameOf, load_udpLen, ntohs_htons]
    omega
  constructor
  · intro h
    rw [← totLen_frameOf hwaddr random hlen]
    exact h.totLen
  · intro hswap
    refine ⟨(totLen_frameOf hwaddr random hlen).trans hswap, hudp, ?_, ?_, ?_, by omega⟩
    · have hheader : (frameOf hwaddr random payload).load (14 + 10) 2
          = (fillChecksum (frameOf hwaddr random payload) 14 10 fun _ ↦ 20).load (14 + 10) 2 :=
        load_eq_verif (by decide) (by decide) fun x _ hx ↦ frameOf_apply hwaddr random payload hx
      rw [readFrame, computeIpChecksum, fillChecksum_ihlBytes, hihl]
      exact hheader
    · have hslice : (frameOf hwaddr random payload).slice 14 20 = (fillChecksum (fillFrame hwaddr
          random payload.length (paddedPayload payload)) 14 10 fun _ ↦ 20).slice 14 20 :=
        Mem.slice_congr fun x _ hx ↦ frameOf_apply hwaddr random payload hx
      rw [hslice]
      exact RawSocket.checksumVerifies_fillChecksum (by decide) (by decide) (by decide)
    · rw [payload_readFrame hihl, hudp, Nat.add_sub_cancel_left]
      exact slice_frameOf ..

end

theorem ntohs_totLen_iff {n : ℕ} (h : n ≤ 255) : ntohs (28 + n) = 28 + n ↔ n = 229 := by
  rw [ntohs, htons]
  omega

/-- **When a frame is read as what was put in.** For every address of the interface and every value
of `random`, exactly for payloads of 229 bytes. -/
theorem frameRight_iff {payload : List UInt8} (h0 : 0 ∉ payload)
    (hlen : payload.length ≤ maxMsgSize - 1) (hwaddr random : ℕ) :
    FrameRight hwaddr random payload ↔ payload.length = 229 := by
  have hframe := clientFrame_eq hwaddr random h0 hlen
  rw [← ntohs_totLen_iff hlen, ← decodesTo_frameOf_iff hwaddr random hlen]
  constructor
  · rintro ⟨m, bytes, hm, hdecodes⟩
    obtain ⟨rfl, rfl⟩ := Prod.mk.inj (Except.ok.inj (hframe.symm.trans hm))
    exact hdecodes
  · intro hdecodes
    exact ⟨_, _, hframe, hdecodes⟩

/-- A payload of the right length. -/
theorem frameRight_iff_fits : FrameRight 0 0 (List.replicate 229 97) := by
  have h0 : 0 ∉ List.replicate 229 (97 : UInt8) := by
    intro hmem
    exact absurd (List.eq_of_mem_replicate hmem) (by decide)
  have hlen : (List.replicate 229 (97 : UInt8)).length ≤ maxMsgSize - 1 := by
    rw [List.length_replicate]
    decide
  exact (frameRight_iff h0 hlen 0 0).mpr List.length_replicate

/-- `Hello Dmitry!` -/
def helloText : List UInt8 := [72, 101, 108, 108, 111, 32, 68, 109, 105, 116, 114, 121, 33]

/-- The text that the client sends: the total length is 41, and is read as 10496. -/
theorem not_frameRight : (readFrame (frameOf 0 0 helloText)).totLen = 10496
    ∧ ¬ FrameRight 0 0 helloText := by
  have htotLen : (readFrame (frameOf 0 0 helloText)).totLen = 10496 :=
    totLen_frameOf 0 0 (by decide)
  refine ⟨htotLen, ?_⟩
  rintro ⟨m, bytes, hm, hdecodes⟩
  have hframe : clientFrame 0 0 (helloText ++ [0])
      = .ok (frameOf 0 0 helloText, 42 + helloText.length) :=
    clientFrame_eq 0 0 (by decide) (by decide)
  obtain ⟨rfl, rfl⟩ := Prod.mk.inj (Except.ok.inj (hframe.symm.trans hm))
  exact absurd (htotLen.symm.trans hdecodes.totLen) (by decide)

end AllProjects.UdpRawSocket
