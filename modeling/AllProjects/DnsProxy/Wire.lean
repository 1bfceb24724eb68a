import AllProjects.DnsProxy.Hooks

/-!
# The wire format

What a DNS message says, as opposed to what the hooks read at fixed offsets. A name is a sequence of
labels, closed by a zero byte or by a pointer to an earlier place in the message, so where a record
starts depends on the names before it. The relations below read names, questions and the first
answer at an offset; a message has at most one reading.

They are specifications: the hooks never parse a name. The meeting point is a name without pointers
and without NUL bytes, which is the same thing as the C string that the hooks see.
-/

namespace AllProjects

namespace DnsProxy

/-! ## Names -/

/-- A label has from 1 to 63 bytes. -/
abbrev Label := { bytes : List UInt8 // 0 < bytes.length ∧ bytes.length < 64 }

/-- A label on the wire: its length and its bytes. -/
def encodeLabel (l : Label) : List UInt8 := UInt8.ofNat l.val.length :: l.val

/-- A sequence of labels on the wire, without the zero byte behind it. -/
def encodeLabels (ls : List Label) : List UInt8 := ls.flatMap encodeLabel

@[simp] theorem encodeLabels_nil : encodeLabels [] = [] := rfl

theorem encodeLabels_cons (l : Label) (ls : List Label) :
    encodeLabels (l :: ls) = UInt8.ofNat l.val.length :: (l.val ++ encodeLabels ls) := rfl

theorem toNat_length (l : Label) : (UInt8.ofNat l.val.length).toNat = l.val.length := by
  have hlt := l.property.2
  rw [UInt8.toNat_ofNat', Nat.mod_eq_of_lt (by omega)]

/-- `NameAt msg off ls next`: the name at `off` has the labels `ls`, and what follows it starts at
`next`. -/
inductive NameAt (msg : List UInt8) : ℕ → List Label → ℕ → Prop
  | root {off : ℕ} : msg[off]? = some 0 → NameAt msg off [] (off + 1)
  | label {off next : ℕ} {l : Label} {ls : List Label} : encodeLabel l <+: msg.drop off →
      NameAt msg (off + 1 + l.val.length) ls next → NameAt msg off (l :: ls) next
  | pointer {off target next : ℕ} {hi lo : UInt8} {ls : List Label} : msg[off]? = some hi →
      msg[off + 1]? = some lo → hi.toNat * 256 + lo.toNat = 0xc000 + target → target < off →
      NameAt msg target ls next → NameAt msg off ls (off + 2)

theorem exists_of_encodeLabel {msg : List UInt8} {off : ℕ} {l : Label}
    (h : encodeLabel l <+: msg.drop off) :
    ∃ b, msg[off]? = some b ∧ 0 < b.toNat ∧ b.toNat < 64 := by
  obtain ⟨rest, hrest⟩ := h
  refine ⟨UInt8.ofNat l.val.length, ?_, ?_, ?_⟩
  · rw [← Nat.add_zero off, ← List.getElem?_drop, ← hrest]
    rfl
  · rw [toNat_length]
    exact l.property.1
  · rw [toNat_length]
    exact l.property.2

theorem le_of_pointer {hi lo : UInt8} {target : ℕ}
    (h : hi.toNat * 256 + lo.toNat = 0xc000 + target) :
    192 ≤ hi.toNat := by
  have hlo := lo.toNat_lt
  omega

theorem encodeLabel_inj_of_prefix {bs : List UInt8} {l l' : Label} (h : encodeLabel l <+: bs)
    (h' : encodeLabel l' <+: bs) : l = l' := by
  obtain ⟨rest, rfl⟩ := h
  obtain ⟨rest', hrest⟩ := h'
  rw [encodeLabel, encodeLabel, List.cons_append, List.cons_append, List.cons.injEq] at hrest
  have hlen : l'.val.length = l.val.length := by
    rw [← toNat_length l', hrest.1, toNat_length]
  exact Subtype.ext (List.append_inj hrest.2 hlen).1.symm

/-- **A name has one reading.** The first byte tells the three cases apart. -/
theorem NameAt.unique {msg : List UInt8} {off next next' : ℕ} {ls ls' : List Label}
    (h : NameAt msg off ls next) (h' : NameAt msg off ls' next') : ls = ls' ∧ next = next' := by
  have hsame : ∀ {off : ℕ} {b b' : UInt8}, msg[off]? = some b → msg[off]? = some b' →
      b.toNat = b'.toNat := fun h h' ↦ congrArg UInt8.toNat (Option.some_inj.mp (h.symm.trans h'))
  have hzero : (0 : UInt8).toNat = 0 := rfl
  induction h generalizing ls' next' with
  | root h0 =>
    cases h' with
    | root => exact ⟨rfl, rfl⟩
    | label hl =>
      obtain ⟨b, hb, hpos, -⟩ := exists_of_encodeLabel hl
      exact absurd (hsame h0 hb) (by omega)
    | pointer hhi _ htarget => exact absurd (hsame h0 hhi) (by have := le_of_pointer htarget; omega)
  | label hl _ ih =>
    obtain ⟨b, hb, hpos, hlt⟩ := exists_of_encodeLabel hl
    cases h' with
    | root h0 => exact absurd (hsame h0 hb) (by omega)
    | label hl' hrest =>
      obtain rfl := encodeLabel_inj_of_prefix hl hl'
      obtain ⟨rfl, rfl⟩ := ih hrest
      exact ⟨rfl, rfl⟩
    | pointer hhi _ htarget => exact absurd (hsame hb hhi) (by have := le_of_pointer htarget; omega)
  | pointer hhi hlo htarget _ _ ih =>
    have hge := le_of_pointer htarget
    cases h' with
    | root h0 => exact absurd (hsame h0 hhi) (by omega)
    | label hl =>
      obtain ⟨b, hb, -, hlt⟩ := exists_of_encodeLabel hl
      exact absurd (hsame hb hhi) (by omega)
    | pointer hhi' hlo' htarget' _ hrest =>
      rw [hsame hhi hhi', hsame hlo hlo', htarget'] at htarget
      obtain rfl := Nat.add_left_cancel htarget
      exact ⟨(ih hrest).1, rfl⟩

theorem nameAt_encodeLabels {msg : List UInt8} {off : ℕ} {ls : List Label}
    (h : encodeLabels ls ++ [0] <+: msg.drop off) :
    NameAt msg off ls (off + ((encodeLabels ls).length + 1)) := by
  induction ls generalizing off with
  | nil =>
    obtain ⟨rest, hrest⟩ := h
    apply NameAt.root
    rw [← Nat.add_zero off, ← List.getElem?_drop, ← hrest]
    rfl
  | cons l ls ih =>
    obtain ⟨rest, hrest⟩ := h
    have hlabel : encodeLabel l <+: msg.drop off :=
      ⟨encodeLabels ls ++ [0] ++ rest, by rw [← hrest]; simp [encodeLabels]⟩
    have hdrop : encodeLabels ls ++ [0] <+: msg.drop (off + 1 + l.val.length) := by
      refine ⟨rest, ?_⟩
      rw [Nat.add_assoc, ← List.drop_drop, ← hrest, encodeLabels_cons]
      simp [Nat.add_comm 1]
    have hnext := NameAt.label hlabel (ih hdrop)
    rwa [show off + 1 + l.val.length + ((encodeLabels ls).length + 1)
      = off + ((encodeLabels (l :: ls)).length + 1) by
        rw [encodeLabels_cons, List.length_cons, List.length_append]; omega] at hnext

/-! ## Questions and answers -/

/-- The 16-bit number at an offset, in network byte order. -/
def be16 (msg : List UInt8) (off : ℕ) : Option ℕ := do
  let hi ← msg[off]?
  let lo ← msg[off + 1]?
  return hi.toNat * 256 + lo.toNat

/-- A question. -/
structure Question where
  labels : List Label
  qtype : ℕ
  qclass : ℕ

/-- The question at an offset, and the offset behind it. -/
def QuestionAt (msg : List UInt8) (off : ℕ) (q : Question) (next : ℕ) : Prop :=
  ∃ name, NameAt msg off q.labels name ∧ be16 msg name = some q.qtype ∧
    be16 msg (name + 2) = some q.qclass ∧ next = name + 4

theorem QuestionAt.unique {msg : List UInt8} {off next next' : ℕ} {q q' : Question}
    (h : QuestionAt msg off q next) (h' : QuestionAt msg off q' next') : q = q' ∧ next = next' := by
  obtain ⟨name, hname, htype, hclass, rfl⟩ := h
  obtain ⟨name', hname', htype', hclass', rfl⟩ := h'
  obtain ⟨hlabels, rfl⟩ := hname.unique hname'
  rw [htype, Option.some_inj] at htype'
  rw [hclass, Option.some_inj] at hclass'
  cases q
  cases q'
  cases hlabels
  cases htype'
  cases hclass'
  exact ⟨rfl, rfl⟩

/-- Questions one behind the other, and the offset behind the last. -/
inductive QuestionsAt (msg : List UInt8) : ℕ → List Question → ℕ → Prop
  | nil (off : ℕ) : QuestionsAt msg off [] off
  | cons {off mid next : ℕ} {q : Question} {qs : List Question} : QuestionAt msg off q mid →
      QuestionsAt msg mid qs next → QuestionsAt msg off (q :: qs) next

/-- A query with `qr = 0` and `opcode = 0` that asks exactly one question, of the given type and
class. -/
structure StandardQuery (msg : List UInt8) (qtype qclass : ℕ) : Prop where
  flags : ∃ b, msg[2]? = some b ∧ b.toNat / 128 = 0 ∧ b.toNat / 8 % 16 = 0
  qCount : be16 msg 4 = some 1
  question : ∃ q next, QuestionAt msg sizeofDnsHeader q next ∧ q.qtype = qtype ∧ q.qclass = qclass

/-- A response whose first answer is a record of type A, class IN and data length 4. It has the
address and the time to live of `r`, and its owner is the name of a question and of `r`. -/
structure RealAnswer (msg : List UInt8) (r : DnsRecord) : Prop where
  response : ∃ b, msg[2]? = some b ∧ b.toNat / 128 = 1
  ansCount : ∃ count, be16 msg 6 = some count ∧ 1 ≤ count
  answer : ∃ qs ans q name, be16 msg 4 = some qs.length ∧ QuestionsAt msg sizeofDnsHeader qs ans ∧
    q ∈ qs ∧ NameAt msg ans q.labels name ∧ r.Named (encodeLabels q.labels) ∧
    be16 msg name = some 1 ∧ be16 msg (name + 2) = some 1 ∧
    bytesOf r.ttl <+: msg.drop (name + 4) ∧ be16 msg (name + 8) = some 4 ∧
    bytesOf r.addr <+: msg.drop (name + 10)

/-! ## Messages in packets -/

namespace SkBuff

/-- Where the DNS header starts. -/
def dnsOffset (skb : SkBuff) : ℕ := skb.udpOffset + sizeofUdphdr

/-- The DNS message: what the packet holds behind the UDP header. -/
def message (skb : SkBuff) : List UInt8 :=
  skb.mem.slice skb.dnsOffset (skb.len - skb.dnsOffset)

variable {skb : SkBuff}

theorem getElem?_message {i : ℕ} (h : skb.dnsOffset + i < skb.len) :
    skb.message[i]? = some (skb.mem (skb.dnsOffset + i)) :=
  Mem.getElem?_slice _ (by omega)

theorem be16_message {off : ℕ} (h : skb.dnsOffset + off + 2 ≤ skb.len) :
    be16 skb.message off = some (ntohs (skb.mem.load (skb.dnsOffset + off) 2)) := by
  have hlo := (skb.mem (skb.dnsOffset + off)).toNat_lt
  have hhi := (skb.mem (skb.dnsOffset + (off + 1))).toNat_lt
  rw [be16, getElem?_message (by omega), getElem?_message (by omega), Mem.load_two, ntohs, htons,
    Nat.add_assoc skb.dnsOffset]
  refine congrArg some ?_
  omega

theorem be16_message_of_htons {off v : ℕ} (hv : v < 2 ^ 16)
    (hroom : skb.dnsOffset + off + 2 ≤ skb.len)
    (h : skb.mem.load (skb.dnsOffset + off) 2 = htons v) : be16 skb.message off = some v := by
  rw [be16_message hroom, h, ntohs_htons, Nat.mod_eq_of_lt hv]

theorem slice_prefix_message {off n : ℕ} (h : skb.dnsOffset + off + n ≤ skb.len) :
    skb.mem.slice (skb.dnsOffset + off) n <+: skb.message.drop off := by
  have hlen : skb.len - skb.dnsOffset = off + (n + (skb.len - skb.dnsOffset - off - n)) := by omega
  rw [message, hlen, Mem.slice_add, Mem.slice_add, List.drop_left' (Mem.length_slice _ _ _)]
  exact List.prefix_append _ _

/-- The string that the hooks read is the name of the first question, when it is made of labels. -/
theorem nameAt_message {ls : List Label}
    (hn : cstring (skb.bytesFrom skb.nameOffset) = some (encodeLabels ls))
    (hroom : skb.nameOffset + ((encodeLabels ls).length + 1) ≤ skb.len) :
    NameAt skb.message sizeofDnsHeader ls (sizeofDnsHeader + ((encodeLabels ls).length + 1)) := by
  apply nameAt_encodeLabels
  rw [← slice_of_cstring hn]
  exact slice_prefix_message hroom

end SkBuff

/-! ## Packets from bytes -/

/-- A 16-bit number in network byte order. -/
def be16Bytes (v : ℕ) : List UInt8 := [UInt8.ofNat (v / 256), UInt8.ofNat v]

/-- The IPv4 packet that consists of the given bytes. -/
def SkBuff.ofBytes (bytes : List UInt8) : SkBuff where
  protocol := htons ethPIp
  mem := fun x ↦ bytes.getD x 0
  len := bytes.length
  size := bytes.length
  transportHeader := 0

/-- A UDP packet between these ports, with the DNS message `msg`. -/
def udpPacket (source dest : ℕ) (msg : List UInt8) : SkBuff :=
  .ofBytes ([0x45, 0] ++ be16Bytes (28 + msg.length) ++ [0, 0, 0, 0, 64, 17, 0, 0] ++
    [10, 0, 0, 2] ++ [8, 8, 8, 8] ++ be16Bytes source ++ be16Bytes dest ++
    be16Bytes (8 + msg.length) ++ [0, 0] ++ msg)

/-- A DNS message with one question, for the NUL-terminated name `name`, and `answers` behind it. -/
def dnsMessage (flags ansCount : ℕ) (name : List UInt8) (qtype : ℕ) (answers : List UInt8) :
    List UInt8 :=
  [0x12, 0x34] ++ be16Bytes flags ++ be16Bytes 1 ++ be16Bytes ansCount ++ [0, 0, 0, 0] ++
    name ++ [0] ++ be16Bytes qtype ++ be16Bytes 1 ++ answers

/-- An answer of type A and class IN for the question name. -/
def answerA (ttl addr : UInt32) : List UInt8 :=
  [0xc0, 0x0c] ++ be16Bytes 1 ++ be16Bytes 1 ++ bytesOf ttl ++ be16Bytes 4 ++ bytesOf addr

/-- A reply for a name, with the address 127.0.0.1. -/
def replyFor (name : List UInt8) : SkBuff :=
  udpPacket 53 4000 (dnsMessage 0x8180 1 name 1 (answerA 60 0x0100007f))

/-- A query for a name. -/
def queryFor (name : List UInt8) : SkBuff :=
  udpPacket 4000 53 (dnsMessage 0x0100 0 name 1 [])

theorem SkBuff.ofBytes_bytesFrom (bytes : List UInt8) (a : ℕ) :
    (SkBuff.ofBytes bytes).bytesFrom a = bytes.drop a := by
  refine List.ext_getElem? ?_
  intro i
  rw [List.getElem?_drop]
  by_cases hi : i < bytes.length - a
  · refine (Mem.getElem?_slice _ hi).trans ?_
    change some (bytes.getD (a + i) 0) = _
    rw [List.getD_eq_getElem _ _ (by omega), List.getElem?_eq_getElem]
  · rw [List.getElem?_eq_none, List.getElem?_eq_none (by omega)]
    exact (Mem.length_slice _ _ _).trans_le (not_lt.mp hi)

section UdpPacket

variable (source dest : ℕ) (msg : List UInt8)

theorem isUdp_udpPacket : (udpPacket source dest msg).IsUdp := by
  refine ⟨rfl, ?_, ?_⟩
  · rw [Mem.load_one]
    change (0x45 : UInt8).toNat / 16 = 4
    decide
  · rw [Mem.load_one]
    change (17 : UInt8).toNat = ipprotoUdp
    decide

theorem udpOffset_udpPacket : (udpPacket source dest msg).udpOffset = 20 := by
  rw [SkBuff.udpOffset, Mem.load_one]
  change (0x45 : UInt8).toNat % 16 * 4 = 20
  decide

theorem source_udpPacket : (udpPacket source dest msg).mem.load 20 2 = htons source := by
  rw [Mem.load_two]
  change (UInt8.ofNat (source / 256)).toNat + 256 * (UInt8.ofNat source).toNat = htons source
  rw [UInt8.toNat_ofNat', UInt8.toNat_ofNat', htons]
  omega

theorem dest_udpPacket : (udpPacket source dest msg).mem.load 22 2 = htons dest := by
  rw [Mem.load_two]
  change (UInt8.ofNat (dest / 256)).toNat + 256 * (UInt8.ofNat dest).toNat = htons dest
  rw [UInt8.toNat_ofNat', UInt8.toNat_ofNat', htons]
  omega

theorem cstring_udpPacket {name : List UInt8} (h0 : 0 ∉ name) (flags ansCount qtype : ℕ)
    (answers : List UInt8) :
    cstring ((udpPacket source dest (dnsMessage flags ansCount name qtype answers)).bytesFrom 40)
      = some name := by
  rw [udpPacket, SkBuff.ofBytes_bytesFrom]
  simp [dnsMessage, be16Bytes, cstring_append_zero h0]

theorem replyName_replyFor {name : List UInt8} (h0 : 0 ∉ name) :
    (replyFor name).replyName = some name := by
  refine SkBuff.replyName_eq_some.mpr ⟨⟨isUdp_udpPacket _ _ _, ?_⟩, ?_⟩
  · rw [replyFor, udpOffset_udpPacket, source_udpPacket]
    rfl
  · rw [replyFor, SkBuff.nameOffset, udpOffset_udpPacket]
    exact cstring_udpPacket _ _ h0 _ _ _ _

theorem queryName_queryFor {name : List UInt8} (h0 : 0 ∉ name) :
    (queryFor name).queryName = some name := by
  refine SkBuff.queryName_eq_some.mpr ⟨⟨isUdp_udpPacket _ _ _, ?_⟩, ?_⟩
  · rw [queryFor, udpOffset_udpPacket, dest_udpPacket]
    rfl
  · rw [queryFor, SkBuff.nameOffset, udpOffset_udpPacket]
    exact cstring_udpPacket _ _ h0 _ _ _ _

end UdpPacket

end DnsProxy

end AllProjects
