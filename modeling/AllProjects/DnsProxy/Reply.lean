import AllProjects.DnsProxy.Wire

/-!
# The reply packet

`send_reply` edits a copy of the query in place and writes one answer behind the question. Its four
groups of edits are computed here as functions on the memory. From them follows what a reader finds
in the emitted packet, and in particular that `dns_reply_hook` finds the record that was sent.

The writes of the four groups do not meet as long as the UDP header lies behind the fixed part of
the IP header. `sendReply` completes without this, whenever there is a copy and the answer fits into
it, which it does if the question lies inside the packet.
-/

namespace AllProjects

namespace DnsProxy

open SkBuff

/-! ## The edits as memories -/

/-- The memory after the edits of the IP header. -/
def ipMem (k : Kernel) (m : Mem) : Mem :=
  let edited := ((((m.store 2 2 (htons (ntohs (m.load 2 2) + 16))).store 8 1 255).store
    10 2 0).store 12 4 (m.load 16 4)).store 16 4 (m.load 12 4)
  edited.store 10 2 (k.ipFastCsum edited (m.load 0 1 % 16))

/-- The memory after the edits of the UDP header. -/
def udpMem (m : Mem) (udp : ℕ) : Mem :=
  ((m.store (udp + 4) 2 (htons (ntohs (m.load (udp + 4) 2) + 16))).store udp 2
    (m.load (udp + 2) 2)).store (udp + 2) 2 (m.load udp 2)

/-- The memory after the edits of the DNS header. -/
def dnsMem (m : Mem) (dns : ℕ) : Mem :=
  (((((m.store (dns + 2) 1 (m.load (dns + 2) 1 ||| 0x81)).store (dns + 3) 1
    ((m.load (dns + 3) 1 ||| 0x80) &&& 0xdf)).store (dns + 4) 2 (htons 1)).store (dns + 6) 2
    (htons 1)).store (dns + 8) 2 (htons 0)).store (dns + 10) 2 (htons 0)

/-- The memory with an answer record. -/
def ansMem (m : Mem) (ans : ℕ) (r : DnsRecord) : Mem :=
  (((((m.store ans 2 0xcc0).store (ans + 2) 2 (htons 1)).store (ans + 4) 2 (htons 1)).store
    (ans + 6) 4 r.ttl.toNat).store (ans + 10) 2 (htons 4)).store (ans + 12) 4 r.addr.toNat

/-- The packet that `send_reply` emits for a record whose name has `nameLen` bytes. -/
def replyPacket (k : Kernel) (room : Tailroom 16) (skb : SkBuff) (r : DnsRecord) (nameLen : ℕ) :
    SkBuff :=
  { skb with
    mem := ansMem (dnsMem (udpMem (ipMem k (skb.copyExpand room).mem) skb.transportHeader)
      (skb.transportHeader + 8)) (skb.transportHeader + 20 + (nameLen + 5)) r
    len := skb.len + 16
    size := skb.len + room.size }

section Edits

variable {k : Kernel} {skb : SkBuff}

theorem editIp_eq_ok_iff {skb' : SkBuff} :
    editIp k skb = .ok skb' ↔ 20 ≤ skb.size ∧ skb' = skb.withMem (ipMem k skb.mem) := by
  simp (disch := omega) only [editIp, totLen, saddr, daddr, ihl, setTotLen, setIpTtl, setIpCheck,
    setSaddr, setDaddr, Except.bind_eq_ok_iff, store_eq_ok_iff, load_eq_ok_iff, Except.pure_eq_ok,
    Except.ok.injEq, and_assoc, exists_and_left, exists_eq_left, exists_eq_left', withMem_size,
    withMem_mem, withMem_withMem, Mem.load_store_of_disjoint]
  simp only [← and_assoc]
  exact and_congr_left fun _ ↦ by omega

theorem editUdp_eq_ok_iff {udp : ℕ} {skb' : SkBuff} :
    editUdp skb udp = .ok skb' ↔ udp + 6 ≤ skb.size ∧ skb' = skb.withMem (udpMem skb.mem udp) := by
  simp (disch := omega) only [editUdp, udpLen, source, dest, setUdpLen, setSource, setDest,
    Except.bind_eq_ok_iff, store_eq_ok_iff, load_eq_ok_iff, and_assoc, exists_and_left,
    exists_eq_left, withMem_size, withMem_mem, withMem_withMem, Mem.load_store_of_disjoint]
  simp only [← and_assoc]
  exact and_congr_left fun _ ↦ by omega

theorem editDns_eq_ok_iff {dns : ℕ} {skb' : SkBuff} :
    editDns skb dns = .ok skb' ↔ dns + 12 ≤ skb.size ∧ skb' = skb.withMem (dnsMem skb.mem dns) := by
  simp (disch := omega) only [editDns, setQrRd, setRaAd, setQCount, setAnsCount, setAuthCount,
    setAddCount, Except.bind_eq_ok_iff, store_eq_ok_iff, load_eq_ok_iff, and_assoc, exists_and_left,
    exists_eq_left, withMem_size, withMem_mem, withMem_withMem, Mem.load_store_of_disjoint]
  simp only [← and_assoc]
  exact and_congr_left fun _ ↦ by omega

theorem writeAns_eq_ok_iff {ans : ℕ} {r : DnsRecord} {skb' : SkBuff} :
    writeAns skb ans r = .ok skb' ↔
      ans + 16 ≤ skb.size ∧ skb' = skb.withMem (ansMem skb.mem ans r) := by
  simp only [writeAns, setAnsName, setAnsType, setAnsClass, setAnsTtl, setAnsDataLen, setAnsRdata,
    Except.bind_eq_ok_iff, store_eq_ok_iff, and_assoc, exists_and_left, exists_eq_left,
    withMem_size, withMem_mem, withMem_withMem]
  simp only [← and_assoc]
  exact and_congr_left fun _ ↦ by omega

/-! ### What the edits leave alone -/

theorem ipMem_of_ge (m : Mem) {x : ℕ} (h : 20 ≤ x) : ipMem k m x = m x := by
  simp (disch := omega) only [ipMem, Mem.store_apply_of_disjoint]

theorem udpMem_of_not (m : Mem) {udp x : ℕ} (h : x < udp ∨ udp + 6 ≤ x) : udpMem m udp x = m x := by
  simp (disch := omega) only [udpMem, Mem.store_apply_of_disjoint]

theorem dnsMem_of_not (m : Mem) {dns x : ℕ} (h : x < dns + 2 ∨ dns + 12 ≤ x) :
    dnsMem m dns x = m x := by
  simp (disch := omega) only [dnsMem, Mem.store_apply_of_disjoint]

theorem ansMem_of_not (m : Mem) {ans x : ℕ} (r : DnsRecord) (h : x < ans ∨ ans + 16 ≤ x) :
    ansMem m ans r x = m x := by
  simp (disch := omega) only [ansMem, Mem.store_apply_of_disjoint]

theorem ipMem_load_of_ge (m : Mem) {a w : ℕ} (h : 20 ≤ a) : (ipMem k m).load a w = m.load a w :=
  Mem.load_congr fun _ hx _ ↦ ipMem_of_ge m (by omega)

theorem udpMem_load_of_not (m : Mem) {udp a w : ℕ} (h : a + w ≤ udp ∨ udp + 6 ≤ a) :
    (udpMem m udp).load a w = m.load a w :=
  Mem.load_congr fun _ hx hx' ↦ udpMem_of_not m (by omega)

theorem dnsMem_load_of_not (m : Mem) {dns a w : ℕ} (h : a + w ≤ dns + 2 ∨ dns + 12 ≤ a) :
    (dnsMem m dns).load a w = m.load a w :=
  Mem.load_congr fun _ hx hx' ↦ dnsMem_of_not m (by omega)

theorem ansMem_load_of_not (m : Mem) {ans a w : ℕ} (r : DnsRecord)
    (h : a + w ≤ ans ∨ ans + 16 ≤ a) :
    (ansMem m ans r).load a w = m.load a w :=
  Mem.load_congr fun _ hx hx' ↦ ansMem_of_not m r (by omega)

/-! ### What the edits write -/

theorem ntohs_htons_mod (x : ℕ) : ntohs (htons x % 256 ^ 2) = x % 2 ^ 16 := by
  have hlt : htons x < 256 ^ 2 := htons_lt x
  rw [Nat.mod_eq_of_lt hlt, ntohs_htons]

theorem ipMem_load (m : Mem) :
    (ipMem k m).load 0 1 = m.load 0 1 ∧ (ipMem k m).load 9 1 = m.load 9 1 ∧
      ntohs ((ipMem k m).load 2 2) = (ntohs (m.load 2 2) + 16) % 2 ^ 16 ∧
      (ipMem k m).load 12 4 = m.load 16 4 ∧ (ipMem k m).load 16 4 = m.load 12 4 := by
  refine ⟨?_, ?_, ?_, ?_, ?_⟩
  all_goals
    simp (disch := omega) only [ipMem, Mem.load_store_of_disjoint, Mem.load_store_at]
  · exact ntohs_htons_mod _
  · exact Nat.mod_eq_of_lt (Mem.load_lt _ _ _)
  · exact Nat.mod_eq_of_lt (Mem.load_lt _ _ _)

theorem udpMem_load (m : Mem) (udp : ℕ) :
    (udpMem m udp).load udp 2 = m.load (udp + 2) 2 ∧
      (udpMem m udp).load (udp + 2) 2 = m.load udp 2 ∧
      ntohs ((udpMem m udp).load (udp + 4) 2) = (ntohs (m.load (udp + 4) 2) + 16) % 2 ^ 16 := by
  refine ⟨?_, ?_, ?_⟩
  all_goals
    simp (disch := omega) only [udpMem, Mem.load_store_of_disjoint, Mem.load_store_at]
  · exact Nat.mod_eq_of_lt (Mem.load_lt _ _ _)
  · exact Nat.mod_eq_of_lt (Mem.load_lt _ _ _)
  · exact ntohs_htons_mod _

theorem qr_or : ∀ b : Fin 256, (b.val ||| 0x81) % 256 ^ 1 / 128 = 1 := by
  decide +kernel

theorem dnsMem_load (m : Mem) (dns : ℕ) :
    (dnsMem m dns).load (dns + 2) 1 / 128 = 1 ∧ ntohs ((dnsMem m dns).load (dns + 4) 2) = 1 ∧
      ntohs ((dnsMem m dns).load (dns + 6) 2) = 1 ∧ ntohs ((dnsMem m dns).load (dns + 8) 2) = 0 ∧
      ntohs ((dnsMem m dns).load (dns + 10) 2) = 0 := by
  refine ⟨?_, ?_, ?_, ?_, ?_⟩
  all_goals
    simp (disch := omega) only [dnsMem, Mem.load_store_of_disjoint, Mem.load_store_at,
      ntohs_htons_mod]
  · exact qr_or ⟨_, Mem.load_lt m _ 1⟩
  all_goals rfl

theorem ansMem_load (m : Mem) (ans : ℕ) (r : DnsRecord) :
    UInt32.ofNat ((ansMem m ans r).load (ans + 6) 4) = r.ttl ∧
      UInt32.ofNat ((ansMem m ans r).load (ans + 12) 4) = r.addr := by
  have hword : ∀ v : UInt32, UInt32.ofNat (v.toNat % 256 ^ 4) = v := by
    intro v
    have hlt : v.toNat < 256 ^ 4 := v.toNat_lt
    rw [Nat.mod_eq_of_lt hlt, UInt32.ofNat_toNat]
  constructor
  all_goals
    simp (disch := omega) only [ansMem, Mem.load_store_of_disjoint, Mem.load_store_at, hword]

theorem ansMem_load_type (m : Mem) (ans : ℕ) (r : DnsRecord) :
    (ansMem m ans r).load (ans + 2) 2 = htons 1 ∧ (ansMem m ans r).load (ans + 4) 2 = htons 1 := by
  constructor
  all_goals
    simp (disch := omega) only [ansMem, Mem.load_store_of_disjoint, Mem.load_store_at]
    rfl

/-! ### The layers of a reply

Each group of edits leaves what lies before it, and the UDP header lies behind the fixed part of the
IP header. -/

section Layers

variable {room : Tailroom 16} {r : DnsRecord} {nameLen : ℕ}

theorem replyPacket_load_dns {a w : ℕ} (h : a + w ≤ skb.transportHeader + 20) :
    (replyPacket k room skb r nameLen).mem.load a w
      = (dnsMem (udpMem (ipMem k (skb.copyExpand room).mem) skb.transportHeader)
          (skb.transportHeader + 8)).load a w :=
  ansMem_load_of_not _ r (by omega)

theorem replyPacket_load_udp {a w : ℕ} (h : a + w ≤ skb.transportHeader + 10) :
    (replyPacket k room skb r nameLen).mem.load a w
      = (udpMem (ipMem k (skb.copyExpand room).mem) skb.transportHeader).load a w := by
  rw [replyPacket_load_dns (by omega), dnsMem_load_of_not _ (by omega)]

theorem replyPacket_load_ip {a w : ℕ} (h : a + w ≤ skb.transportHeader) :
    (replyPacket k room skb r nameLen).mem.load a w
      = (ipMem k (skb.copyExpand room).mem).load a w := by
  rw [replyPacket_load_udp (by omega), udpMem_load_of_not _ (by omega)]

theorem replyPacket_kept {x : ℕ} (hip : 20 ≤ x)
    (hudp : x < skb.transportHeader ∨ skb.transportHeader + 6 ≤ x)
    (hdns : x < skb.transportHeader + 10 ∨ skb.transportHeader + 20 ≤ x)
    (hans : x < skb.transportHeader + 20 + (nameLen + 5) ∨
      skb.transportHeader + 20 + (nameLen + 5) + 16 ≤ x) :
    (replyPacket k room skb r nameLen).mem x = (skb.copyExpand room).mem x := by
  dsimp only [replyPacket]
  rw [ansMem_of_not _ r hans, dnsMem_of_not _ (by omega), udpMem_of_not _ hudp, ipMem_of_ge _ hip]

theorem copyExpand_load {a w : ℕ} (h : a + w ≤ skb.len) :
    (skb.copyExpand room).mem.load a w = skb.mem.load a w :=
  Mem.load_congr fun _ _ hx ↦ if_pos (by omega)

theorem replyPacket_question {x : ℕ} (hlo : skb.transportHeader + 20 ≤ x)
    (hhi : x < skb.transportHeader + 20 + (nameLen + 5)) (hlen : x < skb.len) :
    (replyPacket k room skb r nameLen).mem x = skb.mem x := by
  rw [replyPacket_kept (by omega) (by omega) (by omega) (by omega)]
  exact if_pos hlen

variable {R : SkBuff} (hR : R = replyPacket k room skb r nameLen)

include hR

theorem replyPacket_ip (hip : 20 ≤ skb.transportHeader) (hlen : 20 ≤ skb.len) :
    R.mem.load 0 1 = skb.mem.load 0 1 ∧ R.mem.load 9 1 = skb.mem.load 9 1 ∧
      ntohs (R.mem.load 2 2) = (ntohs (skb.mem.load 2 2) + 16) % 2 ^ 16 ∧
      R.mem.load 12 4 = skb.mem.load 16 4 ∧ R.mem.load 16 4 = skb.mem.load 12 4 := by
  have hload := ipMem_load (k := k) (skb.copyExpand room).mem
  simp (disch := omega) only [copyExpand_load] at hload
  rw [hR]
  refine ⟨?_, ?_, ?_, ?_, ?_⟩
  all_goals rw [replyPacket_load_ip (by omega)]
  · exact hload.1
  · exact hload.2.1
  · exact hload.2.2.1
  · exact hload.2.2.2.1
  · exact hload.2.2.2.2

theorem replyPacket_udp (hip : 20 ≤ skb.transportHeader)
    (hlen : skb.transportHeader + 8 ≤ skb.len) :
    R.mem.load skb.transportHeader 2 = skb.mem.load (skb.transportHeader + 2) 2 ∧
      R.mem.load (skb.transportHeader + 2) 2 = skb.mem.load skb.transportHeader 2 ∧
      ntohs (R.mem.load (skb.transportHeader + 4) 2)
        = (ntohs (skb.mem.load (skb.transportHeader + 4) 2) + 16) % 2 ^ 16 := by
  have hload := udpMem_load (ipMem k (skb.copyExpand room).mem) skb.transportHeader
  simp (disch := omega) only [ipMem_load_of_ge, copyExpand_load] at hload
  rw [hR]
  refine ⟨?_, ?_, ?_⟩
  all_goals rw [replyPacket_load_udp (by omega)]
  · exact hload.1
  · exact hload.2.1
  · exact hload.2.2

theorem replyPacket_dns (hip : 20 ≤ skb.transportHeader)
    (hlen : skb.transportHeader + 20 ≤ skb.len) :
    R.mem.load (skb.transportHeader + 8) 2 = skb.mem.load (skb.transportHeader + 8) 2 ∧
      R.mem.load (skb.transportHeader + 10) 1 / 128 = 1 ∧
      ntohs (R.mem.load (skb.transportHeader + 12) 2) = 1 ∧
      ntohs (R.mem.load (skb.transportHeader + 14) 2) = 1 ∧
      ntohs (R.mem.load (skb.transportHeader + 16) 2) = 0 ∧
      ntohs (R.mem.load (skb.transportHeader + 18) 2) = 0 := by
  obtain ⟨hqr, hqCount, hansCount, hauthCount, haddCount⟩ :=
    dnsMem_load (udpMem (ipMem k (skb.copyExpand room).mem) skb.transportHeader)
      (skb.transportHeader + 8)
  rw [hR]
  refine ⟨?_, ?_, ?_, ?_, ?_, ?_⟩
  · rw [replyPacket_load_udp (by omega), udpMem_load_of_not _ (by omega),
      ipMem_load_of_ge _ (by omega), copyExpand_load (by omega)]
  all_goals rw [replyPacket_load_dns (by omega)]
  · exact hqr
  · exact hqCount
  · exact hansCount
  · exact hauthCount
  · exact haddCount

theorem replyPacket_answer {ans : ℕ} (hans : ans = skb.transportHeader + 20 + (nameLen + 5)) :
    R.mem.load (ans + 2) 2 = htons 1 ∧ R.mem.load (ans + 4) 2 = htons 1 ∧
      UInt32.ofNat (R.mem.load (ans + 6) 4) = r.ttl ∧
      UInt32.ofNat (R.mem.load (ans + 12) 4) = r.addr := by
  subst hR hans
  obtain ⟨htype, hclass⟩ := ansMem_load_type (dnsMem (udpMem
    (ipMem k (skb.copyExpand room).mem) skb.transportHeader) (skb.transportHeader + 8))
      (skb.transportHeader + 20 + (nameLen + 5)) r
  exact ⟨htype, hclass, ansMem_load _ _ r⟩

end Layers

end Edits

/-! ## `send_reply` -/

section SendReply

variable {k : Kernel} {copy : Option (Tailroom 16)} {room : Tailroom 16} {skb : SkBuff}
  {r : DnsRecord} {n : List UInt8}

/-- What is printed as the name of a reply ends in the answer at the latest, where the type begins
with a zero. -/
theorem exists_cstring_replyPacket {nameLen : ℕ}
    (h : skb.transportHeader + 20 + (nameLen + 5) + 16 ≤ skb.len + room.size) :
    ∃ s, cstring ((replyPacket k room skb r nameLen).bytesFrom (skb.transportHeader + 20))
      = some s := by
  obtain ⟨R, hR⟩ : ∃ R, R = replyPacket k room skb r nameLen := ⟨_, rfl⟩
  have hsize : R.size = skb.len + room.size := by rw [hR]; rfl
  have hzero : R.mem (skb.transportHeader + 20 + (nameLen + 7)) = 0 := by
    have htype := (replyPacket_answer hR rfl).1
    have hlo := (R.mem (skb.transportHeader + 20 + (nameLen + 7))).toNat_lt
    rw [Mem.load_two] at htype
    have hone : htons 1 = 256 := rfl
    apply UInt8.toNat_inj.mp
    change _ = 0
    simp only [Nat.add_assoc, Nat.reduceAdd] at htype hlo ⊢
    omega
  rw [← hR, exists_cstring_iff, bytesFrom, hsize]
  refine List.mem_of_getElem? (i := nameLen + 7) ?_
  rw [Mem.getElem?_slice _ (by omega), hzero]

/-- **`send_reply` completes** when there is a copy and the answer fits into it. -/
theorem sendReply_eq (hr : r.Named n)
    (hroom : skb.transportHeader + 20 + (n.length + 5) + 16 ≤ skb.len + room.size) :
    sendReply k (some room) skb r = .ok (replyPacket k room skb r n.length) := by
  have hrlen := strlen_eq_ok hr
  obtain ⟨s, hs⟩ := exists_cstring_replyPacket (k := k) (r := r) hroom
  have hprint := strlen_eq_ok hs
  rw [sendReply, hrlen, Except.ok_bind_eq]
  obtain ⟨t, ht⟩ : ∃ t : SkBuff, t = { skb.copyExpand room with len := skb.len + 16 } :=
    ⟨_, rfl⟩
  have hsize : t.size = skb.len + room.size := by rw [ht]; rfl
  have htransport : t.transportHeader = skb.transportHeader := by rw [ht]; rfl
  have hreply : replyPacket k room skb r n.length = t.withMem (ansMem (dnsMem (udpMem
      (ipMem k t.mem) skb.transportHeader) (skb.transportHeader + 8))
      (skb.transportHeader + 20 + (n.length + 5)) r) := by rw [ht]; rfl
  change (editIp k { skb.copyExpand room with len := skb.len + 16 } >>= _) = _
  rw [← ht, editIp_eq_ok_iff.mpr ⟨by omega, rfl⟩, Except.ok_bind_eq]
  have hname : skb.transportHeader + sizeofUdphdr + sizeofDnsHeader = skb.transportHeader + 20 :=
    rfl
  simp only [ipProtocol, ansName, ansRdata, daddr, saddr, withMem_transportHeader, htransport,
    hname,
    queryOffset, Except.ok_bind_eq]
  rw [load_eq_ok (by rw [withMem_size]; omega), Except.ok_bind_eq,
    editUdp_eq_ok_iff.mpr ⟨by rw [withMem_size]; omega, rfl⟩, Except.ok_bind_eq, withMem_mem,
    withMem_withMem, editDns_eq_ok_iff.mpr ⟨by rw [withMem_size, sizeofUdphdr]; omega, rfl⟩,
    Except.ok_bind_eq, withMem_mem, withMem_withMem,
    writeAns_eq_ok_iff.mpr ⟨by rw [withMem_size]; omega, rfl⟩, Except.ok_bind_eq, withMem_mem,
    withMem_withMem, sizeofUdphdr, ← hreply, hprint]
  have hload : ∀ {a w : ℕ}, a + w ≤ skb.len + room.size →
      (replyPacket k room skb r n.length).load a w
        = .ok ((replyPacket k room skb r n.length).mem.load a w) := fun h ↦ load_eq_ok h
  simp (disch := omega) only [hload, Except.ok_bind_eq, Except.pure_eq_ok]

theorem le_of_sendReply {reply : SkBuff} (hr : r.Named n) (h : sendReply k copy skb r = .ok reply) :
    ∃ room, copy = some room ∧
      skb.transportHeader + 20 + queryOffset n.length + sizeofResRecord ≤ skb.len + room.size := by
  rw [sendReply, strlen_eq_ok hr, Except.ok_bind_eq] at h
  cases copy with
  | none => cases h
  | some room =>
    simp only [Except.ok_bind_eq, Except.bind_eq_ok_iff, editIp_eq_ok_iff, editUdp_eq_ok_iff,
      editDns_eq_ok_iff, writeAns_eq_ok_iff, and_assoc, exists_and_left, exists_eq_left,
      withMem_size, withMem_transportHeader] at h
    obtain ⟨-, -, -, -, -, hans, -⟩ := h
    exact ⟨room, rfl, hans⟩

theorem sendReply_of_name (hr : r.Named n)
    (hroom : skb.nameOffset + queryOffset n.length + sizeofResRecord ≤ skb.len + room.size) :
    sendReply k (some room) (skb.setTransportHeader skb.udpOffset) r
      = .ok (replyPacket k room (skb.setTransportHeader skb.udpOffset) r n.length) :=
  sendReply_eq hr hroom

/-- The room that is asked for is enough for a query that contains its question. -/
theorem room_of_question (room : Tailroom 16)
    (h : skb.nameOffset + queryOffset n.length ≤ skb.len) :
    skb.nameOffset + queryOffset n.length + sizeofResRecord ≤ skb.len + room.size :=
  Nat.add_le_add h room.enough

end SendReply

/-! ## What a reader finds -/

/-- A UDP packet with a complete IP header that contains a question for the name `n`: the name with
its NUL, a type and a class. -/
structure WellFormedQuery (skb : SkBuff) (n : List UInt8) : Prop where
  isUdp : skb.IsUdp
  ihl : 20 ≤ skb.udpOffset
  name : cstring (skb.bytesFrom skb.nameOffset) = some n
  question : skb.nameOffset + queryOffset n.length ≤ skb.len

/-- `reply` answers the question of `skb` with the record `r`. -/
structure RepliesTo (skb reply : SkBuff) (n : List UInt8) (r : DnsRecord) : Prop where
  isUdp : reply.IsUdp
  udpOffset : reply.udpOffset = skb.udpOffset
  id : reply.mem.load (skb.udpOffset + 8) 2 = skb.mem.load (skb.udpOffset + 8) 2
  question : reply.mem.slice skb.nameOffset (n.length + 5)
    = skb.mem.slice skb.nameOffset (n.length + 5)
  saddr : reply.mem.load 12 4 = skb.mem.load 16 4
  daddr : reply.mem.load 16 4 = skb.mem.load 12 4
  source : reply.mem.load skb.udpOffset 2 = skb.mem.load (skb.udpOffset + 2) 2
  dest : reply.mem.load (skb.udpOffset + 2) 2 = skb.mem.load skb.udpOffset 2
  qr : reply.mem.load (skb.udpOffset + 10) 1 / 128 = 1
  qCount : ntohs (reply.mem.load (skb.udpOffset + 12) 2) = 1
  ansCount : ntohs (reply.mem.load (skb.udpOffset + 14) 2) = 1
  authCount : ntohs (reply.mem.load (skb.udpOffset + 16) 2) = 0
  addCount : ntohs (reply.mem.load (skb.udpOffset + 18) 2) = 0
  totLen : ntohs (reply.mem.load 2 2) = (ntohs (skb.mem.load 2 2) + 16) % 2 ^ 16
  udpLen : ntohs (reply.mem.load (skb.udpOffset + 4) 2)
    = (ntohs (skb.mem.load (skb.udpOffset + 4) 2) + 16) % 2 ^ 16
  name : cstring (reply.bytesFrom reply.nameOffset) = some n
  answer : reply.answerOffset n + sizeofResRecord ≤ reply.size
  addr : (reply.carried n).addr = r.addr
  ttl : (reply.carried n).ttl = r.ttl

section RepliesTo

variable {k : Kernel} {room : Tailroom 16} {skb : SkBuff} {r : DnsRecord} {n : List UInt8}

theorem repliesTo_replyPacket (k : Kernel) (room : Tailroom 16) (r : DnsRecord)
    (hq : WellFormedQuery skb n)
    (hn : queryOffset n.length < 2 ^ 16) :
    RepliesTo skb (replyPacket k room (skb.setTransportHeader skb.udpOffset) r n.length) n r := by
  obtain ⟨t, ht⟩ : ∃ t, t = skb.setTransportHeader skb.udpOffset := ⟨_, rfl⟩
  have htransport : t.transportHeader = skb.udpOffset := by rw [ht]; rfl
  have hlen : t.len = skb.len := by rw [ht]; rfl
  have hmem : t.mem = skb.mem := by rw [ht]; rfl
  have hname : skb.nameOffset = skb.udpOffset + 20 := rfl
  have hihl := hq.ihl
  have hquestion := hq.question
  rw [queryOffset] at hquestion
  obtain ⟨R, hR⟩ : ∃ R, R = replyPacket k room t r n.length := ⟨_, rfl⟩
  have hsize : R.size = skb.len + room.size := by rw [hR, ht]; rfl
  have henough := room.enough
  have hkeep : ∀ x, skb.udpOffset + 20 ≤ x → x < skb.udpOffset + 20 + (n.length + 5) →
      R.mem x = skb.mem x := by
    intro x hx hx'
    rw [hR, ← hmem]
    exact replyPacket_question (by omega) (by omega) (by omega)
  -- the layers, as they are found in the reply
  have hip := replyPacket_ip hR (by omega) (by omega)
  have hudp := replyPacket_udp hR (by omega) (by omega)
  have hdns := replyPacket_dns hR (by omega) (by omega)
  have hans := replyPacket_answer hR rfl
  rw [hmem] at hip
  rw [htransport, hmem] at hudp hdns
  rw [htransport] at hans
  obtain ⟨hbyte, hproto, htotLen, hsaddr, hdaddr⟩ := hip
  obtain ⟨hsource, hdest, hudpLen⟩ := hudp
  obtain ⟨hid, hqr, hqCount, hansCount, hauthCount, haddCount⟩ := hdns
  obtain ⟨-, -, httl, haddr⟩ := hans
  have hoff : R.udpOffset = skb.udpOffset := by rw [SkBuff.udpOffset, hbyte]; rfl
  have hnameOffset : R.nameOffset = skb.nameOffset := by rw [SkBuff.nameOffset, hoff]; rfl
  have hansOffset : R.answerOffset n = skb.udpOffset + 20 + (n.length + 5) := by
    rw [answerOffset, hnameOffset, hname, DnsProxy.ansOffset, Nat.mod_eq_of_lt hn, queryOffset]
  rw [← ht, ← hR]
  constructor
  case isUdp =>
    obtain ⟨hp, hv, hprotocol⟩ := hq.isUdp
    exact ⟨by rw [hR, ht]; exact hp, by rw [hbyte]; exact hv, by rw [hproto]; exact hprotocol⟩
  case udpOffset => exact hoff
  case id => exact hid
  case question =>
    rw [hname]
    exact Mem.slice_congr hkeep
  case saddr => exact hsaddr
  case daddr => exact hdaddr
  case source => exact hsource
  case dest => exact hdest
  case qr => exact hqr
  case qCount => exact hqCount
  case ansCount => exact hansCount
  case authCount => exact hauthCount
  case addCount => exact haddCount
  case totLen => exact htotLen
  case udpLen => exact hudpLen
  case name =>
    rw [hnameOffset]
    refine cstring_bytesFrom_congr hq.name (by omega) ?_
    intro x hx hx'
    exact hkeep x (by omega) (by omega)
  case answer =>
    rw [hansOffset, hsize, sizeofResRecord]
    omega
  case addr =>
    rw [carried, hansOffset]
    exact haddr
  case ttl =>
    rw [carried, hansOffset]
    exact httl

/-- The empty cache stores the record of any reply, as long as it can be printed. -/
theorem dnsReplyHook_initial (k : Kernel) {reply : SkBuff} {m : List UInt8}
    (h : reply.replyName = some n) (hm : (reply.carried n).Named m)
    (hsize : reply.answerOffset n + sizeofResRecord ≤ reply.size) :
    ∃ st, dnsReplyHook k true State.initial reply = .ok (nfAccept, st) ∧ Ordered st.drTree ∧
      st.drTree.inorder = [reply.carried n] := by
  obtain ⟨root, pre, post, hins, hordered, hsplit, hinorder, -⟩ :=
    ordered_nil.insertDr_of_not_mem k hm fun r hr ↦ absurd hr List.not_mem_nil
  obtain ⟨rfl, rfl⟩ := List.append_eq_nil_iff.mp hsplit.symm
  refine ⟨⟨root, 1⟩, ?_, hordered, hinorder⟩
  rw [dnsReplyHook_of_replyName h hsize]
  change (strlen (reply.carried n).image >>= fun _ ↦ insertDr k .nil (reply.carried n) >>= _) = _
  rw [strlen_eq_ok hm, Except.ok_bind_eq, hins]
  rfl

/-- **The reply encoder and the reply parser agree.** For a well-formed query and a cached record
with the same NUL-terminated name, `send_reply` completes, the packet repeats the query as a reply
to it, and `dns_reply_hook` reads the record back from it. -/
theorem sendReply_parses_back (k : Kernel) (room : Tailroom 16) (hq : WellFormedQuery skb n)
    (hr : cstring r.name.val = some n) :
    ∃ reply, sendReply k (some room) (skb.setTransportHeader skb.udpOffset) r = .ok reply ∧
      RepliesTo skb reply n r ∧
      (skb.IsQuery → ∃ st rec, dnsReplyHook k true State.initial reply = .ok (nfAccept, st) ∧
        st.drTree.inorder = [rec] ∧ rec.Named n ∧ rec.addr = r.addr ∧ rec.ttl = r.ttl) := by
  have hn : n.length < maxHostnameSize := by
    have hlt := length_lt_of_cstring hr
    rwa [r.name.property] at hlt
  have hroom : queryOffset n.length < 2 ^ 16 := by
    rw [maxHostnameSize] at hn
    rw [queryOffset]
    omega
  have hreply := repliesTo_replyPacket k room r hq hroom
  refine ⟨_, sendReply_of_name (DnsRecord.named_of_cstring hr) (room_of_question room hq.question),
    hreply, ?_⟩
  intro hport
  have hname : (replyPacket k room (skb.setTransportHeader skb.udpOffset) r n.length).replyName
      = some n := by
    refine replyName_eq_some.mpr ⟨⟨hreply.isUdp, ?_⟩, hreply.name⟩
    rw [hreply.udpOffset, hreply.source]
    exact hport.2
  have hnamed := carried_named hreply.name hn
  obtain ⟨st, hst, -, hinorder⟩ := dnsReplyHook_initial k hname hnamed hreply.answer
  exact ⟨st, _, hst, hinorder, hnamed, hreply.addr, hreply.ttl⟩

theorem sendReply_parses_back_query :
    ∃ reply, sendReply Kernel.small (some (Tailroom.exact 16))
        ((queryFor [1, 97]).setTransportHeader (queryFor [1, 97]).udpOffset)
        (shortRecord [1, 97] 10 60) = .ok reply ∧
      RepliesTo (queryFor [1, 97]) reply [1, 97] (shortRecord [1, 97] 10 60) := by
  have hname := (queryName_eq_some.mp (queryName_queryFor (show 0 ∉ [1, 97] by decide))).2
  have hudp : (queryFor [1, 97]).udpOffset = 20 := udpOffset_udpPacket _ _ _
  have hquery : WellFormedQuery (queryFor [1, 97]) [1, 97] :=
    ⟨isUdp_udpPacket _ _ _, hudp.ge, hname, by rw [nameOffset, hudp]; decide⟩
  obtain ⟨reply, hsend, hreplies, -⟩ := sendReply_parses_back Kernel.small (Tailroom.exact 16)
    hquery (show cstring (shortRecord [1, 97] 10 60).name.val = some [1, 97] by decide)
  exact ⟨reply, hsend, hreplies⟩

end RepliesTo

end DnsProxy

end AllProjects
