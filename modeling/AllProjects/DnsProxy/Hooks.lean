import AllProjects.DnsProxy.Records

/-!
# The hooks of the DNS proxy

`dns_request_hook` runs on every outgoing packet and answers a query whose name is cached.
`dns_reply_hook` runs on every incoming packet and caches the first answer of a response.

The outcome of each `kmalloc` is an argument, and so is that of `skb_copy_expand`: NULL, or the room
behind the copy, which may be larger than what was asked for. The route lookup succeeds. The state
keeps a count of the `DNS_RECORD` objects that were allocated, none of which is ever freed. What
`send_reply` hands to `ip_local_out` is returned as the emitted packet.

`printk` reads its arguments, and some of them through `%s` or `strlen`. These reads can fault, so
they stay; what is printed does not.
-/

namespace AllProjects

namespace DnsProxy

/-! ## Verdicts -/

/-- `NF_DROP`. -/
def nfDrop : ℕ := 0

/-- `NF_ACCEPT`. -/
def nfAccept : ℕ := 1

/-- `-ENOMEM` as the hooks' `uint32_t`. -/
def negEnomem : ℕ := 2 ^ 32 - 12

/-! ## The state -/

/-- What outlives a hook call: `dr_tree`, and how many records were allocated. -/
structure State where
  drTree : RbTree DnsRecord
  allocated : ℕ

/-- The state after `pf_init`. -/
def State.initial : State := ⟨.nil, 0⟩

/-- A record was allocated. -/
def State.alloc (st : State) : State := { st with allocated := st.allocated + 1 }

/-! ## `send_reply` -/

/-- Where `send_reply` and `dns_reply_hook` expect the answer, behind a name of `nameLen` bytes: the
NUL, the question's type and its class. -/
def queryOffset (nameLen : ℕ) : ℕ := nameLen + 5

/-- The edits of the IP header. -/
def editIp (k : Kernel) (skb : SkBuff) : Except Fault SkBuff := do
  let skb ← skb.setTotLen (htons (ntohs (← skb.totLen) + 16))
  let skb ← skb.setIpTtl 255
  let skb ← skb.setIpCheck 0
  let tmpAddr ← skb.saddr
  let skb ← skb.setSaddr (← skb.daddr)
  let skb ← skb.setDaddr tmpAddr
  skb.setIpCheck (k.ipFastCsum skb.mem (← skb.ihl))

/-- The edits of the UDP header. -/
def editUdp (skb : SkBuff) (udp : ℕ) : Except Fault SkBuff := do
  let skb ← skb.setUdpLen udp (htons (ntohs (← skb.udpLen udp) + 16))
  let tmpPort ← skb.source udp
  let skb ← skb.setSource udp (← skb.dest udp)
  skb.setDest udp tmpPort

/-- The edits of the DNS header. -/
def editDns (skb : SkBuff) (dns : ℕ) : Except Fault SkBuff := do
  let skb ← skb.setQrRd dns
  let skb ← skb.setRaAd dns
  let skb ← skb.setQCount dns (htons 1)
  let skb ← skb.setAnsCount dns (htons 1)
  let skb ← skb.setAuthCount dns (htons 0)
  skb.setAddCount dns (htons 0)

/-- The answer record. -/
def writeAns (skb : SkBuff) (ans : ℕ) (dnsRecord : DnsRecord) : Except Fault SkBuff := do
  let skb ← skb.setAnsName ans 0xcc0
  let skb ← skb.setAnsType ans (htons 1)
  let skb ← skb.setAnsClass ans (htons 1)
  let skb ← skb.setAnsTtl ans dnsRecord.ttl.toNat
  let skb ← skb.setAnsDataLen ans (htons 4)
  skb.setAnsRdata ans dnsRecord.addr.toNat

/-- `send_reply`: the packet that goes to `ip_local_out`. -/
def sendReply (k : Kernel) (copy : Option (Tailroom 16)) (dnsRequest : SkBuff)
    (dnsRecord : DnsRecord) : Except Fault SkBuff := do
  let _ ← strlen dnsRecord.image
  -- nobody looks whether there is a copy before its length is written
  let skb ← match copy with
    | none => .error .segv
    | some room => .ok (dnsRequest.copyExpand room)
  let skb := { skb with len := skb.len + 16 }
  let skb ← editIp k skb
  let _ ← skb.ipProtocol
  let udp := skb.transportHeader
  let skb ← editUdp skb udp
  let skb ← editDns skb (udp + sizeofUdphdr)
  let ans := udp + sizeofUdphdr + sizeofDnsHeader + queryOffset (← strlen dnsRecord.image)
  let skb ← writeAns skb ans dnsRecord
  let _ ← strlen (skb.bytesFrom (udp + sizeofUdphdr + sizeofDnsHeader))
  let _ ← skb.ansName ans
  let _ ← skb.daddr
  let _ ← skb.saddr
  let _ ← skb.ansRdata ans
  return skb

/-! ## `dns_request_hook` -/

/-- The tests with which both hooks begin, and `skb_set_transport_header` for what passes them. -/
def ipv4Udp (skb : SkBuff) : Except Fault (Option SkBuff) := do
  if skb.protocol ≠ htons ethPIp then return none
  if (← skb.version) ≠ 4 then return none
  if (← skb.ipProtocol) ≠ ipprotoUdp then return none
  return some (skb.setTransportHeader ((← skb.ihl) * 4))

/-- `dns_request_hook`: the verdict, the state, and the reply that was emitted, if any. -/
def dnsRequestHook (k : Kernel) (kmalloc : Bool) (copy : Option (Tailroom 16)) (st : State)
    (skb : SkBuff) : Except Fault (ℕ × State × Option SkBuff) := do
  match ← ipv4Udp skb with
  | none => return (nfAccept, st, none)
  | some skb =>
    let udp := skb.transportHeader
    if (← skb.dest udp) ≠ ntohs dnsPort then return (nfAccept, st, none)
    let dns := udp + sizeofUdphdr
    let _ ← skb.dnsId dns
    let name := dns + sizeofDnsHeader
    let _ ← strlen (skb.bytesFrom name)
    -- a record is allocated for every query, before the search and whatever it finds
    if kmalloc = false then return (negEnomem, st, none)
    let st := st.alloc
    match ← searchDr st.drTree (skb.bytesFrom name) with
    | none => return (nfAccept, st, none)
    | some drTmpNode =>
      let reply ← sendReply k copy skb drTmpNode
      return (nfDrop, st, some reply)

/-! ## `dns_reply_hook` -/

/-- `ans_offset`, a `uint16_t`. -/
def ansOffset (nameLen : ℕ) : ℕ := queryOffset nameLen % 2 ^ 16

/-- `dns_reply_hook`: the verdict and the state. -/
def dnsReplyHook (k : Kernel) (kmalloc : Bool) (st : State) (skb : SkBuff) :
    Except Fault (ℕ × State) := do
  match ← ipv4Udp skb with
  | none => return (nfAccept, st)
  | some skb =>
    let udp := skb.transportHeader
    if (← skb.source udp) ≠ ntohs dnsPort then return (nfAccept, st)
    let dns := udp + sizeofUdphdr
    let _ ← skb.dnsId dns
    let name := dns + sizeofDnsHeader
    let ans := name + ansOffset (← strlen (skb.bytesFrom name))
    let _ ← skb.ansRdata ans
    match ← searchDr st.drTree (skb.bytesFrom name) with
    | some _ => return (nfAccept, st)
    | none =>
      if kmalloc = false then return (negEnomem, st)
      let st := st.alloc
      let field ← strncpyName (skb.bytesFrom name)
      let addr ← skb.ansRdata ans
      let ttl ← skb.ansTtl ans
      let drNode : DnsRecord := ⟨field, UInt32.ofNat addr, UInt32.ofNat ttl⟩
      let _ ← strlen drNode.image
      let _ ← skb.ansName ans
      let _ ← skb.ansType ans
      let _ ← skb.ansClass ans
      let _ ← skb.ansDataLen ans
      let (_, root) ← insertDr k st.drTree drNode
      return (nfAccept, { st with drTree := root })

/-! ## What the hooks look at

The tests of the two hooks, as properties of the packet. A hook that goes past its tests has read a
NUL-terminated name, so a packet offers either no name or one. -/

namespace SkBuff

/-- Where the UDP header starts. -/
def udpOffset (skb : SkBuff) : ℕ := skb.mem.load 0 1 % 16 * 4

/-- Where the question name starts. -/
def nameOffset (skb : SkBuff) : ℕ := skb.udpOffset + sizeofUdphdr + sizeofDnsHeader

/-- The tests that both hooks make. -/
def IsUdp (skb : SkBuff) : Prop :=
  skb.protocol = htons ethPIp ∧ skb.mem.load 0 1 / 16 = 4 ∧ skb.mem.load 9 1 = ipprotoUdp

/-- `dns_request_hook` takes the packet for a query. -/
def IsQuery (skb : SkBuff) : Prop :=
  skb.IsUdp ∧ skb.mem.load (skb.udpOffset + 2) 2 = ntohs dnsPort

/-- `dns_reply_hook` takes the packet for a reply. -/
def IsReply (skb : SkBuff) : Prop :=
  skb.IsUdp ∧ skb.mem.load skb.udpOffset 2 = ntohs dnsPort

instance (skb : SkBuff) : Decidable skb.IsUdp := inferInstanceAs (Decidable (_ ∧ _))

instance (skb : SkBuff) : Decidable skb.IsQuery := inferInstanceAs (Decidable (_ ∧ _))

instance (skb : SkBuff) : Decidable skb.IsReply := inferInstanceAs (Decidable (_ ∧ _))

/-- The name that the packet asks for. -/
def queryName (skb : SkBuff) : Option (List UInt8) :=
  if skb.IsQuery then cstring (skb.bytesFrom skb.nameOffset) else none

/-- The name that the packet carries an answer for. -/
def replyName (skb : SkBuff) : Option (List UInt8) :=
  if skb.IsReply then cstring (skb.bytesFrom skb.nameOffset) else none

theorem queryName_eq_some {skb : SkBuff} {n : List UInt8} :
    skb.queryName = some n ↔ skb.IsQuery ∧ cstring (skb.bytesFrom skb.nameOffset) = some n := by
  rw [queryName, Option.ite_none_right_eq_some]

theorem replyName_eq_some {skb : SkBuff} {n : List UInt8} :
    skb.replyName = some n ↔ skb.IsReply ∧ cstring (skb.bytesFrom skb.nameOffset) = some n := by
  rw [replyName, Option.ite_none_right_eq_some]

/-- Where `dns_reply_hook` looks for the answer to the name `n`. -/
def answerOffset (skb : SkBuff) (n : List UInt8) : ℕ := skb.nameOffset + ansOffset n.length

/-- The record that `dns_reply_hook` makes of a reply that carries the name `n`: the first 256 bytes
of the name, padded with zeros. -/
def carried (skb : SkBuff) (n : List UInt8) : DnsRecord where
  name := ⟨n.take maxHostnameSize ++ List.replicate (maxHostnameSize - n.length) 0, by
    rw [List.length_append, List.length_take, List.length_replicate]
    omega⟩
  addr := UInt32.ofNat (skb.mem.load (skb.answerOffset n + 12) 4)
  ttl := UInt32.ofNat (skb.mem.load (skb.answerOffset n + 6) 4)

theorem nameOffset_lt {skb : SkBuff} {n : List UInt8}
    (h : cstring (skb.bytesFrom skb.nameOffset) = some n) :
    skb.udpOffset + 20 + n.length < skb.size := by
  have hlt := length_lt_of_bytesFrom h
  rw [nameOffset, sizeofUdphdr, sizeofDnsHeader] at hlt
  omega

end SkBuff

theorem ipv4Udp_eq {skb : SkBuff} {o : Option SkBuff} (h : ipv4Udp skb = .ok o) :
    o = if skb.IsUdp then some (skb.setTransportHeader skb.udpOffset) else none := by
  rw [ipv4Udp] at h
  by_cases hproto : skb.protocol = htons ethPIp
  · rw [if_neg (not_not.mpr hproto)] at h
    obtain ⟨version, hversion, h⟩ := Except.bind_eq_ok_iff.mp h
    obtain ⟨b, hb, hversion⟩ := Except.bind_eq_ok_iff.mp hversion
    obtain ⟨-, rfl⟩ := SkBuff.load_eq_ok_iff.mp hb
    rw [Except.pure_eq_ok, Except.ok.injEq] at hversion
    subst hversion
    by_cases hfour : skb.mem.load 0 1 / 16 = 4
    · rw [if_neg (not_not.mpr hfour)] at h
      obtain ⟨proto, hudp, h⟩ := Except.bind_eq_ok_iff.mp h
      obtain ⟨-, rfl⟩ := SkBuff.load_eq_ok_iff.mp hudp
      by_cases hsel : skb.mem.load 9 1 = ipprotoUdp
      · rw [if_neg (not_not.mpr hsel)] at h
        obtain ⟨ihl, hihl, h⟩ := Except.bind_eq_ok_iff.mp h
        obtain ⟨b, hb, hihl⟩ := Except.bind_eq_ok_iff.mp hihl
        obtain ⟨-, rfl⟩ := SkBuff.load_eq_ok_iff.mp hb
        rw [Except.pure_eq_ok, Except.ok.injEq] at hihl h
        subst hihl
        rw [if_pos ⟨hproto, hfour, hsel⟩]
        exact h.symm
      · rw [if_pos hsel, Except.pure_eq_ok, Except.ok.injEq] at h
        rw [if_neg fun hip ↦ hsel hip.2.2]
        exact h.symm
    · rw [if_pos hfour, Except.pure_eq_ok, Except.ok.injEq] at h
      rw [if_neg fun hip ↦ hfour hip.2.1]
      exact h.symm
  · rw [if_pos hproto, Except.pure_eq_ok, Except.ok.injEq] at h
    rw [if_neg fun hip ↦ hproto hip.1]
    exact h.symm

theorem exists_ipv4Udp {skb : SkBuff} (h : 10 ≤ skb.size) : ∃ o, ipv4Udp skb = .ok o := by
  have hload : ∀ {a w : ℕ}, a + w ≤ 10 → skb.load a w = .ok (skb.mem.load a w) :=
    fun ha ↦ SkBuff.load_eq_ok (by omega)
  simp only [ipv4Udp, SkBuff.version, SkBuff.ipProtocol, SkBuff.ihl,
    hload (show 0 + 1 ≤ 10 by decide), hload (show 9 + 1 ≤ 10 by decide), Except.ok_bind_eq,
    Except.pure_eq_ok]
  split_ifs <;> exact ⟨_, rfl⟩

theorem ipv4Udp_of_isUdp {skb : SkBuff} (h : skb.IsUdp) (hsize : 10 ≤ skb.size) :
    ipv4Udp skb = .ok (some (skb.setTransportHeader skb.udpOffset)) := by
  obtain ⟨o, ho⟩ := exists_ipv4Udp hsize
  rw [ho, ipv4Udp_eq ho, if_pos h]

section Request

variable {k : Kernel} {kmalloc : Bool} {copy : Option (Tailroom 16)} {st : State} {skb : SkBuff}

theorem dnsRequestHook_of_queryName {n : List UInt8} (h : skb.queryName = some n) :
    dnsRequestHook k kmalloc copy st skb
      = if kmalloc = false then .ok (negEnomem, st, none)
        else searchDr st.drTree (skb.bytesFrom skb.nameOffset) >>= fun found ↦
          match found with
          | none => .ok (nfAccept, st.alloc, none)
          | some drTmpNode =>
            sendReply k copy (skb.setTransportHeader skb.udpOffset) drTmpNode >>= fun reply ↦
              .ok (nfDrop, st.alloc, some reply) := by
  obtain ⟨⟨hip, hdest⟩, hn⟩ := SkBuff.queryName_eq_some.mp h
  have hlt := SkBuff.nameOffset_lt hn
  have hload : ∀ {a w : ℕ}, a + w ≤ skb.udpOffset + 20 → skb.load a w = .ok (skb.mem.load a w) :=
    fun ha ↦ SkBuff.load_eq_ok (by omega)
  have hlen := strlen_eq_ok hn
  rw [dnsRequestHook, ipv4Udp_of_isUdp hip (by omega), Except.ok_bind_eq]
  simp only [SkBuff.dest, SkBuff.dnsId, SkBuff.setTransportHeader_load,
    SkBuff.setTransportHeader_bytesFrom, SkBuff.setTransportHeader_transportHeader]
  rw [SkBuff.nameOffset] at hlen ⊢
  rw [hload (by omega), Except.ok_bind_eq, if_neg (not_not.mpr hdest),
    hload (by rw [sizeofUdphdr]; omega), Except.ok_bind_eq, hlen, Except.ok_bind_eq]
  rfl

theorem dnsRequestHook_of_not_isQuery (hip : skb.IsUdp) (h : ¬skb.IsQuery)
    (hsize : skb.udpOffset + 20 ≤ skb.size) :
    dnsRequestHook k kmalloc copy st skb = .ok (nfAccept, st, none) := by
  rw [dnsRequestHook, ipv4Udp_of_isUdp hip (by omega), Except.ok_bind_eq]
  simp only [SkBuff.dest, SkBuff.setTransportHeader_load, SkBuff.setTransportHeader_transportHeader]
  rw [SkBuff.load_eq_ok (by omega), Except.ok_bind_eq, if_pos fun hport ↦ h ⟨hip, hport⟩]
  rfl

theorem dnsRequestHook_of_queryName_eq_none (h : skb.queryName = none)
    {result : ℕ × State × Option SkBuff}
    (hok : dnsRequestHook k kmalloc copy st skb = .ok result) : result = (nfAccept, st, none) := by
  obtain ⟨o, ho, hok⟩ := Except.bind_eq_ok_iff.mp hok
  rw [ipv4Udp_eq ho] at hok
  by_cases hip : skb.IsUdp
  · rw [if_pos hip] at hok
    simp only [SkBuff.dest, SkBuff.dnsId, SkBuff.setTransportHeader_load,
      SkBuff.setTransportHeader_bytesFrom, SkBuff.setTransportHeader_transportHeader] at hok
    obtain ⟨dest, hdest, hok⟩ := Except.bind_eq_ok_iff.mp hok
    obtain ⟨-, rfl⟩ := SkBuff.load_eq_ok_iff.mp hdest
    by_cases hport : skb.mem.load (skb.udpOffset + 2) 2 = ntohs dnsPort
    · -- a query whose name has no end
      rw [if_neg (not_not.mpr hport)] at hok
      obtain ⟨-, -, hok⟩ := Except.bind_eq_ok_iff.mp hok
      obtain ⟨len, hlen, -⟩ := Except.bind_eq_ok_iff.mp hok
      obtain ⟨s, hs, -⟩ := exists_cstring_of_strlen hlen
      rw [SkBuff.queryName_eq_some.mpr ⟨⟨hip, hport⟩, hs⟩] at h
      cases h
    · rw [if_pos hport, Except.pure_eq_ok, Except.ok.injEq] at hok
      exact hok.symm
  · rw [if_neg hip, Except.pure_eq_ok, Except.ok.injEq] at hok
    exact hok.symm

end Request

section Reply

variable {k : Kernel} {kmalloc : Bool} {st : State} {skb : SkBuff} {n : List UInt8}

theorem strncpyName_carried (h : cstring (skb.bytesFrom skb.nameOffset) = some n) :
    strncpyName (skb.bytesFrom skb.nameOffset) = .ok (skb.carried n).name :=
  strncpyName_eq_ok.mpr (strncpy_eq_ok _ h)

/-- A name that fits into its field is cached as it is. -/
theorem carried_named (h : cstring (skb.bytesFrom skb.nameOffset) = some n)
    (hn : n.length < maxHostnameSize) : (skb.carried n).Named n :=
  DnsRecord.named_of_cstring (cstring_strncpy (zero_not_mem_of_cstring h) hn)

/-- What `dns_reply_hook` does with a reply. Its reads of the answer come first; the record that it
builds must hold a string, because it is printed. -/
theorem dnsReplyHook_of_replyName (h : skb.replyName = some n)
    (hsize : skb.answerOffset n + sizeofResRecord ≤ skb.size) :
    dnsReplyHook k kmalloc st skb
      = searchDr st.drTree (skb.bytesFrom skb.nameOffset) >>= fun found ↦
          match found with
          | some _ => .ok (nfAccept, st)
          | none =>
            if kmalloc = false then .ok (negEnomem, st)
            else strlen (skb.carried n).image >>= fun _ ↦
              insertDr k st.drTree (skb.carried n) >>= fun p ↦
                .ok (nfAccept, { st.alloc with drTree := p.2 }) := by
  obtain ⟨⟨hip, hsource⟩, hn⟩ := SkBuff.replyName_eq_some.mp h
  have hlt := SkBuff.nameOffset_lt hn
  have hload : ∀ {a w : ℕ}, a + w ≤ skb.udpOffset + 20 → skb.load a w = .ok (skb.mem.load a w) :=
    fun ha ↦ SkBuff.load_eq_ok (by omega)
  have hans : ∀ {o w : ℕ}, o + w ≤ 16 →
      skb.load (skb.answerOffset n + o) w = .ok (skb.mem.load (skb.answerOffset n + o) w) := by
    intro o w ho
    rw [sizeofResRecord] at hsize
    exact SkBuff.load_eq_ok (by omega)
  have hlen := strlen_eq_ok hn
  have hname := strncpyName_carried hn
  have hnameOffset : skb.udpOffset + sizeofUdphdr + sizeofDnsHeader = skb.nameOffset := rfl
  have hansOffset : skb.nameOffset + ansOffset n.length = skb.answerOffset n := rfl
  rw [dnsReplyHook, ipv4Udp_of_isUdp hip (by omega), Except.ok_bind_eq]
  simp only [SkBuff.source, SkBuff.dnsId, SkBuff.ansRdata, SkBuff.ansTtl, SkBuff.ansName,
    SkBuff.ansType, SkBuff.ansClass, SkBuff.ansDataLen, SkBuff.setTransportHeader_load,
    SkBuff.setTransportHeader_bytesFrom, SkBuff.setTransportHeader_transportHeader, hnameOffset]
  rw [hload (by omega), Except.ok_bind_eq, if_neg (not_not.mpr hsource),
    hload (by rw [sizeofUdphdr]; omega), Except.ok_bind_eq, hlen, Except.ok_bind_eq]
  simp only [hansOffset, hans (show 12 + 4 ≤ 16 by decide), hans (show 6 + 4 ≤ 16 by decide),
    hans (show 2 + 2 ≤ 16 by decide), hans (show 4 + 2 ≤ 16 by decide),
    hans (show 10 + 2 ≤ 16 by decide), show skb.load (skb.answerOffset n) 2 = .ok _ from
    hans (o := 0) (show 0 + 2 ≤ 16 by decide), hname, Except.ok_bind_eq, Except.pure_eq_ok]
  rfl

theorem answer_le_of_dnsReplyHook (h : skb.replyName = some n) {result : ℕ × State}
    (hok : dnsReplyHook k kmalloc st skb = .ok result) :
    skb.answerOffset n + sizeofResRecord ≤ skb.size := by
  obtain ⟨⟨hip, hsource⟩, hn⟩ := SkBuff.replyName_eq_some.mp h
  have hlen := strlen_eq_ok hn
  obtain ⟨o, ho, hok⟩ := Except.bind_eq_ok_iff.mp hok
  rw [ipv4Udp_eq ho, if_pos hip] at hok
  simp only [SkBuff.source, SkBuff.dnsId, SkBuff.ansRdata, SkBuff.setTransportHeader_load,
    SkBuff.setTransportHeader_bytesFrom, SkBuff.setTransportHeader_transportHeader] at hok
  obtain ⟨source, hport, hok⟩ := Except.bind_eq_ok_iff.mp hok
  obtain ⟨-, rfl⟩ := SkBuff.load_eq_ok_iff.mp hport
  rw [if_neg (not_not.mpr hsource)] at hok
  obtain ⟨-, -, hok⟩ := Except.bind_eq_ok_iff.mp hok
  rw [SkBuff.nameOffset] at hlen
  rw [hlen, Except.ok_bind_eq] at hok
  obtain ⟨rdata, hrdata, -⟩ := Except.bind_eq_ok_iff.mp hok
  exact (SkBuff.load_eq_ok_iff.mp hrdata).1

theorem dnsReplyHook_of_replyName_eq_none (h : skb.replyName = none) {result : ℕ × State}
    (hok : dnsReplyHook k kmalloc st skb = .ok result) : result = (nfAccept, st) := by
  obtain ⟨o, ho, hok⟩ := Except.bind_eq_ok_iff.mp hok
  rw [ipv4Udp_eq ho] at hok
  by_cases hip : skb.IsUdp
  · rw [if_pos hip] at hok
    simp only [SkBuff.source, SkBuff.dnsId, SkBuff.setTransportHeader_load,
      SkBuff.setTransportHeader_bytesFrom, SkBuff.setTransportHeader_transportHeader] at hok
    obtain ⟨source, hsource, hok⟩ := Except.bind_eq_ok_iff.mp hok
    obtain ⟨-, rfl⟩ := SkBuff.load_eq_ok_iff.mp hsource
    by_cases hport : skb.mem.load skb.udpOffset 2 = ntohs dnsPort
    · rw [if_neg (not_not.mpr hport)] at hok
      obtain ⟨-, -, hok⟩ := Except.bind_eq_ok_iff.mp hok
      obtain ⟨len, hlen, -⟩ := Except.bind_eq_ok_iff.mp hok
      obtain ⟨s, hs, -⟩ := exists_cstring_of_strlen hlen
      rw [SkBuff.replyName_eq_some.mpr ⟨⟨hip, hport⟩, hs⟩] at h
      cases h
    · rw [if_pos hport, Except.pure_eq_ok, Except.ok.injEq] at hok
      exact hok.symm
  · rw [if_neg hip, Except.pure_eq_ok, Except.ok.injEq] at hok
    exact hok.symm

end Reply

end DnsProxy

end AllProjects
