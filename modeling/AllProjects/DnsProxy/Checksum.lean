import AllProjects.Memory.Checksum
import AllProjects.DnsProxy.Lengths

/-!
# The UDP checksum of a reply

`send_reply` computes the IP checksum anew after its edits. The UDP checksum stays what it was in
the query, so it is right for the reply exactly when the edits leave the sum alone.

Some do. Addresses and ports change places, which a sum does not see. The others are

```text
length          + 16 in the UDP header, + 16 in the pseudo-header
flags           qr, rd and ra set, ad cleared
counts          1, 1, 0, 0 instead of those of the query
answer          16 bytes behind the question
tail            what is behind the answer, instead of what was behind the question
```

and for the last two the question's length matters as well: behind a question of odd length the
bytes count with the other factor. All of this depends on the query, on the record and, for a query
that goes on behind its question, on the bytes that `skb_copy_expand` left behind the copy.
-/

namespace AllProjects

namespace DnsProxy

open SkBuff

/-! ## The checksum of a packet -/

namespace SkBuff

/-- The pseudo-header: the addresses, a zero byte, the protocol and the UDP length. -/
def pseudoHeader (skb : SkBuff) : List UInt8 :=
  skb.mem.slice 12 4 ++ skb.mem.slice 16 4 ++ [0, UInt8.ofNat ipprotoUdp] ++
    skb.mem.slice (skb.udpOffset + 4) 2

/-- What the UDP checksum covers: the pseudo-header, the UDP header and the payload. -/
def checksumBlock (skb : SkBuff) : List UInt8 :=
  skb.pseudoHeader ++ skb.mem.slice skb.udpOffset skb.udpLength

/-- The checksum is absent or right. -/
def ChecksumOk (skb : SkBuff) : Prop :=
  skb.mem.load (skb.udpOffset + 6) 2 = 0 ∨ ChecksumVerifies skb.checksumBlock

instance (skb : SkBuff) : Decidable skb.ChecksumOk := inferInstanceAs (Decidable (_ ∨ _))

/-- A query with a complete checksum: it is present and right, for a datagram that contains the
question for the name `n` and lies inside the IP packet. -/
structure ChecksumComplete (skb : SkBuff) (n : List UInt8) : Prop where
  present : skb.mem.load (skb.udpOffset + 6) 2 ≠ 0
  verifies : ChecksumVerifies skb.checksumBlock
  question : questionLength n ≤ skb.udpLength
  datagram : skb.udpOffset + skb.udpLength ≤ ntohs (skb.mem.load 2 2)
  packet : ntohs (skb.mem.load 2 2) ≤ skb.len

end SkBuff

theorem SkBuff.ChecksumComplete.wellFormed {skb : SkBuff} {n : List UInt8}
    (hc : ChecksumComplete skb n)
    (hihl : 20 ≤ skb.udpOffset) (hname : skb.queryName = some n) : WellFormedQuery skb n := by
  obtain ⟨hquery, hn⟩ := queryName_eq_some.mp hname
  refine ⟨hquery.1, hihl, hn, ?_⟩
  have hle := hc.question
  have hdatagram := hc.datagram
  have hpacket := hc.packet
  rw [questionLength] at hle
  rw [nameOffset]
  omega

variable {k : Kernel} {kmalloc : Bool} {room : Tailroom 16} {st st' : State}
  {skb reply : SkBuff} {n : List UInt8} {r : DnsRecord} {verdict : ℕ}

/-- The protocol number keeps the sum from being one of zeros. -/
theorem checksumVerifies_checksumBlock (skb : SkBuff) :
    ChecksumVerifies skb.checksumBlock ↔ netSum skb.checksumBlock = 0 := by
  refine checksumVerifies_iff ⟨UInt8.ofNat ipprotoUdp, ?_, by decide⟩
  simp [checksumBlock, pseudoHeader]

theorem netSum_slice_two (m : Mem) (a : ℕ) : netSum (m.slice a 2) = (ntohs (m.load a 2) : ℕ) := by
  rw [Mem.slice_two, netSum_two, ntohs_load_two]

/-- The sum of a datagram, field by field. The payload is cut behind the question, into two parts
of `question` and `tail` bytes. -/
theorem netSum_checksumBlock {question tail : ℕ} (h : skb.udpLength = 20 + (question + tail)) :
    netSum skb.checksumBlock
      = netSum (skb.mem.slice 12 4) + netSum (skb.mem.slice 16 4) + 17 +
        2 * (skb.udpLength : ZMod 65535) +
        netSum (skb.mem.slice skb.udpOffset 2) + netSum (skb.mem.slice (skb.udpOffset + 2) 2) +
        netSum (skb.mem.slice (skb.udpOffset + 6) 2) +
        netSum (skb.mem.slice (skb.udpOffset + 8) 2) +
        netSum (skb.mem.slice (skb.udpOffset + 10) 2) +
        netSum (skb.mem.slice (skb.udpOffset + 12) 8) +
        netSum (skb.mem.slice skb.nameOffset question) +
        netWeight question * netSum (skb.mem.slice (skb.nameOffset + question) tail) := by
  have heven : ∀ j : ℕ, Even (2 * j) := even_two_mul
  have hlen : netSum (skb.mem.slice (skb.udpOffset + 4) 2) = skb.udpLength := netSum_slice_two _ _
  have hproto : netSum [0, UInt8.ofNat ipprotoUdp] = 17 := rfl
  have hpseudo : netSum skb.pseudoHeader
      = netSum (skb.mem.slice 12 4) + netSum (skb.mem.slice 16 4) + 17 + skb.udpLength := by
    rw [pseudoHeader, netSum_append, netSum_append, netSum_append, hlen, hproto]
    simp only [List.length_append, Mem.length_slice, List.length_cons, List.length_nil]
    rw [netWeight_of_even (heven 2), netWeight_of_even (heven 4), netWeight_of_even (heven 5)]
    ring
  have hhead : skb.pseudoHeader.length = 12 := by simp [pseudoHeader]
  have hname : skb.nameOffset = skb.udpOffset + 20 := rfl
  have hdatagram : netSum (skb.mem.slice skb.udpOffset skb.udpLength)
      = netSum (skb.mem.slice skb.udpOffset 2) + netSum (skb.mem.slice (skb.udpOffset + 2) 2) +
        netSum (skb.mem.slice (skb.udpOffset + 4) 2) +
        netSum (skb.mem.slice (skb.udpOffset + 6) 2) +
        netSum (skb.mem.slice (skb.udpOffset + 8) 2) +
        netSum (skb.mem.slice (skb.udpOffset + 10) 2) +
        netSum (skb.mem.slice (skb.udpOffset + 12) 8) +
        netSum (skb.mem.slice skb.nameOffset question) +
        netWeight question * netSum (skb.mem.slice (skb.nameOffset + question) tail) := by
    have hfields : 20 + (question + tail)
        = 2 + (2 + (2 + (2 + (2 + (2 + (8 + (question + tail))))))) := by omega
    have height : Even 8 := heven 4
    rw [h, hfields]
    repeat rw [Mem.netSum_slice_add_of_even _ even_two]
    rw [Mem.netSum_slice_add_of_even _ height, Mem.netSum_slice_add, hname]
    simp only [Nat.add_assoc, Nat.reduceAdd]
    ring
  rw [checksumBlock, netSum_append, hhead, netWeight_of_even (heven 6), one_mul, hpseudo, hdatagram,
    hlen]
  ring

/-! ## What the edits do to the sum -/

theorem ofNat_or (b c : UInt8) : UInt8.ofNat (b.toNat ||| c.toNat) = b ||| c := by
  apply UInt8.toNat_inj.mp
  rw [UInt8.toNat_ofNat', ← UInt8.toNat_or, Nat.mod_eq_of_lt (UInt8.toNat_lt _)]

theorem ofNat_and (b c : UInt8) : UInt8.ofNat (b.toNat &&& c.toNat) = b &&& c := by
  apply UInt8.toNat_inj.mp
  rw [UInt8.toNat_ofNat', ← UInt8.toNat_and, Nat.mod_eq_of_lt (UInt8.toNat_lt _)]

theorem dnsMem_flags (m : Mem) (dns : ℕ) :
    dnsMem m dns (dns + 2) = m (dns + 2) ||| 0x81 ∧
      dnsMem m dns (dns + 3) = (m (dns + 3) ||| 0x80) &&& 0xdf := by
  have hbyte : ∀ (m : Mem) (a v : ℕ), m.store a 1 v a = UInt8.ofNat v := fun m a v ↦ by
    rw [Mem.store_of_mem m le_rfl (Nat.lt_succ_self a), Nat.sub_self, pow_zero, Nat.div_one]
  constructor
  · simp (disch := omega) only [dnsMem, Mem.store_apply_of_disjoint, hbyte, Mem.load_one]
    exact ofNat_or _ 0x81
  · simp (disch := omega) only [dnsMem, Mem.store_apply_of_disjoint, hbyte, Mem.load_one]
    have hor : (m (dns + 3)).toNat ||| 0x80 = (m (dns + 3) ||| 0x80).toNat :=
      (UInt8.toNat_or _ 0x80).symm
    rw [hor]
    exact ofNat_and _ 0xdf

theorem ansMem_slice (m : Mem) (ans : ℕ) (r : DnsRecord) :
    (ansMem m ans r).slice ans 16 = answerA r.ttl r.addr := by
  have hfields : 16 = 2 + (2 + (2 + (4 + (2 + 4)))) := rfl
  rw [hfields, Mem.slice_add, Mem.slice_add, Mem.slice_add, Mem.slice_add, Mem.slice_add]
  simp only [Nat.add_assoc, Nat.reduceAdd]
  simp (disch := omega) only [ansMem, Mem.slice_store_of_disjoint, Mem.slice_store_same]
  rw [answerA, bytesOf, bytesOf, Mem.slice_store_same, Mem.slice_store_same]
  rfl

/-- By how much the edits change the sum: the two length fields, the flags, the counts, the answer,
and what is behind the answer in place of what was behind the question. -/
def drift (skb : SkBuff) (room : Tailroom 16) (r : DnsRecord) (n : List UInt8) : ZMod 65535 :=
  let flags := skb.udpOffset + 10
  let counts := skb.udpOffset + 12
  let answer := skb.nameOffset + queryOffset n.length
  let tail := skb.udpLength - questionLength n
  32 + (netSum [skb.mem flags ||| 0x81, (skb.mem (flags + 1) ||| 0x80) &&& 0xdf] -
      netSum (skb.mem.slice flags 2)) +
    (2 - netSum (skb.mem.slice counts 8)) +
    netWeight (queryOffset n.length) * (netSum (answerA r.ttl r.addr) +
      netSum ((skb.copyExpand room).mem.slice (answer + 16) tail) -
      netSum (skb.mem.slice answer tail))

/-- The fields of the reply that a `RepliesTo` does not speak of. -/
theorem replyPacket_rest (k : Kernel) (room : Tailroom 16) (r : DnsRecord)
    (hq : WellFormedQuery skb n) :
    let R := replyPacket k room (skb.setTransportHeader skb.udpOffset) r n.length
    R.mem.load (skb.udpOffset + 6) 2 = skb.mem.load (skb.udpOffset + 6) 2 ∧
      R.mem.slice (skb.udpOffset + 10) 2 = [skb.mem (skb.udpOffset + 10) ||| 0x81,
        (skb.mem (skb.udpOffset + 11) ||| 0x80) &&& 0xdf] ∧
      R.mem.slice (skb.nameOffset + queryOffset n.length) 16 = answerA r.ttl r.addr ∧
      ∀ len, R.mem.slice (skb.nameOffset + queryOffset n.length + 16) len
        = (skb.copyExpand room).mem.slice (skb.nameOffset + queryOffset n.length + 16) len := by
  intro R
  obtain ⟨t, ht⟩ : ∃ t, t = skb.setTransportHeader skb.udpOffset := ⟨_, rfl⟩
  have htransport : t.transportHeader = skb.udpOffset := by rw [ht]; rfl
  have hcopied : (t.copyExpand room).mem = (skb.copyExpand room).mem := by rw [ht]; rfl
  have hname : skb.nameOffset = skb.udpOffset + 20 := rfl
  have hcopy : ∀ x, x < skb.len → (skb.copyExpand room).mem x = skb.mem x := fun x hx ↦ if_pos hx
  have hihl := hq.ihl
  have hquestion := hq.question
  rw [hname, queryOffset] at hquestion ⊢
  obtain ⟨hflags, hflags'⟩ :=
    dnsMem_flags (udpMem (ipMem k (skb.copyExpand room).mem) skb.udpOffset) (skb.udpOffset + 8)
  have hR : R = replyPacket k room t r n.length := by rw [ht]
  have hmem : R.mem = ansMem (dnsMem (udpMem (ipMem k (skb.copyExpand room).mem) skb.udpOffset)
      (skb.udpOffset + 8)) (skb.udpOffset + 20 + (n.length + 5)) r := rfl
  refine ⟨?_, ?_, ?_, ?_⟩
  · refine Mem.load_congr fun x hx hx' ↦ ?_
    rw [hR, replyPacket_kept (by omega) (by omega) (by omega) (by omega), hcopied,
      hcopy _ (by omega)]
  · rw [Mem.slice_two, hmem, ansMem_of_not _ _ (by omega), ansMem_of_not _ _ (by omega), hflags,
      hflags', udpMem_of_not _ (by omega), udpMem_of_not _ (by omega), ipMem_of_ge _ (by omega),
      ipMem_of_ge _ (by omega), hcopy _ (by omega), hcopy _ (by omega)]
  · rw [hmem, ansMem_slice]
  · intro len
    refine Mem.slice_congr fun x hx hx' ↦ ?_
    rw [hR, replyPacket_kept (by omega) (by omega) (by omega) (by omega), hcopied]

/-- **The edits change the sum by the drift.** -/
theorem netSum_replyPacket (hq : WellFormedQuery skb n) (hr : r.Named n)
    (hc : ChecksumComplete skb n) :
    netSum (replyPacket k room (skb.setTransportHeader skb.udpOffset) r n.length).checksumBlock
      = netSum skb.checksumBlock + drift skb room r n := by
  obtain ⟨R, hR⟩ : ∃ R, R = replyPacket k room (skb.setTransportHeader skb.udpOffset) r n.length :=
    ⟨_, rfl⟩
  have hreply : RepliesTo skb R n r := hR ▸ repliesTo_replyPacket k room r hq (queryOffset_lt hr)
  obtain ⟨hcheck, hflags, hanswer, hbehind⟩ := replyPacket_rest k room r hq
  rw [← hR] at hcheck hflags hanswer hbehind ⊢
  -- the datagram, cut behind the question
  obtain ⟨tail, htail⟩ : ∃ tail, skb.udpLength = 20 + (queryOffset n.length + tail) :=
    ⟨skb.udpLength - questionLength n, by
      have hle := hc.question
      rw [questionLength, sizeofUdphdr, sizeofDnsHeader] at hle ⊢
      omega⟩
  have hcut : skb.udpLength - questionLength n = tail := by
    rw [htail, questionLength, sizeofUdphdr, sizeofDnsHeader]
    omega
  have hlen : R.udpLength = skb.udpLength + 16 := by
    have hihl := hq.ihl
    have hdatagram := hc.datagram
    have hlt : ntohs (skb.mem.load 2 2) < 2 ^ 16 := htons_lt _
    have hudp : skb.udpOffset + sizeofUdphdr ≤ skb.len := by
      have hquestion := hq.question
      rw [nameOffset] at hquestion
      omega
    rw [hR, udpLength_replyPacket hihl (by omega), udpLength_copyExpand hudp,
      Nat.mod_eq_of_lt (by omega)]
  have htail' : R.udpLength = 20 + (queryOffset n.length + (16 + tail)) := by
    rw [hlen, htail]
    omega
  have hnameOffset : R.nameOffset = skb.nameOffset := by
    rw [nameOffset, hreply.udpOffset, nameOffset]
  have hcounts : netSum (R.mem.slice (skb.udpOffset + 12) 8) = 2 := by
    have hfields : 8 = 2 + (2 + (2 + 2)) := rfl
    rw [hfields]
    repeat rw [Mem.netSum_slice_add_of_even _ even_two]
    simp only [netSum_slice_two, Nat.add_assoc, Nat.reduceAdd]
    rw [hreply.qCount, hreply.ansCount, hreply.authCount, hreply.addCount]
    rfl
  have hlen16 : Even 16 := ⟨8, rfl⟩
  rw [netSum_checksumBlock htail', netSum_checksumBlock htail, hlen, hnameOffset, hreply.udpOffset,
    Mem.netSum_slice_add_of_even _ hlen16, hflags, hanswer, hbehind, hcounts, drift, hcut]
  rw [Mem.slice_eq_of_load_eq hreply.saddr, Mem.slice_eq_of_load_eq hreply.daddr,
    Mem.slice_eq_of_load_eq hreply.source, Mem.slice_eq_of_load_eq hreply.dest,
    Mem.slice_eq_of_load_eq hcheck, Mem.slice_eq_of_load_eq hreply.id]
  have hquestion : R.mem.slice skb.nameOffset (queryOffset n.length)
    = skb.mem.slice skb.nameOffset (queryOffset n.length) := hreply.question
  rw [hquestion]
  push_cast
  ring

/-- **When the checksum of a reply is right.** The query has a complete checksum. Then the reply's,
which is the same number, is right exactly when the edits cancel. -/
theorem replyChecksum_iff (hihl : 20 ≤ skb.udpOffset) (hname : skb.queryName = some n)
    (hc : ChecksumComplete skb n)
    (hfound : searchDr st.drTree (skb.bytesFrom skb.nameOffset) = .ok (some r))
    (h : dnsRequestHook k kmalloc (some room) st skb = .ok (verdict, st', some reply)) :
    reply.ChecksumOk ↔ drift skb room r n = 0 := by
  obtain ⟨r', room', hr, hcopy, hfound', rfl⟩ := exists_of_answered hname h
  cases hcopy
  have hq := hc.wellFormed hihl hname
  rw [hfound, Except.ok.injEq, Option.some_inj] at hfound'
  obtain rfl := hfound'
  have hreply := repliesTo_replyPacket k room r hq (queryOffset_lt hr)
  obtain ⟨hcheck, -⟩ := replyPacket_rest k room r hq
  have hpresent : ¬(replyPacket k room (skb.setTransportHeader skb.udpOffset) r n.length).mem.load
      (skb.udpOffset + 6) 2 = 0 := by
    rw [hcheck]
    exact hc.present
  have hzero := (checksumVerifies_checksumBlock skb).mp hc.verifies
  rw [ChecksumOk, hreply.udpOffset, or_iff_right hpresent, checksumVerifies_checksumBlock,
    netSum_replyPacket hq hr hc, hzero, zero_add]

/-- A query for `a` with its checksum. -/
def checkedQuery : SkBuff := (queryFor [1, 97]).withMem ((queryFor [1, 97]).mem.store 26 2 0x3bbf)

theorem queryName_checkedQuery : checkedQuery.queryName = some [1, 97] := by
  decide

theorem checksumComplete_checkedQuery : ChecksumComplete checkedQuery [1, 97] := by
  constructor
  all_goals decide

/-- A cache whose only record makes up for the other edits with its time to live. -/
def luckyName : State := ⟨.node .black .nil (shortRecord [1, 97] 10 0x946c00) .nil, 1⟩

theorem replyChecksum_iff_lucky :
    ∃ st' reply, dnsRequestHook Kernel.small true (some (Tailroom.exact 16)) luckyName checkedQuery
      = .ok (nfDrop, st', some reply) ∧ reply.ChecksumOk := by
  have hfound : searchDr luckyName.drTree (checkedQuery.bytesFrom checkedQuery.nameOffset)
      = .ok (some (shortRecord [1, 97] 10 0x946c00)) :=
    searchDr_node (by decide) (queryName_eq_some.mp queryName_checkedQuery).2
  have hhook : dnsRequestHook Kernel.small true (some (Tailroom.exact 16)) luckyName checkedQuery
      = .ok (nfDrop, _, some _) := dnsRequestHook_eq_some_iff.mpr ⟨[1, 97], _, _,
        queryName_checkedQuery, rfl, hfound, rfl, by decide, rfl, rfl, rfl⟩
  exact ⟨_, _, hhook, (replyChecksum_iff (by decide) queryName_checkedQuery
    checksumComplete_checkedQuery hfound hhook).mpr (by decide)⟩

/-- With another record the reply is sent with a wrong checksum. -/
theorem replyChecksum_wrong :
    ∃ st' reply, dnsRequestHook Kernel.small true (some (Tailroom.exact 16)) oneName checkedQuery
        = .ok (nfDrop, st', some reply) ∧
      ChecksumComplete checkedQuery [1, 97] ∧ ¬reply.ChecksumOk := by
  have hfound := searchDr_oneName (queryName_eq_some.mp queryName_checkedQuery).2
  have hhook : dnsRequestHook Kernel.small true (some (Tailroom.exact 16)) oneName checkedQuery
      = .ok (nfDrop, _, some _) := dnsRequestHook_eq_some_iff.mpr ⟨[1, 97], _, _,
        queryName_checkedQuery, rfl, hfound, rfl, by decide, rfl, rfl, rfl⟩
  refine ⟨_, _, hhook, checksumComplete_checkedQuery, ?_⟩
  decide

end DnsProxy

end AllProjects
