import AllProjects.DnsProxy.Queries

/-!
# The length of a reply

`send_reply` adds the size of one answer to the UDP length of the query, and writes the answer
behind the question. The two agree when the query ends with its question. What a query carries
behind it, such as an EDNS OPT record, is overwritten by the answer but still counted, although the
reply's counts announce one answer and nothing else.

The bytes that are counted too much come from behind the answer: the rest of the query where it
reaches that far, and what `skb_copy_expand` found in the room that it added where it does not.
-/

namespace AllProjects

namespace DnsProxy

open SkBuff

variable {k : Kernel} {kmalloc : Bool} {copy : Option (Tailroom 16)} {room : Tailroom 16}
  {st st' : State} {skb reply : SkBuff} {n : List UInt8} {r : DnsRecord} {verdict : ℕ}

/-- The UDP length of the packet. -/
def SkBuff.udpLength (skb : SkBuff) : ℕ := ntohs (skb.mem.load (skb.udpOffset + 4) 2)

/-- The UDP length of a query that ends with its question for the name `n`. -/
def questionLength (n : List UInt8) : ℕ := sizeofUdphdr + sizeofDnsHeader + queryOffset n.length

theorem udpLength_lt (skb : SkBuff) : skb.udpLength < 2 ^ 16 := htons_lt _

theorem udpLength_copyExpand (hudp : skb.udpOffset + sizeofUdphdr ≤ skb.len) :
    (skb.copyExpand room).udpLength = skb.udpLength := by
  have hfield : skb.udpOffset + 4 + 2 ≤ skb.len := by
    rw [sizeofUdphdr] at hudp
    omega
  have hoff : (skb.copyExpand room).udpOffset = skb.udpOffset := by
    rw [udpOffset, copyExpand_load (by omega), udpOffset]
  rw [udpLength, hoff, copyExpand_load hfield, udpLength]

theorem udpLength_replyPacket (hihl : 20 ≤ skb.udpOffset) (hlen : 0 < skb.len) :
    (replyPacket k room (skb.setTransportHeader skb.udpOffset) r n.length).udpLength
      = ((skb.copyExpand room).udpLength + 16) % 2 ^ 16 := by
  obtain ⟨R, hR⟩ : ∃ R, R = replyPacket k room (skb.setTransportHeader skb.udpOffset) r n.length :=
    ⟨_, rfl⟩
  have hcopy : (skb.copyExpand room).mem.load 0 1 = skb.mem.load 0 1 := copyExpand_load hlen
  have hbyte : R.mem.load 0 1 = skb.mem.load 0 1 := by
    have hip : 0 + 1 ≤ (skb.setTransportHeader skb.udpOffset).transportHeader := by
      rw [setTransportHeader_transportHeader]
      omega
    rw [hR, replyPacket_load_ip hip, (ipMem_load _).1]
    exact hcopy
  have hoff : R.udpOffset = skb.udpOffset := by rw [udpOffset, hbyte, udpOffset]
  have hoff' : (skb.copyExpand room).udpOffset = skb.udpOffset := by
    rw [udpOffset, hcopy, udpOffset]
  -- the field is behind the IP header, and in front of what the other edits write
  have hfield : R.mem.load (skb.udpOffset + 4) 2
      = (udpMem (ipMem k (skb.copyExpand room).mem) skb.udpOffset).load (skb.udpOffset + 4) 2 := by
    rw [hR]
    apply replyPacket_load_udp
    rw [setTransportHeader_transportHeader]
    omega
  rw [← hR, udpLength, hoff, hfield, (udpMem_load _ _).2.2, ipMem_load_of_ge _ (by omega),
    udpLength, hoff']

/-- The UDP length is that of a header, the question for the name `n` and one answer. -/
def NoStrayBytes (reply : SkBuff) (n : List UInt8) : Prop :=
  reply.udpLength = questionLength n + sizeofResRecord

instance (reply : SkBuff) (n : List UInt8) : Decidable (NoStrayBytes reply n) :=
  inferInstanceAs (Decidable (_ = _))

/-- A reply was emitted for a cached name, in a copy with room for the answer. -/
theorem exists_of_answered (hname : skb.queryName = some n)
    (h : dnsRequestHook k kmalloc copy st skb = .ok (verdict, st', some reply)) :
    ∃ r room, r.Named n ∧ copy = some room ∧
      searchDr st.drTree (skb.bytesFrom skb.nameOffset) = .ok (some r) ∧
      reply = replyPacket k room (skb.setTransportHeader skb.udpOffset) r n.length := by
  obtain ⟨n', r, room, hname', -, hfound, hcopy, -, -, -, rfl⟩ := dnsRequestHook_eq_some_iff.mp h
  obtain rfl := Option.some_inj.mp (hname.symm.trans hname')
  exact ⟨r, room, named_of_searchDr (queryName_eq_some.mp hname).2 hfound, hcopy, hfound, rfl⟩

/-- **No stray bytes.** The reply to a query for the name `n` has the UDP length of its header, its
question and one answer exactly when the copy of the query has the UDP length of its header and its
question. This is the length of the query itself, if its UDP header is not cut off. -/
theorem noStrayBytes_iff (hihl : 20 ≤ skb.udpOffset) (hlen : 0 < skb.len)
    (hname : skb.queryName = some n)
    (h : dnsRequestHook k kmalloc (some room) st skb = .ok (verdict, st', some reply)) :
    (NoStrayBytes reply n ↔ (skb.copyExpand room).udpLength = questionLength n)
      ∧ (skb.udpOffset + sizeofUdphdr ≤ skb.len →
        (skb.copyExpand room).udpLength = skb.udpLength) := by
  obtain ⟨r, room, hr, ⟨⟩, -, rfl⟩ := exists_of_answered hname h
  refine ⟨?_, udpLength_copyExpand⟩
  have hshort := DnsRecord.length_lt_of_named hr
  have hlt := udpLength_lt (skb.copyExpand room)
  rw [NoStrayBytes, udpLength_replyPacket hihl hlen, questionLength, queryOffset, sizeofUdphdr,
    sizeofDnsHeader, sizeofResRecord]
  omega

/-- A query for `a` from a plain stub resolver is answered without stray bytes. -/
theorem noStrayBytes_iff_query :
    ∃ st' reply,
      dnsRequestHook Kernel.small true (some (Tailroom.exact 16)) oneName (queryFor [1, 97])
        = .ok (nfDrop, st', some reply) ∧ NoStrayBytes reply [1, 97] := by
  have hname : (queryFor [1, 97]).queryName = some [1, 97] := queryName_queryFor (by decide)
  have hhook :
      dnsRequestHook Kernel.small true (some (Tailroom.exact 16)) oneName (queryFor [1, 97])
      = .ok (nfDrop, _, some _) := dnsRequestHook_eq_some_iff.mpr ⟨[1, 97], _, _, hname, rfl,
        searchDr_oneName (queryName_eq_some.mp hname).2, rfl, by decide, rfl, rfl, rfl⟩
  exact ⟨_, _, hhook,
    (noStrayBytes_iff (by decide) (by decide) hname hhook).1.mpr (by decide +kernel)⟩

/-- A query with an EDNS OPT record behind its question. -/
def ednsQuery : SkBuff :=
  udpPacket 4000 53 ([0x12, 0x34] ++ be16Bytes 0x0100 ++ be16Bytes 1 ++ be16Bytes 0 ++
    be16Bytes 0 ++ be16Bytes 1 ++ [1, 97] ++ [0] ++ be16Bytes 1 ++ be16Bytes 1 ++
    [0] ++ be16Bytes 41 ++ be16Bytes 4096 ++ [0, 0, 0, 0] ++ be16Bytes 0)

/-- Its reply is 11 bytes longer than its contents. -/
theorem edns_stray_bytes :
    ednsQuery.queryName = some [1, 97] ∧
      ∃ st' reply, dnsRequestHook Kernel.small true (some (Tailroom.exact 16)) oneName ednsQuery
          = .ok (nfDrop, st', some reply) ∧
        reply.udpLength = questionLength [1, 97] + sizeofResRecord + 11 ∧
        ¬NoStrayBytes reply [1, 97] := by
  have hname : ednsQuery.queryName = some [1, 97] := by decide
  have hhook : dnsRequestHook Kernel.small true (some (Tailroom.exact 16)) oneName ednsQuery
      = .ok (nfDrop, _, some _) := dnsRequestHook_eq_some_iff.mpr ⟨[1, 97], _, _, hname, rfl,
        searchDr_oneName (queryName_eq_some.mp hname).2, rfl, by decide, rfl, rfl, rfl⟩
  exact ⟨hname, _, _, hhook, by decide, by decide +kernel⟩

end DnsProxy

end AllProjects
