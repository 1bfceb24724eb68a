import AllProjects.DnsProxy.Cache

/-!
# What gets answered

`dns_request_hook` decides by the destination port and by the name. Two consequences are worked out
here, both as exact conditions.

The reply goes through the hook again, because `ip_local_out` leads back to `POST_ROUTING`. Its
ports are swapped, so what keeps it from being answered in turn is the port that the query came
from. A query from port 53 for a cached name is answered without end.

The question's type and class, the direction, the opcode and the number of questions are not looked
at. The reply always holds one answer of type A and class IN.
-/

namespace AllProjects

namespace DnsProxy

open SkBuff

variable {k : Kernel} {kmalloc : Bool} {copy : Option (Tailroom 16)} {room : Tailroom 16}
  {st : State} {skb : SkBuff} {n : List UInt8}

/-- **When a reply is emitted**, and which. -/
theorem dnsRequestHook_eq_some_iff {verdict : ℕ} {st' : State} {reply : SkBuff} :
    dnsRequestHook k kmalloc copy st skb = .ok (verdict, st', some reply) ↔
      ∃ n r room, skb.queryName = some n ∧ kmalloc = true ∧
        searchDr st.drTree (skb.bytesFrom skb.nameOffset) = .ok (some r) ∧ copy = some room ∧
        skb.nameOffset + queryOffset n.length + sizeofResRecord ≤ skb.len + room.size ∧
        verdict = nfDrop ∧ st' = st.alloc ∧
        reply = replyPacket k room (skb.setTransportHeader skb.udpOffset) r n.length := by
  constructor
  · intro h
    cases hname : skb.queryName with
    | none => cases dnsRequestHook_of_queryName_eq_none hname h
    | some n =>
      have hn := (queryName_eq_some.mp hname).2
      rw [dnsRequestHook_of_queryName hname] at h
      cases kmalloc with
      | false => cases h
      | true =>
        obtain ⟨found, hfound, h⟩ := Except.bind_eq_ok_iff.mp h
        cases found with
        | none => cases h
        | some r =>
          obtain ⟨out, hout, h⟩ := Except.bind_eq_ok_iff.mp h
          have hr := named_of_searchDr hn hfound
          obtain ⟨room, rfl, hroom⟩ := le_of_sendReply hr hout
          rw [sendReply_of_name hr hroom] at hout
          cases hout
          cases h
          exact ⟨n, r, room, rfl, rfl, hfound, rfl, hroom, rfl, rfl, rfl⟩
  · rintro ⟨n, r, room, hname, rfl, hfound, rfl, hroom, rfl, rfl, rfl⟩
    have hn := (queryName_eq_some.mp hname).2
    rw [dnsRequestHook_of_queryName hname, if_neg Bool.noConfusion, hfound, Except.ok_bind_eq]
    change (sendReply _ _ _ _ >>= _) = _
    rw [sendReply_of_name (named_of_searchDr hn hfound) hroom]
    rfl

/-! ## The chain of replies -/

/-- The `POST_ROUTING` invocations that a packet starts, one for each outcome of the allocations:
the hook runs again on what it emitted. A copy is always made, with any room behind it. The result
lists the replies that were emitted. -/
def chain (k : Kernel) (st : State) (skb : SkBuff) :
    List (Bool × Tailroom 16) → Except Fault (List SkBuff)
  | [] => .ok []
  | (kmalloc, room) :: env => do
    match ← dnsRequestHook k kmalloc (some room) st skb with
    | (_, _, none) => return []
    | (_, st, some reply) => return reply :: (← chain k st reply env)

theorem chain_of_none {verdict : ℕ} {st' : State} (env : List (Bool × Tailroom 16))
    (h : dnsRequestHook k kmalloc (some room) st skb = .ok (verdict, st', none)) :
    chain k st skb ((kmalloc, room) :: env) = .ok [] := by
  rw [chain, h]
  rfl

theorem chain_of_some {verdict : ℕ} {st' : State} {reply : SkBuff} {replies : List SkBuff}
    {env : List (Bool × Tailroom 16)}
    (h : dnsRequestHook k kmalloc (some room) st skb = .ok (verdict, st', some reply))
    (hrest : chain k st' reply env = .ok replies) :
    chain k st skb ((kmalloc, room) :: env) = .ok (reply :: replies) := by
  rw [chain, h]
  change (chain k st' reply env >>= _) = _
  rw [hrest]
  rfl

/-- A name that a record holds is too short to wrap the answer's offset. -/
theorem queryOffset_lt {r : DnsRecord} (h : r.Named n) : queryOffset n.length < 2 ^ 16 := by
  have hlt := DnsRecord.length_lt_of_named h
  rw [queryOffset]
  omega

theorem exists_reply {r : DnsRecord} (hq : WellFormedQuery skb n) (hport : skb.IsQuery)
    (hfound : searchDr st.drTree (skb.bytesFrom skb.nameOffset) = .ok (some r))
    (room : Tailroom 16) :
    ∃ reply, dnsRequestHook k true (some room) st skb = .ok (nfDrop, st.alloc, some reply) ∧
      RepliesTo skb reply n r ∧ WellFormedQuery reply n := by
  have hr := named_of_searchDr hq.name hfound
  have hreply := repliesTo_replyPacket k room r hq (queryOffset_lt hr)
  refine ⟨_, dnsRequestHook_eq_some_iff.mpr ⟨n, r, room, queryName_eq_some.mpr ⟨hport, hq.name⟩,
    rfl, hfound, rfl, room_of_question room hq.question, rfl, rfl, rfl⟩, hreply, hreply.isUdp, ?_,
      hreply.name, ?_⟩
  · rw [hreply.udpOffset]
    exact hq.ihl
  · rw [nameOffset, hreply.udpOffset]
    exact hq.question.trans (Nat.le_add_right _ _)

/-- **The loop.** A query from port 53 for a cached name draws a reply in every invocation. -/
theorem chain_of_source_eq {r : DnsRecord} (env : List (Tailroom 16)) (hq : WellFormedQuery skb n)
    (hport : skb.IsQuery) (hsource : skb.mem.load skb.udpOffset 2 = ntohs dnsPort)
    (hfound : searchDr st.drTree (skb.bytesFrom skb.nameOffset) = .ok (some r)) :
    ∃ replies, chain k st skb (env.map fun room ↦ (true, room)) = .ok replies ∧
      replies.length = env.length := by
  induction env generalizing st skb with
  | nil => exact ⟨[], rfl, rfl⟩
  | cons room env ih =>
    obtain ⟨reply, hhook, hreply, hq'⟩ := exists_reply (k := k) hq hport hfound room
    -- the reply is a query again: same ports, same name, same records
    have hport' : reply.IsQuery := by
      refine ⟨hreply.isUdp, ?_⟩
      rw [hreply.udpOffset, hreply.dest, hsource]
    have hsource' : reply.mem.load reply.udpOffset 2 = ntohs dnsPort := by
      rw [hreply.udpOffset, hreply.source]
      exact hport.2
    have hfound' : searchDr st.alloc.drTree (reply.bytesFrom reply.nameOffset) = .ok (some r) :=
      (searchDr_congr hreply.name hq.name _).trans hfound
    obtain ⟨replies, hchain, hlen⟩ := ih hq' hport' hsource' hfound'
    exact ⟨reply :: replies, chain_of_some hhook hchain, congrArg (· + 1) hlen⟩

theorem chain_of_dest_ne (hudp : skb.IsUdp) (hport : ¬skb.IsQuery)
    (hn : cstring (skb.bytesFrom skb.nameOffset) = some n) (env : List (Bool × Tailroom 16)) :
    chain k st skb env = .ok [] := by
  cases env with
  | nil => rfl
  | cons e env =>
    have hlt := nameOffset_lt hn
    exact chain_of_none env (dnsRequestHook_of_not_isQuery hudp hport (by omega))

/-- **One reply per query**, exactly as long as the query is for no cached name, or comes from
another port than 53 and contains its whole question. The search for the name must complete, which
it does unless it meets a record without a NUL. -/
theorem one_reply_iff (k : Kernel) (st : State) (hihl : 20 ≤ skb.udpOffset)
    (hname : skb.queryName = some n) :
    (∀ env, ∃ replies, chain k st skb env = .ok replies ∧ replies.length ≤ 1) ↔
      ∃ found, searchDr st.drTree (skb.bytesFrom skb.nameOffset) = .ok found ∧
        (found.isSome → skb.nameOffset + queryOffset n.length ≤ skb.len ∧
          skb.mem.load skb.udpOffset 2 ≠ ntohs dnsPort) := by
  obtain ⟨hport, hn⟩ := queryName_eq_some.mp hname
  constructor
  · intro h
    obtain ⟨replies, hchain, -⟩ := h [(true, Tailroom.exact 16)]
    obtain ⟨result, hresult, -⟩ := Except.bind_eq_ok_iff.mp hchain
    rw [dnsRequestHook_of_queryName hname, if_neg Bool.noConfusion] at hresult
    obtain ⟨found, hfound, hresult⟩ := Except.bind_eq_ok_iff.mp hresult
    refine ⟨found, hfound, ?_⟩
    intro hsome
    obtain ⟨r, rfl⟩ := Option.isSome_iff_exists.mp hsome
    obtain ⟨out, hout, -⟩ := Except.bind_eq_ok_iff.mp hresult
    have hroom : skb.nameOffset + queryOffset n.length ≤ skb.len := by
      obtain ⟨room, hcopy, hroom⟩ := le_of_sendReply (named_of_searchDr hn hfound) hout
      cases hcopy
      exact Nat.le_of_add_le_add_right hroom
    refine ⟨hroom, ?_⟩
    -- from port 53 the reply is a query for the hook again, and there are two
    intro hsource
    obtain ⟨two, htwo, hlen⟩ := chain_of_source_eq (k := k) [Tailroom.exact 16, Tailroom.exact 16]
      ⟨hport.1, hihl, hn, hroom⟩ hport hsource hfound
    obtain ⟨one, hone, hle⟩ :=
      h ([Tailroom.exact 16, Tailroom.exact 16].map fun room ↦ (true, room))
    rw [htwo, Except.ok.injEq] at hone
    rw [← hone, hlen] at hle
    exact absurd hle (by decide)
  · rintro ⟨found, hfound, hsource⟩ env
    rcases env with _ | ⟨⟨kmalloc, room⟩, env⟩
    · exact ⟨[], rfl, Nat.zero_le _⟩
    · cases kmalloc with
      | false => exact ⟨[], chain_of_none env (dnsRequestHook_of_queryName hname), Nat.zero_le _⟩
      | true =>
        cases found with
        | none =>
          have hhook :
              dnsRequestHook k true (some room) st skb = .ok (nfAccept, st.alloc, none) := by
            rw [dnsRequestHook_of_queryName hname, hfound]
            rfl
          exact ⟨[], chain_of_none env hhook, Nat.zero_le _⟩
        | some r =>
          obtain ⟨hroom, hother⟩ := hsource rfl
          obtain ⟨reply, hhook, hreply, -⟩ :=
            exists_reply (k := k) ⟨hport.1, hihl, hn, hroom⟩ hport hfound room
          -- the reply goes to the port that the query came from
          have hdest : ¬reply.IsQuery := fun hport' ↦ hother <| by
            rw [← hreply.dest, ← hreply.udpOffset]
            exact hport'.2
          have hend : chain k st.alloc reply env = .ok [] :=
            chain_of_dest_ne hreply.isUdp hdest hreply.name env
          exact ⟨[reply], chain_of_some hhook hend, le_rfl⟩

/-- A cache with one name. -/
def oneName : State := ⟨.node .black .nil (shortRecord [1, 97] 10 60) .nil, 1⟩

theorem searchDr_oneName {bs : List UInt8} (h : cstring bs = some [1, 97]) :
    searchDr oneName.drTree bs = .ok (some (shortRecord [1, 97] 10 60)) :=
  searchDr_node (by decide) h

theorem one_reply_iff_query :
    (queryFor [1, 97]).queryName = some [1, 97] ∧
      ∀ env, ∃ replies, chain Kernel.small oneName (queryFor [1, 97]) env = .ok replies ∧
        replies.length ≤ 1 := by
  have hname : (queryFor [1, 97]).queryName = some [1, 97] := queryName_queryFor (by decide)
  refine ⟨hname, (one_reply_iff Kernel.small oneName (by decide) hname).mpr
    ⟨_, searchDr_oneName (queryName_eq_some.mp hname).2, fun _ ↦ ⟨by decide, ?_⟩⟩⟩
  decide

/-- A query for a cached name, sent from port 53. -/
def loopQuery : SkBuff := udpPacket 53 53 (dnsMessage 0x0100 0 [1, 97] 1 [])

/-- It is answered as often as the hook is invoked. -/
theorem one_reply_loop :
    loopQuery.queryName = some [1, 97] ∧ WellFormedQuery loopQuery [1, 97] ∧
      ∃ env replies, chain Kernel.small oneName loopQuery env = .ok replies ∧
        ¬replies.length ≤ 1 := by
  have hname : loopQuery.queryName = some [1, 97] := by decide
  obtain ⟨hport, hn⟩ := queryName_eq_some.mp hname
  have hquery : WellFormedQuery loopQuery [1, 97] :=
    ⟨hport.1, by decide, hn, by decide +kernel⟩
  obtain ⟨replies, hchain, hlen⟩ :=
    chain_of_source_eq (k := Kernel.small) [Tailroom.exact 16, Tailroom.exact 16]
    hquery hport (by decide) (searchDr_oneName hn)
  exact ⟨hname, hquery, _, replies, hchain, by rw [hlen]; decide⟩

/-! ## The question behind the answer -/

/-- Question and answer fit when the query is a standard query for the type and the class that the
answer has. -/
def AnswersQuestion (skb reply : SkBuff) (n : List UInt8) : Prop :=
  StandardQuery skb.message
    (ntohs (reply.mem.load (skb.nameOffset + queryOffset n.length + 2) 2))
    (ntohs (reply.mem.load (skb.nameOffset + queryOffset n.length + 4) 2))

theorem answersQuestion_replyPacket_iff {r : DnsRecord} :
    AnswersQuestion skb (replyPacket k room (skb.setTransportHeader skb.udpOffset) r n.length) n ↔
      StandardQuery skb.message 1 1 := by
  obtain ⟨htype, hclass, -⟩ := replyPacket_answer
    (rfl : _ = replyPacket k room (skb.setTransportHeader skb.udpOffset) r n.length) rfl
  exact iff_of_eq (congrArg₂ (fun t c ↦ StandardQuery skb.message (ntohs t) (ntohs c)) htype hclass)

/-- **A cached answer answers the question**, whatever room `skb_copy_expand` leaves behind its
copy, exactly when the packet is a standard query with one question of type A and class IN, or when
it is not answered: no name is asked for at port 53, the allocation fails, or the name is not
cached. A query that ends inside its question is no standard query, and is answered where there is
room. -/
theorem answers_question_iff (k : Kernel) (kmalloc : Bool) (st : State) (skb : SkBuff) :
    (∀ copy st' reply, dnsRequestHook k kmalloc copy st skb = .ok (nfDrop, st', some reply) →
      ∃ n, skb.queryName = some n ∧ AnswersQuestion skb reply n) ↔
    StandardQuery skb.message 1 1 ∨ ¬∃ n r, skb.queryName = some n ∧ kmalloc = true ∧
      searchDr st.drTree (skb.bytesFrom skb.nameOffset) = .ok (some r) := by
  constructor
  · intro h
    by_cases hhit : ∃ n r, skb.queryName = some n ∧ kmalloc = true ∧
        searchDr st.drTree (skb.bytesFrom skb.nameOffset) = .ok (some r)
    · obtain ⟨n, r, hname, hkmalloc, hfound⟩ := hhit
      -- room for the answer, wherever the packet ends
      have henough : 16 ≤ skb.nameOffset + queryOffset n.length + sizeofResRecord :=
        Nat.le_add_left _ _
      obtain ⟨n', hname', hstd⟩ := h _ _ _ (dnsRequestHook_eq_some_iff.mpr ⟨n, r,
        ⟨fun _ ↦ 0, _, henough⟩, hname, hkmalloc, hfound, rfl, Nat.le_add_left _ _, rfl, rfl, rfl⟩)
      obtain rfl := Option.some_inj.mp (hname'.symm.trans hname)
      exact Or.inl (answersQuestion_replyPacket_iff.mp hstd)
    · exact Or.inr hhit
  · intro h copy st' reply hreply
    obtain ⟨n, r, room, hname, hkmalloc, hfound, -, -, -, -, rfl⟩ :=
      dnsRequestHook_eq_some_iff.mp hreply
    have hstd := h.resolve_right (not_not.mpr ⟨n, r, hname, hkmalloc, hfound⟩)
    exact ⟨n, hname, answersQuestion_replyPacket_iff.mpr hstd⟩

/-- An AAAA query. -/
def aaaaQuery : SkBuff := udpPacket 4000 53 (dnsMessage 0x0100 0 [1, 97] 28 [])

/-- Its question has another type, however the message is read. -/
theorem not_standardQuery_aaaaQuery : ¬StandardQuery aaaaQuery.message 1 1 := by
  have hquestion : QuestionAt aaaaQuery.message 12 ⟨[⟨[97], by decide⟩], 28, 1⟩ 19 :=
    ⟨15, nameAt_encodeLabels (by decide), by decide +kernel, by decide +kernel, rfl⟩
  rintro ⟨-, -, q, next, hq, htype, -⟩
  obtain ⟨rfl, -⟩ := hq.unique hquestion
  exact absurd htype (by decide)

/-- It is answered with the cached address, and never reaches a server. -/
theorem answers_question_aaaa :
    ∃ st' reply, dnsRequestHook Kernel.small true (some (Tailroom.exact 16)) oneName aaaaQuery
        = .ok (nfDrop, st', some reply) ∧
      ¬∃ n, aaaaQuery.queryName = some n ∧ AnswersQuestion aaaaQuery reply n := by
  have hname : aaaaQuery.queryName = some [1, 97] := by decide
  refine ⟨_, _, dnsRequestHook_eq_some_iff.mpr ⟨[1, 97], _, _, hname, rfl,
    searchDr_oneName (queryName_eq_some.mp hname).2, rfl, by decide, rfl, rfl, rfl⟩, ?_⟩
  rintro ⟨n, hn, hstd⟩
  obtain rfl := Option.some_inj.mp (hname.symm.trans hn)
  exact not_standardQuery_aaaaQuery (answersQuestion_replyPacket_iff.mp hstd)

end DnsProxy

end AllProjects
