import AllProjects.DnsProxy.Reply

/-!
# The cache over a run

The hooks run one at a time, on packets in any order. Queries leave the record tree alone. A reply
adds the record it carries unless its name is taken, so after a run the tree is a function of the
replies that came in: every name leads to the first reply that carried it.

This needs the name of every reply to fit into its field. `strncpy` cuts a longer name at 256 bytes
and leaves it without a NUL. The record's string then runs on through the address, and it is no
longer the name under which the packet is asked for.
-/

namespace AllProjects

namespace DnsProxy

open SkBuff

/-! ## Events -/

/-- A packet at one of the two hooks, with the outcome of the hook's allocation. A query also comes
with the outcome of `skb_copy_expand`. -/
inductive Event
  | incoming (kmalloc : Bool) (skb : SkBuff)
  | outgoing (kmalloc : Bool) (copy : Option (Tailroom 16)) (skb : SkBuff)

/-- The outcome of the hook's allocation. -/
def Event.kmalloc : Event → Bool
  | incoming kmalloc _ => kmalloc
  | outgoing kmalloc _ _ => kmalloc

/-- The packet, when it is at `dns_reply_hook`. -/
def Event.received : Event → Option SkBuff
  | incoming _ skb => some skb
  | outgoing _ _ _ => none

/-- The packets that `dns_reply_hook` handles, in order. -/
def received (es : List Event) : List SkBuff := es.filterMap Event.received

/-- The state after an event. -/
def exec (k : Kernel) (st : State) : Event → Except Fault State
  | .incoming kmalloc skb => (dnsReplyHook k kmalloc st skb).map Prod.snd
  | .outgoing kmalloc copy skb => (dnsRequestHook k kmalloc copy st skb).map fun result ↦ result.2.1

variable {k : Kernel} {kmalloc : Bool} {copy : Option (Tailroom 16)} {st : State} {skb : SkBuff}

theorem dnsRequestHook_drTree {result : ℕ × State × Option SkBuff}
    (h : dnsRequestHook k kmalloc copy st skb = .ok result) : result.2.1.drTree = st.drTree := by
  cases hname : skb.queryName with
  | none => rw [dnsRequestHook_of_queryName_eq_none hname h]
  | some n =>
    rw [dnsRequestHook_of_queryName hname] at h
    by_cases hk : kmalloc = false
    · rw [if_pos hk] at h
      rw [← Except.ok.inj h]
    · rw [if_neg hk] at h
      obtain ⟨found, -, h⟩ := Except.bind_eq_ok_iff.mp h
      cases found with
      | none => rw [← Except.ok.inj h]; rfl
      | some r =>
        obtain ⟨reply, -, h⟩ := Except.bind_eq_ok_iff.mp h
        rw [← Except.ok.inj h]
        rfl

theorem drTree_of_dnsReplyHook {n : List UInt8} (hname : skb.replyName = some n)
    {result : ℕ × State} (h : dnsReplyHook k kmalloc st skb = .ok result) :
    result.2.drTree = st.drTree ∧ (kmalloc = false ∨
      ∃ r, searchDr st.drTree (skb.bytesFrom skb.nameOffset) = .ok (some r)) ∨
    kmalloc = true ∧ searchDr st.drTree (skb.bytesFrom skb.nameOffset) = .ok none ∧
      insertStep k st.drTree (skb.carried n) = .ok result.2.drTree := by
  rw [dnsReplyHook_of_replyName hname (answer_le_of_dnsReplyHook hname h)] at h
  obtain ⟨found, hfound, h⟩ := Except.bind_eq_ok_iff.mp h
  cases found with
  | some r =>
    rw [← Except.ok.inj h]
    exact Or.inl ⟨rfl, Or.inr ⟨r, hfound⟩⟩
  | none =>
    cases kmalloc with
    | false =>
      rw [← Except.ok.inj h]
      exact Or.inl ⟨rfl, Or.inl rfl⟩
    | true =>
      obtain ⟨-, -, h⟩ := Except.bind_eq_ok_iff.mp h
      obtain ⟨p, hp, h⟩ := Except.bind_eq_ok_iff.mp h
      refine Or.inr ⟨rfl, hfound, ?_⟩
      rw [← Except.ok.inj h, insertStep, hp]
      rfl

/-- An event adds at most the record that its packet carries, and only under a new name. -/
theorem mem_of_exec {e : Event} {st' : State} (h : exec k st e = .ok st') {r : DnsRecord}
    (hr : r ∈ st'.drTree.inorder) :
    r ∈ st.drTree.inorder ∨ ∃ skb n, e = .incoming true skb ∧ skb.replyName = some n ∧
      searchDr st.drTree (skb.bytesFrom skb.nameOffset) = .ok none ∧ r = skb.carried n := by
  cases e with
  | outgoing kmalloc copy skb =>
    obtain ⟨result, hresult, rfl⟩ := Except.map_eq_ok_iff.mp h
    rw [dnsRequestHook_drTree hresult] at hr
    exact Or.inl hr
  | incoming kmalloc skb =>
    obtain ⟨result, hresult, rfl⟩ := Except.map_eq_ok_iff.mp h
    cases hname : skb.replyName with
    | none =>
      rw [dnsReplyHook_of_replyName_eq_none hname hresult] at hr
      exact Or.inl hr
    | some n =>
      rcases drTree_of_dnsReplyHook hname hresult with ⟨htree, -⟩ | ⟨rfl, hnew, hins⟩
      · rw [htree] at hr
        exact Or.inl hr
      · obtain ⟨p, hp, htree⟩ := Except.map_eq_ok_iff.mp hins
        rw [← htree] at hr
        exact (mem_of_insertDr hp hr).symm.imp_right fun hr ↦ ⟨skb, n, rfl, hname, hnew, hr⟩

/-! ## The cache as a function of the replies -/

/-- The record of the first packet that carries the name. -/
def firstCarried (ps : List SkBuff) (n : List UInt8) : Option DnsRecord :=
  (ps.find? fun p ↦ p.replyName = some n).map fun p ↦ p.carried n

theorem firstCarried_concat (ps : List SkBuff) (p : SkBuff) (n : List UInt8) :
    firstCarried (ps ++ [p]) n
      = (firstCarried ps n).or (if p.replyName = some n then some (p.carried n) else none) := by
  rw [firstCarried, firstCarried, List.find?_append]
  cases ps.find? fun p ↦ p.replyName = some n with
  | some q => rfl
  | none =>
    by_cases hp : p.replyName = some n
    · simp [hp]
    · simp [hp]

/-- The tree holds the first record for every name that the packets carry, and nothing else. -/
structure Caches (st : State) (ps : List SkBuff) : Prop where
  ordered : Ordered st.drTree
  lookup : ∀ n, (st.drTree.inorder.find? fun r ↦ r.Named n) = firstCarried ps n

theorem caches_initial : Caches State.initial [] := ⟨ordered_nil, fun _ ↦ rfl⟩

theorem Caches.incoming {ps : List SkBuff} (h : Caches st ps) {result : ℕ × State}
    (hok : dnsReplyHook k true st skb = .ok result)
    (hshort : ∀ n, skb.replyName = some n → n.length < maxHostnameSize) :
    Caches result.2 (ps ++ [skb]) := by
  cases hname : skb.replyName with
  | none =>
    rw [dnsReplyHook_of_replyName_eq_none hname hok]
    refine ⟨h.ordered, ?_⟩
    intro n
    rw [firstCarried_concat, hname, if_neg (by simp), Option.or_none, h.lookup]
  | some n =>
    have hbytes := (replyName_eq_some.mp hname).2
    have hcarried : (skb.carried n).Named n := carried_named hbytes (hshort n hname)
    have hnamed : ∀ m, (skb.carried n).Named m ↔ n = m := fun m ↦ by
      rw [DnsRecord.Named, hcarried, Option.some_inj]
    have hlookup := h.ordered.searchDr_eq hbytes
    rcases drTree_of_dnsReplyHook hname hok with ⟨htree, hold⟩ | ⟨-, -, hins⟩
    · -- the name is taken, so an earlier packet carried it
      obtain ⟨r, hr⟩ := hold.resolve_left Bool.noConfusion
      rw [hlookup, Except.ok.injEq, h.lookup] at hr
      refine ⟨by rw [htree]; exact h.ordered, ?_⟩
      intro m
      rw [htree, h.lookup, firstCarried_concat, hname]
      by_cases hm : n = m
      · subst hm
        rw [hr]
        rfl
      · rw [if_neg (by simpa using hm), Option.or_none]
    · obtain ⟨root, hroot, hordered, -, hfind⟩ := h.ordered.exists_insertStep k hcarried
      obtain rfl : root = result.2.drTree := Except.ok.inj (hroot.symm.trans hins)
      refine ⟨hordered, ?_⟩
      intro m
      rw [hfind, h.lookup, firstCarried_concat, hname]
      by_cases hm : n = m
      · subst hm
        rw [if_pos hcarried, if_pos rfl]
      · rw [if_neg (mt (hnamed m).mp hm), if_neg (by simpa using hm)]

theorem Caches.exec {ps : List SkBuff} (h : Caches st ps) {e : Event} {st' : State}
    (hok : exec k st e = .ok st') (hkmalloc : e.kmalloc = true)
    (hshort : ∀ p ∈ e.received, ∀ n, p.replyName = some n → n.length < maxHostnameSize) :
    Caches st' (ps ++ e.received.toList) := by
  cases e with
  | incoming kmalloc skb =>
    obtain ⟨result, hresult, rfl⟩ := Except.map_eq_ok_iff.mp hok
    obtain rfl : kmalloc = true := hkmalloc
    exact h.incoming hresult (hshort skb rfl)
  | outgoing kmalloc copy skb =>
    obtain ⟨result, hresult, rfl⟩ := Except.map_eq_ok_iff.mp hok
    have htree := dnsRequestHook_drTree hresult
    change Caches result.2.1 (ps ++ [])
    rw [List.append_nil]
    exact ⟨by rw [htree]; exact h.ordered, by rw [htree]; exact h.lookup⟩

theorem Caches.execAll {es : List Event} {ps : List SkBuff} {st st' : State} (h : Caches st ps)
    (hrun : AllProjects.execAll (DnsProxy.exec k) st es = .ok st')
    (hkmalloc : ∀ e ∈ es, e.kmalloc = true)
    (hshort : ∀ p ∈ received es, ∀ n, p.replyName = some n → n.length < maxHostnameSize) :
    Caches st' (ps ++ received es) := by
  induction es generalizing ps st with
  | nil =>
    cases hrun
    rw [received, List.filterMap_nil, List.append_nil]
    exact h
  | cons e es ih =>
    obtain ⟨mid, hmid, hrest⟩ := Except.bind_eq_ok_iff.mp hrun
    have hsplit : received (e :: es) = e.received.toList ++ received es := by
      rw [received, List.filterMap_cons]
      cases e.received <;> rfl
    rw [hsplit] at hshort ⊢
    have hstep := h.exec hmid (hkmalloc e List.mem_cons_self) fun p hp ↦
      hshort p (List.mem_append_left _ (Option.mem_toList.mpr hp))
    rw [← List.append_assoc]
    exact ih hstep hrest (fun e' he' ↦ hkmalloc e' (List.mem_cons_of_mem _ he')) fun p hp ↦
      hshort p (List.mem_append_right _ hp)

/-! ## Answers from the cache -/

/-- The hook answers the query for `n` exactly when one of the packets carries `n`, and the answer
has the address and the time to live of the first that does, in whatever copy of the query. -/
def AnswersFrom (k : Kernel) (st : State) (ps : List SkBuff) (query : SkBuff) (n : List UInt8) :
    Prop :=
  ∀ room, ∃ verdict st' out, dnsRequestHook k true (some room) st query = .ok (verdict, st', out) ∧
    (out.isSome ↔ ∃ p ∈ ps, p.replyName = some n) ∧
    ∀ reply, out = some reply → ∃ p, ps.find? (fun p ↦ p.replyName = some n) = some p ∧
      UInt32.ofNat (reply.mem.load (query.nameOffset + queryOffset n.length + 12) 4)
        = (p.carried n).addr ∧
      UInt32.ofNat (reply.mem.load (query.nameOffset + queryOffset n.length + 6) 4)
        = (p.carried n).ttl

/-- **The cache agrees with the replies.** After a run in which every name that a reply carries is
shorter than its field, a query is answered exactly when a reply carried its name, and with the
first such reply. A query that is answered must contain its whole question. -/
theorem cache_agreement (k : Kernel) {es : List Event} {st : State}
    (hrun : execAll (exec k) State.initial es = .ok st) (hkmalloc : ∀ e ∈ es, e.kmalloc = true)
    (hshort : ∀ p ∈ received es, ∀ n, p.replyName = some n → n.length < maxHostnameSize)
    {query : SkBuff} {n : List UInt8} (hn : query.queryName = some n)
    (hquestion : (∃ p ∈ received es, p.replyName = some n) →
      query.nameOffset + queryOffset n.length ≤ query.len) :
    AnswersFrom k st (received es) query n := by
  have hcaches := caches_initial.execAll hrun hkmalloc hshort
  rw [List.nil_append] at hcaches
  obtain ⟨-, hbytes⟩ := queryName_eq_some.mp hn
  intro room
  rw [dnsRequestHook_of_queryName hn, if_neg Bool.noConfusion, hcaches.ordered.searchDr_eq hbytes,
    hcaches.lookup, Except.ok_bind_eq, firstCarried]
  cases hfind : (received es).find? fun p ↦ p.replyName = some n with
  | none =>
    refine ⟨nfAccept, st.alloc, none, rfl, ?_, fun reply hreply ↦ (by cases hreply)⟩
    have hnone : ∀ p ∈ received es, p.replyName ≠ some n := by simpa using hfind
    exact ⟨fun h ↦ (by cases h), fun ⟨p, hp, hpn⟩ ↦ absurd hpn (hnone p hp)⟩
  | some p =>
    have hp : p ∈ received es := List.mem_of_find?_eq_some hfind
    have hpn : p.replyName = some n := by simpa using List.find?_some hfind
    have hcarried := carried_named (replyName_eq_some.mp hpn).2 (hshort p hp n hpn)
    have hroom := room_of_question room (hquestion ⟨p, hp, hpn⟩)
    refine ⟨nfDrop, st.alloc, some (replyPacket k room (query.setTransportHeader query.udpOffset)
      (p.carried n) n.length), ?_, ⟨fun _ ↦ ⟨p, hp, hpn⟩, fun _ ↦ rfl⟩, ?_⟩
    · rw [Option.map_some]
      change (sendReply _ _ _ _ >>= _) = _
      rw [sendReply_of_name hcarried hroom]
      rfl
    · intro reply hreply
      cases hreply
      obtain ⟨-, -, httl, haddr⟩ := replyPacket_answer
        (rfl : _ = replyPacket k room (query.setTransportHeader query.udpOffset) (p.carried n)
          n.length) rfl
      exact ⟨p, rfl, haddr, httl⟩

theorem cache_agreement_two :
    ∃ st, execAll (exec Kernel.small) State.initial
        [.incoming true (replyFor [1, 97]), .incoming true (replyFor [1, 98])] = .ok st ∧
      AnswersFrom Kernel.small st [replyFor [1, 97], replyFor [1, 98]]
        (queryFor [1, 98]) [1, 98] := by
  obtain ⟨st, hrun⟩ := Except.exists_eq_ok_of_isOk (x := execAll (exec Kernel.small) State.initial
    [.incoming true (replyFor [1, 97]), .incoming true (replyFor [1, 98])]) (by decide)
  refine ⟨st, hrun, cache_agreement Kernel.small hrun (by decide) (fun p hp n hn ↦ ?_) (by decide)
    fun _ ↦ by decide⟩
  rcases List.mem_pair.mp hp with rfl | rfl
  · obtain rfl : [1, 97] = n := Option.some_inj.mp ((by decide : _ = _).trans hn)
    decide
  · obtain rfl : [1, 98] = n := Option.some_inj.mp ((by decide : _ = _).trans hn)
    decide

/-- A name that fills its field to the last byte. -/
def longName : List UInt8 := List.replicate maxHostnameSize 97

/-- A record that does not hold the name of its reply is not found under that name. -/
theorem not_answersFrom {reply query : SkBuff} {n m : List UInt8} (h : reply.replyName = some n)
    (hm : (reply.carried n).Named m) (hne : m ≠ n)
    (hsize : reply.answerOffset n + sizeofResRecord ≤ reply.size) (hn : query.queryName = some n) :
    ∃ st, execAll (exec k) State.initial [.incoming true reply] = .ok st ∧
      ¬AnswersFrom k st [reply] query n := by
  obtain ⟨st, hst, hordered, hinorder⟩ := dnsReplyHook_initial k h hm hsize
  refine ⟨st, ?_, ?_⟩
  · rw [execAll_cons, exec, hst]
    rfl
  · intro hans
    obtain ⟨verdict, st', out, hout, hiff, -⟩ := hans (Tailroom.exact 16)
    have hnone : st.drTree.inorder.find? (fun r ↦ r.Named n) = none := by
      rw [hinorder, List.find?_singleton, if_neg]
      rw [decide_eq_true_iff, DnsRecord.Named, hm, Option.some_inj]
      exact hne
    rw [dnsRequestHook_of_queryName hn, if_neg Bool.noConfusion,
      hordered.searchDr_eq (queryName_eq_some.mp hn).2, hnone] at hout
    cases hout
    exact absurd (hiff.mpr ⟨reply, List.mem_singleton_self _, h⟩) (by decide)

/-- A name that fills its field to the last byte is lost: the record's string goes on with the
address. -/
theorem cache_agreement_long_name :
    ∃ st, execAll (exec Kernel.small) State.initial [.incoming true (replyFor longName)] = .ok st ∧
      (queryFor longName).queryName = some longName ∧
      (queryFor longName).nameOffset + queryOffset longName.length ≤ (queryFor longName).len ∧
      ¬AnswersFrom Kernel.small st [replyFor longName] (queryFor longName) longName := by
  have h0 : 0 ∉ longName := fun h ↦ absurd (List.eq_of_mem_replicate h) (by decide)
  have hquery := queryName_queryFor h0
  obtain ⟨st, hst, hnot⟩ := not_answersFrom (k := Kernel.small) (replyName_replyFor h0)
    (show ((replyFor longName).carried longName).Named (longName ++ [127]) by decide +kernel)
    (by decide +kernel) (by decide +kernel) hquery
  exact ⟨st, hst, hquery, by decide +kernel, hnot⟩

end DnsProxy

end AllProjects
