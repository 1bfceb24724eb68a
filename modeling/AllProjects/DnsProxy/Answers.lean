import AllProjects.DnsProxy.Cache

/-!
# What gets into the cache

`dns_reply_hook` reads its record at fixed distances from the NUL of the first name. It looks at
none of the fields that would tell it what is there: not at `qr`, not at the counts, and at the
type, the class and the data length only to print them. `send_reply` later serves the record as an
answer of type A, class IN and data length 4.

The distances are right for one shape of message, the shape in which `send_reply` writes its own
replies: one question, and behind it an A record whose owner is a pointer to the question name. As
long as whatever is cached comes in that shape, every record in the tree is a real answer. The
answer to an AAAA question already breaks this: four bytes of its address get into the tree.
-/

namespace AllProjects

namespace DnsProxy

open SkBuff

/-- The reply for the name `n` has the shape that `send_reply` gives its replies, with any positive
number of answers. -/
structure Genuine (skb : SkBuff) (n : List UInt8) : Prop where
  short : n.length < maxHostnameSize
  labels : ∃ ls, encodeLabels ls = n
  qr : skb.mem.load (skb.dnsOffset + 2) 1 / 128 = 1
  qCount : skb.mem.load (skb.dnsOffset + 4) 2 = htons 1
  ansCount : skb.mem.load (skb.dnsOffset + 6) 2 ≠ 0
  name : skb.mem.load (skb.answerOffset n) 2 = 0xcc0
  type : skb.mem.load (skb.answerOffset n + 2) 2 = htons 1
  class_ : skb.mem.load (skb.answerOffset n + 4) 2 = htons 1
  dataLen : skb.mem.load (skb.answerOffset n + 10) 2 = htons 4
  inside : skb.answerOffset n + sizeofResRecord ≤ skb.len

/-- The fixed distances are right for a genuine reply: what `dns_reply_hook` makes of it is its
first answer. -/
theorem Genuine.realAnswer {skb : SkBuff} {n : List UInt8} (h : Genuine skb n)
    (hn : cstring (skb.bytesFrom skb.nameOffset) = some n) :
    RealAnswer skb.message (skb.carried n) := by
  obtain ⟨ls, rfl⟩ := h.labels
  obtain ⟨len, hlen⟩ : ∃ len, len = (encodeLabels ls).length := ⟨_, rfl⟩
  have hshort := h.short
  have hinside := h.inside
  obtain ⟨ans, hans⟩ : ∃ ans, ans = 12 + (len + 5) := ⟨_, rfl⟩
  have hname : skb.nameOffset = skb.dnsOffset + 12 := rfl
  -- where the answer starts in the message
  have hoff : skb.answerOffset (encodeLabels ls) = skb.dnsOffset + ans := by
    rw [maxHostnameSize] at hshort
    rw [answerOffset, DnsProxy.ansOffset, queryOffset, Nat.mod_eq_of_lt (by omega), hname, ← hlen]
    omega
  rw [hoff, sizeofResRecord] at hinside
  have hquestion : NameAt skb.message 12 ls (12 + (len + 1)) := by
    rw [hlen]
    exact nameAt_message hn (by omega)
  have howner : NameAt skb.message ans ls (ans + 2) := by
    have hlo := (skb.mem (skb.dnsOffset + ans)).toNat_lt
    have hptr := h.name
    rw [hoff, Mem.load_two, Nat.add_assoc] at hptr
    refine NameAt.pointer (getElem?_message (by omega)) (getElem?_message (by omega)) ?_ (by omega)
      hquestion
    omega
  -- the fields of the answer lie behind its owner
  have hfield : ∀ {o v : ℕ}, o + 4 ≤ 16 → v < 2 ^ 16 →
      skb.mem.load (skb.answerOffset (encodeLabels ls) + (2 + o)) 2 = htons v →
      be16 skb.message (ans + 2 + o) = some v := by
    intro o v ho hv hload
    rw [hoff, Nat.add_assoc, ← Nat.add_assoc ans] at hload
    exact be16_message_of_htons hv (by omega) hload
  have hbytes : ∀ {o : ℕ}, o + 6 ≤ 16 →
      bytesOf (UInt32.ofNat (skb.mem.load (skb.answerOffset (encodeLabels ls) + (2 + o)) 4))
        <+: skb.message.drop (ans + 2 + o) := by
    intro o ho
    rw [bytesOf_load, hoff, Nat.add_assoc, ← Nat.add_assoc ans]
    exact slice_prefix_message (by omega)
  obtain ⟨qtype, hqtype⟩ : ∃ v, be16 skb.message (12 + (len + 1)) = some v :=
    ⟨_, be16_message (by omega)⟩
  obtain ⟨qclass, hqclass⟩ : ∃ v, be16 skb.message (12 + (len + 1) + 2) = some v :=
    ⟨_, be16_message (by omega)⟩
  have hqs : QuestionsAt skb.message 12 [⟨ls, qtype, qclass⟩] ans :=
    QuestionsAt.cons ⟨_, hquestion, hqtype, hqclass, hans⟩ (QuestionsAt.nil _)
  have hcount : be16 skb.message 4 = some 1 :=
    be16_message_of_htons (by decide) (by omega) h.qCount
  have htype : be16 skb.message (ans + 2) = some 1 :=
    hfield (o := 0) (v := 1) (by decide) (by decide) h.type
  have hclass : be16 skb.message (ans + 2 + 2) = some 1 :=
    hfield (o := 2) (v := 1) (by decide) (by decide) h.class_
  have httl : bytesOf (skb.carried (encodeLabels ls)).ttl <+: skb.message.drop (ans + 2 + 4) :=
    hbytes (o := 4) (by decide)
  have hdataLen : be16 skb.message (ans + 2 + 8) = some 4 :=
    hfield (o := 8) (v := 4) (by decide) (by decide) h.dataLen
  have haddr : bytesOf (skb.carried (encodeLabels ls)).addr <+: skb.message.drop (ans + 2 + 10) :=
    hbytes (o := 10) (by decide)
  refine ⟨⟨_, getElem?_message (by omega), ?_⟩, ⟨_, be16_message (by omega), ?_⟩,
    [⟨ls, qtype, qclass⟩], ans, ⟨ls, qtype, qclass⟩, ans + 2, hcount, hqs,
    List.mem_singleton_self _, howner, carried_named hn hshort, htype, hclass, httl, hdataLen,
      haddr⟩
  · rw [← Mem.load_one]
    exact h.qr
  · have hne := h.ansCount
    have hlt := Mem.load_lt skb.mem (skb.dnsOffset + 6) 2
    rw [ntohs, htons]
    omega

/-- A step in which a packet that gets cached is genuine. Nothing is asked of a packet whose name is
taken, whose record cannot be allocated, or which is no reply. -/
def GenuineStep (k : Kernel) (st : State) (e : Event) (st' : State) : Prop :=
  exec k st e = .ok st' ∧ ∀ skb n, e = .incoming true skb → skb.replyName = some n →
    searchDr st.drTree (skb.bytesFrom skb.nameOffset) = .ok none → Genuine skb n

/-- **Only real answers are cached**, in every run in which what gets cached is genuine. -/
theorem only_real_answers (k : Kernel) {es : List Event} {st : State}
    (hrun : Run (GenuineStep k) State.initial es st) :
    ∀ r ∈ st.drTree.inorder, ∃ p ∈ received es, RealAnswer p.message r := by
  have hmain : ∀ {s t : State} {es : List Event}, Run (GenuineStep k) s es t →
      ∀ r ∈ t.drTree.inorder, r ∈ s.drTree.inorder ∨ ∃ p ∈ received es, RealAnswer p.message r := by
    intro s t es hrun
    induction hrun with
    | nil s => exact fun r hr ↦ Or.inl hr
    | @cons s mid t e es hstep _ ih =>
      intro r hr
      rcases ih r hr with hr | ⟨p, hp, hreal⟩
      · rcases mem_of_exec hstep.1 hr with hr | ⟨skb, n, rfl, hname, hnew, rfl⟩
        · exact Or.inl hr
        · have hgenuine := hstep.2 skb n rfl hname hnew
          exact Or.inr ⟨skb, List.mem_cons_self,
            hgenuine.realAnswer (replyName_eq_some.mp hname).2⟩
      · refine Or.inr ⟨p, ?_, hreal⟩
        rw [received, List.filterMap_cons]
        cases e.received with
        | none => exact hp
        | some q => exact List.mem_cons_of_mem _ hp
  exact fun r hr ↦ (hmain hrun r hr).resolve_left List.not_mem_nil

theorem only_real_answers_one :
    ∃ st, Run (GenuineStep Kernel.small) State.initial [.incoming true (replyFor [1, 97])] st ∧
      ∀ r ∈ st.drTree.inorder, ∃ p ∈ received [.incoming true (replyFor [1, 97])],
        RealAnswer p.message r := by
  have hname : (replyFor [1, 97]).replyName = some [1, 97] := replyName_replyFor (by decide)
  obtain ⟨st, hexec⟩ := Except.exists_eq_ok_of_isOk (x := exec Kernel.small State.initial
    (.incoming true (replyFor [1, 97]))) (by decide)
  have hgenuine : Genuine (replyFor [1, 97]) [1, 97] := by
    refine ⟨by decide, ⟨[⟨[97], by decide⟩], by decide⟩, ?_, ?_, ?_, ?_, ?_, ?_, ?_, ?_⟩
    all_goals decide
  have hstep : GenuineStep Kernel.small State.initial (.incoming true (replyFor [1, 97])) st := by
    refine ⟨hexec, ?_⟩
    intro skb n hskb hn _
    cases hskb
    rwa [← Option.some_inj.mp (hname.symm.trans hn)]
  exact ⟨st, Run.single hstep, only_real_answers Kernel.small (Run.single hstep)⟩

/-- The usual reply to an AAAA question. -/
def aaaaReply : SkBuff :=
  udpPacket 53 4000 (dnsMessage 0x8180 1 [1, 97] 28 ([0xc0, 0x0c] ++ be16Bytes 28 ++ be16Bytes 1 ++
    bytesOf 60 ++ be16Bytes 16 ++ [0x20, 0x01, 0x0d, 0xb8, 0, 0, 0, 0, 0, 0, 0, 0, 0, 0, 0, 1]))

/-- Its first answer has another type, however the message is read. -/
theorem not_realAnswer_aaaaReply (r : DnsRecord) : ¬RealAnswer aaaaReply.message r := by
  have hname : NameAt aaaaReply.message 12 [⟨[97], by decide⟩] 15 :=
    nameAt_encodeLabels (by decide)
  have hquestion : QuestionAt aaaaReply.message 12 ⟨[⟨[97], by decide⟩], 28, 1⟩ 19 :=
    ⟨15, hname, by decide, by decide +kernel, rfl⟩
  have howner : NameAt aaaaReply.message 19 [⟨[97], by decide⟩] 21 :=
    NameAt.pointer (show aaaaReply.message[19]? = some 0xc0 by decide)
      (show aaaaReply.message[20]? = some 0x0c by decide) (by decide) (by decide) hname
  rintro ⟨-, -, qs, ans, q, name, hcount, hqs, -, hans, -, htype, -⟩
  have hone : be16 aaaaReply.message 4 = some 1 := by decide
  rw [hone, Option.some_inj] at hcount
  obtain ⟨q', rfl⟩ := List.length_eq_one_iff.mp hcount.symm
  obtain ⟨⟩ | ⟨hq, ⟨⟩⟩ := hqs
  obtain ⟨-, rfl⟩ := hq.unique hquestion
  obtain ⟨-, rfl⟩ := hans.unique howner
  have htype' : be16 aaaaReply.message 21 = some 28 := by decide
  rw [htype'] at htype
  cases htype

/-- The cache takes it for an address. -/
theorem only_real_answers_aaaa :
    ∃ st r, execAll (exec Kernel.small) State.initial [.incoming true aaaaReply] = .ok st ∧
      r ∈ st.drTree.inorder ∧
      ¬∃ p ∈ received [.incoming true aaaaReply], RealAnswer p.message r := by
  have hname : aaaaReply.replyName = some [1, 97] := by decide
  obtain ⟨st, hst, -, hinorder⟩ := dnsReplyHook_initial Kernel.small hname
    (carried_named (replyName_eq_some.mp hname).2 (by decide)) (by decide)
  refine ⟨st, _, ?_, hinorder ▸ List.mem_singleton_self _, ?_⟩
  · rw [execAll_cons, exec, hst]
    rfl
  · rintro ⟨p, hp, hreal⟩
    obtain rfl := List.mem_singleton.mp hp
    exact not_realAnswer_aaaaReply _ hreal

end DnsProxy

end AllProjects
