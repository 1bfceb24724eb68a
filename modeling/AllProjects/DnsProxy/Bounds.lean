import AllProjects.DnsProxy.Wire

/-!
# What the hooks read of a packet

Neither hook looks at `skb->len`. Whether it stays inside the packet depends on the packet alone: on
its header length field, on where the name has its NUL, and in a reply on what follows the name.

The reads are listed here one by one, each with the tests that lead to it. The bytes behind the
packet are whatever the memory holds there, so a string without a NUL runs on into them. The list is
tied to the hooks by two facts about a buffer that ends where the packet ends: a hook that completes
there has read inside it, and a hook whose reads lie inside does there what it does in every larger
buffer.

`send_reply` works on a copy of the query. What it reads of the query itself is what
`skb_copy_expand` copies, which is the packet up to its length.
-/

namespace AllProjects

namespace DnsProxy

open SkBuff

/-! ## Strings in memory -/

/-- The string at `a`, wherever its NUL is. -/
def StringAt (m : Mem) (a : ℕ) (n : List UInt8) : Prop := ∃ size, cstring (m.slice a size) = some n

/-- What a string function may read at `a`: every byte up to the first NUL. `strlen` and `%s` read
all of it, `strcmp` and `strncpy` a part. -/
def stringSpan (m : Mem) (a : ℕ) : Set ℕ := {i | a ≤ i ∧ ∀ j, a ≤ j → j < i → m j ≠ 0}

theorem left_mem_stringSpan (m : Mem) (a : ℕ) : a ∈ stringSpan m a :=
  ⟨le_rfl, fun _ hj hlt ↦ absurd hlt (not_lt.mpr hj)⟩

/-- **A string function stays below a bound** exactly when there is a NUL before the bound. -/
theorem stringSpan_lt_iff {m : Mem} {a b : ℕ} :
    (∀ i ∈ stringSpan m a, i < b) ↔ ∃ n, cstring (m.slice a (b - a)) = some n := by
  rw [exists_cstring_iff]
  constructor
  · intro h
    have hab : a < b := h a (left_mem_stringSpan m a)
    by_contra hnul
    -- without a NUL, the first byte behind the bound is read as well
    refine absurd (h b ⟨hab.le, fun j hj hjb hzero ↦ hnul ?_⟩) (lt_irrefl b)
    refine List.mem_of_getElem? (i := j - a) ?_
    rw [Mem.getElem?_slice _ (by omega), Nat.add_sub_cancel' hj, hzero]
  · intro h i hi
    obtain ⟨j, hj⟩ := List.mem_iff_getElem?.mp h
    have hlt : j < b - a := by
      have hlen := (List.getElem?_eq_some_iff.mp hj).1
      rwa [Mem.length_slice] at hlen
    rw [Mem.getElem?_slice _ hlt, Option.some_inj] at hj
    by_contra hge
    exact hi.2 (a + j) (Nat.le_add_right a j) (by omega) hj

theorem StringAt.unique {m : Mem} {a : ℕ} {n n' : List UInt8} (h : StringAt m a n)
    (h' : StringAt m a n') : n = n' := by
  obtain ⟨s, hs⟩ := h
  obtain ⟨t, ht⟩ := h'
  -- the longer of the two slices begins with the shorter
  have hgrow : ∀ {s t : ℕ} {n : List UInt8}, s ≤ t → cstring (m.slice a s) = some n →
      cstring (m.slice a t) = some n := by
    intro s t n hst hn
    rw [← Nat.add_sub_cancel' hst, Mem.slice_add]
    exact cstring_append hn _
  rcases Nat.le_total s t with hst | hts
  · exact Option.some_inj.mp ((hgrow hst hs).symm.trans ht)
  · exact Option.some_inj.mp (hs.symm.trans (hgrow hts ht))

/-! ## The reads -/

/-- The bytes of a field of `w` bytes. -/
def span (a w : ℕ) : Set ℕ := Set.Ico a (a + w)

theorem mem_span {a w i : ℕ} : i ∈ span a w ↔ a ≤ i ∧ i < a + w := Iff.rfl

/-- What the tests at the beginning of both hooks read. -/
inductive Ipv4UdpReads (skb : SkBuff) : ℕ → Prop
  | version {i : ℕ} : skb.protocol = htons ethPIp → i ∈ span 0 1 → Ipv4UdpReads skb i
  | protocol {i : ℕ} : skb.protocol = htons ethPIp → skb.mem.load 0 1 / 16 = 4 → i ∈ span 9 1 →
      Ipv4UdpReads skb i
  | ihl {i : ℕ} : skb.IsUdp → i ∈ span 0 1 → Ipv4UdpReads skb i

/-- What `dns_request_hook` and the functions that it calls read. -/
inductive DnsRequestReads (kmalloc : Bool) (st : State) (skb : SkBuff) : ℕ → Prop
  | header {i : ℕ} : Ipv4UdpReads skb i → DnsRequestReads kmalloc st skb i
  | dest {i : ℕ} : skb.IsUdp → i ∈ span (skb.udpOffset + 2) 2 → DnsRequestReads kmalloc st skb i
  | id {i : ℕ} : skb.IsQuery → i ∈ span skb.dnsOffset 2 → DnsRequestReads kmalloc st skb i
  | name {i : ℕ} : skb.IsQuery → i ∈ stringSpan skb.mem skb.nameOffset →
      DnsRequestReads kmalloc st skb i
  | copy {n : List UInt8} {drTmpNode : DnsRecord} {i : ℕ} : skb.IsQuery →
      StringAt skb.mem skb.nameOffset n → kmalloc = true →
      searchDr st.drTree (n ++ [0]) = .ok (some drTmpNode) → i ∈ span 0 skb.len →
      DnsRequestReads kmalloc st skb i

/-- What `dns_reply_hook` and the functions that it calls read. -/
inductive DnsReplyReads (kmalloc : Bool) (st : State) (skb : SkBuff) : ℕ → Prop
  | header {i : ℕ} : Ipv4UdpReads skb i → DnsReplyReads kmalloc st skb i
  | source {i : ℕ} : skb.IsUdp → i ∈ span skb.udpOffset 2 → DnsReplyReads kmalloc st skb i
  | id {i : ℕ} : skb.IsReply → i ∈ span skb.dnsOffset 2 → DnsReplyReads kmalloc st skb i
  | name {i : ℕ} : skb.IsReply → i ∈ stringSpan skb.mem skb.nameOffset →
      DnsReplyReads kmalloc st skb i
  | rdata {n : List UInt8} {i : ℕ} : skb.IsReply → StringAt skb.mem skb.nameOffset n →
      i ∈ span (skb.answerOffset n + 12) 4 → DnsReplyReads kmalloc st skb i
  | answer {n : List UInt8} {i : ℕ} : skb.IsReply → StringAt skb.mem skb.nameOffset n →
      searchDr st.drTree (n ++ [0]) = .ok none → kmalloc = true →
      i ∈ span (skb.answerOffset n) sizeofResRecord → DnsReplyReads kmalloc st skb i

/-! ## Packets that hold what is read -/

/-- The first bytes are there, as far as the common tests go. -/
structure HeaderFits (skb : SkBuff) : Prop where
  version : skb.protocol = htons ethPIp → 1 ≤ skb.len
  protocol : skb.protocol = htons ethPIp → skb.mem.load 0 1 / 16 = 4 → 10 ≤ skb.len

/-- The packet reaches past the destination port, and a query past the NUL of its name. -/
structure RequestFits (skb : SkBuff) : Prop extends HeaderFits skb where
  port : skb.IsUdp → skb.udpOffset + 4 ≤ skb.len
  name : skb.IsQuery →
    ∃ n, cstring (skb.mem.slice skb.nameOffset (skb.len - skb.nameOffset)) = some n

/-- The packet reaches past the source port, and a reply past the NUL of its name and the 16 bytes
of the answer behind it. -/
structure ReplyFits (skb : SkBuff) : Prop extends HeaderFits skb where
  port : skb.IsUdp → skb.udpOffset + 2 ≤ skb.len
  answer : skb.IsReply →
    ∃ n, cstring (skb.mem.slice skb.nameOffset (skb.len - skb.nameOffset)) = some n ∧
      skb.answerOffset n + sizeofResRecord ≤ skb.len

/-- The packet, taken to be as long as its buffer. Fitting is then fitting into the buffer. -/
def SkBuff.whole (skb : SkBuff) : SkBuff := { skb with len := skb.size }

variable {kmalloc : Bool} {st : State} {skb : SkBuff}

theorem HeaderFits.mono (h : HeaderFits skb) {len : ℕ} (hle : skb.len ≤ len) :
    HeaderFits { skb with len := len } :=
  ⟨fun hproto ↦ (h.version hproto).trans hle,
    fun hproto hversion ↦ (h.protocol hproto hversion).trans hle⟩

theorem cstring_slice_mono {n : List UInt8} {len len' : ℕ} (hle : len ≤ len')
    (h : cstring (skb.mem.slice skb.nameOffset (len - skb.nameOffset)) = some n) :
    cstring (skb.mem.slice skb.nameOffset (len' - skb.nameOffset)) = some n := by
  have hsplit : len' - skb.nameOffset
      = len - skb.nameOffset + (len' - skb.nameOffset - (len - skb.nameOffset)) := by
    omega
  rw [hsplit, Mem.slice_add]
  exact cstring_append h _

theorem RequestFits.mono (h : RequestFits skb) {len : ℕ} (hle : skb.len ≤ len) :
    RequestFits { skb with len := len } := by
  refine ⟨h.toHeaderFits.mono hle, fun hudp ↦ (h.port hudp).trans hle, ?_⟩
  intro hquery
  obtain ⟨n, hn⟩ := h.name hquery
  exact ⟨n, cstring_slice_mono hle hn⟩

theorem ReplyFits.mono (h : ReplyFits skb) {len : ℕ} (hle : skb.len ≤ len) :
    ReplyFits { skb with len := len } := by
  refine ⟨h.toHeaderFits.mono hle, fun hudp ↦ (h.port hudp).trans hle, ?_⟩
  intro hreply
  obtain ⟨n, hn, hroom⟩ := h.answer hreply
  exact ⟨n, cstring_slice_mono hle hn, hroom.trans hle⟩

theorem span_lt_iff {a w b : ℕ} (hw : 0 < w) : (∀ i ∈ span a w, i < b) ↔ a + w ≤ b := by
  constructor
  · intro h
    have hlast := h (a + w - 1) ⟨by omega, by omega⟩
    omega
  · intro h i hi
    exact hi.2.trans_le h

theorem ipv4UdpReads_lt_iff :
    (∀ i, Ipv4UdpReads skb i → i < skb.len) ↔ HeaderFits skb := by
  constructor
  · intro h
    constructor
    · intro hproto
      exact (span_lt_iff one_pos).mp fun i hi ↦ h i (.version hproto hi)
    · intro hproto hversion
      exact (span_lt_iff one_pos).mp fun i hi ↦ h i (.protocol hproto hversion hi)
  · intro h i hi
    cases hi with
    | version hproto hi => exact (span_lt_iff one_pos).mpr (h.version hproto) i hi
    | protocol hproto hversion hi =>
      exact (span_lt_iff one_pos).mpr (h.protocol hproto hversion) i hi
    | ihl hudp hi => exact (span_lt_iff one_pos).mpr (h.version hudp.1) i hi

theorem nameOffset_lt_len {n : List UInt8}
    (h : cstring (skb.mem.slice skb.nameOffset (skb.len - skb.nameOffset)) = some n) :
    skb.dnsOffset + 12 + n.length < skb.len := by
  have hlt := length_lt_of_cstring h
  rw [Mem.length_slice] at hlt
  rw [nameOffset, sizeofDnsHeader, ← dnsOffset] at hlt
  omega

theorem dnsRequestReads_lt_iff :
    (∀ i, DnsRequestReads kmalloc st skb i → i < skb.len) ↔ RequestFits skb := by
  constructor
  · intro h
    refine ⟨ipv4UdpReads_lt_iff.mp fun i hi ↦ h i (.header hi), ?_, ?_⟩
    · intro hudp
      exact (span_lt_iff two_pos).mp fun i hi ↦ h i (.dest hudp hi)
    · intro hquery
      exact stringSpan_lt_iff.mp fun i hi ↦ h i (.name hquery hi)
  · intro h i hi
    cases hi with
    | header hi => exact ipv4UdpReads_lt_iff.mpr h.toHeaderFits i hi
    | dest hudp hi => exact (span_lt_iff two_pos).mpr (h.port hudp) i hi
    | id hquery hi =>
      obtain ⟨n, hn⟩ := h.name hquery
      have hlt := nameOffset_lt_len hn
      exact (span_lt_iff two_pos).mpr (by omega) i hi
    | name hquery hi => exact stringSpan_lt_iff.mpr (h.name hquery) i hi
    | copy _ _ _ _ hi => exact hi.2.trans_eq (Nat.zero_add _)

theorem dnsReplyReads_lt_iff :
    (∀ i, DnsReplyReads kmalloc st skb i → i < skb.len) ↔ ReplyFits skb := by
  constructor
  · intro h
    refine ⟨ipv4UdpReads_lt_iff.mp fun i hi ↦ h i (.header hi), ?_, ?_⟩
    · intro hudp
      exact (span_lt_iff two_pos).mp fun i hi ↦ h i (.source hudp hi)
    · intro hreply
      obtain ⟨n, hn⟩ := stringSpan_lt_iff.mp fun i hi ↦ h i (.name hreply hi)
      exact ⟨n, hn, (span_lt_iff four_pos).mp fun i hi ↦ h i (.rdata hreply ⟨_, hn⟩ hi)⟩
  · intro h i hi
    cases hi with
    | header hi => exact ipv4UdpReads_lt_iff.mpr h.toHeaderFits i hi
    | source hudp hi => exact (span_lt_iff two_pos).mpr (h.port hudp) i hi
    | id hreply hi =>
      obtain ⟨n, hn, -⟩ := h.answer hreply
      have hlt := nameOffset_lt_len hn
      exact (span_lt_iff two_pos).mpr (by omega) i hi
    | name hreply hi =>
      obtain ⟨n, hn, -⟩ := h.answer hreply
      exact stringSpan_lt_iff.mpr ⟨n, hn⟩ i hi
    | rdata hreply hm hi =>
      obtain ⟨n, hn, hroom⟩ := h.answer hreply
      obtain rfl := hm.unique ⟨_, hn⟩
      exact (span_lt_iff four_pos).mpr hroom i hi
    | answer hreply hm _ _ hi =>
      obtain ⟨n, hn, hroom⟩ := h.answer hreply
      obtain rfl := hm.unique ⟨_, hn⟩
      exact (span_lt_iff (by decide)).mpr hroom i hi

/-! ## The list and the hooks -/

theorem headerFits_of_ipv4Udp {o : Option SkBuff} (h : ipv4Udp skb = .ok o) :
    HeaderFits skb.whole := by
  rw [ipv4Udp] at h
  refine ⟨fun hproto ↦ ?_, fun hproto hfour ↦ ?_⟩
  all_goals
    change skb.protocol = _ at hproto
    rw [if_neg (not_not.mpr hproto)] at h
    obtain ⟨version, hversion, h⟩ := Except.bind_eq_ok_iff.mp h
    obtain ⟨b, hb, hversion⟩ := Except.bind_eq_ok_iff.mp hversion
    obtain ⟨hroom, rfl⟩ := SkBuff.load_eq_ok_iff.mp hb
  · exact hroom
  · rw [Except.pure_eq_ok, Except.ok.injEq] at hversion
    change skb.mem.load 0 1 / 16 = 4 at hfour
    rw [← hversion, if_neg (not_not.mpr hfour)] at h
    obtain ⟨proto, hudp, -⟩ := Except.bind_eq_ok_iff.mp h
    exact (SkBuff.load_eq_ok_iff.mp hudp).1

theorem ipv4Udp_of_fits (h : HeaderFits skb.whole) :
    ipv4Udp skb =
      .ok (if skb.IsUdp then some (skb.setTransportHeader skb.udpOffset) else none) := by
  have hdone : ∀ o, ipv4Udp skb = .ok o →
      ipv4Udp skb = .ok (if skb.IsUdp then some (skb.setTransportHeader skb.udpOffset) else none) :=
    fun o ho ↦ by rw [ho, ipv4Udp_eq ho]
  by_cases hproto : skb.protocol = htons ethPIp
  · have hfirst : skb.load 0 1 = .ok (skb.mem.load 0 1) := SkBuff.load_eq_ok (h.version hproto)
    by_cases hfour : skb.mem.load 0 1 / 16 = 4
    · obtain ⟨o, ho⟩ := exists_ipv4Udp (h.protocol hproto hfour)
      exact hdone o ho
    · refine hdone none ?_
      simp only [ipv4Udp, SkBuff.version, hfirst, Except.ok_bind_eq, Except.pure_eq_ok]
      rw [if_neg (not_not.mpr hproto), if_pos hfour]
  · refine hdone none ?_
    rw [ipv4Udp, if_pos hproto]
    rfl

/-- A hook that completes has found its fields in the buffer. -/
theorem requestFits_of_ok {k : Kernel} {copy : Option (Tailroom 16)}
    {result : ℕ × State × Option SkBuff}
    (hok : dnsRequestHook k kmalloc copy st skb = .ok result) : RequestFits skb.whole := by
  obtain ⟨o, ho, hok⟩ := Except.bind_eq_ok_iff.mp hok
  have hheader := headerFits_of_ipv4Udp ho
  rw [ipv4Udp_eq ho] at hok
  by_cases hudp : skb.IsUdp
  · rw [if_pos hudp] at hok
    simp only [SkBuff.dest, SkBuff.dnsId, setTransportHeader_load, setTransportHeader_bytesFrom,
      setTransportHeader_transportHeader] at hok
    obtain ⟨dest, hdest, hok⟩ := Except.bind_eq_ok_iff.mp hok
    obtain ⟨hroom, rfl⟩ := SkBuff.load_eq_ok_iff.mp hdest
    refine ⟨hheader, fun _ ↦ hroom, ?_⟩
    intro hquery
    change skb.IsQuery at hquery
    rw [if_neg (not_not.mpr hquery.2)] at hok
    obtain ⟨-, -, hok⟩ := Except.bind_eq_ok_iff.mp hok
    obtain ⟨len, hlen, -⟩ := Except.bind_eq_ok_iff.mp hok
    obtain ⟨n, hn, -⟩ := exists_cstring_of_strlen hlen
    exact ⟨n, hn⟩
  · exact ⟨hheader, fun h ↦ absurd h hudp, fun h ↦ absurd h.1 hudp⟩

theorem replyFits_of_ok {k : Kernel} {result : ℕ × State}
    (h : dnsReplyHook k kmalloc st skb = .ok result) : ReplyFits skb.whole := by
  obtain ⟨o, ho, hok⟩ := Except.bind_eq_ok_iff.mp h
  have hheader := headerFits_of_ipv4Udp ho
  rw [ipv4Udp_eq ho] at hok
  by_cases hudp : skb.IsUdp
  · rw [if_pos hudp] at hok
    simp only [SkBuff.source, SkBuff.dnsId, setTransportHeader_load, setTransportHeader_bytesFrom,
      setTransportHeader_transportHeader] at hok
    obtain ⟨source, hsource, hok⟩ := Except.bind_eq_ok_iff.mp hok
    obtain ⟨hroom, rfl⟩ := SkBuff.load_eq_ok_iff.mp hsource
    refine ⟨hheader, fun _ ↦ hroom, ?_⟩
    intro hreply
    change skb.IsReply at hreply
    rw [if_neg (not_not.mpr hreply.2)] at hok
    obtain ⟨-, -, hok⟩ := Except.bind_eq_ok_iff.mp hok
    obtain ⟨len, hlen, -⟩ := Except.bind_eq_ok_iff.mp hok
    obtain ⟨n, hn, -⟩ := exists_cstring_of_strlen hlen
    have hname : skb.replyName = some n := replyName_eq_some.mpr ⟨hreply, hn⟩
    have hroom := answer_le_of_dnsReplyHook hname h
    exact ⟨n, hn, hroom⟩
  · exact ⟨hheader, fun h ↦ absurd h hudp, fun h ↦ absurd h.1 hudp⟩

/-- **A hook that completes in the packet's own buffer has read inside the packet.** -/
theorem dnsRequestReads_lt_of_ok {k : Kernel} {copy : Option (Tailroom 16)}
    {result : ℕ × State × Option SkBuff}
    (hsize : skb.size ≤ skb.len) (hok : dnsRequestHook k kmalloc copy st skb = .ok result) :
    ∀ i, DnsRequestReads kmalloc st skb i → i < skb.len :=
  dnsRequestReads_lt_iff.mpr ((requestFits_of_ok hok).mono hsize)

theorem dnsReplyReads_lt_of_ok {k : Kernel} {result : ℕ × State} (hsize : skb.size ≤ skb.len)
    (h : dnsReplyHook k kmalloc st skb = .ok result) :
    ∀ i, DnsReplyReads kmalloc st skb i → i < skb.len :=
  dnsReplyReads_lt_iff.mpr ((replyFits_of_ok h).mono hsize)

/-- The same packet in a buffer that ends where the packet ends. -/
def SkBuff.clip (skb : SkBuff) : SkBuff := { skb with size := skb.len }

theorem RequestFits.dnsRequestHook_eq {k : Kernel} {copy : Option (Tailroom 16)}
    (h : RequestFits skb.whole)
    (hquery : ¬skb.IsQuery) : dnsRequestHook k kmalloc copy st skb = .ok (nfAccept, st, none) := by
  rw [dnsRequestHook, ipv4Udp_of_fits h.toHeaderFits, Except.ok_bind_eq]
  by_cases hudp : skb.IsUdp
  · have hroom : skb.udpOffset + 2 + 2 ≤ skb.size := h.port hudp
    rw [if_pos hudp]
    simp only [SkBuff.dest, setTransportHeader_load, setTransportHeader_transportHeader]
    rw [SkBuff.load_eq_ok hroom, Except.ok_bind_eq, if_pos fun hport ↦ hquery ⟨hudp, hport⟩]
    rfl
  · rw [if_neg hudp]
    rfl

theorem ReplyFits.dnsReplyHook_eq {k : Kernel} (h : ReplyFits skb.whole) (hreply : ¬skb.IsReply) :
    dnsReplyHook k kmalloc st skb = .ok (nfAccept, st) := by
  rw [dnsReplyHook, ipv4Udp_of_fits h.toHeaderFits, Except.ok_bind_eq]
  by_cases hudp : skb.IsUdp
  · have hroom : skb.udpOffset + 2 ≤ skb.size := h.port hudp
    rw [if_pos hudp]
    simp only [SkBuff.source, setTransportHeader_load, setTransportHeader_transportHeader]
    rw [SkBuff.load_eq_ok hroom, Except.ok_bind_eq, if_pos fun hport ↦ hreply ⟨hudp, hport⟩]
    rfl
  · rw [if_neg hudp]
    rfl

/-- **Reads inside the packet do not see where the buffer ends.** -/
theorem dnsRequestHook_clip {k : Kernel} {copy : Option (Tailroom 16)} (hsize : skb.len ≤ skb.size)
    (h : ∀ i, DnsRequestReads kmalloc st skb i → i < skb.len) :
    dnsRequestHook k kmalloc copy st skb = dnsRequestHook k kmalloc copy st skb.clip := by
  have hfits := dnsRequestReads_lt_iff.mp h
  by_cases hquery : skb.IsQuery
  · obtain ⟨n, hn⟩ := hfits.name hquery
    have hbytes : cstring (skb.bytesFrom skb.nameOffset) = some n := cstring_slice_mono hsize hn
    have hname : skb.queryName = some n := queryName_eq_some.mpr ⟨hquery, hbytes⟩
    have hname' : skb.clip.queryName = some n := queryName_eq_some.mpr ⟨hquery, hn⟩
    rw [dnsRequestHook_of_queryName hname, dnsRequestHook_of_queryName hname',
      searchDr_congr hbytes
        (show cstring (skb.clip.bytesFrom skb.clip.nameOffset) = some n from hn)]
    rfl
  · have hwhole : RequestFits skb.whole := hfits.mono hsize
    have hclip : RequestFits skb.clip.whole :=
      ⟨⟨hfits.version, hfits.protocol⟩, hfits.port, hfits.name⟩
    rw [hwhole.dnsRequestHook_eq hquery, hclip.dnsRequestHook_eq hquery]

theorem dnsReplyHook_clip {k : Kernel} (hsize : skb.len ≤ skb.size)
    (h : ∀ i, DnsReplyReads kmalloc st skb i → i < skb.len) :
    dnsReplyHook k kmalloc st skb = dnsReplyHook k kmalloc st skb.clip := by
  have hfits := dnsReplyReads_lt_iff.mp h
  by_cases hreply : skb.IsReply
  · obtain ⟨n, hn, hroom⟩ := hfits.answer hreply
    have hbytes : cstring (skb.bytesFrom skb.nameOffset) = some n := cstring_slice_mono hsize hn
    have hname : skb.replyName = some n := replyName_eq_some.mpr ⟨hreply, hbytes⟩
    have hname' : skb.clip.replyName = some n := replyName_eq_some.mpr ⟨hreply, hn⟩
    rw [dnsReplyHook_of_replyName hname (hroom.trans hsize), dnsReplyHook_of_replyName hname' hroom,
      searchDr_congr hbytes
        (show cstring (skb.clip.bytesFrom skb.clip.nameOffset) = some n from hn)]
    rfl
  · have hwhole : ReplyFits skb.whole := hfits.mono hsize
    have hclip : ReplyFits skb.clip.whole :=
      ⟨⟨hfits.version, hfits.protocol⟩, hfits.port, hfits.answer⟩
    rw [hwhole.dnsReplyHook_eq hreply, hclip.dnsReplyHook_eq hreply]

/-! ## When the hooks stay inside -/

/-- **The hooks stay inside the packets that are long enough.** For `dns_request_hook` these are the
packets that hold the fields of the tests, and with a query the NUL of its name; for
`dns_reply_hook` a reply must hold a whole answer behind the name as well. -/
theorem hooks_read_inside_iff (kmalloc : Bool) (st : State) (skb : SkBuff) :
    ((∀ i, DnsRequestReads kmalloc st skb i → i < skb.len) ↔ RequestFits skb) ∧
      ((∀ i, DnsReplyReads kmalloc st skb i → i < skb.len) ↔ ReplyFits skb) :=
  ⟨dnsRequestReads_lt_iff, dnsReplyReads_lt_iff⟩

/-- A datagram without a payload to the DNS port, and a reply without an answer: both hooks read
behind the packet. -/
theorem hooks_read_outside :
    (∃ i, DnsRequestReads true State.initial (udpPacket 4000 53 []) i ∧
        (udpPacket 4000 53 []).len ≤ i) ∧
      ∃ i, DnsReplyReads true State.initial (udpPacket 53 4000 (dnsMessage 0x8183 0 [1, 97] 1 [])) i
        ∧ (udpPacket 53 4000 (dnsMessage 0x8183 0 [1, 97] 1 [])).len ≤ i := by
  refine ⟨⟨28, .id (by decide) (mem_span.mpr (by decide)), by decide⟩,
    ⟨59, .rdata (n := [1, 97]) ?_ ⟨7, ?_⟩ (mem_span.mpr ?_), ?_⟩⟩
  all_goals decide

end DnsProxy

end AllProjects
