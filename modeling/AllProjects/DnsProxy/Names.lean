import AllProjects.DnsProxy.Wire

/-!
# Wire names as C strings

The hooks read a length-prefixed name with functions for NUL-terminated strings. For labels without
NUL bytes both views end at the same place: no length byte is zero, so the first NUL is the zero
byte that closes the name. `strlen` is then the length of the labels on the wire, and five bytes
further, behind that NUL, the type and the class, the question is over.

As a key the string is as good as the labels. A name has one reading, so two sequences of labels
with the same bytes are the same sequence.
-/

namespace AllProjects

namespace DnsProxy

/-! ## Labels without NUL bytes -/

/-- No label contains a NUL. -/
def NulFree (ls : List Label) : Prop := ∀ l ∈ ls, 0 ∉ l.val

instance (ls : List Label) : Decidable (NulFree ls) := inferInstanceAs (Decidable (∀ l ∈ ls, _))

theorem ofNat_length_ne_zero (l : Label) : UInt8.ofNat l.val.length ≠ 0 := by
  intro hzero
  have hlen := toNat_length l
  rw [hzero] at hlen
  exact absurd hlen l.property.1.ne

theorem zero_notMem_encodeLabels {ls : List Label} (h : NulFree ls) : 0 ∉ encodeLabels ls := by
  induction ls with
  | nil => exact List.not_mem_nil
  | cons l ls ih =>
    obtain ⟨hl, hls⟩ := List.forall_mem_cons.mp h
    rw [encodeLabels_cons, List.mem_cons, List.mem_append, not_or, not_or]
    exact ⟨(ofNat_length_ne_zero l).symm, hl, ih hls⟩

theorem cstring_encodeLabels {ls : List Label} (h : NulFree ls) (rest : List UInt8) :
    cstring (encodeLabels ls ++ 0 :: rest) = some (encodeLabels ls) :=
  cstring_append_zero (zero_notMem_encodeLabels h) rest

/-- **The labels are determined by their bytes.** Both sequences are readings of one name. -/
theorem encodeLabels_injective : Function.Injective encodeLabels := by
  intro ls ls' hsame
  have hread : NameAt (encodeLabels ls ++ [0]) 0 ls (0 + ((encodeLabels ls).length + 1)) :=
    nameAt_encodeLabels (List.prefix_refl _)
  have hread' : NameAt (encodeLabels ls ++ [0]) 0 ls' (0 + ((encodeLabels ls').length + 1)) :=
    nameAt_encodeLabels (by rw [hsame]; exact List.prefix_refl _)
  exact (hread.unique hread').1

/-- `strcmp` tells the names of different label sequences apart, whatever follows them. -/
theorem strcmp_encodeLabels {ls ls' : List Label} (h : NulFree ls) (h' : NulFree ls')
    (hne : ls ≠ ls') (rest rest' : List UInt8) :
    ∃ c, strcmp (encodeLabels ls ++ 0 :: rest) (encodeLabels ls' ++ 0 :: rest') = .ok c
      ∧ c ≠ 0 := by
  have hs := cstring_encodeLabels h rest
  have hs' := cstring_encodeLabels h' rest'
  refine ⟨_, strcmp_eq_ok hs hs', ?_⟩
  intro hzero
  have hsame := cstringKey_injective (orderSign_eq_zero_iff.mp hzero)
  exact hne (encodeLabels_injective hsame)

/-! ## Questions -/

/-- A question on the wire: its labels, the zero byte, the type and the class. -/
def encodeQuestion (q : Question) : List UInt8 :=
  encodeLabels q.labels ++ 0 :: (be16Bytes q.qtype ++ be16Bytes q.qclass)

/-- The question ends where the two hooks expect its end. -/
theorem length_encodeQuestion (q : Question) :
    (encodeQuestion q).length = queryOffset (encodeLabels q.labels).length := by
  rw [encodeQuestion, List.length_append]
  rfl

variable {skb : SkBuff} {q : Question}

theorem cstring_of_encodeQuestion (hq : NulFree q.labels)
    (h : encodeQuestion q <+: skb.bytesFrom skb.nameOffset) :
    cstring (skb.bytesFrom skb.nameOffset) = some (encodeLabels q.labels) := by
  obtain ⟨rest, hrest⟩ := h
  rw [← hrest]
  exact cstring_append (cstring_encodeLabels hq _) rest

/-- **Wire names as C strings.** Behind a packet's DNS header stands a question whose labels have no
NUL bytes, with anything behind it. Then `strlen` of the name and 5 is the length of the question,
for the name in the packet and for the name of any record that `search_dr` finds for it, which is
the one `send_reply` measures. `dns_reply_hook` keeps the sum in 16 bits, which is enough for a
question inside an IPv4 datagram, and reads the first byte behind the question as the answer.
Questions with other labels have names that `strcmp` tells apart from this one. -/
theorem wire_names (hq : NulFree q.labels) (h : encodeQuestion q <+: skb.bytesFrom skb.nameOffset) :
    (∃ nameLen, strlen (skb.bytesFrom skb.nameOffset) = .ok nameLen ∧
      queryOffset nameLen = (encodeQuestion q).length ∧
      (skb.nameOffset + (encodeQuestion q).length ≤ ntohs (skb.mem.load 2 2) →
        ansOffset nameLen = (encodeQuestion q).length)) ∧
    (∀ root r, searchDr root (skb.bytesFrom skb.nameOffset) = .ok (some r) →
      ∃ nameLen, strlen r.image = .ok nameLen ∧ queryOffset nameLen = (encodeQuestion q).length) ∧
    ∀ (q' : Question) (skb' : SkBuff), NulFree q'.labels →
      encodeQuestion q' <+: skb'.bytesFrom skb'.nameOffset → q.labels ≠ q'.labels →
      ∃ c, strcmp (skb.bytesFrom skb.nameOffset) (skb'.bytesFrom skb'.nameOffset) = .ok c ∧
        c ≠ 0 := by
  have hname := cstring_of_encodeQuestion hq h
  have hlen := length_encodeQuestion q
  refine ⟨⟨_, strlen_eq_ok hname, hlen.symm, ?_⟩, ?_, ?_⟩
  · intro hin
    have hlt : ntohs (skb.mem.load 2 2) < 2 ^ 16 := htons_lt _
    rw [ansOffset, ← hlen, Nat.mod_eq_of_lt (by omega)]
  · intro root r hfound
    exact ⟨_, strlen_eq_ok (named_of_searchDr hname hfound), hlen.symm⟩
  · rintro q' skb' hq' ⟨rest', hrest'⟩ hne
    obtain ⟨rest, hrest⟩ := h
    rw [encodeQuestion, List.append_assoc] at hrest hrest'
    rw [← hrest, ← hrest']
    exact strcmp_encodeLabels hq hq' hne _ _

/-- The question for the name of one label `a`, type A and class IN. -/
def questionA : Question := ⟨[⟨[97], by decide⟩], 1, 1⟩

theorem wire_names_query :
    encodeQuestion questionA <+: (queryFor [1, 97]).bytesFrom (queryFor [1, 97]).nameOffset ∧
      ∃ nameLen, strlen ((queryFor [1, 97]).bytesFrom (queryFor [1, 97]).nameOffset) = .ok nameLen ∧
        queryOffset nameLen = (encodeQuestion questionA).length := by
  have hquestion : encodeQuestion questionA <+:
      (queryFor [1, 97]).bytesFrom (queryFor [1, 97]).nameOffset := by decide
  obtain ⟨⟨nameLen, hstrlen, hlen, -⟩, -, -⟩ := wire_names (by decide) hquestion
  exact ⟨hquestion, nameLen, hstrlen, hlen⟩

end DnsProxy

end AllProjects
