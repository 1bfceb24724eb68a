import AllProjects.PcapSniffer.Captured

/-!
# The search for a string

`check_data` looks for a string in what stands behind the headers. It compares from each offset in
turn, without regard to how much is left, and finds out about a match at the start of the next
round; there is none after the last. The characters are signed, so one above 127 is equal to no
byte. The number of rounds is an unsigned difference.

So the search goes wrong in four ways: a match at the last byte is not noticed, a string with a
character above 127 is not found, the start of the string at the end of the payload is compared
further, and with headers longer than the frame there are about `2 ^ 32` rounds.
-/

namespace AllProjects.PcapSniffer

open Prog

/-! ## What the search is for -/

/-- The headers of a frame, as `check_data` computes their length. -/
def headerBytes (proto : ℕ) (m : Mem) : ℕ :=
  if proto = 6 then transport m + doffBytes m else transport m + 8

/-- The end of what is read to compute it. -/
def headerEnd (proto : ℕ) (m : Mem) : ℕ := if proto = 6 then transport m + 13 else 15

/-- The end of the frame: `size` is an `int`, and negative from `2 ^ 31` on. -/
def frameEnd (size : ℕ) : ℕ := if size < 2 ^ 31 then size else 0

/-- The bytes from the end of the headers to the end of the frame. -/
def payload (size proto : ℕ) (m : Mem) : List UInt8 :=
  m.slice (headerBytes proto m) (frameEnd size - headerBytes proto m)

/-- **Substring search**: the result says whether the string occurs in the payload, and no byte is
read behind the frame. -/
structure SearchesPayload (size proto : ℕ) (s : List UInt8) (m : Mem) : Prop where
  found : (checkData size proto s m).val = 0 ↔ s <:+: payload size proto m
  missing : (checkData size proto s m).val ≠ 0 → (checkData size proto s m).val = -1
  reads : (checkData size proto s).ReadsBelow m (frameEnd size)

/-! ## Where it succeeds -/

/-- All characters are positive. -/
def IsAscii (s : List UInt8) : Prop := ∀ c ∈ s, c < 128

/-- The string occurs, and there is a round after its match. -/
def Noticed (s text : List UInt8) : Prop :=
  ∃ x y, x ++ s ++ y = text ∧ x.length + 1 < text.length ∧ IsAscii s

/-- The start of the string stands at the end of the text. -/
def RunsOut (s text : List UInt8) : Prop :=
  ∃ u v, u ++ v = s ∧ u ≠ [] ∧ v ≠ [] ∧ IsAscii u ∧ u <:+ text

/-- **When the search is right.** For an empty string there has to be a round at all. For any other
the headers have to end in the frame, and either the string occurs before the last byte, or neither
it nor a start of it at the end of the payload is there. What is searched for is less than the
string when its length takes more than 32 bits. -/
def SearchSucceeds (size proto : ℕ) (s : List UInt8) (m : Mem) : Prop :=
  headerEnd proto m ≤ frameEnd size ∧
    if s = [] then size ≠ headerBytes proto m
    else headerBytes proto m ≤ frameEnd size ∧
      (Noticed s (payload size proto m) ∨
        ¬ s <:+: payload size proto m ∧ (searched s = [] → payload size proto m = [])
          ∧ ¬ Noticed (searched s) (payload size proto m)
          ∧ ¬ RunsOut (searched s) (payload size proto m))

/-! ## Comparisons -/

theorem not_differs_iff {b c : UInt8} : ¬ Differs b.toNat c ↔ b = c ∧ c < 128 := by
  have hint : c.toInt8.toInt = if 2 * c.toNat < 256 then (c.toNat : ℤ) else c.toNat - 256 :=
    BitVec.toInt_eq_toNat_cond c.toBitVec
  have hb := b.toNat_lt
  have hc := c.toNat_lt
  rw [not_not, hint, UInt8.lt_iff_toNat_lt, ← UInt8.toNat_inj]
  change _ ↔ _ ∧ c.toNat < 128
  split <;> omega

section

variable {m : Mem} {data p n k : ℕ} {s t u : List UInt8}

/-- Without overflow of the index, a string stands at a place when it is there and in ASCII. -/
theorem standsAt_iff (h : p + s.length ≤ 2 ^ 32) :
    StandsAt m data p s ↔ m.slice (data + p) s.length = s ∧ IsAscii s := by
  induction s generalizing p with
  | nil => exact iff_of_true trivial ⟨rfl, fun c hc ↦ absurd hc List.not_mem_nil⟩
  | cons c s ih =>
    rw [List.length_cons] at h
    rw [StandsAt, Nat.mod_eq_of_lt (by omega), Mem.load_one, not_differs_iff, ih (by omega),
      List.length_cons, Mem.slice_succ, List.cons.injEq, IsAscii, IsAscii, List.forall_mem_cons,
      add_assoc]
    tauto

theorem StandsAt.of_prefix (h : StandsAt m data p s) (hu : u <+: s) : StandsAt m data p u := by
  obtain ⟨v, rfl⟩ := hu
  induction u generalizing p with
  | nil => trivial
  | cons c u ih => exact ⟨h.1, ih h.2⟩

/-! ## Lists in memory -/

theorem append_eq_slice_iff (x y : List UInt8) :
    x ++ s ++ y = m.slice data n ↔ x.length + s.length + y.length = n ∧ m.slice data x.length = x
      ∧ m.slice (data + x.length) s.length = s
      ∧ m.slice (data + (x.length + s.length)) y.length = y := by
  constructor
  · intro h
    have hlen := congrArg List.length h
    simp only [List.length_append, Mem.length_slice] at hlen
    rw [← hlen, Mem.slice_add, Mem.slice_add] at h
    obtain ⟨hxs, hy⟩ := List.append_inj h (by simp)
    obtain ⟨hx, hs⟩ := List.append_inj hxs (by simp)
    exact ⟨hlen, hx.symm, hs.symm, hy.symm⟩
  · rintro ⟨rfl, hx, hs, hy⟩
    rw [Mem.slice_add, Mem.slice_add, hx, hs, hy]

theorem noticed_slice_iff : Noticed s (m.slice data n)
    ↔ ∃ p, p + 1 < n ∧ p + s.length ≤ n ∧ m.slice (data + p) s.length = s ∧ IsAscii s := by
  constructor
  · rintro ⟨x, y, h, hlt, hascii⟩
    rw [Mem.length_slice] at hlt
    obtain ⟨hlen, -, hs, -⟩ := (append_eq_slice_iff x y).mp h
    exact ⟨x.length, hlt, by omega, hs, hascii⟩
  · rintro ⟨p, hlt, hle, hs, hascii⟩
    refine ⟨m.slice data p, m.slice (data + (p + s.length)) (n - (p + s.length)), ?_, ?_, hascii⟩
    · rw [append_eq_slice_iff]
      simp only [Mem.length_slice]
      exact ⟨by omega, trivial, hs, trivial⟩
    · rwa [Mem.length_slice, Mem.length_slice]

theorem isSuffix_slice_iff : s <:+ m.slice data n
    ↔ s.length ≤ n ∧ m.slice (data + (n - s.length)) s.length = s := by
  constructor
  · rintro ⟨x, h⟩
    rw [← List.append_nil (x ++ s), append_eq_slice_iff] at h
    obtain ⟨hlen, -, hs, -⟩ := h
    rw [List.length_nil] at hlen
    have hx : x.length = n - s.length := by omega
    rw [hx] at hs
    exact ⟨by omega, hs⟩
  · rintro ⟨hle, hs⟩
    refine ⟨m.slice data (n - s.length), ?_⟩
    rw [← List.append_nil (_ ++ s), append_eq_slice_iff]
    simp only [Mem.length_slice, List.length_nil]
    exact ⟨by omega, trivial, hs, rfl⟩

end

/-! ## The loops -/

section

variable {m : Mem} {data p n i k size : ℕ} {s t : List UInt8}

theorem searchLoop_val_or :
    (searchLoop data s i k n m).val = 0 ∨ (searchLoop data s i k n m).val = -1 := by
  induction n generalizing i k with
  | zero => exact Or.inr rfl
  | succ n ih =>
    rw [searchLoop]
    split
    · exact Or.inl rfl
    · rw [bind_val, (silent_compareAt data i 0 s).mem]
      exact ih

theorem searchLoop_val_found : (searchLoop data s i s.length n m).val = 0 ↔ 0 < n := by
  cases n with
  | zero => exact iff_of_false (Int.negSucc_ne_zero 0) (lt_irrefl 0)
  | succ n =>
    rw [searchLoop, if_pos rfl]
    exact iff_of_true rfl n.succ_pos

/-- **A match counts** unless it is that of the last round. -/
theorem searchLoop_val_iff (hk : k ≠ s.length) :
    (searchLoop data s i k n m).val = 0
      ↔ ∃ p, i ≤ p ∧ p + 1 < i + n ∧ StandsAt m data p s := by
  induction n generalizing i k with
  | zero =>
    apply iff_of_false (Int.negSucc_ne_zero 0)
    rintro ⟨p, hle, hlt, -⟩
    omega
  | succ n ih =>
    rw [searchLoop, if_neg hk, bind_val, (silent_compareAt data i 0 s).mem]
    have hmatch := @compareAt_val_eq_iff data i 0 m s
    rw [Nat.zero_add, Nat.add_zero] at hmatch
    by_cases hstands : StandsAt m data i s
    · rw [hmatch.mpr hstands, searchLoop_val_found]
      constructor
      · exact fun hn ↦ ⟨i, le_rfl, by omega, hstands⟩
      · rintro ⟨p, hle, hlt, -⟩
        omega
    · rw [ih fun h ↦ hstands (hmatch.mp h)]
      constructor
      · rintro ⟨p, hle, hlt, hp⟩
        exact ⟨p, by omega, by omega, hp⟩
      · rintro ⟨p, hle, hlt, hp⟩
        obtain rfl | hne := hle.eq_or_lt
        · exact absurd hp hstands
        · exact ⟨p, hne, by omega, hp⟩

theorem exists_first (h : StandsAt m data p s) :
    ∃ q, q ≤ p ∧ StandsAt m data q s ∧ ∀ r, r < q → ¬ StandsAt m data r s := by
  induction p using Nat.strong_induction_on with
  | _ p ih =>
    by_cases hall : ∀ r, r < p → ¬ StandsAt m data r s
    · exact ⟨p, le_rfl, h, hall⟩
    · push Not at hall
      obtain ⟨r, hlt, hr⟩ := hall
      obtain ⟨q, hle, hq⟩ := ih r hlt hr
      exact ⟨q, hle.trans hlt.le, hq⟩

/-! ## Frames with a payload -/

theorem payloadSize_eq (hle : data ≤ size) (hsize : size < 2 ^ 32) :
    payloadSize size data = size - data := by
  rw [payloadSize]
  omega

/-- Characters are compared in the payload only, up to the first match. -/
theorem SearchFits.add_lt (hfits : SearchFits size data s m size) (hle : data ≤ size)
    (hsize : size < 2 ^ 32) (hi : i < size - data) (hk : k < (searched s).length)
    (hfirst : ∀ q, q < i → ¬ StandsAt m data q (searched s))
    (hstands : StandsAt m data i ((searched s).take k)) : i + k < size - data := by
  by_contra hge
  -- the first character behind the payload
  have hpre : (searched s).take (size - data - i) <+: (searched s).take k :=
    List.take_prefix_take_left (by omega)
  have hread := hfits i (size - data - i) (by rwa [payloadSize_eq hle hsize]) (by omega) hfirst
    (hstands.of_prefix hpre)
  rw [Nat.add_sub_cancel' hi.le, Nat.mod_eq_of_lt (by omega)] at hread
  omega

theorem SearchFits.exists_le (hfits : SearchFits size data s m size) (hle : data ≤ size)
    (hsize : size < 2 ^ 32) (hne : searched s ≠ []) (hp : p < size - data)
    (hstands : StandsAt m data p (searched s)) :
    ∃ q, q ≤ p ∧ q + (searched s).length ≤ size - data ∧ StandsAt m data q (searched s) := by
  obtain ⟨q, hqp, hq, hfirst⟩ := exists_first hstands
  have hpos := List.length_pos_of_ne_nil hne
  have hlt := hfits.add_lt hle hsize (hqp.trans_lt hp) (Nat.sub_one_lt hpos.ne') hfirst
    (hq.of_prefix (List.take_prefix _ _))
  exact ⟨q, hqp, by omega, hq⟩

theorem noticed_iff (hsize : n < 2 ^ 32) : Noticed s (m.slice data n)
    ↔ ∃ p, p + 1 < n ∧ p + s.length ≤ n ∧ StandsAt m data p s := by
  rw [noticed_slice_iff]
  refine exists_congr fun p ↦ and_congr_right fun _ ↦ and_congr_right fun hle ↦ ?_
  rw [standsAt_iff (by omega)]

theorem runsOut_iff (hsize : n < 2 ^ 32) : RunsOut s (m.slice data n)
    ↔ ∃ k, 0 < k ∧ k < s.length ∧ k ≤ n ∧ StandsAt m data (n - k) (s.take k) := by
  constructor
  · rintro ⟨u, v, rfl, hu, hv, hascii, hsuffix⟩
    obtain ⟨hle, hslice⟩ := isSuffix_slice_iff.mp hsuffix
    have hv := List.length_pos_of_ne_nil hv
    refine ⟨u.length, List.length_pos_of_ne_nil hu, ?_, hle, ?_⟩
    · rw [List.length_append]
      omega
    · rw [List.take_left, standsAt_iff (by omega)]
      exact ⟨hslice, hascii⟩
  · rintro ⟨k, hpos, hk, hle, hstands⟩
    have hlen : (s.take k).length = k := List.length_take_of_le hk.le
    rw [standsAt_iff (by omega)] at hstands
    obtain ⟨hslice, hascii⟩ := hstands
    refine ⟨s.take k, s.drop k, List.take_append_drop k s, ?_, ?_, hascii, ?_⟩
    · exact List.ne_nil_of_length_pos (by omega)
    · exact List.ne_nil_of_length_pos (by rw [List.length_drop]; omega)
    · rw [isSuffix_slice_iff, hlen]
      rw [hlen] at hslice
      exact ⟨hle, hslice⟩

/-- **Nothing behind the frame is read** when the search is over before the start of the string is
compared at the end of the payload. -/
theorem searchFits_iff (hle : data ≤ size) (hsize : size < 2 ^ 32) (hne : searched s ≠ []) :
    SearchFits size data s m size ↔
      (RunsOut (searched s) (m.slice data (size - data)) →
        Noticed (searched s) (m.slice data (size - data))) := by
  have hn : size - data < 2 ^ 32 := (Nat.sub_le _ _).trans_lt hsize
  rw [noticed_iff hn, runsOut_iff hn]
  constructor
  · rintro hfits ⟨k, hpos, hk, hkn, hstands⟩
    by_contra hnone
    have hlt := hfits.add_lt hle hsize (by omega) hk ?_ hstands
    · omega
    · intro q hq hmatch
      obtain ⟨r, hrq, hr, hrs⟩ := hfits.exists_le hle hsize hne (by omega) hmatch
      exact hnone ⟨r, by omega, hr, hrs⟩
  · intro hends i k hi hk hfirst hstands
    rw [payloadSize_eq hle hsize] at hi
    by_cases hlt : i + k < size - data
    · rw [Nat.mod_eq_of_lt (by omega)]
      omega
    · have hpre : (searched s).take (size - data - i) <+: (searched s).take k :=
        List.take_prefix_take_left (by omega)
      obtain ⟨p, -, hp, hmatch⟩ := hends ⟨size - data - i, by omega, by omega, by omega, by
        rw [Nat.sub_sub_self hi.le]
        exact hstands.of_prefix hpre⟩
      exact absurd hmatch (hfirst p (by omega))

theorem searchFrom_val_iff (hle : data ≤ size) (hsize : size < 2 ^ 32) :
    (searchFrom size data s m).val = 0 ↔ if searched s = [] then 0 < size - data
      else ∃ p, p + 1 < size - data ∧ StandsAt m data p (searched s) := by
  rw [searchFrom, ← searched, payloadSize_eq hle hsize]
  split
  · rename_i hnil
    rw [hnil]
    exact searchLoop_val_found (s := [])
  · rename_i hne
    rw [searchLoop_val_iff (List.length_pos_of_ne_nil hne).ne]
    simp only [Nat.zero_le, true_and, Nat.zero_add]

theorem Noticed.isInfix {text : List UInt8} (h : Noticed s text) : s <:+: text := by
  obtain ⟨x, y, h, -, -⟩ := h
  exact ⟨x, y, h⟩

theorem searched_eq (hn : n < 2 ^ 32) (h : s <:+: m.slice data n) : searched s = s := by
  have hlen := h.length_le
  rw [Mem.length_slice] at hlen
  rw [searched, Nat.mod_eq_of_lt (hlen.trans_lt hn), List.take_length]

/-- With nothing read behind the frame, the matches that count are those in the payload. -/
theorem SearchFits.val_iff (hfits : SearchFits size data s m size) (hle : data ≤ size)
    (hsize : size < 2 ^ 32) (hne : searched s ≠ []) :
    (searchFrom size data s m).val = 0
      ↔ Noticed (searched s) (m.slice data (size - data)) := by
  rw [searchFrom_val_iff hle hsize, if_neg hne, noticed_iff ((Nat.sub_le _ _).trans_lt hsize)]
  constructor
  · rintro ⟨p, hlt, hstands⟩
    obtain ⟨q, hqp, hq, hqs⟩ := hfits.exists_le hle hsize hne (by omega) hstands
    exact ⟨q, by omega, hq, hqs⟩
  · rintro ⟨p, hlt, -, hstands⟩
    exact ⟨p, hlt, hstands⟩

theorem searchFrom_iff_of_nil (hle : data ≤ size) (hsize : size < 2 ^ 32) (hs : s ≠ [])
    (hnil : searched s = []) :
    (((searchFrom size data s m).val = 0 ↔ s <:+: m.slice data (size - data))
        ∧ SearchFits size data s m size) ↔ m.slice data (size - data) = [] := by
  have hoccurs : ¬ s <:+: m.slice data (size - data) := fun h ↦
    hs ((searched_eq ((Nat.sub_le _ _).trans_lt hsize) h).symm.trans hnil)
  have hfits : SearchFits size data s m size := by
    intro i k _ hk
    rw [hnil] at hk
    exact absurd hk (Nat.not_lt_zero k)
  rw [and_iff_left hfits, searchFrom_val_iff hle hsize, if_pos hnil, iff_false_right hoccurs,
    ← List.length_eq_zero_iff, Mem.length_slice, Nat.not_lt, Nat.le_zero]

theorem searchFrom_iff (hle : data ≤ size) (hsize : size < 2 ^ 32) (hs : s ≠ []) :
    (((searchFrom size data s m).val = 0 ↔ s <:+: m.slice data (size - data))
        ∧ SearchFits size data s m size)
      ↔ Noticed s (m.slice data (size - data)) ∨
        ¬ s <:+: m.slice data (size - data)
          ∧ (searched s = [] → m.slice data (size - data) = [])
          ∧ ¬ Noticed (searched s) (m.slice data (size - data))
          ∧ ¬ RunsOut (searched s) (m.slice data (size - data)) := by
  have hn : size - data < 2 ^ 32 := (Nat.sub_le _ _).trans_lt hsize
  by_cases hnil : searched s = []
  · rw [searchFrom_iff_of_nil hle hsize hs hnil]
    have hoccurs : ¬ s <:+: m.slice data (size - data) := fun h ↦
      hs ((searched_eq hn h).symm.trans hnil)
    constructor
    · intro hempty
      refine Or.inr ⟨hoccurs, fun _ ↦ hempty, ?_, ?_⟩
      · rintro ⟨x, y, -, hlt, -⟩
        rw [hempty] at hlt
        exact absurd hlt (Nat.not_lt_zero _)
      · rintro ⟨u, v, huv, hu, -⟩
        rw [hnil] at huv
        exact hu (List.append_eq_nil_iff.mp huv).1
    · rintro (hnoticed | ⟨-, hempty, -⟩)
      · exact absurd hnoticed.isInfix hoccurs
      · exact hempty hnil
  · constructor
    · rintro ⟨hval, hfits⟩
      rw [hfits.val_iff hle hsize hnil] at hval
      by_cases hoccurs : s <:+: m.slice data (size - data)
      · have hnoticed := hval.mpr hoccurs
        rw [searched_eq hn hoccurs] at hnoticed
        exact Or.inl hnoticed
      · have hnone := fun h ↦ hoccurs (hval.mp h)
        refine Or.inr ⟨hoccurs, fun h ↦ absurd h hnil, hnone, ?_⟩
        exact fun hends ↦ hnone ((searchFits_iff hle hsize hnil).mp hfits hends)
    · rintro (hnoticed | ⟨hoccurs, -, hnone, hends⟩)
      · have hwhole := searched_eq hn hnoticed.isInfix
        have hfits : SearchFits size data s m size := by
          rw [searchFits_iff hle hsize hnil, hwhole]
          exact fun _ ↦ hnoticed
        rw [hfits.val_iff hle hsize hnil, hwhole]
        exact ⟨iff_of_true hnoticed hnoticed.isInfix, hfits⟩
      · have hfits : SearchFits size data s m size :=
          (searchFits_iff hle hsize hnil).mpr fun h ↦ absurd h hends
        rw [hfits.val_iff hle hsize hnil]
        exact ⟨iff_of_false hnone hoccurs, hfits⟩

/-! ## Frames -/

variable {proto b : ℕ} {text : List UInt8}

theorem headerBytes_tcp (m : Mem) : headerBytes 6 m = transport m + doffBytes m := by
  rw [headerBytes, if_pos rfl]

theorem headerBytes_udp (m : Mem) : headerBytes 17 m = transport m + 8 := by
  rw [headerBytes, if_neg (by decide)]

theorem returns_checkData_iff (hproto : proto = 6 ∨ proto = 17) {v : ℤ} :
    (checkData size proto s).Returns m v
      ↔ (searchFrom size (headerBytes proto m) s).Returns m v := by
  obtain rfl | rfl := hproto
  · rw [headerBytes_tcp]
    simp only [checkData, returns_bind, read_val, read_mem, iphdrlen_fold, transport_fold,
      doffBytes_fold]
  · rw [headerBytes_udp]
    simp only [checkData, returns_bind, read_val, read_mem, iphdrlen_fold, transport_fold]

theorem readsBelow_checkData (hproto : proto = 6 ∨ proto = 17) {b : ℕ} :
    (checkData size proto s).ReadsBelow m b
      ↔ headerEnd proto m ≤ b ∧ SearchFits size (headerBytes proto m) s m b := by
  obtain rfl | rfl := hproto
  · rw [headerBytes_tcp, headerEnd, if_pos rfl]
    simp only [checkData, readsBelow_bind, readsBelow_read, read_val, read_mem, iphdrlen_fold,
      transport_fold, doffBytes_fold, readsBelow_searchFrom, one_ne_zero, false_or]
    have hle := le_transport m
    rw [← and_assoc]
    refine and_congr_left fun _ ↦ ?_
    omega
  · rw [headerBytes_udp, headerEnd, if_neg (by decide)]
    simp only [checkData, readsBelow_bind, readsBelow_read, read_val, read_mem, iphdrlen_fold,
      transport_fold, readsBelow_searchFrom, one_ne_zero, false_or]

theorem checkData_val_or (hproto : proto = 6 ∨ proto = 17) :
    (checkData size proto s m).val = 0 ∨ (checkData size proto s m).val = -1 := by
  have hzero : (checkData size proto s).Returns m 0
      ↔ (searchFrom size (headerBytes proto m) s).Returns m 0 := returns_checkData_iff hproto
  have hone : (checkData size proto s).Returns m (-1)
      ↔ (searchFrom size (headerBytes proto m) s).Returns m (-1) := returns_checkData_iff hproto
  exact (or_congr hzero hone).mpr searchLoop_val_or

theorem headerBytes_lt (proto : ℕ) (m : Mem) : headerBytes proto m < 2 ^ 32 := by
  have htransport : transport m ≤ 74 := by
    rw [transport, iphdrlen]
    omega
  have hdoff : doffBytes m ≤ 60 := by
    have hlt := m.load_lt (transport m + 12) 1
    rw [doffBytes]
    omega
  rw [headerBytes]
  split <;> omega

/-- Headers that are longer than the frame: the first comparison already reads behind it. -/
theorem SearchFits.le_of_ne_nil (hfits : SearchFits size data s m size) (hdata : data < 2 ^ 32)
    (hne : searched s ≠ []) : data ≤ size := by
  by_contra hgt
  have hread := hfits 0 0 (by rw [payloadSize]; omega) (List.length_pos_of_ne_nil hne)
    (fun q hq ↦ absurd hq (Nat.not_lt_zero q)) trivial
  rw [Nat.zero_mod] at hread
  omega

theorem searchFrom_nil_iff (hdata : data < 2 ^ 32) (hsize : size < 2 ^ 32) :
    (((searchFrom size data [] m).val = 0 ↔ [] <:+: text) ∧ SearchFits size data [] m b)
      ↔ size ≠ data := by
  have hfits : SearchFits size data [] m b := fun i k _ hk ↦ absurd hk (Nat.not_lt_zero k)
  have hval : (searchFrom size data [] m).val = 0 ↔ 0 < payloadSize size data :=
    searchLoop_val_found (s := [])
  rw [and_iff_left hfits, hval, iff_true_right (List.nil_infix), payloadSize]
  omega

theorem not_searchFrom_of_lt (hlt : size < data) (hdata : data < 2 ^ 32) (hs : s ≠ []) :
    ¬(((searchFrom size data s m).val = 0 ↔ s <:+: []) ∧ SearchFits size data s m size) := by
  rintro ⟨hval, hfits⟩
  by_cases hnil : searched s = []
  · have hzero : (searchFrom size data s m).val = 0 := by
      rw [searchFrom, ← searched, hnil]
      refine (searchLoop_val_found (s := [])).mpr ?_
      rw [payloadSize]
      omega
    exact hs (List.infix_nil.mp (hval.mp hzero))
  · exact absurd (hfits.le_of_ne_nil hdata hnil) (Nat.not_le_of_lt hlt)

theorem searchesPayload_iff_and (hproto : proto = 6 ∨ proto = 17) :
    SearchesPayload size proto s m ↔ headerEnd proto m ≤ frameEnd size
      ∧ ((searchFrom size (headerBytes proto m) s m).val = 0 ↔ s <:+: payload size proto m)
      ∧ SearchFits size (headerBytes proto m) s m (frameEnd size) := by
  have hval : (checkData size proto s).Returns m 0
      ↔ (searchFrom size (headerBytes proto m) s).Returns m 0 := returns_checkData_iff hproto
  have hreads : (checkData size proto s).ReadsBelow m (frameEnd size)
      ↔ headerEnd proto m ≤ frameEnd size
        ∧ SearchFits size (headerBytes proto m) s m (frameEnd size) := readsBelow_checkData hproto
  constructor
  · rintro ⟨hfound, -, hbelow⟩
    obtain ⟨hend, hfits⟩ := hreads.mp hbelow
    exact ⟨hend, hval.symm.trans hfound, hfits⟩
  · rintro ⟨hend, hfound, hfits⟩
    refine ⟨hval.trans hfound, fun hne ↦ ?_, hreads.mpr ⟨hend, hfits⟩⟩
    exact (checkData_val_or hproto).resolve_left hne

theorem headerEnd_pos (proto : ℕ) (m : Mem) : 0 < headerEnd proto m := by
  rw [headerEnd]
  split <;> omega

/-- **The search of a frame.** It is right for a string that occurs before the last byte of the
payload and is in ASCII, and for one that does not occur and whose start does not stand at the end
of the payload. -/
theorem searchesPayload_iff (hproto : proto = 6 ∨ proto = 17) (hsize : size < 2 ^ 32) :
    SearchesPayload size proto s m ↔ SearchSucceeds size proto s m := by
  rw [searchesPayload_iff_and hproto, SearchSucceeds]
  refine and_congr_right fun hend ↦ ?_
  have hheader := headerBytes_lt proto m
  obtain hfits | hneg := Nat.lt_or_ge size (2 ^ 31)
  · have hframe : frameEnd size = size := if_pos hfits
    by_cases hs : s = []
    · subst hs
      rw [if_pos rfl]
      exact searchFrom_nil_iff hheader hsize
    · rw [if_neg hs, payload, hframe]
      obtain hlt | hle := Nat.lt_or_ge size (headerBytes proto m)
      · rw [Nat.sub_eq_zero_of_le hlt.le]
        apply iff_of_false (not_searchFrom_of_lt hlt hheader hs)
        exact fun h ↦ absurd h.1 (Nat.not_le_of_lt hlt)
      · rw [and_iff_right hle]
        exact searchFrom_iff hle hsize hs
  · have hframe : frameEnd size = 0 := if_neg (Nat.not_lt_of_ge hneg)
    rw [hframe] at hend
    exact absurd (headerEnd_pos proto m) (Nat.not_lt_of_le hend)

end

/-- A UDP packet with the payload `abc`. -/
def abcFrame : Frame := frameOf
  [0, 0, 0, 0, 0, 0, 0, 0, 0, 0, 0, 0, 8, 0,
    0x45, 0, 0, 31, 0, 0, 0, 0, 64, 17, 0, 0, 10, 0, 0, 1, 10, 0, 0, 2,
    0, 53, 0, 53, 0, 11, 0, 0, 97, 98, 99] (by decide)

theorem payload_abcFrame : payload abcFrame.len 17 abcFrame.mem = [97, 98, 99] := by
  have hlen : frameEnd abcFrame.len = 45 := if_pos (show 45 < 2 ^ 31 by norm_num)
  rw [payload, hlen]
  decide

/-- The last two bytes are found. -/
theorem abcFrame_searches : SearchesPayload abcFrame.len 17 [98, 99] abcFrame.mem := by
  have hlen : frameEnd abcFrame.len = 45 := if_pos (show 45 < 2 ^ 31 by norm_num)
  rw [searchesPayload_iff (Or.inr rfl) abcFrame.len_lt, SearchSucceeds, payload_abcFrame, hlen,
    if_neg (by decide)]
  exact ⟨by decide, by decide, Or.inl ⟨[97], [], rfl, by decide, by simp [IsAscii]⟩⟩

/-- **The last byte is not found.** -/
theorem abcFrame_not_found : ¬∀ (size proto : ℕ) (s : List UInt8) (m : Mem),
    proto = 6 ∨ proto = 17 → size < 2 ^ 32 → 0 ∉ s → SearchesPayload size proto s m := by
  intro hall
  have hfound := (hall abcFrame.len 17 [99] abcFrame.mem (Or.inr rfl) abcFrame.len_lt
    (by decide)).found
  rw [payload_abcFrame] at hfound
  exact absurd (hfound.mpr ⟨[97, 98], [], rfl⟩) (by decide)

end AllProjects.PcapSniffer
