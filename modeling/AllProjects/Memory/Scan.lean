import Mathlib

/-!
# Reading numbers and addresses from a text

The conversions `%d` and `%[^:]` of `sscanf` read the front of a text and say nothing about the rest
of it, so a text that is accepted need not be a number or a name. `inet_pton` reads the whole text,
and `inet_ntop` writes one. Texts are lists of bytes without the NUL.
-/

namespace AllProjects

/-- The bytes of a text. -/
def ascii (text : String) : List UInt8 := text.toList.map fun c ↦ c.toNat.toUInt8

/-! ## One conversion -/

/-- What one conversion of `sscanf` comes to: the text ends before it, or does not match, or a value
is read. -/
inductive Scan (α : Type*)
  | eof
  | mismatch
  | value (a : α)
  deriving DecidableEq, Repr

/-- What `sscanf` with the one conversion returns. -/
def Scan.ret {α : Type*} : Scan α → ℤ
  | .eof => -1
  | .mismatch => 0
  | .value _ => 1

/-- `isspace` -/
def isSpace (b : UInt8) : Bool := b = 32 || (9 ≤ b && b ≤ 13)

/-- `isdigit` -/
def isDigit (b : UInt8) : Bool := 48 ≤ b && b ≤ 57

/-- The value of decimal digits. -/
def decimal (digits : List UInt8) : ℕ := digits.foldl (fun n b ↦ 10 * n + (b.toNat - 48)) 0

/-- The text behind a sign. -/
def afterSign : List UInt8 → List UInt8
  | [] => []
  | b :: bs => if b = 43 ∨ b = 45 then bs else b :: bs

/-- `%d`: white space is skipped, then there are a sign and digits. -/
def scanInt (text : List UInt8) : Scan ℤ :=
  let text := text.dropWhile isSpace
  let digits := (afterSign text).takeWhile isDigit
  if text = [] then .eof
  else if digits = [] then .mismatch
  else .value (if text.head? = some 45 then -decimal digits else decimal digits)

/-- What `%d` leaves of the text. -/
def restOfInt (text : List UInt8) : List UInt8 :=
  (afterSign (text.dropWhile isSpace)).dropWhile isDigit

/-- The text as a whole is read by `%d`. -/
def IsNumber (text : List UInt8) : Prop := (scanInt text).ret = 1 ∧ restOfInt text = []

instance (text : List UInt8) : Decidable (IsNumber text) := inferInstanceAs (Decidable (_ ∧ _))

/-- `%[^x]` for a byte `x`: the text up to it, when that is not empty. -/
def scanUntil (x : UInt8) (text : List UInt8) : Scan (List UInt8) :=
  if text = [] then .eof
  else if text.takeWhile (· ≠ x) = [] then .mismatch
  else .value (text.takeWhile (· ≠ x))

theorem scanUntil_eq_value {x : UInt8} {text : List UInt8} (h : text.takeWhile (· ≠ x) ≠ []) :
    scanUntil x text = .value (text.takeWhile (· ≠ x)) := by
  have hne : text ≠ [] := by
    rintro rfl
    exact h rfl
  rw [scanUntil, if_neg hne, if_neg h]

theorem ret_scanUntil_ne_one {x : UInt8} {text : List UInt8} (h : text.takeWhile (· ≠ x) = []) :
    (scanUntil x text).ret ≠ 1 := by
  by_cases hnil : text = []
  · rw [scanUntil, if_pos hnil]
    decide
  · rw [scanUntil, if_neg hnil, if_pos h]
    decide

/-! ## Dotted addresses -/

/-- One to three digits with a value below 256. -/
def IsOctet (text : List UInt8) : Prop :=
  1 ≤ text.length ∧ text.length ≤ 3 ∧ (∀ b ∈ text, isDigit b = true) ∧ decimal text ≤ 255

instance (text : List UInt8) : Decidable (IsOctet text) := inferInstanceAs (Decidable (_ ∧ _))

/-- Four octets with dots between them. -/
def IsDotted (text : List UInt8) : Prop :=
  (text.splitOn 46).length = 4 ∧ ∀ part ∈ text.splitOn 46, IsOctet part

instance (text : List UInt8) : Decidable (IsDotted text) := inferInstanceAs (Decidable (_ ∧ _))

/-- `inet_pton` for `AF_INET`: the bytes of the address, which are stored when there is one. -/
def inetPton (text : List UInt8) : Option (List UInt8) :=
  if IsDotted text then some ((text.splitOn 46).map fun part ↦ (decimal part).toUInt8) else none

/-- What `inet_pton` returns. It fails with -1 only for other address families. -/
def inetPtonRet (text : List UInt8) : ℤ := if IsDotted text then 1 else 0

theorem exists_inetPton {text : List UInt8} (h : IsDotted text) :
    ∃ address, inetPton text = some address :=
  ⟨_, if_pos h⟩

theorem join_splitOn (text : List UInt8) : [46].intercalate (text.splitOn 46) = text :=
  List.intercalate_splitOn 46

/-- A text in four parts is written out with its three dots. -/
theorem exists_four_parts {text : List UInt8} (h : (text.splitOn 46).length = 4) :
    ∃ p q r s, text.splitOn 46 = [p, q, r, s] ∧ text = p ++ 46 :: (q ++ 46 :: (r ++ 46 :: s)) := by
  obtain ⟨p, q, r, s, hparts⟩ := List.length_eq_four.mp h
  refine ⟨p, q, r, s, hparts, ?_⟩
  have hjoin := join_splitOn text
  rw [hparts] at hjoin
  rw [← hjoin]
  simp [List.intercalate, List.intersperse]

/-- An address fits into `INET_ADDRSTRLEN` bytes with its NUL. -/
theorem IsDotted.length_le {text : List UInt8} (h : IsDotted text) : text.length ≤ 15 := by
  obtain ⟨p, q, r, s, hparts, hjoin⟩ := exists_four_parts h.1
  have hoctet := h.2
  rw [hparts] at hoctet
  have hp := (hoctet p (by simp)).2.1
  have hq := (hoctet q (by simp)).2.1
  have hr := (hoctet r (by simp)).2.1
  have hs := (hoctet s (by simp)).2.1
  rw [hjoin]
  simp only [List.length_append, List.length_cons]
  omega

theorem IsDotted.ne_nil {text : List UInt8} (h : IsDotted text) : text ≠ [] := by
  obtain ⟨p, q, r, s, -, rfl⟩ := exists_four_parts h.1
  exact List.append_ne_nil_of_right_ne_nil _ (List.cons_ne_nil _ _)

theorem IsDotted.isDigit_or {text : List UInt8} (h : IsDotted text) {b : UInt8} (hb : b ∈ text) :
    isDigit b = true ∨ b = 46 := by
  obtain ⟨p, q, r, s, hparts, hjoin⟩ := exists_four_parts h.1
  have hoctet := h.2
  rw [hparts] at hoctet
  have hdigits : ∀ part ∈ [p, q, r, s], b ∈ part → isDigit b = true := by
    intro part hpart hmem
    exact (hoctet part hpart).2.2.1 b hmem
  rw [hjoin] at hb
  simp only [List.mem_append, List.mem_cons] at hb
  obtain hp | rfl | hq | rfl | hr | rfl | hs := hb
  · exact Or.inl (hdigits p (by simp) hp)
  · exact Or.inr rfl
  · exact Or.inl (hdigits q (by simp) hq)
  · exact Or.inr rfl
  · exact Or.inl (hdigits r (by simp) hr)
  · exact Or.inr rfl
  · exact Or.inl (hdigits s (by simp) hs)

theorem IsDotted.takeWhile_eq {text : List UInt8} (h : IsDotted text) {x : UInt8}
    (hdigit : isDigit x = false) (hdot : x ≠ 46) : text.takeWhile (· ≠ x) = text := by
  rw [List.takeWhile_eq_self_iff]
  intro b hb
  rw [decide_eq_true_iff]
  rintro rfl
  obtain hb | rfl := h.isDigit_or hb
  · exact absurd (hdigit.symm.trans hb) (by decide)
  · exact hdot rfl

/-! ## Writing an address -/

/-- The digit of a number below 10. -/
def digitOf (n : ℕ) : UInt8 := UInt8.ofNat (48 + n)

/-- A byte in decimal. -/
def octetText (b : UInt8) : List UInt8 :=
  if b.toNat < 10 then [digitOf b.toNat]
  else if b.toNat < 100 then [digitOf (b.toNat / 10), digitOf (b.toNat % 10)]
  else [digitOf (b.toNat / 100), digitOf (b.toNat / 10 % 10), digitOf (b.toNat % 10)]

/-- `inet_ntop` for `AF_INET`: the text of an address. -/
def inetNtop : List UInt8 → List UInt8
  | [] => []
  | [b] => octetText b
  | b :: bs => octetText b ++ 46 :: inetNtop bs

theorem digitOf_ne_zero {n : ℕ} (h : n < 10) : digitOf n ≠ 0 := by
  intro heq
  have hval : (digitOf n).toNat = 48 + n := by
    rw [digitOf, UInt8.toNat_ofNat']
    omega
  rw [heq] at hval
  exact absurd hval (by simp; omega)

theorem zero_not_mem_octetText (b : UInt8) : 0 ∉ octetText b := by
  have hb : b.toNat < 256 := b.toNat_lt
  have hunits := digitOf_ne_zero (Nat.mod_lt b.toNat (show 0 < 10 by decide))
  rw [octetText]
  split_ifs with h10 h100
  · have hdigit := digitOf_ne_zero h10
    simp [hdigit.symm]
  · have htens := digitOf_ne_zero (show b.toNat / 10 < 10 by omega)
    simp [htens.symm, hunits.symm]
  · have hhundreds := digitOf_ne_zero (show b.toNat / 100 < 10 by omega)
    have htens := digitOf_ne_zero (show b.toNat / 10 % 10 < 10 by omega)
    simp [hhundreds.symm, htens.symm, hunits.symm]

theorem length_octetText (b : UInt8) : 1 ≤ (octetText b).length ∧ (octetText b).length ≤ 3 := by
  rw [octetText]
  split_ifs <;> simp

theorem zero_not_mem_inetNtop (bs : List UInt8) : 0 ∉ inetNtop bs := by
  induction bs with
  | nil => exact List.not_mem_nil
  | cons b bs ih =>
    cases bs with
    | nil => exact zero_not_mem_octetText b
    | cons c bs =>
      rw [inetNtop, List.mem_append, List.mem_cons]
      rintro (h | h | h)
      · exact zero_not_mem_octetText b h
      · exact absurd h (by decide)
      · exact ih h
      · exact fun h ↦ List.cons_ne_nil _ _ h

/-- Up to three digits and a dot for each byte, and no dot behind the last. -/
theorem length_inetNtop {bs : List UInt8} (h : bs ≠ []) :
    1 ≤ (inetNtop bs).length ∧ (inetNtop bs).length < 4 * bs.length := by
  induction bs with
  | nil => exact absurd rfl h
  | cons b bs ih =>
    have hoctet := length_octetText b
    cases bs with
    | nil =>
      rw [inetNtop, List.length_singleton]
      omega
    | cons c bs =>
      have hrest := ih (List.cons_ne_nil _ _)
      rw [inetNtop, List.length_append, List.length_cons, List.length_cons]
      · omega
      · exact fun h ↦ List.cons_ne_nil _ _ h

end AllProjects
