import AllProjects.FileManager.CopyFile

/-!
# The progress bar

`display_copy_status` draws a bar between two brackets of the popup: one mark for each round of its
loop, as long as `cur_size` is less than the size of the source. The column comes from two integer
divisions. The first, by the length of the bar, gives the number of bytes that a column stands for
and is stored in an `int`; the second is by that number.

For files below `2 ^ 31` bytes for each column the mark is in its frame exactly when there are at
least as many bytes as columns and `cur_size` has not reached the remainder of the first division.

The percentage beside the bar is a floating point number and left out.
-/

namespace AllProjects

namespace FileManager

/-! ## The column of the mark -/

/-- The conversion of a `long` to an `int`. -/
def toInt (z : ℤ) : ℤ := z.bmod (2 ^ 32)

/-- A division of `long`s does not trap. -/
def Divides (a b : ℤ) : Prop := b ≠ 0 ∧ ¬(a = -2 ^ 63 ∧ b = -1)

instance (a b : ℤ) : Decidable (Divides a b) := inferInstanceAs (Decidable (_ ∧ _))

/-- A division of `long`s. -/
def longDiv (a b : ℤ) : Option ℤ := if Divides a b then some (a.tdiv b) else none

/-- `st_bl`, the length of the bar. -/
def stBl (cols : ℤ) : ℤ := toInt (cols - 12)

/-- `st_bl_c`, the bytes of a column. -/
def stBlC (cols stSize : ℤ) : Option ℤ := (longDiv stSize (stBl cols)).map toInt

/-- `stat`, the column of the mark. -/
def markColumn (curSize stBlC : ℤ) : Option ℤ :=
  (longDiv curSize stBlC).map fun q ↦ toInt (q + 3)

theorem longDiv_eq_none_iff {a b : ℤ} : longDiv a b = none ↔ ¬Divides a b := by
  rw [longDiv, ite_eq_right_iff]
  exact ⟨fun h hdiv ↦ (by cases h hdiv), fun h hdiv ↦ absurd hdiv h⟩

theorem stBlC_eq_none_iff {cols stSize : ℤ} :
    stBlC cols stSize = none ↔ ¬Divides stSize (stBl cols) := by
  rw [stBlC, Option.map_eq_none_iff, longDiv_eq_none_iff]

theorem markColumn_eq_none_iff {curSize c : ℤ} :
    markColumn curSize c = none ↔ ¬Divides curSize c := by
  rw [markColumn, Option.map_eq_none_iff, longDiv_eq_none_iff]

/-- The divisions are by non-zero numbers, and the mark is between the brackets. -/
def MarkInFrame (cols stSize curSize : ℤ) : Prop :=
  ∃ c m, stBlC cols stSize = some c ∧ markColumn curSize c = some m ∧ 3 ≤ m ∧ m ≤ cols - 10

/-- For a bar of `bar` columns, in natural numbers. A column stands for `size / bar` bytes as long
as these fit into an `int`; from `2 ^ 31` on the number turns negative, and the marks go left. -/
def BarFits (bar size cur : ℕ) : Prop :=
  let step := size / bar % 2 ^ 32
  if step < 2 ^ 31 then 0 < step ∧ cur % (step * 2 ^ 32) < bar * step
  else (cur + (bar - 1) * (2 ^ 32 - step)) % ((2 ^ 32 - step) * 2 ^ 32) < bar * (2 ^ 32 - step)

instance (bar size cur : ℕ) : Decidable (BarFits bar size cur) :=
  inferInstanceAs (Decidable (if size / bar % 2 ^ 32 < 2 ^ 31 then _ else _))

theorem toInt_eq {z : ℤ} (hlo : -2 ^ 31 ≤ z) (hhi : z < 2 ^ 31) : toInt z = z := by
  rw [toInt, Int.bmod_def]
  split <;> omega

theorem toInt_natCast (n : ℕ) : toInt n
    = if n % 2 ^ 32 < 2 ^ 31 then ((n % 2 ^ 32 : ℕ) : ℤ) else -((2 ^ 32 - n % 2 ^ 32 : ℕ) : ℤ) := by
  rw [toInt, Int.bmod_def]
  split <;> split <;> omega

/-- The quotient has to be among the first columns, up to multiples of `2 ^ 32`. -/
theorem toInt_add_three {bar : ℕ} (hbar : bar + 2 < 2 ^ 31) (z : ℤ) :
    (3 ≤ toInt (z + 3) ∧ toInt (z + 3) ≤ bar + 2) ↔ z % 2 ^ 32 < bar := by
  rw [toInt, Int.bmod_def]
  split <;> omega

theorem div_mod_lt_iff {n k bar : ℕ} (hk : 0 < k) :
    n / k % 2 ^ 32 < bar ↔ n % (k * 2 ^ 32) < bar * k := by
  rw [← Nat.mod_mul_right_div_self, Nat.div_lt_iff_lt_mul hk]

theorem neg_emod_lt_iff {bar : ℕ} (hpos : 0 < bar) (hbar : bar < 2 ^ 31) (n : ℕ) :
    -(n : ℤ) % 2 ^ 32 < bar ↔ (n + (bar - 1)) % 2 ^ 32 < bar := by
  omega

/-- **The bar stays in its frame** under the condition that `BarFits` says, and under no other. -/
theorem markInFrame_iff {cols : ℕ} (hcols : 13 ≤ cols) (hint : cols < 2 ^ 31) (size cur : ℕ) :
    MarkInFrame cols size cur ↔ BarFits (cols - 12) size cur := by
  obtain ⟨bar, rfl⟩ := Nat.exists_eq_add_of_le' (show 12 ≤ cols by omega)
  have hbl : stBl (bar + 12 : ℕ) = bar := by
    rw [stBl, toInt_eq] <;> omega
  have hdiv : stBlC (bar + 12 : ℕ) size = some (toInt (size / bar : ℕ)) := by
    rw [stBlC, hbl, longDiv, if_pos ⟨by omega, by omega⟩]
    rfl
  have hframe : MarkInFrame (bar + 12 : ℕ) size cur
      ↔ ∃ q, longDiv cur (toInt (size / bar : ℕ)) = some q ∧ q % 2 ^ 32 < bar := by
    simp only [MarkInFrame, hdiv, Option.some_inj, markColumn, Option.map_eq_some_iff]
    constructor
    · rintro ⟨c, m, rfl, ⟨q, hq, rfl⟩, hlo, hhi⟩
      exact ⟨q, hq, (toInt_add_three (by omega) q).mp ⟨hlo, by omega⟩⟩
    · rintro ⟨q, hq, hlt⟩
      obtain ⟨hlo, hhi⟩ := (toInt_add_three (by omega) q).mpr hlt
      exact ⟨_, _, rfl, ⟨q, hq, rfl⟩, hlo, by omega⟩
  rw [hframe, Nat.add_sub_cancel, BarFits, toInt_natCast]
  have hmod := Nat.mod_lt (size / bar) (show 0 < 2 ^ 32 by decide)
  generalize size / bar % 2 ^ 32 = step at hmod ⊢
  split
  · -- a column stands for `step` bytes
    rw [longDiv]
    obtain rfl | hstep := Nat.eq_zero_or_pos step
    · rw [if_neg fun h ↦ h.1 rfl]
      exact iff_of_false (by rintro ⟨q, hq, -⟩; cases hq) (fun h ↦ (Nat.lt_irrefl 0) h.1)
    · rw [if_pos ⟨by omega, by omega⟩, and_iff_right hstep, ← div_mod_lt_iff hstep,
        ← Int.ofNat_tdiv]
      simp only [Option.some_inj, exists_eq_left']
      omega
  · have hstep : 0 < 2 ^ 32 - step := by omega
    generalize 2 ^ 32 - step = back at hstep ⊢
    rw [longDiv, if_pos ⟨by omega, by omega⟩, ← div_mod_lt_iff hstep, Int.tdiv_neg,
      ← Int.ofNat_tdiv, Nat.add_mul_div_right _ _ hstep]
    simp only [Option.some_inj, exists_eq_left']
    exact neg_emod_lt_iff (by omega) (by omega) _

/-- **Files that are not huge.** The mark needs a byte for each column, and `cur_size` may not have
reached the remainder. -/
theorem barFits_iff {bar size cur : ℕ} (hpos : 0 < bar) (hbar : bar < 2 ^ 31)
    (hsize : size / bar < 2 ^ 31) (hcur : cur < size) :
    BarFits bar size cur ↔ bar ≤ size ∧ cur < size - size % bar := by
  have hmul : bar * (size / bar) = size - size % bar := by
    have := Nat.div_add_mod size bar
    omega
  have hmod := Nat.mod_lt size hpos
  rw [BarFits, Nat.mod_eq_of_lt (show size / bar < 2 ^ 32 by omega), if_pos hsize, Nat.div_pos_iff,
    and_iff_right hpos, hmul]
  apply and_congr_right
  intro hle
  rw [Nat.mod_eq_of_lt]
  -- the size is below `2 * bar` steps
  have hstep : 0 < size / bar := Nat.div_pos hle hpos
  calc cur < bar * (size / bar) + bar := by omega
    _ ≤ bar * (size / bar) + bar * (size / bar) :=
      Nat.add_le_add_left (Nat.le_mul_of_pos_right _ hstep) _
    _ = size / bar * (2 * bar) := by ring
    _ ≤ size / bar * 2 ^ 32 := Nat.mul_le_mul_left _ (by omega)

/-- A file of 256 bytes in a popup of 40 columns. -/
theorem markInFrame_iff_half : 13 ≤ 40 ∧ 40 < 2 ^ 31 ∧ MarkInFrame 40 256 128 := by
  have h : MarkInFrame (40 : ℕ) (256 : ℕ) (128 : ℕ) ↔ BarFits (40 - 12) 256 128 :=
    markInFrame_iff (by decide) (by decide) 256 128
  exact ⟨by decide, by decide, h.mpr (by decide)⟩

/-- **A file with fewer bytes than columns.** The second division is by zero. -/
theorem mark_of_small_file : ¬∀ cols size cur : ℕ, 13 ≤ cols → cols < 2 ^ 31 → cur < size →
    MarkInFrame cols size cur := by
  intro hall
  obtain ⟨c, m, hc, hm, -⟩ := hall 40 10 0 (by decide) (by decide) (by decide)
  rw [show stBlC (40 : ℕ) (10 : ℕ) = some 0 by decide] at hc
  obtain rfl := Option.some.inj hc
  exact absurd hm (by rw [show markColumn (0 : ℕ) 0 = none by decide]; rintro ⟨⟩)

end FileManager

end AllProjects
