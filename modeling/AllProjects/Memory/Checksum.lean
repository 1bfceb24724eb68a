import AllProjects.Memory.Bytes

/-!
# One's complement checksums

The sum of the Internet protocols: the bytes of a block, two at a time, as 16-bit numbers in network
order, a zero byte behind an odd last one, added with end-around carry. A block that contains its
checksum is right when all bits of the sum are set.

End-around carry is addition modulo `2 ^ 16 - 1`, with two representatives of zero, and only a block
of zeros has the sum zero. So the sum is followed in `ZMod 65535`. There `256 * 256 = 1`: a byte
counts with a factor 256 or 1, by the parity of its place, and a block can be cut in the middle of a
word as well.

A machine that reads the words in the other order gets the sum times 256, which is the sum with its
two bytes swapped. So it may add, fold and store in its own order: what is in memory in the end is
the checksum in network order.
-/

namespace AllProjects

/-! ## The sum -/

/-- Addition with end-around carry. -/
def onesAdd (a b : ℕ) : ℕ := (a + b) % 2 ^ 16 + (a + b) / 2 ^ 16

/-- The one's complement sum of a block. -/
def onesSum : List UInt8 → ℕ
  | [] => 0
  | [b] => 256 * b.toNat
  | b :: c :: bs => onesAdd (256 * b.toNat + c.toNat) (onesSum bs)

/-- The checksum in the block is right. -/
def ChecksumVerifies (block : List UInt8) : Prop := onesSum block = 0xffff

instance (block : List UInt8) : Decidable (ChecksumVerifies block) :=
  inferInstanceAs (Decidable (_ = _))

theorem onesAdd_le {a b : ℕ} (ha : a ≤ 0xffff) (hb : b ≤ 0xffff) : onesAdd a b ≤ 0xffff := by
  rw [onesAdd]
  omega

theorem onesAdd_eq_zero_iff {a b : ℕ} : onesAdd a b = 0 ↔ a = 0 ∧ b = 0 := by
  rw [onesAdd]
  omega

theorem word_le (b c : UInt8) : 256 * b.toNat + c.toNat ≤ 0xffff := by
  have hb := b.toNat_lt
  have hc := c.toNat_lt
  omega

theorem onesSum_le (bs : List UInt8) : onesSum bs ≤ 0xffff := by
  induction bs using onesSum.induct with
  | case1 => exact Nat.zero_le _
  | case2 b => exact (Nat.le_add_right _ _).trans (word_le b 0)
  | case3 b c bs ih => exact onesAdd_le (word_le b c) ih

theorem onesSum_eq_zero_iff {bs : List UInt8} : onesSum bs = 0 ↔ ∀ b ∈ bs, b = 0 := by
  have hzero : ∀ b : UInt8, b.toNat = 0 ↔ b = 0 := fun b ↦ UInt8.toNat_inj (b := 0)
  induction bs using onesSum.induct with
  | case1 => simp [onesSum]
  | case2 b => simp [onesSum, hzero]
  | case3 b c bs ih =>
    have hrest : onesSum bs = 0 ↔ ∀ x ∈ bs, x = 0 := ih
    rw [onesSum, onesAdd_eq_zero_iff, Nat.add_eq_zero_iff, hrest, List.forall_mem_cons,
      List.forall_mem_cons, ← hzero b, ← hzero c, mul_eq_zero, and_assoc]
    simp

/-! ## The sum modulo 65535 -/

/-- The sum of a block as a residue. -/
def netSum : List UInt8 → ZMod 65535
  | [] => 0
  | b :: bs => 256 * (b.toNat + netSum bs)

/-- The factor with which a block counts `k` places further on. -/
def netWeight (k : ℕ) : ZMod 65535 := 256 ^ k

theorem sq_256 : (256 : ZMod 65535) * 256 = 1 := rfl

theorem netWeight_of_even {k : ℕ} (h : Even k) : netWeight k = 1 := by
  obtain ⟨j, rfl⟩ := h
  rw [netWeight, ← two_mul, pow_mul, sq, sq_256, one_pow]

theorem netSum_two (b c : UInt8) : netSum [b, c] = (256 * b.toNat + c.toNat : ℕ) := by
  rw [netSum, netSum, netSum]
  push_cast
  linear_combination (c.toNat : ZMod 65535) * sq_256

theorem netSum_append (bs cs : List UInt8) :
    netSum (bs ++ cs) = netSum bs + netWeight bs.length * netSum cs := by
  induction bs with
  | nil => rw [List.nil_append, List.length_nil, netWeight, pow_zero, one_mul, netSum, zero_add]
  | cons b bs ih =>
    rw [List.cons_append, netSum, netSum, ih, List.length_cons, netWeight, netWeight, pow_succ]
    ring

theorem cast_eq_of_eq_add {a b q : ℕ} (h : a = b + 65535 * q) : (a : ZMod 65535) = b := by
  rw [h, Nat.cast_add, Nat.cast_mul, ZMod.natCast_self, zero_mul, add_zero]

theorem cast_onesAdd (a b : ℕ) : (onesAdd a b : ZMod 65535) = a + b := by
  have hsplit : a + b = onesAdd a b + 65535 * ((a + b) / 2 ^ 16) := by
    rw [onesAdd]
    omega
  rw [← cast_eq_of_eq_add hsplit, Nat.cast_add]

/-- End-around carry is addition modulo 65535. -/
theorem cast_onesSum (bs : List UInt8) : (onesSum bs : ZMod 65535) = netSum bs := by
  induction bs using onesSum.induct with
  | case1 => exact Nat.cast_zero
  | case2 b =>
    rw [onesSum, netSum, netSum, add_zero]
    push_cast
    rfl
  | case3 b c bs ih =>
    have heven : Even [b, c].length := ⟨1, rfl⟩
    change _ = netSum ([b, c] ++ bs)
    rw [onesSum, cast_onesAdd, ih, netSum_append, netSum_two, netWeight_of_even heven, one_mul]

/-- **A checksum is right when the sum vanishes modulo 65535.** -/
theorem checksumVerifies_iff {block : List UInt8} (h : ∃ b ∈ block, b ≠ 0) :
    ChecksumVerifies block ↔ netSum block = 0 := by
  have hle := onesSum_le block
  have hpos : onesSum block ≠ 0 := by
    obtain ⟨b, hb, hne⟩ := h
    exact fun hzero ↦ hne (onesSum_eq_zero_iff.mp hzero b hb)
  rw [ChecksumVerifies, ← cast_onesSum, ZMod.natCast_eq_zero_iff]
  constructor
  · intro hsum
    rw [hsum]
  · rintro ⟨q, hq⟩
    obtain rfl : q = 1 := by omega
    exact hq

/-- The checksum of a block: the one's complement of its sum. -/
def internetChecksum (block : List UInt8) : ℕ := 0xffff - onesSum block

/-! ## The other byte order -/

/-- The sum of the words as numbers that start with the low byte, without carry. -/
def lowFirstSum : List UInt8 → ℕ
  | [] => 0
  | [b] => b.toNat
  | b :: c :: bs => b.toNat + 256 * c.toNat + lowFirstSum bs

/-- Numbers of 16 bits with one residue are equal, but for the two that stand for zero. -/
theorem eq_of_cast_eq {a b : ℕ} (ha : a ≤ 0xffff) (hb : b ≤ 0xffff)
    (h : (a : ZMod 65535) = b) (h0 : a = 0 ↔ b = 0) : a = b := by
  have hmod := (ZMod.natCast_eq_natCast_iff' a b 65535).mp h
  omega

theorem cast_lowFirstSum (bs : List UInt8) : (lowFirstSum bs : ZMod 65535) = 256 * netSum bs := by
  induction bs using lowFirstSum.induct with
  | case1 => rw [lowFirstSum, netSum, mul_zero, Nat.cast_zero]
  | case2 b =>
    rw [lowFirstSum, netSum, netSum, add_zero, ← mul_assoc, sq_256, one_mul]
  | case3 b c bs ih =>
    rw [lowFirstSum, netSum, netSum]
    push_cast
    rw [ih]
    linear_combination -((b.toNat : ZMod 65535) + 256 * (c.toNat + netSum bs)) * sq_256

theorem lowFirstSum_eq_zero_iff {bs : List UInt8} : lowFirstSum bs = 0 ↔ ∀ b ∈ bs, b = 0 := by
  have hzero : ∀ b : UInt8, b.toNat = 0 ↔ b = 0 := fun b ↦ UInt8.toNat_inj (b := 0)
  induction bs using lowFirstSum.induct with
  | case1 => simp [lowFirstSum]
  | case2 b => simp [lowFirstSum, hzero]
  | case3 b c bs ih =>
    have hrest : lowFirstSum bs = 0 ↔ ∀ x ∈ bs, x = 0 := ih
    rw [lowFirstSum, Nat.add_eq_zero_iff, Nat.add_eq_zero_iff, hrest, List.forall_mem_cons,
      List.forall_mem_cons, ← hzero b, ← hzero c, mul_eq_zero, and_assoc]
    simp

theorem lowFirstSum_le (bs : List UInt8) : lowFirstSum bs ≤ 0xffff * ((bs.length + 1) / 2) := by
  induction bs using lowFirstSum.induct with
  | case1 => exact Nat.zero_le _
  | case2 b =>
    have hb := b.toNat_lt
    rw [lowFirstSum, List.length_singleton]
    omega
  | case3 b c bs ih =>
    have hb := b.toNat_lt
    have hc := c.toNat_lt
    rw [lowFirstSum, List.length_cons, List.length_cons]
    omega

/-- **Byte order does not matter**: a number of 16 bits with the residue of the sum in the other
order is the sum with its bytes swapped. -/
theorem eq_swap_onesSum {block : List UInt8} {f : ℕ} (hf : f < 2 ^ 16)
    (hcast : (f : ZMod 65535) = lowFirstSum block) (h0 : f = 0 ↔ lowFirstSum block = 0) :
    f = onesSum block % 256 * 256 + onesSum block / 256 := by
  have hle := onesSum_le block
  apply eq_of_cast_eq (by omega) (by omega)
  · have hsplit : 256 * onesSum block
        = onesSum block % 256 * 256 + onesSum block / 256 + 65535 * (onesSum block / 256) := by
      omega
    rw [hcast, cast_lowFirstSum, ← cast_eq_of_eq_add hsplit, Nat.cast_mul, cast_onesSum]
    rfl
  · rw [h0, lowFirstSum_eq_zero_iff, ← onesSum_eq_zero_iff]
    omega

/-! ## Blocks in memory -/

namespace Mem

theorem netSum_slice_add (m : Mem) (a k n : ℕ) :
    netSum (m.slice a (k + n))
      = netSum (m.slice a k) + netWeight k * netSum (m.slice (a + k) n) := by
  rw [slice_add, netSum_append, length_slice]

theorem netSum_slice_add_of_even (m : Mem) {a k n : ℕ} (h : Even k) :
    netSum (m.slice a (k + n)) = netSum (m.slice a k) + netSum (m.slice (a + k) n) := by
  rw [netSum_slice_add, netWeight_of_even h, one_mul]

theorem slice_two (m : Mem) (a : ℕ) : m.slice a 2 = [m a, m (a + 1)] := rfl

theorem netSum_slice_word (m : Mem) (a : ℕ) : netSum (m.slice a 2) = 256 * m.load a 2 := by
  rw [slice_two, netSum_two, load_two]
  push_cast
  linear_combination -((m (a + 1)).toNat : ZMod 65535) * sq_256

theorem netSum_slice_store (m : Mem) {a k n v : ℕ} (hk : Even k) (hn : k + 2 ≤ n)
    (hv : v < 256 ^ 2) : netSum ((m.store (a + k) 2 v).slice a n) + 256 * m.load (a + k) 2
      = netSum (m.slice a n) + 256 * v := by
  obtain ⟨r, rfl⟩ := Nat.exists_eq_add_of_le hn
  have hsplit : ∀ m' : Mem, netSum (m'.slice a (k + 2 + r)) = netSum (m'.slice a k)
      + 256 * m'.load (a + k) 2 + netSum (m'.slice (a + k + 2) r) := by
    intro m'
    rw [add_assoc k, netSum_slice_add_of_even m' hk, netSum_slice_add_of_even m' even_two,
      netSum_slice_word, ← add_assoc]
  rw [hsplit, hsplit, load_store_same m hv, slice_store_of_disjoint m (Or.inl le_rfl),
    slice_store_of_disjoint m (Or.inr le_rfl)]
  ring

end Mem

end AllProjects
