import AllProjects.RawSocket.ComputeChecksum

/-!
# The field that holds the checksum

A sender clears the field, computes the checksum of the block and stores it. A receiver either adds
up the block with the field in it, or clears the field, computes the checksum anew and compares. In
`ZMod 65535` all of this is one equation: with the field cleared the block has some sum, and the
field has to be the opposite of it.

The two tests differ where the residue zero has two representatives. A block that is not all zeros
never has the checksum `0xffff`, since its sum is not `0`. So a field with all bits set is never
what is computed, though the sum with it in the block may well be all ones.
-/

namespace AllProjects.RawSocket

open DnsProxy (htons)

/-! ## Residues -/

theorem cast_htons {x : ℕ} (h : x < 2 ^ 16) : (htons x : ZMod 65535) = 256 * x := by
  have hsplit : 256 * x = htons x + 65535 * (x / 256) := by
    rw [htons]
    omega
  rw [← cast_eq_of_eq_add hsplit, Nat.cast_mul]
  rfl

/-- In the order of the machine, the checksum is the opposite of the sum. -/
theorem cast_htons_internetChecksum (block : List UInt8) :
    256 * (htons (internetChecksum block) : ZMod 65535) = -netSum block := by
  have hle := onesSum_le block
  have hlt : internetChecksum block < 2 ^ 16 := by
    rw [internetChecksum]
    omega
  have hopposite : (internetChecksum block : ZMod 65535) = -netSum block := by
    have hones : ((0xffff : ℕ) : ZMod 65535) = 0 := ZMod.natCast_self 65535
    rw [internetChecksum, Nat.cast_sub hle, cast_onesSum, hones, zero_sub]
  rw [cast_htons hlt, ← mul_assoc, sq_256, one_mul, hopposite]

theorem htons_internetChecksum_eq_ones_iff {block : List UInt8} :
    htons (internetChecksum block) = 0xffff ↔ onesSum block = 0 := by
  have hle := onesSum_le block
  rw [htons, internetChecksum]
  omega

/-! ## Two tests

`cleared` is the block with zeros in the field and `block` the one with `v` there. -/

section

variable {cleared block : List UInt8} {v : ℕ} (hsum : netSum block = netSum cleared + 256 * v)
include hsum

theorem netSum_eq_zero (hv : v = htons (internetChecksum cleared)) : netSum block = 0 := by
  rw [hsum, hv, cast_htons_internetChecksum, add_neg_cancel]

/-- **Comparing with the computed checksum is adding up, but for a field of ones.** -/
theorem eq_checksum_iff (hlt : v < 2 ^ 16) (hcleared : ∃ b ∈ cleared, b ≠ 0)
    (hblock : ∃ b ∈ block, b ≠ 0) :
    v = htons (internetChecksum cleared) ↔ ChecksumVerifies block ∧ v ≠ 0xffff := by
  have hones : htons (internetChecksum cleared) ≠ 0xffff := by
    obtain ⟨b, hb, hne⟩ := hcleared
    rw [Ne, htons_internetChecksum_eq_ones_iff, onesSum_eq_zero_iff]
    exact fun hzero ↦ hne (hzero b hb)
  rw [checksumVerifies_iff hblock]
  constructor
  · rintro rfl
    exact ⟨netSum_eq_zero hsum rfl, hones⟩
  · rintro ⟨hzero, hv⟩
    have hchecksum := cast_htons_internetChecksum cleared
    have hopposite : netSum cleared + 256 * (v : ZMod 65535) = 0 := by rw [← hsum, hzero]
    have hcast : (v : ZMod 65535) = (htons (internetChecksum cleared) : ℕ) := by
      linear_combination 256 * hopposite - 256 * hchecksum
        + (((htons (internetChecksum cleared) : ℕ) : ZMod 65535) - v) * sq_256
    have hmod := (ZMod.natCast_eq_natCast_iff' _ _ 65535).mp hcast
    have hbound := DnsProxy.htons_lt (internetChecksum cleared)
    omega

end

/-! ## Filling -/

/-- The field at offset `field` of a buffer is cleared, then it takes the checksum of the buffer. -/
def fillChecksum (m : Mem) (addr field : ℕ) (count : Mem → ℕ) : Mem :=
  let cleared := m.store (addr + field) 2 0
  cleared.store (addr + field) 2 (computeChecksum cleared addr (count cleared))

theorem load_fillChecksum_of_disjoint (m : Mem) {addr field b u : ℕ} (count : Mem → ℕ)
    (h : b + u ≤ addr + field ∨ addr + field + 2 ≤ b) :
    (fillChecksum m addr field count).load b u = m.load b u :=
  (Mem.load_store_of_disjoint _ h).trans (Mem.load_store_of_disjoint _ h)

theorem slice_fillChecksum_of_disjoint (m : Mem) {addr field b n : ℕ} (count : Mem → ℕ)
    (h : b + n ≤ addr + field ∨ addr + field + 2 ≤ b) :
    (fillChecksum m addr field count).slice b n = m.slice b n :=
  (Mem.slice_store_of_disjoint _ h).trans (Mem.slice_store_of_disjoint _ h)

section

variable {m : Mem} {addr field count : ℕ}

theorem netSum_slice_cleared (hfield : Even field) (hroom : field + 2 ≤ count) :
    netSum (m.slice addr count) = netSum ((m.store (addr + field) 2 0).slice addr count)
      + 256 * m.load (addr + field) 2 := by
  have hstore := Mem.netSum_slice_store m (a := addr) (v := 0) hfield hroom (by decide)
  rw [Nat.cast_zero, mul_zero, add_zero] at hstore
  exact hstore.symm

theorem load_eq_zero (hroom : field + 2 ≤ count) (h : onesSum (m.slice addr count) = 0) :
    m.load (addr + field) 2 = 0 := by
  have hbyte : ∀ i, i < count → (m (addr + i)).toNat = 0 := by
    intro i hi
    have hmem : m (addr + i) ∈ m.slice addr count :=
      List.mem_map.mpr ⟨i, List.mem_range.mpr hi, rfl⟩
    rw [onesSum_eq_zero_iff.mp h _ hmem]
    rfl
  rw [Mem.load_two, hbyte field (by omega), add_assoc, hbyte (field + 1) (by omega)]

/-- **Fill, then verify.** -/
theorem checksumVerifies_fillChecksum (hfield : Even field) (hroom : field + 2 ≤ count)
    (hcount : count < 2 ^ 32) :
    ChecksumVerifies ((fillChecksum m addr field fun _ ↦ count).slice addr count) := by
  set filled := fillChecksum m addr field fun _ ↦ count
  have hvalue : computeChecksum (m.store (addr + field) 2 0) addr count
      = htons (internetChecksum ((m.store (addr + field) 2 0).slice addr count)) :=
    computeChecksum_eq _ hcount
  have hlt := computeChecksum_lt (m.store (addr + field) 2 0) addr count
  have hload : filled.load (addr + field) 2
      = computeChecksum (m.store (addr + field) 2 0) addr count := Mem.load_store_same _ hlt
  have hclear : filled.store (addr + field) 2 0 = m.store (addr + field) 2 0 :=
    (Mem.store_store ..).trans (Mem.store_store ..)
  have hsum := @netSum_slice_cleared filled addr field count hfield hroom
  rw [hclear] at hsum
  have hzero := netSum_eq_zero hsum (hload.trans hvalue)
  rw [ChecksumVerifies]
  by_contra hne
  -- The sum of a block that is not right and vanishes is zero, and then the checksum is not.
  have hones : onesSum (filled.slice addr count) = 0 := by
    rw [← cast_onesSum, ZMod.natCast_eq_zero_iff] at hzero
    have hle := onesSum_le (filled.slice addr count)
    omega
  have hword := load_eq_zero hroom hones
  have hsame : filled = m.store (addr + field) 2 0 := by
    rw [← hclear]
    exact ((Mem.store_eq_self_iff (by decide)).mpr hword).symm
  rw [hload, hvalue] at hword
  rw [hsame] at hones
  rw [htons, internetChecksum, hones] at hword
  exact absurd hword (by decide)

/-- **A replaced word is detected** when it has another residue. -/
theorem not_checksumVerifies_store {v : ℕ} (h : ChecksumVerifies (m.slice addr count))
    (hfield : Even field) (hroom : field + 2 ≤ count) (hv : v < 2 ^ 16)
    (hne : v % 65535 ≠ m.load (addr + field) 2 % 65535) :
    ¬ ChecksumVerifies ((m.store (addr + field) 2 v).slice addr count) := by
  intro hstored
  have hvanish : ∀ {bs}, ChecksumVerifies bs → netSum bs = 0 := by
    intro bs hbs
    rw [← cast_onesSum, hbs]
    rfl
  have hstore := Mem.netSum_slice_store m (a := addr) hfield hroom hv
  rw [hvanish h, hvanish hstored, zero_add, zero_add] at hstore
  apply hne
  apply (ZMod.natCast_eq_natCast_iff' _ _ 65535).mp
  linear_combination -256 * hstore + ((m.load (addr + field) 2 : ZMod 65535) - v) * sq_256

end

end AllProjects.RawSocket
