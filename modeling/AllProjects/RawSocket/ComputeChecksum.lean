import AllProjects.Memory.Checksum
import AllProjects.PcapSniffer.Packet

/-!
# The checksum loop

Every program that makes or reads raw packets has its own copy of `compute_checksum`, and the copies
are the same. The function adds up the 16-bit words of a buffer as the machine reads them, low byte
first, in an accumulator of 64 bits. Of an odd last byte it reads the whole word and masks the byte
behind it. Then it adds the carries until there are none, and returns the complement.

What the result leaves in memory are the bytes of the Internet checksum in network order. The word
behind an odd last byte lies half outside the buffer, but the half outside is masked.
-/

namespace AllProjects.RawSocket

open DnsProxy (htons)

/-! ## The function -/

/-- The loop over the words and the odd last byte, with the address, the count and the sum. -/
def sumWords (m : Mem) : ℕ → ℕ → ℕ → ℕ
  | addr, count + 2, sum => sumWords m (addr + 2) count ((sum + m.load addr 2) % 2 ^ 64)
  | addr, 1, sum => (sum + (m.load addr 2 &&& htons 0xff00)) % 2 ^ 64
  | _, 0, sum => sum

/-- `sum = (sum & 0xffff) + (sum >> 16)` -/
def foldCarry (sum : ℕ) : ℕ := sum % 2 ^ 16 + sum / 2 ^ 16

theorem foldCarry_lt {sum : ℕ} (h : sum / 2 ^ 16 ≠ 0) : foldCarry sum < sum := by
  rw [foldCarry]
  omega

/-- `while (sum >> 16)` -/
def foldCarries (sum : ℕ) : ℕ :=
  if _h : sum / 2 ^ 16 = 0 then sum else foldCarries (foldCarry sum)
  termination_by sum
  decreasing_by exact foldCarry_lt _h

/-- `compute_checksum`: the low 16 bits of `~sum`. -/
def computeChecksum (m : Mem) (addr count : ℕ) : ℕ :=
  (2 ^ 64 - 1 - foldCarries (sumWords m addr count 0)) % 2 ^ 16

/-! ## The accumulator -/

/-- The mask leaves the low byte, which is the first in memory. -/
theorem load_mask (m : Mem) (a : ℕ) : m.load a 2 &&& htons 0xff00 = (m a).toNat := by
  have hmask : htons 0xff00 = 2 ^ 8 - 1 := by decide
  have hb := (m a).toNat_lt
  rw [hmask, Nat.and_two_pow_sub_one_eq_mod, Mem.load_two]
  omega

theorem lowFirstSum_slice_two (m : Mem) (a n : ℕ) :
    lowFirstSum (m.slice a (n + 2)) = m.load a 2 + lowFirstSum (m.slice (a + 2) n) := by
  rw [Mem.slice_succ, Mem.slice_succ, lowFirstSum, Mem.load_two]

/-- **The accumulator does not overflow** when the sum of the words fits. -/
theorem sumWords_eq (m : Mem) {addr count sum : ℕ}
    (h : sum + lowFirstSum (m.slice addr count) < 2 ^ 64) :
    sumWords m addr count sum = sum + lowFirstSum (m.slice addr count) := by
  induction count using Nat.twoStepInduction generalizing addr sum with
  | zero => rfl
  | one =>
    rw [Mem.slice_succ] at h ⊢
    have hone : ∀ b : UInt8, lowFirstSum (b :: m.slice (addr + 1) 0) = b.toNat := fun _ ↦ rfl
    rw [hone] at h ⊢
    rw [sumWords, load_mask, Nat.mod_eq_of_lt h]
  | more n ih _ =>
    rw [lowFirstSum_slice_two, ← add_assoc] at h ⊢
    rw [sumWords, Nat.mod_eq_of_lt (by omega)]
    exact ih h

theorem lowFirstSum_lt {block : List UInt8} (h : block.length < 2 ^ 32) :
    lowFirstSum block < 2 ^ 48 := by
  have hle := lowFirstSum_le block
  omega

/-! ## The carries -/

theorem foldCarries_of_lt {sum : ℕ} (h : sum < 2 ^ 16) : foldCarries sum = sum := by
  rw [foldCarries, dif_pos (Nat.div_eq_of_lt h)]

theorem foldCarries_of_ge {sum : ℕ} (h : 2 ^ 16 ≤ sum) :
    foldCarries sum = foldCarries (foldCarry sum) := by
  rw [foldCarries, dif_neg]
  omega

theorem cast_foldCarry (sum : ℕ) : (foldCarry sum : ZMod 65535) = sum := by
  have hsplit : sum = foldCarry sum + 65535 * (sum / 2 ^ 16) := by
    rw [foldCarry]
    omega
  exact (cast_eq_of_eq_add hsplit).symm

theorem foldCarry_eq_zero_iff {sum : ℕ} : foldCarry sum = 0 ↔ sum = 0 := by
  rw [foldCarry]
  omega

theorem foldCarries_spec (sum : ℕ) : foldCarries sum < 2 ^ 16
    ∧ (foldCarries sum : ZMod 65535) = sum ∧ (foldCarries sum = 0 ↔ sum = 0) := by
  induction sum using foldCarries.induct with
  | case1 sum h =>
    have hlt : sum < 2 ^ 16 := by omega
    rw [foldCarries_of_lt hlt]
    exact ⟨hlt, rfl, Iff.rfl⟩
  | case2 sum h ih =>
    rw [foldCarries_of_ge (by omega)]
    obtain ⟨hlt, hcast, hzero⟩ := ih
    exact ⟨hlt, hcast.trans (cast_foldCarry sum), hzero.trans foldCarry_eq_zero_iff⟩

/-- The condition of the loop fails after a number of rounds, and the result is the sum then. -/
theorem exists_rounds (sum : ℕ) : ∃ n, (foldCarry^[n] sum) / 2 ^ 16 = 0
    ∧ (∀ i, i < n → (foldCarry^[i] sum) / 2 ^ 16 ≠ 0) ∧ foldCarries sum = foldCarry^[n] sum := by
  induction sum using foldCarries.induct with
  | case1 sum h =>
    refine ⟨0, h, fun i hi ↦ absurd hi (Nat.not_lt_zero i), ?_⟩
    rw [foldCarries, dif_pos h, Function.iterate_zero, id_eq]
  | case2 sum h ih =>
    obtain ⟨n, hend, hrounds, heq⟩ := ih
    refine ⟨n + 1, hend, ?_, ?_⟩
    · intro i hi
      obtain - | i := i
      · exact h
      · exact hrounds i (Nat.lt_of_succ_lt_succ hi)
    · rw [foldCarries, dif_neg h, heq, Function.iterate_succ_apply]

/-! ## The result -/

theorem complement_mod {f : ℕ} (h : f < 2 ^ 16) : (2 ^ 64 - 1 - f) % 2 ^ 16 = 0xffff - f := by
  omega

theorem complement_swap {o : ℕ} (h : o ≤ 0xffff) :
    0xffff - (o % 256 * 256 + o / 256) = htons (0xffff - o) := by
  rw [htons]
  omega

/-- **The loop computes the Internet checksum**, as a number in the other byte order. -/
theorem computeChecksum_eq (m : Mem) {addr count : ℕ} (h : count < 2 ^ 32) :
    computeChecksum m addr count = htons (internetChecksum (m.slice addr count)) := by
  have hlength : (m.slice addr count).length < 2 ^ 32 := by rwa [Mem.length_slice]
  have hsum := lowFirstSum_lt hlength
  obtain ⟨hlt, hcast, hzero⟩ := foldCarries_spec (lowFirstSum (m.slice addr count))
  have hswap := eq_swap_onesSum hlt hcast hzero
  rw [computeChecksum, sumWords_eq m (by omega), zero_add, complement_mod hlt, hswap,
    complement_swap (onesSum_le _), internetChecksum]

theorem computeChecksum_eq_zero_iff (m : Mem) {addr count : ℕ} (h : count < 2 ^ 32) :
    computeChecksum m addr count = 0 ↔ ChecksumVerifies (m.slice addr count) := by
  have hle := onesSum_le (m.slice addr count)
  rw [computeChecksum_eq m h, internetChecksum, htons, ChecksumVerifies]
  omega

theorem computeChecksum_lt (m : Mem) (addr count : ℕ) : computeChecksum m addr count < 2 ^ 16 :=
  Nat.mod_lt _ (by decide)

end AllProjects.RawSocket

namespace AllProjects

/-! ## The copies -/

/-- `pcap_sniffer/lib/core.c`, where the buffer is a header or a block that was copied together. -/
def PcapSniffer.computeChecksumAt : Mem → ℕ → ℕ → ℕ := RawSocket.computeChecksum

/-- `icmp_raw_socket_ping/lib/core.c` -/
def IcmpRawSocket.Ping.computeChecksum : Mem → ℕ → ℕ → ℕ := RawSocket.computeChecksum

/-- `icmp_raw_socket_traceroute/lib/core.c` -/
def IcmpRawSocket.Traceroute.computeChecksum : Mem → ℕ → ℕ → ℕ := RawSocket.computeChecksum

/-- `client_core.c` of the three servers for raw UDP sockets. -/
def UdpRawSocket.computeChecksum : Mem → ℕ → ℕ → ℕ := RawSocket.computeChecksum

namespace PcapSniffer

theorem wordSum_eq (bs : List UInt8) : wordSum bs = lowFirstSum bs := by
  induction bs using wordSum.induct with
  | case1 => rfl
  | case2 b => rfl
  | case3 b c bs ih => rw [wordSum, lowFirstSum, ih]

theorem foldCarries_eq {n sum : ℕ} (h : sum ≤ n) :
    foldCarries n sum = RawSocket.foldCarries sum := by
  induction n generalizing sum with
  | zero =>
    obtain rfl := Nat.le_zero.mp h
    rw [foldCarries, RawSocket.foldCarries_of_lt (by decide)]
  | succ n ih =>
    rw [foldCarries]
    split
    · rw [RawSocket.foldCarries_of_lt (by omega)]
    · rename_i hcarry
      have hlt := RawSocket.foldCarry_lt hcarry
      rw [RawSocket.foldCarries_of_ge (by omega), ← ih (by omega), RawSocket.foldCarry]

theorem computeChecksum_eq (block : List UInt8) :
    computeChecksum block = DnsProxy.htons (internetChecksum block) := by
  obtain ⟨hlt, hcast, hzero⟩ := RawSocket.foldCarries_spec (lowFirstSum block)
  have hswap := eq_swap_onesSum hlt hcast hzero
  rw [computeChecksum, wordSum_eq, foldCarries_eq le_rfl, hswap, internetChecksum]
  exact RawSocket.complement_swap (onesSum_le block)

/-- **The checksum of a block is what the loop computes** of a memory that holds it. -/
theorem computeChecksumAt_eq (m : Mem) {addr count : ℕ} (h : count < 2 ^ 32) :
    computeChecksumAt m addr count = computeChecksum (m.slice addr count) := by
  rw [computeChecksumAt, RawSocket.computeChecksum_eq m h, computeChecksum_eq]

end PcapSniffer

/-! ## The Internet checksum -/

namespace RawSocket

open DnsProxy (htons)

/-- The bytes of a number of 16 bits in network order. -/
def networkBytes (v : ℕ) : List UInt8 := [UInt8.ofNat (v / 256), UInt8.ofNat v]

/-- The function stores the Internet checksum of the buffer, and depends on nothing outside it. -/
structure IsInternetChecksum (f : Mem → ℕ → ℕ → ℕ) : Prop where
  stored : ∀ (m : Mem) (addr count p : ℕ), count < 2 ^ 32 →
    (m.store p 2 (f m addr count)).slice p 2 = networkBytes (internetChecksum (m.slice addr count))
  congr : ∀ (m m' : Mem) (addr count : ℕ), count < 2 ^ 32 →
    m.slice addr count = m'.slice addr count → f m addr count = f m' addr count

/-- No addition of the loop over the words wraps around. -/
def NoOverflow (m : Mem) : ℕ → ℕ → ℕ → Prop
  | addr, count + 2, sum => sum + m.load addr 2 < 2 ^ 64
      ∧ NoOverflow m (addr + 2) count ((sum + m.load addr 2) % 2 ^ 64)
  | addr, 1, sum => sum + (m.load addr 2 &&& htons 0xff00) < 2 ^ 64
  | _, 0, _ => True

/-- The loop that adds the carries ends after `n` rounds, and no addition in it wraps around. -/
def EndsAfter (sum n : ℕ) : Prop :=
  (foldCarry^[n] sum) / 2 ^ 16 = 0 ∧ (∀ i, i < n → (foldCarry^[i] sum) / 2 ^ 16 ≠ 0)
    ∧ (∀ i, i ≤ n → foldCarry^[i] sum < 2 ^ 64)

theorem noOverflow_of_lt (m : Mem) {addr count sum : ℕ}
    (h : sum + lowFirstSum (m.slice addr count) < 2 ^ 64) : NoOverflow m addr count sum := by
  induction count using Nat.twoStepInduction generalizing addr sum with
  | zero => trivial
  | one =>
    rw [NoOverflow, load_mask]
    exact h
  | more n ih _ =>
    rw [lowFirstSum_slice_two, ← add_assoc] at h
    have hlt : sum + m.load addr 2 < 2 ^ 64 := by omega
    refine ⟨hlt, ih ?_⟩
    rwa [Nat.mod_eq_of_lt hlt]

theorem iterate_foldCarry_le (sum i : ℕ) : foldCarry^[i] sum ≤ sum := by
  induction i with
  | zero => exact le_rfl
  | succ i ih =>
    rw [Function.iterate_succ_apply', foldCarry]
    omega

theorem networkBytes_eq (v : ℕ) :
    networkBytes v = [UInt8.ofNat (htons v), UInt8.ofNat (htons v / 256)] := by
  have hhigh : UInt8.ofNat (htons v) = UInt8.ofNat (v / 256) := by
    apply UInt8.toNat_inj.mp
    rw [UInt8.toNat_ofNat', UInt8.toNat_ofNat', htons]
    omega
  have hdiv : htons v / 256 = v % 256 := by
    rw [htons]
    omega
  have hlow : UInt8.ofNat (htons v / 256) = UInt8.ofNat v := by
    rw [hdiv]
    apply UInt8.toNat_inj.mp
    rw [UInt8.toNat_ofNat', UInt8.toNat_ofNat', Nat.mod_mod]
  rw [networkBytes, hhigh, hlow]

theorem slice_store_htons (m : Mem) (p v : ℕ) :
    (m.store p 2 (htons v)).slice p 2 = networkBytes v := by
  rw [Mem.slice_store_same, networkBytes_eq]
  simp [List.range_succ]

theorem isInternetChecksum : IsInternetChecksum computeChecksum where
  stored m addr count p h := by
    rw [computeChecksum_eq m h, slice_store_htons]
  congr m m' addr count h hslice := by
    rw [computeChecksum_eq m h, computeChecksum_eq m' h, hslice]

/-- **Every copy computes the Internet checksum** of every buffer of less than `2 ^ 32` bytes,
without overflow, and ends. -/
theorem copies_compute_internetChecksum :
    (IsInternetChecksum PcapSniffer.computeChecksumAt
        ∧ IsInternetChecksum IcmpRawSocket.Ping.computeChecksum
        ∧ IsInternetChecksum IcmpRawSocket.Traceroute.computeChecksum
        ∧ IsInternetChecksum UdpRawSocket.computeChecksum)
      ∧ ∀ (m : Mem) (addr count : ℕ), count < 2 ^ 32 →
        NoOverflow m addr count 0 ∧ ∃ n, EndsAfter (sumWords m addr count 0) n := by
  have hcopy := isInternetChecksum
  refine ⟨⟨hcopy, hcopy, hcopy, hcopy⟩, ?_⟩
  intro m addr count h
  have hlength : (m.slice addr count).length < 2 ^ 32 := by rwa [Mem.length_slice]
  have hsum := lowFirstSum_lt hlength
  obtain ⟨n, hend, hrounds, -⟩ := exists_rounds (sumWords m addr count 0)
  refine ⟨noOverflow_of_lt m (by omega), n, hend, hrounds, ?_⟩
  intro i _
  have hle := iterate_foldCarry_le (sumWords m addr count 0) i
  rw [sumWords_eq m (by omega)] at hle ⊢
  omega

/-- A buffer of odd length, all of whose bits are set. -/
theorem copies_compute_odd :
    IcmpRawSocket.Ping.computeChecksum (fun _ ↦ 0xff) 0 3 = 0xff00
      ∧ (Mem.store (fun _ ↦ 0xff) 8 2
          (IcmpRawSocket.Ping.computeChecksum (fun _ ↦ 0xff) 0 3)).slice 8 2 = [0x00, 0xff]
      ∧ NoOverflow (fun _ ↦ 0xff) 0 3 0
      ∧ ∃ n, EndsAfter (sumWords (fun _ ↦ 0xff) 0 3 0) n := by
  have hvalue : IcmpRawSocket.Ping.computeChecksum (fun _ ↦ 0xff) 0 3 = 0xff00 :=
    (computeChecksum_eq _ (by decide)).trans (by decide)
  refine ⟨hvalue, ?_, copies_compute_internetChecksum.2 _ 0 3 (by decide)⟩
  exact (copies_compute_internetChecksum.1.2.1.stored _ 0 3 8 (by decide)).trans (by decide)

end RawSocket

end AllProjects
