import AllProjects.RawSocket.CheckField

/-!
# The checksums of an outgoing packet

`ping` and `traceroute` build an IP header and an ICMP header in a packet and fill in both checksums
before they send it. The two programs have the same functions: the field is cleared, then it takes
what `compute_checksum` returns for the header. The length of the IP header is what its first byte
says, the ICMP header has eight bytes.
-/

namespace AllProjects.IcmpRawSocket

open RawSocket

/-- `iph->ihl << 2` -/
def ihlBytes (iph : ℕ) (m : Mem) : ℕ := m.load iph 1 % 16 * 4

namespace Ping

def computeIpChecksum (m : Mem) (iph : ℕ) : Mem := fillChecksum m iph 10 (ihlBytes iph)

def computeIcmpChecksum (m : Mem) (icmph : ℕ) : Mem := fillChecksum m icmph 2 fun _ ↦ 8

end Ping

namespace Traceroute

def computeIpChecksum (m : Mem) (iph : ℕ) : Mem := fillChecksum m iph 10 (ihlBytes iph)

def computeIcmpChecksum (m : Mem) (icmph : ℕ) : Mem := fillChecksum m icmph 2 fun _ ↦ 8

end Traceroute

/-- A buffer for which `checksum` returns zero, and no longer zero after one of its words is
replaced by one that differs from it modulo 65535. -/
structure Protected (checksum : Mem → ℕ → ℕ → ℕ) (m : Mem) (addr count : ℕ) : Prop where
  verifies : checksum m addr count = 0
  detects : ∀ j v, 2 * j + 2 ≤ count → v < 2 ^ 16 → v % 65535 ≠ m.load (addr + 2 * j) 2 % 65535 →
    checksum (m.store (addr + 2 * j) 2 v) addr count ≠ 0

section

variable {m : Mem} {addr field count : ℕ}

theorem ihlBytes_lt (iph : ℕ) (m : Mem) : ihlBytes iph m < 2 ^ 32 := by
  rw [ihlBytes]
  omega

theorem fillChecksum_ihlBytes :
    fillChecksum m addr 10 (ihlBytes addr) = fillChecksum m addr 10 fun _ ↦ ihlBytes addr m := by
  have hihl : ihlBytes addr (m.store (addr + 10) 2 0) = ihlBytes addr m := by
    rw [ihlBytes, ihlBytes, Mem.load_store_of_disjoint m (Or.inl (by omega))]
  rw [fillChecksum, fillChecksum, hihl]

theorem protected_fillChecksum (hfield : Even field) (hroom : field + 2 ≤ count)
    (hcount : count < 2 ^ 32) :
    Protected RawSocket.computeChecksum (fillChecksum m addr field fun _ ↦ count) addr count := by
  have hfilled := @checksumVerifies_fillChecksum m addr field count hfield hroom hcount
  constructor
  · exact (computeChecksum_eq_zero_iff _ hcount).mpr hfilled
  · intro j v hj hv hne
    rw [Ne, computeChecksum_eq_zero_iff _ hcount]
    exact not_checksumVerifies_store hfilled (even_two_mul j) hj hv hne

theorem protected_ip (h : 5 ≤ m.load addr 1 % 16) :
    Protected RawSocket.computeChecksum (fillChecksum m addr 10 (ihlBytes addr)) addr
      (ihlBytes addr m) := by
  have hroom : 10 + 2 ≤ ihlBytes addr m := by
    rw [ihlBytes]
    omega
  rw [fillChecksum_ihlBytes]
  exact protected_fillChecksum (by decide) hroom (ihlBytes_lt addr m)

theorem protected_icmp : Protected RawSocket.computeChecksum
    (fillChecksum m addr 2 fun _ ↦ 8) addr 8 :=
  protected_fillChecksum (by decide) (by decide) (by decide)

end

/-- **A header that was filled in is protected**, in both programs: every IP header of at least five
words, and every ICMP header. -/
theorem filled_protected :
    (∀ (m : Mem) (iph : ℕ), 5 ≤ m.load iph 1 % 16 →
      Protected Ping.computeChecksum (Ping.computeIpChecksum m iph) iph (ihlBytes iph m)
        ∧ Protected Traceroute.computeChecksum (Traceroute.computeIpChecksum m iph) iph
          (ihlBytes iph m))
      ∧ ∀ (m : Mem) (icmph : ℕ),
        Protected Ping.computeChecksum (Ping.computeIcmpChecksum m icmph) icmph 8
          ∧ Protected Traceroute.computeChecksum (Traceroute.computeIcmpChecksum m icmph) icmph 8 :=
  ⟨fun _ _ h ↦ ⟨protected_ip h, protected_ip h⟩, fun _ _ ↦ ⟨protected_icmp, protected_icmp⟩⟩

/-- A header of five words in which all bytes but the first are zero. -/
theorem filled_protected_zeros :
    Protected Ping.computeChecksum
      (Ping.computeIpChecksum (fun x ↦ if x = 0 then 0x45 else 0) 0) 0 20 :=
  (filled_protected.1 (fun x ↦ if x = 0 then 0x45 else 0) 0 (by decide)).1

end AllProjects.IcmpRawSocket
