import AllProjects.PcapSniffer.Evidence

/-!
# What the handler reads

Offsets and lengths come from the headers, and none is compared with the length of the capture. For
each protocol the reads stay inside the capture exactly when the headers are there and the lengths
they state do not lead outside. The payload is dumped up to the length the frame had on the wire, so
a frame that was cut off is read past its end whatever its headers say.
-/

namespace AllProjects.PcapSniffer

open DnsProxy (htons ntohs)
open Prog

/-! ## The search -/

/-- The string stands at offset `p` of the data, as `check_data` compares. -/
def StandsAt (m : Mem) (data : ℕ) : ℕ → List UInt8 → Prop
  | _, [] => True
  | p, c :: cs => ¬ Differs (m.load (data + p % 2 ^ 32) 1) c ∧ StandsAt m data (p + 1) cs

section

variable {data b n i k : ℕ} {m : Mem} {s : List UInt8}

theorem compareAt_val_eq_iff :
    (compareAt data i k s m).val = k + s.length ↔ StandsAt m data (i + k) s := by
  induction s generalizing k with
  | nil => exact iff_of_true rfl trivial
  | cons c cs ih =>
    rw [compareAt, bind_val, read_val, read_mem, List.length_cons, StandsAt]
    by_cases hdiff : Differs (m.load (data + (i + k) % 2 ^ 32) 1) c
    · rw [if_pos hdiff]
      apply iff_of_false
      · rw [pure_val]
        omega
      · exact fun h ↦ h.1 hdiff
    · rw [if_neg hdiff, and_iff_right hdiff, add_assoc i k 1, ← ih]
      omega

/-- A comparison reads up to the first character that differs. -/
theorem readsBelow_compareAt :
    (compareAt data i k s).ReadsBelow m b
      ↔ ∀ j, j < s.length → StandsAt m data (i + k) (s.take j) →
        data + (i + k + j) % 2 ^ 32 < b := by
  induction s generalizing k with
  | nil => simp [compareAt]
  | cons c cs ih =>
    rw [compareAt, readsBelow_bind, readsBelow_read, read_val, read_mem]
    by_cases hdiff : Differs (m.load (data + (i + k) % 2 ^ 32) 1) c
    · rw [if_pos hdiff]
      constructor
      · rintro ⟨hread, -⟩ j _ hstands
        cases j with
        | zero => omega
        | succ j => exact absurd hdiff hstands.1
      · intro h
        have hfirst := h 0 (Nat.succ_pos _) trivial
        exact ⟨Or.inr (by omega), readsBelow_pure k⟩
    · rw [if_neg hdiff, ih]
      constructor
      · rintro ⟨hread, hrest⟩ j hj hstands
        cases j with
        | zero => omega
        | succ j =>
          have hnext := hrest j (Nat.lt_of_succ_lt_succ hj) hstands.2
          rwa [show i + (k + 1) + j = i + k + (j + 1) by omega] at hnext
      · intro h
        have hfirst := h 0 (Nat.succ_pos _) trivial
        refine ⟨Or.inr (by omega), ?_⟩
        intro j hj hstands
        have hnext := h (j + 1) (Nat.succ_lt_succ hj) ⟨hdiff, hstands⟩
        rwa [show i + k + (j + 1) = i + (k + 1) + j by omega] at hnext

theorem readsBelow_searchLoop_found : (searchLoop data s i s.length n).ReadsBelow m b := by
  cases n with
  | zero => exact readsBelow_pure _
  | succ n =>
    rw [searchLoop, if_pos rfl]
    exact readsBelow_pure _

theorem readsBelow_searchLoop (hk : k ≠ s.length) :
    (searchLoop data s i k n).ReadsBelow m b
      ↔ ∀ p, i ≤ p → p < i + n → (∀ q, i ≤ q → q < p → ¬ StandsAt m data q s) →
        (compareAt data p 0 s).ReadsBelow m b := by
  induction n generalizing i k with
  | zero =>
    apply iff_of_true (readsBelow_pure _)
    intro p hle hlt
    omega
  | succ n ih =>
    rw [searchLoop, if_neg hk, readsBelow_bind, (silent_compareAt data i 0 s).mem]
    have hmatch := @compareAt_val_eq_iff data i 0 m s
    rw [Nat.zero_add, Nat.add_zero] at hmatch
    by_cases hstands : StandsAt m data i s
    · rw [hmatch.mpr hstands]
      constructor
      · rintro ⟨hfirst, -⟩ p hle _ hnone
        obtain rfl | hlt := hle.eq_or_lt
        · exact hfirst
        · exact absurd hstands (hnone i le_rfl hlt)
      · intro h
        refine ⟨h i le_rfl (by omega) ?_, readsBelow_searchLoop_found⟩
        intro q hle hlt
        omega
    · rw [ih (fun h ↦ hstands (hmatch.mp h))]
      constructor
      · rintro ⟨hfirst, hrest⟩ p hle hp hnone
        obtain rfl | hlt := hle.eq_or_lt
        · exact hfirst
        · exact hrest p hlt (by omega) fun q hq hqp ↦ hnone q (by omega) hqp
      · intro h
        constructor
        · apply h i le_rfl (by omega)
          intro q hle hlt
          omega
        · intro p hle hp hnone
          apply h p (by omega) (by omega)
          intro q hq hqp
          obtain rfl | hlt := hq.eq_or_lt
          · exact hstands
          · exact hnone q hlt hqp

end

/-- The part of the string that is searched for: its length is kept in 32 bits. -/
def searched (s : List UInt8) : List UInt8 := s.take (s.length % 2 ^ 32)

/-- Every character compared lies below `b`: the round at `i` takes place, for the string has not
been found before, and the characters before the `k`-th agree. -/
def SearchFits (size hdrSize : ℕ) (s : List UInt8) (m : Mem) (b : ℕ) : Prop :=
  ∀ i k, i < payloadSize size hdrSize → k < (searched s).length →
    (∀ q, q < i → ¬ StandsAt m hdrSize q (searched s)) →
    StandsAt m hdrSize i ((searched s).take k) → hdrSize + (i + k) % 2 ^ 32 < b

theorem readsBelow_searchFrom {size hdrSize : ℕ} {s : List UInt8} {m : Mem} {b : ℕ} :
    (searchFrom size hdrSize s).ReadsBelow m b ↔ SearchFits size hdrSize s m b := by
  rw [searchFrom, ← searched, SearchFits]
  by_cases hempty : (searched s).length = 0
  · apply iff_of_true
    · have hloop :=
        @readsBelow_searchLoop_found hdrSize b (payloadSize size hdrSize) 0 m (searched s)
      rwa [hempty] at hloop
    · intro i k _ hk
      omega
  · rw [readsBelow_searchLoop (Ne.symm hempty)]
    simp only [readsBelow_compareAt, Nat.zero_le, Nat.zero_add, Nat.add_zero, true_implies]
    constructor
    · intro h i k hi hk hnone hstands
      exact h i hi hnone k hk hstands
    · intro h i hi hnone k hk hstands
      exact h i k hi hk hnone hstands

/-! ## Reports -/

/-- The payload, from the end of the headers to the end the frame had on the wire. -/
def PayloadFits (size hdrSize b : ℕ) : Prop :=
  payloadSize size hdrSize = 0 ∨ hdrSize + payloadSize size hdrSize ≤ b

/-- The TCP header is there, the segment that the IP header states, the header that the data offset
states (dumped without the Ethernet header), and the payload. -/
def TcpFits (size : ℕ) (m : Mem) (b : ℕ) : Prop :=
  transport m + 20 ≤ b ∧ transport m + tcpplen m ≤ b ∧ iphdrlen m + doffBytes m ≤ b
    ∧ PayloadFits size (transport m + doffBytes m) b

def UdpFits (size : ℕ) (m : Mem) (b : ℕ) : Prop :=
  34 ≤ b ∧ transport m + 8 ≤ b ∧ transport m + udpplen m ≤ b
    ∧ PayloadFits size (transport m + 8) b

/-- The IP header is read after the ICMP checksum is written, which may change its length. -/
def IcmpFits (size : ℕ) (m : Mem) (b : ℕ) : Prop :=
  34 ≤ b ∧ icmph m + 8 ≤ b ∧ 14 + iphdrlen (m.store (icmph m + 2) 2 (icmpSum m)) ≤ b
    ∧ PayloadFits size (14 + icmph m + 8) b

section

variable {size b : ℕ} {m : Mem}

theorem readsBelow_computeTcpChecksum :
    (computeTcpChecksum 14 (transport m)).ReadsBelow m b
      ↔ 34 ≤ b ∧ (tcpplen m = 0 ∨ transport m + tcpplen m ≤ b) := by
  simp only [computeTcpChecksum, readsBelow_bind, readsBelow_read, readsBelow_readSlice,
    readsBelow_write, read_val, read_mem, readSlice_mem, write_mem, iphdrlen_fold, one_ne_zero,
    OfNat.ofNat_ne_zero, false_or, true_and, and_true]
  rw [← tcpplen]
  omega

theorem readsBelow_computeUdpChecksum :
    (computeUdpChecksum 14 (transport m)).ReadsBelow m b
      ↔ 34 ≤ b ∧ transport m + 6 ≤ b ∧ (udpplen m = 0 ∨ transport m + udpplen m ≤ b) := by
  simp only [computeUdpChecksum, readsBelow_bind, readsBelow_read, readsBelow_readSlice,
    readsBelow_write, read_val, read_mem, readSlice_mem, write_mem, one_ne_zero,
    OfNat.ofNat_ne_zero, false_or, true_and, and_true]
  rw [← udpplen]
  omega

theorem readsBelow_computeIcmpChecksum (icmph : ℕ) :
    (computeIcmpChecksum icmph).ReadsBelow m b ↔ icmph + 8 ≤ b := by
  simp only [computeIcmpChecksum, readsBelow_bind, readsBelow_readSlice, readsBelow_write,
    OfNat.ofNat_ne_zero, false_or, true_and, and_true]

theorem readsBelow_printTcpPacket : (printTcpPacket size).ReadsBelow m b ↔ TcpFits size m b := by
  have htransport : transport m = 14 + iphdrlen m := rfl
  have hihl : ∀ sum, iphdrlen (m.store (transport m + 16) 2 sum) = iphdrlen m := fun sum ↦
    iphdrlen_store (by omega)
  have hdoff : ∀ sum sum', ((m.store (transport m + 16) 2 sum).store 24 2 sum').load
      (transport m + 12) 1 = m.load (transport m + 12) 1 := by
    intro sum sum'
    rw [Mem.load_store_of_disjoint _ (by omega), Mem.load_store_of_disjoint _ (by omega)]
  simp only [printTcpPacket, readsBelow_bind, readsBelow_read, readsBelow_print,
    readsBelow_printFields, readsBelow_printIpHeader, readsBelow_printData,
    readsBelow_computeTcpChecksum, read_val, read_mem, print_mem, printFields_mem,
    printIpHeader_mem, printData_mem, iphdrlen_fold, hihl, hdoff, transport_fold,
    computeTcpChecksum_mem, doffBytes_fold, List.forall_mem_cons, List.not_mem_nil,
    false_implies, implies_true, one_ne_zero, OfNat.ofNat_ne_zero, false_or, true_and, and_true]
  rw [TcpFits, PayloadFits]
  omega

theorem readsBelow_printUdpPacket : (printUdpPacket size).ReadsBelow m b ↔ UdpFits size m b := by
  have htransport : transport m = 14 + iphdrlen m := rfl
  have hihl : ∀ sum, iphdrlen (m.store (transport m + 6) 2 sum) = iphdrlen m := fun sum ↦
    iphdrlen_store (by omega)
  simp only [printUdpPacket, readsBelow_bind, readsBelow_read, readsBelow_print,
    readsBelow_printFields, readsBelow_printIpHeader, readsBelow_printData,
    readsBelow_computeUdpChecksum, read_val, read_mem, print_mem, printFields_mem,
    printIpHeader_mem, printData_mem, iphdrlen_fold, hihl, transport_fold,
    computeUdpChecksum_mem, List.forall_mem_cons, List.not_mem_nil, false_implies, implies_true,
    one_ne_zero, OfNat.ofNat_ne_zero, false_or, true_and, and_true]
  rw [UdpFits, PayloadFits]
  omega

theorem readsBelow_printIcmpPacket :
    (printIcmpPacket size).ReadsBelow m b ↔ IcmpFits size m b := by
  simp only [printIcmpPacket, readsBelow_bind, readsBelow_read, readsBelow_print,
    readsBelow_printFields, readsBelow_printIpHeader, readsBelow_printData,
    readsBelow_computeIcmpChecksum, read_val, read_mem, print_mem, printFields_mem,
    printIpHeader_mem, printData_mem, icmph_fold, computeIcmpChecksum_mem, List.forall_mem_cons,
    List.not_mem_nil, false_implies, implies_true, one_ne_zero, OfNat.ofNat_ne_zero, false_or,
    true_and, and_true]
  rw [IcmpFits, PayloadFits]
  omega

end

/-! ## The handler -/

/-- The search, where there is a string to search for. -/
def ChecksFit (args : Option (List UInt8)) (size : ℕ) (m : Mem) (b : ℕ) : Prop :=
  ∀ s, args = some s →
    match protocol m with
    | 6 => transport m + 13 ≤ b ∧ SearchFits size (transport m + doffBytes m) s m b
    | 17 => SearchFits size (transport m + 8) s m b
    | _ => True

/-- What the headers must say for the reads to stay below `b`. -/
def Fits (args : Option (List UInt8)) (size : ℕ) (m : Mem) (b : ℕ) : Prop :=
  24 ≤ b ∧ ChecksFit args size m b ∧
    match protocol m with
    | 1 => IcmpFits size m b
    | 6 => found args size m = true → TcpFits size m b
    | 17 => UdpFits size m b
    | _ => True

section

variable {args : Option (List UInt8)} {size b : ℕ} {st : Stats} {m : Mem} {s : List UInt8}

theorem readsBelow_checkData_tcp (h : 24 ≤ b) :
    (checkData size 6 s).ReadsBelow m b
      ↔ transport m + 13 ≤ b ∧ SearchFits size (transport m + doffBytes m) s m b := by
  simp only [checkData, readsBelow_bind, readsBelow_read, read_val, read_mem, iphdrlen_fold,
    transport_fold, doffBytes_fold, readsBelow_searchFrom, one_ne_zero, false_or]
  constructor
  · rintro ⟨-, hdoff, hsearch⟩
    exact ⟨hdoff, hsearch⟩
  · rintro ⟨hdoff, hsearch⟩
    exact ⟨by omega, hdoff, hsearch⟩

theorem readsBelow_checkData_udp (h : 24 ≤ b) :
    (checkData size 17 s).ReadsBelow m b ↔ SearchFits size (transport m + 8) s m b := by
  simp only [checkData, readsBelow_bind, readsBelow_read, read_val, read_mem, iphdrlen_fold,
    transport_fold, readsBelow_searchFrom, one_ne_zero, false_or]
  exact and_iff_right (by omega)

theorem readsBelow_search {x : Prog Output ℤ} {p : Prog Output Unit} (hx : Silent x) :
    (x >>= fun res ↦ if res ≠ -1 then p else pure ()).ReadsBelow m b
      ↔ x.ReadsBelow m b ∧ (((x m).val != -1) = true → p.ReadsBelow m b) := by
  rw [readsBelow_bind, hx.mem]
  by_cases hres : (x m).val = -1 <;> simp [hres]

theorem readsBelow_reportIfFound {printPacket : ℕ → Prog Output Unit} (h : 24 ≤ b) :
    (reportIfFound args size printPacket).ReadsBelow m b
      ↔ (∀ s, args = some s → (checkData size (protocol m) s).ReadsBelow m b)
        ∧ (found args size m = true → (printPacket size).ReadsBelow m b) := by
  cases args with
  | none => simp [reportIfFound, found]
  | some s =>
    rw [reportIfFound, readsBelow_bind, readsBelow_read, read_val, read_mem,
      readsBelow_search (silent_checkData ..), ← protocol]
    constructor
    · rintro ⟨-, hcheck, hprint⟩
      refine ⟨?_, hprint⟩
      rintro _ ⟨⟩
      exact hcheck
    · rintro ⟨hcheck, hprint⟩
      exact ⟨Or.inr (by omega), hcheck s rfl, hprint⟩

theorem readsBelow_dispatch_icmp :
    (dispatch args size st 1).ReadsBelow m b ↔ IcmpFits size m b := by
  rw [dispatch, readsBelow_bind, readsBelow_printIcmpPacket, and_iff_left (readsBelow_pure _)]

theorem readsBelow_dispatch_tcp (h : 24 ≤ b) (hp : protocol m = 6) :
    (dispatch args size st 6).ReadsBelow m b
      ↔ ChecksFit args size m b ∧ (found args size m = true → TcpFits size m b) := by
  rw [dispatch, readsBelow_bind, readsBelow_reportIfFound h, and_iff_left (readsBelow_pure _), hp,
    ChecksFit]
  simp only [readsBelow_checkData_tcp h, readsBelow_printTcpPacket, hp]

theorem udp_leave_udpplen : udpplen ((udpReport size m).leave m) = udpplen m := by
  have hfield := udp_field size m
  have hcases := iphdrlen_cases m
  have htransport : transport ((udpReport size m).leave m) = 14 + iphdrlen m := by
    rw [transport, udp_leave_iphdrlen]
  rw [udpplen, htransport, Report.leave, Mem.load_store_of_disjoint _ (by omega), Report.rewritten,
    Mem.load_store_of_disjoint _ (by omega), udpplen, transport]

/-- The second report on a UDP packet reads where the first has read. -/
theorem udpFits_udpMem : UdpFits size (udpMem args size m) b ↔ UdpFits size m b := by
  rw [udpMem]
  split
  · rw [UdpFits, UdpFits, transport, udp_leave_iphdrlen, udp_leave_udpplen, ← transport]
  · rfl

theorem readsBelow_dispatch_udp (h : 24 ≤ b) (hp : protocol m = 17) :
    (dispatch args size st 17).ReadsBelow m b ↔ ChecksFit args size m b ∧ UdpFits size m b := by
  have hmem : (reportIfFound args size printUdpPacket m).mem = udpMem args size m := by
    rw [reportIfFound_mem, (printUdpPacket_prints size).mem_eq, udpMem]
  rw [dispatch, readsBelow_bind, readsBelow_bind, hmem, readsBelow_printUdpPacket, udpFits_udpMem,
    and_iff_left (readsBelow_pure _), readsBelow_reportIfFound h, hp, ChecksFit, and_assoc]
  simp only [readsBelow_checkData_udp h, readsBelow_printUdpPacket, hp]
  exact and_congr_right fun _ ↦ and_iff_right_of_imp fun hfits _ ↦ hfits

theorem readsBelow_dispatch_other {p : ℕ} (hp : p ≠ 1 ∧ p ≠ 2 ∧ p ≠ 6 ∧ p ≠ 17) :
    (dispatch args size st p).ReadsBelow m b := by
  rw [dispatch_other args size st hp]
  exact readsBelow_bind.mpr ⟨readsBelow_print, readsBelow_pure _⟩

end

/-- **What the handler reads.** Every byte read by the handler and what it calls is captured exactly
when the headers and lengths fit. -/
theorem readsBelow_caplen_iff (args : Option (List UInt8)) (f : Frame) :
    (∀ st : Stats, (pcktHndl args f.len st).ReadsBelow f.mem f.caplen)
      ↔ Fits args f.len f.mem f.caplen := by
  simp only [readsBelow_pcktHndl, Fits, forall_and, forall_const]
  apply and_congr_right
  intro h
  obtain hp | hp | hp | hp | hp := protocol_cases (protocol f.mem)
  · simp only [hp, readsBelow_dispatch_icmp, ChecksFit, implies_true, true_and, forall_const]
  · simp [hp, dispatch, ChecksFit]
  · simp only [hp, readsBelow_dispatch_tcp h hp, forall_const]
  · simp only [hp, readsBelow_dispatch_udp h hp, forall_const]
  · simp [readsBelow_dispatch_other hp, ChecksFit, hp]

/-- A TCP packet whose IP header states a total length of zero: less the length of the IP header
that is 65516 in 16 bits. -/
def lyingFrame : Frame := frameOf
  [0, 0, 0, 0, 0, 0, 0, 0, 0, 0, 0, 0, 8, 0,
    0x45, 0, 0, 0, 0, 0, 0, 0, 64, 6, 0, 0, 10, 0, 0, 1, 10, 0, 0, 2,
    0, 80, 0, 80, 0, 0, 0, 1, 0, 0, 0, 0, 0x50, 2, 4, 0, 0, 0, 0, 0] (by decide)

/-- The checksum is taken over that many bytes. -/
theorem lyingFrame_overread :
    ¬ ∀ st : Stats,
      (pcktHndl none lyingFrame.len st).ReadsBelow lyingFrame.mem lyingFrame.caplen := by
  intro h
  have htcp : protocol lyingFrame.mem = 6 := by decide
  have hreads := (readsBelow_pcktHndl _ _ _ _).mp (h {})
  rw [htcp, readsBelow_dispatch_tcp (by decide) htcp] at hreads
  obtain ⟨-, -, hfits⟩ := hreads
  exact absurd (hfits rfl).2.1 (by decide)

end AllProjects.PcapSniffer
