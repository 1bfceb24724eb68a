import AllProjects.PcapSniffer.Verdicts

/-!
# ICMP packets

`print_icmp_packet` takes the frame itself for the IP header: the Ethernet header is not skipped.
The length of the IP header is then read from the destination address, and what is printed as the
ICMP header are eight bytes at a multiple of four, where an ICMP header never begins. They may
happen to agree with the ICMP header. The checksum is judged for these eight bytes only.

What is printed comes after the checksum of the eight bytes was rewritten, and that of the IP
header. The first is not among the bytes printed. The second is among them for two lengths, twenty
and twenty-four bytes.
-/

namespace AllProjects.PcapSniffer

open DnsProxy (htons ntohs)
open Prog

/-! ## The fields printed -/

def icmpNames : List String := ["Type", "Code", "ID", "Sequence"]

/-- A field of the ICMP header. -/
def Output.icmpField? : Output → Option (String × List ℕ)
  | field name values => if name ∈ icmpNames then some (name, values) else none
  | text _ | title _ | verdict .. | hex _ | char _ | count .. => none

/-- The fields of the ICMP header in an output. -/
def icmpFields (out : List Output) : List (String × List ℕ) := out.filterMap Output.icmpField?

theorem icmpFields_append (o o' : List Output) :
    icmpFields (o ++ o') = icmpFields o ++ icmpFields o' := List.filterMap_append ..

theorem icmpFields_text (s : String) : icmpFields [.text s] = [] := (rfl)

theorem icmpFields_title (s : String) : icmpFields [.title s] = [] := (rfl)

theorem icmpFields_verdict (s : String) (back sum : ℕ) : icmpFields [.verdict s back sum] = [] :=
  (rfl)

/-- The fields of a header at `a`, as they are printed. -/
def headerFields (m : Mem) (a : ℕ) : List (String × List ℕ) :=
  [("Type", [m.load a 1]), ("Code", [m.load (a + 1) 1]), ("ID", [ntohs (m.load (a + 4) 2)]),
    ("Sequence", [ntohs (m.load (a + 6) 2)])]

section

variable (m : Mem)

theorem icmpFields_field (s : String) (l : List ℕ) :
    icmpFields [.field s l] = if s ∈ icmpNames then [(s, l)] else [] := by
  rw [icmpFields, List.filterMap_cons, Output.icmpField?]
  split <;> simp_all

theorem icmpFields_printFields (header : ℕ) (flds : List Field) :
    icmpFields (printFields header flds m).out = (flds.map fun fld ↦
      (fld.name, fld.values (m.load (header + fld.offset) fld.width))).filter
        fun p ↦ decide (p.1 ∈ icmpNames) := by
  induction flds with
  | nil => rfl
  | cons fld flds ih =>
    rw [printFields, bind_out, bind_out, icmpFields_append, icmpFields_append, read_out, print_out,
      read_mem, print_mem, read_val, icmpFields_field, ih, List.map_cons, List.filter_cons]
    by_cases hname : fld.name ∈ icmpNames <;> simp [hname, icmpFields]

theorem icmpFields_printIpHeader : icmpFields (printIpHeader m).out = [] := by
  simp only [printIpHeader, printEthernetHeader, bind_out, read_out, print_out,
    computeIpChecksum_out, icmpFields_append, icmpFields_text, icmpFields_verdict, icmpFields_field,
    icmpFields_printFields, List.map_cons, List.map_nil, silent_append]
  simp [icmpNames]

theorem icmpFields_printData (data size : ℕ) : icmpFields (printData data size m).out = [] :=
  (dumpOnly_printData data size m).filterMap_eq_nil fun o ho ↦ by
    cases o <;> simp_all [Output.icmpField?]

/-- **What is printed as the ICMP header** is read where the ICMP header is taken to be, after both
checksums were rewritten. -/
theorem icmpFields_printIcmpPacket (size : ℕ) :
    icmpFields (printIcmpPacket size m).out
      = headerFields ((icmpReport size m).leave m) (icmph m) := by
  have hleave : (m.store (icmph m + 2) 2 (icmpSum m)).store 24 2
      (ipSum (m.store (icmph m + 2) 2 (icmpSum m))) = (icmpReport size m).leave m := (rfl)
  simp only [printIcmpPacket, bind_out, read_mem, read_val, read_out, print_mem, print_out,
    printFields_mem, printData_mem, printIpHeader_mem, icmph_fold, computeIcmpChecksum_mem,
    computeIcmpChecksum_out, icmpFields_append, icmpFields_text, icmpFields_title,
    icmpFields_verdict, icmpFields_printIpHeader, icmpFields_printFields, icmpFields_printData,
    silent_append, List.append_nil, List.map_cons, List.map_nil, hleave]
  simp [icmpNames, headerFields]

end

/-! ## The header in the frame -/

/-- The ICMP message: what follows the IP header, to the end of the packet. -/
def icmpMessage (m : Mem) : List UInt8 := m.slice (transport m) (totLen m - iphdrlen m)

/-- The header and the verdict printed are those of the message behind the IP header. -/
structure IcmpDecoded (f : Frame) : Prop where
  fields : icmpFields (printIcmpPacket f.len f.mem).out = headerFields f.mem (14 + iphdrlen f.mem)
  verdict : ∃ ip, shown (printIcmpPacket f.len f.mem).out
    = [("Checksum", ip), ("Checksum", decide (ChecksumVerifies (icmpMessage f.mem)))]

/-- The checksum of `n` bytes at `a`, as the field at offset `off` should hold it. -/
def checksumOf (m : Mem) (a off n : ℕ) : ℕ :=
  htons (internetChecksum ((m.store (a + off) 2 0).slice a n))

/-- The frame with the checksum of the eight bytes filled in, and then that of the IP header. -/
def overwritten (m : Mem) : Mem :=
  let m' := m.store (icmph m + 2) 2 (checksumOf m (icmph m) 2 8)
  m'.store 24 2 (checksumOf m' 14 10 (iphdrlen m'))

/-- Type, code, identifier and sequence number are the same, byte by byte. -/
def SameHeader (m : Mem) (a : ℕ) (m' : Mem) (b : ℕ) : Prop :=
  ∀ i ∈ [0, 1, 4, 5, 6, 7], m (a + i) = m' (b + i)

instance (m : Mem) (a : ℕ) (m' : Mem) (b : ℕ) : Decidable (SameHeader m a m' b) :=
  inferInstanceAs (Decidable (∀ i ∈ [0, 1, 4, 5, 6, 7], m (a + i) = m' (b + i)))

/-- The eight bytes that are taken for the ICMP header happen to agree with it, and they contain
their checksum just when the whole message does. -/
structure Coincides (f : Frame) : Prop where
  header : icmph f.mem ≠ 20 → icmph f.mem ≠ 24 →
    SameHeader f.mem (icmph f.mem) f.mem (transport f.mem)
  overwritten : icmph f.mem = 20 ∨ icmph f.mem = 24 →
    SameHeader (overwritten f.mem) (icmph f.mem) f.mem (transport f.mem)
  checksum : f.mem.load (icmph f.mem + 2) 2 = checksumOf f.mem (icmph f.mem) 2 8
    ↔ ChecksumVerifies (icmpMessage f.mem)

section

variable {m m' : Mem} {a b : ℕ}

theorem ntohs_load_two_eq_iff :
    ntohs (m.load a 2) = ntohs (m'.load b 2) ↔ m a = m' b ∧ m (a + 1) = m' (b + 1) := by
  have hlo := (m (a + 1)).toNat_lt
  have hlo' := (m' (b + 1)).toNat_lt
  rw [DnsProxy.ntohs_load_two, DnsProxy.ntohs_load_two, ← UInt8.toNat_inj, ← UInt8.toNat_inj]
  omega

theorem load_one_eq_iff : m.load a 1 = m'.load b 1 ↔ m a = m' b := by
  rw [Mem.load_one, Mem.load_one, UInt8.toNat_inj]

theorem headerFields_eq_iff : headerFields m a = headerFields m' b ↔ SameHeader m a m' b := by
  simp only [headerFields, SameHeader, List.cons.injEq, Prod.mk.injEq, true_and, and_true,
    load_one_eq_iff, ntohs_load_two_eq_iff, List.forall_mem_cons, List.not_mem_nil, false_implies,
    implies_true, add_assoc, Nat.reduceAdd, Nat.add_zero, and_assoc]

theorem SameHeader.congr {m₁ m₂ : Mem} (h : ∀ i ∈ [0, 1, 4, 5, 6, 7], m₁ (a + i) = m₂ (a + i)) :
    SameHeader m₁ a m' b ↔ SameHeader m₂ a m' b := by
  constructor
  · exact fun hsame i hi ↦ (h i hi).symm.trans (hsame i hi)
  · exact fun hsame i hi ↦ (h i hi).trans (hsame i hi)

theorem icmph_cases (m : Mem) :
    icmph m + 8 ≤ 24 ∨ icmph m = 20 ∨ icmph m = 24 ∨ 26 ≤ icmph m := by
  rw [icmph]
  omega

theorem icmph_ne_transport (m : Mem) : icmph m ≠ transport m := by
  rw [icmph, transport, iphdrlen]
  omega

theorem icmpSum_eq (m : Mem) : icmpSum m = checksumOf m (icmph m) 2 8 := by
  rw [icmpSum, computeChecksum_eq, checksumOf]

theorem ipSum_eq (m : Mem) : ipSum m = checksumOf m 14 10 (iphdrlen m) := by
  rw [ipSum, computeChecksum_eq, checksumOf]

theorem icmp_leave_eq (size : ℕ) (m : Mem) : (icmpReport size m).leave m = overwritten m := by
  rw [Report.leave, ipSum_eq, Report.rewritten, icmpReport, icmpSum_eq, overwritten]

theorem overwritten_apply (h20 : icmph m ≠ 20) (h24 : icmph m ≠ 24) :
    ∀ i ∈ [0, 1, 4, 5, 6, 7], overwritten m (icmph m + i) = m (icmph m + i) := by
  intro i hi
  have hplace := icmph_cases m
  have hi8 : i < 2 ∨ (4 ≤ i ∧ i < 8) := by
    simp only [List.mem_cons, List.not_mem_nil, or_false] at hi
    omega
  rw [overwritten, Mem.store_apply_of_disjoint _ (by omega),
    Mem.store_apply_of_disjoint _ (by omega)]

theorem shown_icmp (size : ℕ) (m : Mem) : ∃ ip, shown (printIcmpPacket size m).out
    = [("Checksum", ip),
      ("Checksum", decide (m.load (icmph m + 2) 2 = checksumOf m (icmph m) 2 8))] := by
  have hplace := icmph_cases m
  have hown : ((icmpReport size m).leave m).load (icmph m + 2) 2 = icmpSum m := by
    rw [Report.leave, Mem.load_store_of_disjoint _ (by rw [icmph]; omega), Report.rewritten,
      icmpReport, Mem.load_store_same m (icmpSum_lt m)]
  have hfield : (icmpReport size m).field = icmph m + 2 := rfl
  have hverdicts : verdicts ((icmpReport size m).printed m)
      = [("Checksum", ((icmpReport size m).rewritten m).load 24 2,
          ipSum ((icmpReport size m).rewritten m)),
        ("Checksum", m.load (icmph m + 2) 2, checksumOf m (icmph m) 2 8)] := by
    rw [Report.verdicts_printed, hfield, hown, icmpSum_eq]
    rfl
  refine ⟨decide (((icmpReport size m).rewritten m).load 24 2
    = ipSum ((icmpReport size m).rewritten m)), ?_⟩
  rw [shown, ← verdicts_evidence, (printIcmpPacket_prints size).evidence_eq, hverdicts,
    List.map_cons, List.map_cons, List.map_nil]

end

/-- **ICMP packets are decoded right only by coincidence.** -/
theorem icmpDecoded_iff (f : Frame) : IcmpDecoded f ↔ Coincides f := by
  have hfields : icmpFields (printIcmpPacket f.len f.mem).out
        = headerFields f.mem (14 + iphdrlen f.mem)
      ↔ SameHeader (overwritten f.mem) (icmph f.mem) f.mem (transport f.mem) := by
    rw [icmpFields_printIcmpPacket, icmp_leave_eq, headerFields_eq_iff, transport]
  obtain ⟨ip, hshown⟩ := shown_icmp f.len f.mem
  constructor
  · rintro ⟨hheader, ip', hverdict⟩
    have hsame := hfields.mp hheader
    refine ⟨?_, fun _ ↦ hsame, ?_⟩
    · intro h20 h24
      exact (SameHeader.congr (overwritten_apply h20 h24)).mp hsame
    · rw [hshown, List.cons.injEq, List.cons.injEq, Prod.mk.injEq, Prod.mk.injEq] at hverdict
      exact decide_eq_decide.mp hverdict.2.1.2
  · rintro ⟨hheader, hover, hchecksum⟩
    refine ⟨hfields.mpr ?_, ip, ?_⟩
    · by_cases hplace : icmph f.mem = 20 ∨ icmph f.mem = 24
      · exact hover hplace
      · obtain ⟨h20, h24⟩ := not_or.mp hplace
        exact (SameHeader.congr (overwritten_apply h20 h24)).mpr (hheader h20 h24)
    · rw [hshown, decide_eq_decide.mpr hchecksum]

/-- An echo request in a frame for an address of zeros. -/
def echoFrame : Frame := frameOf
  [0, 0, 0, 0, 0, 0, 0, 0, 0, 0, 0, 0, 8, 0,
    0x45, 0, 0, 28, 0, 0, 0, 0, 64, 1, 0, 0, 10, 0, 0, 1, 10, 0, 0, 2,
    8, 0, 0xf7, 0xfd, 0, 1, 0, 1] (by decide)

/-- An echo reply in a frame whose addresses begin like it. -/
def mirrorFrame : Frame := frameOf
  [0, 0, 0xff, 0xfd, 0, 1, 0, 1, 0, 0, 0, 0, 8, 0,
    0x45, 0, 0, 28, 0, 0, 0, 0, 64, 1, 0, 0, 10, 0, 0, 1, 10, 0, 0, 2,
    0, 0, 0xff, 0xfd, 0, 1, 0, 1] (by decide)

theorem echoFrame_packet : IcmpPacket echoFrame := by decide

theorem mirrorFrame_packet : IcmpPacket mirrorFrame := by decide

/-- The request is printed as a reply. -/
theorem echoFrame_not_decoded : IcmpPacket echoFrame ∧ ¬ IcmpDecoded echoFrame := by
  refine ⟨echoFrame_packet, ?_⟩
  rintro ⟨hfields, -⟩
  rw [icmpFields_printIcmpPacket, icmp_leave_eq, headerFields_eq_iff] at hfields
  exact absurd (hfields 0 (by decide)) (by decide)

/-- The coincidence is possible for a well-formed packet. -/
theorem mirrorFrame_coincides : IcmpPacket mirrorFrame ∧ Coincides mirrorFrame := by
  refine ⟨mirrorFrame_packet, fun _ _ ↦ by decide, ?_, by decide⟩
  exact fun hplace ↦ absurd hplace (by decide)

end AllProjects.PcapSniffer
