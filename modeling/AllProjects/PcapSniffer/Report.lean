import AllProjects.PcapSniffer.Packet

/-!
# What a report does

For every printer: the memory it leaves, the verdicts and dumps it prints, how many reports it
opens, and how far it reads. All of them write in two places only, the checksum of the transport
header and that of the IP header, and they store there what a pure function of the memory says.
-/

namespace AllProjects.PcapSniffer

open DnsProxy (htons ntohs)
open Prog

/-! ## Outputs -/

@[simp] theorem evidence_nil : evidence [] = [] := (rfl)

@[simp] theorem evidence_append (o o' : List Output) :
    evidence (o ++ o') = evidence o ++ evidence o' := List.filter_append ..

/-- `List.nil_append` and `List.cons_append`, but not by definition: comparing `[] ++ out` with
`out` must not run the program that prints `out`. -/
theorem silent_append {α : Type} (out : List α) : [] ++ out = out := (rfl)

theorem item_append (o : Output) (out : List Output) : [o] ++ out = o :: out := (rfl)

@[simp] theorem reports_nil : reports [] = [] := (rfl)

@[simp] theorem reports_append (o o' : List Output) :
    reports (o ++ o') = reports o ++ reports o' := List.filterMap_append ..

theorem evidence_text (s : String) : evidence [.text s] = [] := (rfl)

theorem evidence_title (s : String) : evidence [.title s] = [] := (rfl)

theorem evidence_field (s : String) (l : List ℕ) : evidence [.field s l] = [] := (rfl)

theorem evidence_count (s : String) (n : Int32) : evidence [.count s n] = [] := (rfl)

theorem evidence_verdict (s : String) (back sum : ℕ) :
    evidence [.verdict s back sum] = [.verdict s back sum] := (rfl)

@[simp] theorem evidence_cons (o : Output) (os : List Output) :
    evidence (o :: os) = if o.isEvidence then o :: evidence os else evidence os :=
  List.filter_cons

theorem reports_text (s : String) : reports [.text s] = [] := (rfl)

theorem reports_title (s : String) : reports [.title s] = [s] := (rfl)

theorem reports_field (s : String) (l : List ℕ) : reports [.field s l] = [] := (rfl)

theorem reports_count (s : String) (n : Int32) : reports [.count s n] = [] := (rfl)

theorem reports_verdict (s : String) (back sum : ℕ) : reports [.verdict s back sum] = [] := (rfl)

@[simp] theorem reports_cons (o : Output) (os : List Output) :
    reports (o :: os) = o.title?.toList ++ reports os := by
  rw [reports, reports, List.filterMap_cons]
  cases o.title? <;> rfl

/-- Text, bytes and characters, which is what dumps are made of. -/
@[simp] def Output.isDump : Output → Bool
  | text _ | hex _ | char _ => true
  | title _ | field .. | verdict .. | count .. => false

def DumpOnly (out : List Output) : Prop := ∀ o ∈ out, o.isDump = true

@[simp] theorem dumpOnly_nil : DumpOnly [] := List.forall_mem_nil _

@[simp] theorem dumpOnly_cons {o : Output} {os : List Output} :
    DumpOnly (o :: os) ↔ o.isDump = true ∧ DumpOnly os := List.forall_mem_cons

@[simp] theorem dumpOnly_append {o o' : List Output} :
    DumpOnly (o ++ o') ↔ DumpOnly o ∧ DumpOnly o' := List.forall_mem_append

theorem dumpOnly_flatMap {l : List ℕ} {f : ℕ → List Output} (h : ∀ i, DumpOnly (f i)) :
    DumpOnly (l.flatMap f) := by
  rintro o ho
  obtain ⟨i, -, hi⟩ := List.mem_flatMap.mp ho
  exact h i o hi

theorem DumpOnly.filterMap_eq_nil {β : Type} {g : Output → Option β}
    (hg : ∀ o, o.isDump = true → g o = none) {out : List Output} (h : DumpOnly out) :
    out.filterMap g = [] :=
  List.filterMap_eq_nil_iff.mpr fun o ho ↦ hg o (h o ho)

theorem DumpOnly.reports_eq {out : List Output} (h : DumpOnly out) : reports out = [] :=
  h.filterMap_eq_nil fun o ho ↦ by cases o <;> simp_all

/-! ## Fields -/

section

variable (header : ℕ) (flds : List Field) (m : Mem)

@[simp] theorem printFields_mem : (printFields header flds m).mem = m := by
  induction flds with
  | nil => rfl
  | cons fld flds ih => simp [printFields, ih]

@[simp] theorem printFields_evidence : evidence (printFields header flds m).out = [] := by
  induction flds with
  | nil => rfl
  | cons fld flds ih => simp [printFields, ih]

@[simp] theorem printFields_reports : reports (printFields header flds m).out = [] := by
  induction flds with
  | nil => rfl
  | cons fld flds ih => simp [printFields, ih]

@[simp] theorem readsBelow_printFields {b : ℕ} :
    (printFields header flds).ReadsBelow m b
      ↔ ∀ fld ∈ flds, fld.width = 0 ∨ header + fld.offset + fld.width ≤ b := by
  induction flds with
  | nil => simp [printFields]
  | cons fld flds ih => simp [printFields, ih]

end

/-! ## Dumps -/

section

variable (data start count size i : ℕ) (m : Mem)

@[simp] theorem printRow_mem : (printRow data start count m).mem = m :=
  forRange_mem (fun _ _ ↦ rfl) m start count

@[simp] theorem dumpOnly_printRow : DumpOnly (printRow data start count m).out := by
  rw [printRow, forRange_out fun _ _ ↦ rfl]
  apply dumpOnly_flatMap
  intro j
  simp

theorem readsBelow_printRow {b : ℕ} :
    (printRow data start count).ReadsBelow m b
      ↔ ∀ j, start ≤ j → j < start + count → data + j < b := by
  rw [printRow, readsBelow_forRange fun _ _ ↦ rfl]
  simp

@[simp] theorem padding_mem (s : String) :
    (forRange (fun _ ↦ print (Output.text s)) start count m).mem = m :=
  forRange_mem (fun _ _ ↦ rfl) m start count

@[simp] theorem dumpOnly_padding (s : String) :
    DumpOnly (forRange (fun _ ↦ print (Output.text s)) start count m).out := by
  rw [forRange_out fun _ _ ↦ rfl]
  apply dumpOnly_flatMap
  intro j
  simp

@[simp] theorem readsBelow_padding (s : String) {b : ℕ} :
    (forRange (fun _ ↦ print (Output.text s)) start count).ReadsBelow m b := by
  rw [readsBelow_forRange fun _ _ ↦ rfl]
  simp

@[simp] theorem printByte_mem : (printByte data size i m).mem = m := by
  simp only [printByte]
  split <;> split <;> split <;> simp

@[simp] theorem dumpOnly_printByte : DumpOnly (printByte data size i m).out := by
  simp only [printByte]
  split <;> split <;> split <;> simp

theorem readsBelow_printByte {b : ℕ} :
    (printByte data size i).ReadsBelow m b ↔ data + i < b := by
  -- The rows end at the byte that is printed, so they read no further.
  have hfull : i ≠ 0 ∧ i % 16 = 0 → data + i < b →
      (printRow data (i - 16) 16).ReadsBelow m b := by
    intro hi hlt
    rw [readsBelow_printRow]
    intro j _ hj
    omega
  have hlast : data + i < b → (printRow data (i - i % 16) (i % 16 + 1)).ReadsBelow m b := by
    intro hlt
    rw [readsBelow_printRow]
    intro j _ hj
    omega
  simp only [printByte]
  split <;> split <;> split <;> simp <;> grind

theorem readsBelow_printData {b : ℕ} :
    (printData data size).ReadsBelow m b ↔ size = 0 ∨ data + size ≤ b := by
  rw [printData, readsBelow_forRange fun i m ↦ printByte_mem data size i m]
  simp only [readsBelow_printByte]
  constructor
  · intro h
    by_contra hnot
    have hlast := h (size - 1) (Nat.zero_le _) (by omega)
    omega
  · intro h j _ hj
    omega

@[simp] theorem printData_mem : (printData data size m).mem = m :=
  forRange_mem (fun i m ↦ printByte_mem data size i m) m 0 size

theorem dumpOnly_printData : DumpOnly (printData data size m).out := by
  rw [printData, forRange_out fun i m ↦ printByte_mem data size i m]
  exact dumpOnly_flatMap fun i ↦ dumpOnly_printByte data size i m

@[simp] theorem printData_reports : reports (printData data size m).out = [] :=
  (dumpOnly_printData data size m).reports_eq

end

/-! ## Checksums

The sums as functions of the memory, each with its own field cleared. -/

/-- The length of the IP header. -/
def iphdrlen (m : Mem) : ℕ := m.load 14 1 % 16 * 4

/-- The start of the TCP or UDP header. -/
def transport (m : Mem) : ℕ := 14 + iphdrlen m

/-- The start of what is taken for the ICMP header. -/
def icmph (m : Mem) : ℕ := m.load 0 1 % 16 * 4

theorem iphdrlen_fold (m : Mem) : m.load 14 1 % 16 * 4 = iphdrlen m := (rfl)

theorem transport_fold (m : Mem) : 14 + iphdrlen m = transport m := (rfl)

theorem le_transport (m : Mem) : 14 ≤ transport m := Nat.le_add_right _ _

theorem iphdrlen_store {m : Mem} {a v : ℕ} (h : 15 ≤ a) :
    iphdrlen (m.store a 2 v) = iphdrlen m := by
  rw [iphdrlen, Mem.load_store_of_disjoint m (by omega), iphdrlen]

theorem icmph_fold (m : Mem) : m.load 0 1 % 16 * 4 = icmph m := (rfl)

def ipSum (m : Mem) : ℕ := computeChecksum ((m.store 24 2 0).slice 14 (iphdrlen m))

/-- The length that the IP header states, less that of the IP header. -/
def tcpplen (m : Mem) : ℕ := (ntohs (m.load 16 2) + 2 ^ 16 - iphdrlen m) % 2 ^ 16

/-- The length that the UDP header states. -/
def udpplen (m : Mem) : ℕ := ntohs (m.load (transport m + 4) 2)

def tcpSum (m : Mem) : ℕ :=
  computeChecksum (pseudoHeader (m.slice 26 4) (m.slice 30 4) (m.load 23 1) (htons (tcpplen m))
    ++ (m.store (transport m + 16) 2 0).slice (transport m) (tcpplen m))

def udpSum (m : Mem) : ℕ :=
  computeChecksum (pseudoHeader (m.slice 26 4) (m.slice 30 4) (m.load 23 1)
      (m.load (transport m + 4) 2)
    ++ (m.store (transport m + 6) 2 0).slice (transport m) (udpplen m))

def icmpSum (m : Mem) : ℕ := computeChecksum ((m.store (icmph m + 2) 2 0).slice (icmph m) 8)

section

variable (m : Mem)

theorem ipSum_lt : ipSum m < 256 ^ 2 := computeChecksum_lt _

theorem tcpSum_lt : tcpSum m < 256 ^ 2 := computeChecksum_lt _

theorem udpSum_lt : udpSum m < 256 ^ 2 := computeChecksum_lt _

theorem icmpSum_lt : icmpSum m < 256 ^ 2 := computeChecksum_lt _

theorem computeIpChecksum_mem : (computeIpChecksum 14 m).mem = m.store 24 2 (ipSum m) := by
  have hihl : (m.store 24 2 0).load 14 1 = m.load 14 1 :=
    Mem.load_store_of_disjoint m (Or.inl (by decide))
  simp [computeIpChecksum, Mem.store_store, ipSum, iphdrlen, hihl]

theorem computeTcpChecksum_mem :
    (computeTcpChecksum 14 (transport m) m).mem = m.store (transport m + 16) 2 (tcpSum m) := by
  simp [computeTcpChecksum, Mem.store_store, tcpSum, tcpplen, iphdrlen]

theorem computeUdpChecksum_mem :
    (computeUdpChecksum 14 (transport m) m).mem = m.store (transport m + 6) 2 (udpSum m) := by
  simp [computeUdpChecksum, Mem.store_store, udpSum, udpplen]

theorem computeIcmpChecksum_mem :
    (computeIcmpChecksum (icmph m) m).mem = m.store (icmph m + 2) 2 (icmpSum m) := by
  simp [computeIcmpChecksum, Mem.store_store, icmpSum]

@[simp] theorem computeIpChecksum_out (iph : ℕ) : (computeIpChecksum iph m).out = [] := by
  simp [computeIpChecksum]

@[simp] theorem computeTcpChecksum_out (iph tcph : ℕ) :
    (computeTcpChecksum iph tcph m).out = [] := by
  simp [computeTcpChecksum]

@[simp] theorem computeUdpChecksum_out (iph udph : ℕ) :
    (computeUdpChecksum iph udph m).out = [] := by
  simp [computeUdpChecksum]

@[simp] theorem computeIcmpChecksum_out (icmph : ℕ) : (computeIcmpChecksum icmph m).out = [] := by
  simp [computeIcmpChecksum]

end

/-! ## The IP header -/

section

variable (m : Mem)

theorem printIpHeader_mem : (printIpHeader m).mem = m.store 24 2 (ipSum m) := by
  simp [printIpHeader, printEthernetHeader, computeIpChecksum_mem]

theorem printIpHeader_evidence :
    evidence (printIpHeader m).out = [.verdict "Checksum" (m.load 24 2) (ipSum m)] := by
  simp [printIpHeader, printEthernetHeader, computeIpChecksum_mem,
    Mem.load_store_same m (ipSum_lt m)]

@[simp] theorem printIpHeader_reports : reports (printIpHeader m).out = [] := by
  simp [printIpHeader, printEthernetHeader]

theorem readsBelow_printIpHeader {b : ℕ} :
    printIpHeader.ReadsBelow m b ↔ 34 ≤ b ∧ 14 + iphdrlen m ≤ b := by
  have hihl : (m.store 24 2 0).load 14 1 = m.load 14 1 :=
    Mem.load_store_of_disjoint m (Or.inl (by decide))
  simp [printIpHeader, printEthernetHeader, computeIpChecksum, hihl, iphdrlen]
  omega

end

/-! ## Reports

A report rewrites the checksum of the transport header, prints the IP header, which rewrites that
checksum too, and dumps three sections of what is in memory then. -/

/-- The verdicts and dumps of `print_data`. -/
def dump (m : Mem) (data size : ℕ) : List Output := evidence (printData data size m).out

theorem dump_fold (m : Mem) (data size : ℕ) :
    evidence (printData data size m).out = dump m data size := (rfl)

/-- What the four reports differ in: the title, the verdict's name, the checksum field, what is
stored there, and the sections dumped. -/
structure Report where
  title : String
  name : String
  field : ℕ
  sum : ℕ
  sections : List (ℕ × ℕ)

namespace Report

variable (r : Report) (m : Mem)

/-- The memory after the transport checksum is rewritten. -/
def rewritten : Mem := m.store r.field 2 r.sum

/-- The memory after the report. -/
def leave : Mem := (r.rewritten m).store 24 2 (ipSum (r.rewritten m))

def dumps : List Output := r.sections.flatMap fun s ↦ dump m s.1 s.2

/-- The evidence in the report: both verdicts, and the dumps of the memory it leaves. -/
def printed : List Output :=
  .verdict "Checksum" ((r.rewritten m).load 24 2) (ipSum (r.rewritten m))
    :: .verdict r.name (m.load r.field 2) ((r.leave m).load r.field 2) :: r.dumps (r.leave m)

/-- The evidence there is: the verdicts and dumps of the memory as it was. -/
def genuine : List Output :=
  .verdict "Checksum" (m.load 24 2) (ipSum m)
    :: .verdict r.name (m.load r.field 2) r.sum :: r.dumps m

end Report

/-- `x` prints one report, the one that `r` describes. -/
structure Prints (x : Prog Output Unit) (r : Mem → Report) : Prop where
  mem_eq : ∀ m, (x m).mem = (r m).leave m
  evidence_eq : ∀ m, evidence (x m).out = (r m).printed m
  reports_eq : ∀ m, reports (x m).out = [(r m).title]

/-- `tcph->doff * 4` -/
def doffBytes (m : Mem) : ℕ := m.load (transport m + 12) 1 / 16 * 4

/-- The three sections: what is called the IP header, the transport header, and the payload. -/
def sections (size ipLen hdrLen : ℕ) : List (ℕ × ℕ) :=
  [(0, ipLen), (ipLen, hdrLen), (14 + ipLen + hdrLen, payloadSize size (14 + ipLen + hdrLen))]

theorem dumps_sections (title name : String) (field sum size ipLen hdrLen : ℕ) (m : Mem) :
    (Report.mk title name field sum (sections size ipLen hdrLen)).dumps m
      = dump m 0 ipLen ++ (dump m ipLen hdrLen
        ++ dump m (14 + ipLen + hdrLen) (payloadSize size (14 + ipLen + hdrLen))) := by
  simp only [Report.dumps, sections, List.flatMap_cons, List.flatMap_nil, List.append_nil]

def tcpReport (size : ℕ) (m : Mem) : Report :=
  ⟨tcpTitle, "Checksum", transport m + 16, tcpSum m, sections size (iphdrlen m) (doffBytes m)⟩

def udpReport (size : ℕ) (m : Mem) : Report :=
  ⟨udpTitle, "UDP Checksum", transport m + 6, udpSum m, sections size (iphdrlen m) 8⟩

def icmpReport (size : ℕ) (m : Mem) : Report :=
  ⟨icmpTitle, "Checksum", icmph m + 2, icmpSum m, sections size (icmph m) 8⟩

variable (size : ℕ)

theorem doffBytes_fold (m : Mem) : m.load (transport m + 12) 1 / 16 * 4 = doffBytes m := (rfl)

/-- The data offset is read again after both writes, which are elsewhere. -/
theorem load_doff (m : Mem) (sum sum' : ℕ) :
    ((m.store (transport m + 16) 2 sum).store 24 2 sum').load (transport m + 12) 1
      = m.load (transport m + 12) 1 := by
  have htransport := le_transport m
  rw [Mem.load_store_of_disjoint _ (by omega), Mem.load_store_of_disjoint _ (by omega)]

theorem printTcpPacket_prints : Prints (printTcpPacket size) (tcpReport size) where
  mem_eq m := by
    simp only [printTcpPacket, bind_mem, read_mem, read_val, print_mem, printFields_mem,
      printData_mem, printIpHeader_mem, iphdrlen_fold, transport_fold,
      computeTcpChecksum_mem, tcpReport, Report.leave, Report.rewritten]
  evidence_eq m := by
    simp only [printTcpPacket, bind_out, read_mem, read_val, read_out, print_mem, print_out,
      printFields_mem, printData_mem, printIpHeader_mem, iphdrlen_fold, transport_fold,
      computeTcpChecksum_mem, computeTcpChecksum_out, load_doff, doffBytes_fold, evidence_append,
      evidence_text, evidence_title, evidence_verdict, printFields_evidence,
      printIpHeader_evidence, silent_append, List.append_nil, dump_fold]
    simp only [item_append, Report.printed, tcpReport, dumps_sections, Report.leave,
      Report.rewritten, transport_fold]
  reports_eq m := by
    simp only [printTcpPacket, bind_out, read_out, print_out, computeTcpChecksum_out,
      reports_append, reports_text, reports_title, reports_verdict,
      printFields_reports, printIpHeader_reports, printData_reports, silent_append, List.append_nil,
      tcpReport]

theorem printUdpPacket_prints : Prints (printUdpPacket size) (udpReport size) where
  mem_eq m := by
    simp only [printUdpPacket, bind_mem, read_mem, read_val, print_mem, printFields_mem,
      printData_mem, printIpHeader_mem, iphdrlen_fold, transport_fold,
      computeUdpChecksum_mem, udpReport, Report.leave, Report.rewritten]
  evidence_eq m := by
    simp only [printUdpPacket, bind_out, read_mem, read_val, read_out, print_mem, print_out,
      printFields_mem, printData_mem, printIpHeader_mem, iphdrlen_fold, transport_fold,
      computeUdpChecksum_mem, computeUdpChecksum_out, evidence_append, evidence_text,
      evidence_title, evidence_verdict, printFields_evidence, printIpHeader_evidence,
      silent_append, List.append_nil, dump_fold]
    simp only [item_append, Report.printed, udpReport, dumps_sections, Report.leave,
      Report.rewritten, transport_fold]
  reports_eq m := by
    simp only [printUdpPacket, bind_out, read_out, print_out, computeUdpChecksum_out,
      reports_append, reports_text, reports_title, reports_verdict,
      printFields_reports, printIpHeader_reports, printData_reports, silent_append, List.append_nil,
      udpReport]

theorem printIcmpPacket_prints : Prints (printIcmpPacket size) (icmpReport size) where
  mem_eq m := by
    simp only [printIcmpPacket, bind_mem, read_mem, read_val, print_mem, printFields_mem,
      printData_mem, printIpHeader_mem, icmph_fold,
      computeIcmpChecksum_mem, icmpReport, Report.leave, Report.rewritten]
  evidence_eq m := by
    simp only [printIcmpPacket, bind_out, read_mem, read_val, read_out, print_mem, print_out,
      printFields_mem, printData_mem, printIpHeader_mem, icmph_fold,
      computeIcmpChecksum_mem, computeIcmpChecksum_out, evidence_append, evidence_text,
      evidence_title, evidence_verdict, printFields_evidence, printIpHeader_evidence,
      silent_append, List.append_nil, dump_fold]
    simp only [item_append, Report.printed, icmpReport, dumps_sections, Report.leave,
      Report.rewritten]
  reports_eq m := by
    simp only [printIcmpPacket, bind_out, read_out, print_out, computeIcmpChecksum_out,
      reports_append, reports_text, reports_title, reports_verdict,
      printFields_reports, printIpHeader_reports, printData_reports, silent_append, List.append_nil,
      icmpReport]

end AllProjects.PcapSniffer
