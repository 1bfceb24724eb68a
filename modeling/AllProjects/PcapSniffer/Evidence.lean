import AllProjects.PcapSniffer.Handler

/-!
# Reports change the evidence

The checksums are recomputed in the frame itself and the results stay there. So a report leaves the
frame as it was only where the fields already hold what is stored in them, and the dumps, which are
printed last, show the frame as rewritten. A UDP packet may be reported twice: then the second
report judges the checksums that the first has written.

A report of its own is described by `Report`: one lemma says when it prints the genuine verdicts and
dumps and leaves the captured bytes alone. What is left for the protocols is where their fields are.
-/

namespace AllProjects.PcapSniffer

open Prog

/-! ## What a dump shows -/

namespace Output

@[simp] def hex? : Output → Option ℕ
  | hex b => some b
  | _ => none

@[simp] def verdict? : Output → Option (String × ℕ × ℕ)
  | verdict s back sum => some (s, back, sum)
  | _ => none

end Output

/-- The bytes in a dump. -/
def hexes (out : List Output) : List ℕ := out.filterMap Output.hex?

/-- The verdicts in an output. -/
def verdicts (out : List Output) : List (String × ℕ × ℕ) := out.filterMap Output.verdict?

@[simp] theorem hexes_nil : hexes [] = [] := rfl

@[simp] theorem hexes_cons (o : Output) (os : List Output) :
    hexes (o :: os) = o.hex?.toList ++ hexes os := by
  rw [hexes, hexes, List.filterMap_cons]
  cases o.hex? <;> rfl

@[simp] theorem hexes_append (o o' : List Output) : hexes (o ++ o') = hexes o ++ hexes o' :=
  List.filterMap_append ..

theorem hexes_flatMap {α : Type} (l : List α) (f : α → List Output) :
    hexes (l.flatMap f) = l.flatMap fun i ↦ hexes (f i) := List.filterMap_flatMap ..

theorem hexes_evidence (out : List Output) : hexes (evidence out) = hexes out := by
  induction out with
  | nil => rfl
  | cons o os ih => cases o <;> simp [ih]

@[simp] theorem verdicts_append (o o' : List Output) :
    verdicts (o ++ o') = verdicts o ++ verdicts o' := List.filterMap_append ..

@[simp] theorem verdicts_cons (s : String) (back sum : ℕ) (os : List Output) :
    verdicts (.verdict s back sum :: os) = (s, back, sum) :: verdicts os := rfl

section

variable (data start count size i : ℕ) {m m' : Mem}

@[simp] theorem hexes_printRow (m : Mem) : hexes (printRow data start count m).out = [] := by
  rw [printRow, forRange_out fun _ _ ↦ rfl, hexes_flatMap]
  simp

@[simp] theorem hexes_padding (m : Mem) (s : String) :
    hexes (forRange (fun _ ↦ print (Output.text s)) start count m).out = [] := by
  rw [forRange_out fun _ _ ↦ rfl, hexes_flatMap]
  simp

theorem hexes_printByte (m : Mem) :
    hexes (printByte data size i m).out = [m.load (data + i) 1] := by
  simp only [printByte]
  split <;> split <;> split <;> simp

theorem hexes_dump (m : Mem) : hexes (dump m data size) = (m.slice data size).map UInt8.toNat := by
  rw [dump, hexes_evidence, printData, forRange_out fun i m ↦ printByte_mem data size i m,
    hexes_flatMap]
  simp only [hexes_printByte, Mem.load_one]
  rw [← List.map_eq_flatMap, Mem.slice, List.map_map, List.range_eq_range']
  rfl

theorem verdicts_dump (m : Mem) : verdicts (dump m data size) = [] := by
  rw [verdicts, List.filterMap_eq_nil_iff]
  intro o ho
  have hdump := dumpOnly_printData data size m o (List.mem_of_mem_filter ho)
  cases o <;> simp_all

theorem printRow_congr (h : ∀ j, start ≤ j → j < start + count → m (data + j) = m' (data + j)) :
    (printRow data start count m).out = (printRow data start count m').out := by
  rw [printRow, forRange_out fun _ _ ↦ rfl, forRange_out fun _ _ ↦ rfl]
  apply List.flatMap_congr
  intro j hj
  rw [List.mem_range'_1] at hj
  simp [Mem.load_one, h j hj.1 hj.2]

theorem printByte_congr (h : ∀ j, j ≤ i → m (data + j) = m' (data + j)) :
    (printByte data size i m).out = (printByte data size i m').out := by
  have hload : m.load (data + i) 1 = m'.load (data + i) 1 := by
    rw [Mem.load_one, Mem.load_one, h i le_rfl]
  have hfull : i ≠ 0 ∧ i % 16 = 0 →
      (printRow data (i - 16) 16 m).out = (printRow data (i - 16) 16 m').out := by
    intro hi
    apply printRow_congr
    intro j _ hj
    exact h j (by omega)
  have hlast : (printRow data (i - i % 16) (i % 16 + 1) m).out
      = (printRow data (i - i % 16) (i % 16 + 1) m').out := by
    apply printRow_congr
    intro j _ hj
    exact h j (by omega)
  have hpad : ∀ n, (forRange (fun _ ↦ print (Output.text "   ")) 0 n m).out
      = (forRange (fun _ ↦ print (Output.text "   ")) 0 n m').out := by
    intro n
    rw [forRange_out fun _ _ ↦ rfl, forRange_out fun _ _ ↦ rfl]
    rfl
  simp only [printByte]
  split
  case isTrue hi => split <;> split <;> simp [hload, hlast, hpad, hfull hi]
  case isFalse hi => split <;> split <;> simp [hload, hlast, hpad]

theorem dump_congr (h : ∀ j, data ≤ j → j < data + size → m j = m' j) :
    dump m data size = dump m' data size := by
  have hmem := fun i m ↦ printByte_mem data size i m
  rw [dump, dump, printData, forRange_out hmem, forRange_out hmem]
  congr 1
  apply List.flatMap_congr
  intro i hi
  rw [List.mem_range'_1] at hi
  apply printByte_congr
  intro j hj
  exact h _ (by omega) (by omega)

theorem eq_of_slice_toNat_eq
    (h : (m.slice data size).map UInt8.toNat = (m'.slice data size).map UInt8.toNat) {j : ℕ}
    (hle : data ≤ j) (hlt : j < data + size) : m j = m' j := by
  have hslice := List.map_injective_iff.mpr (fun _ _ ↦ UInt8.toNat_inj.mp) h
  have hbyte := congrArg (·[j - data]?) hslice
  simp only [Mem.getElem?_slice _ (show j - data < size by omega), Nat.add_sub_cancel' hle,
    Option.some.injEq] at hbyte
  exact hbyte

end

theorem flatMap_eq_iff {α β : Type} {l : List α} {f g : α → List β}
    (hlen : ∀ a ∈ l, (f a).length = (g a).length) :
    l.flatMap f = l.flatMap g ↔ ∀ a ∈ l, f a = g a := by
  induction l with
  | nil => simp
  | cons a l ih =>
    rw [List.forall_mem_cons] at hlen ⊢
    rw [List.flatMap_cons, List.flatMap_cons, ← ih hlen.2]
    constructor
    · intro h
      exact List.append_inj h hlen.1
    · rintro ⟨hhead, htail⟩
      rw [hhead, htail]

/-! ## One report -/

namespace Report

variable (r : Report) {m m' : Mem}

/-- The report dumps the byte. -/
def Dumped (i : ℕ) : Prop := ∃ s ∈ r.sections, s.1 ≤ i ∧ i < s.1 + s.2

theorem dumps_eq_iff : r.dumps m = r.dumps m' ↔ ∀ i, r.Dumped i → m i = m' i := by
  constructor
  · intro h
    rintro i ⟨s, hs, hle, hlt⟩
    have hhex := congrArg hexes h
    rw [dumps, dumps, hexes_flatMap, hexes_flatMap] at hhex
    simp only [hexes_dump] at hhex
    have hpart := (flatMap_eq_iff fun s _ ↦ by simp).mp hhex s hs
    exact eq_of_slice_toNat_eq s.1 s.2 hpart hle hlt
  · intro h
    apply List.flatMap_congr
    intro s hs
    apply dump_congr
    intro j hle hlt
    exact h j ⟨s, hs, hle, hlt⟩

/-- The checksum fields hold what the report stores in them, as far as `V` can see. -/
def Settled (m : Mem) (V : ℕ → Prop) : Prop :=
  ∀ i, V i → m.store r.field 2 r.sum i = m i ∧ m.store 24 2 (ipSum m) i = m i

/-- What a report must find: the IP header and its checksum are not touched by the first write. -/
theorem ipSum_store {a v : ℕ} (h : 14 + iphdrlen m ≤ a) (ha : 15 ≤ a) :
    ipSum (m.store a 2 v) = ipSum m := by
  rw [ipSum, ipSum, iphdrlen_store ha]
  congr 1
  apply Mem.slice_congr
  intro x _ hx
  exact Mem.store_congr (Mem.store_of_lt m (by omega))

theorem ipSum_store_check (v : ℕ) : ipSum (m.store 24 2 v) = ipSum m := by
  rw [ipSum, ipSum, iphdrlen_store (by decide), Mem.store_store]

theorem settled_univ_iff (hsum : r.sum < 256 ^ 2) :
    r.Settled m (fun _ ↦ True) ↔ m.load r.field 2 = r.sum ∧ m.load 24 2 = ipSum m := by
  rw [← Mem.store_eq_self_iff hsum, ← Mem.store_eq_self_iff (ipSum_lt m), funext_iff, funext_iff,
    ← forall_and]
  simp only [Settled, true_implies]

theorem once_iff {V : ℕ → Prop} (hsum : r.sum < 256 ^ 2)
    (hdisj : r.field + 2 ≤ 24 ∨ 26 ≤ r.field)
    (hip : (∀ i, r.Dumped i → m.store r.field 2 r.sum i = m i) →
      ipSum (r.rewritten m) = ipSum m) :
    (∀ i, V i → r.leave m i = m i) ∧ r.printed m = r.genuine m
      ↔ r.Settled m fun i ↦ V i ∨ r.Dumped i := by
  have hleave : ipSum (r.rewritten m) = ipSum m → ∀ i, r.leave m i = m i
      ↔ m.store r.field 2 r.sum i = m i ∧ m.store 24 2 (ipSum m) i = m i := by
    intro heq i
    rw [leave, heq, rewritten]
    exact Mem.store_store_apply_eq_iff m hdisj i
  have hback : (r.rewritten m).load 24 2 = m.load 24 2 :=
    Mem.load_store_of_disjoint m (by omega)
  have hown : (r.leave m).load r.field 2 = r.sum := by
    rw [leave, Mem.load_store_of_disjoint _ (by omega), rewritten, Mem.load_store_same m hsum]
  have hprinted : r.printed m = r.genuine m
      ↔ ipSum (r.rewritten m) = ipSum m ∧ ∀ i, r.Dumped i → r.leave m i = m i := by
    rw [printed, genuine, hback, hown, ← dumps_eq_iff]
    simp
  rw [hprinted]
  constructor
  · rintro ⟨hcaptured, heq, hdumped⟩ i hi
    rw [← hleave heq]
    exact hi.elim (hcaptured i) (hdumped i)
  · intro hset
    have heq := hip fun i hi ↦ (hset i (Or.inr hi)).1
    refine ⟨?_, heq, ?_⟩
    · intro i hi
      exact (hleave heq i).mpr (hset i (Or.inl hi))
    · intro i hi
      exact (hleave heq i).mpr (hset i (Or.inr hi))

/-- A report whose field is the IP checksum: the IP header is judged by the transport checksum. -/
theorem once_iff_of_overlap {V : ℕ → Prop} (hsum : r.sum < 256 ^ 2) (hfield : r.field = 24) :
    (∀ i, V i → r.leave m i = m i) ∧ r.printed m = r.genuine m
      ↔ r.Settled m fun _ ↦ True := by
  have hleave : r.leave m = m.store 24 2 (ipSum m) := by
    rw [leave, rewritten, hfield, ipSum_store_check, Mem.store_store]
  have hback : (r.rewritten m).load 24 2 = r.sum := by
    rw [rewritten, hfield, Mem.load_store_same m hsum]
  rw [settled_univ_iff r hsum, hfield]
  constructor
  · rintro ⟨-, h⟩
    rw [printed, genuine, hback, hleave, hfield, Mem.load_store_same m (ipSum_lt m)] at h
    simp only [List.cons.injEq, Output.verdict.injEq, true_and] at h
    obtain ⟨⟨hsum24, -⟩, hip, -⟩ := h
    exact ⟨hsum24.symm, hsum24.symm.trans hip.symm⟩
  · rintro ⟨hold, hip⟩
    have hsame : r.leave m = m := by rw [hleave, ← hip, Mem.store_load]
    refine ⟨fun i _ ↦ by rw [hsame], ?_⟩
    rw [printed, genuine, hback, hsame, hfield, rewritten, hfield, ipSum_store_check, hold]

theorem verdicts_dumps : verdicts (r.dumps m) = [] := by
  rw [dumps, verdicts, List.filterMap_flatMap, List.flatMap_eq_nil_iff]
  intro s _
  exact verdicts_dump s.1 s.2 m

theorem verdicts_printed :
    verdicts (r.printed m)
      = [("Checksum", (r.rewritten m).load 24 2, ipSum (r.rewritten m)),
        (r.name, m.load r.field 2, (r.leave m).load r.field 2)] := by
  rw [printed, verdicts_cons, verdicts_cons, verdicts_dumps]

theorem verdicts_genuine :
    verdicts (r.genuine m)
      = [("Checksum", m.load 24 2, ipSum m), (r.name, m.load r.field 2, r.sum)] := by
  rw [genuine, verdicts_cons, verdicts_cons, verdicts_dumps]

/-- Two reports in a row: the second judges what the first has stored, so both fields must hold
that before. -/
theorem twice_iff {r' : Report} {V : ℕ → Prop} (hsum : r.sum < 256 ^ 2)
    (hfield : r'.field = r.field) (hplace : r.field = 24 ∨ r.field + 2 ≤ 24 ∨ 26 ≤ r.field)
    (hip : ipSum (r.rewritten m) = ipSum m) (hsame : r.leave m = m → r' = r) :
    (∀ i, V i → r'.leave (r.leave m) i = m i)
        ∧ r.printed m ++ r'.printed (r.leave m) = r.genuine m ++ r.genuine m
      ↔ r.Settled m fun _ ↦ True := by
  rw [settled_univ_iff r hsum]
  constructor
  · rintro ⟨-, h⟩
    have hv := congrArg verdicts h
    simp only [verdicts_append, verdicts_printed, verdicts_genuine, List.cons_append,
      List.nil_append, List.cons.injEq, Prod.mk.injEq, true_and, hip, hfield, and_true] at hv
    obtain ⟨-, hown, ⟨hback, -⟩, -, hback', -⟩ := hv
    have hstored : (r.leave m).load 24 2 = ipSum m := by
      rw [leave, Mem.load_store_same _ (ipSum_lt _), hip]
    refine ⟨by rw [← hback', hown], ?_⟩
    obtain hover | hdisj := hplace
    · rw [hover, hstored] at hback'
      exact hback'.symm
    · rw [rewritten, Mem.load_store_of_disjoint _ (by omega), hstored] at hback
      exact hback.symm
  · rintro ⟨hold, hold24⟩
    have hrewritten : r.rewritten m = m := (Mem.store_eq_self_iff hsum).mpr hold
    have hleave : r.leave m = m := by
      rw [leave, hrewritten]
      exact (Mem.store_eq_self_iff (ipSum_lt m)).mpr hold24
    have hgenuine : r.printed m = r.genuine m := by
      rw [printed, genuine, hleave, hrewritten, hold]
    rw [hleave, hsame hleave, hleave, hgenuine]
    exact ⟨fun _ _ ↦ rfl, rfl⟩

end Report

/-! ## Where the fields are -/

section

variable (size : ℕ) (m : Mem)

theorem iphdrlen_cases : iphdrlen m = 0 ∨ iphdrlen m = 4 ∨ 8 ≤ iphdrlen m := by
  rw [iphdrlen]
  omega

theorem tcp_once_iff {V : ℕ → Prop} :
    (∀ i, V i → (tcpReport size m).leave m i = m i)
        ∧ (tcpReport size m).printed m = (tcpReport size m).genuine m
      ↔ (tcpReport size m).Settled m fun i ↦ V i ∨ (tcpReport size m).Dumped i := by
  have hfield : (tcpReport size m).field = 30 + iphdrlen m := by
    simp only [tcpReport, transport]
    omega
  apply (tcpReport size m).once_iff (tcpSum_lt m) (by omega)
  intro _
  exact Report.ipSum_store (by omega) (by omega)

theorem icmp_once_iff {V : ℕ → Prop} :
    (∀ i, V i → (icmpReport size m).leave m i = m i)
        ∧ (icmpReport size m).printed m = (icmpReport size m).genuine m
      ↔ (icmpReport size m).Settled m fun i ↦ V i ∨ (icmpReport size m).Dumped i := by
  have hfield : (icmpReport size m).field = icmph m + 2 := rfl
  have hplace : icmph m + 2 + 2 ≤ 24 ∨ 26 ≤ icmph m + 2 := by
    rw [icmph]
    omega
  apply (icmpReport size m).once_iff (icmpSum_lt m) hplace
  intro hdumped
  -- The ICMP checksum is among the eight bytes dumped, so the first write changes nothing.
  have hsame : (icmpReport size m).rewritten m = m := by
    funext i
    by_cases hi : icmph m + 2 ≤ i ∧ i < icmph m + 2 + 2
    · apply hdumped
      refine ⟨(icmph m, 8), by simp [icmpReport, sections], ?_⟩
      dsimp only
      omega
    · exact Mem.store_apply_of_disjoint m (by rw [hfield]; omega)
  rw [hsame]

theorem udp_field : (udpReport size m).field = 20 + iphdrlen m := by
  simp only [udpReport, transport]
  omega

theorem udp_leave_iphdrlen : iphdrlen ((udpReport size m).leave m) = iphdrlen m := by
  have hfield := udp_field size m
  rw [Report.leave, iphdrlen_store (by decide), Report.rewritten, iphdrlen_store (by omega)]

theorem udp_once_iff {V : ℕ → Prop} :
    (∀ i, V i → (udpReport size m).leave m i = m i)
        ∧ (udpReport size m).printed m = (udpReport size m).genuine m
      ↔ (udpReport size m).Settled m fun i ↦
        V i ∨ (udpReport size m).Dumped i ∨ iphdrlen m = 4 := by
  have hfield := udp_field size m
  by_cases hover : iphdrlen m = 4
  · simp only [hover, or_true]
    exact (udpReport size m).once_iff_of_overlap (udpSum_lt m) (by omega)
  · simp only [hover, or_false]
    have hcases := iphdrlen_cases m
    apply (udpReport size m).once_iff (udpSum_lt m) (by omega)
    intro _
    exact Report.ipSum_store (by omega) (by omega)

theorem udp_twice_iff {V : ℕ → Prop} :
    (∀ i, V i → (udpReport size ((udpReport size m).leave m)).leave ((udpReport size m).leave m) i
          = m i)
        ∧ (udpReport size m).printed m
            ++ (udpReport size ((udpReport size m).leave m)).printed ((udpReport size m).leave m)
          = (udpReport size m).genuine m ++ (udpReport size m).genuine m
      ↔ (udpReport size m).Settled m fun _ ↦ True := by
  have hfield := udp_field size m
  have hcases := iphdrlen_cases m
  apply @Report.twice_iff (udpReport size m) m (udpReport size ((udpReport size m).leave m)) V
    (udpSum_lt m)
  · rw [udp_field, udp_field, udp_leave_iphdrlen]
  · omega
  · by_cases hover : iphdrlen m = 4
    · have h24 : (udpReport size m).field = 24 := by omega
      rw [Report.rewritten, h24, Report.ipSum_store_check]
    · exact Report.ipSum_store (by omega) (by omega)
  · intro hsame
    rw [hsame]

end

/-! ## The evidence of a frame -/

/-- The verdicts and dumps of the frame as it was captured. -/
def genuineEvidence (size : ℕ) (m : Mem) : List Output :=
  match protocol m with
  | 1 => (icmpReport size m).genuine m
  | 6 => (tcpReport size m).genuine m
  | 17 => (udpReport size m).genuine m
  | _ => []

/-- The handler leaves every captured byte as it was, and what it prints of verdicts and dumps is
the genuine evidence, once for every report. -/
def Faithful (args : Option (List UInt8)) (f : Frame) : Prop :=
  ∀ st : Stats,
    (∀ i, i < f.caplen → (pcktHndl args f.len st f.mem).mem i = f.mem i)
      ∧ evidence (pcktHndl args f.len st f.mem).out
        = (List.replicate (reports (pcktHndl args f.len st f.mem).out).length
          (genuineEvidence f.len f.mem)).flatten

/-- The checksum fields hold what is computed for them, in every byte that is captured or dumped. If
a UDP packet is reported twice, or its IP header is one word long so that the two fields are the
same, in every byte. -/
def ChecksumsSettled (args : Option (List UInt8)) (f : Frame) : Prop :=
  match protocol f.mem with
  | 1 => (icmpReport f.len f.mem).Settled f.mem fun i ↦
      i < f.caplen ∨ (icmpReport f.len f.mem).Dumped i
  | 6 => found args f.len f.mem = true → (tcpReport f.len f.mem).Settled f.mem fun i ↦
      i < f.caplen ∨ (tcpReport f.len f.mem).Dumped i
  | 17 => (udpReport f.len f.mem).Settled f.mem fun i ↦
      i < f.caplen ∨ (udpReport f.len f.mem).Dumped i ∨ iphdrlen f.mem = 4
        ∨ found args f.len f.mem = true
  | _ => True

section

variable (args : Option (List UInt8)) (size : ℕ) (st : Stats) (m : Mem)

theorem icmp_mem : (dispatch args size st 1 m).mem = (icmpReport size m).leave m := by
  rw [dispatch, bind_mem, pure_mem, (printIcmpPacket_prints size).mem_eq]

theorem icmp_evidence :
    evidence (dispatch args size st 1 m).out = (icmpReport size m).printed m := by
  rw [dispatch, bind_out, pure_out, List.append_nil, (printIcmpPacket_prints size).evidence_eq]

theorem icmp_reports : reports (dispatch args size st 1 m).out = [icmpTitle] := by
  rw [dispatch, bind_out, pure_out, List.append_nil, (printIcmpPacket_prints size).reports_eq]
  rfl

theorem tcp_mem :
    (dispatch args size st 6 m).mem
      = if found args size m then (tcpReport size m).leave m else m := by
  rw [dispatch, bind_mem, pure_mem, reportIfFound_mem, (printTcpPacket_prints size).mem_eq]

theorem tcp_evidence :
    evidence (dispatch args size st 6 m).out
      = if found args size m then (tcpReport size m).printed m else [] := by
  rw [dispatch, bind_out, pure_out, List.append_nil, reportIfFound_out, apply_ite evidence,
    (printTcpPacket_prints size).evidence_eq, evidence_nil]

/-- The memory in which the second report on a UDP packet starts. -/
def udpMem : Mem := if found args size m then (udpReport size m).leave m else m

theorem udp_mem :
    (dispatch args size st 17 m).mem
      = (udpReport size (udpMem args size m)).leave (udpMem args size m) := by
  rw [dispatch, bind_mem, bind_mem, pure_mem, reportIfFound_mem,
    (printUdpPacket_prints size).mem_eq, (printUdpPacket_prints size).mem_eq, udpMem]

theorem udp_evidence :
    evidence (dispatch args size st 17 m).out
      = (if found args size m then (udpReport size m).printed m else [])
        ++ (udpReport size (udpMem args size m)).printed (udpMem args size m) := by
  rw [dispatch, bind_out, bind_out, pure_out, List.append_nil, evidence_append, reportIfFound_out,
    apply_ite evidence, reportIfFound_mem, (printUdpPacket_prints size).evidence_eq,
    (printUdpPacket_prints size).evidence_eq, (printUdpPacket_prints size).mem_eq, evidence_nil,
    udpMem]

end

/-- **Reports change the evidence.** The frame and the evidence in the output stay what they were
exactly when the checksums are already what the handler computes. -/
theorem faithful_iff (args : Option (List UInt8)) (f : Frame) :
    Faithful args f ↔ ChecksumsSettled args f := by
  simp only [Faithful, pcktHndl_mem, pcktHndl_evidence, pcktHndl_reports]
  obtain hp | hp | hp | hp | hp := protocol_cases (protocol f.mem)
  · simp only [hp, icmp_mem, icmp_evidence, icmp_reports, genuineEvidence, ChecksumsSettled,
      List.length_singleton, List.replicate_one, List.flatten_cons, List.flatten_nil,
      List.append_nil, forall_const]
    exact icmp_once_iff ..
  · simp [hp, dispatch, ChecksumsSettled]
  · simp only [hp, tcp_mem, tcp_evidence, tcp_reports, genuineEvidence, ChecksumsSettled]
    cases found args f.len f.mem
    · simp
    · simp only [if_true, List.length_singleton, List.replicate_one, List.flatten_cons,
        List.flatten_nil, List.append_nil, forall_const]
      exact tcp_once_iff ..
  · simp only [hp, udp_mem, udp_evidence, udp_reports, genuineEvidence, ChecksumsSettled, udpMem]
    cases found args f.len f.mem
    · simp only [Bool.false_eq_true, if_false, silent_append, List.length_singleton,
        List.replicate_one, List.flatten_cons, List.flatten_nil, List.append_nil, forall_const,
        or_false]
      exact udp_once_iff ..
    · have htwice : ∀ l : List Output,
          (List.replicate ([udpTitle] ++ [udpTitle]).length l).flatten = l ++ l := by
        intro l
        simp [List.replicate_succ]
      simp only [if_true, htwice, forall_const, or_true]
      exact udp_twice_iff ..
  · obtain ⟨h1, h2, h6, h17⟩ := hp
    simp [dispatch_other, genuineEvidence, ChecksumsSettled, h1, h2, h6, h17]

/-- A TCP packet as a sender with checksum offloading hands it to its own capture: both checksums
are still zero. -/
def tcpFrame : Frame := frameOf
  [0, 0, 0, 0, 0, 0, 0, 0, 0, 0, 0, 0, 8, 0,
    0x45, 0, 0, 40, 0, 0, 0, 0, 64, 6, 0, 0, 10, 0, 0, 1, 10, 0, 0, 2,
    0, 80, 0, 80, 0, 0, 0, 1, 0, 0, 0, 0, 0x50, 2, 4, 0, 0, 0, 0, 0] (by decide)

/-- Its IP checksum is overwritten. -/
theorem tcpFrame_overwritten : ¬ Faithful none tcpFrame := by
  intro h
  have hbyte := (h {}).1 24 (by decide)
  have htcp : protocol tcpFrame.mem = 6 := by decide
  rw [pcktHndl_mem, htcp, tcp_mem] at hbyte
  exact absurd hbyte (by decide +kernel)

end AllProjects.PcapSniffer
