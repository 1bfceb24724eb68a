import AllProjects.PcapSniffer.Dumps
import AllProjects.Transition.Loop

/-!
# Two hex dumps

`ping` and `traceroute` print packets with the same `print_data`, except for the counters of its
loops: `traceroute` has them as `int`, `ping` as `uint8_t`. Up to 255 bytes that makes no
difference, and the text is the one that the sniffer prints too. From 256 bytes on the counter of
`ping` is below the size forever.
-/

namespace AllProjects.IcmpRawSocket

open PcapSniffer (Output printable closeRow byteItems)

/-! ## The dump -/

section

variable (wrap : ℕ → ℕ) (fuel : ℕ) (m : Mem) (data size : ℕ)

/-- A loop over the counter `j`, from `start` on. What is assigned to a counter goes through
`wrap`. -/
def forCounter (start : ℕ) (cond : ℕ → Bool) (body : ℕ → Option (List Output)) :
    Option (List Output) :=
  forLoop (fun j ↦ wrap (j + 1)) cond body fuel (wrap start)

/-- The bytes as characters, as long as the condition holds. -/
def printRow (start : ℕ) (cond : ℕ → Bool) : Option (List Output) :=
  forCounter wrap fuel start cond fun j ↦ some [.char (printable (m (data + j)).toNat)]

/-- The characters of a row, when the next row starts. -/
def rowBefore (i : ℕ) : Option (List Output) :=
  if i ≠ 0 ∧ i % 16 = 0 then do
    let row ← printRow wrap fuel m data (i - 16) (· < i)
    some (.text "         " :: row ++ [.text "\n"])
  else some []

/-- The rest of the last row. -/
def rowAtEnd (i : ℕ) : Option (List Output) :=
  if i = size - 1 then do
    let padding ← forCounter wrap fuel 0 (· < 15 - i % 16) fun _ ↦ some [.text "   "]
    let row ← printRow wrap fuel m data (i - i % 16) (· ≤ i)
    some (padding ++ .text "         " :: row ++ [.text "\n"])
  else some []

/-- One round of `print_data`. -/
def printByte (i : ℕ) : Option (List Output) := do
  let before ← rowBefore wrap fuel m data i
  let rest ← rowAtEnd wrap fuel m data size i
  some (before ++ ((if i % 16 = 0 then [.text "   "] else []) ++ [.hex (m (data + i)).toNat])
    ++ rest)

/-- `print_data` -/
def printData : Option (List Output) :=
  forCounter wrap fuel 0 (· < size) (printByte wrap fuel m data size)

end

/-- With counters of 8 bits. -/
def Ping.printData : ℕ → Mem → ℕ → ℕ → Option (List Output) :=
  IcmpRawSocket.printData fun i ↦ i % 2 ^ 8

/-- With counters that hold every size. -/
def Traceroute.printData : ℕ → Mem → ℕ → ℕ → Option (List Output) :=
  IcmpRawSocket.printData fun i ↦ i

/-- The dump of `ping` ends, and the one of `traceroute` ends with the same text. -/
def DumpsAlike (m : Mem) (data size : ℕ) : Prop :=
  ∃ out, Writes (fun fuel ↦ Ping.printData fuel m data size) out
    ∧ Writes (fun fuel ↦ Traceroute.printData fuel m data size) out

/-! ## Counters that do not wrap around -/

variable {wrap : ℕ → ℕ} {m : Mem} {data size : ℕ}

theorem writes_forCounter {body : ℕ → ℕ → Option (List Output)} {out : ℕ → List Output}
    {start n : ℕ} {cond : ℕ → Bool} (hwrap : ∀ j, j ≤ start + n → wrap j = j)
    (hround : ∀ i, start ≤ i → i < start + n →
      cond i = true ∧ Writes (fun fuel ↦ body fuel i) (out i))
    (hend : cond (start + n) = false) :
    Writes (fun fuel ↦ forCounter wrap fuel start cond (body fuel))
      ((List.range' start n).flatMap out) := by
  simp only [forCounter, hwrap start (Nat.le_add_right _ _)]
  apply writes_forLoop _ hend
  intro i hi hlt
  exact ⟨(hround i hi hlt).1, hwrap (i + 1) (by omega), (hround i hi hlt).2⟩

theorem writes_printRow {start n : ℕ} {cond : ℕ → Bool} (hwrap : ∀ j, j ≤ start + n → wrap j = j)
    (hcond : ∀ i, start ≤ i → i < start + n → cond i = true) (hend : cond (start + n) = false) :
    Writes (fun fuel ↦ printRow wrap fuel m data start cond)
      ((m.slice (data + start) n).map fun b ↦ .char (printable b.toNat)) := by
  have hchars : (m.slice (data + start) n).map (fun b ↦ Output.char (printable b.toNat))
      = (List.range' start n).flatMap fun j ↦ [.char (printable (m (data + j)).toNat)] := by
    rw [Mem.slice, List.map_map, List.range'_eq_map_range, List.flatMap_map, List.map_eq_flatMap]
    apply List.flatMap_congr
    intro j _
    rw [← add_assoc]
    rfl
  rw [hchars]
  exact writes_forCounter hwrap (fun i hi hlt ↦ ⟨hcond i hi hlt, writes_some _⟩) hend

theorem writes_padding {n : ℕ} (hwrap : ∀ j, j ≤ n → wrap j = j) :
    Writes (fun fuel ↦ forCounter wrap fuel 0 (· < n) fun _ ↦ some [.text "   "])
      (List.replicate n (.text "   ")) := by
  have hpad : List.replicate n (Output.text "   ")
      = (List.range' 0 n).flatMap fun _ ↦ [.text "   "] := by
    rw [← List.map_eq_flatMap, List.map_const', List.length_range']
  rw [hpad]
  refine writes_forCounter (by simpa using hwrap) (fun i _ hlt ↦ ⟨?_, writes_some _⟩) ?_
  · rw [decide_eq_true_iff]
    omega
  · rw [decide_eq_false_iff_not]
    omega

theorem writes_rowBefore {i : ℕ} (hwrap : ∀ j, j ≤ i → wrap j = j) :
    Writes (fun fuel ↦ rowBefore wrap fuel m data i)
      (if i ≠ 0 ∧ i % 16 = 0 then closeRow (m.slice (data + (i - 16)) 16) else []) := by
  by_cases hi : i ≠ 0 ∧ i % 16 = 0
  · have hstart : i - 16 + 16 = i := by omega
    simp only [rowBefore, if_pos hi]
    refine Writes.bind (writes_printRow (n := 16) ?_ ?_ ?_) ?_
    · rwa [hstart]
    · intro j _ hlt
      rw [decide_eq_true_iff]
      omega
    · rw [decide_eq_false_iff_not]
      omega
    · rw [closeRow, Mem.length_slice]
      exact writes_some _
  · simp only [rowBefore, if_neg hi]
    exact writes_some _

theorem writes_rowAtEnd {i : ℕ} (hwrap : ∀ j, j ≤ i + 1 → wrap j = j)
    (hpad : ∀ j, j ≤ 15 → wrap j = j) : Writes (fun fuel ↦ rowAtEnd wrap fuel m data size i)
      (if i = size - 1 then closeRow (m.slice (data + (i - i % 16)) (i % 16 + 1)) else []) := by
  by_cases hi : i = size - 1
  · have hmod : i % 16 < 16 := Nat.mod_lt _ (by decide)
    have hle : i % 16 ≤ i := Nat.mod_le i 16
    simp only [rowAtEnd, if_pos hi]
    -- the padding counts to 15 at most, the row to the end of the packet
    refine Writes.bind (writes_padding ?_)
      (Writes.bind (writes_printRow (n := i % 16 + 1) ?_ ?_ ?_) ?_)
    · intro j hj
      exact hpad j (by omega)
    · intro j hj
      exact hwrap j (by omega)
    · intro j _ hlt
      rw [decide_eq_true_iff]
      omega
    · rw [decide_eq_false_iff_not]
      omega
    · rw [closeRow, Mem.length_slice, show 16 - (i % 16 + 1) = 15 - i % 16 by omega]
      exact writes_some _
  · simp only [rowAtEnd, if_neg hi]
    exact writes_some _

theorem writes_printByte {i : ℕ} (hwrap : ∀ j, j ≤ i + 1 → wrap j = j)
    (hpad : ∀ j, j ≤ 15 → wrap j = j) : Writes (fun fuel ↦ printByte wrap fuel m data size i)
      (PcapSniffer.printByte data size i m).out := by
  rw [PcapSniffer.printByte_out, byteItems]
  refine Writes.bind (writes_rowBefore fun j hj ↦ hwrap j (by omega)) ?_
  refine Writes.bind (writes_rowAtEnd hwrap hpad) ?_
  exact writes_some _

theorem writes_printData (hwrap : ∀ j, j ≤ size → wrap j = j) (hpad : ∀ j, j ≤ 15 → wrap j = j) :
    Writes (fun fuel ↦ printData wrap fuel m data size)
      (PcapSniffer.printData data size m).out := by
  rw [PcapSniffer.printData, Prog.forRange_out fun i m ↦ PcapSniffer.printByte_mem data size i m]
  apply writes_forCounter (by simpa using hwrap)
  · intro i _ hlt
    refine ⟨decide_eq_true (by omega), writes_printByte ?_ hpad⟩
    intro j hj
    exact hwrap j (by omega)
  · exact decide_eq_false (by omega)

/-- `traceroute` prints the dump of the sniffer, for every size. -/
theorem Traceroute.writes_printData (m : Mem) (data size : ℕ) :
    Writes (fun fuel ↦ Traceroute.printData fuel m data size)
      (PcapSniffer.printData data size m).out :=
  IcmpRawSocket.writes_printData (fun _ _ ↦ rfl) fun _ _ ↦ rfl

theorem Traceroute.printData_isDump (m : Mem) (data size : ℕ) :
    ∃ out rows, Writes (fun fuel ↦ Traceroute.printData fuel m data size) out
      ∧ PcapSniffer.IsDump (out.flatMap Output.chars) (m.slice data size) rows := by
  obtain ⟨rows, hrows⟩ := PcapSniffer.dumpText_isDump m data size
  exact ⟨_, rows, Traceroute.writes_printData m data size, hrows⟩

/-! ## Counters of 8 bits -/

theorem Ping.writes_printData (m : Mem) (data : ℕ) (hsize : size ≤ 255) :
    Writes (fun fuel ↦ Ping.printData fuel m data size)
      (PcapSniffer.printData data size m).out := by
  apply IcmpRawSocket.writes_printData
  · intro j hj
    exact Nat.mod_eq_of_lt (by omega)
  · intro j hj
    exact Nat.mod_eq_of_lt (by omega)

/-- A counter of 8 bits stays below 256. -/
theorem Ping.printData_eq_none (m : Mem) (data : ℕ) (hsize : 256 ≤ size) (fuel : ℕ) :
    Ping.printData fuel m data size = none := by
  apply forLoop_eq_none (P := (· < 2 ^ 8))
  · intro i hi
    exact ⟨decide_eq_true (by omega), Nat.mod_lt _ (by decide)⟩
  · decide

/-- **The dumps are alike up to 255 bytes.** -/
theorem dumpsAlike_iff (m : Mem) (data size : ℕ) : DumpsAlike m data size ↔ size ≤ 255 := by
  constructor
  · rintro ⟨out, hout, -⟩
    by_contra hsize
    exact hout.not_none (Ping.printData_eq_none m data (by omega))
  · intro hsize
    exact ⟨_, Ping.writes_printData m data hsize, Traceroute.writes_printData m data size⟩

/-- For 256 bytes `ping` comes to no end. -/
theorem not_dumpsAlike : (∀ fuel, Ping.printData fuel (fun _ ↦ 0) 0 256 = none)
    ∧ ¬ DumpsAlike (fun _ ↦ 0) 0 256 := by
  have hnone := Ping.printData_eq_none (fun _ ↦ 0) 0 le_rfl
  refine ⟨hnone, ?_⟩
  rintro ⟨out, hout, -⟩
  exact hout.not_none hnone

end AllProjects.IcmpRawSocket
