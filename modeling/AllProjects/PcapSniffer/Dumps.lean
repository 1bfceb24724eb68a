import AllProjects.PcapSniffer.WellFormed

/-!
# Hex dumps

`print_data` writes a row for every sixteen bytes: the bytes in hexadecimal, and the same bytes as
characters. The characters of a row follow when the next row starts, or after the last byte, which
pads the row to the width of the others.

Below the text is cut into its rows again, and every row is read back from its columns.

What the reports dump is another matter. The first two ranges are counted from the start of the
frame and the third from the start of the IP header, so they leave a gap of fourteen bytes.
-/

namespace AllProjects.PcapSniffer

open Prog

/-! ## Rows of items -/

/-- A row up to its last byte in hexadecimal. -/
def openRow (row : List UInt8) : List Output :=
  .text "   " :: row.map fun b ↦ .hex b.toNat

/-- The rest of the row: what is missing to sixteen columns, and the characters. -/
def closeRow (row : List UInt8) : List Output :=
  List.replicate (16 - row.length) (.text "   ") ++
    .text "         " :: (row.map fun b ↦ .char (printable b.toNat)) ++ [.text "\n"]

/-- The row with the bytes from `16 * k` on, when it is complete. -/
def fullRow (m : Mem) (data k : ℕ) : List UInt8 := m.slice (data + 16 * k) 16

section

variable (m : Mem) (data size : ℕ)

/-- What is printed for a byte, but for the end of the dump. -/
def byteItems (i : ℕ) : List Output :=
  (if i ≠ 0 ∧ i % 16 = 0 then closeRow (m.slice (data + (i - 16)) 16) else []) ++
    ((if i % 16 = 0 then [.text "   "] else []) ++ [.hex (m (data + i)).toNat])

theorem printRow_out (start count : ℕ) : (printRow data start count m).out
    = (m.slice (data + start) count).map fun b ↦ .char (printable b.toNat) := by
  rw [printRow, forRange_out fun _ _ ↦ rfl, Mem.slice, List.map_map, List.range'_eq_map_range,
    List.flatMap_map, List.map_eq_flatMap]
  apply List.flatMap_congr
  intro j _
  rw [bind_out, read_out, read_val, print_out, Mem.load_one, ← add_assoc]
  rfl

theorem padding_out (s : String) (n : ℕ) :
    (forRange (fun _ ↦ print (Output.text s)) 0 n m).out = List.replicate n (.text s) := by
  rw [forRange_out fun _ _ ↦ rfl]
  simp only [print_out]
  rw [← List.map_eq_flatMap, List.map_const', List.length_range']

theorem printByte_out (i : ℕ) : (printByte data size i m).out = byteItems m data i ++
    if i = size - 1 then closeRow (m.slice (data + (i - i % 16)) (i % 16 + 1)) else [] := by
  simp only [printByte, byteItems, closeRow, Mem.length_slice]
  split <;> split <;> split <;>
    simp [printRow_out, padding_out, Mem.load_one]

/-- The bytes of a dump, one after the other. -/
def bytesItems (n : ℕ) : List Output := (List.range' 0 n).flatMap (byteItems m data)

theorem bytesItems_succ (n : ℕ) :
    bytesItems m data (n + 1) = bytesItems m data n ++ byteItems m data n := by
  rw [bytesItems, List.range'_concat, List.flatMap_append, List.flatMap_singleton, bytesItems]
  simp

/-- **Only the last byte ends the dump.** -/
theorem printData_out (n : ℕ) : (printData data (n + 1) m).out
    = bytesItems m data (n + 1) ++ closeRow (m.slice (data + (n - n % 16)) (n % 16 + 1)) := by
  have hinit : (List.range' 0 n).flatMap (fun i ↦ (printByte data (n + 1) i m).out)
      = bytesItems m data n := by
    apply List.flatMap_congr
    intro i hi
    rw [List.mem_range'_1] at hi
    rw [printByte_out, if_neg (by omega), List.append_nil]
  rw [printData, forRange_out fun i m ↦ printByte_mem data (n + 1) i m, List.range'_concat,
    List.flatMap_append, hinit, List.flatMap_singleton, bytesItems_succ, printByte_out,
    if_pos (by simp), List.append_assoc]
  simp

/-! ## Rows -/

theorem openRow_succ (a k : ℕ) :
    openRow (m.slice a (k + 1)) = openRow (m.slice a k) ++ [.hex (m (a + k)).toNat] := by
  rw [Mem.slice_add, openRow, openRow, List.map_append, List.cons_append]
  rfl

theorem bytesItems_row {front : List Output} {q : ℕ}
    (h : bytesItems m data (16 * q + 1) = front ++ openRow (m.slice (data + 16 * q) 1)) {k : ℕ}
    (hk : k < 16) :
    bytesItems m data (16 * q + k + 1) = front ++ openRow (m.slice (data + 16 * q) (k + 1)) := by
  induction k with
  | zero => exact h
  | succ k ih =>
    have hitems : byteItems m data (16 * q + k + 1)
        = [.hex (m (data + 16 * q + (k + 1))).toNat] := by
      rw [byteItems, if_neg (by omega), if_neg (by omega), ← add_assoc, ← add_assoc]
      rfl
    rw [← add_assoc, bytesItems_succ, ih (by omega), openRow_succ _ _ (k + 1), hitems,
      List.append_assoc]

/-- **Where the dump is after some bytes**: the rows before are complete, the last one is open. -/
theorem bytesItems_eq (q : ℕ) {k : ℕ} (hk : k < 16) : bytesItems m data (16 * q + k + 1)
    = (List.range q).flatMap (fun j ↦ openRow (fullRow m data j) ++ closeRow (fullRow m data j))
      ++ openRow (m.slice (data + 16 * q) (k + 1)) := by
  apply bytesItems_row _ _ _ hk
  clear hk k
  induction q with
  | zero => rfl
  | succ q ih =>
    have hrow := bytesItems_row m data ih (show 15 < 16 by decide)
    have hitems : byteItems m data (16 * q + 15 + 1) = closeRow (fullRow m data q) ++
        openRow (m.slice (data + 16 * (q + 1)) 1) := by
      rw [byteItems, if_pos (by omega), if_pos (by omega), fullRow, add_assoc (16 * q),
        Nat.add_sub_cancel]
      rfl
    rw [show 16 * (q + 1) + 1 = 16 * q + 15 + 1 + 1 by ring, bytesItems_succ, hrow, hitems,
      List.range_succ, List.flatMap_append, List.flatMap_singleton]
    simp only [fullRow, List.append_assoc]

theorem printData_rows (q : ℕ) {k : ℕ} (hk : k < 16) : (printData data (16 * q + k + 1) m).out
    = ((List.range q).map (fullRow m data) ++ [m.slice (data + 16 * q) (k + 1)]).flatMap
        fun row ↦ openRow row ++ closeRow row := by
  have hmod : (16 * q + k) % 16 = k := by omega
  rw [printData_out, bytesItems_eq m data q hk, hmod, Nat.add_sub_cancel, List.flatMap_append,
    List.flatMap_map, List.flatMap_singleton, List.append_assoc]

theorem flatten_fullRows (q : ℕ) :
    ((List.range q).map (fullRow m data)).flatten = m.slice data (16 * q) := by
  induction q with
  | zero => rfl
  | succ q ih =>
    rw [List.range_succ, List.map_append, List.flatten_append, ih, mul_add_one, Mem.slice_add]
    simp [fullRow]

end

/-! ## Text -/

/-- A digit of `%02X`. -/
def hexDigit (d : ℕ) : Char := if d < 10 then Char.ofNat (48 + d) else Char.ofNat (55 + d)

/-- The characters of an item, for those that dumps are made of. A byte is printed as `%02X` with a
blank before it. -/
def Output.chars : Output → List Char
  | text s | title s => s.toList
  | hex b => [' ', hexDigit (b / 16), hexDigit (b % 16)]
  | char b => [Char.ofNat b]
  | field .. | verdict .. | count .. => []

/-- The text that `print_data` writes. -/
def dumpText (data size : ℕ) (m : Mem) : List Char :=
  (printData data size m).out.flatMap Output.chars

/-- The columns of a row: sixteen of three characters. -/
def hexColumns (row : List UInt8) : List Char :=
  (row.flatMap fun b ↦ [' ', hexDigit (b.toNat / 16), hexDigit (b.toNat % 16)])
    ++ (List.replicate (16 - row.length) [' ', ' ', ' ']).flatten

/-- The bytes of a row as characters. -/
def textColumn (row : List UInt8) : List Char := row.map fun b ↦ Char.ofNat (printable b.toNat)

/-- A row, without its newline. -/
def line (row : List UInt8) : List Char :=
  "   ".toList ++ (hexColumns row ++ ("         ".toList ++ textColumn row))

/-! ## Reading back -/

def hexValue (c : Char) : ℕ := if c.toNat < 58 then c.toNat - 48 else c.toNat - 55

/-- The bytes in the columns of a row, up to the first that is blank. -/
def readColumns : List Char → List UInt8
  | _ :: a :: b :: cs =>
    if a = ' ' then [] else UInt8.ofNat (16 * hexValue a + hexValue b) :: readColumns cs
  | _ => []

/-- The bytes in a dump, row by row. -/
def readDump (text : List Char) : List UInt8 :=
  (text.splitOn '\n').flatMap fun l ↦ readColumns ((l.drop 3).take 48)

/-- **A lossless dump** of the bytes, in rows: the text is that of the rows, all rows but the last
are complete, and the columns of each row are as wide as sixteen bytes, can be read back, and go
with as many characters as the row has bytes. -/
structure IsDump (text : List Char) (bytes : List UInt8) (rows : List (List UInt8)) : Prop where
  text_eq : text = rows.flatMap fun row ↦ line row ++ ['\n']
  flatten_eq : rows.flatten = bytes
  full : ∀ row ∈ rows.dropLast, row.length = 16
  last : ∀ row ∈ rows, 0 < row.length ∧ row.length ≤ 16
  width : ∀ row ∈ rows, (hexColumns row).length = 48
  columns : ∀ row ∈ rows, readColumns (hexColumns row) = row
  chars : ∀ row ∈ rows, (textColumn row).length = row.length
  read_eq : readDump text = bytes

section

variable {row : List UInt8}

theorem hexValue_hexDigit {d : ℕ} (h : d < 16) : hexValue (hexDigit d) = d := by
  interval_cases d <;> rfl

theorem hexDigit_ne {d : ℕ} (h : d < 16) : hexDigit d ≠ ' ' ∧ hexDigit d ≠ '\n' := by
  interval_cases d <;> decide

theorem readColumns_replicate (n : ℕ) :
    readColumns (List.replicate n [' ', ' ', ' ']).flatten = [] := by
  cases n with
  | zero => rfl
  | succ n => rfl

theorem readColumns_append (row : List UInt8) (n : ℕ) : readColumns
    ((row.flatMap fun b ↦ [' ', hexDigit (b.toNat / 16), hexDigit (b.toNat % 16)])
      ++ (List.replicate n [' ', ' ', ' ']).flatten) = row := by
  induction row with
  | nil => exact readColumns_replicate n
  | cons b row ih =>
    have hb := b.toNat_lt
    have hhigh : b.toNat / 16 < 16 := by omega
    have hlow : b.toNat % 16 < 16 := Nat.mod_lt _ (by decide)
    have hbyte : 16 * (b.toNat / 16) + b.toNat % 16 = b.toNat := Nat.div_add_mod _ _
    rw [List.flatMap_cons, List.append_assoc]
    simp only [List.cons_append, List.nil_append]
    rw [readColumns, if_neg (hexDigit_ne hhigh).1, hexValue_hexDigit hhigh, hexValue_hexDigit hlow,
      hbyte, UInt8.ofNat_toNat, ih]

theorem length_hexColumns (h : row.length ≤ 16) : (hexColumns row).length = 48 := by
  rw [hexColumns, List.length_append, List.length_flatMap, List.length_flatten]
  simp
  omega

theorem mem_hexColumns {c : Char} (h : c ∈ hexColumns row) : c ≠ '\n' := by
  rw [hexColumns, List.mem_append, List.mem_flatMap, List.mem_flatten] at h
  obtain ⟨b, -, hc⟩ | ⟨l, hl, hc⟩ := h
  · have hb := b.toNat_lt
    simp only [List.mem_cons, List.not_mem_nil, or_false] at hc
    obtain rfl | rfl | rfl := hc
    · decide
    · exact (hexDigit_ne (by omega)).2
    · exact (hexDigit_ne (Nat.mod_lt _ (by decide))).2
  · rw [List.eq_of_mem_replicate hl] at hc
    simp only [List.mem_cons, List.not_mem_nil, or_self, or_false] at hc
    rw [hc]
    decide

theorem printable_bounds (b : ℕ) : 32 ≤ printable b ∧ printable b ≤ 128 := by
  rw [printable]
  split
  · assumption
  · decide

theorem mem_textColumn {c : Char} (h : c ∈ textColumn row) : c ≠ '\n' := by
  obtain ⟨b, -, rfl⟩ := List.mem_map.mp h
  obtain ⟨hlo, hhi⟩ := printable_bounds b.toNat
  have hvalid : (printable b.toNat).isValidChar := Or.inl (by omega)
  intro heq
  have hnat := congrArg Char.toNat heq
  rw [Char.toNat_ofNat, if_pos hvalid] at hnat
  rw [hnat] at hlo
  exact absurd hlo (by decide)

theorem mem_line {c : Char} (h : c ∈ line row) : c ≠ '\n' := by
  rw [line, List.mem_append, List.mem_append, List.mem_append] at h
  obtain h | h | h | h := h
  · rw [List.eq_of_mem_replicate (n := 3) h]
    decide
  · exact mem_hexColumns h
  · rw [List.eq_of_mem_replicate (n := 9) h]
    decide
  · exact mem_textColumn h

theorem readDump_cons (row : List UInt8) (rest : List Char) (h : row.length ≤ 16) :
    readDump (line row ++ '\n' :: rest) = row ++ readDump rest := by
  have hline : ∀ c ∈ line row, (c == '\n') = false := fun c hc ↦ beq_false_of_ne (mem_line hc)
  have hdrop : (line row).drop 3 = hexColumns row ++ ("         ".toList ++ textColumn row) :=
    List.drop_left' rfl
  have hcolumns : ((line row).drop 3).take 48 = hexColumns row := by
    rw [hdrop, List.take_left' (length_hexColumns h)]
  rw [readDump, List.splitOn_eq_splitOnP,
    List.splitOnP_append_cons_of_forall_mem hline _ (beq_self_eq_true _), List.flatMap_cons,
    hcolumns, hexColumns, readColumns_append, readDump, List.splitOn_eq_splitOnP]

theorem readDump_rows {rows : List (List UInt8)} (h : ∀ row ∈ rows, row.length ≤ 16) :
    readDump (rows.flatMap fun row ↦ line row ++ ['\n']) = rows.flatten := by
  induction rows with
  | nil => rfl
  | cons row rows ih =>
    obtain ⟨hrow, hrows⟩ := List.forall_mem_cons.mp h
    rw [List.flatMap_cons, List.append_assoc, List.singleton_append, readDump_cons _ _ hrow,
      ih hrows, List.flatten_cons]

theorem chars_row (row : List UInt8) :
    (openRow row ++ closeRow row).flatMap Output.chars = line row ++ ['\n'] := by
  have hhex : (row.map fun b ↦ Output.hex b.toNat).flatMap Output.chars
      = row.flatMap fun b ↦ [' ', hexDigit (b.toNat / 16), hexDigit (b.toNat % 16)] :=
    List.flatMap_map ..
  have hchar : (row.map fun b ↦ Output.char (printable b.toNat)).flatMap Output.chars
      = textColumn row := by
    rw [List.flatMap_map, textColumn, List.map_eq_flatMap]
    rfl
  have hpad : ∀ n, (List.replicate n (Output.text "   ")).flatMap Output.chars
      = (List.replicate n [' ', ' ', ' ']).flatten := by
    intro n
    rw [List.flatMap_replicate]
    rfl
  rw [openRow, closeRow, line, hexColumns]
  simp only [List.flatMap_append, List.flatMap_cons, List.flatMap_nil, List.cons_append, hhex,
    hchar, hpad, List.append_assoc, List.append_nil]
  rfl

theorem isDump_of_rows {rows : List (List UInt8)} (hfull : ∀ row ∈ rows.dropLast, row.length = 16)
    (hlast : ∀ row ∈ rows, 0 < row.length ∧ row.length ≤ 16) :
    IsDump (rows.flatMap fun row ↦ line row ++ ['\n']) rows.flatten rows where
  text_eq := rfl
  flatten_eq := rfl
  full := hfull
  last := hlast
  width row hrow := length_hexColumns (hlast row hrow).2
  columns _ _ := readColumns_append ..
  chars _ _ := List.length_map _
  read_eq := readDump_rows fun row hrow ↦ (hlast row hrow).2

end

/-- **The dump is lossless**, for bytes in any number: it is cut into rows of sixteen, and is read
back from them. -/
theorem dumpText_isDump (m : Mem) (data size : ℕ) :
    ∃ rows, IsDump (dumpText data size m) (m.slice data size) rows := by
  obtain - | n := size
  · exact ⟨[], @isDump_of_rows [] (fun _ h ↦ absurd h List.not_mem_nil)
      fun _ h ↦ absurd h List.not_mem_nil⟩
  · obtain ⟨q, k, hk, rfl⟩ : ∃ q k, k < 16 ∧ n = 16 * q + k :=
      ⟨n / 16, n % 16, Nat.mod_lt _ (by decide), (Nat.div_add_mod n 16).symm⟩
    have htext : dumpText data (16 * q + k + 1) m
        = ((List.range q).map (fullRow m data) ++ [m.slice (data + 16 * q) (k + 1)]).flatMap
          fun row ↦ line row ++ ['\n'] := by
      rw [dumpText, printData_rows m data q hk, List.flatMap_assoc]
      simp only [chars_row]
    have hbytes : m.slice data (16 * q + k + 1)
        = ((List.range q).map (fullRow m data) ++ [m.slice (data + 16 * q) (k + 1)]).flatten := by
      rw [List.flatten_append, flatten_fullRows, List.flatten_singleton, add_assoc, Mem.slice_add]
    rw [htext, hbytes]
    refine ⟨_, isDump_of_rows ?_ ?_⟩
    · rw [List.dropLast_concat]
      intro row hrow
      obtain ⟨j, -, rfl⟩ := List.mem_map.mp hrow
      exact Mem.length_slice ..
    · intro row hrow
      rw [List.mem_append, List.mem_singleton] at hrow
      obtain hrow | rfl := hrow
      · obtain ⟨j, -, rfl⟩ := List.mem_map.mp hrow
        rw [fullRow, Mem.length_slice]
        decide
      · rw [Mem.length_slice]
        omega

/-! ## What the reports dump -/

/-- What a report prints of some ranges, each under its label. -/
def sectionDumps (labels : List String) (ranges : List (ℕ × ℕ)) (m : Mem) : List Output :=
  (labels.zip ranges).flatMap fun s ↦ .text s.1 :: (printData s.2.1 s.2.2 m).out

theorem sectionDumps_append (l₁ l₂ l₃ : String) (a₁ n₁ a₂ n₂ a₃ n₃ : ℕ) (m : Mem) (o : Output) :
    sectionDumps [l₁, l₂, l₃] [(a₁, n₁), (a₂, n₂), (a₃, n₃)] m ++ [o]
      = [.text l₁] ++ ((printData a₁ n₁ m).out ++ ([.text l₂] ++ ((printData a₂ n₂ m).out
        ++ ([.text l₃] ++ ((printData a₃ n₃ m).out ++ [o]))))) := by
  simp only [sectionDumps, List.zip_cons_cons, List.zip_nil_right, List.flatMap_cons,
    List.flatMap_nil, List.append_nil, List.cons_append, List.nil_append, List.append_assoc]

/-- The report on a TCP packet ends with the dumps of its sections. -/
theorem printTcpPacket_dumps (size : ℕ) (m : Mem) :
    sectionDumps ["IP Header\n", "TCP Header\n", "Data Payload\n"] (tcpReport size m).sections
        ((tcpReport size m).leave m)
      ++ [.text "\n###########################################################\n"]
      <:+ (printTcpPacket size m).out := by
  simp only [printTcpPacket, bind_out, read_mem, read_val, read_out, print_mem, print_out,
    printFields_mem, printData_mem, printIpHeader_mem, iphdrlen_fold, transport_fold,
    computeTcpChecksum_mem, computeTcpChecksum_out, load_doff, doffBytes_fold, silent_append]
  -- the title, the headers and the verdict are printed before
  iterate 7 refine List.IsSuffix.trans ?_ (List.suffix_append _ _)
  rw [tcpReport, sections, sectionDumps_append, Report.leave, Report.rewritten, transport_fold]

theorem printUdpPacket_dumps (size : ℕ) (m : Mem) :
    sectionDumps ["\nIP Header\n", "UDP Header\n", "Data Payload\n"] (udpReport size m).sections
        ((udpReport size m).leave m)
      ++ [.text "\n###########################################################\n"]
      <:+ (printUdpPacket size m).out := by
  simp only [printUdpPacket, bind_out, read_mem, read_val, read_out, print_mem, print_out,
    printFields_mem, printData_mem, printIpHeader_mem, iphdrlen_fold, transport_fold,
    computeUdpChecksum_mem, computeUdpChecksum_out, silent_append]
  iterate 5 refine List.IsSuffix.trans ?_ (List.suffix_append _ _)
  rw [udpReport, sections, sectionDumps_append, Report.leave, Report.rewritten, transport_fold]

/-- The ranges follow one another from `lo` to `hi`. -/
def Consecutive : ℕ → List (ℕ × ℕ) → ℕ → Prop
  | lo, [], hi => lo = hi
  | lo, r :: rs, hi => r.1 = lo ∧ Consecutive (lo + r.2) rs hi

/-- The ranges that are dumped of a TCP or UDP packet. -/
def dumpedRanges (f : Frame) : List (ℕ × ℕ) :=
  if protocol f.mem = 6 then (tcpReport f.len f.mem).sections
  else (udpReport f.len f.mem).sections

/-- The dumps partition the packet, from the IP header to the end of the frame. -/
def DumpsPartition (f : Frame) : Prop := Consecutive 14 (dumpedRanges f) f.len

/-- **They never do**: the first range starts at the Ethernet header. -/
theorem not_dumpsPartition (f : Frame) (h : TcpPacket f ∨ UdpPacket f) : ¬ DumpsPartition f := by
  intro hpart
  rw [DumpsPartition, dumpedRanges] at hpart
  obtain htcp | hudp := h
  · rw [if_pos htcp.protocol_eq] at hpart
    have hstart : 0 = 14 := hpart.1
    exact absurd hstart (by decide)
  · rw [if_neg (by rw [hudp.protocol_eq]; decide)] at hpart
    have hstart : 0 = 14 := hpart.1
    exact absurd hstart (by decide)

/-- A packet that is not partitioned. -/
theorem udpFrame_not_partition : ¬ DumpsPartition udpFrame :=
  not_dumpsPartition udpFrame (Or.inr udpFrame_packet)

/-- Not every packet is. -/
theorem tcpFrame_not_partition :
    ¬∀ f : Frame, TcpPacket f ∨ UdpPacket f → DumpsPartition f := by
  intro hall
  have hpart := hall tcpFrame (Or.inl tcpFrame_packet)
  rw [DumpsPartition, dumpedRanges, if_pos tcpFrame_packet.protocol_eq] at hpart
  exact absurd hpart.1 (by decide)

end AllProjects.PcapSniffer
