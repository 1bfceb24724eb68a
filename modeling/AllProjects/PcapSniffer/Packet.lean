import AllProjects.DnsProxy.Packet
import AllProjects.Memory.Access

/-!
# The printers of the sniffer

A captured frame is handed to the program as a pointer, and headers are found by adding lengths that
the frame itself states. Here the pointer is address `0`: the Ethernet header occupies the first
fourteen bytes, the IP header starts at `14`, and every address below is an offset into the frame.

The printers follow the source statement by statement. They recompute each checksum by writing into
the frame: the field is cleared, the sum is taken, the result is stored. What they print is recorded
as a list of items, in which the checksum verdicts and the bytes of the dumps can be told apart from
the text around them.
-/

namespace AllProjects.PcapSniffer

open DnsProxy (htons ntohs)
open Prog

/-! ## What is printed -/

/-- An item of the output. -/
inductive Output
  /-- Text that is always the same. -/
  | text (s : String)
  /-- The line that opens the report on a packet. -/
  | title (s : String)
  /-- `   |-name : values` -/
  | field (name : String) (values : List ℕ)
  /-- `   |-name : back (verif: sum) [valid]`, or `[invalid]` when the two differ. -/
  | verdict (name : String) (back sum : ℕ)
  /-- `%02X` -/
  | hex (b : ℕ)
  /-- `%c` -/
  | char (b : ℕ)
  /-- `   |-name: count` -/
  | count (name : String) (n : Int32)
  deriving DecidableEq, Repr

namespace Output

/-- The items that describe bytes of the frame beyond doubt: verdicts and dumps. -/
@[simp] def isEvidence : Output → Bool
  | verdict .. | hex _ | char _ => true
  | text _ | title _ | field .. | count .. => false

/-- The line that opens a report. -/
@[simp] def title? : Output → Option String
  | title s => some s
  | text _ | field .. | verdict .. | hex _ | char _ | count .. => none

end Output

/-- The verdicts and dumps of an output. -/
def evidence (out : List Output) : List Output := out.filter Output.isEvidence

/-- The reports in an output, by their titles. -/
def reports (out : List Output) : List String := out.filterMap Output.title?

/-- A field of a header: where it is, and what is printed of its value. -/
structure Field where
  name : String
  offset : ℕ
  width : ℕ
  values : ℕ → List ℕ

def printFields (header : ℕ) : List Field → Prog Output Unit
  | [] => pure ()
  | fld :: flds => do
    let v ← read (header + fld.offset) fld.width
    print (.field fld.name (fld.values v))
    printFields header flds

/-- The bytes of a number, as addresses are printed. -/
def octets (n v : ℕ) : List ℕ := (List.range n).map fun i ↦ v / 256 ^ i % 256

/-- `ntohl` swaps the four bytes of a word. -/
def ntohl (x : ℕ) : ℕ :=
  x % 256 * 256 ^ 3 + x / 256 % 256 * 256 ^ 2 + x / 256 ^ 2 % 256 * 256 + x / 256 ^ 3 % 256

/-! ## Checksums -/

/-- The sum of the 16-bit words, and of an odd last byte. -/
def wordSum : List UInt8 → ℕ
  | [] => 0
  | [b] => b.toNat
  | b :: b' :: bs => b.toNat + 256 * b'.toNat + wordSum bs

/-- `while (sum >> 16) sum = (sum & 0xffff) + (sum >> 16)`, for at most `n` rounds. -/
def foldCarries : ℕ → ℕ → ℕ
  | 0, sum => sum
  | n + 1, sum => if sum / 2 ^ 16 = 0 then sum else foldCarries n (sum % 2 ^ 16 + sum / 2 ^ 16)

/-- `compute_checksum`: the one's complement of the folded sum. -/
def computeChecksum (block : List UInt8) : ℕ :=
  2 ^ 16 - 1 - foldCarries (wordSum block) (wordSum block)

theorem computeChecksum_lt (block : List UInt8) : computeChecksum block < 256 ^ 2 := by
  rw [computeChecksum]
  omega

def computeIpChecksum (iph : ℕ) : Prog Output Unit := do
  write (iph + 10) 2 0
  let ihl ← read iph 1
  let block ← readSlice iph (ihl % 16 * 4)
  write (iph + 10) 2 (computeChecksum block)

/-- `PSEUDO_HEADER`: the addresses, a zero byte, the protocol and a length in network order. -/
def pseudoHeader (saddr daddr : List UInt8) (proto len : ℕ) : List UInt8 :=
  saddr ++ daddr ++ [0, UInt8.ofNat proto, UInt8.ofNat len, UInt8.ofNat (len / 256)]

def computeTcpChecksum (iph tcph : ℕ) : Prog Output Unit := do
  let ihl ← read iph 1
  let totLen ← read (iph + 2) 2
  let tcpplen := (ntohs totLen + 2 ^ 16 - ihl % 16 * 4) % 2 ^ 16
  let saddr ← readSlice (iph + 12) 4
  let daddr ← readSlice (iph + 16) 4
  let protocol ← read (iph + 9) 1
  write (tcph + 16) 2 0
  let block ← readSlice tcph tcpplen
  write (tcph + 16) 2
    (computeChecksum (pseudoHeader saddr daddr protocol (htons tcpplen) ++ block))

def computeUdpChecksum (iph udph : ℕ) : Prog Output Unit := do
  let len ← read (udph + 4) 2
  let udpplen := ntohs len
  let saddr ← readSlice (iph + 12) 4
  let daddr ← readSlice (iph + 16) 4
  let protocol ← read (iph + 9) 1
  write (udph + 6) 2 0
  let block ← readSlice udph udpplen
  write (udph + 6) 2 (computeChecksum (pseudoHeader saddr daddr protocol len ++ block))

def computeIcmpChecksum (icmph : ℕ) : Prog Output Unit := do
  write (icmph + 2) 2 0
  let block ← readSlice icmph 8
  write (icmph + 2) 2 (computeChecksum block)

/-! ## Dumps -/

/-- The printable form of a byte, for `32 <= b && b <= 128`, and a dot for the others. -/
def printable (b : ℕ) : ℕ := if 32 ≤ b ∧ b ≤ 128 then b else '.'.toNat

/-- The bytes `data[start]`, …, `data[start + count - 1]` as characters. -/
def printRow (data start count : ℕ) : Prog Output Unit :=
  forRange (fun j ↦ do
    let b ← read (data + j) 1
    print (.char (printable b))) start count

/-- One round of the loop of `print_data`: the row that is complete, the byte, and after the last
byte the rest of its row. -/
def printByte (data size i : ℕ) : Prog Output Unit := do
  if i ≠ 0 ∧ i % 16 = 0 then
    print (.text "         ")
    printRow data (i - 16) 16
    print (.text "\n")
  if i % 16 = 0 then print (.text "   ")
  let b ← read (data + i) 1
  print (.hex b)
  if i = size - 1 then
    forRange (fun _ ↦ print (.text "   ")) 0 (15 - i % 16)
    print (.text "         ")
    printRow data (i - i % 16) (i % 16 + 1)
    print (.text "\n")

def printData (data size : ℕ) : Prog Output Unit := forRange (printByte data size) 0 size

/-- `size - header_size`, as the 32-bit number that `print_data` takes. -/
def payloadSize (size headerSize : ℕ) : ℕ := (size + 2 ^ 32 - headerSize) % 2 ^ 32

/-! ## Headers -/

def printEthernetHeader : Prog Output Unit := do
  print (.text "\nEthernet Header\n")
  printFields 0 [
    ⟨"Destination Address", 0, 6, octets 6⟩,
    ⟨"Source Address", 6, 6, octets 6⟩,
    ⟨"Protocol", 12, 2, fun v ↦ [v]⟩]

def printIpHeader : Prog Output Unit := do
  printEthernetHeader
  let saddr ← read 26 4
  let daddr ← read 30 4
  let checkSumBack ← read 24 2
  computeIpChecksum 14
  print (.text "\nIP Header\n")
  printFields 14 [
    ⟨"IP Version", 0, 1, fun v ↦ [v / 16]⟩,
    ⟨"IP Header Length", 0, 1, fun v ↦ [v % 16, v % 16 * 4]⟩,
    ⟨"Type Of Service", 1, 1, fun v ↦ [v]⟩,
    ⟨"IP Total Length", 2, 2, fun v ↦ [ntohs v]⟩,
    ⟨"Identification", 4, 2, fun v ↦ [ntohs v]⟩,
    ⟨"TTL", 8, 1, fun v ↦ [v]⟩,
    ⟨"Protocol", 9, 1, fun v ↦ [v]⟩]
  let check ← read 24 2
  print (.verdict "Checksum" checkSumBack check)
  print (.field "Source IP" (octets 4 saddr))
  print (.field "Destination IP" (octets 4 daddr))

/-! ## Reports -/

def tcpTitle : String := "\n***********************TCP Packet*************************\n"

def udpTitle : String := "\n***********************UDP Packet*************************\n"

def icmpTitle : String := "\n***********************ICMP Packet*************************\n"

def printTcpPacket (size : ℕ) : Prog Output Unit := do
  let ihl ← read 14 1
  let iphdrlen := ihl % 16 * 4
  let tcph := 14 + iphdrlen
  let doff ← read (tcph + 12) 1
  let headerSize := 14 + iphdrlen + doff / 16 * 4
  let checkSumBack ← read (tcph + 16) 2
  computeTcpChecksum 14 tcph
  print (.title tcpTitle)
  printIpHeader
  print (.text "\nTCP Header\n")
  printFields tcph [
    ⟨"Source Port", 0, 2, fun v ↦ [ntohs v]⟩,
    ⟨"Destination Port", 2, 2, fun v ↦ [ntohs v]⟩,
    ⟨"Sequence Number", 4, 4, fun v ↦ [ntohl v]⟩,
    ⟨"Acknowledge Number", 8, 4, fun v ↦ [ntohl v]⟩,
    ⟨"Header Length", 12, 1, fun v ↦ [v / 16, v / 16 * 4]⟩,
    ⟨"Urgent Flag", 13, 1, fun v ↦ [v / 32 % 2]⟩,
    ⟨"Acknowledgement Flag", 13, 1, fun v ↦ [v / 16 % 2]⟩,
    ⟨"Push Flag", 13, 1, fun v ↦ [v / 8 % 2]⟩,
    ⟨"Reset Flag", 13, 1, fun v ↦ [v / 4 % 2]⟩,
    ⟨"Synchronise Flag", 13, 1, fun v ↦ [v / 2 % 2]⟩,
    ⟨"Finish Flag", 13, 1, fun v ↦ [v % 2]⟩,
    ⟨"Window", 14, 2, fun v ↦ [ntohs v]⟩]
  let check ← read (tcph + 16) 2
  print (.verdict "Checksum" checkSumBack check)
  printFields tcph [⟨"Urgent Pointer", 18, 2, fun v ↦ [v]⟩]
  print (.text "\n                        DATA Dump                         \n")
  print (.text "IP Header\n")
  printData 0 iphdrlen
  print (.text "TCP Header\n")
  let doff ← read (tcph + 12) 1
  printData iphdrlen (doff / 16 * 4)
  print (.text "Data Payload\n")
  printData headerSize (payloadSize size headerSize)
  print (.text "\n###########################################################\n")

/-- `sizeof udph` is the size of the pointer, which is that of the header. -/
def printUdpPacket (size : ℕ) : Prog Output Unit := do
  let ihl ← read 14 1
  let iphdrlen := ihl % 16 * 4
  let udph := 14 + iphdrlen
  let headerSize := 14 + iphdrlen + 8
  let checkSumBack ← read (udph + 6) 2
  computeUdpChecksum 14 udph
  print (.title udpTitle)
  printIpHeader
  print (.text "\nUDP Header\n")
  printFields udph [
    ⟨"Source Port", 0, 2, fun v ↦ [ntohs v]⟩,
    ⟨"Destination Port", 2, 2, fun v ↦ [ntohs v]⟩,
    ⟨"UDP Length", 4, 2, fun v ↦ [ntohs v]⟩]
  let check ← read (udph + 6) 2
  print (.verdict "UDP Checksum" checkSumBack check)
  print (.text "\nIP Header\n")
  printData 0 iphdrlen
  print (.text "UDP Header\n")
  printData iphdrlen 8
  print (.text "Data Payload\n")
  printData headerSize (payloadSize size headerSize)
  print (.text "\n###########################################################\n")

def icmpTypeName : ℕ → String
  | 0 => "  (Echo Reply)\n"
  | 3 => "  (Destination Unreachable)\n"
  | 4 => "  (Source Quench)\n"
  | 5 => "  (Redirect (change route))\n"
  | 8 => "  (Echo Request)\n"
  | 11 => "  (Time Exceeded)\n"
  | 12 => "  (Parameter Problem)\n"
  | 13 => "  (Timestamp Request)\n"
  | 14 => "  (Timestamp Reply)\n"
  | 15 => "  (Information Request)\n"
  | 16 => "  (Information Reply)\n"
  | 17 => "  (Address Mask Request)\n"
  | 18 => "  (Address Mask Reply)\n"
  | _ => "\n"

/-- `iph` is `packet` here: the Ethernet header is not skipped, and the header length comes from the
first byte of the frame. -/
def printIcmpPacket (size : ℕ) : Prog Output Unit := do
  let ihl ← read 0 1
  let iphdrlen := ihl % 16 * 4
  let icmph := iphdrlen
  let headerSize := 14 + iphdrlen + 8
  let checkSumBack ← read (icmph + 2) 2
  computeIcmpChecksum icmph
  print (.title icmpTitle)
  printIpHeader
  print (.text "\nICMP Header\n")
  printFields icmph [⟨"Type", 0, 1, fun v ↦ [v]⟩]
  let type ← read icmph 1
  print (.text (icmpTypeName type))
  printFields icmph [⟨"Code", 1, 1, fun v ↦ [v]⟩]
  let check ← read (icmph + 2) 2
  print (.verdict "Checksum" checkSumBack check)
  printFields icmph [
    ⟨"ID", 4, 2, fun v ↦ [ntohs v]⟩,
    ⟨"Sequence", 6, 2, fun v ↦ [ntohs v]⟩]
  print (.text "\nIP Header\n")
  printData 0 iphdrlen
  print (.text "UDP Header\n")
  printData iphdrlen 8
  print (.text "Data Payload\n")
  printData headerSize (payloadSize size headerSize)
  print (.text "\n###########################################################\n")

end AllProjects.PcapSniffer
