import Mathlib

/-!
# ICMP messages in a receive buffer

`ping` and `traceroute` receive into a buffer of 1024 bytes that is cleared first, so every offset
they read has a value: a byte of the packet, or zero behind its end. The ICMP header starts where
the IP header says that it ends.
-/

namespace AllProjects.IcmpRawSocket

/-- A packet as `recvfrom` delivers it, from the IP header on. -/
abbrev Packet := List UInt8

/-- `MAX_PACKET_SIZE` -/
def maxPacketSize : ℕ := 1024

/-- A byte of the receive buffer. -/
def byteAt (p : Packet) (i : ℕ) : ℕ := ((p.take maxPacketSize).getD i 0).toNat

/-- `ntohs` of a 16-bit field of the receive buffer. -/
def shortAt (p : Packet) (i : ℕ) : ℕ := byteAt p i * 256 + byteAt p (i + 1)

/-- `iph->ihl * 4`, for an IP header at `i`. -/
def iphlenAt (p : Packet) (i : ℕ) : ℕ := byteAt p i % 16 * 4

/-- The start of the ICMP header. -/
def icmpAt (p : Packet) : ℕ := iphlenAt p 0

/-! The fields of an ICMP header at `i`. The identifier and the sequence number are those of echo
messages; in other types the same bytes mean something else. -/

def typeAt (p : Packet) (i : ℕ) : ℕ := byteAt p i

def idAt (p : Packet) (i : ℕ) : ℕ := shortAt p (i + 4)

def sequenceAt (p : Packet) (i : ℕ) : ℕ := shortAt p (i + 6)

/-! The types that are told apart. -/

def icmpEchoReply : ℕ := 0

def icmpDestUnreach : ℕ := 3

def icmpEcho : ℕ := 8

def icmpTimeExceeded : ℕ := 11

/-- An IP header without options, as short as it gets. -/
def ipHeader (protocol : UInt8) : Packet :=
  [0x45, 0, 0, 0, 0, 0, 0, 0, 64, protocol] ++ List.replicate 10 0

/-- An echo message. -/
def echoMessage (type : UInt8) (id sequence : ℕ) : Packet :=
  [type, 0, 0, 0, UInt8.ofNat (id / 256), UInt8.ofNat id, UInt8.ofNat (sequence / 256),
    UInt8.ofNat sequence]

end AllProjects.IcmpRawSocket
