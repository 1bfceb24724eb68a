import AllProjects.PcapSniffer.Evidence

/-!
# Well-formed packets

The lengths that a well-formed packet states are those it has: the IP header is complete and no
longer than the packet, the transport header is complete and no longer than what the IP header
leaves for it, and the frame is captured at least as far as the packet goes. Behind the packet a
frame may be padded.

Which addresses, options and payloads a packet has is left open, and so is what stands in its
checksum fields.
-/

namespace AllProjects.PcapSniffer

open DnsProxy (ntohs)

/-- `ntohs(iph->tot_len)` -/
def totLen (m : Mem) : ℕ := ntohs (m.load 16 2)

/-- An IPv4 packet in an Ethernet frame. -/
structure IPv4Packet (f : Frame) : Prop where
  isIPv4 : f.IsIPv4
  version : f.mem.load 14 1 / 16 = 4
  le_iphdrlen : 20 ≤ iphdrlen f.mem
  iphdrlen_le : iphdrlen f.mem ≤ totLen f.mem
  captured : 14 + totLen f.mem ≤ f.caplen

structure TcpPacket (f : Frame) : Prop extends IPv4Packet f where
  protocol_eq : protocol f.mem = 6
  le_doffBytes : 20 ≤ doffBytes f.mem
  header_le : iphdrlen f.mem + doffBytes f.mem ≤ totLen f.mem

structure UdpPacket (f : Frame) : Prop extends IPv4Packet f where
  protocol_eq : protocol f.mem = 17
  le_udpplen : 8 ≤ udpplen f.mem
  datagram_le : iphdrlen f.mem + udpplen f.mem ≤ totLen f.mem

structure IcmpPacket (f : Frame) : Prop extends IPv4Packet f where
  protocol_eq : protocol f.mem = 1
  header_le : iphdrlen f.mem + 8 ≤ totLen f.mem

instance (f : Frame) : Decidable (IPv4Packet f) :=
  decidable_of_iff (f.IsIPv4 ∧ f.mem.load 14 1 / 16 = 4 ∧ 20 ≤ iphdrlen f.mem
      ∧ iphdrlen f.mem ≤ totLen f.mem ∧ 14 + totLen f.mem ≤ f.caplen)
    ⟨fun ⟨hip, hversion, hmin, hle, hcap⟩ ↦ ⟨hip, hversion, hmin, hle, hcap⟩,
      fun h ↦ ⟨h.isIPv4, h.version, h.le_iphdrlen, h.iphdrlen_le, h.captured⟩⟩

instance (f : Frame) : Decidable (TcpPacket f) :=
  decidable_of_iff (IPv4Packet f ∧ protocol f.mem = 6 ∧ 20 ≤ doffBytes f.mem
      ∧ iphdrlen f.mem + doffBytes f.mem ≤ totLen f.mem)
    ⟨fun ⟨hip, hprotocol, hmin, hle⟩ ↦ ⟨hip, hprotocol, hmin, hle⟩,
      fun h ↦ ⟨h.toIPv4Packet, h.protocol_eq, h.le_doffBytes, h.header_le⟩⟩

instance (f : Frame) : Decidable (UdpPacket f) :=
  decidable_of_iff (IPv4Packet f ∧ protocol f.mem = 17 ∧ 8 ≤ udpplen f.mem
      ∧ iphdrlen f.mem + udpplen f.mem ≤ totLen f.mem)
    ⟨fun ⟨hip, hprotocol, hmin, hle⟩ ↦ ⟨hip, hprotocol, hmin, hle⟩,
      fun h ↦ ⟨h.toIPv4Packet, h.protocol_eq, h.le_udpplen, h.datagram_le⟩⟩

instance (f : Frame) : Decidable (IcmpPacket f) :=
  decidable_of_iff (IPv4Packet f ∧ protocol f.mem = 1 ∧ iphdrlen f.mem + 8 ≤ totLen f.mem)
    ⟨fun ⟨hip, hprotocol, hle⟩ ↦ ⟨hip, hprotocol, hle⟩,
      fun h ↦ ⟨h.toIPv4Packet, h.protocol_eq, h.header_le⟩⟩

theorem tcpFrame_packet : TcpPacket tcpFrame := by decide

theorem udpFrame_packet : UdpPacket udpFrame := by decide

end AllProjects.PcapSniffer
