import AllProjects.Memory.CString

/-!
# Packets

A socket buffer as the netfilter hooks of the DNS proxy see it: the bytes from the network header
on, the length of the packet, and the end of the buffer. Accesses are checked against the end of
the buffer, not against the length of the packet, because that is all the hooks are held to.

Numbers are read the way the source reads them, little-endian and raw. A field in network byte
order is therefore compared with a swapped constant, and `htons` is the swap.
-/

namespace AllProjects

namespace DnsProxy

/-! ## Byte order -/

/-- Swap the two bytes of a 16-bit number: `htons` on a little-endian machine. -/
def htons (x : ℕ) : ℕ := x % 256 * 256 + x / 256 % 256

/-- `ntohs` is the same swap. -/
def ntohs (x : ℕ) : ℕ := htons x

theorem htons_lt (x : ℕ) : htons x < 2 ^ 16 := by
  rw [htons]
  omega

theorem ntohs_htons (x : ℕ) : ntohs (htons x) = x % 2 ^ 16 := by
  have hlow : htons x % 256 = x / 256 % 256 := by rw [htons]; omega
  have hhigh : htons x / 256 % 256 = x % 256 := by
    have hb : x % 256 < 256 := Nat.mod_lt _ (by decide)
    have hc : x / 256 % 256 < 256 := Nat.mod_lt _ (by decide)
    rw [htons]
    generalize x % 256 = b, x / 256 % 256 = c at hb hc ⊢
    omega
  rw [ntohs, htons, hlow, hhigh]
  omega

theorem ntohs_load_two (m : Mem) (a : ℕ) :
    ntohs (m.load a 2) = 256 * (m a).toNat + (m (a + 1)).toNat := by
  have hlo := (m a).toNat_lt
  have hhi := (m (a + 1)).toNat_lt
  rw [ntohs, htons, Mem.load_two]
  omega

/-! ## Constants -/

/-- `DNS_PORT`. -/
def dnsPort : ℕ := 53

/-- `ETH_P_IP`. -/
def ethPIp : ℕ := 0x0800

/-- `IPPROTO_UDP`. -/
def ipprotoUdp : ℕ := 17

/-- `sizeof(struct udphdr)`. -/
def sizeofUdphdr : ℕ := 8

/-- `sizeof(DNS_HEADER)`. -/
def sizeofDnsHeader : ℕ := 12

/-- `sizeof(RES_RECORD)`, a packed struct: `name` at 0, `type` at 2, `_class` at 4, `ttl` at 6,
`data_len` at 10, `rdata` at 12. -/
def sizeofResRecord : ℕ := 16

/-! ## Socket buffers -/

/-- A socket buffer. `mem` holds the bytes from the network header on, `len` of them belong to the
packet and `size` of them to the buffer. `protocol` is the raw 16-bit field. -/
structure SkBuff where
  protocol : ℕ
  mem : Mem
  len : ℕ
  size : ℕ
  transportHeader : ℕ

/-- What `skb_copy_expand(skb, 0, newtailroom, ..)` puts behind its copy of the packet, if it does
not return NULL: at least the room that was asked for, since the allocator rounds up, with whatever
bytes were there before. -/
structure Tailroom (newtailroom : ℕ) where
  bytes : Mem
  size : ℕ
  enough : newtailroom ≤ size

/-- No more than the room that was asked for, and zeros in it. -/
def Tailroom.exact (newtailroom : ℕ) : Tailroom newtailroom := ⟨fun _ ↦ 0, newtailroom, le_rfl⟩

namespace SkBuff

variable (skb : SkBuff)

/-- Read `w` bytes of the buffer. -/
def load (a w : ℕ) : Except Fault ℕ := skb.mem.loadIn 0 skb.size a w

/-- The same buffer with other bytes. -/
def withMem (m : Mem) : SkBuff := { skb with mem := m }

/-- Write `w` bytes of the buffer. -/
def store (a w v : ℕ) : Except Fault SkBuff := (skb.mem.storeIn 0 skb.size a w v).map skb.withMem

/-- What a string function sees at an address: the bytes up to the end of the buffer. -/
def bytesFrom (a : ℕ) : List UInt8 := skb.mem.slice a (skb.size - a)

/-- `skb_set_transport_header`. -/
def setTransportHeader (offset : ℕ) : SkBuff := { skb with transportHeader := offset }

/-- The copy of the packet with a given room behind it. -/
def copyExpand {newtailroom : ℕ} (room : Tailroom newtailroom) : SkBuff :=
  { skb with
    mem := fun x ↦ if x < skb.len then skb.mem x else room.bytes x
    size := skb.len + room.size }

/-! ### The IP header

The bit fields of its first byte, low bits first: `ihl` and `version`. -/

def ihl : Except Fault ℕ := do return (← skb.load 0 1) % 16

def version : Except Fault ℕ := do return (← skb.load 0 1) / 16

def totLen : Except Fault ℕ := skb.load 2 2

def ipProtocol : Except Fault ℕ := skb.load 9 1

def saddr : Except Fault ℕ := skb.load 12 4

def daddr : Except Fault ℕ := skb.load 16 4

def setTotLen (v : ℕ) : Except Fault SkBuff := skb.store 2 2 v

def setIpTtl (v : ℕ) : Except Fault SkBuff := skb.store 8 1 v

def setIpCheck (v : ℕ) : Except Fault SkBuff := skb.store 10 2 v

def setSaddr (v : ℕ) : Except Fault SkBuff := skb.store 12 4 v

def setDaddr (v : ℕ) : Except Fault SkBuff := skb.store 16 4 v

/-! ### The UDP header at `udp` -/

def source (udp : ℕ) : Except Fault ℕ := skb.load udp 2

def dest (udp : ℕ) : Except Fault ℕ := skb.load (udp + 2) 2

def udpLen (udp : ℕ) : Except Fault ℕ := skb.load (udp + 4) 2

def setSource (udp v : ℕ) : Except Fault SkBuff := skb.store udp 2 v

def setDest (udp v : ℕ) : Except Fault SkBuff := skb.store (udp + 2) 2 v

def setUdpLen (udp v : ℕ) : Except Fault SkBuff := skb.store (udp + 4) 2 v

/-! ### The DNS header at `dns`

The flags are the bit fields of two bytes, low bits first: `rd`, `tc`, `aa`, `opcode` (4 bits),
`qr`, and then `rcode` (4 bits), `cd`, `ad`, `z`, `ra`. -/

def dnsId (dns : ℕ) : Except Fault ℕ := skb.load dns 2

/-- `qr = 1; rd = 1`. -/
def setQrRd (dns : ℕ) : Except Fault SkBuff := do
  skb.store (dns + 2) 1 ((← skb.load (dns + 2) 1) ||| 0x81)

/-- `ra = 1; ad = 0`. -/
def setRaAd (dns : ℕ) : Except Fault SkBuff := do
  skb.store (dns + 3) 1 (((← skb.load (dns + 3) 1) ||| 0x80) &&& 0xdf)

def setQCount (dns v : ℕ) : Except Fault SkBuff := skb.store (dns + 4) 2 v

def setAnsCount (dns v : ℕ) : Except Fault SkBuff := skb.store (dns + 6) 2 v

def setAuthCount (dns v : ℕ) : Except Fault SkBuff := skb.store (dns + 8) 2 v

def setAddCount (dns v : ℕ) : Except Fault SkBuff := skb.store (dns + 10) 2 v

/-! ### The `RES_RECORD` at `ans` -/

def ansName (ans : ℕ) : Except Fault ℕ := skb.load ans 2

def ansType (ans : ℕ) : Except Fault ℕ := skb.load (ans + 2) 2

def ansClass (ans : ℕ) : Except Fault ℕ := skb.load (ans + 4) 2

def ansTtl (ans : ℕ) : Except Fault ℕ := skb.load (ans + 6) 4

def ansDataLen (ans : ℕ) : Except Fault ℕ := skb.load (ans + 10) 2

def ansRdata (ans : ℕ) : Except Fault ℕ := skb.load (ans + 12) 4

def setAnsName (ans v : ℕ) : Except Fault SkBuff := skb.store ans 2 v

def setAnsType (ans v : ℕ) : Except Fault SkBuff := skb.store (ans + 2) 2 v

def setAnsClass (ans v : ℕ) : Except Fault SkBuff := skb.store (ans + 4) 2 v

def setAnsTtl (ans v : ℕ) : Except Fault SkBuff := skb.store (ans + 6) 4 v

def setAnsDataLen (ans v : ℕ) : Except Fault SkBuff := skb.store (ans + 10) 2 v

def setAnsRdata (ans v : ℕ) : Except Fault SkBuff := skb.store (ans + 12) 4 v

/-! ### Accesses inside the buffer -/

@[simp] theorem withMem_mem (m : Mem) : (skb.withMem m).mem = m := rfl
@[simp] theorem withMem_size (m : Mem) : (skb.withMem m).size = skb.size := rfl
@[simp] theorem withMem_len (m : Mem) : (skb.withMem m).len = skb.len := rfl
@[simp] theorem withMem_protocol (m : Mem) : (skb.withMem m).protocol = skb.protocol := rfl
@[simp] theorem withMem_withMem (m m' : Mem) : (skb.withMem m).withMem m' = skb.withMem m' := rfl

@[simp] theorem withMem_transportHeader (m : Mem) :
    (skb.withMem m).transportHeader = skb.transportHeader := rfl

theorem setTransportHeader_transportHeader (offset : ℕ) :
    (skb.setTransportHeader offset).transportHeader = offset := rfl

theorem setTransportHeader_load (offset a w : ℕ) :
    (skb.setTransportHeader offset).load a w = skb.load a w := rfl

theorem setTransportHeader_bytesFrom (offset a : ℕ) :
    (skb.setTransportHeader offset).bytesFrom a = skb.bytesFrom a := rfl

variable {skb}

/-- Every buffer that keeps the packet and has the room behind it is such a copy. -/
theorem exists_copyExpand {newtailroom : ℕ} {skb' : SkBuff}
    (hprotocol : skb'.protocol = skb.protocol)
    (hlen : skb'.len = skb.len) (htransport : skb'.transportHeader = skb.transportHeader)
    (hkept : ∀ x < skb.len, skb'.mem x = skb.mem x) (hroom : skb.len + newtailroom ≤ skb'.size) :
    ∃ room : Tailroom newtailroom, skb' = skb.copyExpand room := by
  refine ⟨⟨skb'.mem, skb'.size - skb.len, by omega⟩, ?_⟩
  have hmem : skb'.mem = fun x ↦ if x < skb.len then skb.mem x else skb'.mem x := by
    funext x
    by_cases hx : x < skb.len
    · rw [if_pos hx, hkept x hx]
    · rw [if_neg hx]
  have hsize : skb'.size = skb.len + (skb'.size - skb.len) := by omega
  cases skb'
  dsimp only at hprotocol hlen htransport hmem hsize
  rw [hprotocol, hlen, htransport, copyExpand, ← hmem, ← hsize]

theorem load_eq_ok {a w : ℕ} (h : a + w ≤ skb.size) : skb.load a w = .ok (skb.mem.load a w) :=
  Mem.loadIn_eq_ok _ (Nat.zero_le a) h

theorem load_eq_ok_iff {a w v : ℕ} :
    skb.load a w = .ok v ↔ a + w ≤ skb.size ∧ v = skb.mem.load a w := by
  rw [load, Mem.loadIn_eq_ok_iff]
  simp

theorem store_eq_ok_iff {skb' : SkBuff} {a w v : ℕ} :
    skb.store a w v = .ok skb' ↔ a + w ≤ skb.size ∧ skb' = skb.withMem (skb.mem.store a w v) := by
  rw [store, Except.map_eq_ok_iff]
  simp only [Mem.storeIn_eq_ok_iff, Nat.zero_le, true_and, and_assoc, exists_and_left,
    exists_eq_left, eq_comm]

theorem length_lt_of_bytesFrom {a : ℕ} {s : List UInt8} (h : cstring (skb.bytesFrom a) = some s) :
    a + s.length < skb.size := by
  have hlen := length_lt_of_cstring h
  rw [bytesFrom, Mem.length_slice] at hlen
  omega

theorem slice_of_cstring {a : ℕ} {s : List UInt8} (h : cstring (skb.bytesFrom a) = some s) :
    skb.mem.slice a (s.length + 1) = s ++ [0] := by
  have hlt := length_lt_of_bytesFrom h
  obtain ⟨-, rest, hrest⟩ := cstring_eq_some_iff.mp h
  have hsplit : skb.size - a = s.length + 1 + (skb.size - a - (s.length + 1)) := by omega
  rw [bytesFrom, hsplit, Mem.slice_add] at hrest
  have htake := congrArg (List.take (s.length + 1)) hrest
  rw [List.take_left' (Mem.length_slice _ _ _)] at htake
  rw [htake]
  simp [List.take_append]

theorem cstring_bytesFrom_congr {skb' : SkBuff} {a : ℕ} {s : List UInt8}
    (h : cstring (skb.bytesFrom a) = some s) (hsize : a + s.length < skb'.size)
    (hagree : ∀ x, a ≤ x → x ≤ a + s.length → skb'.mem x = skb.mem x) :
    cstring (skb'.bytesFrom a) = some s := by
  have h0 := zero_not_mem_of_cstring h
  have hsplit : skb'.size - a = s.length + 1 + (skb'.size - a - (s.length + 1)) := by omega
  have hsame : skb'.mem.slice a (s.length + 1) = skb.mem.slice a (s.length + 1) :=
    Mem.slice_congr fun x hx hx' ↦ hagree x hx (by omega)
  rw [bytesFrom, hsplit, Mem.slice_add, hsame, slice_of_cstring h, List.append_assoc]
  exact cstring_append_zero h0 _

end SkBuff

end DnsProxy

end AllProjects
