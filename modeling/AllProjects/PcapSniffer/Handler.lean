import AllProjects.PcapSniffer.Report
import AllProjects.Transition.Run

/-!
# The packet handler

`pckt_hndl` is called by `pcap_loop` for each captured frame. It counts the frame under the protocol
byte of what it takes for an IP header, and prints a report, for TCP and UDP only when the search
string is found. The string is compared as signed characters with unsigned data, and the search
looks at the outcome of a comparison only at the start of the next round.

The decision is `Found`, the counter is `Counter.ofProtocol`. A TCP frame is reported once when the
decision says so, and a UDP frame once more than that. Counting follows the protocol byte without
regard to the EtherType, so what is counted is right for the frames that are IPv4, and for those
whose byte at that place happens to name no protocol.
-/

namespace AllProjects.PcapSniffer

open Prog

/-! ## The search -/

/-- `data[i+k] != search_str[k]`, where `data` is unsigned and `search_str` is signed. -/
abbrev Differs (b : ℕ) (c : UInt8) : Prop := (b : ℤ) ≠ c.toInt8.toInt

/-- The inner loop: the number of characters that agree from `data[i]` on. -/
def compareAt (data i : ℕ) : ℕ → List UInt8 → Prog Output ℕ
  | k, [] => pure k
  | k, c :: cs => do
    let b ← read (data + (i + k) % 2 ^ 32) 1
    if Differs b c then pure k else compareAt data i (k + 1) cs

/-- The outer loop, with `k` as the previous round left it and the number of rounds to go. -/
def searchLoop (data : ℕ) (searchStr : List UInt8) : ℕ → ℕ → ℕ → Prog Output ℤ
  | _, _, 0 => pure (-1)
  | i, k, n + 1 =>
    if k = searchStr.length then pure 0
    else do
      let k ← compareAt data i 0 searchStr
      searchLoop data searchStr (i + 1) k n

/-- The search behind the headers. The length of the string is kept in 32 bits. -/
def searchFrom (size hdrSize : ℕ) (searchStr : List UInt8) : Prog Output ℤ :=
  searchLoop hdrSize (searchStr.take (searchStr.length % 2 ^ 32)) 0 0 (payloadSize size hdrSize)

def checkData (size proto : ℕ) (searchStr : List UInt8) : Prog Output ℤ := do
  let ihl ← read 14 1
  let ipHdrLen := ihl % 16 * 4
  match proto with
  | 6 => do
    let doff ← read (14 + ipHdrLen + 12) 1
    searchFrom size (14 + ipHdrLen + doff / 16 * 4) searchStr
  | 17 => searchFrom size (14 + ipHdrLen + 8) searchStr
  | _ => pure (-1)

/-! ## The handler -/

/-- The global counters. -/
structure Stats where
  tcp : Int32 := 0
  udp : Int32 := 0
  icmp : Int32 := 0
  igmp : Int32 := 0
  others : Int32 := 0
  total : Int32 := 0
  deriving DecidableEq, Inhabited, Repr

/-- Print the packet, when no string is given or the string is found. -/
def reportIfFound (args : Option (List UInt8)) (size : ℕ) (printPacket : ℕ → Prog Output Unit) :
    Prog Output Unit :=
  match args with
  | none => printPacket size
  | some searchStr => do
    let protocol ← read 23 1
    let res ← checkData size protocol searchStr
    if res ≠ -1 then printPacket size else pure ()

/-- `switch (iph->protocol)` -/
def dispatch (args : Option (List UInt8)) (size : ℕ) (st : Stats) : ℕ → Prog Output Stats
  | 1 => do
    printIcmpPacket size
    pure { st with icmp := st.icmp + 1 }
  | 2 => pure { st with igmp := st.igmp + 1 }
  | 6 => do
    reportIfFound args size printTcpPacket
    pure { st with tcp := st.tcp + 1 }
  | 17 => do
    -- printed once more, whatever the search has found
    reportIfFound args size printUdpPacket
    printUdpPacket size
    pure { st with udp := st.udp + 1 }
  | _ => do
    print (.text
      "\n***********************Other protocol, skip the packet*************************\n")
    pure { st with others := st.others + 1 }

def pcktHndl (args : Option (List UInt8)) (size : ℕ) (st : Stats) : Prog Output Stats := do
  let shown ← read 23 1
  print (.field "Protocol" [shown])
  let protocol ← read 23 1
  let st ← dispatch args size { st with total := st.total + 1 } protocol
  print (.text "\nStatistic:\n")
  print (.count "TCP" st.tcp)
  print (.count "UDP" st.udp)
  print (.count "ICMP" st.icmp)
  print (.count "OTH" st.others)
  print (.count "TOT" st.total)
  pure st

/-- What libpcap hands over: the memory from `packet` on, how much of it was captured, and how long
the frame was on the wire. -/
structure Frame where
  mem : Mem
  caplen : ℕ
  len : ℕ
  caplen_le : caplen ≤ len
  len_lt : len < 2 ^ 32

/-! ## The search decides -/

section

variable (data size proto i k n : ℕ) (s : List UInt8)

theorem silent_compareAt : Silent (compareAt data i k s) := by
  induction s generalizing k with
  | nil => exact silent_pure k
  | cons c cs ih =>
    apply (silent_read _ _).bind
    intro b
    split
    · exact silent_pure k
    · exact ih (k + 1)

theorem silent_searchLoop : Silent (searchLoop data s i k n) := by
  induction n generalizing i k with
  | zero => exact silent_pure _
  | succ n ih =>
    rw [searchLoop]
    split
    · exact silent_pure _
    · exact (silent_compareAt data i 0 s).bind fun k ↦ ih (i + 1) k

theorem silent_searchFrom : Silent (searchFrom size data s) := silent_searchLoop ..

theorem silent_checkData : Silent (checkData size proto s) := by
  apply (silent_read _ _).bind
  intro ihl
  dsimp only
  split
  · exact (silent_read _ _).bind fun doff ↦ silent_searchFrom ..
  · exact silent_searchFrom ..
  · exact silent_pure _

end

theorem protocol_cases (p : ℕ) :
    p = 1 ∨ p = 2 ∨ p = 6 ∨ p = 17 ∨ (p ≠ 1 ∧ p ≠ 2 ∧ p ≠ 6 ∧ p ≠ 17) := by
  omega

/-- `iph->protocol` -/
def protocol (m : Mem) : ℕ := m.load 23 1

/-- No string is given, or `check_data` finds it. -/
def found (args : Option (List UInt8)) (size : ℕ) (m : Mem) : Bool :=
  match args with
  | none => true
  | some s => (checkData size (protocol m) s m).val != -1

section

variable {x : Prog Output ℤ} {p : Prog Output Unit} {m : Mem}

/-- A search that is silent decides whether the rest runs. -/
theorem search_out (hx : Silent x) :
    ((x >>= fun res ↦ if res ≠ -1 then p else pure ()) m).out
      = if (x m).val != -1 then (p m).out else [] := by
  rw [bind_out, hx.mem, hx.out, silent_append]
  by_cases hres : (x m).val = -1 <;> simp [hres]

theorem search_mem (hx : Silent x) :
    ((x >>= fun res ↦ if res ≠ -1 then p else pure ()) m).mem
      = if (x m).val != -1 then (p m).mem else m := by
  rw [bind_mem, hx.mem]
  by_cases hres : (x m).val = -1 <;> simp [hres]

end

section

variable (args : Option (List UInt8)) (size : ℕ) (st : Stats) (m : Mem)
  (printPacket : ℕ → Prog Output Unit)

theorem reportIfFound_out :
    (reportIfFound args size printPacket m).out
      = if found args size m then (printPacket size m).out else [] := by
  cases args with
  | none => rfl
  | some s =>
    rw [reportIfFound, bind_out, read_out, read_val, read_mem, silent_append]
    exact search_out (silent_checkData ..)

theorem reportIfFound_mem :
    (reportIfFound args size printPacket m).mem
      = if found args size m then (printPacket size m).mem else m := by
  cases args with
  | none => rfl
  | some s =>
    rw [reportIfFound, bind_mem, read_val, read_mem]
    exact search_mem (silent_checkData ..)

theorem pcktHndl_mem :
    (pcktHndl args size st m).mem
      = (dispatch args size { st with total := st.total + 1 } (protocol m) m).mem := by
  simp only [pcktHndl, bind_mem, read_mem, read_val, print_mem, pure_mem, protocol]

theorem pcktHndl_val :
    (pcktHndl args size st m).val
      = (dispatch args size { st with total := st.total + 1 } (protocol m) m).val := by
  simp only [pcktHndl, bind_val, read_mem, read_val, print_mem, pure_val, protocol]

theorem pcktHndl_evidence :
    evidence (pcktHndl args size st m).out
      = evidence (dispatch args size { st with total := st.total + 1 } (protocol m) m).out := by
  simp only [pcktHndl, bind_out, read_out, read_mem, read_val, print_out, print_mem, pure_out,
    evidence_append, evidence_field, evidence_text, evidence_count, silent_append,
    List.append_nil, protocol]

theorem pcktHndl_reports :
    reports (pcktHndl args size st m).out
      = reports (dispatch args size { st with total := st.total + 1 } (protocol m) m).out := by
  simp only [pcktHndl, bind_out, read_out, read_mem, read_val, print_out, print_mem, pure_out,
    reports_append, reports_field, reports_text, reports_count, silent_append,
    List.append_nil, protocol]

theorem readsBelow_pcktHndl {b : ℕ} :
    (pcktHndl args size st).ReadsBelow m b
      ↔ 24 ≤ b
        ∧ (dispatch args size { st with total := st.total + 1 } (protocol m)).ReadsBelow m b := by
  simp only [pcktHndl, readsBelow_bind, readsBelow_read, readsBelow_print, readsBelow_pure,
    read_mem, read_val, print_mem, protocol, one_ne_zero, false_or, true_and, and_true,
    and_self_left]

theorem dispatch_other {p : ℕ} (h : p ≠ 1 ∧ p ≠ 2 ∧ p ≠ 6 ∧ p ≠ 17) :
    dispatch args size st p = (do
      print (.text
        "\n***********************Other protocol, skip the packet*************************\n")
      pure { st with others := st.others + 1 }) := by
  obtain ⟨h1, h2, h6, h17⟩ := h
  rw [dispatch.eq_def]
  split
  · exact absurd rfl h1
  · exact absurd rfl h2
  · exact absurd rfl h6
  · exact absurd rfl h17
  · rfl

theorem reportIfFound_reports {r : ℕ → Mem → Report}
    (h : ∀ size, Prints (printPacket size) (r size)) :
    reports (reportIfFound args size printPacket m).out
      = if found args size m then [(r size m).title] else [] := by
  rw [reportIfFound_out, apply_ite reports, (h size).reports_eq, reports_nil]

theorem tcp_reports :
    reports (dispatch args size st 6 m).out = if found args size m then [tcpTitle] else [] := by
  rw [dispatch, bind_out, pure_out, List.append_nil,
    reportIfFound_reports args size m printTcpPacket printTcpPacket_prints]
  rfl

theorem udp_reports :
    reports (dispatch args size st 17 m).out
      = (if found args size m then [udpTitle] else []) ++ [udpTitle] := by
  simp only [dispatch, bind_out, pure_out, List.append_nil, reports_append,
    (printUdpPacket_prints size).reports_eq,
    reportIfFound_reports args size m printUdpPacket printUdpPacket_prints, udpReport]

end

/-! ## What is printed -/

namespace Frame

/-- An IPv4 packet whose header is captured as far as the protocol field. -/
def IsIPv4 (f : Frame) : Prop := 24 ≤ f.caplen ∧ f.mem 12 = 8 ∧ f.mem 13 = 0

instance (f : Frame) : Decidable f.IsIPv4 := inferInstanceAs (Decidable (_ ∧ _ ∧ _))

end Frame

/-- A frame that is captured whole. -/
def frameOf (bytes : List UInt8) (h : bytes.length < 2 ^ 32) : Frame where
  mem i := bytes.getD i 0
  caplen := bytes.length
  len := bytes.length
  caplen_le := le_rfl
  len_lt := h

/-- A UDP packet without payload. -/
def udpFrame : Frame := frameOf
  [0, 0, 0, 0, 0, 0, 0, 0, 0, 0, 0, 0, 8, 0,
    0x45, 0, 0, 28, 0, 0, 0, 0, 64, 17, 0, 0, 10, 0, 0, 1, 10, 0, 0, 2,
    0, 53, 0, 53, 0, 8, 0, 0] (by decide)

/-- The title of the report on a packet of the protocol. -/
def titleOf (protocol : ℕ) : String := if protocol = 6 then tcpTitle else udpTitle

/-- The search decides: a TCP or UDP packet is reported once when the string is found or none is
given, and not at all otherwise. -/
def SearchDecides (args : Option (List UInt8)) (f : Frame) : Prop :=
  f.IsIPv4 → protocol f.mem = 6 ∨ protocol f.mem = 17 → ∀ st : Stats,
    reports (pcktHndl args f.len st f.mem).out
      = if found args f.len f.mem then [titleOf (protocol f.mem)] else []

/-- **The search decides for TCP only.** After the switch has reported a UDP packet or not, it is
reported once more. -/
theorem searchDecides_iff (args : Option (List UInt8)) (f : Frame) :
    SearchDecides args f ↔ ¬ (f.IsIPv4 ∧ protocol f.mem = 17) := by
  constructor
  · rintro h ⟨hip, hudp⟩
    have hrep := h hip (Or.inr hudp) {}
    rw [pcktHndl_reports, hudp, udp_reports] at hrep
    cases hfound : found args f.len f.mem <;> simp [hfound, titleOf] at hrep
  · intro h hip hproto st
    obtain htcp | hudp := hproto
    · rw [pcktHndl_reports, htcp, tcp_reports]
      rfl
    · exact absurd ⟨hip, hudp⟩ h

/-- Without a search string the packet is reported twice. -/
theorem udpFrame_reported_twice : ¬ SearchDecides none udpFrame := by
  intro h
  have hip : udpFrame.IsIPv4 := by decide
  have hudp : protocol udpFrame.mem = 17 := by decide
  have hrep := h hip (Or.inr hudp) {}
  rw [pcktHndl_reports, hudp, udp_reports] at hrep
  exact absurd (congrArg List.length hrep) (by decide)

/-! ## Counting -/

/-- The five counters beside `total`. -/
inductive Counter
  | icmp
  | igmp
  | tcp
  | udp
  | others
  deriving DecidableEq, Repr

namespace Counter

/-- The counter for a protocol number, as the switch has it. -/
def ofProtocol : ℕ → Counter
  | 1 => icmp
  | 2 => igmp
  | 6 => tcp
  | 17 => udp
  | _ => others

theorem ofProtocol_other {p : ℕ} (h : p ≠ 1 ∧ p ≠ 2 ∧ p ≠ 6 ∧ p ≠ 17) :
    ofProtocol p = others := by
  simp [ofProtocol, h]

end Counter

namespace Stats

def get (st : Stats) : Counter → Int32
  | .icmp => st.icmp
  | .igmp => st.igmp
  | .tcp => st.tcp
  | .udp => st.udp
  | .others => st.others

/-- The frame is counted under `c`, and under nothing else. -/
def Counts (s : Stats) (c : Counter) (t : Stats) : Prop :=
  t.total = s.total + 1 ∧ ∀ d, t.get d = s.get d + if d = c then 1 else 0

/-- Every frame is counted somewhere. -/
def Balanced (st : Stats) : Prop := st.total = st.icmp + st.igmp + st.tcp + st.udp + st.others

end Stats

/-- The counter of what the frame really is. -/
def Frame.counter (f : Frame) : Counter :=
  if f.IsIPv4 then Counter.ofProtocol (protocol f.mem) else .others

/-- `pckt_hndl` handles the frame. -/
def Handles (args : Option (List UInt8)) (s : Stats) (f : Frame) (t : Stats) : Prop :=
  t = (pcktHndl args f.len s f.mem).val

/-- The protocol byte tells the truth: the frame is an IPv4 packet, or the byte names none of the
protocols that are counted. -/
def Frame.IsPlain (f : Frame) : Prop :=
  f.IsIPv4 ∨ Counter.ofProtocol (protocol f.mem) = .others

instance (f : Frame) : Decidable f.IsPlain := inferInstanceAs (Decidable (_ ∨ _))

theorem counts_ofProtocol (args : Option (List UInt8)) (size : ℕ) (st : Stats) (m : Mem) :
    st.Counts (Counter.ofProtocol (protocol m)) (pcktHndl args size st m).val := by
  rw [pcktHndl_val]
  obtain hp | hp | hp | hp | hp := protocol_cases (protocol m)
  case inr.inr.inr.inr =>
    rw [dispatch_other args size _ hp, Counter.ofProtocol_other hp, bind_val, pure_val]
    exact ⟨rfl, by rintro ⟨⟩ <;> simp [Stats.get]⟩
  all_goals
    rw [hp, dispatch]
    simp only [bind_val, pure_val, Counter.ofProtocol]
    exact ⟨rfl, by rintro ⟨⟩ <;> simp [Stats.get]⟩

theorem Stats.Counts.balanced {s t : Stats} {c : Counter} (h : s.Counts c t) (hs : s.Balanced) :
    t.Balanced := by
  obtain ⟨htotal, hget⟩ := h
  have hicmp := hget .icmp
  have higmp := hget .igmp
  have htcp := hget .tcp
  have hudp := hget .udp
  have hothers := hget .others
  simp only [Stats.get] at hicmp higmp htcp hudp hothers
  rw [Stats.Balanced] at hs ⊢
  rw [htotal, hicmp, higmp, htcp, hudp, hothers, hs]
  cases c <;> simp <;> grind

/-- A frame is counted once, so it is counted under one counter only. -/
theorem Stats.Counts.unique {s t : Stats} {c c' : Counter} (h : s.Counts c t) (h' : s.Counts c' t) :
    c = c' := by
  by_contra hne
  have hc := h.2 c
  have hc' := h'.2 c
  rw [if_pos rfl] at hc
  rw [if_neg hne] at hc'
  have hzero : (1 : Int32) = 0 := by grind
  exact absurd hzero (by decide)

theorem Frame.counter_eq_iff (f : Frame) :
    Counter.ofProtocol (protocol f.mem) = f.counter ↔ f.IsPlain := by
  rw [Frame.counter, Frame.IsPlain]
  by_cases hip : f.IsIPv4
  · rw [if_pos hip]
    exact iff_of_true rfl (Or.inl hip)
  · rw [if_neg hip, or_iff_right hip]

theorem Handles.counts_iff {args : Option (List UInt8)} {s t : Stats} {f : Frame}
    (h : Handles args s f t) : s.Counts f.counter t ↔ f.IsPlain := by
  have hcount := counts_ofProtocol args f.len s f.mem
  rw [← h] at hcount
  rw [← f.counter_eq_iff]
  constructor
  · intro hreal
    exact hcount.unique hreal
  · intro heq
    rwa [← heq]

/-- **Counting follows the protocol byte.** In every run `total` is the sum of the five counters and
each frame is counted under one of them; it is counted under what it really is, in every step,
exactly when every frame is plain. -/
theorem counted_iff_plain {args : Option (List UInt8)} {fs : List Frame} {st : Stats}
    (hrun : Run (Handles args) {} fs st) :
    st.Balanced
      ∧ Run (fun s f t ↦ Handles args s f t ∧ ∃! c, s.Counts c t) {} fs st
      ∧ (Run (fun s f t ↦ Handles args s f t ∧ s.Counts f.counter t) {} fs st
        ↔ ∀ f ∈ fs, f.IsPlain) := by
  refine ⟨?_, ?_, ?_⟩
  · apply hrun.invariant (I := Stats.Balanced)
    · rintro s f t hs rfl
      exact (counts_ofProtocol args f.len s f.mem).balanced hs
    · rfl
  · apply hrun.imp
    rintro s f t rfl
    have hcount := counts_ofProtocol args f.len s f.mem
    exact ⟨rfl, _, hcount, fun c hc ↦ hc.unique hcount⟩
  · constructor
    · intro hreal
      apply hreal.forall_events (P := Frame.IsPlain)
      rintro s f t ⟨h, hcount⟩
      exact h.counts_iff.mp hcount
    · intro hplain
      apply hrun.imp_of (P := Frame.IsPlain) _ hplain
      intro s f t hf h
      exact ⟨h, h.counts_iff.mpr hf⟩

theorem counted_iff_plain_udp :
    ∃ st, (∀ f ∈ [udpFrame], f.IsPlain)
      ∧ Run (fun s f t ↦ Handles none s f t ∧ s.Counts f.counter t) {} [udpFrame] st := by
  have hrun : Run (Handles none) {} [udpFrame] (pcktHndl none udpFrame.len {} udpFrame.mem).val :=
    Run.single rfl
  have hplain : ∀ f ∈ [udpFrame], f.IsPlain := by
    rw [List.forall_mem_singleton]
    exact Or.inl (by decide)
  exact ⟨_, hplain, (counted_iff_plain hrun).2.2.mpr hplain⟩

/-- An ARP request whose byte 23, the second of the sender's hardware address, is `6`. -/
def arpFrame : Frame := frameOf
  [255, 255, 255, 255, 255, 255, 2, 6, 0, 0, 0, 1, 8, 6,
    0, 1, 8, 0, 6, 4, 0, 1, 2, 6, 0, 0, 0, 1, 10, 0, 0, 1,
    0, 0, 0, 0, 0, 0, 10, 0, 0, 2] (by decide)

/-- It is counted as TCP. -/
theorem arpFrame_counted_as_tcp :
    ∃ st, Run (Handles none) {} [arpFrame] st
      ∧ ¬ Run (fun s f t ↦ Handles none s f t ∧ s.Counts f.counter t) {} [arpFrame] st := by
  refine ⟨_, Run.single rfl, ?_⟩
  intro hreal
  have hplain := hreal.forall_events (P := Frame.IsPlain)
    (fun s f t h ↦ h.1.counts_iff.mp h.2) arpFrame List.mem_cons_self
  exact absurd hplain (by decide)

end AllProjects.PcapSniffer
