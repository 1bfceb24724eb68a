import AllProjects.IcmpRawSocket.Ping

/-!
# Slots for the times

`diff_time` has a slot for each of `reqs_count` requests, which is a number from the command line,
and zero when none is given. The request thread counts in 32 bits and stamps the slot of that
number; the packet has room for the low 16 bits. The reply thread takes these 16 bits, of any packet
that looks like a reply, for the slot.

So there are two ways to miss. The sequence number may not be below `reqs_count`, for nothing
compares them. And from request `65536` on, the sequence number is not the number of the request:
its reply goes to the slot of an earlier one. Only a table of `65536` slots is right for all
packets.

This is the part of a `ping` process that has to do with the table, for any `reqs_count`. A process
with the threads and their states runs through it (`simulated`).
-/

namespace AllProjects.IcmpRawSocket

namespace Ping

/-! ## The table -/

/-- A request that was sent: its number, the slot that was stamped, the sequence number in the
packet, and the time in the slot. -/
structure Request where
  number : ℕ
  slot : ℕ
  sequence : ℕ
  time : ℕ

/-- The table, and the counters of both threads. The requests are kept for the specification. -/
structure Table where
  i : ℕ := 0
  seqNum : ℕ := 0
  stamped : Bool := false
  reqsCount : ℕ := 0
  exited : Bool := false
  diffTime : ℕ → DiffTime
  requests : List Request := []

/-- What the threads do with the table: a slot is stamped, the request goes out and the counters go
on, a packet comes in. -/
inductive Access
  | stamp (now : ℕ)
  | sendto
  | recvfrom (p : Packet) (now : ℕ)

/-- The packets that `icmp_repl_hndl` takes for replies. -/
def Accepts (reqsId : ℕ) (p : Packet) : Prop :=
  idAt p (icmpAt p) = reqsId ∧ typeAt p (icmpAt p) = icmpEchoReply

instance (reqsId : ℕ) (p : Packet) : Decidable (Accepts reqsId p) :=
  inferInstanceAs (Decidable (_ ∧ _))

/-- `ntohs(repl_icmph->un.echo.sequence)` -/
def replySlot (p : Packet) : ℕ := sequenceAt p (icmpAt p)

namespace Table

/-- `gettimeofday(&(ping_sets->diff_time[seq_num].reqs_time), NULL)` -/
def stamp (s : Table) (now : ℕ) : Table :=
  { s with
    stamped := true
    diffTime := Function.update s.diffTime s.seqNum
      { s.diffTime s.seqNum with reqsTime := now } }

/-- The request is sent, and the counters go on. -/
def send (s : Table) : Table :=
  { s with
    stamped := false
    requests := s.requests
      ++ [⟨s.i, s.seqNum, s.seqNum % 2 ^ 16, (s.diffTime s.seqNum).reqsTime⟩]
    seqNum := (s.seqNum + 1) % 2 ^ 32
    i := (s.i + 1) % 2 ^ 32 }

/-- The case `ICMP_ECHOREPLY`. -/
def record (reqsCount : ℕ) (s : Table) (p : Packet) (now : ℕ) : Table :=
  { s with
    diffTime := Function.update s.diffTime (replySlot p)
      { s.diffTime (replySlot p) with replTime := now }
    reqsCount := (s.reqsCount + 1) % 2 ^ 32
    exited := decide (reqsCount = (s.reqsCount + 1) % 2 ^ 32) }

/-- The two loops, as far as they touch the table. -/
def exec (reqsId reqsCount : ℕ) (s : Table) : Access → Option Table
  | .stamp now => if s.stamped = false ∧ s.i < reqsCount then some (s.stamp now) else none
  | .sendto => if s.stamped = true then some s.send else none
  | .recvfrom p now =>
    if s.exited = true then none
    else if Accepts reqsId p then some (s.record reqsCount p now)
    else some s

def Step (reqsId reqsCount : ℕ) (s : Table) (a : Access) (t : Table) : Prop :=
  s.exec reqsId reqsCount a = some t

/-- Before the threads are started. -/
def start (diffTime : ℕ → DiffTime) : Table := { diffTime := diffTime }

/-! ## The right slots -/

/-- The slots that are accessed. -/
def accessed (reqsId : ℕ) (s : Table) : Access → List ℕ
  | .stamp _ => [s.seqNum]
  | .sendto => []
  | .recvfrom p _ => if Accepts reqsId p then [replySlot p] else []

/-- Every slot that is accessed is in the table, and a reply is recorded in the slot of the request
with its sequence number, which holds the time when that was sent. -/
structure RightSlot (reqsId reqsCount : ℕ) (s : Table) (a : Access) : Prop where
  below : ∀ k ∈ s.accessed reqsId a, k < reqsCount
  matched : ∀ p now, a = .recvfrom p now → Accepts reqsId p →
    ∀ r ∈ s.requests, r.sequence = replySlot p →
      replySlot p = r.slot ∧ (s.diffTime (replySlot p)).reqsTime = r.time

/-- A packet that is taken for a reply has a sequence number below `reqs_count`, and it is not the
sequence number of a request from `65536` on that was sent. -/
def Within (reqsId reqsCount : ℕ) (s : Table) : Access → Prop
  | .recvfrom p _ => Accepts reqsId p →
    replySlot p < reqsCount ∧ ∀ r ∈ s.requests, r.sequence = replySlot p → r.number < 2 ^ 16
  | .stamp _ | .sendto => True

/-- The requests were numbered from zero on, and every one was stamped in the slot of its number,
where its time still is. -/
structure Inv (reqsCount : ℕ) (s : Table) : Prop where
  seqNum_eq : s.seqNum = s.i
  i_le : s.i ≤ reqsCount
  stamped_lt : s.stamped = true → s.i < reqsCount
  numbers : s.requests.map Request.number = List.range s.i
  slots : ∀ r ∈ s.requests, r.slot = r.number ∧ r.sequence = r.number % 2 ^ 16
  times : ∀ r ∈ s.requests, (s.diffTime r.slot).reqsTime = r.time

section

variable {reqsId reqsCount now : ℕ} {s t : Table} {a : Access} {r : Request} {p : Packet}

theorem step_stamp (hstamped : s.stamped = false) (hi : s.i < reqsCount) :
    Step reqsId reqsCount s (.stamp now) (s.stamp now) :=
  if_pos ⟨hstamped, hi⟩

theorem step_sendto (hstamped : s.stamped = true) : Step reqsId reqsCount s .sendto s.send :=
  if_pos hstamped

theorem step_recvfrom (hexited : s.exited = false) (h : Accepts reqsId p) :
    Step reqsId reqsCount s (.recvfrom p now) (s.record reqsCount p now) := by
  rw [Step, exec, hexited, if_neg (by decide), if_pos h]

theorem inv_start (diffTime : ℕ → DiffTime) : Inv reqsCount (start diffTime) where
  seqNum_eq := rfl
  i_le := Nat.zero_le _
  stamped_lt := nofun
  numbers := rfl
  slots _ hr := absurd hr List.not_mem_nil
  times _ hr := absurd hr List.not_mem_nil

theorem Inv.number_lt (h : Inv reqsCount s) (hr : r ∈ s.requests) : r.number < s.i := by
  have hmem := List.mem_map_of_mem (f := Request.number) hr
  rw [h.numbers, List.mem_range] at hmem
  exact hmem

theorem record_reqsTime (p : Packet) (now k : ℕ) :
    ((s.record reqsCount p now).diffTime k).reqsTime = (s.diffTime k).reqsTime := by
  rw [record]
  by_cases hk : k = replySlot p
  · rw [hk]
    simp only [Function.update_self]
  · simp only [Function.update_of_ne hk]

theorem Inv.record (h : Inv reqsCount s) (p : Packet) (now : ℕ) :
    Inv reqsCount (s.record reqsCount p now) where
  seqNum_eq := h.seqNum_eq
  i_le := h.i_le
  stamped_lt := h.stamped_lt
  numbers := h.numbers
  slots := h.slots
  times r hr := (record_reqsTime p now r.slot).trans (h.times r hr)

theorem Inv.stamp (h : Inv reqsCount s) (hi : s.i < reqsCount) (now : ℕ) :
    Inv reqsCount (s.stamp now) where
  seqNum_eq := h.seqNum_eq
  i_le := h.i_le
  stamped_lt _ := hi
  numbers := h.numbers
  slots := h.slots
  times r hr := by
    -- The slot of an earlier request is not the one that is stamped.
    have hne : r.slot ≠ s.seqNum := by
      have hlt := h.number_lt hr
      rw [(h.slots r hr).1, h.seqNum_eq]
      omega
    rw [Table.stamp]
    simp only [Function.update_of_ne hne]
    exact h.times r hr

theorem Inv.send (hcount : reqsCount < 2 ^ 32) (h : Inv reqsCount s) (hi : s.i < reqsCount) :
    Inv reqsCount s.send := by
  have hnext : (s.i + 1) % 2 ^ 32 = s.i + 1 := by omega
  constructor
  · simp only [Table.send, h.seqNum_eq]
  · rw [Table.send, hnext]
    exact hi
  · nofun
  · rw [Table.send, List.map_append, h.numbers, hnext, List.range_succ, List.map_singleton]
  · intro r hr
    obtain hr | hr := List.mem_append.mp hr
    · exact h.slots r hr
    · rw [List.mem_singleton.mp hr]
      exact ⟨h.seqNum_eq, by rw [h.seqNum_eq]⟩
  · intro r hr
    obtain hr | hr := List.mem_append.mp hr
    · exact h.times r hr
    · rw [List.mem_singleton.mp hr]
      rfl

theorem Inv.step (hcount : reqsCount < 2 ^ 32) (h : Inv reqsCount s)
    (hstep : Step reqsId reqsCount s a t) : Inv reqsCount t := by
  cases a with
  | stamp now =>
    obtain ⟨⟨-, hi⟩, ⟨⟩⟩ := Option.ite_none_right_eq_some.mp hstep
    exact h.stamp hi now
  | sendto =>
    obtain ⟨hstamped, ⟨⟩⟩ := Option.ite_none_right_eq_some.mp hstep
    exact h.send hcount (h.stamped_lt hstamped)
  | recvfrom p now =>
    obtain ⟨-, hrest⟩ := Option.ite_none_left_eq_some.mp hstep
    split at hrest
    · obtain ⟨⟩ := hrest
      exact h.record p now
    · obtain ⟨⟩ := hrest
      exact h

/-- A reply to a request is recorded in its slot exactly when the number of the request is one of 16
bits. -/
theorem Inv.matched_iff (h : Inv reqsCount s) (hr : r ∈ s.requests) {k : ℕ} (hk : r.sequence = k) :
    (k = r.slot ∧ (s.diffTime k).reqsTime = r.time) ↔ r.number < 2 ^ 16 := by
  obtain ⟨hslot, hsequence⟩ := h.slots r hr
  have htime := h.times r hr
  constructor
  · rintro ⟨heq, -⟩
    omega
  · intro hlt
    have heq : k = r.slot := by omega
    exact ⟨heq, heq ▸ htime⟩

/-- **One step.** The request thread is always right. -/
theorem Inv.rightSlot_iff (h : Inv reqsCount s) (hstep : Step reqsId reqsCount s a t) :
    RightSlot reqsId reqsCount s a ↔ Within reqsId reqsCount s a := by
  cases a with
  | stamp now =>
    obtain ⟨⟨-, hi⟩, -⟩ := Option.ite_none_right_eq_some.mp hstep
    refine iff_of_true ⟨?_, nofun⟩ trivial
    intro k hk
    rw [List.mem_singleton.mp hk, h.seqNum_eq]
    exact hi
  | sendto => exact iff_of_true ⟨fun k hk ↦ absurd hk List.not_mem_nil, nofun⟩ trivial
  | recvfrom p now =>
    rw [Within]
    constructor
    · rintro ⟨hbelow, hmatched⟩ haccepts
      rw [accessed, if_pos haccepts] at hbelow
      refine ⟨hbelow _ List.mem_cons_self, ?_⟩
      intro r hr hsequence
      exact (h.matched_iff hr hsequence).mp (hmatched p now rfl haccepts r hr hsequence)
    · intro hwithin
      constructor
      · intro k hk
        rw [accessed] at hk
        split at hk
        · rename_i haccepts
          rw [List.mem_singleton.mp hk]
          exact (hwithin haccepts).1
        · exact absurd hk List.not_mem_nil
      · rintro _ _ ⟨⟩ haccepts r hr hsequence
        exact (h.matched_iff hr hsequence).mpr ((hwithin haccepts).2 r hr hsequence)

/-- **Times go to the right slot** throughout a run exactly when every reply of the run is within
the table and does not answer a request from `65536` on. -/
theorem rightSlot_iff_within (hcount : reqsCount < 2 ^ 32) (diffTime : ℕ → DiffTime)
    {as : List Access} :
    Run (fun s a t ↦ Step reqsId reqsCount s a t ∧ RightSlot reqsId reqsCount s a) (start diffTime)
        as s
      ↔ Run (fun s a t ↦ Step reqsId reqsCount s a t ∧ Within reqsId reqsCount s a) (start diffTime)
        as s :=
  Run.steps_congr (fun _ _ _ h hstep ↦ h.step hcount hstep)
    (fun _ _ _ h hstep ↦ h.rightSlot_iff hstep) (inv_start diffTime)

/-- The echo reply with an identifier and a sequence number. -/
def echoReply (id sequence : ℕ) : Packet := ipHeader 1 ++ echoMessage 0 id sequence

theorem byteAt_echoReply (id sequence i : ℕ) :
    byteAt (echoReply id sequence) i = ((echoReply id sequence).getD i 0).toNat := by
  rw [byteAt, List.take_of_length_le (Nat.le_of_ble_eq_true rfl)]

theorem echoReply_fields {id sequence : ℕ} (hid : id < 2 ^ 16) (hsequence : sequence < 2 ^ 16) :
    Accepts id (echoReply id sequence) ∧ replySlot (echoReply id sequence) = sequence := by
  have hicmp : icmpAt (echoReply id sequence) = 20 := by
    have hfirst : (echoReply id sequence).getD 0 0 = 0x45 := rfl
    rw [icmpAt, iphlenAt, byteAt_echoReply, hfirst]
    decide
  have hshort : ∀ v : ℕ, v < 2 ^ 16 →
      (UInt8.ofNat (v / 256)).toNat * 256 + (UInt8.ofNat v).toNat = v := by
    intro v hv
    rw [UInt8.toNat_ofNat', UInt8.toNat_ofNat']
    omega
  rw [Accepts, replySlot, hicmp, idAt, sequenceAt, shortAt, shortAt, typeAt]
  simp only [byteAt_echoReply]
  exact ⟨⟨hshort id hid, rfl⟩, hshort sequence hsequence⟩

/-- One request, and its reply. -/
theorem one_rightSlot : ∃ t, Run (fun s a t ↦ Step 7 1 s a t ∧ RightSlot 7 1 s a)
    (start fun _ ↦ ⟨0, 0⟩) [.stamp 3, .sendto, .recvfrom (echoReply 7 0) 5] t := by
  obtain ⟨haccepts, hslot⟩ := @echoReply_fields 7 0 (by decide) (by decide)
  refine ⟨_, (rightSlot_iff_within (by decide) _).mpr
    (Run.cons ⟨step_stamp rfl Nat.one_pos, trivial⟩ (Run.cons ⟨step_sendto rfl, trivial⟩
      (Run.cons ⟨step_recvfrom rfl haccepts, ?_⟩ (Run.nil _))))⟩
  intro _
  rw [hslot]
  refine ⟨Nat.one_pos, ?_⟩
  intro r hr _
  rw [List.mem_singleton.mp hr]
  decide

/-- One request is to be made, and a reply with sequence number `5` is recorded behind the table. -/
theorem five_not_rightSlot :
    Step 7 1 (start fun _ ↦ ⟨0, 0⟩) (.recvfrom (echoReply 7 5) 0)
        ((start fun _ ↦ ⟨0, 0⟩).record 1 (echoReply 7 5) 0)
      ∧ ¬ RightSlot 7 1 (start fun _ ↦ ⟨0, 0⟩) (.recvfrom (echoReply 7 5) 0) := by
  obtain ⟨haccepts, hslot⟩ := @echoReply_fields 7 5 (by decide) (by decide)
  refine ⟨step_recvfrom rfl haccepts, ?_⟩
  intro h
  have hbelow := h.below 5
  rw [accessed, if_pos haccepts, hslot] at hbelow
  exact absurd (hbelow List.mem_cons_self) (by decide)

/-! ## The size of the table -/

theorem exists_requests (hcount : reqsCount < 2 ^ 32) (diffTime : ℕ → DiffTime) {k : ℕ}
    (hk : k ≤ reqsCount) : ∃ as s, Run (Step reqsId reqsCount) (start diffTime) as s
      ∧ Inv reqsCount s ∧ s.i = k ∧ s.stamped = false ∧ s.exited = false := by
  induction k with
  | zero => exact ⟨[], _, Run.nil _, inv_start diffTime, rfl, rfl, rfl⟩
  | succ k ih =>
    obtain ⟨as, s, hrun, hinv, hi, hstamped, hexited⟩ := ih (by omega)
    have hlt : s.i < reqsCount := by omega
    have hstamp : Step reqsId reqsCount s (.stamp 0) (s.stamp 0) := step_stamp hstamped hlt
    refine ⟨_, _, (hrun.snoc hstamp).snoc (step_sendto rfl), (hinv.stamp hlt 0).send hcount hlt,
      ?_, rfl, hexited⟩
    change (s.i + 1) % 2 ^ 32 = k + 1
    omega

theorem replySlot_lt (p : Packet) : replySlot p < 2 ^ 16 := by
  have hlo := ((p.take maxPacketSize).getD (icmpAt p + 6) 0).toNat_lt
  have hhi := ((p.take maxPacketSize).getD (icmpAt p + 6 + 1) 0).toNat_lt
  rw [replySlot, sequenceAt, shortAt, byteAt, byteAt]
  omega

/-- **Only one size is right**: in every run every access is to the right slot exactly when the
table has `65536` slots. -/
theorem always_rightSlot_iff (hid : reqsId < 2 ^ 16) (hcount : reqsCount < 2 ^ 32)
    (diffTime : ℕ → DiffTime) :
    (∀ as s a t, Run (Step reqsId reqsCount) (start diffTime) as s → Step reqsId reqsCount s a t →
      RightSlot reqsId reqsCount s a) ↔ reqsCount = 2 ^ 16 := by
  constructor
  · intro h
    by_contra hne
    obtain hlt | hgt := Nat.lt_or_gt_of_ne hne
    · -- The first number that is too large comes in at once.
      obtain ⟨haccepts, hslot⟩ := echoReply_fields hid hlt
      have hstep : Step reqsId reqsCount (start diffTime)
          (.recvfrom (echoReply reqsId reqsCount) 0) _ := step_recvfrom rfl haccepts
      have hbelow := (h [] _ _ _ (Run.nil _) hstep).below reqsCount
      rw [accessed, if_pos haccepts, hslot] at hbelow
      exact absurd (hbelow List.mem_cons_self) (lt_irrefl _)
    · -- Request 65536 is sent with the sequence number zero.
      obtain ⟨as, s, hrun, hinv, hi, -, hexited⟩ := exists_requests hcount diffTime hgt
      obtain ⟨haccepts, hslot⟩ := echoReply_fields hid (show 0 < 2 ^ 16 by decide)
      have hstep : Step reqsId reqsCount s (.recvfrom (echoReply reqsId 0) 0) _ :=
        step_recvfrom hexited haccepts
      have hnumber : 2 ^ 16 ∈ s.requests.map Request.number := by
        rw [hinv.numbers, List.mem_range]
        omega
      obtain ⟨r, hr, hrnumber⟩ := List.mem_map.mp hnumber
      have hsequence : r.sequence = replySlot (echoReply reqsId 0) := by
        rw [(hinv.slots r hr).2, hrnumber, hslot, Nat.mod_self]
      have hmatched := (h as s _ _ hrun hstep).matched _ _ rfl haccepts r hr hsequence
      have hsmall := (hinv.matched_iff hr hsequence).mp hmatched
      omega
  · rintro rfl as s a t hrun hstep
    have hinv := hrun.invariant (I := Inv (2 ^ 16)) (fun _ _ _ h hs ↦ h.step hcount hs)
      (inv_start diffTime)
    rw [hinv.rightSlot_iff hstep]
    cases a with
    | stamp | sendto => trivial
    | recvfrom p now =>
      intro _
      refine ⟨replySlot_lt p, ?_⟩
      intro r hr _
      exact (hinv.number_lt hr).trans_le hinv.i_le

end

end Table

/-! ## The threads run through the table -/

/-- What the table shows of a process: its counters are those of the request thread, ahead by one
after a packet went out. -/
structure Shows (c : Settings) (s : State) (x : Table) : Prop where
  i_eq : x.i = s.i + if s.request = .next then 1 else 0
  seqNum_eq : x.seqNum = s.seqNum + if s.request = .next then 1 else 0
  seqNum_i : s.seqNum = s.i
  running : s.request = .stamp ∨ s.request = .send ∨ s.request = .next → s.i < c.reqsCount
  stamped_iff : x.stamped = true ↔ s.request = .send
  accepts : ∀ p, s.reply = .handle p → Accepts c.reqsId p
  exited_iff : x.exited = true ↔ s.reply = .exited
  reqsCount_eq : x.reqsCount = s.reqsCount
  diffTime_eq : x.diffTime = s.diffTime
  requests_eq : x.requests.map Request.sequence = s.requests

section

variable {c : Settings} {s t : State} {x : Table} {e : Event}

theorem shows_initial (diffTime : ℕ → DiffTime) :
    Shows c (initial diffTime) (Table.start diffTime) where
  i_eq := rfl
  seqNum_eq := rfl
  seqNum_i := rfl
  running := by rintro (h | h | h) <;> cases h
  stamped_iff := ⟨nofun, nofun⟩
  accepts := nofun
  exited_iff := ⟨nofun, nofun⟩
  reqsCount_eq := rfl
  diffTime_eq := rfl
  requests_eq := rfl

theorem Shows.frame (h : Shows c s x) (hrequest : t.request = s.request) (hi : t.i = s.i)
    (hseq : t.seqNum = s.seqNum) (hreply : t.reply = s.reply) (hcount : t.reqsCount = s.reqsCount)
    (hdiff : t.diffTime = s.diffTime) (hrequests : t.requests = s.requests) : Shows c t x where
  i_eq := by rw [hrequest, hi, h.i_eq]
  seqNum_eq := by rw [hrequest, hseq, h.seqNum_eq]
  seqNum_i := by rw [hseq, hi, h.seqNum_i]
  running := by rw [hrequest, hi]; exact h.running
  stamped_iff := by rw [hrequest]; exact h.stamped_iff
  accepts := by rw [hreply]; exact h.accepts
  exited_iff := by rw [hreply]; exact h.exited_iff
  reqsCount_eq := by rw [hcount, h.reqsCount_eq]
  diffTime_eq := by rw [hdiff, h.diffTime_eq]
  requests_eq := by rw [hrequests, h.requests_eq]

theorem Shows.not_stamped (h : Shows c s x) (hr : s.request ≠ .send) : x.stamped ≠ true :=
  h.stamped_iff.not.mpr hr

theorem countReply_reply (p : Packet) (now : ℕ) : (countReply c s p now).reply
    = if c.reqsCount = (s.reqsCount + 1) % 2 ^ 32 then .exited else .recv := rfl

theorem Shows.pass (h : Shows c s x) (hs : s.request ≠ .send) (hsend : t.request ≠ .send)
    (hnext : t.request ≠ .next) (hi : t.i = s.i + if s.request = .next then 1 else 0)
    (hseq : t.seqNum = s.seqNum + if s.request = .next then 1 else 0)
    (hstamp : t.request = .stamp → t.i < c.reqsCount) (hreply : t.reply = s.reply)
    (hcount : t.reqsCount = s.reqsCount) (hdiff : t.diffTime = s.diffTime)
    (hrequests : t.requests = s.requests) : Shows c t x where
  i_eq := by rw [h.i_eq, hi, if_neg hnext, add_zero]
  seqNum_eq := by rw [h.seqNum_eq, hseq, if_neg hnext, add_zero]
  seqNum_i := by rw [hseq, hi, h.seqNum_i]
  running := by
    rintro (hr | hr | hr)
    · exact hstamp hr
    · exact absurd hr hsend
    · exact absurd hr hnext
  stamped_iff := iff_of_false (h.not_stamped hs) hsend
  accepts := by rw [hreply]; exact h.accepts
  exited_iff := by rw [hreply]; exact h.exited_iff
  reqsCount_eq := by rw [hcount, h.reqsCount_eq]
  diffTime_eq := by rw [hdiff, h.diffTime_eq]
  requests_eq := by rw [hrequests, h.requests_eq]

theorem Shows.reqsHndl (h : Shows c s x) (hstep : reqsHndl c s e = some t) :
    ∃ as y, Run (Table.Step c.reqsId c.reqsCount) x as y ∧ Shows c t y := by
  have hi := h.i_eq
  have hseq := h.seqNum_eq
  cases e with
  | test =>
    obtain ⟨hr, ⟨⟩⟩ := Option.ite_none_right_eq_some.mp hstep
    have hs : s.request ≠ .send := by rw [hr]; decide
    have hkeep (n : ℕ) : n = n + if s.request = .next then 1 else 0 := by
      rw [hr, if_neg nofun, add_zero]
    refine ⟨[], x, Run.nil x, ?_⟩
    by_cases hlt : s.i < c.reqsCount
    · rw [if_pos hlt]
      exact h.pass hs nofun nofun (hkeep _) (hkeep _) (fun _ ↦ hlt) rfl rfl rfl rfl
    · rw [if_neg hlt]
      exact h.pass hs nofun nofun (hkeep _) (hkeep _) nofun rfl rfl rfl rfl
  | stamp now =>
    obtain ⟨hr, ⟨⟩⟩ := Option.ite_none_right_eq_some.mp hstep
    have hlt := h.running (Or.inl hr)
    rw [hr, if_neg nofun, add_zero] at hi hseq
    have hstamped : x.stamped ≠ true := h.not_stamped (by rw [hr]; decide)
    have hstamp : Table.Step c.reqsId c.reqsCount x (.stamp now) (x.stamp now) :=
      Table.step_stamp (Bool.eq_false_of_not_eq_true hstamped) (hi ▸ hlt)
    refine ⟨_, _, Run.single hstamp, ?_⟩
    exact { h with
      i_eq := hi
      seqNum_eq := hseq
      running := fun _ ↦ hlt
      stamped_iff := ⟨fun _ ↦ rfl, fun _ ↦ rfl⟩
      diffTime_eq := by simp only [Table.stamp, h.diffTime_eq, hseq] }
  | sendto =>
    obtain ⟨⟨hr, -⟩, ⟨⟩⟩ := Option.ite_none_right_eq_some.mp hstep
    have hlt := h.running (Or.inr (Or.inl hr))
    have hbound := c.lt
    have hsame := h.seqNum_i
    rw [hr, if_neg nofun, add_zero] at hi hseq
    have hnext : (s.i + 1) % 2 ^ 32 = s.i + 1 := by omega
    refine ⟨_, _, Run.single (Table.step_sendto (h.stamped_iff.mpr hr)), ?_⟩
    -- the table counts the request here, the process only in its next step
    exact { h with
      i_eq := by simp only [Table.send, hi, hnext, if_true]
      seqNum_eq := by simp only [Table.send, hseq, hsame, hnext, if_true]
      running := fun _ ↦ hlt
      stamped_iff := ⟨nofun, nofun⟩
      requests_eq := by
        simp only [Table.send, List.map_append, h.requests_eq, List.map_singleton, hseq] }
  | sendtoFails =>
    obtain ⟨-, ⟨⟩⟩ := Option.ite_none_right_eq_some.mp hstep
    exact ⟨[], x, Run.nil x, h.frame rfl rfl rfl rfl rfl rfl rfl⟩
  | next =>
    obtain ⟨hr, ⟨⟩⟩ := Option.ite_none_right_eq_some.mp hstep
    have hs : s.request ≠ .send := by rw [hr]; decide
    have hadvance (n : ℕ) : n + 1 = n + if s.request = .next then 1 else 0 := by
      rw [if_pos hr]
    exact ⟨[], x, Run.nil x, h.pass hs nofun nofun (hadvance _) (hadvance _) nofun rfl rfl rfl rfl⟩
  | _ => exact absurd hstep (Option.some_ne_none t).symm

theorem Shows.replHndl (h : Shows c s x) (hstep : replHndl c s e = some t) :
    ∃ as y, Run (Table.Step c.reqsId c.reqsCount) x as y ∧ Shows c t y := by
  cases e with
  | recvfrom p =>
    obtain ⟨hr, ⟨⟩⟩ := Option.ite_none_right_eq_some.mp hstep
    have hexited : x.exited ≠ true := by
      rw [Ne, h.exited_iff, hr]
      decide
    refine ⟨[], x, Run.nil x, ?_⟩
    rw [received]
    split
    · exact h
    · rename_i hid
      split
      · rename_i htype
        refine { h with accepts := ?_, exited_iff := ⟨fun hx ↦ absurd hx hexited, ?_⟩ }
        · rintro _ ⟨⟩
          exact ⟨not_not.mp hid, htype⟩
        · rintro ⟨⟩
      · split
        · exact h.frame rfl rfl rfl rfl rfl rfl rfl
        · split
          · exact h.frame rfl rfl rfl rfl rfl rfl rfl
          · exact h
  | recvfromFails =>
    obtain ⟨-, ⟨⟩⟩ := Option.ite_none_right_eq_some.mp hstep
    exact ⟨[], x, Run.nil x, h.frame rfl rfl rfl rfl rfl rfl rfl⟩
  | handle now =>
    rw [Ping.replHndl] at hstep
    split at hstep
    · rename_i p hr
      obtain ⟨⟩ := hstep
      have hexited : x.exited = false := by
        rw [← Bool.not_eq_true, h.exited_iff, hr]
        rintro ⟨⟩
      have hrecord : Table.Step c.reqsId c.reqsCount x (.recvfrom p now)
          (x.record c.reqsCount p now) := Table.step_recvfrom hexited (h.accepts p hr)
      refine ⟨_, _, Run.single hrecord, ?_⟩
      have hcount := h.reqsCount_eq
      have hdiff := h.diffTime_eq
      refine { h with accepts := ?_, exited_iff := ?_, reqsCount_eq := ?_, diffTime_eq := ?_ }
      · intro q hq
        rw [countReply_reply] at hq
        split at hq <;> cases hq
      · rw [countReply_reply, Table.record, hcount, decide_eq_true_eq]
        split
        case isTrue hlast => exact iff_of_true hlast rfl
        case isFalse hmore =>
          refine iff_of_false hmore ?_
          rintro ⟨⟩
      · simp only [Table.record, countReply, hcount]
      · simp only [Table.record, countReply, hdiff, replySlot]
    · cases hstep
  | _ => exact absurd hstep (Option.some_ne_none t).symm

theorem Shows.step (h : Shows c s x) (hstep : Step c s e t) :
    ∃ as y, Run (Table.Step c.reqsId c.reqsCount) x as y ∧ Shows c t y := by
  obtain ⟨-, hmove⟩ := Option.ite_none_left_eq_some.mp hstep
  cases e with
  | test | stamp | sendto | sendtoFails | next => exact h.reqsHndl hmove
  | recvfrom | recvfromFails | handle => exact h.replHndl hmove
  | join | close | exit =>
    obtain ⟨-, ⟨⟩⟩ := Option.ite_none_right_eq_some.mp hmove
    exact ⟨[], x, Run.nil x, h.frame rfl rfl rfl rfl rfl rfl rfl⟩
  | sigint =>
    obtain ⟨⟩ := hmove
    exact ⟨[], x, Run.nil x, h.frame rfl rfl rfl rfl rfl rfl rfl⟩

/-- **A process runs through the table.** -/
theorem simulated {es : List Event} {diffTime : ℕ → DiffTime}
    (hrun : Run (Step c) (initial diffTime) es s) :
    ∃ as y, Run (Table.Step c.reqsId c.reqsCount) (Table.start diffTime) as y ∧ Shows c s y :=
  hrun.simulate (fun _ _ _ _ h hstep ↦ h.step hstep) (shows_initial diffTime)

end

end Ping

end AllProjects.IcmpRawSocket
