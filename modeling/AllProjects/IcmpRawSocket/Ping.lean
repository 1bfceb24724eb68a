import AllProjects.IcmpRawSocket.Message
import AllProjects.Transition.Run

/-!
# Ping

Three threads share the settings of a `ping` run. The request thread stamps a time and sends a
request, once for each of `reqs_count` requests. The reply thread counts the echo replies that carry
the identifier of the process, and ends when it has counted as many as were asked for. The main
thread waits for the reply thread alone; then it frees the time stamps, closes the socket and ends
the process.

A counted reply is taken on trust: neither its sequence number nor its source is compared with what
was sent. As long as the network neither repeats nor invents replies the count is right, and then
the request thread has no more to do when the time stamps are freed.
-/

namespace AllProjects.IcmpRawSocket

namespace Ping

/-! ## State -/

/-- The settings that the threads read. -/
structure Settings where
  reqsId : ℕ
  reqsCount : ℕ
  one_le : 1 ≤ reqsCount
  lt : reqsCount < 2 ^ 32

/-- Where the request thread is in its loop. -/
inductive RequestThread
  | test
  | stamp
  | send
  | next
  | returned
  deriving DecidableEq, Repr

/-- Where the reply thread is in its loop: before `recvfrom`, or with an echo reply in the
buffer. -/
inductive ReplyThread
  | recv
  | handle (p : Packet)
  | exited
  deriving DecidableEq, Repr

/-- Where the main thread is. -/
inductive MainThread
  | join
  | close
  | exit
  deriving DecidableEq, Repr

/-- `diff_time_t` -/
structure DiffTime where
  reqsTime : ℕ
  replTime : ℕ

/-- The process. The last three fields are kept for the specification: the sequence numbers of the
requests sent and of the replies counted, and whether the request thread has written to the time
stamps after they were freed. -/
structure State where
  request : RequestThread := .test
  i : ℕ := 0
  seqNum : ℕ := 0
  reply : ReplyThread := .recv
  reqsCount : ℕ := 0
  main : MainThread := .join
  diffTime : ℕ → DiffTime
  freed : Bool := false
  closed : Bool := false
  ended : Bool := false
  statTransm : ℕ := 0
  statRecive : ℕ := 0
  requests : List ℕ := []
  counted : List ℕ := []
  touchedFreed : Bool := false

/-- What happens next: a thread moves, or a signal arrives. Times are those of `gettimeofday`. -/
inductive Event
  | test
  | stamp (now : ℕ)
  | sendto
  | sendtoFails
  | next
  | recvfrom (p : Packet)
  | recvfromFails
  | handle (now : ℕ)
  | join
  | close
  | exit
  | sigint

/-! ## Steps -/

/-- `icmp_reqs_hndl`, from one statement of the loop to the next. -/
def reqsHndl (c : Settings) (s : State) : Event → Option State
  | .test =>
    if s.request = .test then
      some { s with request := if s.i < c.reqsCount then .stamp else .returned }
    else none
  | .stamp now =>
    if s.request = .stamp then
      some { s with
        request := .send
        diffTime := Function.update s.diffTime s.seqNum
          { s.diffTime s.seqNum with reqsTime := now }
        touchedFreed := s.touchedFreed || s.freed }
    else none
  | .sendto =>
    if s.request = .send ∧ s.closed = false then
      some { s with request := .next, requests := s.requests ++ [s.seqNum % 2 ^ 16] }
    else none
  | .sendtoFails => if s.request = .send then some { s with ended := true } else none
  | .next =>
    if s.request = .next then
      some { s with
        request := .test
        statTransm := (s.statTransm + 1) % 2 ^ 32
        seqNum := s.seqNum + 1
        i := s.i + 1 }
    else none
  | _ => none

/-- What `icmp_repl_hndl` does with a packet up to the `switch`: packets with another identifier and
types that are not told apart are passed over, the two errors end the process. -/
def received (c : Settings) (s : State) (p : Packet) : State :=
  -- the packet of another process, as far as the identifier tells
  if idAt p (icmpAt p) ≠ c.reqsId then s
  else if typeAt p (icmpAt p) = icmpEchoReply then { s with reply := .handle p }
  else if typeAt p (icmpAt p) = icmpDestUnreach then { s with ended := true }
  else if typeAt p (icmpAt p) = icmpTimeExceeded then { s with ended := true }
  else s

/-- The case `ICMP_ECHOREPLY`. -/
def countReply (c : Settings) (s : State) (p : Packet) (now : ℕ) : State :=
  let seqNum := sequenceAt p (icmpAt p)
  let reqsCount := (s.reqsCount + 1) % 2 ^ 32
  { s with
    diffTime := Function.update s.diffTime seqNum { s.diffTime seqNum with replTime := now }
    statRecive := (s.statRecive + 1) % 2 ^ 32
    reqsCount := reqsCount
    counted := s.counted ++ [seqNum]
    reply := if c.reqsCount = reqsCount then .exited else .recv }

/-- `icmp_repl_hndl` -/
def replHndl (c : Settings) (s : State) : Event → Option State
  | .recvfrom p => if s.reply = .recv then some (received c s p) else none
  | .recvfromFails => if s.reply = .recv then some { s with ended := true } else none
  | .handle now =>
    match s.reply with
    | .handle p => some (countReply c s p now)
    | _ => none
  | _ => none

/-- The end of `main`, from `pthread_join` on. -/
def mainThread (s : State) : Event → Option State
  | .join =>
    if s.main = .join ∧ s.reply = .exited then some { s with main := .close, freed := true }
    else none
  | .close => if s.main = .close then some { s with main := .exit, closed := true } else none
  | .exit => if s.main = .exit then some { s with ended := true } else none
  | _ => none

/-- One step of the process, which takes none after it has ended. -/
def exec (c : Settings) (s : State) (e : Event) : Option State :=
  if s.ended = true then none
  else match e with
    | .test | .stamp _ | .sendto | .sendtoFails | .next => reqsHndl c s e
    | .recvfrom _ | .recvfromFails | .handle _ => replHndl c s e
    | .join | .close | .exit => mainThread s e
    | .sigint => some { s with ended := true }

def Step (c : Settings) (s : State) (e : Event) (t : State) : Prop := exec c s e = some t

/-- Before the threads are started. What `malloc` returns is not initialised. -/
def initial (diffTime : ℕ → DiffTime) : State := { diffTime := diffTime }

/-! ## What a thread leaves alone -/

/-- What belongs to the request thread is as it was. -/
structure SameRequest (s t : State) : Prop where
  request : t.request = s.request
  i : t.i = s.i
  seqNum : t.seqNum = s.seqNum
  requests : t.requests = s.requests
  statTransm : t.statTransm = s.statTransm

theorem received_sameRequest (c : Settings) (s : State) (p : Packet) :
    SameRequest s (received c s p) := by
  rw [received]
  repeat' split
  all_goals exact ⟨rfl, rfl, rfl, rfl, rfl⟩

theorem replHndl_sameRequest {c : Settings} {s t : State} {e : Event}
    (h : replHndl c s e = some t) : SameRequest s t := by
  cases e with
  | recvfrom p =>
    obtain ⟨-, ⟨⟩⟩ := Option.ite_none_right_eq_some.mp h
    exact received_sameRequest c s p
  | recvfromFails =>
    obtain ⟨-, ⟨⟩⟩ := Option.ite_none_right_eq_some.mp h
    exact ⟨rfl, rfl, rfl, rfl, rfl⟩
  | handle now =>
    rw [replHndl] at h
    split at h
    · obtain ⟨⟩ := h
      exact ⟨rfl, rfl, rfl, rfl, rfl⟩
    · cases h
  | _ => exact absurd h (Option.some_ne_none t).symm

theorem mainThread_sameRequest {s t : State} {e : Event} (h : mainThread s e = some t) :
    SameRequest s t := by
  cases e with
  | join | close | exit =>
    obtain ⟨-, ⟨⟩⟩ := Option.ite_none_right_eq_some.mp h
    exact ⟨rfl, rfl, rfl, rfl, rfl⟩
  | _ => exact absurd h (Option.some_ne_none t).symm

/-- What belongs to the reply thread is as it was. -/
structure SameReply (s t : State) : Prop where
  reply : t.reply = s.reply
  reqsCount : t.reqsCount = s.reqsCount
  counted : t.counted = s.counted
  statRecive : t.statRecive = s.statRecive

theorem reqsHndl_sameReply {c : Settings} {s t : State} {e : Event}
    (h : reqsHndl c s e = some t) : SameReply s t := by
  cases e with
  | test | stamp now | sendto | sendtoFails | next =>
    obtain ⟨-, ⟨⟩⟩ := Option.ite_none_right_eq_some.mp h
    exact ⟨rfl, rfl, rfl, rfl⟩
  | _ => exact absurd h (Option.some_ne_none t).symm

theorem mainThread_sameReply {s t : State} {e : Event} (h : mainThread s e = some t) :
    SameReply s t := by
  cases e with
  | join | close | exit =>
    obtain ⟨-, ⟨⟩⟩ := Option.ite_none_right_eq_some.mp h
    exact ⟨rfl, rfl, rfl, rfl⟩
  | _ => exact absurd h (Option.some_ne_none t).symm

/-! ## What ping is for -/

/-- A ping that finishes only when every request is answered. -/
structure Finishes (c : Settings) (s : State) : Prop where
  /-- No more replies are counted than requests were sent. -/
  counted_le : s.counted.length ≤ s.requests.length
  /-- No sequence number is counted twice. -/
  nodup : s.counted.Nodup
  /-- When the reply thread has ended, every request was sent and answered. -/
  exited : s.reply = .exited → s.requests.length = c.reqsCount ∧
    ∀ q, q < c.reqsCount → q % 2 ^ 16 ∈ s.counted
  /-- The request thread has not written to memory that was freed. -/
  untouched : s.touchedFreed = false

/-- The network neither invents nor repeats: a packet that looks like a reply carries the sequence
number of a request that was sent, and is the first to do so. -/
def Genuine (c : Settings) (s : State) : Event → Prop
  | .recvfrom p => idAt p (icmpAt p) = c.reqsId → typeAt p (icmpAt p) = icmpEchoReply →
      sequenceAt p (icmpAt p) ∈ s.requests ∧ sequenceAt p (icmpAt p) ∉ s.counted
  | _ => True

instance (c : Settings) (s : State) : (e : Event) → Decidable (Genuine c s e)
  | .recvfrom _ => inferInstanceAs (Decidable (_ → _ → _ ∧ _))
  | .test | .stamp _ | .sendto | .sendtoFails | .next | .recvfromFails | .handle _ | .join | .close
  | .exit | .sigint => .isTrue trivial

/-! ## The invariant -/

/-- The requests sent, in the loop of the request thread. -/
def SentOf (c : Settings) (s : State) : RequestThread → Prop
  | .test => s.requests.length = s.i ∧ s.i ≤ c.reqsCount
  | .stamp | .send => s.requests.length = s.i ∧ s.i < c.reqsCount
  | .next => s.requests.length = s.i + 1 ∧ s.i < c.reqsCount
  | .returned => s.requests.length = c.reqsCount

/-- Sequence numbers count the requests, in 16 bits. -/
structure Requesting (c : Settings) (s : State) : Prop where
  seqNum_eq : s.seqNum = s.i
  requests_eq : s.requests = (List.range s.requests.length).map (· % 2 ^ 16)
  sent : SentOf c s s.request

/-- What is counted are replies to requests, each once, and the counter counts them. -/
structure Counting (c : Settings) (s : State) : Prop where
  nodup : s.counted.Nodup
  subset : s.counted ⊆ s.requests
  pending : ∀ p, s.reply = .handle p →
    sequenceAt p (icmpAt p) ∈ s.requests ∧ sequenceAt p (icmpAt p) ∉ s.counted
  counter : s.reply ≠ .exited → s.reqsCount = s.counted.length ∧ s.counted.length < c.reqsCount
  exited : s.reply = .exited → s.counted.length = c.reqsCount

/-- Nothing is freed before the reply thread has ended. -/
structure Freeing (s : State) : Prop where
  joined : s.freed = true → s.reply = .exited
  untouched : s.touchedFreed = false

structure Inv (c : Settings) (s : State) : Prop where
  requesting : Requesting c s
  counting : Counting c s
  freeing : Freeing s

variable {c : Settings} {s t : State} {e : Event}

theorem Requesting.length_le (h : Requesting c s) : s.requests.length ≤ c.reqsCount := by
  have hsent := h.sent
  cases hr : s.request <;> rw [hr, SentOf] at hsent <;> omega

theorem Counting.length_le (h : Counting c s) : s.counted.length ≤ s.requests.length :=
  (List.subperm_of_subset h.nodup h.subset).length_le

/-- When as many are counted as were asked for, every request was sent and answered. -/
theorem Inv.exited (h : Inv c s) (hexit : s.reply = .exited) :
    s.requests.length = c.reqsCount ∧ ∀ q, q < c.reqsCount → q % 2 ^ 16 ∈ s.counted := by
  have hlength := h.counting.length_le
  have hcount := h.counting.exited hexit
  have hrequests : s.requests.length = c.reqsCount := by
    have hle := h.requesting.length_le
    omega
  have hsub := List.subperm_of_subset h.counting.nodup h.counting.subset
  have hperm := hsub.perm_of_length_le (by omega)
  refine ⟨hrequests, ?_⟩
  intro q hq
  rw [hperm.mem_iff, h.requesting.requests_eq, List.mem_map]
  exact ⟨q, List.mem_range.mpr (by omega), rfl⟩

theorem Inv.finishes (h : Inv c s) : Finishes c s where
  counted_le := h.counting.length_le
  nodup := h.counting.nodup
  exited := h.exited
  untouched := h.freeing.untouched

theorem inv_initial (diffTime : ℕ → DiffTime) : Inv c (initial diffTime) where
  requesting := ⟨rfl, rfl, rfl, Nat.zero_le _⟩
  counting := ⟨List.nodup_nil, List.nil_subset _, nofun, fun _ ↦ ⟨rfl, c.one_le⟩, nofun⟩
  freeing := ⟨nofun, rfl⟩

/-! ## Steps keep the invariant

Each part depends on a few fields, and is kept by steps that leave them alone. -/

theorem Requesting.frame (h : Requesting c s) (hrequest : t.request = s.request) (hi : t.i = s.i)
    (hseq : t.seqNum = s.seqNum) (hrequests : t.requests = s.requests) : Requesting c t where
  seqNum_eq := by rw [hseq, hi, h.seqNum_eq]
  requests_eq := by rw [hrequests]; exact h.requests_eq
  sent := by
    have hsent := h.sent
    rw [hrequest]
    cases hr : s.request <;> rw [hr] at hsent <;> simpa only [SentOf, hrequests, hi] using hsent

theorem Counting.frame (h : Counting c s) (hreply : t.reply = s.reply)
    (hcount : t.reqsCount = s.reqsCount) (hcounted : t.counted = s.counted)
    (hrequests : s.requests ⊆ t.requests) : Counting c t where
  nodup := by rw [hcounted]; exact h.nodup
  subset := by rw [hcounted]; exact List.Subset.trans h.subset hrequests
  pending := by
    intro p hp
    rw [hcounted]
    exact (h.pending p (hreply ▸ hp)).imp_left fun hmem ↦ hrequests hmem
  counter := by rw [hreply, hcount, hcounted]; exact h.counter
  exited := by rw [hreply, hcounted]; exact h.exited

theorem Freeing.frame (h : Freeing s) (hfreed : t.freed = s.freed) (hreply : t.reply = s.reply)
    (htouched : t.touchedFreed = s.touchedFreed) : Freeing t where
  joined := by rw [hfreed, hreply]; exact h.joined
  untouched := by rw [htouched, h.untouched]

theorem Freeing.not_freed (h : Freeing s) (hreply : s.reply ≠ .exited) : s.freed = false := by
  cases hfreed : s.freed with
  | false => rfl
  | true => exact absurd (h.joined hfreed) hreply

/-- The request thread that has a request to send finds the time stamps in place. -/
theorem Inv.not_freed (h : Inv c s) (hstamp : s.request = .stamp) : s.freed = false := by
  apply h.freeing.not_freed
  intro hexit
  have hsent := h.requesting.sent
  have hall := (h.exited hexit).1
  rw [hstamp, SentOf] at hsent
  omega

theorem Inv.reqsHndl (h : Inv c s) (hstep : reqsHndl c s e = some t) : Inv c t := by
  obtain ⟨⟨hseq, hrequests, hsent⟩, hcounting, hfreeing⟩ := h
  cases e with
  | test =>
    obtain ⟨hr, ⟨⟩⟩ := Option.ite_none_right_eq_some.mp hstep
    rw [hr, SentOf] at hsent
    refine ⟨⟨hseq, hrequests, ?_⟩, hcounting.frame rfl rfl rfl (List.Subset.refl _),
      hfreeing.frame rfl rfl rfl⟩
    dsimp only
    split
    · exact ⟨hsent.1, ‹_›⟩
    · rw [SentOf, hsent.1]
      omega
  | stamp now =>
    obtain ⟨hr, ⟨⟩⟩ := Option.ite_none_right_eq_some.mp hstep
    have hfreed := Inv.not_freed ⟨⟨hseq, hrequests, hsent⟩, hcounting, hfreeing⟩ hr
    rw [hr] at hsent
    refine ⟨⟨hseq, hrequests, hsent⟩, hcounting.frame rfl rfl rfl (List.Subset.refl _),
      hfreeing.joined, ?_⟩
    simp only [hfreeing.untouched, hfreed, Bool.or_self]
  | sendto =>
    obtain ⟨⟨hr, -⟩, ⟨⟩⟩ := Option.ite_none_right_eq_some.mp hstep
    rw [hr, SentOf] at hsent
    refine ⟨⟨hseq, ?_, ?_⟩, hcounting.frame rfl rfl rfl (List.subset_append_left _ _),
      hfreeing.frame rfl rfl rfl⟩
    · rw [hsent.1] at hrequests
      simp only [List.length_append, List.length_singleton, List.range_succ, List.map_append,
        List.map_singleton, hsent.1, hseq, ← hrequests]
    · simp only [SentOf, List.length_append, List.length_singleton]
      omega
  | sendtoFails =>
    obtain ⟨-, ⟨⟩⟩ := Option.ite_none_right_eq_some.mp hstep
    exact ⟨⟨hseq, hrequests, hsent⟩, hcounting.frame rfl rfl rfl (List.Subset.refl _),
      hfreeing.frame rfl rfl rfl⟩
  | next =>
    obtain ⟨hr, ⟨⟩⟩ := Option.ite_none_right_eq_some.mp hstep
    rw [hr, SentOf] at hsent
    refine ⟨⟨by rw [hseq], hrequests, ?_⟩, hcounting.frame rfl rfl rfl (List.Subset.refl _),
      hfreeing.frame rfl rfl rfl⟩
    exact ⟨hsent.1, hsent.2⟩
  | _ => exact absurd hstep nofun

theorem Inv.received (h : Inv c s) {p : Packet} (hrecv : s.reply = .recv)
    (hgen : Genuine c s (.recvfrom p)) : Inv c (received c s p) := by
  obtain ⟨⟨hseq, hrequests, hsent⟩, hcounting, hfreeing⟩ := h
  have hended : Inv c { s with ended := true } :=
    ⟨⟨hseq, hrequests, hsent⟩, hcounting.frame rfl rfl rfl (List.Subset.refl _),
      hfreeing.frame rfl rfl rfl⟩
  have hexited : s.reply ≠ .exited := by
    rw [hrecv]
    nofun
  rw [Ping.received]
  split
  case isTrue => exact ⟨⟨hseq, hrequests, hsent⟩, hcounting, hfreeing⟩
  case isFalse hid =>
    split
    case isTrue htype =>
      refine ⟨⟨hseq, hrequests, hsent⟩, ⟨hcounting.nodup, hcounting.subset, ?_, ?_, nofun⟩, ?_,
        hfreeing.untouched⟩
      · rintro _ ⟨⟩
        exact hgen (not_not.mp hid) htype
      · exact fun _ ↦ hcounting.counter hexited
      · intro hfreed
        rw [hfreeing.not_freed hexited] at hfreed
        cases hfreed
    case isFalse =>
      split
      · exact hended
      · split
        · exact hended
        · exact ⟨⟨hseq, hrequests, hsent⟩, hcounting, hfreeing⟩

theorem Inv.countReply (h : Inv c s) {p : Packet} (hreply : s.reply = .handle p) (now : ℕ) :
    Inv c (countReply c s p now) := by
  obtain ⟨⟨hseq, hrequests, hsent⟩, hcounting, hfreeing⟩ := h
  have hexited : s.reply ≠ .exited := by
    rw [hreply]
    nofun
  obtain ⟨hcounter, hlt⟩ := hcounting.counter hexited
  obtain ⟨hmem, hnew⟩ := hcounting.pending p hreply
  have hbound := c.lt
  have hnext : (s.reqsCount + 1) % 2 ^ 32 = s.counted.length + 1 := by omega
  have hnotFreed := hfreeing.not_freed hexited
  rw [Ping.countReply]
  dsimp only
  rw [hnext]
  refine ⟨⟨hseq, hrequests, hsent⟩, ⟨?_, ?_, ?_, ?_, ?_⟩, ?_, hfreeing.untouched⟩
  · have hnodup := hcounting.nodup.concat hnew
    rwa [List.concat_eq_append] at hnodup
  · intro q hq
    rw [List.mem_append, List.mem_singleton] at hq
    obtain hq | rfl := hq
    · exact hcounting.subset hq
    · exact hmem
  · intro q hq
    dsimp only at hq
    split at hq <;> cases hq
  · intro hrunning
    have hmore : c.reqsCount ≠ s.counted.length + 1 := by
      intro heq
      exact hrunning (if_pos heq)
    simp only [List.length_append, List.length_singleton, true_and]
    omega
  · intro hdone
    dsimp only at hdone
    split at hdone
    · simp only [List.length_append, List.length_singleton]
      omega
    · cases hdone
  · intro hfreed
    exact absurd (hnotFreed.symm.trans hfreed) nofun

theorem Inv.replHndl (h : Inv c s) (hgen : Genuine c s e) (hstep : replHndl c s e = some t) :
    Inv c t := by
  cases e with
  | recvfrom p =>
    obtain ⟨hrecv, ⟨⟩⟩ := Option.ite_none_right_eq_some.mp hstep
    exact h.received hrecv hgen
  | recvfromFails =>
    obtain ⟨-, ⟨⟩⟩ := Option.ite_none_right_eq_some.mp hstep
    exact ⟨h.requesting.frame rfl rfl rfl rfl, h.counting.frame rfl rfl rfl (List.Subset.refl _),
      h.freeing.frame rfl rfl rfl⟩
  | handle now =>
    rw [Ping.replHndl] at hstep
    split at hstep
    case h_1 p hreply =>
      cases hstep
      exact h.countReply hreply now
    case h_2 => cases hstep
  | _ => exact absurd hstep nofun

theorem Inv.mainThread (h : Inv c s) (hstep : mainThread s e = some t) : Inv c t := by
  cases e with
  | join =>
    obtain ⟨⟨-, hexited⟩, ⟨⟩⟩ := Option.ite_none_right_eq_some.mp hstep
    exact ⟨h.requesting.frame rfl rfl rfl rfl, h.counting.frame rfl rfl rfl (List.Subset.refl _),
      fun _ ↦ hexited, h.freeing.untouched⟩
  | close | exit =>
    obtain ⟨-, ⟨⟩⟩ := Option.ite_none_right_eq_some.mp hstep
    exact ⟨h.requesting.frame rfl rfl rfl rfl, h.counting.frame rfl rfl rfl (List.Subset.refl _),
      h.freeing.frame rfl rfl rfl⟩
  | _ => exact absurd hstep nofun

theorem Inv.step (h : Inv c s) (hgen : Genuine c s e) (hstep : Step c s e t) : Inv c t := by
  obtain ⟨-, hmove⟩ := Option.ite_none_left_eq_some.mp hstep
  cases e with
  | test | stamp now | sendto | sendtoFails | next => exact h.reqsHndl hmove
  | recvfrom p | recvfromFails | handle now => exact h.replHndl hgen hmove
  | join | close | exit => exact h.mainThread hmove
  | sigint =>
    cases hmove
    exact ⟨h.requesting.frame rfl rfl rfl rfl, h.counting.frame rfl rfl rfl (List.Subset.refl _),
      h.freeing.frame rfl rfl rfl⟩

/-! ## Runs -/

/-- **Ping finishes when every request is answered**, in every run in which the network neither
invents nor repeats replies. -/
theorem finishes_of_genuine {diffTime : ℕ → DiffTime} {es : List Event}
    (hrun : Run (fun s e t ↦ Step c s e t ∧ Genuine c s e) (initial diffTime) es s) :
    Finishes c s := by
  apply Inv.finishes
  apply hrun.invariant (I := Inv c)
  · rintro s e t h ⟨hstep, hgen⟩
    exact h.step hgen hstep
  · exact inv_initial diffTime

theorem genuine_of_exec {es : List Event}
    (hrun : Run (fun s e t ↦ (if Genuine c s e then exec c s e else none) = some t) s es t) :
    Run (fun s e t ↦ Step c s e t ∧ Genuine c s e) s es t := by
  apply hrun.imp
  intro s e t h
  exact (Option.ite_none_right_eq_some.mp h).symm

/-- The settings of `ping -c count` in the process 7. -/
def settingsOf (count : ℕ) (one_le : 1 ≤ count) (lt : count < 2 ^ 32) : Settings :=
  ⟨7, count, one_le, lt⟩

/-- A reply to the process 7. -/
def replyTo (sequence : ℕ) : Packet := ipHeader 1 ++ echoMessage 0 7 sequence

/-- One request, one reply, and a foreign packet before it. -/
def pingOnce : List Event :=
  [.test, .stamp 10, .sendto, .recvfrom (ipHeader 1 ++ echoMessage 0 8 0), .recvfrom (replyTo 0),
    .next, .handle 12, .join, .close, .exit]

theorem finishes_of_genuine_once : ∃ s : State,
    Run (fun s e t ↦ Step (settingsOf 1 le_rfl (by decide)) s e t
        ∧ Genuine (settingsOf 1 le_rfl (by decide)) s e) (initial fun _ ↦ ⟨0, 0⟩) pingOnce s
      ∧ s.counted = [0] ∧ s.ended = true ∧ Finishes (settingsOf 1 le_rfl (by decide)) s := by
  let c := settingsOf 1 le_rfl (by decide)
  have hfinal : (pingOnce.foldlM (fun s e ↦ if Genuine c s e then exec c s e else none)
      (initial fun _ ↦ ⟨0, 0⟩)).map (fun s ↦ (s.counted, s.ended)) = some ([0], true) := by decide
  obtain ⟨s, hrun, hs⟩ := exists_run_of_map hfinal
  obtain ⟨hcounted, hended⟩ := Prod.mk.inj hs
  have hgenuine := genuine_of_exec hrun
  exact ⟨s, hgenuine, hcounted, hended, finishes_of_genuine hgenuine⟩

/-- Two requests are asked for. The reply to the first is delivered twice. -/
def duplicated : List Event :=
  [.test, .stamp 10, .sendto, .next, .recvfrom (replyTo 0), .handle 12, .test,
    .recvfrom (replyTo 0), .handle 13, .join, .stamp 20]

/-- The reply thread takes the copy for the second reply and ends, the main thread frees the time
stamps, and the request thread writes to them. -/
theorem duplicated_not_finishes : ∃ s : State,
    Run (Step (settingsOf 2 (by decide) (by decide))) (initial fun _ ↦ ⟨0, 0⟩) duplicated s
      ∧ s.requests = [0] ∧ s.counted = [0, 0] ∧ s.touchedFreed = true
      ∧ ¬ Finishes (settingsOf 2 (by decide) (by decide)) s := by
  have hsome : (duplicated.foldlM (exec (settingsOf 2 (by decide) (by decide)))
      (initial fun _ ↦ ⟨0, 0⟩)).isSome = true := by decide
  obtain ⟨s, hs, hrun⟩ := exists_run_of_isSome (exec (settingsOf 2 (by decide) (by decide))) hsome
  cases hs
  refine ⟨_, hrun, by decide, by decide, by decide, ?_⟩
  intro h
  exact absurd h.nodup (by decide)

end Ping

end AllProjects.IcmpRawSocket
