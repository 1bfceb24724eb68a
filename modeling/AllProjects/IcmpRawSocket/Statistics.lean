import AllProjects.IcmpRawSocket.Ping

/-!
# The statistics of a ping

On SIGINT `ping` prints how many requests it has sent, how many replies it has received, and the
loss in percent. The loss is computed in unsigned integers, and the counters are divided before the
quotient is multiplied by 100. So it comes out as 100 as long as fewer replies than requests are
counted, and as 0 from then on; and before the first request is counted there is no quotient at all.

The loss that is printed is the right one, rounded to whole numbers, when next to nothing is lost or
next to nothing is received. For counters below 200 that means nothing at all.
-/

namespace AllProjects.IcmpRawSocket.Ping

/-! ## The signal handler -/

/-- What is printed. The counters are cast to `int`. -/
structure Statistics where
  transm : ℤ
  recive : ℤ
  loss : ℤ
  deriving DecidableEq, Repr

/-- `sig_hndl` on the values of `stat_pckt_transm` and `stat_pckt_recive`, or `none` when it divides
by zero. -/
def sigHndl (transm recive : ℕ) : Option Statistics :=
  if transm = 0 then none
  else some
    { transm := (transm : ℤ).bmod (2 ^ 32)
      recive := (recive : ℤ).bmod (2 ^ 32)
      -- both operands are `uint32_t`, so the division rounds down and the difference wraps around
      loss := (100 - ((recive / transm : ℕ) : ℤ) * 100) % 2 ^ 32 }

/-! ## What the statistics are for -/

/-- The share of the packets that were transmitted and not received, in percent. -/
def lossOf (transm recive : ℕ) : ℚ := 100 * ((transm : ℚ) - recive) / transm

/-- Something is printed, and the loss is a percentage: the one of the counters, to the nearest
whole number. -/
def LossRight (transm recive : ℕ) : Prop :=
  ∃ stat, sigHndl transm recive = some stat ∧ 0 ≤ stat.loss ∧ stat.loss ≤ 100
    ∧ |(stat.loss : ℚ) - lossOf transm recive| ≤ 1 / 2

/-- There is a packet, and up to half a percent of them none or all are received. -/
def Settled (transm recive : ℕ) : Prop :=
  transm ≠ 0 ∧
    (200 * recive ≤ transm ∨ (transm ≤ recive ∧ 200 * (recive - transm) ≤ transm))

instance (transm recive : ℕ) : Decidable (Settled transm recive) :=
  inferInstanceAs (Decidable (_ ∧ _))

variable {transm recive : ℕ}

theorem lossRight_iff (hpos : transm ≠ 0) {loss : ℤ}
    (hloss : (100 - ((recive / transm : ℕ) : ℤ) * 100) % 2 ^ 32 = loss) :
    LossRight transm recive
      ↔ 0 ≤ loss ∧ loss ≤ 100 ∧ |(loss : ℚ) - lossOf transm recive| ≤ 1 / 2 := by
  subst hloss
  constructor
  · rintro ⟨stat, hstat, hright⟩
    rw [sigHndl, if_neg hpos, Option.some_inj] at hstat
    rwa [← hstat] at hright
  · intro hright
    exact ⟨_, if_neg hpos, hright⟩

theorem abs_percent_le_iff (hpos : transm ≠ 0) (k : ℕ) :
    |100 * (k : ℚ) / transm| ≤ 1 / 2 ↔ 200 * k ≤ transm := by
  have htransm : (0 : ℚ) < transm := by exact_mod_cast Nat.pos_of_ne_zero hpos
  have hnonneg : (0 : ℚ) ≤ 100 * k / transm := by positivity
  rw [abs_of_nonneg hnonneg, div_le_iff₀ htransm, ← Nat.cast_le (α := ℚ)]
  push_cast
  constructor <;> intro h <;> linarith

theorem abs_all_lost (hpos : transm ≠ 0) :
    |100 - lossOf transm recive| ≤ 1 / 2 ↔ 200 * recive ≤ transm := by
  have hcast : (transm : ℚ) ≠ 0 := by exact_mod_cast hpos
  have hgap : 100 - lossOf transm recive = 100 * recive / transm := by
    rw [lossOf]
    field_simp
    ring
  rw [hgap, abs_percent_le_iff hpos]

theorem abs_none_lost (hle : transm ≤ recive) (hpos : transm ≠ 0) :
    |0 - lossOf transm recive| ≤ 1 / 2 ↔ 200 * (recive - transm) ≤ transm := by
  have hgap : 0 - lossOf transm recive = 100 * ((recive - transm : ℕ) : ℚ) / transm := by
    rw [lossOf, Nat.cast_sub hle]
    ring
  rw [hgap, abs_percent_le_iff hpos]

/-- With twice as many replies as requests no percentage is the loss. -/
theorem lossOf_le (hpos : transm ≠ 0) (hle : 2 * transm ≤ recive) :
    lossOf transm recive ≤ -100 := by
  have htransm : (0 : ℚ) < transm := by exact_mod_cast Nat.pos_of_ne_zero hpos
  have hcast : (2 : ℚ) * transm ≤ recive := by exact_mod_cast hle
  rw [lossOf, div_le_iff₀ htransm]
  linarith

/-- **The loss is right exactly when next to nothing is lost or received.** -/
theorem lossRight_iff_settled (transm recive : ℕ) :
    LossRight transm recive ↔ Settled transm recive := by
  by_cases hpos : transm = 0
  · refine iff_of_false ?_ fun h ↦ h.1 hpos
    rintro ⟨stat, hstat, -⟩
    rw [sigHndl, if_pos hpos] at hstat
    cases hstat
  rw [Settled, and_iff_right hpos]
  obtain hlt | hle := lt_or_ge recive transm
  -- fewer replies than requests: 100
  · have hquot : recive / transm = 0 := Nat.div_eq_of_lt hlt
    have hloss : (100 - ((recive / transm : ℕ) : ℤ) * 100) % 2 ^ 32 = 100 := by rw [hquot]; rfl
    rw [lossRight_iff hpos hloss, Int.cast_ofNat, abs_all_lost hpos]
    omega
  obtain hlt2 | hle2 := lt_or_ge recive (2 * transm)
  -- up to twice as many: 0
  · have hquot : recive / transm = 1 :=
      Nat.div_eq_of_lt_le (by rwa [Nat.one_mul]) (by omega)
    have hloss : (100 - ((recive / transm : ℕ) : ℤ) * 100) % 2 ^ 32 = 0 := by rw [hquot]; rfl
    rw [lossRight_iff hpos hloss, Int.cast_zero, abs_none_lost hle hpos]
    omega
  -- more than that: whatever is printed, the loss is -100 or less
  · refine iff_of_false ?_ (by omega)
    rintro ⟨stat, -, hnonneg, -, habs⟩
    have hneg := lossOf_le hpos hle2
    have hcast : (0 : ℚ) ≤ stat.loss := by exact_mod_cast hnonneg
    have hupper := (abs_le.mp habs).2
    linarith

/-! ## What the counters count -/

variable {c : Settings} {s t : State} {e : Event}

/-- The requests that are counted: all that were sent, except for one that the request thread has
sent and is about to count. -/
def transmitted (s : State) : ℕ := s.requests.length - if s.request = .next then 1 else 0

/-- Where the request thread is, and how much it has counted. -/
def TransmOf (c : Settings) (s : State) : RequestThread → Prop
  | .test | .returned => s.requests.length = s.statTransm ∧ s.statTransm ≤ c.reqsCount
  | .stamp | .send => s.requests.length = s.statTransm ∧ s.statTransm < c.reqsCount
  | .next => s.requests.length = s.statTransm + 1 ∧ s.statTransm < c.reqsCount

/-- Neither counter wraps around. -/
structure Counters (c : Settings) (s : State) : Prop where
  i_eq : s.i = s.statTransm
  transm : TransmOf c s s.request
  recive : s.statRecive = s.counted.length
  reqsCount : s.reply ≠ .exited → s.reqsCount = s.statRecive ∧ s.statRecive < c.reqsCount

theorem counters_initial (diffTime : ℕ → DiffTime) : Counters c (initial diffTime) where
  i_eq := rfl
  transm := ⟨rfl, Nat.zero_le _⟩
  recive := rfl
  reqsCount := fun _ ↦ ⟨rfl, c.one_le⟩

theorem Counters.transmitted_eq (h : Counters c s) : transmitted s = s.statTransm := by
  have htransm := h.transm
  rw [transmitted]
  cases hr : s.request <;> rw [hr, TransmOf] at htransm
  case next =>
    rw [if_pos rfl]
    omega
  all_goals
    rw [if_neg (by decide)]
    omega

theorem TransmOf.frame {r : RequestThread} (h : TransmOf c s r)
    (hrequests : t.requests = s.requests) (htransm : t.statTransm = s.statTransm) :
    TransmOf c t r := by
  cases r <;> simpa only [TransmOf, hrequests, htransm] using h

theorem Counters.of_sameRequest (h : Counters c s) (hsame : SameRequest s t)
    (hrecive : t.statRecive = t.counted.length)
    (hcount : t.reply ≠ .exited → t.reqsCount = t.statRecive ∧ t.statRecive < c.reqsCount) :
    Counters c t where
  i_eq := by rw [hsame.i, hsame.statTransm, h.i_eq]
  transm := by
    rw [hsame.request]
    exact h.transm.frame hsame.requests hsame.statTransm
  recive := hrecive
  reqsCount := hcount

theorem Counters.of_sameReply (h : Counters c s) (hsame : SameReply s t)
    (hi : t.i = t.statTransm) (htransm : TransmOf c t t.request) : Counters c t where
  i_eq := hi
  transm := htransm
  recive := by rw [hsame.statRecive, hsame.counted, h.recive]
  reqsCount := by
    rw [hsame.reply, hsame.reqsCount, hsame.statRecive]
    exact h.reqsCount

theorem Counters.of_same (h : Counters c s) (hrequest : SameRequest s t) (hreply : SameReply s t) :
    Counters c t := by
  apply h.of_sameRequest hrequest
  · rw [hreply.statRecive, hreply.counted, h.recive]
  · rw [hreply.reply, hreply.reqsCount, hreply.statRecive]
    exact h.reqsCount

theorem Counters.reqsHndl (h : Counters c s) (hstep : reqsHndl c s e = some t) : Counters c t := by
  have hsame := reqsHndl_sameReply hstep
  have hi := h.i_eq
  have htransm := h.transm
  have hbound := c.lt
  cases e with
  | test =>
    obtain ⟨hr, ⟨⟩⟩ := Option.ite_none_right_eq_some.mp hstep
    rw [hr, TransmOf] at htransm
    refine h.of_sameReply hsame hi ?_
    dsimp only
    split
    · rename_i hlt
      exact ⟨htransm.1, by rwa [← hi]⟩
    · exact htransm
  | stamp now =>
    obtain ⟨hr, ⟨⟩⟩ := Option.ite_none_right_eq_some.mp hstep
    rw [hr, TransmOf] at htransm
    exact h.of_sameReply hsame hi htransm
  | sendto =>
    obtain ⟨⟨hr, -⟩, ⟨⟩⟩ := Option.ite_none_right_eq_some.mp hstep
    rw [hr, TransmOf] at htransm
    refine h.of_sameReply hsame hi ?_
    rw [TransmOf, List.length_append, List.length_singleton, htransm.1]
    exact ⟨rfl, htransm.2⟩
  | sendtoFails =>
    obtain ⟨-, ⟨⟩⟩ := Option.ite_none_right_eq_some.mp hstep
    exact h.of_sameReply hsame hi (htransm.frame rfl rfl)
  | next =>
    obtain ⟨hr, ⟨⟩⟩ := Option.ite_none_right_eq_some.mp hstep
    rw [hr, TransmOf] at htransm
    have hnext : (s.statTransm + 1) % 2 ^ 32 = s.statTransm + 1 := Nat.mod_eq_of_lt (by omega)
    refine h.of_sameReply hsame ?_ ?_
    · dsimp only
      rw [hnext, hi]
    · rw [TransmOf, hnext]
      exact ⟨htransm.1, htransm.2⟩
  | _ => exact absurd hstep (Option.some_ne_none t).symm

theorem Counters.received (h : Counters c s) (hrecv : s.reply = .recv) (p : Packet) :
    Counters c (received c s p) := by
  have hcount := h.reqsCount (by rw [hrecv]; rintro ⟨⟩)
  apply h.of_sameRequest (received_sameRequest c s p)
  -- the branches differ in what they do with the packet, and none of them counts
  all_goals
    rw [Ping.received]
    repeat' split
  all_goals first
    | exact h.recive
    | exact fun _ ↦ hcount

/-- The reply in the buffer is counted. The thread ends with the last of them, so the counter stays
below the number of requests that are asked for until then. -/
theorem Counters.countReply (h : Counters c s) (hreply : s.reply ≠ .exited) (p : Packet) (now : ℕ) :
    Counters c (countReply c s p now) := by
  obtain ⟨hcount, hlt⟩ := h.reqsCount hreply
  have hbound := c.lt
  have hrecive : (s.statRecive + 1) % 2 ^ 32 = s.statRecive + 1 := Nat.mod_eq_of_lt (by omega)
  refine h.of_sameRequest ⟨rfl, rfl, rfl, rfl, rfl⟩ ?_ ?_
  · rw [Ping.countReply, List.length_append, List.length_singleton, hrecive, h.recive]
  · rw [Ping.countReply, hcount, hrecive]
    intro hrunning
    -- the thread goes on, so this was not the last reply it waits for
    have hne : c.reqsCount ≠ s.statRecive + 1 := by
      intro heq
      exact hrunning (if_pos heq)
    have hmore : s.statRecive + 1 < c.reqsCount := by omega
    exact ⟨rfl, hmore⟩

theorem Counters.step (h : Counters c s) (hstep : Step c s e t) : Counters c t := by
  obtain ⟨-, hmove⟩ := Option.ite_none_left_eq_some.mp hstep
  cases e with
  | test | stamp now | sendto | sendtoFails | next => exact h.reqsHndl hmove
  | recvfrom p =>
    obtain ⟨hrecv, ⟨⟩⟩ := Option.ite_none_right_eq_some.mp hmove
    exact h.received hrecv p
  | recvfromFails =>
    obtain ⟨-, ⟨⟩⟩ := Option.ite_none_right_eq_some.mp hmove
    exact h.of_same ⟨rfl, rfl, rfl, rfl, rfl⟩ ⟨rfl, rfl, rfl, rfl⟩
  | handle now =>
    dsimp only at hmove
    rw [Ping.replHndl] at hmove
    split at hmove
    case h_1 p hreply =>
      cases hmove
      exact h.countReply (by rw [hreply]; rintro ⟨⟩) p now
    case h_2 => cases hmove
  | join | close | exit =>
    exact h.of_same (mainThread_sameRequest hmove) (mainThread_sameReply hmove)
  | sigint =>
    cases hmove
    exact h.of_same ⟨rfl, rfl, rfl, rfl, rfl⟩ ⟨rfl, rfl, rfl, rfl⟩

theorem counters_of_run {diffTime : ℕ → DiffTime} {es : List Event}
    (hrun : Run (Step c) (initial diffTime) es s) : Counters c s :=
  hrun.invariant (fun _ _ _ h hstep ↦ h.step hstep) (counters_initial diffTime)

/-! ## The statistics in a run -/

/-- **When the statistics are right.** For all values of the counters, and in every state of a run
for the requests and replies that are counted there. -/
theorem statistics_right_iff (c : Settings) (diffTime : ℕ → DiffTime) :
    (∀ transm recive, LossRight transm recive ↔ Settled transm recive)
      ∧ ∀ (es : List Event) (s : State),
        Run (Step c) (initial diffTime) es s →
          (LossRight s.statTransm s.statRecive ↔ Settled (transmitted s) s.counted.length) := by
  refine ⟨lossRight_iff_settled, ?_⟩
  intro es s hrun
  have h := counters_of_run hrun
  rw [h.transmitted_eq, ← h.recive]
  exact lossRight_iff_settled s.statTransm s.statRecive

/-- One request is sent and answered, and the user interrupts before the reply thread is joined. -/
theorem statistics_right_iff_answered : ∃ s : State,
    Run (Step (settingsOf 1 le_rfl (by decide))) (initial fun _ ↦ ⟨0, 0⟩) (pingOnce.take 7) s
      ∧ sigHndl s.statTransm s.statRecive = some ⟨1, 1, 0⟩
      ∧ LossRight s.statTransm s.statRecive := by
  have hfinal : ((pingOnce.take 7).foldlM (exec (settingsOf 1 le_rfl (by decide)))
      (initial fun _ ↦ ⟨0, 0⟩)).map (fun s ↦ (sigHndl s.statTransm s.statRecive, transmitted s,
        s.counted)) = some (some ⟨1, 1, 0⟩, 1, [0]) := by decide
  obtain ⟨s, hrun, hs⟩ := exists_run_of_map hfinal
  obtain ⟨hprinted, hcounts⟩ := Prod.mk.inj hs
  obtain ⟨htransm, hcounted⟩ := Prod.mk.inj hcounts
  refine ⟨s, hrun, hprinted, ((statistics_right_iff _ _).2 _ s hrun).mpr ?_⟩
  rw [htransm, hcounted]
  decide

/-- Two requests are sent, and the first is answered. -/
def oneOfTwo : List Event :=
  [.test, .stamp 10, .sendto, .next, .recvfrom (replyTo 0), .handle 12, .test, .stamp 20, .sendto,
    .next]

/-- One request is sent, and its reply is delivered twice. -/
def twoForOne : List Event :=
  [.test, .stamp 10, .sendto, .next, .recvfrom (replyTo 0), .handle 12, .recvfrom (replyTo 0),
    .handle 13]

/-- An interrupt before the first request divides by zero. With one of two requests answered the
statistics speak of a loss of 100 percent, and with two answers to one request of `4294967196`. -/
theorem statistics_not_right :
    (∃ s : State, Run (Step (settingsOf 3 (by decide) (by decide))) (initial fun _ ↦ ⟨0, 0⟩) [] s
      ∧ s.ended = false ∧ sigHndl s.statTransm s.statRecive = none
      ∧ ¬ LossRight s.statTransm s.statRecive)
    ∧ (∃ s : State,
        Run (Step (settingsOf 3 (by decide) (by decide))) (initial fun _ ↦ ⟨0, 0⟩) oneOfTwo s
      ∧ s.ended = false ∧ sigHndl s.statTransm s.statRecive = some ⟨2, 1, 100⟩
      ∧ ¬ LossRight s.statTransm s.statRecive)
    ∧ ∃ s : State,
        Run (Step (settingsOf 3 (by decide) (by decide))) (initial fun _ ↦ ⟨0, 0⟩) twoForOne s
      ∧ s.ended = false ∧ sigHndl s.statTransm s.statRecive = some ⟨1, 2, 4294967196⟩
      ∧ ¬ LossRight s.statTransm s.statRecive := by
  let step := exec (settingsOf 3 (by decide) (by decide))
  have hone : (oneOfTwo.foldlM step (initial fun _ ↦ ⟨0, 0⟩)).isSome = true := by decide
  have htwo : (twoForOne.foldlM step (initial fun _ ↦ ⟨0, 0⟩)).isSome = true := by decide
  refine ⟨⟨_, Run.nil _, rfl, rfl, ?_⟩, ?_, ?_⟩
  · rw [lossRight_iff_settled]
    decide
  · obtain ⟨s, hs, hrun⟩ := exists_run_of_isSome step hone
    cases hs
    refine ⟨_, hrun, by decide, by decide, ?_⟩
    rw [lossRight_iff_settled]
    decide
  · obtain ⟨s, hs, hrun⟩ := exists_run_of_isSome step htwo
    cases hs
    refine ⟨_, hrun, by decide, by decide, ?_⟩
    rw [lossRight_iff_settled]
    decide

end AllProjects.IcmpRawSocket.Ping
