import AllProjects.EchoServer.Dispatch

/-!
# Who owns a descriptor

A handler thread owns the descriptor that it is started with until it closes it. A successful
`accept` returns a descriptor that is not open, so as long as handlers are started with such
descriptors alone no two of them own the same one.

A failed `accept` breaks that. The check behind it looks at the listening socket, in all three
servers, so a thread is started for the descriptor -1, and for as many failures as many threads.
-/

namespace AllProjects.EchoServer

/-! ## Three servers -/

/-- The return of `epoll_wait`: the socket of the one event. -/
inductive EpollWait
  | fails
  | tcp
  | udp
  deriving DecidableEq, Repr

/-- The loop of the server with `epoll`. The flags of the event are not looked at. -/
def epollMain (r : Results) (s : Server) (w : EpollWait) : Server :=
  if s.exited.isSome then s
  else match w with
    | .fails => s.exitFailure
    | .tcp => s.acceptTcp r
    | .udp => s.echoUdp r

/-- The descriptors of the handlers that were started. -/
def startedOf (log : List Action) : List ℤ :=
  log.filterMap fun a ↦ match a with
    | .startHandler sdCln _ => some sdCln
    | _ => none

/-- The loop of a server, and the wake-ups after which it accepts a connection. In the other turns
it neither accepts one nor starts a handler. -/
structure MainLoop (ω : Type) where
  turn : Results → Server → ω → Server
  accepts : Server → ω → Bool
  turn_of_accepts : ∀ r s w, accepts s w = true → turn r s w = s.acceptTcp r
  turn_of_not_accepts : ∀ r s w, accepts s w = false →
    (turn r s w).accepts = s.accepts ∧ startedOf (turn r s w).log = startedOf s.log

variable {r : Results}

theorem startedOf_append (log log' : List Action) :
    startedOf (log ++ log') = startedOf log ++ startedOf log' := List.filterMap_append

theorem startedOf_act (s : Server) {a : Action} (ha : startedOf [a] = []) :
    startedOf (s.act a).log = startedOf s.log := by
  rw [Server.act, startedOf_append, ha, List.append_nil]

theorem exitFailure_starts_none (s : Server) :
    s.exitFailure.accepts = s.accepts ∧ startedOf s.exitFailure.log = startedOf s.log :=
  ⟨rfl, startedOf_act s rfl⟩

theorem echoUdp_starts_none (r : Results) (s : Server) :
    (s.echoUdp r).accepts = s.accepts ∧ startedOf (s.echoUdp r).log = startedOf s.log := by
  have hrecv : startedOf (s.act .recvfrom).log = startedOf s.log := startedOf_act s rfl
  rw [Server.echoUdp]
  split
  · exact ⟨rfl, (exitFailure_starts_none _).2.trans hrecv⟩
  · dsimp only
    split
    · exact ⟨rfl, (exitFailure_starts_none _).2.trans hrecv⟩
    · split
      · exact ⟨rfl, (exitFailure_starts_none _).2.trans ((startedOf_act _ rfl).trans hrecv)⟩
      · exact ⟨rfl, (startedOf_act _ rfl).trans hrecv⟩

/-- The loop over two sockets of which one or both are reported. -/
def readyLoop (ready : Revents → Bool) : MainLoop WakeUp where
  turn := Server.turn ready
  accepts s w := s.exited.isNone && match w with
    | .fails => false
    | .ready tcp _ => ready tcp
  turn_of_accepts r s w h := by
    obtain ⟨hrunning, htcp⟩ := Bool.and_eq_true_iff.mp h
    cases w with
    | fails => cases htcp
    | ready tcp udp => rw [turn_ready (Option.isNone_iff_eq_none.mp hrunning), if_pos htcp]
  turn_of_not_accepts r s w h := by
    by_cases hexited : s.exited.isSome = true
    · rw [turn_of_exited hexited]
      exact ⟨rfl, rfl⟩
    have hrunning : s.exited = none := by rwa [Option.not_isSome_iff_eq_none] at hexited
    cases w with
    | fails =>
      rw [Server.turn, if_neg hexited]
      exact exitFailure_starts_none s
    | ready tcp udp =>
      have htcp : ¬ ready tcp = true := by simpa [hrunning] using h
      rw [turn_ready hrunning, if_neg htcp]
      split
      · exact echoUdp_starts_none r s
      · exact ⟨rfl, rfl⟩

def pollLoop : MainLoop WakeUp := readyLoop Revents.isPollin

def selectLoop : MainLoop WakeUp := readyLoop Revents.isSet

def epollLoop : MainLoop EpollWait where
  turn := epollMain
  accepts s w := s.exited.isNone && w = .tcp
  turn_of_accepts r s w h := by
    obtain ⟨hrunning, htcp⟩ := Bool.and_eq_true_iff.mp h
    rw [decide_eq_true_iff] at htcp
    unfold epollMain
    rw [Option.isNone_iff_eq_none.mp hrunning, htcp]
    rfl
  turn_of_not_accepts r s w h := by
    unfold epollMain
    split
    · exact ⟨rfl, rfl⟩
    · rename_i hexited
      cases w with
      | fails => exact exitFailure_starts_none s
      | tcp => simp_all
      | udp => exact echoUdp_starts_none r s

/-! ## The process -/

/-- The server, the descriptors that are open, and those of the handlers that have not closed them
yet. -/
structure Descriptors where
  server : Server
  openSds : Finset ℕ
  running : List ℤ
  deriving DecidableEq

/-- The server wakes up, or a handler closes its descriptor. -/
inductive Descriptors.Event (ω : Type)
  | wake (w : ω)
  | close (sdCln : ℤ)

section

variable {ω : Type} (L : MainLoop ω) (r : Results)

/-- What `accept` returns in this turn, when it is called and succeeds. -/
def accepted (s : Server) (w : ω) : Option ℕ :=
  if L.accepts s w then (r.accept s.accepts).map Prod.fst else none

/-- The handlers started in this turn. -/
def started (s : Server) (w : ω) : List ℤ :=
  (startedOf (L.turn r s w).log).drop (startedOf s.log).length

/-- One step. The descriptor that `accept` returns was not open before; `close` fails for a number
that is none. -/
def Descriptors.exec (s : Descriptors) : Descriptors.Event ω → Option Descriptors
  | .wake w =>
    if ∀ sd ∈ accepted L r s.server w, sd ∉ s.openSds then
      some
        { server := L.turn r s.server w
          openSds := (accepted L r s.server w).toFinset ∪ s.openSds
          running := s.running ++ started L r s.server w }
    else none
  | .close sdCln =>
    if sdCln ∈ s.running then
      some { s with
        openSds := if 0 ≤ sdCln then s.openSds.erase sdCln.toNat else s.openSds
        running := s.running.erase sdCln }
    else none

def Descriptors.Step (s : Descriptors) (e : Descriptors.Event ω) (t : Descriptors) : Prop :=
  s.exec L r e = some t

/-- In front of the loop. -/
def Descriptors.initial (openSds : Finset ℕ) : Descriptors := ⟨{}, openSds, []⟩

/-- Every handler was started with a descriptor from a successful `accept`, and no two that have not
closed theirs own the same one. -/
structure OwnsAccepted (s : Descriptors) : Prop where
  accepted : ∀ d ∈ startedOf s.server.log, ∃ i sdCln clnAddr, i < s.server.accepts
    ∧ r.accept i = some (sdCln, clnAddr) ∧ d = sdCln
  distinct : s.running.Nodup

/-- If `accept` is called, it succeeds. -/
def AcceptSucceeds (s : Descriptors) : Descriptors.Event ω → Prop
  | .wake w => L.accepts s.server w = true → (r.accept s.server.accepts).isSome = true
  | .close _ => True

end

/-! ## The invariant -/

/-- Descriptors of handlers are open, and no two handlers own the same; failures are not counted. -/
structure Owning (s : Descriptors) : Prop where
  isOpen : ∀ d ∈ s.running, 0 ≤ d → d.toNat ∈ s.openSds
  distinct : (s.running.filter (0 ≤ ·)).Nodup

variable {ω : Type} {L : MainLoop ω} {s t : Descriptors} {e : Descriptors.Event ω} {w : ω}

theorem owning_initial (openSds : Finset ℕ) : Owning (Descriptors.initial openSds) where
  isOpen _ hd := absurd hd List.not_mem_nil
  distinct := List.nodup_nil

theorem ownsAccepted_initial (openSds : Finset ℕ) :
    OwnsAccepted r (Descriptors.initial openSds) where
  accepted _ hd := absurd hd List.not_mem_nil
  distinct := List.nodup_nil

/-- **What a turn starts**: a handler for what `accept` returns, if it is called. -/
theorem started_cases (L : MainLoop ω) (r : Results) (s : Server) (w : ω) :
    (L.accepts s w = false ∧ accepted L r s w = none ∧ started L r s w = []
      ∧ (L.turn r s w).accepts = s.accepts
      ∧ startedOf (L.turn r s w).log = startedOf s.log)
    ∨ (L.accepts s w = true ∧ r.accept s.accepts = none ∧ accepted L r s w = none
      ∧ started L r s w = [-1] ∧ startedOf (L.turn r s w).log = startedOf s.log ++ [-1])
    ∨ ∃ sdCln clnAddr, L.accepts s w = true ∧ r.accept s.accepts = some (sdCln, clnAddr)
      ∧ accepted L r s w = some sdCln ∧ started L r s w = [(sdCln : ℤ)]
      ∧ (L.turn r s w).accepts = s.accepts + 1
      ∧ startedOf (L.turn r s w).log = startedOf s.log ++ [(sdCln : ℤ)] := by
  cases haccepts : L.accepts s w with
  | false =>
    obtain ⟨hcount, hlog⟩ := L.turn_of_not_accepts r s w haccepts
    refine Or.inl ⟨rfl, ?_, ?_, hcount, hlog⟩
    · rw [accepted, haccepts]
      rfl
    · rw [started, hlog, List.drop_length]
  | true =>
    have hturn := L.turn_of_accepts r s w haccepts
    rw [accepted, started, haccepts, if_pos rfl, hturn, Server.acceptTcp]
    cases hresult : r.accept s.accepts with
    | none =>
      have hlog : startedOf ((s.act .accept).log ++ [.startHandler (-1) (0, 0)])
          = startedOf s.log ++ [-1] := by simp [Server.act, startedOf]
      refine Or.inr (Or.inl ⟨rfl, rfl, rfl, ?_, hlog⟩)
      exact (congrArg (List.drop _) hlog).trans List.drop_left
    | some p =>
      obtain ⟨sdCln, clnAddr⟩ := p
      have hlog : startedOf ((s.act .accept).log ++ [.startHandler sdCln clnAddr])
          = startedOf s.log ++ [(sdCln : ℤ)] := by simp [Server.act, startedOf]
      refine Or.inr (Or.inr ⟨sdCln, clnAddr, rfl, rfl, rfl, ?_, rfl, hlog⟩)
      exact (congrArg (List.drop _) hlog).trans List.drop_left

theorem Owning.close (h : Owning s) (sdCln : ℤ) : Owning { s with
    openSds := if 0 ≤ sdCln then s.openSds.erase sdCln.toNat else s.openSds
    running := s.running.erase sdCln } where
  isOpen d hd hnonneg := by
    have hmem := h.isOpen d (List.mem_of_mem_erase hd) hnonneg
    dsimp only
    split
    · rename_i hclosed
      rw [Finset.mem_erase]
      refine ⟨?_, hmem⟩
      intro hsame
      -- the descriptor that is closed has one owner
      obtain rfl : d = sdCln := by omega
      have herase : (s.running.erase d).filter (0 ≤ ·) = (s.running.filter (0 ≤ ·)).erase d :=
        List.erase_filter.symm
      have hd' : d ∈ (s.running.erase d).filter (0 ≤ ·) :=
        List.mem_filter.mpr ⟨hd, decide_eq_true hnonneg⟩
      rw [herase] at hd'
      exact h.distinct.not_mem_erase hd'
    · exact hmem
  distinct := h.distinct.sublist (List.erase_sublist.filter _)

theorem Owning.wake (h : Owning s) (hnew : ∀ sd ∈ accepted L r s.server w, sd ∉ s.openSds) :
    Owning
      { server := L.turn r s.server w
        openSds := (accepted L r s.server w).toFinset ∪ s.openSds
        running := s.running ++ started L r s.server w } := by
  obtain ⟨-, hopen, hstarted, -⟩ | ⟨-, -, hopen, hstarted, -⟩
    | ⟨sdCln, clnAddr, -, -, hopen, hstarted, -⟩ := started_cases L r s.server w
  -- `accept` is not called
  · rw [hopen, hstarted, List.append_nil]
    refine ⟨?_, h.distinct⟩
    intro d hd hnonneg
    exact Finset.mem_union_right _ (h.isOpen d hd hnonneg)
  -- it fails, and -1 is not counted
  · rw [hopen, hstarted]
    constructor
    · intro d hd hnonneg
      rw [List.mem_append, List.mem_singleton] at hd
      obtain hd | rfl := hd
      · exact Finset.mem_union_right _ (h.isOpen d hd hnonneg)
      · exact absurd hnonneg (by decide)
    · rw [List.filter_append]
      exact (List.append_nil _).symm ▸ h.distinct
  -- it succeeds with a descriptor that nobody has open
  · have hfresh : sdCln ∉ s.openSds := hnew sdCln (by rw [hopen]; rfl)
    rw [hopen, hstarted]
    constructor
    · intro d hd hnonneg
      rw [List.mem_append, List.mem_singleton] at hd
      obtain hd | rfl := hd
      · exact Finset.mem_union_right _ (h.isOpen d hd hnonneg)
      · exact Finset.mem_union_left _ (by simp)
    · rw [List.filter_append, List.filter_singleton, decide_eq_true (Int.natCast_nonneg sdCln)]
      apply List.Nodup.append h.distinct (List.nodup_singleton _)
      rw [List.disjoint_singleton]
      intro hmem
      exact hfresh (h.isOpen _ (List.mem_of_mem_filter hmem) (Int.natCast_nonneg sdCln))

theorem Owning.step (h : Owning s) (hstep : s.Step L r e t) : Owning t := by
  cases e with
  | wake w =>
    obtain ⟨hnew, ⟨⟩⟩ := Option.ite_none_right_eq_some.mp hstep
    exact h.wake hnew
  | close sdCln =>
    obtain ⟨-, ⟨⟩⟩ := Option.ite_none_right_eq_some.mp hstep
    exact h.close sdCln

/-! ## When every handler owns a descriptor -/

/-- **One step.** Only a failure of `accept` starts a handler without a descriptor. -/
theorem OwnsAccepted.step_iff (howning : Owning s) (h : OwnsAccepted r s) (hstep : s.Step L r e t) :
    OwnsAccepted r t ↔ AcceptSucceeds L r s e := by
  cases e with
  | close sdCln =>
    obtain ⟨-, ⟨⟩⟩ := Option.ite_none_right_eq_some.mp hstep
    exact iff_of_true ⟨h.accepted, h.distinct.erase sdCln⟩ trivial
  | wake w =>
    obtain ⟨hnew, ⟨⟩⟩ := Option.ite_none_right_eq_some.mp hstep
    rw [AcceptSucceeds]
    obtain ⟨haccepts, -, hstarted, hcount, hlog⟩ | ⟨haccepts, hfails, -, hstarted, hlog⟩
      | ⟨sdCln, clnAddr, haccepts, hresult, hopen, hstarted, hcount, hlog⟩ :=
        started_cases L r s.server w
    · refine iff_of_true ⟨?_, ?_⟩ ?_
      · rw [hlog, hcount]
        exact h.accepted
      · rw [hstarted, List.append_nil]
        exact h.distinct
      · intro htrue
        rw [haccepts] at htrue
        cases htrue
    · refine iff_of_false ?_ ?_
      · intro howns
        -- a descriptor is no negative number
        obtain ⟨i, sdCln, clnAddr, -, -, hd⟩ := howns.accepted (-1) (by
          rw [hlog, List.mem_append, List.mem_singleton]
          exact Or.inr rfl)
        omega
      · intro hsucceeds
        rw [hfails] at hsucceeds
        exact absurd (hsucceeds haccepts) Bool.false_ne_true
    · refine iff_of_true ⟨?_, ?_⟩ ?_
      · intro d hd
        rw [hlog, List.mem_append, List.mem_singleton] at hd
        obtain hd | rfl := hd
        · obtain ⟨i, sd, addr, hi, hsd⟩ := h.accepted d hd
          exact ⟨i, sd, addr, by rw [hcount]; omega, hsd⟩
        · exact ⟨s.server.accepts, sdCln, clnAddr, by rw [hcount]; omega, hresult, rfl⟩
      · rw [hstarted]
        apply List.Nodup.append h.distinct (List.nodup_singleton _)
        rw [List.disjoint_singleton]
        intro hmem
        have hmem' := howning.isOpen _ hmem (Int.natCast_nonneg sdCln)
        exact hnew sdCln (by rw [hopen]; rfl) hmem'
      · intro _
        rw [hresult]
        rfl

theorem ownsAccepted_run_iff (L : MainLoop ω) (r : Results) (openSds : Finset ℕ)
    (es : List (Descriptors.Event ω)) (t : Descriptors) :
    Run (fun s e t ↦ s.Step L r e t ∧ OwnsAccepted r t) (Descriptors.initial openSds) es t
      ↔ Run (fun s e t ↦ s.Step L r e t ∧ AcceptSucceeds L r s e) (Descriptors.initial openSds)
        es t :=
  Run.always_iff_sound (fun _ _ _ h hstep ↦ h.step hstep)
    (fun _ _ _ howning h hstep ↦ h.step_iff howning hstep) (owning_initial openSds)
    (ownsAccepted_initial openSds)

/-- **Who owns a descriptor**, in the three servers: every handler, throughout a run, exactly when
no `accept` that is called in it fails. -/
theorem handlers_own_iff_accepts_succeed (r : Results) (openSds : Finset ℕ) :
    (∀ es t,
      Run (fun s e t ↦ s.Step pollLoop r e t ∧ OwnsAccepted r t) (Descriptors.initial openSds) es t
        ↔ Run (fun s e t ↦ s.Step pollLoop r e t ∧ AcceptSucceeds pollLoop r s e)
          (Descriptors.initial openSds) es t)
    ∧ (∀ es t,
      Run (fun s e t ↦ s.Step selectLoop r e t ∧ OwnsAccepted r t)
          (Descriptors.initial openSds) es t
        ↔ Run (fun s e t ↦ s.Step selectLoop r e t ∧ AcceptSucceeds selectLoop r s e)
          (Descriptors.initial openSds) es t)
    ∧ ∀ es t,
      Run (fun s e t ↦ s.Step epollLoop r e t ∧ OwnsAccepted r t) (Descriptors.initial openSds) es t
        ↔ Run (fun s e t ↦ s.Step epollLoop r e t ∧ AcceptSucceeds epollLoop r s e)
          (Descriptors.initial openSds) es t :=
  ⟨ownsAccepted_run_iff pollLoop r openSds, ownsAccepted_run_iff selectLoop r openSds,
    ownsAccepted_run_iff epollLoop r openSds⟩

/-- Every call fails. -/
def allFail : Results where
  accept _ := none
  recvfrom _ := none
  sendto _ := none

/-- Two connections, and no descriptor for either. -/
theorem handlers_own_nothing :
    (∃ t, Run (Descriptors.Step pollLoop allFail) (Descriptors.initial {3, 4})
        [.wake (.ready ⟨true, false, false⟩ ⟨false, false, false⟩),
          .wake (.ready ⟨true, false, false⟩ ⟨false, false, false⟩)] t
      ∧ t.running = [-1, -1] ∧ ¬ OwnsAccepted allFail t)
    ∧ (∃ t, Run (Descriptors.Step selectLoop allFail) (Descriptors.initial {3, 4})
        [.wake (.ready ⟨true, false, false⟩ ⟨false, false, false⟩),
          .wake (.ready ⟨true, false, false⟩ ⟨false, false, false⟩)] t
      ∧ t.running = [-1, -1] ∧ ¬ OwnsAccepted allFail t)
    ∧ ∃ t, Run (Descriptors.Step epollLoop allFail) (Descriptors.initial {3, 4})
        [.wake .tcp, .wake .tcp] t
      ∧ t.running = [-1, -1] ∧ ¬ OwnsAccepted allFail t := by
  have hnot : ∀ t : Descriptors, t.running = [-1, -1] → ¬ OwnsAccepted allFail t := by
    intro t ht h
    have hnodup := h.distinct
    rw [ht] at hnodup
    exact absurd hnodup (by decide)
  refine ⟨?_, ?_, ?_⟩
  · refine ⟨_, Run.cons rfl (Run.cons rfl (Run.nil _)), ?_, hnot _ ?_⟩ <;> rfl
  · refine ⟨_, Run.cons rfl (Run.cons rfl (Run.nil _)), ?_, hnot _ ?_⟩ <;> rfl
  · refine ⟨_, Run.cons rfl (Run.cons rfl (Run.nil _)), ?_, hnot _ ?_⟩ <;> rfl

end AllProjects.EchoServer
