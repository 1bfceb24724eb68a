import AllProjects.EchoServer.Handler

/-!
# The loop of the TCP and UDP server

The servers wait until one of their two sockets is ready. A connection on the TCP socket is accepted
and given a thread with the handler; otherwise a datagram on the UDP socket is sent back, and one
that says `exit` ends the server. A wake-up serves one socket, the TCP socket first.

The servers differ in what they take for ready: `poll` reports flags, which are compared with
`POLLIN`, and `select` puts a socket into its set whatever there is to report. What the other calls
return is left to the environment. The check behind `accept` looks at the listening socket, so a
failure gives the descriptor -1 to a thread.
-/

namespace AllProjects.EchoServer

/-! ## The loop -/

/-- `struct sockaddr_in`: the address and the port. -/
abbrev Address := UInt32 × UInt16

/-- What is reported of a socket. -/
structure Revents where
  pollin : Bool
  pollerr : Bool
  pollhup : Bool
  deriving DecidableEq, Repr

/-- The return of `poll` or `select`. -/
inductive WakeUp
  | fails
  | ready (tcp udp : Revents)
  deriving DecidableEq, Repr

/-- What the calls return, in turn; a failure is `none`. -/
structure Results where
  accept : ℕ → Option (ℕ × Address)
  recvfrom : ℕ → Option (List UInt8 × Address)
  sendto : ℕ → Option ℕ

/-- What the server does. -/
inductive Action
  | accept
  | startHandler (sdCln : ℤ) (clnAddr : Address)
  | recvfrom
  | sendto (msg : List UInt8) (clnAddr : Address)
  | exit (status : ExitStatus)
  deriving DecidableEq, Repr

/-- How often each call was made, how the server has ended, and what it has done so far. -/
structure Server where
  accepts : ℕ := 0
  recvfroms : ℕ := 0
  sendtos : ℕ := 0
  exited : Option ExitStatus := none
  log : List Action := []
  deriving DecidableEq, Repr

def Server.act (s : Server) (a : Action) : Server := { s with log := s.log ++ [a] }

/-- `exit(EXIT_FAILURE)`, after both sockets are closed. -/
def Server.exitFailure (s : Server) : Server :=
  { s.act (.exit .failure) with exited := some .failure }

/-- A connection is accepted and a thread started for it. -/
def Server.acceptTcp (r : Results) (s : Server) : Server :=
  let t := { s.act .accept with accepts := s.accepts + 1 }
  match r.accept s.accepts with
  | some (sdCln, clnAddr) => t.act (.startHandler sdCln clnAddr)
  | none => t.act (.startHandler (-1) (0, 0))

/-- A datagram is received and sent back. -/
def Server.echoUdp (r : Results) (s : Server) : Server :=
  let t := { s.act .recvfrom with recvfroms := s.recvfroms + 1 }
  match r.recvfrom s.recvfroms with
  | none => t.exitFailure
  | some (msg, clnAddr) =>
    if IsExit msg then t.exitFailure
    else
      let u := { t.act (.sendto msg clnAddr) with sendtos := s.sendtos + 1 }
      match r.sendto s.sendtos with
      | none => u.exitFailure
      | some _ => u

/-- One turn of the loop, with the test for a socket that is ready. -/
def Server.turn (ready : Revents → Bool) (r : Results) (s : Server) (w : WakeUp) : Server :=
  if s.exited.isSome then s
  else match w with
    | .fails => s.exitFailure
    | .ready tcp udp =>
      if ready tcp then s.acceptTcp r else if ready udp then s.echoUdp r else s

/-- `revents == POLLIN` -/
def Revents.isPollin (e : Revents) : Bool := e = ⟨true, false, false⟩

/-- `FD_ISSET` -/
def Revents.isSet (e : Revents) : Bool := e.pollin || e.pollerr || e.pollhup

/-- The loop of the server with `poll`. -/
def pollMain (r : Results) : Server → WakeUp → Server := Server.turn Revents.isPollin r

/-- The loop of the server with `select`. -/
def selectMain (r : Results) : Server → WakeUp → Server := Server.turn Revents.isSet r

/-! ## Two servers -/

/-- Nothing but `POLLIN` is reported of a socket, if anything is. -/
def Revents.Plain (e : Revents) : Prop := e.pollerr = false ∧ e.pollhup = false

instance (e : Revents) : Decidable e.Plain := inferInstanceAs (Decidable (_ ∧ _))

/-- Nothing but `POLLIN` is reported of the TCP socket, and of the UDP socket where it matters. -/
def WakeUp.Plain : WakeUp → Prop
  | .fails => True
  | .ready tcp udp => tcp.Plain ∧ (tcp.pollin = false → udp.Plain)

variable {r : Results} {s : Server} {w : WakeUp} {ws : List WakeUp} {e tcp udp : Revents}
  {ready : Revents → Bool}

/-- The tests agree on what is plain, and on nothing else. -/
theorem Revents.plain_iff : e.Plain ↔ e.isPollin = e.isSet := by
  obtain ⟨pollin, pollerr, pollhup⟩ := e
  cases pollin <;> cases pollerr <;> cases pollhup <;> decide

theorem Revents.isPollin_of_not_isSet (h : e.isSet = false) : e.isPollin = false := by
  obtain ⟨pollin, pollerr, pollhup⟩ := e
  revert h
  cases pollin <;> cases pollerr <;> cases pollhup <;> decide

theorem Revents.Plain.isSet_eq (h : e.Plain) : e.isSet = e.pollin := by
  rw [isSet, h.1, h.2, Bool.or_false, Bool.or_false]

theorem Server.log_act_act (a b : Action) : ((s.act a).act b).log = s.log ++ [a, b] :=
  List.append_assoc _ _ _

theorem Server.log_act_act_act (a b c : Action) :
    (((s.act a).act b).act c).log = s.log ++ [a, b, c] := by
  rw [act, log_act_act, act, List.append_assoc]
  rfl

theorem Server.log_acceptTcp : ∃ a, (s.acceptTcp r).log = s.log ++ [.accept, a] := by
  rw [acceptTcp]
  split
  · exact ⟨_, List.append_assoc _ _ _⟩
  · exact ⟨_, List.append_assoc _ _ _⟩

theorem Server.log_echoUdp : ∃ as, (s.echoUdp r).log = s.log ++ .recvfrom :: as := by
  rw [echoUdp]
  split
  · exact ⟨_, s.log_act_act .recvfrom (.exit .failure)⟩
  · dsimp only
    split
    · exact ⟨_, s.log_act_act .recvfrom (.exit .failure)⟩
    · split
      case h_1 msg clnAddr _ _ _ _ =>
        exact ⟨_, s.log_act_act_act .recvfrom (.sendto msg clnAddr) (.exit .failure)⟩
      case h_2 msg clnAddr _ _ _ _ _ => exact ⟨_, s.log_act_act .recvfrom (.sendto msg clnAddr)⟩

theorem turn_ready (hrunning : s.exited = none) : s.turn ready r (.ready tcp udp)
    = if ready tcp then s.acceptTcp r else if ready udp then s.echoUdp r else s := by
  rw [Server.turn, hrunning]
  rfl

theorem turn_of_exited (hexited : s.exited.isSome = true) : s.turn ready r w = s := if_pos hexited

theorem turn_eq_of_plain (h : w.Plain) : pollMain r s w = selectMain r s w := by
  rw [pollMain, selectMain]
  cases hrunning : s.exited with
  | some status =>
    have hexited : s.exited.isSome = true := Option.isSome_iff_exists.mpr ⟨status, hrunning⟩
    rw [turn_of_exited hexited, turn_of_exited hexited]
  | none =>
    cases w with
    | fails => rfl
    | ready tcp udp =>
      obtain ⟨htcp, hudp⟩ := h
      rw [turn_ready hrunning, turn_ready hrunning, Revents.plain_iff.mp htcp, htcp.isSet_eq]
      cases hpollin : tcp.pollin with
      | true => rfl
      | false => rw [Revents.plain_iff.mp (hudp hpollin)]

/-- Where anything else is reported, `select` has something to do that `poll` has not. -/
theorem plain_of_log_eq (hrunning : s.exited = none)
    (h : (pollMain r s w).log = (selectMain r s w).log) : w.Plain := by
  cases w with
  | fails => trivial
  | ready tcp udp =>
    rw [pollMain, selectMain, turn_ready hrunning, turn_ready hrunning] at h
    obtain ⟨a, haccept⟩ := Server.log_acceptTcp (r := r) (s := s)
    obtain ⟨as, hecho⟩ := Server.log_echoUdp (r := r) (s := s)
    have hidle : ∀ a as, s.log ≠ s.log ++ a :: as :=
      fun a as heq ↦ List.cons_ne_nil a as (List.self_eq_append_right.mp heq)
    have hother : s.log ++ .recvfrom :: as ≠ s.log ++ [.accept, a] :=
      fun heq ↦ nomatch List.append_cancel_left heq
    have htcp : tcp.isPollin = tcp.isSet := by
      cases hset : tcp.isSet with
      | false => exact Revents.isPollin_of_not_isSet hset
      | true =>
        rw [hset, if_pos rfl, haccept] at h
        by_contra hpollin
        rw [if_neg hpollin] at h
        split at h
        · exact hother (hecho.symm.trans h)
        · exact hidle _ _ h
    have hplain := Revents.plain_iff.mpr htcp
    refine ⟨hplain, fun hpollin ↦ Revents.plain_iff.mpr ?_⟩
    have hset : tcp.isSet = false := hplain.isSet_eq.trans hpollin
    rw [htcp, hset] at h
    cases hudp : udp.isSet with
    | false => exact Revents.isPollin_of_not_isSet hudp
    | true =>
      rw [hudp] at h
      by_contra hpollin
      rw [if_neg hpollin] at h
      exact hidle _ _ (h.trans hecho)

/-- **The servers behave alike** after every wake-up exactly when, as long as they run, nothing but
`POLLIN` is reported of the sockets they look at. -/
theorem log_eq_iff_plain :
    (∀ pre, pre <+: ws → (pre.foldl (pollMain r) {}).log = (pre.foldl (selectMain r) {}).log)
      ↔ ∀ pre w, pre ++ [w] <+: ws → (pre.foldl (selectMain r) {}).exited = none → w.Plain := by
  refine lockstep_iff Server.log (fun s w ↦ s.exited = none → WakeUp.Plain w) ?_ ?_
  · intro s w h
    cases hrunning : s.exited with
    | none => exact turn_eq_of_plain (h hrunning)
    | some status =>
      have hexited : s.exited.isSome = true := Option.isSome_iff_exists.mpr ⟨status, hrunning⟩
      exact (turn_of_exited hexited).trans (turn_of_exited hexited).symm
  · exact fun s w h hrunning ↦ plain_of_log_eq hrunning h

/-- One datagram, and nothing else. -/
def oneDatagram : Results where
  accept _ := none
  recvfrom n := if n = 0 then some ([104, 105], 1, 2) else none
  sendto _ := some 2

/-- A datagram behind an error: `select` sends it back, and `poll` waits again, for ever. -/
theorem pollerr_differs :
    ([.ready ⟨false, false, false⟩ ⟨true, true, false⟩].foldl (pollMain oneDatagram) {}).log = []
      ∧ ([.ready ⟨false, false, false⟩ ⟨true, true, false⟩].foldl (selectMain oneDatagram) {}).log
        = [.recvfrom, .sendto [104, 105] (1, 2)] := by
  decide

end AllProjects.EchoServer
