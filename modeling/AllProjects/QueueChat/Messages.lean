import AllProjects.QueueChat.Echo

/-!
# Chat messages stay where they are

On the second queue the server's `cln_msg_hndl` and the clients' `cln_inc_msg_hndl` are the same
loop: take the oldest message of the own type, and put it back as it is. The type alone says who
takes a message next, and neither loop writes it. So a message for the server stays with the server.
It is taken, put back under the same type and taken again, and the client that it names never sees
it.

Nothing else in the program puts messages into this queue. Where they come from is therefore left
open: at any time any message may be sent.

`posted`, `taken` and `put` are histories that no step reads.
-/

namespace AllProjects

namespace QueueChat

namespace Messages

open MessageQueue

/-! ## Messages -/

/-- `enum CLIENT_MSG_TYPE`. -/
inductive ClientMsgType
  | publicMsg
  | privateMsg
  | admMsg
  deriving DecidableEq

/-- `CLIENT_MSG`. Its first field, `pid`, is the type under which it is queued. -/
structure ClientMsg where
  pid : ℕ
  msgType : ClientMsgType
  sndName : List UInt8
  rcpName : List UInt8
  sndPid : ℕ
  rcpPid : ℕ
  deriving DecidableEq

/-- The message under the type of its recipient. -/
def ClientMsg.forward (m : ClientMsg) : ClientMsg := { m with pid := m.rcpPid }

/-! ## Threads -/

/-- The threads on the queue, the server's and one for each client. -/
inductive Thread (ι : Type)
  | clnMsgHndl
  | clnIncMsgHndl (i : ι)
  deriving DecidableEq

/-- Where the loop of a thread is. -/
inductive MsgHndl
  | msgrcv
  | msgsnd (clnMsg : ClientMsg)
  deriving DecidableEq

variable {ι : Type}

/-- The type that a thread asks for. -/
def Thread.wanted (C : Clients ι) : Thread ι → ℕ
  | .clnMsgHndl => serverPid
  | .clnIncMsgHndl i => C.clnPid i

/-- The queue and the threads. -/
structure State (ι : Type) where
  queue : List ClientMsg
  threads : Thread ι → MsgHndl
  posted : List ClientMsg
  taken : Thread ι → List ClientMsg
  put : Thread ι → List ClientMsg

/-- Whose call is next. -/
inductive Event (ι : Type)
  | post (m : ClientMsg)
  | rcv (a : Thread ι)
  | snd (a : Thread ι)

/-- Nobody has sent anything. -/
def State.initial : State ι := ⟨[], fun _ ↦ .msgrcv, [], fun _ ↦ [], fun _ ↦ []⟩

variable [DecidableEq ι] (C : Clients ι)

/-- One call. The type of a message that is sent has to be positive. -/
def exec (s : State ι) : Event ι → Option (State ι)
  | .post m =>
    if m.pid = 0 then none
    else some { s with queue := s.queue ++ [m], posted := s.posted ++ [m] }
  | .rcv a =>
    match s.threads a with
    | .msgrcv => (receive ClientMsg.pid (a.wanted C) s.queue).map fun p ↦
        { s with
          queue := p.2
          threads := Function.update s.threads a (.msgsnd p.1)
          taken := Function.update s.taken a (s.taken a ++ [p.1]) }
    | .msgsnd _ => none
  | .snd a =>
    match s.threads a with
    | .msgrcv => none
    | .msgsnd m => some { s with
        queue := s.queue ++ [m]
        threads := Function.update s.threads a .msgrcv
        put := Function.update s.put a (s.put a ++ [m]) }

/-- One step on the client queue. -/
def Step (s : State ι) (e : Event ι) (t : State ι) : Prop := exec C s e = some t

/-- The steps, one by one, with what each needs and what it changes. -/
inductive Move (s : State ι) : Event ι → State ι → Prop
  | post {m : ClientMsg} : m.pid ≠ 0 → Move s (.post m)
      { s with queue := s.queue ++ [m], posted := s.posted ++ [m] }
  | rcv {a : Thread ι} {m : ClientMsg} {q : List ClientMsg} : s.threads a = .msgrcv →
      receive ClientMsg.pid (a.wanted C) s.queue = some (m, q) → Move s (.rcv a)
        { s with
          queue := q
          threads := Function.update s.threads a (.msgsnd m)
          taken := Function.update s.taken a (s.taken a ++ [m]) }
  | snd {a : Thread ι} {m : ClientMsg} : s.threads a = .msgsnd m → Move s (.snd a)
      { s with
        queue := s.queue ++ [m]
        threads := Function.update s.threads a .msgrcv
        put := Function.update s.put a (s.put a ++ [m]) }

theorem step_iff_move {s t : State ι} {e : Event ι} : Step C s e t ↔ Move C s e t := by
  constructor
  · intro h
    unfold Step exec at h
    cases e with
    | post m =>
      simp only at h
      split_ifs at h with hpid
      cases h
      exact .post hpid
    | rcv a =>
      simp only at h
      split at h
      · obtain ⟨p, hp, h⟩ := Option.map_eq_some_iff.mp h
        cases h
        exact .rcv ‹_› hp
      · cases h
    | snd a =>
      simp only at h
      split at h
      · cases h
      · cases h
        exact .snd ‹_›
  · intro h
    cases h <;> simp_all [Step, exec]

/-! ## Every message stays with its thread -/

variable {C}

omit [DecidableEq ι] in
theorem Thread.wanted_injective : Function.Injective (Thread.wanted C) := by
  rintro (_ | i) (_ | j) h
  · rfl
  · exact absurd h.symm (C.clnPid_ne j)
  · exact absurd h (C.clnPid_ne i)
  · exact congrArg _ (C.injective h)

/-- What a thread takes and puts back has the type it asks for, and what was sent with that type is
in the queue or with the thread. -/
structure Kept (C : Clients ι) (s : State ι) : Prop where
  count : ∀ a m, m.pid = a.wanted C →
    s.queue.count m + (if s.threads a = .msgsnd m then 1 else 0) = s.posted.count m
  held : ∀ a m, s.threads a = .msgsnd m → m.pid = a.wanted C
  taken : ∀ a, ∀ m ∈ s.taken a, m.pid = a.wanted C
  put : ∀ a, ∀ m ∈ s.put a, m.pid = a.wanted C

omit [DecidableEq ι] in
theorem kept_initial : Kept C State.initial where
  count := fun _ _ _ ↦ rfl
  held := fun _ _ h ↦ by cases h
  taken := fun _ _ h ↦ absurd h List.not_mem_nil
  put := fun _ _ h ↦ absurd h List.not_mem_nil

theorem pid_eq_of_mem_update {hist : Thread ι → List ClientMsg}
    (h : ∀ a, ∀ m ∈ hist a, m.pid = a.wanted C) {a : Thread ι} {m : ClientMsg}
    (hm : m.pid = a.wanted C) :
    ∀ b, ∀ x ∈ Function.update hist a (hist a ++ [m]) b, x.pid = b.wanted C := by
  intro b x hx
  by_cases hb : b = a
  · rw [hb, Function.update_self] at hx
    rw [hb]
    rcases List.mem_append.mp hx with hx | hx
    · exact h a x hx
    · rw [List.mem_singleton.mp hx]
      exact hm
  · rw [Function.update_of_ne hb] at hx
    exact h b x hx

variable {s t : State ι} {e : Event ι}

omit [DecidableEq ι] in
theorem Kept.post (h : Kept C s) (m : ClientMsg) :
    Kept C { s with queue := s.queue ++ [m], posted := s.posted ++ [m] } := by
  refine { h with count := ?_ }
  intro b x hx
  have hcount := h.count b x hx
  simp only [List.count_append]
  omega

theorem Kept.rcv (h : Kept C s) {a : Thread ι} {m : ClientMsg} {q : List ClientMsg}
    (hthread : s.threads a = .msgrcv)
    (hrcv : receive ClientMsg.pid (a.wanted C) s.queue = some (m, q)) :
    Kept C { s with
      queue := q
      threads := Function.update s.threads a (.msgsnd m)
      taken := Function.update s.taken a (s.taken a ++ [m]) } := by
  have hm := type_of_receive hrcv
  refine ⟨?_, ?_, pid_eq_of_mem_update h.taken hm, h.put⟩
  · intro b x hx
    have hcount := h.count b x hx
    have hq := congrArg (Multiset.count x) (coe_of_receive hrcv)
    rw [Multiset.coe_count, Multiset.count_cons, Multiset.coe_count] at hq
    by_cases hb : b = a
    · -- the thread that asks for this type takes the message from the queue
      rw [hb, hthread, if_neg (by simp), add_zero] at hcount
      simp only [hb, Function.update_self, MsgHndl.msgsnd.injEq, eq_comm (a := m)]
      rw [← hq, hcount]
    · have hxm : x ≠ m := fun heq ↦ hb (Thread.wanted_injective (by rw [← hx, heq, hm]))
      rw [if_neg hxm, add_zero] at hq
      simp only [Function.update_of_ne hb]
      rw [← hq, hcount]
  · intro b x hx
    by_cases hb : b = a
    · simp only [hb, Function.update_self] at hx
      rw [hb, ← MsgHndl.msgsnd.inj hx]
      exact hm
    · simp only [Function.update_of_ne hb] at hx
      exact h.held b x hx

theorem Kept.snd (h : Kept C s) {a : Thread ι} {m : ClientMsg} (hthread : s.threads a = .msgsnd m) :
    Kept C { s with
      queue := s.queue ++ [m]
      threads := Function.update s.threads a .msgrcv
      put := Function.update s.put a (s.put a ++ [m]) } := by
  have hm := h.held a m hthread
  refine ⟨?_, ?_, h.taken, pid_eq_of_mem_update h.put hm⟩
  · intro b x hx
    have hcount := h.count b x hx
    simp only [List.count_append, List.count_singleton, beq_iff_eq]
    by_cases hb : b = a
    · -- and the same thread puts it back
      simp only [hb, hthread, MsgHndl.msgsnd.injEq] at hcount
      simp only [hb, Function.update_self, reduceCtorEq, if_false, add_zero]
      exact hcount
    · have hxm : m ≠ x := fun heq ↦ hb (Thread.wanted_injective (by rw [← hx, ← heq, hm]))
      simp only [Function.update_of_ne hb, if_neg hxm, add_zero]
      exact hcount
  · intro b x hx
    by_cases hb : b = a
    · simp only [hb, Function.update_self] at hx
      cases hx
    · simp only [Function.update_of_ne hb] at hx
      exact h.held b x hx

/-- **Each step keeps messages with their threads.** -/
theorem Kept.move (h : Kept C s) (hmove : Move C s e t) : Kept C t := by
  cases hmove with
  | post _ => exact h.post _
  | rcv hthread hrcv => exact h.rcv hthread hrcv
  | snd hthread => exact h.snd hthread

theorem Kept.run {es : List (Event ι)} (h : Kept C s) (hrun : Run (Step C) s es t) : Kept C t :=
  hrun.invariant (fun _ _ _ hs hstep ↦ hs.move ((step_iff_move C).mp hstep)) h

/-! ## Taken again and again -/

/-- A receipt that passes a message over brings it one place forward, also when what was taken is
put back. -/
theorem idxOf_put_lt {q q' : List ClientMsg} {w : ℕ} {m x : ClientMsg} (hm : m.pid = w)
    (hmem : m ∈ q) (hrcv : receive ClientMsg.pid w q = some (x, q')) (hx : x ≠ m) :
    m ∈ q' ++ [x] ∧ (q' ++ [x]).idxOf m < q.idxOf m := by
  obtain ⟨-, before, after, rfl, rfl, hbefore⟩ := exists_of_receive hrcv
  have hnotMem : m ∉ before := fun h ↦ hbefore m h hm
  have hafter : m ∈ after := by
    rcases List.mem_append.mp hmem with h | h
    · exact absurd h hnotMem
    · exact (List.mem_cons.mp h).resolve_left hx.symm
  rw [List.append_assoc]
  constructor
  · exact List.mem_append_right before (List.mem_append_left [x] hafter)
  · rw [List.idxOf_append_of_notMem hnotMem, List.idxOf_append_of_notMem hnotMem,
      List.idxOf_append_of_mem hafter, List.idxOf_cons_ne after hx]
    exact Nat.lt_succ_self _

/-- The thread works through the messages before this one, putting each behind it, and takes it. -/
theorem exists_run_rcv {a : Thread ι} {m : ClientMsg} (hm : m.pid = a.wanted C)
    (hmem : m ∈ s.queue) (hthread : s.threads a = .msgrcv) :
    ∃ es t, Run (Step C) s es t ∧ t.posted = s.posted ∧
      (s.taken a).count m < (t.taken a).count m := by
  -- the place of the message in the queue decreases with each turn of the loop
  induction hn : s.queue.idxOf m using Nat.strong_induction_on generalizing s with
  | _ n ih =>
    obtain ⟨x, q, hrcv⟩ := exists_receive ClientMsg.pid hmem hm
    have htake := (step_iff_move C).mpr (.rcv hthread hrcv)
    by_cases hx : x = m
    · refine ⟨_, _, Run.single htake, rfl, ?_⟩
      simp only [Function.update_self, List.count_append, hx, List.count_singleton_self]
      exact Nat.lt_succ_self _
    · obtain ⟨hmem', hlt⟩ := idxOf_put_lt hm hmem hrcv hx
      have hput := (step_iff_move C).mpr (.snd (s := { s with
        queue := q
        threads := Function.update s.threads a (.msgsnd x)
        taken := Function.update s.taken a (s.taken a ++ [x]) }) (Function.update_self a _ _))
      rw [Function.update_idem] at hput
      obtain ⟨es, t, hrun, hposted, hcount⟩ := ih _ (hn ▸ hlt) (s := { s with
        queue := q ++ [x]
        threads := Function.update s.threads a .msgrcv
        taken := Function.update s.taken a (s.taken a ++ [x])
        put := Function.update s.put a (s.put a ++ [x]) }) hmem' (Function.update_self a _ _) rfl
      refine ⟨_, t, Run.cons htake (Run.cons hput hrun), hposted, lt_of_le_of_lt ?_ hcount⟩
      simp only [Function.update_self, List.count_append]
      exact Nat.le_add_right _ _

theorem Kept.exists_run_taken {a : Thread ι} {m : ClientMsg} (h : Kept C s)
    (hm : m.pid = a.wanted C) (hposted : m ∈ s.posted) :
    ∃ es t, Run (Step C) s es t ∧ t.posted = s.posted ∧
      (s.taken a).count m < (t.taken a).count m := by
  have hcount := h.count a m hm
  have hpos := List.count_pos_iff.mpr hposted
  cases hthread : s.threads a with
  | msgrcv =>
    rw [hthread, if_neg (by simp)] at hcount
    exact exists_run_rcv hm (List.count_pos_iff.mp (by omega)) hthread
  | msgsnd x =>
    -- the thread puts back what it has, which may be this very message
    have hput := (step_iff_move C).mpr (.snd hthread)
    have hmem : m ∈ s.queue ++ [x] := by
      rw [hthread] at hcount
      by_cases hx : x = m
      · exact List.mem_append_right _ (List.mem_singleton.mpr hx.symm)
      · rw [if_neg (fun heq ↦ hx (MsgHndl.msgsnd.inj heq))] at hcount
        exact List.mem_append_left _ (List.count_pos_iff.mp (by omega))
    obtain ⟨es, t, hrun, hsame, hlt⟩ := exists_run_rcv (s := { s with
      queue := s.queue ++ [x]
      threads := Function.update s.threads a .msgrcv
      put := Function.update s.put a (s.put a ++ [x]) }) hm hmem (Function.update_self a _ _)
    exact ⟨_, t, Run.cons hput hrun, hsame, hlt⟩

/-- **A message is taken any number of times** by the thread whose type it was sent with. -/
theorem Kept.exists_run_taken_count {a : Thread ι} {m : ClientMsg} (h : Kept C s)
    (hm : m.pid = a.wanted C) (hposted : m ∈ s.posted) (n : ℕ) :
    ∃ es t, Run (Step C) s es t ∧ n ≤ (t.taken a).count m := by
  have hmore : ∃ es t, Run (Step C) s es t ∧ t.posted = s.posted ∧ n ≤ (t.taken a).count m := by
    induction n with
    | zero => exact ⟨[], s, Run.nil s, rfl, Nat.zero_le _⟩
    | succ n ih =>
      obtain ⟨es, t, hrun, hsame, hle⟩ := ih
      obtain ⟨fs, u, hrun', hsame', hlt⟩ := (h.run hrun).exists_run_taken hm (hsame ▸ hposted)
      exact ⟨es ++ fs, u, hrun.append hrun', hsame'.trans hsame, hle.trans_lt hlt⟩
  obtain ⟨es, t, hrun, -, hle⟩ := hmore
  exact ⟨es, t, hrun, hle⟩

/-! ## Delivery -/

omit [DecidableEq ι] in
/-- The message came to the client once for each time it was sent: the server took it, and put it
back under the client's type, and the client took that, and the queue has neither. -/
structure Delivered (s : State ι) (m : ClientMsg) (i : ι) : Prop where
  taken : (s.taken .clnMsgHndl).count m = s.posted.count m
  forwarded : (s.put .clnMsgHndl).count m.forward = s.posted.count m
  received : (s.taken (.clnIncMsgHndl i)).count m.forward = s.posted.count m
  gone : m ∉ s.queue ∧ m.forward ∉ s.queue

/-- **No message for a client comes to it.** In no state of any run was a message delivered that was
sent to the server with a client as its recipient. The server puts nothing under the client's type
and the client does not take the message, which is still in the queue or with the server. The server
can go on taking it as often as one likes. -/
theorem never_delivered (C : Clients ι) {es : List (Event ι)}
    (hrun : Run (Step C) State.initial es s) {m : ClientMsg} {i : ι} (hposted : m ∈ s.posted)
    (hserver : m.pid = serverPid) (hrcp : m.rcpPid = C.clnPid i) :
    ¬Delivered s m i ∧ m.forward ∉ s.put .clnMsgHndl ∧ m ∉ s.taken (.clnIncMsgHndl i) ∧
      (m ∈ s.queue ∨ s.threads .clnMsgHndl = .msgsnd m) ∧
      ∀ n, ∃ fs t, Run (Step C) s fs t ∧ n ≤ (t.taken .clnMsgHndl).count m := by
  have h := kept_initial.run hrun
  have hpos := List.count_pos_iff.mpr hposted
  have hforward : m.forward ∉ s.put .clnMsgHndl := fun hput ↦
    C.clnPid_ne i (hrcp.symm.trans (h.put _ _ hput))
  refine ⟨?_, hforward, ?_, ?_, ?_⟩
  · intro hdel
    have hcount := hdel.forwarded
    rw [List.count_eq_zero.mpr hforward] at hcount
    omega
  · intro htaken
    exact C.clnPid_ne i ((h.taken _ _ htaken).symm.trans hserver)
  · have hcount := h.count .clnMsgHndl m hserver
    by_cases hthread : s.threads .clnMsgHndl = .msgsnd m
    · exact Or.inr hthread
    · rw [if_neg hthread] at hcount
      exact Or.inl (List.count_pos_iff.mp (by omega))
  · exact h.exists_run_taken_count hserver hposted

/-- A message from the first of two clients to the second. -/
def privateMessage : ClientMsg := ⟨serverPid, .privateMsg, [97], [98], 7, 8⟩

theorem never_delivered_two :
    ∃ s, Run (Step twoClients) State.initial [.post privateMessage, .rcv .clnMsgHndl,
      .snd .clnMsgHndl] s ∧ ¬Delivered s privateMessage 1 := by
  have hsome : (List.foldlM (exec twoClients) State.initial [.post privateMessage,
      .rcv .clnMsgHndl, .snd .clnMsgHndl]).isSome = true := by
    decide
  obtain ⟨s, hs, hrun⟩ := exists_run_of_isSome (exec twoClients) hsome
  have hposted : s.posted = [privateMessage] := by
    cases hs
    rfl
  have hmem : privateMessage ∈ s.posted := by
    rw [hposted]
    exact List.mem_singleton.mpr rfl
  exact ⟨s, hrun, (never_delivered twoClients hrun hmem (i := 1) rfl rfl).1⟩

/-- One message that was sent once, and that the server has taken twice without forwarding it. -/
theorem taken_twice :
    ∃ s, Run (Step twoClients) State.initial [.post privateMessage, .rcv .clnMsgHndl,
      .snd .clnMsgHndl, .rcv .clnMsgHndl] s ∧
      s.posted = [privateMessage] ∧ s.taken .clnMsgHndl = [privateMessage, privateMessage] ∧
      s.put .clnMsgHndl = [privateMessage] ∧ s.taken (.clnIncMsgHndl 1) = [] := by
  have hsome : (List.foldlM (exec twoClients) State.initial [.post privateMessage,
      .rcv .clnMsgHndl, .snd .clnMsgHndl, .rcv .clnMsgHndl]).isSome = true := by
    decide
  obtain ⟨s, hs, hrun⟩ := exists_run_of_isSome (exec twoClients) hsome
  refine ⟨s, hrun, ?_⟩
  cases hs
  exact ⟨rfl, rfl, rfl, rfl⟩

end Messages

end QueueChat

end AllProjects
