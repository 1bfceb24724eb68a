import AllProjects.QueueChat.Events

/-!
# Every event is echoed once

For each client the chat is a conversation of four steps: it sends its message, the server takes it,
the server puts the response back, the client takes the response. The conversations share the queue
and the server, but no step of one moves another. That is the abstract description: a phase for each
client, and steps that advance one phase by one.

A state refines it when the queue, the server and the histories hold what the phases say, no more
and no less. Process ids are distinct and none of them is `SERVER_PID`, so a message of a given type
can only be the one that its receiver waits for.
-/

namespace AllProjects

namespace QueueChat

open MessageQueue

/-! ## The conversation of a client -/

/-- How far the conversation of a client has got. -/
inductive Phase
  | idle
  | requested
  | held
  | answered
  | done
  deriving DecidableEq

namespace Phase

/-- The step of a conversation. -/
def next : Phase → Phase
  | idle => requested
  | requested => held
  | held => answered
  | answered => done
  | done => done

/-- The number of steps that led to a phase. -/
def rank : Phase → ℕ
  | idle => 0
  | requested => 1
  | held => 2
  | answered => 3
  | done => 4

theorem rank_le (p : Phase) : p.rank ≤ 4 := by
  cases p <;> decide

theorem rank_next {p : Phase} (h : p ≠ done) : p.next.rank = p.rank + 1 := by
  cases p with
  | done => exact absurd rfl h
  | _ => rfl

end Phase

variable {ι : Type} {C : Clients ι}

namespace Clients

variable (C) in
/-- The response to the client's message. -/
def echo (i : ι) : ServerMsg := (C.request i).respond

variable (C) in
/-- What the conversation has in the queue. -/
def queued (i : ι) : Phase → Multiset ServerMsg
  | .requested => {C.request i}
  | .answered => {C.echo i}
  | _ => 0

variable (C) in
/-- What the server has taken of the conversation. -/
def takenOf (i : ι) : Phase → Multiset ServerMsg
  | .held | .answered | .done => {C.request i}
  | _ => 0

theorem request_inj {i j : ι} : C.request i = C.request j ↔ i = j :=
  ⟨fun h ↦ C.injective (congrArg ServerMsg.dataPid h), fun h ↦ h ▸ rfl⟩

theorem echo_inj {i j : ι} : C.echo i = C.echo j ↔ i = j :=
  ⟨fun h ↦ C.injective (congrArg ServerMsg.dataPid h), fun h ↦ h ▸ rfl⟩

theorem pid_echo (i : ι) : (C.echo i).pid = C.clnPid i := rfl

theorem clnPid_ne (i : ι) : C.clnPid i ≠ serverPid := by
  have hle := C.two_le i
  rw [serverPid]
  omega

theorem request_ne_echo (i j : ι) : C.request i ≠ C.echo j := fun h ↦
  C.clnPid_ne j (congrArg ServerMsg.pid h).symm

theorem eq_request_of_mem {i : ι} {p : Phase} {m : ServerMsg} (hm : m ∈ C.queued i p)
    (ht : m.pid = serverPid) : p = .requested ∧ m = C.request i := by
  cases p with
  | requested => exact ⟨rfl, Multiset.mem_singleton.mp hm⟩
  | answered =>
    rw [Multiset.mem_singleton.mp hm] at ht
    exact absurd ht (C.clnPid_ne i)
  | _ => exact absurd hm (Multiset.notMem_zero m)

theorem eq_echo_of_mem {i j : ι} {p : Phase} {m : ServerMsg} (hm : m ∈ C.queued j p)
    (ht : m.pid = C.clnPid i) : j = i ∧ p = .answered ∧ m = C.echo i := by
  cases p with
  | requested =>
    rw [Multiset.mem_singleton.mp hm] at ht
    exact absurd ht.symm (C.clnPid_ne i)
  | answered =>
    rw [Multiset.mem_singleton.mp hm] at ht ⊢
    obtain rfl := C.injective ht
    exact ⟨rfl, rfl, rfl⟩
  | _ => exact absurd hm (Multiset.notMem_zero m)

end Clients

/-! ## Refinement -/

variable [Fintype ι]

/-- The state holds what the phases say. -/
structure Refines (C : Clients ι) (s : State ι) (ph : ι → Phase) : Prop where
  queue : (s.queue : Multiset ServerMsg) = ∑ i, C.queued i (ph i)
  taken : (s.taken : Multiset ServerMsg) = ∑ i, C.takenOf i (ph i)
  held : ∀ i, ph i = .held ↔ s.server = .msgsnd (C.echo i)
  server : s.server = .msgrcv ∨ ∃ i, s.server = .msgsnd (C.echo i)
  clients : ∀ i, s.clients i = .msgsnd ↔ ph i = .idle
  got : ∀ i, s.got i = if ph i = .done then [C.echo i] else []

theorem refines_initial : Refines C State.initial fun _ ↦ .idle where
  queue := (Finset.sum_eq_zero fun _ _ ↦ rfl).symm
  taken := (Finset.sum_eq_zero fun _ _ ↦ rfl).symm
  held := fun _ ↦ ⟨fun h ↦ (by cases h), fun h ↦ (by cases h)⟩
  server := Or.inl rfl
  clients := fun _ ↦ ⟨fun _ ↦ rfl, fun _ ↦ rfl⟩
  got := fun _ ↦ rfl

variable [DecidableEq ι] {cap : ℕ∞} {s t : State ι} {e : Event ι} {ph : ι → Phase}

omit [Fintype ι] in
theorem update_phase_iff {i j : ι} {p q : Phase} (hi : ph i ≠ q) (hp : p ≠ q) :
    Function.update ph i p j = q ↔ ph j = q := by
  by_cases hj : j = i
  · rw [hj, Function.update_self]
    exact iff_of_false hp hi
  · rw [Function.update_of_ne hj]

namespace Refines

theorem queue_update (h : Refines C s ph) {i : ι} {p : Phase} (hi : ph i = p) (p' : Phase) :
    (∑ j, C.queued j (Function.update ph i p' j)) + C.queued i p
      = (s.queue : Multiset ServerMsg) + C.queued i p' := by
  have hsum := sum_threads_update C.queued ph i p'
  rwa [hi, ← h.queue] at hsum

theorem taken_update (h : Refines C s ph) {i : ι} {p : Phase} (hi : ph i = p) (p' : Phase) :
    (∑ j, C.takenOf j (Function.update ph i p' j)) + C.takenOf i p
      = (s.taken : Multiset ServerMsg) + C.takenOf i p' := by
  have hsum := sum_threads_update C.takenOf ph i p'
  rwa [hi, ← h.taken] at hsum

theorem got_update (h : Refines C s ph) {i : ι} {p : Phase} (hi : ph i ≠ .done) (hp : p ≠ .done)
    (j : ι) : s.got j = if Function.update ph i p j = .done then [C.echo j] else [] := by
  rw [h.got j]
  exact if_congr (update_phase_iff hi hp).symm rfl rfl

theorem clientSnd (h : Refines C s ph) {i : ι} (hi : s.clients i = .msgsnd) :
    ph i = .idle ∧ Refines C
      { s with
        queue := s.queue ++ [C.request i]
        clients := Function.update s.clients i .msgrcv } (Function.update ph i .requested) := by
  have hidle : ph i = .idle := (h.clients i).mp hi
  have hqueue := h.queue_update hidle .requested
  have htaken := h.taken_update hidle .requested
  refine ⟨hidle, ?_, ?_, ?_, h.server, ?_, ?_⟩
  · change _ + (0 : Multiset ServerMsg) = _ + {C.request i} at hqueue
    rw [add_zero] at hqueue
    rw [hqueue, coe_concat, add_comm, Multiset.singleton_add]
  · exact (add_right_cancel htaken).symm
  · intro j
    rw [update_phase_iff (hidle.trans_ne (by decide)) (by decide)]
    exact h.held j
  · intro j
    by_cases hj : j = i
    · rw [hj, Function.update_self]
      simp only [Function.update_self]
      exact iff_of_false (by decide) (by decide)
    · rw [Function.update_of_ne hj]
      simp only [Function.update_of_ne hj]
      exact h.clients j
  · exact h.got_update (hidle.trans_ne (by decide)) (by decide)

theorem serverRcv (h : Refines C s ph) {m : ServerMsg} {q : List ServerMsg}
    (hserver : s.server = .msgrcv)
    (hrcv : receive ServerMsg.pid serverPid s.queue = some (m, q)) :
    ∃ i, ph i = .requested ∧ m = C.request i ∧ Refines C
      { s with queue := q, server := .msgsnd m.respond, taken := s.taken ++ [m] }
      (Function.update ph i .held) := by
  have hq := coe_of_receive hrcv
  -- the message is the request of some conversation
  have hmem : m ∈ ∑ i, C.queued i (ph i) := by
    rw [← h.queue, hq]
    exact Multiset.mem_cons_self m _
  obtain ⟨i, hi⟩ := exists_mem_of_mem_sum hmem
  obtain ⟨hreq, rfl⟩ := C.eq_request_of_mem hi (type_of_receive hrcv)
  have hqueue := h.queue_update hreq .held
  have htaken := h.taken_update hreq .held
  refine ⟨i, hreq, rfl, ?_, ?_, ?_, Or.inr ⟨i, rfl⟩, ?_, ?_⟩
  · change _ + {C.request i} = _ + (0 : Multiset ServerMsg) at hqueue
    rw [add_zero, hq, ← Multiset.singleton_add, add_comm] at hqueue
    exact (add_left_cancel hqueue).symm
  · change _ + (0 : Multiset ServerMsg) = _ + {C.request i} at htaken
    rw [add_zero] at htaken
    rw [htaken, coe_concat, add_comm, Multiset.singleton_add]
  · intro j
    by_cases hj : j = i
    · rw [hj, Function.update_self]
      exact iff_of_true rfl rfl
    · rw [Function.update_of_ne hj, h.held j, hserver]
      refine iff_of_false (by simp) fun heq ↦ hj ?_
      exact (C.echo_inj.mp (ServerHndl.msgsnd.inj heq)).symm
  · intro j
    rw [update_phase_iff (hreq.trans_ne (by decide)) (by decide)]
    exact h.clients j
  · exact h.got_update (hreq.trans_ne (by decide)) (by decide)

theorem serverSnd (h : Refines C s ph) {m : ServerMsg} (hserver : s.server = .msgsnd m) :
    ∃ i, ph i = .held ∧ m = C.echo i ∧ Refines C
      { s with queue := s.queue ++ [m], server := .msgrcv } (Function.update ph i .answered) := by
  obtain ⟨i, hi⟩ : ∃ i, s.server = .msgsnd (C.echo i) :=
    h.server.resolve_left fun hrcv ↦ (by rw [hserver] at hrcv; cases hrcv)
  obtain rfl := ServerHndl.msgsnd.inj (hserver.symm.trans hi)
  have hheld : ph i = .held := (h.held i).mpr hi
  have hqueue := h.queue_update hheld .answered
  have htaken := h.taken_update hheld .answered
  refine ⟨i, hheld, rfl, ?_, ?_, ?_, Or.inl rfl, ?_, ?_⟩
  · change _ + (0 : Multiset ServerMsg) = _ + {C.echo i} at hqueue
    rw [add_zero] at hqueue
    rw [hqueue, coe_concat, add_comm, Multiset.singleton_add]
  · exact (add_right_cancel htaken).symm
  · intro j
    -- only this conversation was with the server
    refine iff_of_false ?_ (by simp)
    intro hj
    by_cases hji : j = i
    · rw [hji, Function.update_self] at hj
      cases hj
    · rw [Function.update_of_ne hji, h.held j, hi] at hj
      exact hji (C.echo_inj.mp (ServerHndl.msgsnd.inj hj)).symm
  · intro j
    rw [update_phase_iff (hheld.trans_ne (by decide)) (by decide)]
    exact h.clients j
  · exact h.got_update (hheld.trans_ne (by decide)) (by decide)

theorem clientRcv (h : Refines C s ph) {i : ι} {m : ServerMsg} {q : List ServerMsg}
    (hrcv : receive ServerMsg.pid (C.clnPid i) s.queue = some (m, q)) :
    ph i = .answered ∧ m = C.echo i ∧ Refines C
      { s with queue := q, got := Function.update s.got i (s.got i ++ [m]) }
      (Function.update ph i .done) := by
  have hq := coe_of_receive hrcv
  have hmem : m ∈ ∑ i, C.queued i (ph i) := by
    rw [← h.queue, hq]
    exact Multiset.mem_cons_self m _
  obtain ⟨j, hj⟩ := exists_mem_of_mem_sum hmem
  obtain ⟨rfl, hans, rfl⟩ := C.eq_echo_of_mem hj (type_of_receive hrcv)
  have hqueue := h.queue_update hans .done
  have htaken := h.taken_update hans .done
  refine ⟨hans, rfl, ?_, ?_, ?_, h.server, ?_, ?_⟩
  · change _ + {C.echo j} = _ + (0 : Multiset ServerMsg) at hqueue
    rw [add_zero, hq, ← Multiset.singleton_add, add_comm] at hqueue
    exact (add_left_cancel hqueue).symm
  · exact (add_right_cancel htaken).symm
  · intro k
    rw [update_phase_iff (hans.trans_ne (by decide)) (by decide)]
    exact h.held k
  · intro k
    rw [update_phase_iff (hans.trans_ne (by decide)) (by decide)]
    exact h.clients k
  · intro k
    by_cases hk : k = j
    · rw [hk, Function.update_self, if_pos rfl]
      simp only [Function.update_self]
      rw [h.got j, if_neg (hans.trans_ne (by decide)), List.nil_append]
    · rw [Function.update_of_ne hk]
      simp only [Function.update_of_ne hk]
      exact h.got k

/-- **Each step advances one conversation.** -/
theorem move (h : Refines C s ph) (hmove : Move C cap s e t) :
    ∃ i, ph i ≠ .done ∧ Refines C t (Function.update ph i (ph i).next) := by
  cases hmove with
  | @clientSnd i hi _ =>
    obtain ⟨hidle, ht⟩ := h.clientSnd hi
    exact ⟨i, by rw [hidle]; decide, by rwa [hidle]⟩
  | serverRcv hserver hrcv =>
    obtain ⟨i, hreq, -, ht⟩ := h.serverRcv hserver hrcv
    exact ⟨i, by rw [hreq]; decide, by rwa [hreq]⟩
  | serverSnd hserver _ =>
    obtain ⟨i, hheld, -, ht⟩ := h.serverSnd hserver
    exact ⟨i, by rw [hheld]; decide, by rwa [hheld]⟩
  | @clientRcv i m q _ hrcv =>
    obtain ⟨hans, -, ht⟩ := h.clientRcv hrcv
    exact ⟨i, by rw [hans]; decide, by rwa [hans]⟩

theorem run {es : List (Event ι)} (h : Refines C s ph) (hrun : Run (Step C cap) s es t) :
    ∃ ph', Refines C t ph' ∧ ∑ i, (ph' i).rank = (∑ i, (ph i).rank) + es.length := by
  induction hrun generalizing ph with
  | nil s => exact ⟨ph, h, rfl⟩
  | @cons s u t e es hstep _ ih =>
    obtain ⟨i, hi, hu⟩ := h.move (step_iff_move C |>.mp hstep)
    obtain ⟨ph', ht, hrank⟩ := ih hu
    have hsum := sum_threads_update (fun _ ↦ Phase.rank) ph i (ph i).next
    rw [Phase.rank_next hi] at hsum
    exact ⟨ph', ht, by rw [hrank, List.length_cons]; omega⟩

/-! ### What the phases say about one client -/

omit [DecidableEq ι]

theorem count_request_queue (h : Refines C s ph) (i : ι) :
    s.queue.count (C.request i) = if ph i = .requested then 1 else 0 := by
  have hother : ∀ j, j ≠ i → C.request i ∉ C.queued j (ph j) := fun j hj hm ↦
    hj (C.request_inj.mp (C.eq_request_of_mem hm rfl).2).symm
  rw [← Multiset.coe_count, h.queue, count_sum_of_owner i hother]
  cases ph i with
  | requested => exact Multiset.count_singleton_self _
  | answered =>
    apply Multiset.count_eq_zero.mpr
    simpa [Clients.queued] using C.request_ne_echo i i
  | _ => rfl

theorem count_echo_queue (h : Refines C s ph) (i : ι) :
    s.queue.count (C.echo i) = if ph i = .answered then 1 else 0 := by
  have hother : ∀ j, j ≠ i → C.echo i ∉ C.queued j (ph j) := fun j hj hm ↦
    hj (C.eq_echo_of_mem hm (C.pid_echo i)).1
  rw [← Multiset.coe_count, h.queue, count_sum_of_owner i hother]
  cases ph i with
  | requested =>
    apply Multiset.count_eq_zero.mpr
    simpa [Clients.queued] using (C.request_ne_echo i i).symm
  | answered => exact Multiset.count_singleton_self _
  | _ => rfl

theorem count_request_taken (h : Refines C s ph) (i : ι) :
    s.taken.count (C.request i)
      = if ph i = .idle ∨ ph i = .requested then 0 else 1 := by
  have hmem : ∀ {j : ι} {p : Phase} {m : ServerMsg}, m ∈ C.takenOf j p → m = C.request j := by
    intro j p m hm
    cases p with
    | idle | requested => exact absurd hm (Multiset.notMem_zero m)
    | _ => exact Multiset.mem_singleton.mp hm
  have hother : ∀ j, j ≠ i → C.request i ∉ C.takenOf j (ph j) := fun j hj hm ↦
    hj (C.request_inj.mp (hmem hm)).symm
  rw [← Multiset.coe_count, h.taken, count_sum_of_owner i hother]
  cases ph i with
  | idle | requested => rfl
  | _ => exact Multiset.count_singleton_self _

theorem exists_request_of_taken (h : Refines C s ph) {m : ServerMsg} (hm : m ∈ s.taken) :
    ∃ i, m = C.request i := by
  have hm' : m ∈ ∑ i, C.takenOf i (ph i) := by
    rw [← h.taken]
    exact hm
  obtain ⟨i, hi⟩ := exists_mem_of_mem_sum hm'
  cases hp : ph i with
  | idle | requested =>
    rw [hp] at hi
    exact absurd hi (Multiset.notMem_zero m)
  | held | answered | done =>
    rw [hp] at hi
    exact ⟨i, Multiset.mem_singleton.mp hi⟩

end Refines

/-! ## Delivery -/

/-- The client's message is accounted for: sent, it is in the queue or was taken once; taken, its
one response is with the server, in the queue, or with the client; the response differs in its type
alone, which is the process id in the message; and the client has nothing else. -/
structure Accounted (C : Clients ι) (s : State ι) (i : ι) : Prop where
  sent : s.queue.count (C.request i) + s.taken.count (C.request i)
    = if s.clients i = .msgsnd then 0 else 1
  answered : s.taken.count (C.request i)
    = (if s.server = .msgsnd (C.echo i) then 1 else 0) + s.queue.count (C.echo i)
      + (s.got i).count (C.echo i)
  copy : C.echo i = { C.request i with pid := (C.request i).dataPid }
  own : ∀ m ∈ s.got i, m = C.echo i

omit [DecidableEq ι] in
theorem Refines.accounted (h : Refines C s ph) (i : ι) : Accounted C s i := by
  have hclient := h.clients i
  have hheld := h.held i
  constructor
  · rw [h.count_request_queue, h.count_request_taken, if_congr hclient rfl rfl]
    cases ph i <;> decide
  · rw [h.count_request_taken, h.count_echo_queue, if_congr hheld.symm rfl rfl, h.got i]
    cases ph i <;> simp
  · rfl
  · intro m hm
    rw [h.got i] at hm
    split_ifs at hm
    · exact List.mem_singleton.mp hm
    · exact absurd hm List.not_mem_nil

theorem Refines.done_of_stuck (h : Refines C s ph) (hstuck : ∀ e t, ¬Step C ⊤ s e t) (i : ι) :
    ph i = .done := by
  have hroom : ¬s.Full ⊤ := not_le.mpr (ENat.natCast_lt_top _)
  have hserver : s.server = .msgrcv := by
    cases hs : s.server with
    | msgrcv => rfl
    | msgsnd m => exact absurd ((step_iff_move C).mpr (.serverSnd hs hroom)) (hstuck _ _)
  cases hi : ph i with
  | idle =>
    have hsnd := (h.clients i).mpr hi
    exact absurd ((step_iff_move C).mpr (.clientSnd hsnd hroom)) (hstuck _ _)
  | requested =>
    -- the server could take the request
    have hcount := h.count_request_queue i
    rw [if_pos hi] at hcount
    obtain ⟨m, q, hrcv⟩ := exists_receive ServerMsg.pid
      (List.count_pos_iff.mp (hcount.symm ▸ one_pos)) (show (C.request i).pid = serverPid from rfl)
    exact absurd ((step_iff_move C).mpr (.serverRcv hserver hrcv)) (hstuck _ _)
  | held =>
    have hs := (h.held i).mp hi
    rw [hserver] at hs
    cases hs
  | answered =>
    -- the client could take the response
    have hcount := h.count_echo_queue i
    rw [if_pos hi] at hcount
    obtain ⟨m, q, hrcv⟩ := exists_receive ServerMsg.pid
      (List.count_pos_iff.mp (hcount.symm ▸ one_pos)) (C.pid_echo i)
    have hclient : s.clients i = .msgrcv := by
      cases hc : s.clients i with
      | msgrcv => rfl
      | msgsnd =>
        have hidle := (h.clients i).mp hc
        rw [hi] at hidle
        cases hidle
    exact absurd ((step_iff_move C).mpr (.clientRcv hclient hrcv)) (hstuck _ _)
  | done => rfl

/-- **Every event is echoed once, to its sender.** In every run every client's message is accounted
for, and the server takes nothing else. No run has more than four calls for each client, and where
no call can be made any more, every message was taken once and every client has its own response and
nothing else. -/
theorem echoed_once (C : Clients ι) {es : List (Event ι)} {s : State ι}
    (hrun : Run (Step C ⊤) State.initial es s) :
    (∀ i, Accounted C s i) ∧ (∀ m ∈ s.taken, ∃ i, m = C.request i) ∧
      es.length ≤ 4 * Fintype.card ι ∧
      ((∀ e t, ¬Step C ⊤ s e t) → ∀ i, s.taken.count (C.request i) = 1 ∧ s.got i = [C.echo i]) := by
  obtain ⟨ph, hph, hrank⟩ := refines_initial.run hrun
  refine ⟨hph.accounted, fun m hm ↦ hph.exists_request_of_taken hm, ?_, ?_⟩
  · have hle := Finset.sum_le_card_nsmul Finset.univ (fun i ↦ (ph i).rank) 4
      fun i _ ↦ (ph i).rank_le
    have hzero : ∑ _i : ι, Phase.idle.rank = 0 := Finset.sum_eq_zero fun _ _ ↦ rfl
    rw [smul_eq_mul, Finset.card_univ] at hle
    omega
  · intro hstuck i
    have hdone := hph.done_of_stuck hstuck i
    rw [hph.count_request_taken, hph.got i, hdone]
    exact ⟨rfl, rfl⟩

/-- Clients with these process ids, and zeros on the stack. -/
def clientsOf {n : ℕ} (pids : Fin n → ℕ) (hpids : Function.Injective pids) (hle : ∀ i, 2 ≤ pids i) :
    Clients (Fin n) where
  clnPid := pids
  clnName := fun _ ↦ List.replicate maxNameSize 0
  srvMsg := fun _ ↦ ⟨0, .connected, fun _ ↦ List.replicate 256 0, 0⟩
  injective := hpids
  two_le := hle
  length_clnName := fun _ ↦ List.length_replicate

/-- Two clients. -/
def twoClients : Clients (Fin 2) := clientsOf ![7, 8] (by decide) (by decide)

theorem echoed_once_two :
    ∃ s, Run (Step twoClients ⊤) State.initial [.clientSnd 0, .clientSnd 1, .serverRcv, .serverSnd,
      .serverRcv, .clientRcv 0] s ∧ (∀ i, Accounted twoClients s i) ∧
        (∀ m ∈ s.taken, ∃ i, m = twoClients.request i) := by
  have hsome : (List.foldlM (exec twoClients ⊤) State.initial [.clientSnd 0, .clientSnd 1,
      .serverRcv, .serverSnd, .serverRcv, .clientRcv 0]).isSome = true := by
    decide
  obtain ⟨s, -, hrun⟩ := exists_run_of_isSome (exec twoClients ⊤) hsome
  obtain ⟨haccounted, htaken, -⟩ := echoed_once twoClients hrun
  exact ⟨s, hrun, haccounted, htaken⟩

end QueueChat

end AllProjects
