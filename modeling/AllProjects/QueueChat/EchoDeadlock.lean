import AllProjects.QueueChat.Echo

/-!
# When the event queue blocks for good

The server puts its response into the queue from which it took the message, and a client may have
used the room in between. If the queue is then full of other clients' messages, the server waits for
room that only the server can make.

The messages in the queue and the one with the server come from different clients, so this takes one
client more than the queue holds messages. With that many clients it can happen.
-/

namespace AllProjects

namespace QueueChat

open MessageQueue

variable {ι : Type} {C : Clients ι} {cap : ℕ∞} {s t : State ι}

/-- A client waits for room, or for a message that is not there. -/
def State.ClientBlocked (C : Clients ι) (cap : ℕ∞) (s : State ι) (i : ι) : Prop :=
  s.clients i = .msgsnd ∧ s.Full cap ∨
    s.clients i = .msgrcv ∧ ∀ m ∈ s.queue, m.pid ≠ C.clnPid i

instance (i : ι) : Decidable (s.ClientBlocked C cap i) := inferInstanceAs (Decidable (_ ∨ _))

/-- The server waits for room, and every client is blocked. -/
def State.Deadlocked (C : Clients ι) (cap : ℕ∞) (s : State ι) : Prop :=
  s.Full cap ∧ (∃ m, s.server = .msgsnd m) ∧ ∀ i, s.ClientBlocked C cap i

section Bound

variable [Fintype ι] [DecidableEq ι] {ph : ι → Phase}

/-- In a deadlock, more conversations are under way than the queue holds messages. -/
theorem Refines.lt_card_of_deadlocked {cap : ℕ} (h : Refines C s ph)
    (hdead : s.Deadlocked C cap) : cap < Fintype.card ι := by
  obtain ⟨hfull, ⟨m, hm⟩, hblocked⟩ := hdead
  obtain ⟨i, hi⟩ : ∃ i, s.server = .msgsnd (C.echo i) :=
    h.server.resolve_left fun hrcv ↦ (by rw [hm] at hrcv; cases hrcv)
  have hheld : ph i = .held := (h.held i).mpr hi
  -- no client has two messages in the queue and with the server
  have hone : ∀ j, (C.queued j (ph j)).card + (if j = i then 1 else 0) ≤ 1 := by
    intro j
    by_cases hj : j = i
    · rw [hj, hheld, if_pos rfl]
      exact le_rfl
    · rw [if_neg hj]
      cases ph j <;> simp [Clients.queued]
  have hsum := Finset.sum_le_card_nsmul Finset.univ _ 1 fun j _ ↦ hone j
  have hlen := congrArg Multiset.card h.queue
  rw [Multiset.coe_card, Multiset.card_sum] at hlen
  rw [Finset.sum_add_distrib, ← hlen, Finset.sum_ite_eq', if_pos (Finset.mem_univ i),
    Finset.card_univ, smul_eq_mul, mul_one] at hsum
  have hle : cap ≤ s.queue.length := Nat.cast_le.mp hfull
  exact hle.trans_lt hsum

end Bound

/-! ## The way into the deadlock -/

section Reach

variable [DecidableEq ι]

theorem exists_run_clientSnd {cap : ℕ} {is : List ι} (hnodup : is.Nodup)
    (hidle : ∀ i ∈ is, s.clients i = .msgsnd) (hroom : s.queue.length + is.length ≤ cap) :
    ∃ t, Run (Step C cap) s (is.map .clientSnd) t ∧ t.queue = s.queue ++ is.map C.request ∧
      t.server = s.server := by
  induction is generalizing s with
  | nil => exact ⟨s, Run.nil s, (List.append_nil _).symm, rfl⟩
  | cons i is ih =>
    rw [List.nodup_cons] at hnodup
    rw [List.length_cons] at hroom
    have hfull : ¬s.Full cap := fun h ↦ by
      have hle := Nat.cast_le.mp h
      omega
    have hstep := (step_iff_move C).mpr (.clientSnd (hidle i List.mem_cons_self) hfull)
    have hidle' : ∀ j ∈ is, Function.update s.clients i .msgrcv j = .msgsnd := by
      intro j hj
      have hne : j ≠ i := fun heq ↦ hnodup.1 (heq ▸ hj)
      rw [Function.update_of_ne hne]
      exact hidle j (List.mem_cons_of_mem i hj)
    have hroom' : (s.queue ++ [C.request i]).length + is.length ≤ cap := by
      rw [List.length_append, List.length_singleton]
      omega
    obtain ⟨t, hrun, hqueue, hserver⟩ := ih (s := { s with
      queue := s.queue ++ [C.request i]
      clients := Function.update s.clients i .msgrcv }) hnodup.2 hidle' hroom'
    refine ⟨t, Run.cons hstep hrun, ?_, hserver⟩
    rw [hqueue, List.map_cons, List.append_assoc]
    rfl

/-- One client has its message taken, and as many others as the queue holds messages send theirs. -/
theorem exists_run_deadlocked [Fintype ι] (C : Clients ι) {cap : ℕ} (hpos : 1 ≤ cap)
    (hcard : cap < Fintype.card ι) :
    ∃ es t, Run (Step C cap) State.initial es t ∧ t.Deadlocked C cap := by
  obtain ⟨senders, -, hsenders⟩ := Finset.exists_subset_card_eq
    (show cap + 1 ≤ (Finset.univ : Finset ι).card from hcard)
  have hnodup := senders.nodup_toList
  have hlen := senders.length_toList.trans hsenders
  cases hlist : senders.toList with
  | nil => rw [hlist] at hlen; cases hlen
  | cons i is =>
    rw [hlist, List.length_cons, Nat.add_right_cancel_iff] at hlen
    rw [hlist, List.nodup_cons] at hnodup
    -- the first message gets to the server
    have hempty : ¬(State.initial : State ι).Full cap := fun hfull ↦
      absurd (Nat.cast_le.mp hfull) (not_le.mpr hpos)
    have hsnd : Step C cap State.initial (.clientSnd i) _ :=
      (step_iff_move C).mpr (.clientSnd rfl hempty)
    have hrcv : Step C cap { State.initial with
        queue := [C.request i], clients := Function.update State.initial.clients i .msgrcv }
        .serverRcv _ :=
      (step_iff_move C).mpr (.serverRcv rfl (receive_cons_of_eq rfl))
    -- the others fill the queue
    have hidle : ∀ j ∈ is,
        Function.update (State.initial : State ι).clients i .msgrcv j = .msgsnd := by
      intro j hj
      have hne : j ≠ i := fun heq ↦ hnodup.1 (heq ▸ hj)
      rw [Function.update_of_ne hne]
      rfl
    have hroom : 0 + is.length ≤ cap := by rw [hlen, Nat.zero_add]
    obtain ⟨t, hrun, hqueue, hserver⟩ := exists_run_clientSnd (C := C)
      (s := { State.initial with
        server := .msgsnd (C.echo i)
        clients := Function.update State.initial.clients i .msgrcv
        taken := [C.request i] }) hnodup.2 hidle hroom
    have hfull : t.Full cap := by
      rw [State.Full, hqueue, List.length_append, List.length_map, hlen]
      exact Nat.cast_le.mpr (Nat.le_add_left _ _)
    refine ⟨_, t, Run.cons hsnd (Run.cons hrcv hrun), hfull, ⟨_, hserver⟩, ?_⟩
    intro j
    cases hj : t.clients j with
    | msgsnd => exact Or.inl ⟨hj, hfull⟩
    | msgrcv =>
      refine Or.inr ⟨hj, ?_⟩
      intro m hm
      rw [hqueue] at hm
      obtain ⟨k, -, rfl⟩ := List.mem_map.mp hm
      exact (C.clnPid_ne j).symm

end Reach

/-- **The event queue deadlocks exactly when there are more clients than it holds messages.** -/
theorem not_deadlocked_iff [Fintype ι] [DecidableEq ι] (C : Clients ι) {cap : ℕ} (hpos : 1 ≤ cap) :
    (∀ es s, Run (Step C cap) State.initial es s → ¬s.Deadlocked C cap) ↔ Fintype.card ι ≤ cap := by
  constructor
  · intro h
    by_contra hcard
    obtain ⟨es, t, hrun, hdead⟩ := exists_run_deadlocked C hpos (not_le.mp hcard)
    exact h es t hrun hdead
  · intro hcard es s hrun hdead
    obtain ⟨ph, hph, -⟩ := refines_initial.run hrun
    exact absurd (hph.lt_card_of_deadlocked hdead) (not_lt.mpr hcard)

theorem not_deadlocked_iff_two :
    (∀ es s, Run (Step twoClients (2 : ℕ)) State.initial es s →
      ¬s.Deadlocked twoClients (2 : ℕ)) ↔ Fintype.card (Fin 2) ≤ 2 :=
  not_deadlocked_iff twoClients (by decide)

/-- Two clients and room for one message. -/
theorem deadlocked_two_clients :
    ∃ s, Run (Step twoClients 1) State.initial [.clientSnd 0, .serverRcv, .clientSnd 1] s ∧
      s.Deadlocked twoClients 1 := by
  exact ⟨_, run_of_foldlM (g := exec twoClients 1) rfl, by decide, ⟨_, rfl⟩, by decide⟩

end QueueChat

end AllProjects
