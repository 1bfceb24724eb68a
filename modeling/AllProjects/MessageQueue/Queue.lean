import Mathlib

/-!
# Message queues with types

A System V message queue keeps messages in the order in which they were sent. A receiver asks for a
type and takes the oldest message of that type, whatever lies before it. Receivers of different
types therefore do not disturb each other, and a protocol that wants to address one of many
receivers over one queue does it through the type.

The order matters among messages of one type only. Arguments that count messages use the queue as a
multiset, to which a receipt is the removal of one element.
-/

namespace AllProjects

namespace MessageQueue

variable {μ : Type*} {type : μ → ℕ} {t : ℕ} {q q' : List μ} {m : μ}

/-- `msgrcv`: the oldest message of type `t`, and what it leaves. -/
def receive (type : μ → ℕ) (t : ℕ) : List μ → Option (μ × List μ)
  | [] => none
  | m :: q => if type m = t then some (m, q) else (receive type t q).map fun p ↦ (p.1, m :: p.2)

theorem receive_cons_of_eq (h : type m = t) : receive type t (m :: q) = some (m, q) := if_pos h

/-- **A receipt takes one message of its type** and leaves the others in their order. -/
theorem exists_of_receive (h : receive type t q = some (m, q')) :
    type m = t ∧ ∃ before after, q = before ++ m :: after ∧ q' = before ++ after ∧
      ∀ x ∈ before, type x ≠ t := by
  induction q generalizing m q' with
  | nil => cases h
  | cons x q ih =>
    rw [receive] at h
    by_cases hx : type x = t
    · rw [if_pos hx] at h
      cases h
      exact ⟨hx, [], q, rfl, rfl, fun y hy ↦ absurd hy List.not_mem_nil⟩
    · rw [if_neg hx] at h
      obtain ⟨⟨m', rest⟩, hrest, heq⟩ := Option.map_eq_some_iff.mp h
      cases heq
      obtain ⟨hm, before, after, rfl, rfl, hbefore⟩ := ih hrest
      refine ⟨hm, x :: before, after, rfl, rfl, ?_⟩
      intro y hy
      rcases List.mem_cons.mp hy with rfl | hy
      · exact hx
      · exact hbefore y hy

theorem coe_of_receive (h : receive type t q = some (m, q')) :
    (q : Multiset μ) = m ::ₘ (q' : Multiset μ) := by
  obtain ⟨-, before, after, rfl, rfl, -⟩ := exists_of_receive h
  exact Multiset.coe_eq_coe.mpr List.perm_middle

theorem type_of_receive (h : receive type t q = some (m, q')) : type m = t :=
  (exists_of_receive h).1

/-- A receiver waits exactly when there is no message for it. -/
theorem receive_eq_none_iff : receive type t q = none ↔ ∀ m ∈ q, type m ≠ t := by
  induction q with
  | nil => exact ⟨fun _ m hm ↦ absurd hm List.not_mem_nil, fun _ ↦ rfl⟩
  | cons x q ih =>
    rw [receive]
    by_cases hx : type x = t
    · rw [if_pos hx]
      exact iff_of_false (Option.some_ne_none _) fun h ↦ h x List.mem_cons_self hx
    · rw [if_neg hx, Option.map_eq_none_iff, ih, List.forall_mem_cons]
      exact (and_iff_right hx).symm

theorem exists_receive (type : μ → ℕ) (hm : m ∈ q) (ht : type m = t) :
    ∃ m' q', receive type t q = some (m', q') := by
  have hne : receive type t q ≠ none := fun h ↦ receive_eq_none_iff.mp h m hm ht
  obtain ⟨p, hp⟩ := Option.ne_none_iff_exists'.mp hne
  exact ⟨p.1, p.2, hp⟩

theorem coe_concat (q : List μ) (m : μ) :
    ((q ++ [m] : List μ) : Multiset μ) = m ::ₘ (q : Multiset μ) :=
  Multiset.coe_eq_coe.mpr (List.perm_append_singleton m q)

/-! ## Messages with owners -/

section Owners

variable {ι : Type*} [Fintype ι] {f : ι → Multiset μ}

theorem exists_mem_of_mem_sum (h : m ∈ ∑ i, f i) : ∃ i, m ∈ f i := by
  obtain ⟨i, -, hi⟩ := Multiset.mem_sum.mp h
  exact ⟨i, hi⟩

theorem count_sum_of_owner [DecidableEq μ] (i : ι) (h : ∀ j, j ≠ i → m ∉ f j) :
    (∑ j, f j).count m = (f i).count m := by
  rw [Multiset.count_sum', Finset.sum_eq_single i]
  · exact fun j _ hj ↦ Multiset.count_eq_zero.mpr (h j hj)
  · exact fun hi ↦ absurd (Finset.mem_univ i) hi

end Owners

end MessageQueue

end AllProjects
