import Mathlib

/-!
# Loops with fuel

A loop need not end. It is run with a bound on the number of its rounds, and comes to nothing when
the bound is reached. What a program `Writes` is what it comes to from some bound on; a program that
comes to nothing for every bound does not terminate.

Loops are those of C: the counter is set to a next value after each round, as long as a condition on
it holds. A loop whose counter goes through a range ends, and a loop whose counter does not get out
of a set in which the condition holds never ends.
-/

namespace AllProjects

variable {α β ω : Type} {σ : Type*}

/-! ## Programs with fuel -/

/-- What the program comes to with enough fuel. -/
def Writes (p : ℕ → Option α) (a : α) : Prop := ∃ n, ∀ fuel, n ≤ fuel → p fuel = some a

theorem writes_some (a : α) : Writes (fun _ ↦ some a) a := ⟨0, fun _ _ ↦ rfl⟩

theorem Writes.bind {p : ℕ → Option α} {q : ℕ → α → Option β} {a : α} {b : β} (hp : Writes p a)
    (hq : Writes (fun fuel ↦ q fuel a) b) : Writes (fun fuel ↦ p fuel >>= q fuel) b := by
  obtain ⟨n, hn⟩ := hp
  obtain ⟨k, hk⟩ := hq
  refine ⟨max n k, ?_⟩
  intro fuel hfuel
  dsimp only
  rw [hn fuel (le_of_max_le_left hfuel)]
  exact hk fuel (le_of_max_le_right hfuel)

theorem Writes.not_none {p : ℕ → Option α} {a : α} (h : Writes p a) : ¬ ∀ fuel, p fuel = none := by
  obtain ⟨n, hn⟩ := h
  intro hnone
  exact Option.some_ne_none a ((hn n le_rfl).symm.trans (hnone n))

/-! ## Loops -/

/-- `for (; cond; i = next(i)) body`, with what the rounds write. -/
def forLoop (next : σ → σ) (cond : σ → Bool) (body : σ → Option (List ω)) :
    ℕ → σ → Option (List ω)
  | 0, _ => none
  | fuel + 1, i =>
    if cond i then do
      let out ← body i
      let rest ← forLoop next cond body fuel (next i)
      some (out ++ rest)
    else some []

/-- **A loop that does not end.** The counter stays in a set in which the condition holds. -/
theorem forLoop_eq_none {next : σ → σ} {cond : σ → Bool} {body : σ → Option (List ω)} {P : σ → Prop}
    (hstay : ∀ i, P i → cond i = true ∧ P (next i)) {i : σ} (hi : P i) (fuel : ℕ) :
    forLoop next cond body fuel i = none := by
  induction fuel generalizing i with
  | zero => rfl
  | succ fuel ih =>
    obtain ⟨hcond, hnext⟩ := hstay i hi
    rw [forLoop, if_pos hcond, ih hnext]
    cases body i <;> rfl

theorem writes_forLoop {next : ℕ → ℕ} {cond : ℕ → Bool} {body : ℕ → ℕ → Option (List ω)}
    {out : ℕ → List ω} {a n : ℕ} (hround : ∀ i, a ≤ i → i < a + n →
      cond i = true ∧ next i = i + 1 ∧ Writes (fun fuel ↦ body fuel i) (out i))
    (hend : cond (a + n) = false) :
    Writes (fun fuel ↦ forLoop next cond (body fuel) fuel a) ((List.range' a n).flatMap out) := by
  -- the fuel of the rounds stays, that of the loop gets less
  suffices h : ∃ k, ∀ fuel fuel', k ≤ fuel → k ≤ fuel' →
      forLoop next cond (body fuel) fuel' a = some ((List.range' a n).flatMap out) by
    obtain ⟨k, hk⟩ := h
    exact ⟨k, fun fuel hfuel ↦ hk fuel fuel hfuel hfuel⟩
  induction n generalizing a with
  | zero =>
    refine ⟨1, ?_⟩
    intro fuel fuel' _ hfuel'
    obtain ⟨fuel', rfl⟩ := Nat.exists_eq_add_of_le' hfuel'
    rw [Nat.add_zero] at hend
    rw [forLoop, hend]
    rfl
  | succ n ih =>
    obtain ⟨hcond, hnext, k, hk⟩ := hround a le_rfl (by omega)
    obtain ⟨k', hk'⟩ := ih (a := a + 1) (fun i hi hlt ↦ hround i (by omega) (by omega))
      (by rwa [Nat.add_assoc, Nat.add_comm 1])
    refine ⟨max k (k' + 1), ?_⟩
    intro fuel fuel' hfuel hfuel'
    have hbody : body fuel a = some (out a) := hk fuel (by omega)
    obtain ⟨fuel', rfl⟩ := Nat.exists_eq_add_of_le' (show 1 ≤ fuel' by omega)
    rw [forLoop, if_pos hcond, hbody, hnext, hk' fuel fuel' (by omega) (by omega),
      List.range'_succ, List.flatMap_cons]
    rfl

end AllProjects
