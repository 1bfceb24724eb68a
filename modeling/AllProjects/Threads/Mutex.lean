import AllProjects.Transition.Run
import Mathlib.Data.Int.ModEq

/-!
# The counter behind a mutex

Every thread takes the mutex, adds one to the global number so many times, by reading it, counting
up and writing it back, and prints the number after it has let go of the mutex. The threads run in
any order and are interrupted between any two of these statements.

The global number is the sum of what the threads have counted so far, where a thread that stands
between reading and writing has the number in its hand. That nobody else is there is what the mutex
is for.

`pthread_join` stores a pointer of eight bytes into each element of `statuses`, an array of `int`s,
and with the last one runs four bytes past it. This store is left out: nothing reads `statuses`.
-/

namespace AllProjects.Mutex

variable {n : ℕ}

/-- Where a thread stands in `pth_func`, with its local variables. -/
inductive Phase
  | unborn
  | lock
  | loop (i : ℕ)
  | increment (i : ℕ) (ln : ℤ)
  | store (i : ℕ) (ln : ℤ)
  | unlock
  | print
  | exited (printed : ℤ)
  deriving DecidableEq

/-- Where `main` stands. -/
inductive Main
  | create (i : ℕ)
  | join (i : ℕ)
  | print
  | exited (printed : ℤ)
  deriving DecidableEq

/-- The global variables, the threads and `main`. -/
structure State (n : ℕ) where
  gn : ℤ
  mtx : Option (Fin n)
  threads : Fin n → Phase
  main : Main

/-- The start of the program. -/
def initial (n : ℕ) : State n := ⟨0, none, fun _ ↦ .unborn, .create 0⟩

/-- `ln++` on an `int`. -/
def incr (ln : ℤ) : ℤ := Int.bmod (ln + 1) (2 ^ 32)

/-- The next statement of a thread, which counts `k` times, or none while it waits. -/
def threadStep (k : ℕ) (s : State n) (t : Fin n) : Option (State n) :=
  match s.threads t with
  | .unborn => none
  | .lock =>
    if s.mtx = none then
      some { s with mtx := some t, threads := Function.update s.threads t (.loop 0) }
    else none
  | .loop i =>
    let next := if i < k then Phase.increment i s.gn else .unlock
    some { s with threads := Function.update s.threads t next }
  | .increment i ln => some { s with threads := Function.update s.threads t (.store i (incr ln)) }
  | .store i ln =>
    some { s with gn := ln, threads := Function.update s.threads t (.loop (i + 1)) }
  | .unlock => some { s with mtx := none, threads := Function.update s.threads t .print }
  | .print => some { s with threads := Function.update s.threads t (.exited s.gn) }
  | .exited _ => none

/-- The next statement of `main`. -/
def mainStep (s : State n) : Option (State n) :=
  match s.main with
  | .create i =>
    if h : i < n then
      some { s with threads := Function.update s.threads ⟨i, h⟩ .lock, main := .create (i + 1) }
    else some { s with main := .join 0 }
  | .join i =>
    if h : i < n then
      match s.threads ⟨i, h⟩ with
      | .exited _ => some { s with main := .join (i + 1) }
      | _ => none
    else some { s with main := .print }
  | .print => some { s with main := .exited s.gn }
  | .exited _ => none

/-- A thread or `main` goes on. -/
def Step (k : ℕ) (s : State n) (e : Option (Fin n)) (s' : State n) : Prop :=
  match e with
  | some t => threadStep k s t = some s'
  | none => mainStep s = some s'

/-! ## What holds between any two statements -/

namespace Phase

/-- A thread between `lock` and `unlock`. -/
def inSection : Phase → Prop
  | loop _ | increment _ _ | store _ _ | unlock => True
  | unborn | lock | print | exited _ => False

/-- A thread that has statements before it. -/
def running : Phase → Prop
  | unborn | exited _ => False
  | lock | loop _ | increment _ _ | store _ _ | unlock | print => True

/-- What a thread has added to the global number. -/
def counted (k : ℕ) : Phase → ℤ
  | unborn | lock => 0
  | loop i | increment i _ | store i _ => i
  | unlock | print | exited _ => k

/-- The local variables of a thread. -/
def Sound (n k : ℕ) (gn : ℤ) : Phase → Prop
  | loop i => i ≤ k
  | increment i ln => i < k ∧ ln = gn
  | store i ln => i < k ∧ ln = gn + 1
  | exited printed => k ≤ printed ∧ printed ≤ n * k
  | unborn | lock | unlock | print => True

/-- The statements a thread has before it. -/
def rank (k : ℕ) : Phase → ℕ
  | unborn | lock => 3 * k + 4
  | loop i => 3 * (k - i) + 3
  | increment i _ => 3 * (k - i) + 2
  | store i _ => 3 * (k - i) + 1
  | unlock => 2
  | print => 1
  | exited _ => 0

theorem counted_nonneg (k : ℕ) (p : Phase) : 0 ≤ p.counted k := by
  cases p <;> exact Int.natCast_nonneg _

theorem Sound.counted_le {k : ℕ} {gn : ℤ} {p : Phase} (h : p.Sound n k gn) : p.counted k ≤ k := by
  cases p with
  | loop i => exact Int.ofNat_le.mpr h
  | increment i ln => exact Int.ofNat_le.mpr (Nat.le_of_lt h.1)
  | store i ln => exact Int.ofNat_le.mpr (Nat.le_of_lt h.1)
  | unborn | lock => exact Int.natCast_nonneg k
  | unlock | print | exited _ => exact le_rfl

theorem Sound.congr {k : ℕ} {gn gn' : ℤ} {p : Phase} (h : p.Sound n k gn) (hp : ¬ p.inSection) :
    p.Sound n k gn' := by
  cases p with
  | loop i | increment i ln | store i ln | unlock => exact absurd trivial hp
  | unborn | lock | print | exited _ => exact h

end Phase

/-- `main` has created and joined the threads up to its counter. -/
def Main.Sound (k : ℕ) (threads : Fin n → Phase) : Main → Prop
  | .create i => i ≤ n ∧ ∀ t, threads t = .unborn ↔ i ≤ t.val
  | .join i => i ≤ n ∧ (∀ t, threads t ≠ .unborn) ∧ ∀ t, t.val < i → ∃ v, threads t = .exited v
  | .print => ∀ t, ∃ v, threads t = .exited v
  | .exited printed => (∀ t, ∃ v, threads t = .exited v) ∧ printed = n * k

/-- What holds between any two statements. -/
structure Inv (k : ℕ) (s : State n) : Prop where
  owner : ∀ t, (s.threads t).inSection ↔ s.mtx = some t
  sound : ∀ t, (s.threads t).Sound n k s.gn
  gn_eq : s.gn = ∑ t, (s.threads t).counted k
  main : s.main.Sound k s.threads

theorem inv_initial (n k : ℕ) : Inv k (initial n) where
  owner := fun t ↦ ⟨False.elim, fun h ↦ by cases h⟩
  sound := fun t ↦ trivial
  gn_eq := (Finset.sum_eq_zero fun t _ ↦ rfl).symm
  main := ⟨Nat.zero_le n, fun t ↦ ⟨fun _ ↦ Nat.zero_le _, fun _ ↦ rfl⟩⟩

variable {k : ℕ} {s s' : State n} {t : Fin n}

theorem Inv.gn_add_le (h : Inv k s) (t : Fin n) : s.gn + (k - (s.threads t).counted k) ≤ n * k := by
  have hall : ∑ u : Fin n, ((k : ℤ) - (s.threads u).counted k) = n * k - s.gn := by
    rw [Finset.sum_sub_distrib, ← h.gn_eq, Finset.sum_const, Finset.card_univ, Fintype.card_fin,
      nsmul_eq_mul]
  have hone :
      (k : ℤ) - (s.threads t).counted k ≤ ∑ u : Fin n, ((k : ℤ) - (s.threads u).counted k) :=
    Finset.single_le_sum (f := fun u ↦ (k : ℤ) - (s.threads u).counted k)
      (fun u _ ↦ sub_nonneg.mpr (h.sound u).counted_le) (Finset.mem_univ t)
  rw [hall] at hone
  linarith

theorem Inv.counted_le_gn (h : Inv k s) (t : Fin n) : (s.threads t).counted k ≤ s.gn := by
  rw [h.gn_eq]
  exact Finset.single_le_sum (f := fun u ↦ (s.threads u).counted k)
    (fun u _ ↦ (s.threads u).counted_nonneg k) (Finset.mem_univ t)

theorem incr_eq {ln : ℤ} (hlow : 0 ≤ ln) (hhigh : ln + 1 < 2 ^ 31) : incr ln = ln + 1 := by
  apply Int.bmod_eq_of_le
  · omega
  · omega

/-! ## One statement of a thread -/

theorem Main.Sound.update {m : Main} {threads : Fin n → Phase} (h : m.Sound k threads) {x : Phase}
    (hrun : (threads t).running) (hx : x ≠ .unborn) : m.Sound k (Function.update threads t x) := by
  have hborn : threads t ≠ .unborn := by
    intro heq
    rwa [heq] at hrun
  have hother : ∀ u, threads u = .unborn ↔ Function.update threads t x u = .unborn := by
    intro u
    rcases eq_or_ne u t with rfl | hne
    · rw [Function.update_self]
      exact iff_of_false hborn hx
    · rw [Function.update_of_ne hne]
  have hdone : ∀ u, (∃ v, threads u = .exited v) →
      ∃ v, Function.update threads t x u = .exited v := by
    rintro u ⟨v, hv⟩
    have hne : u ≠ t := by
      rintro rfl
      rwa [hv] at hrun
    exact ⟨v, (Function.update_of_ne hne _ _).trans hv⟩
  cases m with
  | create i => exact ⟨h.1, fun u ↦ (hother u).symm.trans (h.2 u)⟩
  | join i =>
    exact ⟨h.1, fun u hu ↦ h.2.1 u ((hother u).mpr hu), fun u hu ↦ hdone u (h.2.2 u hu)⟩
  | print => exact fun u ↦ hdone u (h u)
  | exited printed => exact ⟨fun u ↦ hdone u (h.1 u), h.2⟩

/-- **A thread moves.** It keeps the number in step with what it has counted, the mutex in step with
the section, and touches the number only inside. -/
theorem Inv.move (h : Inv k s) {x : Phase} {gn : ℤ} {mtx : Option (Fin n)}
    (hmtx : ∀ u, u ≠ t → (mtx = some u ↔ s.mtx = some u)) (hin : x.inSection ↔ mtx = some t)
    (hsound : x.Sound n k gn) (hgn : gn = s.gn ∨ s.mtx = some t)
    (hcount : gn + (s.threads t).counted k = s.gn + x.counted k)
    (hrun : (s.threads t).running) (hx : x ≠ .unborn) :
    Inv k { s with gn := gn, mtx := mtx, threads := Function.update s.threads t x } where
  owner := by
    intro u
    dsimp only
    rcases eq_or_ne u t with rfl | hne
    · rw [Function.update_self]
      exact hin
    · rw [Function.update_of_ne hne, hmtx u hne]
      exact h.owner u
  sound := by
    intro u
    dsimp only
    rcases eq_or_ne u t with rfl | hne
    · rw [Function.update_self]
      exact hsound
    · rw [Function.update_of_ne hne]
      rcases hgn with rfl | hown
      · exact h.sound u
      · apply (h.sound u).congr
        rw [h.owner u, hown]
        exact fun heq ↦ hne (Option.some.inj heq).symm
  gn_eq := by
    have hsum := sum_threads_update (fun _ p ↦ Phase.counted k p) s.threads t x
    rw [← h.gn_eq] at hsum
    dsimp only
    linarith
  main := h.main.update hrun hx

theorem Inv.of_thread (h : Inv k s) (hk : n * k < 2 ^ 31) (hstep : threadStep k s t = some s') :
    Inv k s' := by
  have hsound := h.sound t
  have howner := h.owner t
  have hadd := h.gn_add_le t
  have hcounted := h.counted_le_gn t
  rw [threadStep] at hstep
  cases hp : s.threads t with
  | unborn => rw [hp] at hstep; cases hstep
  | exited v => rw [hp] at hstep; cases hstep
  | lock =>
    rw [hp] at hstep
    dsimp only at hstep
    split at hstep
    · rename_i hfree
      cases hstep
      refine h.move (fun u hne ↦ ?_) (iff_of_true trivial rfl) (Nat.zero_le k) (.inl rfl) ?_ ?_
        Phase.noConfusion
      · rw [hfree]
        exact iff_of_false (fun heq ↦ hne (Option.some.inj heq).symm) (Option.some_ne_none u).symm
      · rw [hp]
        rfl
      · rw [hp]
        trivial
    · cases hstep
  | loop i =>
    rw [hp] at hstep hsound howner
    cases hstep
    have hown := howner.mp trivial
    refine h.move (fun u _ ↦ Iff.rfl) ?_ ?_ (.inl rfl) ?_ ?_ ?_
    · split <;> exact iff_of_true trivial hown
    · split
      · exact ⟨‹_›, rfl⟩
      · trivial
    · rw [hp]
      split
      · rfl
      · have hik : i = k := Nat.le_antisymm hsound (Nat.not_lt.mp ‹_›)
        rw [hik]
        rfl
    · rw [hp]
      trivial
    · split <;> exact Phase.noConfusion
  | increment i ln =>
    rw [hp] at hstep hsound howner hadd hcounted
    cases hstep
    obtain ⟨hik, rfl⟩ := hsound
    have hnext : incr s.gn = s.gn + 1 := by
      have hi : ((i : ℤ) : ℤ) < k := Int.ofNat_lt.mpr hik
      have hbound : ((n * k : ℕ) : ℤ) < 2 ^ 31 := by exact_mod_cast hk
      have hzero : (0 : ℤ) ≤ i := Int.natCast_nonneg i
      rw [Nat.cast_mul] at hbound
      rw [Phase.counted] at hadd hcounted
      exact incr_eq (by linarith) (by linarith)
    refine h.move (fun u _ ↦ Iff.rfl) (iff_of_true trivial (howner.mp trivial)) ⟨hik, hnext⟩
      (.inl rfl) ?_ ?_ Phase.noConfusion
    · rw [hp]
      rfl
    · rw [hp]
      trivial
  | store i ln =>
    rw [hp] at hstep hsound howner
    cases hstep
    obtain ⟨hik, rfl⟩ := hsound
    have hown := howner.mp trivial
    refine h.move (fun u _ ↦ Iff.rfl) (iff_of_true trivial hown) hik (.inr hown) ?_ ?_
      Phase.noConfusion
    · rw [hp, Phase.counted, Phase.counted, Nat.cast_succ]
      ring
    · rw [hp]
      trivial
  | unlock =>
    rw [hp] at hstep howner
    cases hstep
    have hown := howner.mp trivial
    refine h.move (fun u hne ↦ ?_) (iff_of_false id (Option.some_ne_none t).symm) trivial (.inl rfl)
      ?_ ?_ Phase.noConfusion
    · rw [hown]
      exact iff_of_false (Option.some_ne_none u).symm fun heq ↦ hne (Option.some.inj heq).symm
    · rw [hp]
      rfl
    · rw [hp]
      trivial
  | print =>
    rw [hp] at hstep howner hadd hcounted
    cases hstep
    have hout : s.mtx ≠ some t := fun heq ↦ howner.mpr heq
    refine h.move (fun u _ ↦ Iff.rfl) (iff_of_false id hout) ⟨hcounted, ?_⟩ (.inl rfl) ?_ ?_
      Phase.noConfusion
    · rw [Phase.counted] at hadd
      linarith
    · rw [hp]
      rfl
    · rw [hp]
      trivial

/-! ## One statement of `main` -/

theorem Inv.of_main (h : Inv k s) (hstep : mainStep s = some s') : Inv k s' := by
  have hmain := h.main
  rw [mainStep] at hstep
  cases hm : s.main with
  | create i =>
    rw [hm] at hstep hmain
    dsimp only at hstep
    obtain ⟨hi, hborn⟩ := hmain
    split at hstep
    · rename_i hlt
      cases hstep
      have hunborn : s.threads ⟨i, hlt⟩ = .unborn := (hborn _).mpr le_rfl
      refine ⟨?_, ?_, ?_, ?_⟩
      · intro u
        dsimp only
        rw [← h.owner u]
        rcases eq_or_ne u ⟨i, hlt⟩ with rfl | hne
        · rw [Function.update_self, hunborn]
          exact Iff.rfl
        · rw [Function.update_of_ne hne]
      · intro u
        dsimp only
        rcases eq_or_ne u ⟨i, hlt⟩ with rfl | hne
        · rw [Function.update_self]
          trivial
        · rw [Function.update_of_ne hne]
          exact h.sound u
      · have hsum := sum_threads_update (fun _ p ↦ Phase.counted k p) s.threads ⟨i, hlt⟩ .lock
        rw [← h.gn_eq, hunborn] at hsum
        exact (add_right_cancel hsum).symm
      · refine ⟨hlt, fun u ↦ ?_⟩
        dsimp only
        rcases eq_or_ne u ⟨i, hlt⟩ with rfl | hne
        · rw [Function.update_self]
          exact iff_of_false Phase.noConfusion (Nat.not_succ_le_self i)
        · rw [Function.update_of_ne hne, hborn u]
          have hval : u.val ≠ i := fun heq ↦ hne (Fin.ext heq)
          omega
    · rename_i hge
      cases hstep
      refine ⟨h.owner, h.sound, h.gn_eq, Nat.zero_le n, fun u hu ↦ ?_, fun u hu ↦ ?_⟩
      · exact hge (Nat.lt_of_le_of_lt ((hborn u).mp hu) u.isLt)
      · exact absurd hu (Nat.not_lt_zero _)
  | join i =>
    rw [hm] at hstep hmain
    dsimp only at hstep
    obtain ⟨hi, hborn, hdone⟩ := hmain
    split at hstep
    · rename_i hlt
      split at hstep
      · rename_i v hv
        cases hstep
        refine ⟨h.owner, h.sound, h.gn_eq, hlt, hborn, fun u hu ↦ ?_⟩
        rcases Nat.lt_succ_iff_lt_or_eq.mp hu with hu | hu
        · exact hdone u hu
        · have hui : u = ⟨i, hlt⟩ := Fin.ext hu
          exact ⟨v, hui ▸ hv⟩
      · cases hstep
    · rename_i hge
      cases hstep
      exact ⟨h.owner, h.sound, h.gn_eq,
        fun u ↦ hdone u (Nat.lt_of_lt_of_le u.isLt (Nat.not_lt.mp hge))⟩
  | print =>
    rw [hm] at hstep hmain
    cases hstep
    refine ⟨h.owner, h.sound, h.gn_eq, hmain, ?_⟩
    have hall : ∀ u, (s.threads u).counted k = k := by
      intro u
      obtain ⟨v, hv⟩ := hmain u
      rw [hv]
      rfl
    rw [h.gn_eq, Finset.sum_congr rfl fun u _ ↦ hall u, Finset.sum_const, Finset.card_univ,
      Fintype.card_fin, nsmul_eq_mul]
  | exited v =>
    rw [hm] at hstep
    cases hstep

theorem Inv.step (hk : n * k < 2 ^ 31) (h : Inv k s) {e : Option (Fin n)} (hstep : Step k s e s') :
    Inv k s' := by
  cases e with
  | some t => exact h.of_thread hk hstep
  | none => exact h.of_main hstep

/-! ## The program comes to its end -/

/-- The statements `main` has before it. -/
def Main.rank (n : ℕ) : Main → ℕ
  | create i => 2 * n - i + 3
  | join i => n - i + 2
  | print => 1
  | exited _ => 0

/-- All statements that are left. -/
def State.rank (k : ℕ) (s : State n) : ℕ := (∑ t, (s.threads t).rank k) + s.main.rank n

theorem Inv.thread_rank_lt (h : Inv k s) (hstep : threadStep k s t = some s') :
    s'.rank k < s.rank k := by
  have hlt : ∀ {x : Phase}, x.rank k < (s.threads t).rank k →
      (∑ u, (Function.update s.threads t x u).rank k) < ∑ u, (s.threads u).rank k := by
    intro x hx
    have hsum := sum_threads_update (fun _ p ↦ Phase.rank k p) s.threads t x
    omega
  have hsound := h.sound t
  rw [threadStep] at hstep
  rw [State.rank, State.rank]
  cases hp : s.threads t with
  | unborn => rw [hp] at hstep; cases hstep
  | exited v => rw [hp] at hstep; cases hstep
  | lock =>
    rw [hp] at hstep hlt
    dsimp only at hstep
    split at hstep
    · cases hstep
      apply Nat.add_lt_add_right (hlt _)
      rw [Phase.rank, Phase.rank]
      omega
    · cases hstep
  | loop i =>
    rw [hp] at hstep hlt
    cases hstep
    apply Nat.add_lt_add_right (hlt _)
    split
    · rw [Phase.rank, Phase.rank]
      omega
    · rw [Phase.rank, Phase.rank]
      omega
  | increment i ln =>
    rw [hp] at hstep hlt
    cases hstep
    apply Nat.add_lt_add_right (hlt _)
    rw [Phase.rank, Phase.rank]
    omega
  | store i ln =>
    rw [hp] at hstep hlt hsound
    cases hstep
    have hik : i < k := hsound.1
    apply Nat.add_lt_add_right (hlt _)
    rw [Phase.rank, Phase.rank]
    omega
  | unlock =>
    rw [hp] at hstep hlt
    cases hstep
    apply Nat.add_lt_add_right (hlt _)
    rw [Phase.rank, Phase.rank]
    omega
  | print =>
    rw [hp] at hstep hlt
    cases hstep
    apply Nat.add_lt_add_right (hlt _)
    rw [Phase.rank, Phase.rank]
    omega

theorem Inv.main_rank_lt (h : Inv k s) (hstep : mainStep s = some s') :
    s'.rank k < s.rank k := by
  have hmain := h.main
  rw [mainStep] at hstep
  rw [State.rank, State.rank]
  cases hm : s.main with
  | create i =>
    rw [hm] at hstep hmain
    dsimp only at hstep
    split at hstep
    · rename_i hlt
      cases hstep
      have hsum := sum_threads_update (fun _ p ↦ Phase.rank k p) s.threads ⟨i, hlt⟩ .lock
      rw [(hmain.2 ⟨i, hlt⟩).mpr le_rfl, Phase.rank, Phase.rank] at hsum
      dsimp only
      rw [Nat.add_right_cancel hsum, Main.rank, Main.rank]
      omega
    · cases hstep
      have hi : i ≤ n := hmain.1
      apply Nat.add_lt_add_left
      rw [Main.rank, Main.rank]
      omega
  | join i =>
    rw [hm] at hstep
    dsimp only at hstep
    split at hstep
    · split at hstep
      · cases hstep
        apply Nat.add_lt_add_left
        rw [Main.rank, Main.rank]
        omega
      · cases hstep
    · cases hstep
      apply Nat.add_lt_add_left
      rw [Main.rank, Main.rank]
      omega
  | print =>
    rw [hm] at hstep
    cases hstep
    apply Nat.add_lt_add_left
    rw [Main.rank, Main.rank]
    omega
  | exited v =>
    rw [hm] at hstep
    cases hstep

theorem Inv.step_rank_lt (h : Inv k s) {e : Option (Fin n)} (hstep : Step k s e s') :
    s'.rank k < s.rank k := by
  cases e with
  | some t => exact h.thread_rank_lt hstep
  | none => exact h.main_rank_lt hstep

theorem initial_rank (n k : ℕ) : (initial n).rank k = n * (3 * k + 4) + (2 * n + 3) := by
  have hsum : ∑ _t : Fin n, Phase.rank k .unborn = n * (3 * k + 4) := by
    rw [Finset.sum_const, Finset.card_univ, Fintype.card_fin, smul_eq_mul, Phase.rank]
  exact congrArg₂ (· + ·) hsum rfl

/-- A thread that has been created and has not ended goes on, unless another one is inside. -/
theorem Inv.thread_goes_on (h : Inv k s) (hrun : (s.threads t).running)
    (hfree : s.mtx = none ∨ s.mtx = some t) : ∃ s', threadStep k s t = some s' := by
  have howner := h.owner t
  rw [threadStep]
  cases hp : s.threads t with
  | unborn | exited v =>
    rw [hp] at hrun
    exact hrun.elim
  | lock =>
    rw [hp] at howner
    have hnone : s.mtx = none := hfree.resolve_right howner.mpr
    exact ⟨_, if_pos hnone⟩
  | loop i | increment i ln | store i ln | unlock | print => exact ⟨_, rfl⟩

theorem Inv.goes_on (h : Inv k s) (hmain : ∀ v, s.main ≠ .exited v) :
    ∃ e s', Step k s e s' := by
  cases hmtx : s.mtx with
  | some u =>
    have hrun : (s.threads u).running := by
      have hin := (h.owner u).mpr hmtx
      cases hp : s.threads u with
      | loop i | increment i ln | store i ln | unlock => trivial
      | unborn | lock | print | exited v =>
        rw [hp] at hin
        exact hin.elim
    obtain ⟨s', hs'⟩ := h.thread_goes_on hrun (.inr hmtx)
    exact ⟨some u, s', hs'⟩
  | none =>
    have hsound := h.main
    cases hm : s.main with
    | exited v => exact absurd hm (hmain v)
    | print => exact ⟨none, _, by rw [Step, mainStep, hm]⟩
    | create i =>
      by_cases hi : i < n
      · exact ⟨none, _, by rw [Step, mainStep, hm]; exact dif_pos hi⟩
      · exact ⟨none, _, by rw [Step, mainStep, hm]; exact dif_neg hi⟩
    | join i =>
      rw [hm] at hsound
      by_cases hi : i < n
      · by_cases hrun : (s.threads ⟨i, hi⟩).running
        · obtain ⟨s', hs'⟩ := h.thread_goes_on hrun (.inl hmtx)
          exact ⟨some ⟨i, hi⟩, s', hs'⟩
        · cases hp : s.threads ⟨i, hi⟩ with
          | exited v =>
            refine ⟨none, { s with main := .join (i + 1) }, ?_⟩
            rw [Step, mainStep, hm]
            dsimp only
            rw [dif_pos hi, hp]
          | unborn => exact absurd hp (hsound.2.1 _)
          | lock | loop _ | increment _ _ | store _ _ | unlock | print =>
            rw [hp] at hrun
            exact absurd trivial hrun
      · exact ⟨none, _, by rw [Step, mainStep, hm]; exact dif_neg hi⟩

/-! ## Every run -/

/-- **Every count arrives.** However the threads are interrupted, the program makes no more
statements than it has, never stands still before its end, every thread prints a number that
includes all of its own counts, and `main` prints what all threads have counted together. -/
theorem every_count_arrives (hk : n * k < 2 ^ 31) {es : List (Option (Fin n))} {s : State n}
    (hrun : Run (Step k) (initial n) es s) :
    es.length ≤ n * (3 * k + 4) + (2 * n + 3) ∧
      ((∀ v, s.main ≠ .exited v) → ∃ e s', Step k s e s') ∧
      (∀ t v, s.threads t = .exited v → k ≤ v ∧ v ≤ n * k) ∧
      ∀ v, s.main = .exited v → (∀ t, ∃ u, s.threads t = .exited u) ∧ v = n * k := by
  have hinit := inv_initial n k
  have hinv : Inv k s := hrun.invariant (fun _ _ _ h hstep ↦ h.step hk hstep) hinit
  have hlen : es.length ≤ (initial n).rank k :=
    hrun.length_le_of_invariant (fun _ _ _ h hstep ↦ ⟨h.step hk hstep, h.step_rank_lt hstep⟩) hinit
  rw [initial_rank] at hlen
  refine ⟨hlen, hinv.goes_on, fun t v hv ↦ ?_, fun v hv ↦ ?_⟩
  · have hsound := hinv.sound t
    rwa [hv] at hsound
  · have hsound := hinv.main
    rwa [hv] at hsound

/-- The thread that is created first. -/
def first : Fin 2 := ⟨0, Nat.two_pos⟩

/-- The thread that is created after it. -/
def second : Fin 2 := ⟨1, Nat.one_lt_two⟩

/-- Two threads that count to one, the second of which is created while the first is inside. -/
def twoThreads : List (Option (Fin 2)) :=
  [none, some first, some first, none, some first, some first, none, some first, some first,
    some second, some second, some second, some first, some second, some second, none, some second,
    some second, none, none, none]

theorem every_count_arrives_two :
    ∃ s : State 2, Run (Step 1) (initial 2) twoThreads s ∧ s.threads first = .exited 1 ∧
      s.main = .exited 2 ∧ (2 : ℤ) = (2 : ℕ) * (1 : ℕ) := by
  have hrun : ∃ s : State 2, Run (Step 1) (initial 2) twoThreads s ∧ s.threads first = .exited 1 ∧
      s.main = .exited 2 :=
    ⟨_, .cons rfl <| .cons rfl <| .cons rfl <| .cons rfl <| .cons rfl <| .cons rfl <| .cons rfl <|
      .cons rfl <| .cons rfl <| .cons rfl <| .cons rfl <| .cons rfl <| .cons rfl <| .cons rfl <|
      .cons rfl <| .cons rfl <| .cons rfl <| .cons rfl <| .cons rfl <| .cons rfl <| .cons rfl <|
      .nil _, rfl, rfl⟩
  obtain ⟨s, hrun, hfirst, hmain⟩ := hrun
  obtain ⟨-, -, -, hend⟩ := every_count_arrives (by decide) hrun
  exact ⟨s, hrun, hfirst, hmain, (hend 2 hmain).2⟩

end AllProjects.Mutex
