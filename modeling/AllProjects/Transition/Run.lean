import AllProjects.Memory.Bytes

/-!
# Runs of a labelled transition relation

A run is a finite sequence of labelled steps. The rule every safety argument uses is stated once:
what one step preserves, a whole run preserves. Its relative form carries a condition on the
labels, for properties that hold as long as the environment keeps to some discipline.

Programs whose operations are partial functions are run by `execAll`, which stops at the first
fault; `run_of_execAll` reads such an execution as a run.

In a system of threads a step moves one thread. Quantities that are summed over the threads then
change by that thread's part, which is all that counting arguments need to know.
-/

namespace AllProjects

section Run

variable {σ ε : Type*} {step : σ → ε → σ → Prop}

/-- `Run step s es t`: the events `es` lead from `s` to `t`, one step each. -/
inductive Run (step : σ → ε → σ → Prop) : σ → List ε → σ → Prop
  | nil (s : σ) : Run step s [] s
  | cons {s t u : σ} {e : ε} {es : List ε} : step s e t → Run step t es u → Run step s (e :: es) u

namespace Run

/-- **The invariant rule.** Events outside the discipline `P` are excluded by hypothesis. -/
theorem preserves {I : σ → Prop} {P : ε → Prop}
    (hstep : ∀ s e t, I s → P e → step s e t → I t) {s t : σ} {es : List ε}
    (hrun : Run step s es t) (hP : ∀ e ∈ es, P e) (hs : I s) : I t := by
  induction hrun with
  | nil s => exact hs
  | cons h _ ih =>
    apply ih
    · intro e he
      exact hP e (List.mem_cons_of_mem _ he)
    · exact hstep _ _ _ hs (hP _ List.mem_cons_self) h

theorem invariant {I : σ → Prop} (hstep : ∀ s e t, I s → step s e t → I t) {s t : σ} {es : List ε}
    (hrun : Run step s es t) (hs : I s) : I t :=
  hrun.preserves (P := fun _ ↦ True) (fun s e t h _ ↦ hstep s e t h) (fun _ _ ↦ trivial) hs

theorem append {s t u : σ} {es fs : List ε} (h : Run step s es t) (h' : Run step t fs u) :
    Run step s (es ++ fs) u := by
  induction h with
  | nil s => exact h'
  | cons hstep _ ih => exact Run.cons hstep (ih h')

theorem single {s t : σ} {e : ε} (h : step s e t) : Run step s [e] t :=
  Run.cons h (Run.nil t)

theorem snoc {s t u : σ} {e : ε} {es : List ε} (h : Run step s es t) (h' : step t e u) :
    Run step s (es ++ [e]) u :=
  h.append (single h')

/-- What holds of every step of a run may be added to the steps. -/
theorem imp {step' : σ → ε → σ → Prop} (hstep : ∀ s e t, step s e t → step' s e t) {s t : σ}
    {es : List ε} (hrun : Run step s es t) : Run step' s es t := by
  induction hrun with
  | nil s => exact Run.nil s
  | cons h _ ih => exact Run.cons (hstep _ _ _ h) ih

theorem imp_of {step' : σ → ε → σ → Prop} {P : ε → Prop}
    (hstep : ∀ s e t, P e → step s e t → step' s e t) {s t : σ} {es : List ε}
    (hrun : Run step s es t) (hP : ∀ e ∈ es, P e) : Run step' s es t := by
  induction hrun with
  | nil s => exact Run.nil s
  | cons h _ ih =>
    apply Run.cons (hstep _ _ _ (hP _ List.mem_cons_self) h)
    apply ih
    intro e he
    exact hP e (List.mem_cons_of_mem _ he)

theorem forall_events {P : ε → Prop} (hstep : ∀ s e t, step s e t → P e) {s t : σ} {es : List ε}
    (hrun : Run step s es t) : ∀ e ∈ es, P e := by
  induction hrun with
  | nil s =>
    intro e he
    exact absurd he List.not_mem_nil
  | cons h _ ih =>
    rw [List.forall_mem_cons]
    exact ⟨hstep _ _ _ h, ih⟩

/-- **Termination.** From states with the invariant steps lower a measure. Then there are at most as
many as the measure says. -/
theorem length_le_of_invariant {I : σ → Prop} {d : σ → ℕ}
    (hstep : ∀ s e t, I s → step s e t → I t ∧ d t < d s) {s t : σ} {es : List ε}
    (hrun : Run step s es t) (hs : I s) : es.length ≤ d s := by
  induction hrun with
  | nil s => exact Nat.zero_le _
  | cons h _ ih =>
    obtain ⟨ht, hlt⟩ := hstep _ _ _ hs h
    exact Nat.succ_le_of_lt ((ih ht).trans_lt hlt)

theorem length_le {d : σ → ℕ} (hstep : ∀ s e t, step s e t → d t < d s) {s t : σ} {es : List ε}
    (hrun : Run step s es t) : es.length ≤ d s :=
  hrun.length_le_of_invariant (I := fun _ ↦ True) (fun s e t _ h ↦ ⟨trivial, hstep s e t h⟩) trivial

theorem exists_loop {s : σ} {es : List ε} (hloop : Run step s es s) (k : ℕ) :
    ∃ fs, Run step s fs s ∧ fs.length = k * es.length := by
  induction k with
  | zero => exact ⟨[], Run.nil s, by rw [List.length_nil, Nat.zero_mul]⟩
  | succ k ih =>
    obtain ⟨fs, hfs, hlen⟩ := ih
    exact ⟨es ++ fs, hloop.append hfs, by rw [List.length_append, hlen, Nat.succ_mul, Nat.add_comm]⟩

/-- **No loops.** Where the length of runs is bounded none of them leads back. -/
theorem eq_nil_of_bounded {s : σ} {es : List ε} {n : ℕ}
    (hbound : ∀ fs t, Run step s fs t → fs.length ≤ n) (hloop : Run step s es s) : es = [] := by
  obtain ⟨fs, hfs, hlen⟩ := exists_loop hloop (n + 1)
  have hle := hbound fs s hfs
  rw [hlen, Nat.succ_mul] at hle
  by_contra hne
  have hpos : 0 < es.length := List.length_pos_of_ne_nil hne
  have hmul : n ≤ n * es.length := Nat.le_mul_of_pos_right n hpos
  omega

/-- What holds at the end of a run, and before a step if it holds after it, holds throughout. -/
theorem imp_back {P : σ → Prop} (hback : ∀ s e t, step s e t → P t → P s) {s t : σ} {es : List ε}
    (hrun : Run step s es t) (ht : P t) : Run (fun s e t ↦ step s e t ∧ P t) s es t ∧ P s := by
  induction hrun with
  | nil s => exact ⟨Run.nil s, ht⟩
  | cons h _ ih =>
    obtain ⟨hrest, hmid⟩ := ih ht
    exact ⟨Run.cons ⟨h, hmid⟩ hrest, hback _ _ _ h hmid⟩

/-- **Properties of all states.** A step from a state with the property `P` leads to one exactly
when it is sound. Then `P` holds throughout a run exactly when all its steps are sound. -/
theorem always_iff_sound {I P : σ → Prop} {sound : σ → ε → Prop}
    (hinv : ∀ s e t, I s → step s e t → I t)
    (hstep : ∀ s e t, I s → P s → step s e t → (P t ↔ sound s e)) {s t : σ} {es : List ε}
    (hs : I s) (hP : P s) :
    Run (fun s e t ↦ step s e t ∧ P t) s es t ↔
      Run (fun s e t ↦ step s e t ∧ sound s e) s es t := by
  constructor
  · intro hrun
    induction hrun with
    | nil s => exact Run.nil s
    | cons h _ ih =>
      exact Run.cons ⟨h.1, (hstep _ _ _ hs hP h.1).mp h.2⟩ (ih (hinv _ _ _ hs h.1) h.2)
  · intro hrun
    induction hrun with
    | nil s => exact Run.nil s
    | cons h _ ih =>
      have hP' := (hstep _ _ _ hs hP h.1).mpr h.2
      exact Run.cons ⟨h.1, hP'⟩ (ih (hinv _ _ _ hs h.1) hP')

/-- **Properties of all steps.** From states with the invariant a step has one property exactly when
it has the other. Then all steps of a run have the one exactly when they all have the other. -/
theorem steps_congr {I : σ → Prop} {P Q : σ → ε → σ → Prop} (hinv : ∀ s e t, I s → step s e t → I t)
    (hcongr : ∀ s e t, I s → step s e t → (P s e t ↔ Q s e t)) {s t : σ} {es : List ε} (hs : I s) :
    Run (fun s e t ↦ step s e t ∧ P s e t) s es t
      ↔ Run (fun s e t ↦ step s e t ∧ Q s e t) s es t := by
  constructor
  · intro hrun
    induction hrun with
    | nil s => exact Run.nil s
    | cons h _ ih =>
      exact Run.cons ⟨h.1, (hcongr _ _ _ hs h.1).mp h.2⟩ (ih (hinv _ _ _ hs h.1))
  · intro hrun
    induction hrun with
    | nil s => exact Run.nil s
    | cons h _ ih =>
      exact Run.cons ⟨h.1, (hcongr _ _ _ hs h.1).mpr h.2⟩ (ih (hinv _ _ _ hs h.1))

section Defects

variable {κ : Type*} [PartialOrder κ] {I : σ → Prop} {sound : σ → ε → Prop} {d : σ → κ}

theorem eq_of_sound (hinv : ∀ s e t, I s → step s e t → I t)
    (hstep : ∀ s e t, I s → step s e t → d s ≤ d t ∧ (d t = d s ↔ sound s e)) {s t : σ}
    {es : List ε} (hrun : Run (fun s e t ↦ step s e t ∧ sound s e) s es t) (hs : I s) :
    d t = d s := by
  induction hrun with
  | nil s => rfl
  | cons h _ ih => exact (ih (hinv _ _ _ hs h.1)).trans ((hstep _ _ _ hs h.1).2.mpr h.2)

/-- **Defects add up.** No step lowers the quantity `d`, and a step keeps it exactly when it is
sound. Then a run keeps it exactly when all its steps are sound. -/
theorem eq_iff_sound (hinv : ∀ s e t, I s → step s e t → I t)
    (hstep : ∀ s e t, I s → step s e t → d s ≤ d t ∧ (d t = d s ↔ sound s e)) {s t : σ}
    {es : List ε} (hrun : Run step s es t) (hs : I s) :
    d t = d s ↔ Run (fun s e t ↦ step s e t ∧ sound s e) s es t := by
  refine ⟨?_, fun hsound ↦ eq_of_sound hinv hstep hsound hs⟩
  intro heq
  have hmono : ∀ {s t : σ} {es : List ε}, Run step s es t → I s → d s ≤ d t := by
    intro s t es hrun
    induction hrun with
    | nil s => exact fun _ ↦ le_rfl
    | cons h _ ih => exact fun hs ↦ (hstep _ _ _ hs h).1.trans (ih (hinv _ _ _ hs h))
  induction hrun with
  | nil s => exact Run.nil s
  | cons h hrest ih =>
    -- the ends agree, so everything between them does
    obtain ⟨hle, hiff⟩ := hstep _ _ _ hs h
    have hmid := hinv _ _ _ hs h
    have hfirst := le_antisymm (heq ▸ hmono hrest hmid) hle
    exact Run.cons ⟨h, hiff.mp hfirst⟩ (ih hmid (heq.trans hfirst.symm))

end Defects

end Run

end Run

section Simulation

variable {σ τ ε α : Type*} {big : σ → ε → σ → Prop} {small : τ → α → τ → Prop} {R : σ → τ → Prop}

/-- **Simulation.** Where every step is matched by a run, which may be empty, so is every run. -/
theorem Run.simulate (hstep : ∀ s e t x, R s x → big s e t → ∃ as y, Run small x as y ∧ R t y)
    {s t : σ} {es : List ε} (hrun : Run big s es t) {x : τ} (h : R s x) :
    ∃ as y, Run small x as y ∧ R t y := by
  induction hrun generalizing x with
  | nil s => exact ⟨[], x, Run.nil x, h⟩
  | cons hfirst _ ih =>
    obtain ⟨as, y, hrun, hy⟩ := hstep _ _ _ _ h hfirst
    obtain ⟨bs, z, hrest, hz⟩ := ih hy
    exact ⟨as ++ bs, z, hrun.append hrest, hz⟩

end Simulation

section Lockstep

variable {σ ε ω : Type*} {f g : σ → ε → σ}

/-- **Two programs in lockstep.** They do the same on an event where they agree, and are seen to
differ where they do not. Then they look alike after every event exactly when they agree on all. -/
theorem lockstep_iff (obs : σ → ω) (agree : σ → ε → Prop)
    (hsame : ∀ s e, agree s e → f s e = g s e)
    (hseen : ∀ s e, obs (f s e) = obs (g s e) → agree s e) {s : σ} {es : List ε} :
    (∀ pre, pre <+: es → obs (pre.foldl f s) = obs (pre.foldl g s))
      ↔ ∀ pre e, pre ++ [e] <+: es → agree (pre.foldl g s) e := by
  induction es generalizing s with
  | nil =>
    refine iff_of_true ?_ ?_
    · intro pre hpre
      rw [List.prefix_nil.mp hpre]
      rfl
    · intro pre e hpre
      exact absurd (List.prefix_nil.mp hpre)
        (List.append_ne_nil_of_right_ne_nil _ (List.cons_ne_nil _ _))
  | cons a es ih =>
    constructor
    · intro hobs
      have hagree : agree s a := hseen s a (hobs [a] (List.prefix_append [a] es))
      intro pre e hpre
      cases pre with
      | nil =>
        obtain ⟨rfl, -⟩ := List.cons_prefix_cons.mp hpre
        exact hagree
      | cons b pre =>
        obtain ⟨rfl, hrest⟩ := List.cons_prefix_cons.mp hpre
        refine ih.mp ?_ pre e hrest
        intro pre' hpre'
        have hnext := hobs (b :: pre') (List.cons_prefix_cons.mpr ⟨rfl, hpre'⟩)
        rwa [List.foldl_cons, List.foldl_cons, hsame s b hagree] at hnext
    · intro hagree pre hpre
      cases pre with
      | nil => rfl
      | cons b pre =>
        obtain ⟨rfl, hrest⟩ := List.cons_prefix_cons.mp hpre
        have hfirst : agree s b := hagree [] b (List.prefix_append [b] es)
        rw [List.foldl_cons, List.foldl_cons, hsame s b hfirst]
        refine ih.mpr ?_ pre hrest
        intro pre' e hpre'
        exact hagree (b :: pre') e (List.cons_prefix_cons.mpr ⟨rfl, hpre'⟩)

end Lockstep

section Writes

variable {σ ε β : Type*} {f : σ → ε → σ} {write : ε → Option β}

theorem foldl_field (field : σ → β)
    (hwrite : ∀ s e, field (f s e) = (write e).getD (field s)) (s : σ)
    (es : List ε) : field (es.foldl f s) = (es.filterMap write).getLast?.getD (field s) := by
  induction es generalizing s with
  | nil => rfl
  | cons e es ih =>
    rw [List.foldl_cons, ih, hwrite, List.filterMap_cons]
    cases write e with
    | none => rfl
    | some b => rw [List.getLast?_cons, Option.getD_some, Option.getD_some]

end Writes

section Threads

variable {ι α M : Type*} [Fintype ι] [DecidableEq ι] [AddCommMonoid M]

/-- **One thread moves.** What it held before is replaced by what it holds then. -/
theorem sum_threads_update (f : ι → α → M) (threads : ι → α) (i : ι) (x : α) :
    (∑ j, f j (Function.update threads i x j)) + f i (threads i)
      = (∑ j, f j (threads j)) + f i x := by
  have hrest : ∑ j ∈ Finset.univ.erase i, f j (Function.update threads i x j)
      = ∑ j ∈ Finset.univ.erase i, f j (threads j) := by
    apply Finset.sum_congr rfl
    intro j hj
    rw [Function.update_of_ne (Finset.ne_of_mem_erase hj)]
  rw [← Finset.add_sum_erase _ _ (Finset.mem_univ i), hrest,
    ← Finset.add_sum_erase _ (fun j ↦ f j (threads j)) (Finset.mem_univ i), Function.update_self]
  abel

end Threads

section Components

variable {ι σ τ ε : Type*} [DecidableEq ι] {step : σ → ε → σ → Prop} {big : τ → ι × ε → τ → Prop}
  {part : τ → ι → σ}

/-- The events of one component. -/
def eventsOf (i : ι) (es : List (ι × ε)) : List ε :=
  es.filterMap fun p ↦ if p.1 = i then some p.2 else none

/-- **What a component sees of a run.** Where each step moves one component and leaves the others,
the steps of a component are a run of it on its own. -/
theorem Run.component (hstep : ∀ s p t, big s p t → step (part s p.1) p.2 (part t p.1))
    (hother : ∀ s p t j, big s p t → j ≠ p.1 → part t j = part s j) {s t : τ} {es : List (ι × ε)}
    (hrun : Run big s es t) (i : ι) : Run step (part s i) (eventsOf i es) (part t i) := by
  induction hrun with
  | nil s => exact Run.nil _
  | @cons s u t p es h _ ih =>
    rw [eventsOf, List.filterMap_cons]
    by_cases hi : p.1 = i
    · rw [if_pos hi]
      exact Run.cons (hi ▸ hstep _ _ _ h) ih
    · rw [if_neg hi]
      rwa [hother _ _ _ i h (Ne.symm hi)] at ih

end Components

section ExecAll

variable {φ : Type*} {σ ε : Type} (f : σ → ε → Except φ σ)

/-- Run a partial operation over a list of events, stopping at the first fault. -/
def execAll : σ → List ε → Except φ σ
  | s, [] => .ok s
  | s, e :: es => f s e >>= fun t ↦ execAll t es

@[simp] theorem execAll_nil (s : σ) : execAll f s [] = .ok s := rfl

theorem execAll_cons (s : σ) (e : ε) (es : List ε) :
    execAll f s (e :: es) = f s e >>= fun t ↦ execAll f t es := rfl

variable {f}

theorem run_of_execAll {s t : σ} {es : List ε} (h : execAll f s es = .ok t) :
    Run (fun s e t ↦ f s e = .ok t) s es t := by
  induction es generalizing s with
  | nil => cases h; exact Run.nil _
  | cons e es ih =>
    obtain ⟨u, hu, hrest⟩ := Except.bind_eq_ok_iff.mp h
    exact Run.cons hu (ih hrest)

theorem run_of_foldlM_ok {s t : σ} {es : List ε} (h : es.foldlM f s = .ok t) :
    Run (fun s e t ↦ f s e = .ok t) s es t := by
  induction es generalizing s with
  | nil => cases h; exact Run.nil _
  | cons e es ih =>
    rw [List.foldlM_cons] at h
    obtain ⟨u, hu, hrest⟩ := Except.bind_eq_ok_iff.mp h
    exact Run.cons hu (ih hrest)

/-- A partial step function, run over a list of events. -/
theorem run_of_foldlM {g : σ → ε → Option σ} {s t : σ} {es : List ε}
    (h : es.foldlM g s = some t) : Run (fun s e t ↦ g s e = some t) s es t := by
  induction es generalizing s with
  | nil => cases h; exact Run.nil _
  | cons e es ih =>
    rw [List.foldlM_cons] at h
    obtain ⟨u, hu, hrest⟩ := Option.bind_eq_some_iff.mp h
    exact Run.cons hu (ih hrest)

/-- A run of a partial step function is the only one with its events. -/
theorem foldlM_of_run {g : σ → ε → Option σ} {s t : σ} {es : List ε}
    (h : Run (fun s e t ↦ g s e = some t) s es t) : es.foldlM g s = some t := by
  induction h with
  | nil s => rfl
  | cons hstep _ ih => rw [List.foldlM_cons, hstep]; exact ih

theorem exists_run_of_isSome (g : σ → ε → Option σ) {s : σ} {es : List ε}
    (h : (es.foldlM g s).isSome = true) :
    ∃ t, es.foldlM g s = some t ∧ Run (fun s e t ↦ g s e = some t) s es t := by
  obtain ⟨t, ht⟩ := Option.isSome_iff_exists.mp h
  exact ⟨t, ht, run_of_foldlM ht⟩

theorem exists_run_of_map {β : Type*} {g : σ → ε → Option σ} {s : σ} {es : List ε} {view : σ → β}
    {b : β} (h : (es.foldlM g s).map view = some b) :
    ∃ t, Run (fun s e t ↦ g s e = some t) s es t ∧ view t = b := by
  obtain ⟨t, ht, hview⟩ := Option.map_eq_some_iff.mp h
  exact ⟨t, run_of_foldlM ht, hview⟩

end ExecAll

end AllProjects
