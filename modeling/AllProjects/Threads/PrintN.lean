import AllProjects.Transition.Run

/-!
# A buffer for each thread

`print_n` writes its number into a buffer of the calling thread, which it keeps under a key. The
first call makes the key, and the first call of a thread allocates the buffer, which `dest` frees
when the thread ends. The main program calls it with 15, starts the threads, waits for them and
prints its buffer once more. `pthread_create` is assumed to succeed. `pthread_join` stores a pointer
of eight bytes into each element of `statuses`, an array of `int`s which nothing reads; this store
is left out.

No two threads have the same buffer. So what a thread prints is what it has written, and the
threads free what they have allocated, in whichever order they run.
-/

namespace AllProjects.SafePthread

variable {n : ℕ}

/-- `key_once`, and whether there is a key. -/
inductive Once
  | fresh
  | running
  | done
  deriving DecidableEq

/-- What is at an address: nothing that is allocated, an allocated buffer, or `"num: %d (%p)\n"`. -/
inductive Buffer
  | free
  | raw
  | text (num p : ℕ)
  deriving DecidableEq

/-- Where a thread or `main` stands, with `buf`. -/
inductive Phase
  | unborn
  | once
  | makeKey
  | getspecific
  | malloc
  | setspecific (buf : ℕ)
  | snprintf (buf : ℕ)
  | printf (buf : ℕ)
  | create (buf i : ℕ)
  | join (buf i : ℕ)
  | again (buf : ℕ)
  | exit
  | exited
  | crashed
  deriving DecidableEq

/-- The global variables, the memory, what each thread has under the key, where `main`, which is
`none`, and the threads stand, and the lines with who has printed them. -/
structure State (n : ℕ) where
  keyOnce : Once
  heap : ℕ → Buffer
  specific : Option (Fin n) → ℕ
  phase : Option (Fin n) → Phase
  out : List (Option (Fin n) × ℕ × ℕ)

/-- The start of the program. -/
def initial (n : ℕ) : State n where
  keyOnce := .fresh
  heap := fun _ ↦ .free
  specific := fun _ ↦ 0
  phase := Function.update (fun _ ↦ .unborn) none .once
  out := []

/-- What a thread calls `print_n` with. -/
def number : Option (Fin n) → ℕ
  | none => 15
  | some i => i.val

/-- A thread goes on without anything else changing. -/
def State.goto (s : State n) (t : Option (Fin n)) (x : Phase) : State n :=
  { s with phase := Function.update s.phase t x }

theorem State.goto_phase_self (s : State n) (t : Option (Fin n)) (x : Phase) :
    (s.goto t x).phase t = x :=
  Function.update_self _ _ _

theorem State.goto_phase_of_ne {s : State n} {t u : Option (Fin n)} {x : Phase} (h : u ≠ t) :
    (s.goto t x).phase u = s.phase u :=
  Function.update_of_ne h _ _

/-- `printf` of a buffer. -/
def State.print (s : State n) (t : Option (Fin n)) (buf : ℕ) (x : Phase) : State n :=
  match s.heap buf with
  | .text num p =>
    { s with out := (t, num, p) :: s.out, phase := Function.update s.phase t x }
  | .free | .raw => s.goto t .crashed

/-- The next statement of a thread or of `main`, or none while it waits. Where the statement is
`malloc`, it returns `a`. -/
def go (s : State n) (t : Option (Fin n)) (a : ℕ) : Option (State n) :=
  match s.phase t with
  | .unborn => none
  | .once =>
    match s.keyOnce with
    | .fresh => some { s.goto t .makeKey with keyOnce := .running }
    | .running => none
    | .done => some (s.goto t .getspecific)
  | .makeKey => some { s.goto t .getspecific with keyOnce := .done }
  | .getspecific =>
    if s.keyOnce ≠ .done then some (s.goto t .crashed)
    else if s.specific t = 0 then some (s.goto t .malloc)
    else some (s.goto t (.snprintf (s.specific t)))
  | .malloc =>
    if a = 0 then some (s.goto t (.setspecific 0))
    else if s.heap a = .free then
      some { s.goto t (.setspecific a) with heap := Function.update s.heap a .raw }
    else none
  | .setspecific buf =>
    some { s.goto t (.snprintf buf) with specific := Function.update s.specific t buf }
  | .snprintf buf =>
    if s.heap buf = .free then some (s.goto t .crashed)
    else some { s.goto t (.printf buf) with
      heap := Function.update s.heap buf (.text (number t) buf) }
  | .printf buf => some (s.print t buf (if t = none then .create buf 0 else .exit))
  | .create buf i =>
    if h : i < n then some ((s.goto (some ⟨i, h⟩) .once).goto t (.create buf (i + 1)))
    else some (s.goto t (.join buf 0))
  | .join buf i =>
    if h : i < n then
      if s.phase (some ⟨i, h⟩) = .exited then some (s.goto t (.join buf (i + 1))) else none
    else some (s.goto t (.again buf))
  | .again buf => some (s.print t buf .exited)
  | .exit =>
    -- `dest` is not called for a null pointer.
    if s.specific t = 0 then some (s.goto t .exited)
    else if s.heap (s.specific t) = .free then some (s.goto t .crashed)
    else some { s.goto t .exited with
      heap := Function.update s.heap (s.specific t) .free
      specific := Function.update s.specific t 0 }
  | .exited | .crashed => none

/-- A thread or `main` goes on. -/
def Step (s : State n) (e : Option (Fin n) × ℕ) (s' : State n) : Prop :=
  go s e.1 e.2 = some s'

/-! ## What holds between any two statements -/

namespace Phase

/-- The buffer of a thread, which is not under the key at once. -/
def buffer (v : ℕ) : Phase → ℕ
  | setspecific buf => buf
  | unborn | once | makeKey | getspecific | malloc | snprintf _ | printf _ | create _ _ | join _ _
  | again _ | exit | exited | crashed => v

/-- The lines a thread has printed. -/
def lines (t : Option (Fin n)) : Phase → ℕ
  | unborn | once | makeKey | getspecific | malloc | setspecific _ | snprintf _ | printf _
  | crashed => 0
  | create _ _ | join _ _ | again _ | exit => 1
  | exited => if t = none then 2 else 1

/-- What a thread has under the key, and what is in its buffer. -/
def Sound (keyOnce : Once) (heap : ℕ → Buffer) (t : Option (Fin n)) (v : ℕ) : Phase → Prop
  | unborn | once | makeKey | malloc => v = 0
  | getspecific => v = 0 ∧ keyOnce = .done
  | setspecific buf => v = 0 ∧ buf ≠ 0 ∧ heap buf ≠ .free
  | snprintf buf => v = buf ∧ buf ≠ 0 ∧ heap buf ≠ .free
  | printf buf => v = buf ∧ buf ≠ 0 ∧ heap buf = .text (number t) buf
  | create buf _ | join buf _ | again buf =>
    t = none ∧ v = buf ∧ buf ≠ 0 ∧ heap buf = .text (number t) buf
  | exit => t ≠ none ∧ v ≠ 0 ∧ heap v ≠ .free
  | exited => (t = none → v ≠ 0 ∧ heap v ≠ .free) ∧ (t ≠ none → v = 0)
  | crashed => False

variable {keyOnce keyOnce' : Once} {heap heap' : ℕ → Buffer} {t : Option (Fin n)} {v : ℕ}
  {x : Phase}

theorem Sound.ne_free (h : x.Sound keyOnce heap t v) (hne : x.buffer v ≠ 0) :
    heap (x.buffer v) ≠ .free := by
  cases x with
  | unborn | once | makeKey | malloc => exact absurd h hne
  | getspecific => exact absurd h.1 hne
  | setspecific buf => exact h.2.2
  | snprintf buf =>
    obtain ⟨rfl, -, hheap⟩ := h
    exact hheap
  | printf buf =>
    obtain ⟨rfl, -, hheap⟩ := h
    exact ne_of_eq_of_ne hheap (by simp)
  | create buf _ | join buf _ | again buf =>
    obtain ⟨-, rfl, -, hheap⟩ := h
    exact ne_of_eq_of_ne hheap (by simp)
  | exit => exact h.2.2
  | exited =>
    by_cases ht : t = none
    · exact (h.1 ht).2
    · exact absurd (h.2 ht) hne
  | crashed => exact h.elim

theorem Sound.congr (h : x.Sound keyOnce heap t v) (honce : keyOnce = .done → keyOnce' = .done)
    (hheap : x.buffer v ≠ 0 → heap' (x.buffer v) = heap (x.buffer v)) :
    x.Sound keyOnce' heap' t v := by
  cases x with
  | unborn | once | makeKey | malloc => exact h
  | getspecific => exact ⟨h.1, honce h.2⟩
  | setspecific buf => exact ⟨h.1, h.2.1, ne_of_eq_of_ne (hheap h.2.1) h.2.2⟩
  | snprintf buf =>
    obtain ⟨rfl, hne, h⟩ := h
    exact ⟨rfl, hne, ne_of_eq_of_ne (hheap hne) h⟩
  | printf buf =>
    obtain ⟨rfl, hne, h⟩ := h
    exact ⟨rfl, hne, (hheap hne).trans h⟩
  | create buf _ | join buf _ | again buf =>
    obtain ⟨ht, rfl, hne, h⟩ := h
    exact ⟨ht, rfl, hne, (hheap hne).trans h⟩
  | exit => exact ⟨h.1, h.2.1, ne_of_eq_of_ne (hheap h.2.1) h.2.2⟩
  | exited =>
    refine ⟨fun ht ↦ ?_, h.2⟩
    obtain ⟨hne, h⟩ := h.1 ht
    exact ⟨hne, ne_of_eq_of_ne (hheap hne) h⟩
  | crashed => exact h

end Phase

/-- The buffer of a thread. -/
def State.buffer (s : State n) (t : Option (Fin n)) : ℕ := (s.phase t).buffer (s.specific t)

/-- What holds between any two statements. -/
structure Inv (s : State n) : Prop where
  sound : ∀ t, (s.phase t).Sound s.keyOnce s.heap t (s.specific t)
  apart : ∀ t u, s.buffer t ≠ 0 → s.buffer t = s.buffer u → t = u
  owned : ∀ p, s.heap p ≠ .free → p ≠ 0 ∧ ∃ t, s.buffer t = p
  out : ∀ y ∈ s.out, y.2.1 = number y.1
  lines : ∀ t, (s.out.map Prod.fst).count t = (s.phase t).lines t

variable {s s' : State n} {t : Option (Fin n)} {a : ℕ}

theorem State.buffer_of {y : Phase} (hy : s.phase t = y) :
    s.buffer t = y.buffer (s.specific t) := by
  rw [State.buffer, hy]

theorem Inv.sound_of (h : Inv s) {y : Phase} (hy : s.phase t = y) :
    y.Sound s.keyOnce s.heap t (s.specific t) :=
  hy ▸ h.sound t

/-- **A thread moves.** It touches no buffer but its own, which it keeps, frees or has just
allocated. -/
theorem Inv.move (h : Inv s) {keyOnce : Once} (heap : ℕ → Buffer) (v : ℕ) (x : Phase)
    (new : List (Option (Fin n) × ℕ × ℕ)) (honce : s.keyOnce = .done → keyOnce = .done)
    (hheap : ∀ q, q ≠ x.buffer v → q ≠ s.buffer t → heap q = s.heap q)
    (hnull : heap 0 = s.heap 0) (hsound : x.Sound keyOnce heap t v)
    (hbuffer : x.buffer v = s.buffer t ∨
      (s.buffer t = 0 ∨ heap (s.buffer t) = .free) ∧
        (x.buffer v = 0 ∨ s.heap (x.buffer v) = .free))
    (hnew : ∀ y ∈ new, y.1 = t ∧ y.2.1 = number t)
    (hlines : x.lines t = new.length + (s.phase t).lines t) :
    Inv ⟨keyOnce, heap, Function.update s.specific t v, Function.update s.phase t x,
      new ++ s.out⟩ := by
  have hself : (⟨keyOnce, heap, Function.update s.specific t v, Function.update s.phase t x,
      new ++ s.out⟩ : State n).buffer t = x.buffer v := by
    simp only [State.buffer, Function.update_self]
  have hother : ∀ u, u ≠ t → (⟨keyOnce, heap, Function.update s.specific t v,
      Function.update s.phase t x, new ++ s.out⟩ : State n).buffer u = s.buffer u := by
    intro u hu
    simp only [State.buffer, Function.update_of_ne hu]
  have hne : ∀ u, u ≠ t → s.buffer u ≠ 0 → s.buffer u ≠ x.buffer v := by
    intro u hu hpos heq
    rcases hbuffer with hkeep | ⟨-, hnone | hfree⟩
    · exact hu (h.apart u t hpos (heq.trans hkeep))
    · exact hpos (heq.trans hnone)
    · exact (h.sound u).ne_free hpos ((congrArg s.heap heq).trans hfree)
  refine ⟨fun u ↦ ?_, fun u w ↦ ?_, fun q hq ↦ ?_, fun y hy ↦ ?_, fun u ↦ ?_⟩
  · dsimp only
    rcases eq_or_ne u t with rfl | hu
    · rwa [Function.update_self, Function.update_self]
    · rw [Function.update_of_ne hu, Function.update_of_ne hu]
      apply (h.sound u).congr honce
      intro hpos
      exact hheap _ (hne u hu hpos) fun heq ↦ hu (h.apart u t hpos heq)
  · rcases eq_or_ne u t with rfl | hu <;> rcases eq_or_ne w u with rfl | hw
    · exact fun _ _ ↦ rfl
    · rw [hself, hother w hw]
      exact fun hpos heq ↦ absurd heq.symm (hne w hw (heq ▸ hpos))
    · exact fun _ _ ↦ rfl
    · rw [hother u hu]
      intro hpos heq
      rcases eq_or_ne w t with rfl | hwt
      · exact absurd (heq.trans hself) (hne u hu hpos)
      · exact h.apart u w hpos (heq.trans (hother w hwt))
  · dsimp only at hq
    have hzero : q ≠ 0 := by
      rintro rfl
      exact (h.owned 0 (hnull ▸ hq)).1 rfl
    refine ⟨hzero, ?_⟩
    by_cases hqx : q = x.buffer v
    · exact ⟨t, hself.trans hqx.symm⟩
    have hqt : q ≠ s.buffer t := by
      rintro rfl
      rcases hbuffer with hkeep | ⟨hnone | hfree, -⟩
      · exact hqx hkeep.symm
      · exact hzero hnone
      · exact hq hfree
    obtain ⟨-, u, hu⟩ := h.owned q (hheap q hqx hqt ▸ hq)
    have hut : u ≠ t := by
      rintro rfl
      exact hqt hu.symm
    exact ⟨u, (hother u hut).trans hu⟩
  · rcases List.mem_append.mp hy with hy | hy
    · rw [(hnew y hy).1, (hnew y hy).2]
    · exact h.out y hy
  · dsimp only
    have hall : new.map Prod.fst = List.replicate new.length t := by
      rw [List.eq_replicate_iff]
      refine ⟨List.length_map _, ?_⟩
      intro y hy
      obtain ⟨z, hz, rfl⟩ := List.mem_map.mp hy
      exact (hnew z hz).1
    rw [List.map_append, List.count_append, hall, List.count_replicate, h.lines u]
    rcases eq_or_ne u t with rfl | hu
    · rw [Function.update_self, hlines, if_pos (beq_self_eq_true _)]
    · rw [Function.update_of_ne hu, if_neg (by simpa using hu.symm), Nat.zero_add]

theorem Inv.goto (h : Inv s) {keyOnce : Once} {x y : Phase} (hy : s.phase t = y)
    (honce : s.keyOnce = .done → keyOnce = .done)
    (hsound : x.Sound keyOnce s.heap t (s.specific t))
    (hbuffer : x.buffer (s.specific t) = y.buffer (s.specific t)) (hlines : x.lines t = y.lines t) :
    Inv { s.goto t x with keyOnce := keyOnce } := by
  subst hy
  have hmove := h.move s.heap (s.specific t) x [] honce (fun _ _ _ ↦ rfl) rfl hsound
    (.inl hbuffer) (fun _ hz ↦ absurd hz List.not_mem_nil) (hlines.trans (Nat.zero_add _).symm)
  rwa [Function.update_eq_self] at hmove

theorem Inv.print (h : Inv s) {buf : ℕ} {x y : Phase} (hy : s.phase t = y)
    (hheap : s.heap buf = .text (number t) buf)
    (hsound : x.Sound s.keyOnce s.heap t (s.specific t))
    (hbuffer : x.buffer (s.specific t) = y.buffer (s.specific t))
    (hlines : x.lines t = 1 + y.lines t) : Inv (s.print t buf x) := by
  subst hy
  have hmove := h.move s.heap (s.specific t) x [(t, number t, buf)] id (fun _ _ _ ↦ rfl) rfl hsound
    (.inl hbuffer) (fun z hz ↦ by rw [List.mem_singleton.mp hz]; exact ⟨rfl, rfl⟩) hlines
  rw [Function.update_eq_self] at hmove
  have heq : s.print t buf x = { s with
      out := (t, number t, buf) :: s.out, phase := Function.update s.phase t x } := by
    rw [State.print, hheap]
  rw [heq]
  exact hmove

theorem Inv.alloc (h : Inv s) (hy : s.phase t = .malloc) (ha : a ≠ 0) (hfree : s.heap a = .free) :
    Inv { s.goto t (.setspecific a) with heap := Function.update s.heap a .raw } := by
  have hnone : s.specific t = 0 := h.sound_of hy
  have hraw : Function.update s.heap a .raw a ≠ .free := by
    rw [Function.update_self]
    exact Buffer.noConfusion
  have hmove := h.move (Function.update s.heap a .raw) (s.specific t) (.setspecific a) [] id
    (fun q hq _ ↦ Function.update_of_ne hq _ _) (Function.update_of_ne ha.symm _ _)
    ⟨hnone, ha, hraw⟩ (.inr ⟨.inl ((State.buffer_of hy).trans hnone), .inr hfree⟩)
    (fun _ hz ↦ absurd hz List.not_mem_nil) (by rw [hy]; rfl)
  rwa [Function.update_eq_self] at hmove

theorem Inv.keep (h : Inv s) {buf : ℕ} (hy : s.phase t = .setspecific buf) :
    Inv { s.goto t (.snprintf buf) with specific := Function.update s.specific t buf } :=
  h.move s.heap buf (.snprintf buf) [] id (fun _ _ _ ↦ rfl) rfl ⟨rfl, (h.sound_of hy).2⟩
    (.inl (State.buffer_of hy).symm) (fun _ hz ↦ absurd hz List.not_mem_nil) (by rw [hy]; rfl)

theorem Inv.write (h : Inv s) {buf : ℕ} (hy : s.phase t = .snprintf buf) :
    Inv { s.goto t (.printf buf) with
      heap := Function.update s.heap buf (.text (number t) buf) } := by
  obtain ⟨hv, hpos, -⟩ := h.sound_of hy
  have hbuf : s.buffer t = buf := (State.buffer_of hy).trans hv
  have hmove := h.move (Function.update s.heap buf (.text (number t) buf)) (s.specific t)
    (.printf buf) [] id
    (fun q _ hq ↦ Function.update_of_ne (fun heq ↦ hq (heq.trans hbuf.symm)) _ _)
    (Function.update_of_ne hpos.symm _ _) ⟨hv, hpos, Function.update_self _ _ _⟩
    (.inl (hv.trans hbuf.symm)) (fun _ hz ↦ absurd hz List.not_mem_nil) (by rw [hy]; rfl)
  rwa [Function.update_eq_self] at hmove

theorem Inv.release (h : Inv s) (hy : s.phase t = .exit) :
    Inv { s.goto t .exited with
      heap := Function.update s.heap (s.specific t) .free
      specific := Function.update s.specific t 0 } := by
  obtain ⟨ht, hpos, -⟩ := h.sound_of hy
  have hbuf : s.buffer t = s.specific t := State.buffer_of hy
  refine h.move (Function.update s.heap (s.specific t) .free) 0 .exited [] id
    (fun q _ hq ↦ Function.update_of_ne (fun heq ↦ hq (heq.trans hbuf.symm)) _ _)
    (Function.update_of_ne hpos.symm _ _) ⟨fun hnone ↦ absurd hnone ht, fun _ ↦ rfl⟩
    (.inr ⟨.inr ?_, .inl rfl⟩) (fun _ hz ↦ absurd hz List.not_mem_nil) ?_
  · rw [hbuf, Function.update_self]
  · rw [hy]
    exact if_neg ht

theorem Inv.create (h : Inv s) {buf i : ℕ} {j : Fin n} (hy : s.phase none = .create buf i)
    (hunborn : s.phase (some j) = .unborn) :
    Inv ((s.goto (some j) .once).goto none (.create buf (i + 1))) := by
  have hnone : s.specific (some j) = 0 := h.sound_of hunborn
  have hborn : Inv (s.goto (some j) .once) := h.goto hunborn id hnone rfl rfl
  have hsound := h.sound_of hy
  have hmain : (s.goto (some j) .once).phase none = .create buf i :=
    (State.goto_phase_of_ne (Option.some_ne_none j).symm).trans hy
  exact hborn.goto hmain id ⟨rfl, hsound.2⟩ rfl rfl

/-! ## Who comes when -/

/-- `main` has created and joined the threads up to its counter. -/
def Phase.After (threads : Fin n → Phase) : Phase → Prop
  | .once | .makeKey | .getspecific | .malloc | .setspecific _ | .snprintf _ | .printf _ =>
    ∀ j, threads j = .unborn
  | .create _ i => ∀ j, threads j = .unborn ↔ i ≤ j.val
  | .join _ i => ∀ j, threads j ≠ .unborn ∧ (j.val < i → threads j = .exited)
  | .again _ | .exited => ∀ j, threads j = .exited
  | .unborn | .exit | .crashed => False

/-- `main` is never ahead of the threads it waits for, nor behind those that run. -/
def Order (phase : Option (Fin n) → Phase) : Prop :=
  (phase none).After fun j ↦ phase (some j)

theorem Order.update {phase : Option (Fin n) → Phase} (h : Order phase) {x y : Phase}
    (hy : phase t = y) (hborn : y ≠ .unborn) (hends : y ≠ .exited)
    (hx : x ≠ .unborn)
    (hmain : t = none → y.After (fun j ↦ phase (some j)) → x.After fun j ↦ phase (some j)) :
    Order (Function.update phase t x) := by
  subst hy
  cases t with
  | none =>
    unfold Order
    rw [Function.update_self]
    simp only [ne_eq, reduceCtorEq, not_false_eq_true, Function.update_of_ne]
    exact hmain rfl h
  | some i =>
    unfold Order at h ⊢
    rw [Function.update_of_ne (by simp)]
    have hother : ∀ j, some j ≠ some i →
        Function.update phase (some i) x (some j) = phase (some j) :=
      fun j hne ↦ Function.update_of_ne hne _ _
    have hunborn : ∀ j, Function.update phase (some i) x (some j) = .unborn ↔
        phase (some j) = .unborn := by
      intro j
      rcases eq_or_ne (some j) (some i) with heq | hne
      · rw [heq, Function.update_self]
        exact iff_of_false hx hborn
      · rw [hother j hne]
    have hexited : ∀ j, phase (some j) = .exited →
        Function.update phase (some i) x (some j) = .exited := by
      intro j hj
      rw [hother j]
      · exact hj
      · rintro heq
        exact hends (heq ▸ hj)
    generalize phase none = m at h
    cases m with
    | once | makeKey | getspecific | malloc | setspecific _ | snprintf _ | printf _ =>
      exact fun j ↦ (hunborn j).mpr (h j)
    | create buf k => exact fun j ↦ (hunborn j).trans (h j)
    | join buf k =>
      exact fun j ↦ ⟨fun hj ↦ (h j).1 ((hunborn j).mp hj), fun hj ↦ hexited j ((h j).2 hj)⟩
    | again _ | exited => exact fun j ↦ hexited j (h j)
    | unborn | exit | crashed => exact h

theorem Order.unborn (h : Order s.phase) {buf i : ℕ} (hi : i < n)
    (hy : s.phase none = .create buf i) : s.phase (some ⟨i, hi⟩) = .unborn := by
  rw [Order, hy] at h
  exact (h ⟨i, hi⟩).mpr le_rfl

theorem Order.create (h : Order s.phase) {buf i : ℕ} (hi : i < n)
    (hy : s.phase none = .create buf i) :
    Order ((s.goto (some ⟨i, hi⟩) .once).goto none (.create buf (i + 1))).phase := by
  rw [Order, hy] at h
  intro j
  dsimp only
  rw [State.goto_phase_of_ne (Option.some_ne_none j)]
  rcases eq_or_ne (some j) (some ⟨i, hi⟩) with heq | hne
  · obtain rfl := Option.some.inj heq
    refine iff_of_false (fun hj ↦ ?_) (Nat.not_succ_le_self i)
    rw [State.goto_phase_self] at hj
    cases hj
  · rw [State.goto_phase_of_ne hne]
    refine (h j).trans ⟨fun hj ↦ ?_, Nat.le_of_succ_le⟩
    exact Nat.lt_of_le_of_ne hj fun hij ↦ hne (congrArg some (Fin.ext hij.symm))

/-! ## One statement -/

theorem inv_initial (n : ℕ) : Inv (initial n) where
  sound := by
    intro t
    rcases eq_or_ne t none with rfl | ht
    · exact rfl
    · dsimp only [initial]
      rw [Function.update_of_ne ht]
      exact rfl
  apart := by
    intro t u hpos
    have hzero : (initial n).buffer t = 0 := by
      dsimp only [State.buffer, initial]
      rcases eq_or_ne t none with rfl | ht
      · rfl
      · rw [Function.update_of_ne ht]
        rfl
    exact absurd hzero hpos
  owned := fun p hp ↦ absurd rfl hp
  out := fun y hy ↦ absurd hy List.not_mem_nil
  lines := by
    intro t
    dsimp only [initial]
    rcases eq_or_ne t none with rfl | ht
    · rfl
    · rw [Function.update_of_ne ht]
      rfl

theorem order_initial (n : ℕ) : Order (initial n).phase := by
  intro j
  dsimp only [initial]
  rw [Function.update_of_ne (Option.some_ne_none j)]

/-- **Every statement** of a thread or of `main` touches the thread's own buffer only. -/
theorem Inv.of_go (h : Inv s) (horder : Order s.phase) (ha : a ≠ 0) (hgo : go s t a = some s') :
    Inv s' ∧ Order s'.phase := by
  have hsound := h.sound t
  unfold go at hgo
  generalize hy : s.phase t = y at hgo hsound
  cases y with
  | unborn | exited | crashed => cases hgo
  | once =>
    dsimp only at hgo
    split at hgo
    · rename_i hfresh
      obtain rfl := Option.some.inj hgo
      exact ⟨h.goto hy (fun hdone ↦ absurd (hfresh.symm.trans hdone) (by simp)) hsound rfl rfl,
        horder.update hy (by simp) (by simp) (by simp) fun _ hj ↦ hj⟩
    · cases hgo
    · rename_i hdone
      obtain rfl := Option.some.inj hgo
      exact ⟨h.goto hy id ⟨hsound, hdone⟩ rfl rfl,
        horder.update hy (by simp) (by simp) (by simp) fun _ hj ↦ hj⟩
  | makeKey =>
    obtain rfl := Option.some.inj hgo
    exact ⟨h.goto hy (fun _ ↦ rfl) ⟨hsound, rfl⟩ rfl rfl,
      horder.update hy (by simp) (by simp) (by simp) fun _ hj ↦ hj⟩
  | getspecific =>
    -- A thread calls `print_n` only once, and so has nothing under the key.
    dsimp only at hgo
    rw [if_neg (not_not_intro hsound.2), if_pos hsound.1] at hgo
    obtain rfl := Option.some.inj hgo
    exact ⟨h.goto hy id hsound.1 rfl rfl,
      horder.update hy (by simp) (by simp) (by simp) fun _ hj ↦ hj⟩
  | malloc =>
    dsimp only at hgo
    rw [if_neg ha] at hgo
    split at hgo
    · rename_i hfree
      obtain rfl := Option.some.inj hgo
      exact ⟨h.alloc hy ha hfree, horder.update hy (by simp) (by simp) (by simp) fun _ hj ↦ hj⟩
    · cases hgo
  | setspecific buf =>
    obtain rfl := Option.some.inj hgo
    exact ⟨h.keep hy, horder.update hy (by simp) (by simp) (by simp) fun _ hj ↦ hj⟩
  | snprintf buf =>
    dsimp only at hgo
    rw [if_neg hsound.2.2] at hgo
    obtain rfl := Option.some.inj hgo
    exact ⟨h.write hy, horder.update hy (by simp) (by simp) (by simp) fun _ hj ↦ hj⟩
  | printf buf =>
    obtain ⟨hv, hpos, htext⟩ := hsound
    have hphase : ∀ x, (s.print t buf x).phase = Function.update s.phase t x := by
      intro x
      rw [State.print, htext]
    obtain rfl := Option.some.inj hgo
    refine ⟨?_, ?_⟩
    · cases t with
      | none => exact h.print hy htext ⟨rfl, hv, hpos, htext⟩ rfl rfl
      | some i =>
        refine h.print hy htext ⟨Option.some_ne_none i, ne_of_eq_of_ne hv hpos, ?_⟩ rfl rfl
        rw [hv, htext]
        exact Buffer.noConfusion
    · rw [hphase]
      refine horder.update hy (by simp) (by simp) (by split <;> simp) fun ht hj ↦ ?_
      rw [if_pos ht]
      exact fun j ↦ iff_of_true (hj j) (Nat.zero_le _)
  | create buf i =>
    obtain ⟨rfl, hmain⟩ := hsound
    dsimp only at hgo
    split at hgo
    · rename_i hi
      obtain rfl := Option.some.inj hgo
      exact ⟨h.create hy (horder.unborn hi hy), horder.create hi hy⟩
    · rename_i hi
      obtain rfl := Option.some.inj hgo
      refine ⟨h.goto hy id ⟨rfl, hmain⟩ rfl rfl, ?_⟩
      refine horder.update hy (by simp) (by simp) (by simp) fun _ hj j ↦ ⟨fun hborn ↦ ?_, ?_⟩
      · exact hi (((hj j).mp hborn).trans_lt j.isLt)
      · exact fun hlt ↦ absurd hlt (Nat.not_lt_zero _)
  | join buf i =>
    dsimp only at hgo
    split at hgo
    · rename_i hi
      split at hgo
      · rename_i hexited
        obtain rfl := Option.some.inj hgo
        refine ⟨h.goto hy id hsound rfl rfl, ?_⟩
        refine horder.update hy (by simp) (by simp) (by simp) fun _ hj j ↦ ⟨(hj j).1, fun hlt ↦ ?_⟩
        rcases Nat.lt_succ_iff_lt_or_eq.mp hlt with hlt | heq
        · exact (hj j).2 hlt
        · obtain rfl : j = ⟨i, hi⟩ := Fin.ext heq
          exact hexited
      · cases hgo
    · rename_i hi
      obtain rfl := Option.some.inj hgo
      refine ⟨h.goto hy id hsound rfl rfl, ?_⟩
      exact horder.update hy (by simp) (by simp) (by simp) fun _ hj j ↦
        (hj j).2 (j.isLt.trans_le (Nat.le_of_not_lt hi))
  | again buf =>
    obtain ⟨rfl, hv, hpos, htext⟩ := hsound
    obtain rfl := Option.some.inj hgo
    have hphase : (s.print none buf .exited).phase = Function.update s.phase none .exited := by
      rw [State.print, htext]
    refine ⟨h.print hy htext ⟨fun _ ↦ ⟨ne_of_eq_of_ne hv hpos, ?_⟩, fun hne ↦ absurd rfl hne⟩ rfl
      rfl, ?_⟩
    · rw [hv, htext]
      exact Buffer.noConfusion
    · rw [hphase]
      exact horder.update hy (by simp) (by simp) (by simp) fun _ hj ↦ hj
  | exit =>
    dsimp only at hgo
    rw [if_neg hsound.2.1, if_neg hsound.2.2] at hgo
    obtain rfl := Option.some.inj hgo
    exact ⟨h.release hy,
      horder.update hy (by simp) (by simp) (by simp) fun hnone ↦ absurd hnone hsound.1⟩

/-! ## The program ends -/

/-- The statements a thread has before it, where `main` starts and joins `n` threads. -/
def Phase.rank (n : ℕ) (t : Option (Fin n)) : Phase → ℕ
  | unborn | once => (if t = none then 2 * n + 3 else 1) + 7
  | makeKey => (if t = none then 2 * n + 3 else 1) + 6
  | getspecific => (if t = none then 2 * n + 3 else 1) + 5
  | malloc => (if t = none then 2 * n + 3 else 1) + 4
  | setspecific _ => (if t = none then 2 * n + 3 else 1) + 3
  | snprintf _ => (if t = none then 2 * n + 3 else 1) + 2
  | printf _ => (if t = none then 2 * n + 3 else 1) + 1
  | create _ i => (n - i) + n + 3
  | join _ i => (n - i) + 2
  | again _ | exit => 1
  | exited | crashed => 0

/-- The statements the program has before it. -/
def State.rank (s : State n) : ℕ := ∑ t, (s.phase t).rank n t

theorem State.phase_of_print (s : State n) (t : Option (Fin n)) (buf : ℕ) (x : Phase) :
    (∃ y, (s.print t buf x).phase = Function.update s.phase t y ∧ (y = x ∨ y = .crashed)) ∧
      (s.print t buf x).keyOnce = s.keyOnce := by
  rw [State.print]
  split
  · exact ⟨⟨x, rfl, .inl rfl⟩, rfl⟩
  · exact ⟨⟨_, rfl, .inr rfl⟩, rfl⟩
  · exact ⟨⟨_, rfl, .inr rfl⟩, rfl⟩

theorem phase_of_go (hgo : go s t a = some s') :
    (∃ x, s'.phase = Function.update s.phase t x ∧ x.rank n t < (s.phase t).rank n t ∧
        (s'.keyOnce = .running → x = .makeKey ∨ s.keyOnce = .running ∧ s.phase t ≠ .makeKey)) ∨
      ∃ buf i, ∃ h : i < n, s.phase t = .create buf i ∧
        s' = (s.goto (some ⟨i, h⟩) .once).goto t (.create buf (i + 1)) := by
  unfold go at hgo
  generalize hy : s.phase t = y at hgo
  cases y with
  | unborn | exited | crashed => cases hgo
  | once =>
    dsimp only at hgo
    split at hgo
    · obtain rfl := Option.some.inj hgo
      exact .inl ⟨.makeKey, rfl, Nat.lt_succ_self _, fun _ ↦ .inl rfl⟩
    · cases hgo
    · obtain rfl := Option.some.inj hgo
      refine .inl ⟨.getspecific, rfl, ?_, fun hkey ↦ .inr ⟨hkey, by simp⟩⟩
      exact Nat.add_lt_add_left (by decide) _
  | makeKey =>
    obtain rfl := Option.some.inj hgo
    exact .inl ⟨.getspecific, rfl, Nat.lt_succ_self _, fun hkey ↦ by cases hkey⟩
  | getspecific =>
    dsimp only at hgo
    split at hgo
    · obtain rfl := Option.some.inj hgo
      exact .inl ⟨.crashed, rfl, Nat.succ_pos _, fun hkey ↦ .inr ⟨hkey, by simp⟩⟩
    · split at hgo
      · obtain rfl := Option.some.inj hgo
        exact .inl ⟨.malloc, rfl, Nat.lt_succ_self _, fun hkey ↦ .inr ⟨hkey, by simp⟩⟩
      · obtain rfl := Option.some.inj hgo
        refine .inl ⟨.snprintf _, rfl, ?_, fun hkey ↦ .inr ⟨hkey, by simp⟩⟩
        exact Nat.add_lt_add_left (by decide) _
  | malloc =>
    dsimp only at hgo
    split at hgo
    · obtain rfl := Option.some.inj hgo
      exact .inl ⟨.setspecific 0, rfl, Nat.lt_succ_self _, fun hkey ↦ .inr ⟨hkey, by simp⟩⟩
    · split at hgo
      · obtain rfl := Option.some.inj hgo
        exact .inl ⟨.setspecific a, rfl, Nat.lt_succ_self _, fun hkey ↦ .inr ⟨hkey, by simp⟩⟩
      · cases hgo
  | setspecific buf =>
    obtain rfl := Option.some.inj hgo
    exact .inl ⟨.snprintf buf, rfl, Nat.lt_succ_self _, fun hkey ↦ .inr ⟨hkey, by simp⟩⟩
  | snprintf buf =>
    dsimp only at hgo
    split at hgo
    · obtain rfl := Option.some.inj hgo
      exact .inl ⟨.crashed, rfl, Nat.succ_pos _, fun hkey ↦ .inr ⟨hkey, by simp⟩⟩
    · obtain rfl := Option.some.inj hgo
      exact .inl ⟨.printf buf, rfl, Nat.lt_succ_self _, fun hkey ↦ .inr ⟨hkey, by simp⟩⟩
  | printf buf =>
    obtain rfl := Option.some.inj hgo
    obtain ⟨⟨x, hphase, hx⟩, hkeep⟩ :=
      s.phase_of_print t buf (if t = none then .create buf 0 else .exit)
    refine .inl ⟨x, hphase, ?_, fun hkey ↦ .inr ⟨hkeep.symm.trans hkey, by simp⟩⟩
    rcases hx with rfl | rfl
    · split
      · rename_i ht
        rw [Phase.rank, Phase.rank, if_pos ht]
        omega
      · exact Nat.succ_lt_succ (Nat.pos_of_ne_zero (by split <;> omega))
    · exact Nat.succ_pos _
  | create buf i =>
    dsimp only at hgo
    split at hgo
    · rename_i hi
      obtain rfl := Option.some.inj hgo
      exact .inr ⟨buf, i, hi, rfl, rfl⟩
    · obtain rfl := Option.some.inj hgo
      refine .inl ⟨.join buf 0, rfl, ?_, fun hkey ↦ .inr ⟨hkey, by simp⟩⟩
      rw [Phase.rank, Phase.rank]
      omega
  | join buf i =>
    dsimp only at hgo
    split at hgo
    · split at hgo
      · obtain rfl := Option.some.inj hgo
        refine .inl ⟨.join buf (i + 1), rfl, ?_, fun hkey ↦ .inr ⟨hkey, by simp⟩⟩
        rw [Phase.rank, Phase.rank]
        omega
      · cases hgo
    · obtain rfl := Option.some.inj hgo
      refine .inl ⟨.again buf, rfl, ?_, fun hkey ↦ .inr ⟨hkey, by simp⟩⟩
      rw [Phase.rank, Phase.rank]
      omega
  | again buf =>
    obtain rfl := Option.some.inj hgo
    obtain ⟨⟨x, hphase, hx⟩, hkeep⟩ := s.phase_of_print t buf .exited
    refine .inl ⟨x, hphase, ?_, fun hkey ↦ .inr ⟨hkeep.symm.trans hkey, by simp⟩⟩
    rcases hx with rfl | rfl
    · exact Nat.one_pos
    · exact Nat.one_pos
  | exit =>
    dsimp only at hgo
    split at hgo
    · obtain rfl := Option.some.inj hgo
      exact .inl ⟨.exited, rfl, Nat.one_pos, fun hkey ↦ .inr ⟨hkey, by simp⟩⟩
    · split at hgo
      · obtain rfl := Option.some.inj hgo
        exact .inl ⟨.crashed, rfl, Nat.one_pos, fun hkey ↦ .inr ⟨hkey, by simp⟩⟩
      · obtain rfl := Option.some.inj hgo
        exact .inl ⟨.exited, rfl, Nat.one_pos, fun hkey ↦ .inr ⟨hkey, by simp⟩⟩

theorem State.rank_update (s : State n) (t : Option (Fin n)) (x : Phase) :
    (∑ u, (Function.update s.phase t x u).rank n u) + (s.phase t).rank n t = s.rank + x.rank n t :=
  sum_threads_update (fun u y ↦ Phase.rank n u y) s.phase t x

theorem Inv.rank_lt (h : Inv s) (horder : Order s.phase) (hgo : go s t a = some s') :
    s'.rank < s.rank := by
  rcases phase_of_go hgo with ⟨x, hphase, hlt, -⟩ | ⟨buf, i, hi, hy, rfl⟩
  · have hsum := s.rank_update t x
    rw [State.rank, hphase]
    omega
  · obtain rfl := (h.sound_of hy).1
    have hunborn := horder.unborn hi hy
    have hborn := s.rank_update (some ⟨i, hi⟩) .once
    have hcreate := (s.goto (some ⟨i, hi⟩) .once).rank_update none (.create buf (i + 1))
    have hsame : Phase.rank n (some ⟨i, hi⟩) .unborn = Phase.rank n (some ⟨i, hi⟩) .once := rfl
    have hmain : (s.goto (some ⟨i, hi⟩) .once).phase none = .create buf i :=
      (State.goto_phase_of_ne (Option.some_ne_none _).symm).trans hy
    rw [hunborn, hsame] at hborn
    have hkeep : (s.goto (some ⟨i, hi⟩) .once).rank = s.rank := Nat.add_right_cancel hborn
    rw [hmain, hkeep, Phase.rank, Phase.rank] at hcreate
    have hdef : ((s.goto (some ⟨i, hi⟩) .once).goto none (.create buf (i + 1))).rank =
        ∑ u, (Function.update (s.goto (some ⟨i, hi⟩) .once).phase none (.create buf (i + 1))
          u).rank n u := rfl
    omega

theorem initial_rank (n : ℕ) : (initial n).rank = 10 * n + 10 := by
  have hphase : ∀ t : Option (Fin n), ((initial n).phase t).rank n t =
      (if t = none then 2 * n + 3 else 1) + 7 := by
    intro t
    rcases eq_or_ne t none with rfl | ht
    · rfl
    · dsimp only [initial]
      rw [Function.update_of_ne ht]
      rfl
  rw [State.rank, Finset.sum_congr rfl fun t _ ↦ hphase t, Fintype.sum_option]
  simp only [reduceCtorEq, if_false, if_true, Finset.sum_const, Finset.card_univ, Fintype.card_fin,
    smul_eq_mul]
  omega

/-! ## Nobody waits for ever -/

/-- While the key is made, there is someone who makes it. -/
def State.KeyMaker (s : State n) : Prop := s.keyOnce = .running → ∃ t, s.phase t = .makeKey

theorem State.KeyMaker.of_go (hkey : s.KeyMaker) (h : Inv s) (horder : Order s.phase)
    (hgo : go s t a = some s') : s'.KeyMaker := by
  intro hrunning
  rcases phase_of_go hgo with ⟨x, hphase, -, hx⟩ | ⟨buf, i, hi, hy, rfl⟩
  · rcases hx hrunning with rfl | ⟨hbefore, hne⟩
    · exact ⟨t, by rw [hphase, Function.update_self]⟩
    · obtain ⟨u, hu⟩ := hkey hbefore
      have hut : u ≠ t := by
        rintro rfl
        exact hne hu
      exact ⟨u, by rw [hphase, Function.update_of_ne hut, hu]⟩
  · obtain rfl := (h.sound_of hy).1
    have hunborn := horder.unborn hi hy
    obtain ⟨u, hu⟩ := hkey hrunning
    have hmain : u ≠ none := by
      rintro rfl
      cases hy.symm.trans hu
    have hnew : u ≠ some ⟨i, hi⟩ := by
      rintro rfl
      cases hunborn.symm.trans hu
    exact ⟨u, by rw [State.goto_phase_of_ne hmain, State.goto_phase_of_ne hnew, hu]⟩

theorem Inv.exists_free (h : Inv s) : ∃ a, a ≠ 0 ∧ s.heap a = .free := by
  obtain ⟨a, ha⟩ := ((Set.finite_range s.buffer).insert 0).exists_notMem
  rw [Set.mem_insert_iff, not_or] at ha
  refine ⟨a, ha.1, ?_⟩
  by_contra hne
  exact ha.2 (h.owned a hne).2

/-- Who neither waits for the key nor for a thread goes on. -/
theorem Inv.go_isSome (h : Inv s) (hkey : s.keyOnce ≠ .running) (hborn : s.phase t ≠ .unborn)
    (hends : s.phase t ≠ .exited) (hjoin : ∀ buf i, s.phase t ≠ .join buf i) :
    ∃ a, a ≠ 0 ∧ (go s t a).isSome := by
  obtain ⟨a, ha, hfree⟩ := h.exists_free
  refine ⟨a, ha, ?_⟩
  have hsound := h.sound t
  rw [go]
  cases hy : s.phase t with
  | unborn => exact absurd hy hborn
  | exited => exact absurd hy hends
  | crashed =>
    rw [hy] at hsound
    exact hsound.elim
  | join buf i => exact absurd hy (hjoin buf i)
  | once =>
    dsimp only
    split
    · rfl
    · rename_i hrunning
      exact absurd hrunning hkey
    · rfl
  | makeKey | setspecific buf | printf buf | again buf => rfl
  | getspecific =>
    dsimp only
    split
    · rfl
    · split <;> rfl
  | malloc =>
    dsimp only
    rw [if_neg ha, if_pos hfree]
    rfl
  | snprintf buf =>
    dsimp only
    split <;> rfl
  | create buf i =>
    dsimp only
    split <;> rfl
  | exit =>
    dsimp only
    split
    · rfl
    · split <;> rfl

theorem Inv.goes_on (h : Inv s) (horder : Order s.phase) (hkey : s.KeyMaker)
    (hmain : s.phase none ≠ .exited) : ∃ t a, a ≠ 0 ∧ (go s t a).isSome := by
  by_cases hrunning : s.keyOnce = .running
  · obtain ⟨t, ht⟩ := hkey hrunning
    refine ⟨t, 1, Nat.one_ne_zero, ?_⟩
    rw [go, ht]
    rfl
  by_cases hjoin : ∃ buf i, s.phase none = .join buf i
  · obtain ⟨buf, i, hy⟩ := hjoin
    rw [Order, hy] at horder
    by_cases hi : i < n
    · by_cases hexited : s.phase (some ⟨i, hi⟩) = .exited
      · refine ⟨none, 1, Nat.one_ne_zero, ?_⟩
        rw [go, hy]
        dsimp only
        rw [dif_pos hi, if_pos hexited]
        rfl
      · refine ⟨some ⟨i, hi⟩, h.go_isSome hrunning (horder _).1 hexited fun buf' i' hy' ↦ ?_⟩
        have hsound := h.sound (some ⟨i, hi⟩)
        rw [hy'] at hsound
        exact absurd hsound.1 (Option.some_ne_none _)
    · refine ⟨none, 1, Nat.one_ne_zero, ?_⟩
      rw [go, hy]
      dsimp only
      rw [dif_neg hi]
      rfl
  · refine ⟨none, h.go_isSome hrunning (fun hy ↦ ?_) hmain fun buf i hy ↦ hjoin ⟨buf, i, hy⟩⟩
    rw [Order, hy] at horder
    exact horder

/-! ## Every run -/

/-- What holds in every run. -/
structure Safe (s : State n) : Prop where
  inv : Inv s
  order : Order s.phase
  key : s.KeyMaker

theorem safe_initial (n : ℕ) : Safe (initial n) where
  inv := inv_initial n
  order := order_initial n
  key := fun hrunning ↦ by cases hrunning

theorem Safe.of_go (h : Safe s) (ha : a ≠ 0) (hgo : go s t a = some s') : Safe s' where
  inv := (h.inv.of_go h.order ha hgo).1
  order := (h.inv.of_go h.order ha hgo).2
  key := h.key.of_go h.inv h.order hgo

/-- When `main` has ended, every thread has, and only the buffer of `main` is left. -/
theorem Safe.at_end (h : Safe s) (hmain : s.phase none = .exited) :
    (∀ i, s.phase (some i) = .exited) ∧ ∀ p, s.heap p ≠ .free ↔ p = s.specific none := by
  have hall : ∀ i, s.phase (some i) = .exited := by
    have horder := h.order
    rwa [Order, hmain] at horder
  have hsound := h.inv.sound
  refine ⟨hall, fun p ↦ ⟨fun hp ↦ ?_, ?_⟩⟩
  · obtain ⟨hpos, t, rfl⟩ := h.inv.owned p hp
    cases t with
    | none =>
      rw [State.buffer, hmain]
      rfl
    | some i =>
      refine absurd ?_ hpos
      have hi := hsound (some i)
      rw [hall i] at hi
      rw [State.buffer, hall i]
      exact hi.2 (Option.some_ne_none i)
  · rintro rfl
    have hnone := hsound none
    rw [hmain] at hnone
    exact (hnone.1 rfl).2

/-- **Every thread has its own buffer.** However the threads are interrupted, as long as `malloc`
finds memory nobody writes into, reads or frees a buffer that is not allocated, no two have the same
one, and every line shows the number of who prints it. The program makes no more statements than it
has, never stands still before its end, and then every thread has printed and freed its buffer. The
buffer of `main`, which is printed twice, is not freed. -/
theorem own_buffer {es : List (Option (Fin n) × ℕ)} {s : State n} (ha : ∀ e ∈ es, e.2 ≠ 0)
    (hrun : Run Step (initial n) es s) :
    es.length ≤ 10 * n + 10 ∧ (∀ t, s.phase t ≠ .crashed) ∧
      (∀ t u, s.buffer t ≠ 0 → s.buffer t = s.buffer u → t = u) ∧
      (∀ y ∈ s.out, y.2.1 = number y.1) ∧
      (s.phase none ≠ .exited → ∃ e s', e.2 ≠ 0 ∧ Step s e s') ∧
      (s.phase none = .exited → (∀ i, s.phase (some i) = .exited) ∧
        (∀ p, s.heap p ≠ .free ↔ p = s.specific none) ∧
        ∀ t, (s.out.map Prod.fst).count t = if t = none then 2 else 1) := by
  have hsafe : Safe s := hrun.preserves (I := Safe) (P := fun e : Option (Fin n) × ℕ ↦ e.2 ≠ 0)
    (fun _ _ _ h ha hstep ↦ h.of_go ha hstep) ha (safe_initial n)
  have hfound : Run (fun s e s' ↦ e.2 ≠ 0 ∧ Step s e s') (initial n) es s :=
    hrun.imp_of (fun _ _ _ ha hstep ↦ ⟨ha, hstep⟩) ha
  have hlen : es.length ≤ (initial n).rank :=
    hfound.length_le_of_invariant
      (fun _ _ _ h hstep ↦ ⟨h.of_go hstep.1 hstep.2, h.inv.rank_lt h.order hstep.2⟩)
      (safe_initial n)
  rw [initial_rank] at hlen
  refine ⟨hlen, fun t ht ↦ ?_, hsafe.inv.apart, hsafe.inv.out, fun hmain ↦ ?_, fun hmain ↦ ?_⟩
  · have hsound := hsafe.inv.sound t
    rw [ht] at hsound
    exact hsound
  · obtain ⟨t, a, hpos, hsome⟩ := hsafe.inv.goes_on hsafe.order hsafe.key hmain
    exact ⟨(t, a), (go s t a).get hsome, hpos, (Option.some_get hsome).symm⟩
  · obtain ⟨hall, hheap⟩ := hsafe.at_end hmain
    refine ⟨hall, hheap, fun t ↦ ?_⟩
    rw [hsafe.inv.lines t]
    cases t with
    | none =>
      rw [hmain]
      rfl
    | some i =>
      rw [hall i]
      rfl

/-- `main`, whose buffer is at 7. -/
def first : Option (Fin 2) × ℕ := (none, 7)

/-- The thread 0, whose buffer is at 8. -/
def second : Option (Fin 2) × ℕ := (some ⟨0, Nat.two_pos⟩, 8)

/-- The thread 1, whose buffer is at 9. -/
def third : Option (Fin 2) × ℕ := (some ⟨1, Nat.one_lt_two⟩, 9)

/-- The thread 1 writes its number between the call and the `printf` of the thread 0. -/
def twoThreads : List (Option (Fin 2) × ℕ) :=
  [first, first, first, first, first, first, first, first, second, second, second, second, second,
    first, third, third, third, third, third, second, third, second, first, first, third, first,
    first, first]

theorem own_buffer_two : ∃ s : State 2, Run Step (initial 2) twoThreads s ∧
    s.out.map (fun y ↦ y.2.2) = [7, 9, 8, 7] ∧ (∀ y ∈ s.out, y.2.1 = number y.1) ∧
      ∀ p, s.heap p ≠ .free ↔ p = 7 := by
  have hexec : (twoThreads.foldlM (fun s e ↦ go s e.1 e.2) (initial 2)).map
      (fun s ↦ (s.out.map (fun y ↦ y.2.2), s.phase none, s.specific none))
        = some ([7, 9, 8, 7], .exited, 7) := by
    decide +kernel
  obtain ⟨s, hrun, hview⟩ := exists_run_of_map hexec
  rw [Prod.mk.injEq, Prod.mk.injEq] at hview
  obtain ⟨hout, hmain, hspecific⟩ := hview
  obtain ⟨-, -, -, hnumber, -, hend⟩ := own_buffer (by decide) hrun
  refine ⟨s, hrun, hout, hnumber, fun p ↦ ?_⟩
  rw [(hend hmain).2.1 p, hspecific]

end AllProjects.SafePthread
