import AllProjects.Transition.Run
import Mathlib.Algebra.BigOperators.Group.Multiset.Basic

/-!
# Processes that fork

A program forks children, prints lines, waits and exits. Its processes run in any order; `fork` and
`exec` may fail, and `wait` takes any child that has ended. A process that exits leaves its children
to init.

What is printed to a terminal appears at once. What is printed to a file stays in a buffer that
`fork` copies, that `exit` writes out and that `exec` throws away.
-/

namespace AllProjects

/-- What a process has before it. -/
inductive Script (L : Type*)
  | exit
  | print (line : L) (rest : Script L)
  | fork (child rest : Script L)
  | wait (rest : Script L)
  | exec (rest : Script L)

/-- A printed line, with what `getpid` and `getppid` said, and the process that forked the one that
printed it. -/
structure Entry (L : Type*) where
  line : L
  pid : ℕ
  ppid : ℕ
  maker : ℕ

/-- A process, or a zombie, which has no program any more. `maker` is the process that forked it;
`ppid` changes when that one exits. -/
structure Process (L : Type*) where
  pid : ℕ
  ppid : ℕ
  maker : ℕ
  buf : List (Entry L)
  prog : Option (Script L)

/-- The processes of the program, the last one born first, and what has been printed. -/
structure Processes (L : Type*) where
  procs : List (Process L)
  out : List (Entry L)

/-- How a statement comes out: as it should, with a child of this number, with this child taken, or
as a failure. -/
inductive Choice
  | go
  | born (q : ℕ)
  | reaped (q : ℕ)
  | failed
  deriving DecidableEq

namespace Process

variable {L : Type*}

/-- The process goes on with `r`. -/
def goOn (r : Script L) (P : Process L) : Process L := { P with prog := some r }

/-- The process is a zombie. -/
def die (P : Process L) : Process L := { P with prog := none, buf := [] }

/-- The process has become another program, which only ends. -/
def replaced (P : Process L) : Process L := { P with prog := some .exit, buf := [] }

/-- The line as this process prints it. -/
def entry (P : Process L) (line : L) : Entry L := ⟨line, P.pid, P.ppid, P.maker⟩

/-- The line goes into the buffer. -/
def keep (line : L) (r : Script L) (P : Process L) : Process L :=
  { P with prog := some r, buf := P.buf ++ [P.entry line] }

/-- The link to the parent. -/
def link (P : Process L) : ℕ × ℕ := (P.pid, P.ppid)

end Process

namespace Processes

variable {L : Type*}

/-- Change the process of this number. -/
def update (p : ℕ) (f : Process L → Process L) (procs : List (Process L)) : List (Process L) :=
  procs.map fun P ↦ if P.pid = p then f P else P

/-- The children of a process that has exited: zombies are taken by init, and the others are its
children now. -/
def disown (p : ℕ) (procs : List (Process L)) : List (Process L) :=
  (procs.filter fun P ↦ ¬(P.ppid = p ∧ P.prog.isNone)).map fun P ↦
    if P.ppid = p then { P with ppid := 1 } else P

/-- The next statement of the process `P`. `busy` are the numbers of the other processes of the
system. -/
def go (tty : Bool) (busy : List ℕ) (s : Processes L) (P : Process L) (c : Choice) :
    Option (Processes L) :=
  match P.prog, c with
  | some .exit, .go =>
    some { procs := disown P.pid (update P.pid Process.die s.procs), out := s.out ++ P.buf }
  | some (.print line r), .go =>
    if tty then
      some { procs := update P.pid (Process.goOn r) s.procs, out := s.out ++ [P.entry line] }
    else some { s with procs := update P.pid (Process.keep line r) s.procs }
  | some (.fork child r), .born q =>
    if q ∉ busy ∧ q ∉ s.procs.map Process.pid then
      some { s with
        procs := ⟨q, P.pid, P.pid, P.buf, some child⟩ :: update P.pid (Process.goOn r) s.procs }
    else none
  | some (.fork _ r), .failed => some { s with procs := update P.pid (Process.goOn r) s.procs }
  | some (.wait r), .reaped q =>
    if ∃ Q ∈ s.procs, Q.pid = q ∧ Q.ppid = P.pid ∧ Q.prog.isNone then
      some { s with
        procs := (update P.pid (Process.goOn r) s.procs).filter fun Q ↦ Q.pid ≠ q }
    else none
  | some (.wait r), .go =>
    if ∀ Q ∈ s.procs, Q.ppid ≠ P.pid then
      some { s with procs := update P.pid (Process.goOn r) s.procs }
    else none
  | some (.exec _), .go => some { s with procs := update P.pid Process.replaced s.procs }
  | some (.exec r), .failed => some { s with procs := update P.pid (Process.goOn r) s.procs }
  | _, _ => none

/-- The process of this number goes on. -/
def exec (tty : Bool) (busy : List ℕ) (s : Processes L) (e : ℕ × Choice) : Option (Processes L) :=
  match s.procs.find? fun P ↦ P.pid = e.1 with
  | some P => s.go tty busy P e.2
  | none => none

/-- One step. -/
def Step (tty : Bool) (busy : List ℕ) (s : Processes L) (e : ℕ × Choice) (t : Processes L) : Prop :=
  s.exec tty busy e = some t

/-- The program has been started. -/
def start (root shell : ℕ) (prog : Script L) : Processes L :=
  ⟨[⟨root, shell, shell, [], some prog⟩], []⟩

/-! ## Lists of processes -/

section Update

variable {p : ℕ} {f : Process L → Process L} {procs : List (Process L)}

theorem mem_update {Q : Process L} (hQ : Q ∈ update p f procs) :
    ∃ P ∈ procs, P.pid = p ∧ Q = f P ∨ P.pid ≠ p ∧ Q = P := by
  obtain ⟨P, hP, rfl⟩ := List.mem_map.mp hQ
  by_cases hp : P.pid = p
  · exact ⟨P, hP, .inl ⟨hp, if_pos hp⟩⟩
  · exact ⟨P, hP, .inr ⟨hp, if_neg hp⟩⟩

theorem links_update (hf : ∀ P, (f P).link = P.link) :
    (update p f procs).map Process.link = procs.map Process.link := by
  rw [update, List.map_map]
  apply List.map_congr_left
  intro P _
  rw [Function.comp_apply]
  split
  · exact hf P
  · rfl

theorem sum_update {M : Type*} [AddCommMonoid M] (w : Process L → M)
    (hnodup : (procs.map Process.pid).Nodup) {P : Process L} (hP : P ∈ procs) :
    ((update P.pid f procs).map w).sum + w P = (procs.map w).sum + w (f P) := by
  induction procs with
  | nil => exact absurd hP List.not_mem_nil
  | cons Q procs ih =>
    rw [List.map_cons, List.nodup_cons] at hnodup
    rw [update, List.map_cons, List.map_cons, List.sum_cons, List.map_cons, List.sum_cons]
    rcases List.mem_cons.mp hP with rfl | hP
    · have hsame : update P.pid f procs = procs := by
        apply List.map_congr_left _ |>.trans (List.map_id procs)
        intro Q hQ
        have hne : Q.pid ≠ P.pid := fun heq ↦ hnodup.1 (heq ▸ List.mem_map_of_mem hQ)
        exact if_neg hne
      rw [if_pos rfl, ← update, hsame]
      abel
    · have hne : Q.pid ≠ P.pid := fun heq ↦ hnodup.1 (heq ▸ List.mem_map_of_mem hP)
      rw [if_neg hne, add_assoc, ← update, ih hnodup.2 hP, add_assoc]

theorem sum_filter {M : Type*} [AddCommMonoid M] (w : Process L → M) {keep : Process L → Bool}
    (hzero : ∀ P ∈ procs, keep P = false → w P = 0) :
    ((procs.filter keep).map w).sum = (procs.map w).sum := by
  induction procs with
  | nil => rfl
  | cons P procs ih =>
    have hrest := ih fun Q hQ ↦ hzero Q (List.mem_cons_of_mem _ hQ)
    rw [List.map_cons, List.sum_cons, ← hrest, List.filter_cons]
    cases hkeep : keep P with
    | true => rw [if_pos rfl, List.map_cons, List.sum_cons]
    | false =>
      rw [if_neg Bool.noConfusion, hzero P List.mem_cons_self hkeep, zero_add]

theorem disown_eq (h : ∀ P ∈ procs, P.ppid ≠ p) : disown p procs = procs := by
  rw [disown, List.filter_eq_self.mpr]
  · apply (List.map_congr_left fun P hP ↦ ?_).trans (List.map_id procs)
    exact if_neg (h P hP)
  · intro P hP
    rw [decide_eq_true_iff]
    exact fun hzombie ↦ h P hP hzombie.1

end Update

/-! ## One step -/

/-- What a step does. -/
inductive Move (tty : Bool) (busy : List ℕ) (s : Processes L) (P : Process L) :
    Choice → Processes L → Prop
  | exit : P.prog = some .exit →
      Move tty busy s P .go ⟨disown P.pid (update P.pid Process.die s.procs), s.out ++ P.buf⟩
  | shown {line : L} {r : Script L} : P.prog = some (.print line r) → tty = true →
      Move tty busy s P .go ⟨update P.pid (Process.goOn r) s.procs, s.out ++ [P.entry line]⟩
  | kept {line : L} {r : Script L} : P.prog = some (.print line r) → tty = false →
      Move tty busy s P .go ⟨update P.pid (Process.keep line r) s.procs, s.out⟩
  | born {q : ℕ} {child r : Script L} : P.prog = some (.fork child r) → q ∉ busy →
      q ∉ s.procs.map Process.pid → Move tty busy s P (.born q)
        ⟨⟨q, P.pid, P.pid, P.buf, some child⟩ :: update P.pid (Process.goOn r) s.procs, s.out⟩
  | unborn {child r : Script L} : P.prog = some (.fork child r) →
      Move tty busy s P .failed ⟨update P.pid (Process.goOn r) s.procs, s.out⟩
  | reaped {Q : Process L} {r : Script L} : P.prog = some (.wait r) → Q ∈ s.procs → Q.ppid = P.pid →
      Q.prog = none → Move tty busy s P (.reaped Q.pid)
        ⟨(update P.pid (Process.goOn r) s.procs).filter fun R ↦ R.pid ≠ Q.pid, s.out⟩
  | childless {r : Script L} : P.prog = some (.wait r) → (∀ Q ∈ s.procs, Q.ppid ≠ P.pid) →
      Move tty busy s P .go ⟨update P.pid (Process.goOn r) s.procs, s.out⟩
  | replaced {r : Script L} : P.prog = some (.exec r) →
      Move tty busy s P .go ⟨update P.pid Process.replaced s.procs, s.out⟩
  | unreplaced {r : Script L} : P.prog = some (.exec r) →
      Move tty busy s P .failed ⟨update P.pid (Process.goOn r) s.procs, s.out⟩

variable {tty : Bool} {busy : List ℕ} {s t : Processes L} {e : ℕ × Choice}

theorem move_of_go {P : Process L} {c : Choice} (h : s.go tty busy P c = some t) :
    Move tty busy s P c t := by
  unfold go at h
  split at h
  · cases h
    exact .exit ‹_›
  · split at h
    · cases h
      exact .shown ‹_› ‹_›
    · cases h
      exact .kept ‹_› (Bool.eq_false_of_not_eq_true ‹_›)
  · split at h
    · rename_i hfresh
      cases h
      exact .born ‹_› hfresh.1 hfresh.2
    · cases h
  · cases h
    exact .unborn ‹_›
  · split at h
    · rename_i hzombie
      obtain ⟨Q, hQ, rfl, hparent, hprog⟩ := hzombie
      cases h
      exact .reaped ‹_› hQ hparent (Option.isNone_iff_eq_none.mp hprog)
    · cases h
  · split at h
    · cases h
      exact .childless ‹_› ‹_›
    · cases h
  · cases h
    exact .replaced ‹_›
  · cases h
    exact .unreplaced ‹_›
  · cases h

theorem Step.move (h : Step tty busy s e t) :
    ∃ P ∈ s.procs, P.pid = e.1 ∧ Move tty busy s P e.2 t := by
  rw [Step, Processes.exec] at h
  cases hfind : s.procs.find? fun P ↦ P.pid = e.1 with
  | none =>
    rw [hfind] at h
    cases h
  | some P =>
    rw [hfind] at h
    exact ⟨P, List.mem_of_find?_eq_some hfind, by simpa using List.find?_some hfind, move_of_go h⟩

end Processes

end AllProjects
