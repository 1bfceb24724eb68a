import AllProjects.Transition.Tidy

/-!
# Two programs that fork

The first has six processes: the first one forks two, which fork one and two more. The second forks
one process, which becomes `ls`. Every process waits for as many children as it forked, so both are
tidy.

In a terminal each line appears once. Written to a file, a line of the first program appears as
often as processes end that have it in their buffers, and in the second program what the child says
of itself is lost when it becomes `ls`. What `ls` writes is not modelled.
-/

namespace AllProjects

open Processes

namespace Fork

/-- `"(n): pid: %d ppid: %d\n"`, and the empty line at the end. -/
inductive Line
  | number (n : ℕ)
  | newline
  deriving DecidableEq

/-- The processes 4, 5 and 6. -/
def leaf (n : ℕ) : Script Line := .print (.number n) .exit

/-- The process 2. -/
def second : Script Line := .print (.number 2) (.fork (leaf 4) (.wait .exit))

/-- The process 3. -/
def third : Script Line :=
  .print (.number 3) (.fork (leaf 5) (.fork (leaf 6) (.wait (.wait .exit))))

/-- `main` -/
def main : Script Line :=
  .print (.number 1)
    (.fork second (.fork third (.wait (.wait (.print .newline .exit)))))

theorem tidy_main : main.Tidy 0 := ⟨⟨rfl, rfl⟩, ⟨rfl, rfl, rfl⟩, rfl⟩

/-- The lines in a terminal, or in a file. -/
def printed (tty : Bool) : Multiset Line :=
  if tty then {.number 1, .number 2, .number 3, .number 4, .number 5, .number 6, .newline}
  else Multiset.replicate 6 (.number 1) + Multiset.replicate 2 (.number 2)
    + Multiset.replicate 3 (.number 3) + {.number 4, .number 5, .number 6, .newline}

theorem due_main (tty : Bool) : main.due tty [] = printed tty := by
  cases tty <;> decide

/-- **No process is left behind.** However the six processes are scheduled, and whether or not a
`fork` fails, the program ends after at most so many steps, every process finds its own parent under
`getppid`, and when the first process has exited there is no other. Where no `fork` fails, the lines
come out as often as they should. -/
theorem no_process_is_left {tty : Bool} {busy : List ℕ} {root shell : ℕ} {es : List (ℕ × Choice)}
    {s : Processes Line} (hroot : root ∉ busy) (hshell : shell ∈ busy)
    (hrun : Run (Step tty busy) (start root shell main) es s) :
    es.length ≤ 23 ∧ (∀ x ∈ s.out, x.ppid = x.maker) ∧
      (∀ P ∈ s.procs, P.pid = root → P.prog = none → s.procs = [P]) ∧
      ((∀ e t, ¬Step tty busy s e t) → (∃ P, s.procs = [P] ∧ P.pid = root ∧ P.prog = none) ∧
        ((∀ e ∈ es, e.2 ≠ .failed) →
          (s.out.map Entry.line : Multiset Line) = printed tty)) := by
  have hinv := inv_of_run hroot hshell tidy_main hrun
  refine ⟨length_le_of_run hroot hshell tidy_main hrun, hinv.out,
    fun P hP hpid hprog ↦ hinv.alone hP hpid hprog, fun hend ↦ ?_⟩
  rw [← due_main]
  exact end_of_run hroot hshell tidy_main hrun hend

/-- The shell 1 starts the process 2, and the two children run side by side. -/
def sideBySide : List (ℕ × Choice) :=
  [(2, .go), (2, .born 3), (2, .born 4), (3, .go), (4, .go), (4, .born 5), (3, .born 6), (6, .go),
    (5, .go), (5, .go), (4, .born 7), (4, .reaped 5), (7, .go), (7, .go), (4, .reaped 7), (4, .go),
    (6, .go), (3, .reaped 6), (3, .go), (2, .reaped 4), (2, .reaped 3), (2, .go), (2, .go)]

theorem no_process_is_left_side_by_side : ∃ s : Processes Line,
    Run (Step true [1]) (start 2 1 main) sideBySide s ∧ (∀ x ∈ s.out, x.ppid = x.maker) ∧
      (s.out.map Entry.line : Multiset Line) = printed true := by
  have hrun : ∃ s : Processes Line, Run (Step true [1]) (start 2 1 main) sideBySide s ∧
      s.procs = [⟨2, 1, 1, [], none⟩] :=
    ⟨_, .cons rfl <| .cons rfl <| .cons rfl <| .cons rfl <| .cons rfl <| .cons rfl <| .cons rfl <|
      .cons rfl <| .cons rfl <| .cons rfl <| .cons rfl <| .cons rfl <| .cons rfl <| .cons rfl <|
      .cons rfl <| .cons rfl <| .cons rfl <| .cons rfl <| .cons rfl <| .cons rfl <| .cons rfl <|
      .cons rfl <| .cons rfl <| .nil _, rfl⟩
  obtain ⟨s, hrun, hprocs⟩ := hrun
  obtain ⟨-, hparents, -, hend⟩ := no_process_is_left (by decide) (by decide) hrun
  have hzombies : ∀ P ∈ s.procs, P.prog = none := by
    intro P hP
    rw [hprocs] at hP
    obtain rfl := List.mem_singleton.mp hP
    rfl
  exact ⟨s, hrun, hparents, (hend fun e t ↦ not_step_of_zombies hzombies).2 (by decide)⟩

end Fork

namespace ForkExec

/-- What `main` and its child say of themselves, and the empty line at the end. -/
inductive Line
  | main
  | child
  | newline
  deriving DecidableEq

/-- `main` -/
def main : Script Line :=
  .print .main (.fork (.print .child (.exec .exit)) (.wait (.print .newline .exit)))

theorem tidy_main : main.Tidy 0 := ⟨⟨rfl, rfl⟩, rfl⟩

/-- The lines in a terminal, or in a file. -/
def printed (tty : Bool) : Multiset Line :=
  if tty then {.main, .child, .newline} else {.main, .newline}

theorem due_main (tty : Bool) : main.due tty [] = printed tty := by
  cases tty <;> decide

/-- **The child is waited for**, also when `execv` fails. Where nothing fails, what it says of
itself comes out in a terminal only. -/
theorem child_is_waited_for {tty : Bool} {busy : List ℕ} {root shell : ℕ}
    {es : List (ℕ × Choice)} {s : Processes Line} (hroot : root ∉ busy) (hshell : shell ∈ busy)
    (hrun : Run (Step tty busy) (start root shell main) es s) :
    (∀ x ∈ s.out, x.ppid = x.maker) ∧
      ((∀ e t, ¬Step tty busy s e t) → (∃ P, s.procs = [P] ∧ P.pid = root ∧ P.prog = none) ∧
        ((∀ e ∈ es, e.2 ≠ .failed) →
          (s.out.map Entry.line : Multiset Line) = printed tty)) := by
  refine ⟨(inv_of_run hroot hshell tidy_main hrun).out, fun hend ↦ ?_⟩
  rw [← due_main]
  exact end_of_run hroot hshell tidy_main hrun hend

end ForkExec

end AllProjects
