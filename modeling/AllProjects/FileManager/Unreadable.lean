import AllProjects.FileManager.Keys

/-!
# Directories that cannot be read

`free_fil` runs before `get_dir_info` knows whether the directory can be read. When `scandir` fails
the panel is left without a list: ENTER then follows `current_file` at once, F5 and F8 leave that to
the next key. The same happens when `scandir` finds no entry 1. And `init_core` goes on with a panel
that has no list yet, when it cannot read one of the two directories.

As long as both directories at the start and every directory that is reloaded have an entry 1, both
panels keep a cursor; and a key that reloads one without does what it must not.
-/

namespace AllProjects

namespace FileManager

variable {Dir : Type}

/-- What a key must do: it follows no NULL pointer and leaves none behind as a cursor, and when the
new directory cannot be read everything stays as it was. -/
structure Intact (e : Event Dir) (s : State Dir) : Prop where
  not_segv : handle e s ≠ .error .segv
  cursor : ∀ t, handle e s = .ok t → ∀ p, (t.panels p).currentFile ≠ none
  same : ∀ dir t, reloadDir e s = some dir → e.env.fs.scandir dir dot = none →
    handle e s = .ok t → t = s

/-- The directory that is reloaded, if there is one, has an entry 1. A copy that cannot be started
ends the program before the reload. -/
def Covered (e : Event Dir) (s : State Dir) : Prop :=
  (e.key = .f5 → e.proceeds = true) → ∀ dir, reloadDir e s = some dir → Reads e.env.fs dir

namespace State.Holds

variable {s t : State Dir} {lists lists' : Side → List (ℕ × FileInfo)} {e : Event Dir}

theorem lists_ne_nil (hne : ∀ p, lists p ≠ []) (he : Covered e s)
    (hmove : Move s lists e t lists') : ∀ p, lists' p ≠ [] := by
  cases hmove with
  | cursor _ _ _ => exact hne
  | switch _ _ => exact hne
  | @reload dir t l hload hre _ hproceeds =>
    have hl : l ≠ [] := hre.reads_iff.mpr (he hproceeds dir hload)
    apply (Function.forall_update_iff lists (p := fun _ (l : List (ℕ × FileInfo)) ↦ l ≠ [])).mpr
    exact ⟨hl, fun p _ ↦ hne p⟩

/-- **A key is safe exactly when the directory that it reloads has an entry 1.** -/
theorem intact_iff (hs : s.Holds lists) (hne : ∀ p, lists p ≠ []) : Intact e s ↔ Covered e s := by
  have hcur : s.active.currentFile ≠ none := (hs.current_ne_none_iff s.cd).mpr (hne s.cd)
  have houtcome := hs.handle_cases e
  constructor
  -- an unreadable directory ends the program, or leaves a panel without a cursor
  · intro hintact hproceeds dir hload
    by_contra hreads
    cases houtcome with
    | exit _ hexit =>
      cases hexit with
      | chdir hswitch _ =>
        rw [switchTarget_of_reloadDir hload] at hswitch
        cases hswitch
      | copy hkey hfalse =>
        rw [hproceeds hkey] at hfalse
        cases hfalse
      | givesUp hload' hscan hlen _ =>
        cases hload.symm.trans hload'
        exact hreads ⟨_, _, hscan, hlen⟩
    | segv hsegv _ => exact hintact.not_segv hsegv
    | move hok hmove hholds =>
      cases hmove with
      | cursor hnone _ _ =>
        rw [hload] at hnone
        cases hnone
      | switch hswitch _ =>
        rw [switchTarget_of_reloadDir hload] at hswitch
        cases hswitch
      | reload hload' hre _ _ =>
        cases hload.symm.trans hload'
        have hl := (hholds.current_ne_none_iff s.cd).mp (hintact.cursor _ hok s.cd)
        rw [Function.update_self] at hl
        exact hreads (hre.reads_iff.mp hl)
  · intro hcov
    cases houtcome with
    | exit hexit _ =>
      constructor
      · rw [hexit]
        rintro ⟨⟩
      · intro t hok
        rw [hexit] at hok
        cases hok
      · intro dir t _ _ hok
        rw [hexit] at hok
        cases hok
    | segv _ hwhy =>
      cases hwhy with
      | noCursor hnone => exact absurd hnone hcur
      | unread hkey hload hreads =>
        refine absurd (hcov ?_ _ hload) hreads
        rw [hkey]
        rintro ⟨⟩
    -- both panels have entries again, and so a cursor
    | move hok hmove hholds =>
      have hne' := lists_ne_nil hne hcov hmove
      constructor
      · rw [hok]
        rintro ⟨⟩
      · intro t' ht' p
        cases hok.symm.trans ht'
        exact (hholds.current_ne_none_iff p).mpr (hne' p)
      · intro dir t' hload hscan _
        cases hmove with
        | cursor hnone _ _ =>
          rw [hload] at hnone
          cases hnone
        | switch hswitch _ =>
          rw [switchTarget_of_reloadDir hload] at hswitch
          cases hswitch
        | reload _ _ _ hproceeds =>
          obtain ⟨opened, fnl, hread, -⟩ := hcov hproceeds dir hload
          rw [hscan] at hread
          cases hread

end State.Holds

/-- **Unreadable directories.** When both directories of `init_core` have an entry 1, the start
follows no NULL pointer. The panels then have a cursor, and only then. After keys that only reloaded
directories with an entry 1 both panels still have one, and the next key does what it must exactly
when it is of that kind, too. -/
theorem intact_iff_covered (env : Env Dir) (home pwd : Option (List UInt8))
    (junk : Side → DirInfo Dir) (cwd : Dir) :
    (StartReads env.fs home pwd cwd → start env home pwd junk cwd ≠ .error .segv)
      ∧ ∀ s, start env home pwd junk cwd = .ok s →
        ((∀ p, (s.panels p).currentFile ≠ none) ↔ StartReads env.fs home pwd cwd)
        ∧ (StartReads env.fs home pwd cwd → ∀ {t : State Dir} {es : List (Event Dir)},
            Run (fun s e t ↦ Covered e s ∧ Step s e t) s es t →
            (∀ p, (t.panels p).currentFile ≠ none) ∧ ∀ e, Intact e t ↔ Covered e t) := by
  refine ⟨fun hreads ↦ start_ne_segv hreads junk, ?_⟩
  intro s hstart
  obtain ⟨lists, hholds, hne⟩ := start_lists hstart
  constructor
  · rw [← hne]
    exact forall_congr' hholds.current_ne_none_iff
  · intro hreads t es hrun
    obtain ⟨lists, ht, hne⟩ : ∃ lists, t.Holds lists ∧ ∀ p, lists p ≠ [] := by
      apply hrun.invariant (I := fun s ↦ ∃ lists, s.Holds lists ∧ ∀ p, lists p ≠ []) _
        ⟨lists, hholds, hne.mpr hreads⟩
      rintro s e t ⟨lists, hs, hne⟩ ⟨he, hstep⟩
      obtain ⟨lists', hmove, ht⟩ := hs.step hstep
      exact ⟨lists', ht, State.Holds.lists_ne_nil hne he hmove⟩
    exact ⟨fun p ↦ (ht.current_ne_none_iff p).mpr (hne p), fun e ↦ ht.intact_iff hne⟩

/-- The directory `/`, with a directory `a` that can be entered but not read. -/
def lockedDir : FileSystem Bool where
  chdir := fun c p ↦ if p = [47] then some true else if c && (p = [97]) then some false else none
  scandir := fun c p ↦ if c || (p = [47]) then some (true, dotsAndA) else none
  path := fun c ↦ if c then some [47] else some [47, 97]
  stat := fun _ _ ↦ some 0o040755

/-- The empty panels of the example. -/
def lockedJunk : Side → DirInfo Bool := fun _ ↦ ⟨[], 0, none, none, none, [], true⟩

/-- Whether a key follows a NULL pointer. -/
def endsInSegv : Except Stop (State Dir) → Bool
  | .error .segv => true
  | _ => false

theorem eq_of_endsInSegv {x : Except Stop (State Dir)} (h : endsInSegv x = true) :
    x = .error .segv := by
  cases x with
  | ok s => cases h
  | error e =>
    cases e with
    | exit => cases h
    | segv => rfl

/-- From `/` the cursor moves down to `a`, where ENTER finds no cursor any more. -/
theorem exists_start_lockedDir : ∃ s t,
    start ⟨lockedDir, .bump⟩ (some [47]) (some [47]) lockedJunk true = .ok s
    ∧ Step s ⟨.down, ⟨lockedDir, .bump⟩, true⟩ t
    ∧ handle ⟨.enter, ⟨lockedDir, .bump⟩, true⟩ t = .error .segv := by
  have hok : (start ⟨lockedDir, .bump⟩ (some [47]) (some [47]) lockedJunk true >>=
      handle ⟨.down, ⟨lockedDir, .bump⟩, true⟩).isOk = true := by
    decide +kernel
  have hbad : endsInSegv (start ⟨lockedDir, .bump⟩ (some [47]) (some [47]) lockedJunk true >>=
      handle ⟨.down, ⟨lockedDir, .bump⟩, true⟩ >>=
      handle ⟨.enter, ⟨lockedDir, .bump⟩, true⟩) = true := by
    decide +kernel
  obtain ⟨t, ht⟩ := Except.exists_eq_ok_of_isOk hok
  rw [ht, Except.ok_bind_eq] at hbad
  obtain ⟨s, hs, hdown⟩ := Except.bind_eq_ok_iff.mp ht
  exact ⟨s, t, hs, hdown, eq_of_endsInSegv hbad⟩

theorem intact_iff_covered_root : ∃ s t,
    start ⟨lockedDir, .bump⟩ (some [47]) (some [47]) lockedJunk true = .ok s
    ∧ Step s ⟨.down, ⟨lockedDir, .bump⟩, true⟩ t
    ∧ ∀ p, (t.panels p).currentFile ≠ none := by
  obtain ⟨s, t, hs, hdown, -⟩ := exists_start_lockedDir
  have hrun : Run (fun s e t ↦ Covered e s ∧ Step s e t) s
      [⟨.down, ⟨lockedDir, .bump⟩, true⟩] t :=
    Run.single ⟨fun _ dir hdir ↦ (by cases hdir), hdown⟩
  have hreads : ReadsAt lockedDir true [47] := ⟨true, dotsAndA, rfl, by decide⟩
  have hboth : StartReads lockedDir (some [47]) (some [47]) true :=
    ⟨_, _, true, true, rfl, rfl, rfl, rfl, hreads, hreads⟩
  exact ⟨s, t, hs, hdown, (((intact_iff_covered _ _ _ _ _).2 s hs).2 hboth hrun).1⟩

/-- **ENTER on a directory that cannot be read follows a NULL pointer**, and so does DOWN when the
program was started in one. -/
theorem enter_unreadable_segv : (¬∀ (Dir : Type) (env : Env Dir) (home pwd : Option (List UInt8))
    (junk : Side → DirInfo Dir) (cwd : Dir) (s t : State Dir) (es : List (Event Dir)),
    start env home pwd junk cwd = .ok s → Run Step s es t → ∀ e, Intact e t)
    ∧ ∃ s, start ⟨lockedDir, .bump⟩ (some [47]) (some [97]) lockedJunk true = .ok s
      ∧ handle ⟨.down, ⟨lockedDir, .bump⟩, true⟩ s = .error .segv := by
  constructor
  · intro hall
    obtain ⟨s, t, hs, hdown, henter⟩ := exists_start_lockedDir
    exact (hall Bool _ _ _ _ _ s t _ hs (Run.single hdown) _).not_segv henter
  · have hok : (start ⟨lockedDir, .bump⟩ (some [47]) (some [97]) lockedJunk true).isOk = true := by
      decide +kernel
    have hbad : endsInSegv (start ⟨lockedDir, .bump⟩ (some [47]) (some [97]) lockedJunk true >>=
        handle ⟨.down, ⟨lockedDir, .bump⟩, true⟩) = true := by
      decide +kernel
    obtain ⟨s, hs⟩ := Except.exists_eq_ok_of_isOk hok
    rw [hs, Except.ok_bind_eq] at hbad
    exact ⟨s, hs, eq_of_endsInSegv hbad⟩

end FileManager

end AllProjects
