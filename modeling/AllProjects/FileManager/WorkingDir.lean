import AllProjects.FileManager.Keys

/-!
# The working directory and the panel that is shown

A panel remembers its directory as a path in a buffer of `BUF_SIZE` bytes, and as `"-"` when the
path does not fit. A switch to the panel goes where that string leads. So the working directory is
the one that was listed as long as no switch follows a `"-"` to some other directory of that name.

Directories are assumed to stay where they are: the path that `getcwd` found leads there later on.
-/

namespace AllProjects

namespace FileManager

section

variable {Dir : Type} {path : Dir → Option (List UInt8)}

/-- A file system in which each directory has the path that `path` says: `getcwd` finds it, and it
leads there from everywhere. `"."` is the working directory, and for a path that starts with a slash
`scandir` opens the directory that `chdir` enters. -/
structure FileSystem.Lawful (fs : FileSystem Dir) (path : Dir → Option (List UInt8)) : Prop where
  path_eq : fs.path = path
  chdir_path : ∀ c d d' p, path d = some p → fs.chdir c p = some d' → d' = d
  scandir_dot : ∀ c d es, fs.scandir c dot = some (d, es) → d = c
  scandir_abs : ∀ c c' p d d' es, p.head? = some 47 → fs.chdir c p = some d →
    fs.scandir c' p = some (d', es) → d' = d

/-- The path of the directory fits into `dir_path`. -/
def Fits (path : Dir → Option (List UInt8)) (d : Dir) : Prop :=
  ∃ p, path d = some p ∧ p.length < bufSize

/-- What `get_dir_info` writes to `dir_path` for a directory. -/
def shownPath (path : Dir → Option (List UInt8)) (d : Dir) : List UInt8 :=
  ((path d).filter fun p ↦ p.length < bufSize).getD dash

/-- What enter, F5 and F8 act on is a file of the working directory. -/
def InPlace (s : State Dir) : Prop := s.active.currentFile ≠ none → s.cwd = s.active.listed

/-- A switch to a panel with files goes by a path that fits; or `"-"` leads nowhere, or to the
directory of the panel. -/
def SwitchSound (path : Dir → Option (List UInt8)) (s : State Dir) (e : Event Dir) : Prop :=
  ∀ p, switchTarget e.key s.cd = some p → (s.panels p).currentFile ≠ none →
    Fits path (s.panels p).listed
      ∨ ∀ d, e.env.fs.chdir s.cwd dash = some d → d = (s.panels p).listed

/-- A step in a lawful file system. -/
def LawfulStep (path : Dir → Option (List UInt8)) (s : State Dir) (e : Event Dir) (t : State Dir) :
    Prop := e.env.fs.Lawful path ∧ Step s e t

/-- A panel with files shows the path of the directory that it was read from. -/
def DirInfo.Shows (path : Dir → Option (List UInt8)) (di : DirInfo Dir) : Prop :=
  di.currentFile ≠ none → di.dirPath = shownPath path di.listed

/-- Each panel has a list, and shows where it comes from. -/
def Shown (path : Dir → Option (List UInt8)) (s : State Dir) : Prop :=
  (∃ lists, s.Holds lists) ∧ ∀ p, (s.panels p).Shows path

theorem shownPath_of_fits {d : Dir} {p : List UInt8} (hp : path d = some p)
    (hlen : p.length < bufSize) : shownPath path d = p := by
  rw [shownPath, hp, Option.filter_some_pos (by simpa using hlen), Option.getD_some]

theorem shownPath_of_not_fits {d : Dir} (h : ¬Fits path d) : shownPath path d = dash := by
  rw [shownPath]
  cases hp : path d with
  | none => rfl
  | some p =>
    rw [Option.filter_some_neg, Option.getD_none]
    apply decide_eq_false
    intro hlen
    exact h ⟨p, hp, hlen⟩

theorem chdir_shownPath {fs : FileSystem Dir} (hfs : fs.Lawful path) {c d d' : Dir}
    (h : fs.chdir c (shownPath path d) = some d') :
    d' = d ↔ Fits path d ∨ ∀ x, fs.chdir c dash = some x → x = d := by
  by_cases hfit : Fits path d
  · obtain ⟨p, hp, hlen⟩ := id hfit
    rw [shownPath_of_fits hp hlen] at h
    exact iff_of_true (hfs.chdir_path c d d' p hp h) (Or.inl hfit)
  · rw [shownPath_of_not_fits hfit] at h
    constructor
    · rintro rfl
      right
      intro x hx
      exact Option.some.inj (hx.symm.trans h)
    · rintro (hfit' | hdash)
      · exact absurd hfit' hfit
      · exact hdash d' h

/-! ## One step -/

variable {s t : State Dir} {e : Event Dir}

theorem getcwd_getD (fs : FileSystem Dir) (hfs : fs.Lawful path) (d : Dir) :
    (fs.getcwd d).getD dash = shownPath path d := by
  rw [FileSystem.getcwd, hfs.path_eq]
  rfl

theorem Reloaded.shown {env : Env Dir} (hfs : env.fs.Lawful path) {l : List (ℕ × FileInfo)}
    (h : Reloaded env s t l) (hs : ∀ p, (s.panels p).Shows path) :
    (∀ p, (t.panels p).Shows path) ∧ InPlace t := by
  have hpanels : ∀ di : DirInfo Dir, di.Shows path →
      ∀ p, (Function.update s.panels s.cd di p).Shows path := by
    intro di hdi
    apply (Function.forall_update_iff s.panels
      (p := fun _ (di : DirInfo Dir) ↦ di.Shows path)).mpr
    exact ⟨hdi, fun p _ ↦ hs p⟩
  cases h with
  | unread hscan =>
    refine ⟨hpanels _ fun hc ↦ absurd rfl hc, ?_⟩
    intro hc
    simp only [State.active, State.setActive, Function.update_self] at hc
    exact absurd rfl hc
  | @read dir fnl head cur tail h' l hscan _ =>
    have hdir := hfs.scandir_dot _ _ _ hscan
    constructor
    · apply hpanels
      intro _
      change (env.fs.getcwd s.cwd).getD dash = shownPath path dir
      rw [hdir]
      exact getcwd_getD env.fs hfs s.cwd
    · intro _
      simp only [State.active, State.setActive, Function.update_self]
      exact hdir.symm

theorem LawfulStep.shown (hstep : LawfulStep path s e t) (hs : Shown path s) : Shown path t := by
  obtain ⟨⟨lists, hholds⟩, hshown⟩ := hs
  obtain ⟨lists', hmove, ht⟩ := hholds.step hstep.2
  refine ⟨⟨lists', ht⟩, ?_⟩
  cases hmove with
  | cursor _ _ hq =>
    apply (Function.forall_update_iff s.panels
      (p := fun _ (di : DirInfo Dir) ↦ di.Shows path)).mpr
    exact ⟨fun hc ↦ hshown s.cd (hholds.currentFile_ne_none hq hc), fun p _ ↦ hshown p⟩
  | switch _ _ => exact hshown
  | reload _ hre _ _ => exact (hre.shown hstep.1 hshown).1

/-- **A key leaves the working directory in place exactly when its switch is sound.** -/
theorem LawfulStep.inPlace_iff (hstep : LawfulStep path s e t) (hs : Shown path s)
    (hplace : InPlace s) : InPlace t ↔ SwitchSound path s e := by
  obtain ⟨⟨lists, hholds⟩, hshown⟩ := hs
  obtain ⟨lists', hmove, ht⟩ := hholds.step hstep.2
  cases hmove with
  | @cursor q _ hswitch hq =>
    apply iff_of_true
    · intro hc
      simp only [State.active, State.setCurrent, State.setActive, Function.update_self] at hc ⊢
      exact hplace (hholds.currentFile_ne_none hq hc)
    · intro p hp
      rw [hswitch] at hp
      cases hp
  | @switch p dir hswitch hdir =>
    have hiff : (s.panels p).currentFile ≠ none → (dir = (s.panels p).listed ↔
        Fits path (s.panels p).listed
          ∨ ∀ d, e.env.fs.chdir s.cwd dash = some d → d = (s.panels p).listed) := by
      intro hc
      rw [hshown p hc] at hdir
      exact chdir_shownPath hstep.1 hdir
    constructor
    · intro hin p' hp' hc
      cases hswitch.symm.trans hp'
      exact (hiff hc).mp (hin hc)
    · intro hsound hc
      exact (hiff hc).mpr (hsound p hswitch hc)
  | reload hload hre _ _ =>
    apply iff_of_true (hre.shown hstep.1 hshown).2
    intro p hp
    rw [switchTarget_of_reloadDir hload] at hp
    cases hp

/-- What `init_core` sets up from absolute paths: a panel that could not be read has no files. -/
theorem start_shown {env : Env Dir} (henv : env.fs.Lawful path) {home pwd : Option (List UInt8)}
    (hhome : ∀ p ∈ home, p.head? = some 47) (hpwd : ∀ p ∈ pwd, p.head? = some 47)
    {junk : Side → DirInfo Dir} {cwd : Dir} (hstart : start env home pwd junk cwd = .ok s) :
    Shown path s ∧ InPlace s := by
  obtain ⟨homePath, pwdPath, homeDir, lists, rfl, rfl, hh, hp, hcd, hholds, -, -, hrd, hld⟩ :=
    start_eq_ok hstart
  have hshown : ∀ {di : DirInfo Dir} {c d : Dir} {p : List UInt8}, p.head? = some 47 →
      env.fs.chdir c p = some d → di.ReadBy env d p →
      d = di.listed ∧ di.dirPath = shownPath path di.listed := by
    intro di c d p habs hd hread
    have hlisted := henv.scandir_abs _ _ _ _ _ _ habs hd hread.1
    exact ⟨hlisted.symm, by rw [hread.2, hlisted, getcwd_getD env.fs henv]⟩
  have hne := hholds.current_ne_none_iff
  refine ⟨⟨⟨lists, hholds⟩, ?_⟩, ?_⟩
  · intro p hc
    cases p with
    | ld => exact (hshown (hpwd _ rfl) hp (hld ((hne .ld).mp hc))).2
    | rd => exact (hshown (hhome _ rfl) hh (hrd ((hne .rd).mp hc))).2
  · intro hc
    rw [State.active, hcd] at hc ⊢
    exact (hshown (hpwd _ rfl) hp (hld ((hne .ld).mp hc))).1

/-- **The working directory is the one that is shown** throughout a run exactly when all its
switches are sound. -/
theorem inPlace_iff_switchSound {env : Env Dir} (henv : env.fs.Lawful path)
    {home pwd : Option (List UInt8)} (hhome : ∀ p ∈ home, p.head? = some 47)
    (hpwd : ∀ p ∈ pwd, p.head? = some 47) {junk : Side → DirInfo Dir} {cwd : Dir}
    (hstart : start env home pwd junk cwd = .ok s) (es : List (Event Dir)) :
    InPlace s
      ∧ (Run (fun s e t ↦ LawfulStep path s e t ∧ InPlace t) s es t
        ↔ Run (fun s e t ↦ LawfulStep path s e t ∧ SwitchSound path s e) s es t) := by
  obtain ⟨hshown, hplace⟩ := start_shown henv hhome hpwd hstart
  refine ⟨hplace, Run.always_iff_sound (I := Shown path) ?_ ?_ hshown hplace⟩
  · exact fun _ _ _ hs hstep ↦ hstep.shown hs
  · exact fun _ _ _ hs hp hstep ↦ hstep.inPlace_iff hs hp

end

/-! ## A long path -/

/-- The directories of the example: `/h`, with a directory `-` in it, and one with a long path. -/
inductive Place
  | home
  | dash
  | long
  deriving DecidableEq

namespace Place

/-- Slash and 254 letters: with the NUL one byte more than `dir_path` has. -/
def longPath : List UInt8 := 47 :: List.replicate 254 97

/-- The paths of the directories. -/
def path : Place → List UInt8
  | home => [47, 104]
  | dash => [47, 104, 47, 45]
  | long => longPath

/-- Where an absolute path leads. -/
def resolve (p : List UInt8) : Option Place :=
  if p = home.path then some home
  else if p = dash.path then some dash
  else if p = long.path then some long
  else none

/-- The file system with these directories; each holds one file. -/
def fs : FileSystem Place where
  chdir := fun c p ↦
    if p.head? = some 47 then resolve p else if c = home ∧ p = [45] then some dash else none
  scandir := fun c p ↦
    (if p.head? = some 47 then resolve p else if p = dot then some c else none).map (·, dotsAndA)
  path := fun d ↦ some d.path
  stat := fun _ _ ↦ some 0o100644

theorem resolve_path (d : Place) : resolve d.path = some d := by
  cases d <;> decide +kernel

theorem lawful_fs : fs.Lawful fun d ↦ some d.path where
  path_eq := rfl
  chdir_path := by
    intro c d d' p hp hd
    obtain rfl := Option.some.inj hp
    have habs : fs.chdir c d.path = resolve d.path := if_pos (by cases d <;> rfl)
    rw [habs, resolve_path] at hd
    exact (Option.some.inj hd).symm
  scandir_dot := by
    intro c d es h
    have hdot : fs.scandir c dot = some (c, dotsAndA) := rfl
    exact (congrArg Prod.fst (Option.some.inj (hdot.symm.trans h))).symm
  scandir_abs := by
    intro c c' p d d' es habs hd h
    obtain ⟨x, hx, heq⟩ := Option.map_eq_some_iff.mp h
    rw [if_pos habs] at hx
    have hd' : resolve p = some d := (if_pos habs).symm.trans hd
    rw [hx] at hd'
    exact (congrArg Prod.fst heq).symm.trans (Option.some.inj hd')

/-- The environment of the example. -/
def env : Env Place := ⟨fs, .bump⟩

/-- The panels of the example before `init_core` fills them. -/
def junk : Side → DirInfo Place := fun _ ↦ ⟨[], 0, none, none, none, [], home⟩

end Place

theorem inPlace_iff_switchSound_right : ∃ s t,
    start Place.env (some Place.home.path) (some Place.long.path) Place.junk .home = .ok s
    ∧ Run (fun s e t ↦ LawfulStep (fun d : Place ↦ some d.path) s e t ∧ InPlace t) s
        [⟨.right, Place.env, true⟩] t := by
  have hok : (start Place.env (some Place.home.path) (some Place.long.path) Place.junk
      .home >>= handle ⟨.right, Place.env, true⟩).isOk = true := by
    decide +kernel
  obtain ⟨t, ht⟩ := Except.exists_eq_ok_of_isOk hok
  obtain ⟨s, hs, hright⟩ := Except.bind_eq_ok_iff.mp ht
  have hhome : ∀ p ∈ some Place.home.path, p.head? = some 47 := by
    rintro p ⟨⟩
    rfl
  have hpwd : ∀ p ∈ some Place.long.path, p.head? = some 47 := by
    rintro p ⟨⟩
    rfl
  have hiff := (inPlace_iff_switchSound (t := t) Place.lawful_fs hhome hpwd hs
    [⟨.right, Place.env, true⟩]).2
  refine ⟨s, t, hs, hiff.mpr (Run.single ⟨⟨Place.lawful_fs, hright⟩, ?_⟩)⟩
  -- the right panel shows `/h`
  obtain ⟨homePath, pwdPath, homeDir, lists, hh, hp, hdir, _, hcd, hholds, _, _, hrd, _⟩ :=
    start_eq_ok hs
  cases hh
  intro p hswitch hc
  rw [hcd] at hswitch
  cases hswitch
  have hread := hrd ((hholds.current_ne_none_iff .rd).mp hc)
  have hlisted := Place.lawful_fs.scandir_abs _ _ _ _ _ _ rfl hdir hread.1
  rw [hlisted, ← Option.some.inj hdir]
  exact Or.inl ⟨_, rfl, by decide⟩

/-- **A directory with a long path.** From there to the right panel and back: the working directory
is `-` inside `/h`, and the left panel still shows the other one. -/
theorem switch_back_not_inPlace : ¬∀ (Dir : Type) (path : Dir → Option (List UInt8)) (env : Env Dir)
    (home pwd : Option (List UInt8)) (junk : Side → DirInfo Dir) (cwd : Dir) (s t : State Dir)
    (es : List (Event Dir)), env.fs.Lawful path → (∀ p ∈ home, p.head? = some 47) →
    (∀ p ∈ pwd, p.head? = some 47) → start env home pwd junk cwd = .ok s →
    Run (LawfulStep path) s es t → InPlace t := by
  intro hall
  have hbad : (match (start Place.env (some Place.home.path) (some Place.long.path) Place.junk
      .home >>= fun s ↦ execAll (fun s e ↦ handle e s) s
        [⟨.right, Place.env, true⟩, ⟨.left, Place.env, true⟩]) with
      | .ok t => decide (t.active.currentFile ≠ none ∧ t.cwd ≠ t.active.listed)
      | .error _ => false) = true := by
    decide +kernel
  split at hbad
  · rename_i t ht
    obtain ⟨s, hs, hexec⟩ := Except.bind_eq_ok_iff.mp ht
    have hbad := of_decide_eq_true hbad
    have hlawful : ∀ (s : State Place) (e : Event Place) (t : State Place), e.env = Place.env →
        Step s e t → LawfulStep (fun d ↦ some d.path) s e t :=
      fun s e t he hstep ↦ ⟨he ▸ Place.lawful_fs, hstep⟩
    have hrun := (run_of_execAll hexec).imp_of (P := fun e ↦ e.env = Place.env) hlawful (by simp)
    have hplace := hall Place _ _ _ _ _ _ s t _ Place.lawful_fs (by rintro p ⟨⟩; rfl)
      (by rintro p ⟨⟩; rfl) hs hrun
    exact hbad.2 (hplace hbad.1)
  · cases hbad

end FileManager

end AllProjects
