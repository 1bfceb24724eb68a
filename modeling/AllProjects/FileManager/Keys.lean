import AllProjects.FileManager.Lists

/-!
# What a key can do

A key moves the cursor of the active panel, switches to the other panel, reloads the active one, or
does nothing. The lists are kept whatever the system calls answer.
-/

namespace AllProjects

namespace FileManager

variable {Dir : Type}

/-- The file under the cursor. -/
def State.currentInfo (s : State Dir) : Option FileInfo :=
  match s.current with
  | .ok n => some n.data
  | .error _ => none

/-- The directory that a key reloads the active panel from. -/
def reloadDir (e : Event Dir) (s : State Dir) : Option Dir :=
  match e.key with
  | .enter => s.currentInfo.bind fun f ↦ e.env.fs.chdir s.cwd f.fileName
  | .f5 | .f8 => s.currentInfo.bind fun f ↦ if f.isReg then some s.cwd else none
  | .up | .down | .left | .right | .tab | .home | .endKey => none

/-- The panel that a key switches to. -/
def switchTarget (k : Key) (cd : Side) : Option Side :=
  match k with
  | .left => if cd = .rd then some .ld else none
  | .right => if cd = .ld then some .rd else none
  | .tab => some cd.other
  | .up | .down | .home | .endKey | .enter | .f5 | .f8 => none

theorem switchTarget_of_reloadDir {e : Event Dir} {s : State Dir} {dir : Dir}
    (h : reloadDir e s = some dir) : switchTarget e.key s.cd = none := by
  obtain ⟨key, env, proceeds⟩ := e
  cases key with
  | enter | f5 | f8 => rfl
  | up | down | left | right | tab | home | endKey => cases h

namespace State.Holds

variable {s : State Dir} {lists : Side → List (ℕ × FileInfo)}

/-! ## The cursor -/

theorem current_eq (hs : s.Holds lists) {i : ℕ} {x : ℕ × FileInfo}
    (hx : (lists s.cd)[i]? = some x) (hc : s.active.currentFile = some x.1) :
    s.current = .ok ⟨x.2, (lists s.cd)[i + 1]?.map Prod.fst,
      if i = 0 then none else (lists s.cd)[i - 1]?.map Prod.fst⟩ := by
  rw [State.current, hc, NodeHeap.deref_some ((hs.panel s.cd).list.lookup_get hx), liftFault_ok]

theorem current_cases (hs : s.Holds lists) :
    (lists s.cd = [] ∧ s.active.currentFile = none ∧ s.current = .error .segv)
      ∨ ∃ i x, (lists s.cd)[i]? = some x ∧ s.active.currentFile = some x.1
        ∧ s.current = .ok ⟨x.2, (lists s.cd)[i + 1]?.map Prod.fst,
            if i = 0 then none else (lists s.cd)[i - 1]?.map Prod.fst⟩ := by
  obtain ⟨hnil, hc⟩ | ⟨x, hx, hc⟩ := (hs.panel s.cd).cursor
  · refine Or.inl ⟨hnil, hc, ?_⟩
    rw [State.current, show s.active.currentFile = none from hc]
    rfl
  · obtain ⟨i, hi⟩ := List.mem_iff_getElem?.mp hx
    exact Or.inr ⟨i, x, hi, hc, hs.current_eq hi hc⟩

theorem current_ne_none_iff (hs : s.Holds lists) (p : Side) :
    (s.panels p).currentFile ≠ none ↔ lists p ≠ [] := by
  have hpanel := hs.panel p
  constructor
  · rintro hc hnil
    obtain ⟨-, hnone⟩ | ⟨x, hx, -⟩ := hpanel.cursor
    · exact hc hnone
    · rw [hnil] at hx
      cases hx
  · intro hne hc
    obtain ⟨hnil, -⟩ | ⟨x, -, hx⟩ := hpanel.cursor
    · exact hne hnil
    · rw [hc] at hx
      cases hx

theorem currentFile_ne_none (hs : s.Holds lists) {q : Option ℕ}
    (hq : lists s.cd = [] ∧ q = none ∨ ∃ x ∈ lists s.cd, q = some x.1) (hne : q ≠ none) :
    s.active.currentFile ≠ none := by
  obtain ⟨-, hnone⟩ | ⟨x, hx, -⟩ := hq
  · exact absurd hnone hne
  · exact (hs.current_ne_none_iff s.cd).mpr (List.ne_nil_of_mem hx)

theorem headFile_valid (hs : s.Holds lists) : lists s.cd = [] ∧ s.active.headFile = none
    ∨ ∃ x ∈ lists s.cd, s.active.headFile = some x.1 := by
  have hhead := (hs.panel s.cd).list.head_eq
  cases hl : lists s.cd with
  | nil => exact Or.inl ⟨rfl, by rw [hl] at hhead; exact hhead⟩
  | cons x l => exact Or.inr ⟨x, List.mem_cons_self, by rw [hl] at hhead; exact hhead⟩

theorem tailFile_valid (hs : s.Holds lists) : lists s.cd = [] ∧ s.active.tailFile = none
    ∨ ∃ x ∈ lists s.cd, s.active.tailFile = some x.1 := by
  have htail := (hs.panel s.cd).list.tail_eq
  cases hl : lists s.cd using List.reverseRecOn with
  | nil => exact Or.inl ⟨rfl, by rw [hl] at htail; exact htail⟩
  | append_singleton l x =>
    rw [hl, lastPtr_concat] at htail
    exact Or.inr ⟨x, by simp, htail⟩

theorem neighbour_valid {i : ℕ} {q : Option ℕ} (hq : q = (lists s.cd)[i]?.map Prod.fst)
    (hne : q ≠ none) : ∃ x ∈ lists s.cd, q = some x.1 := by
  cases hx : (lists s.cd)[i]? with
  | none => exact absurd (by rw [hq, hx]; rfl) hne
  | some x => exact ⟨x, List.mem_of_getElem? hx, by rw [hq, hx]; rfl⟩

theorem current_eq_head_iff (hs : s.Holds lists) {i : ℕ} {x : ℕ × FileInfo}
    (hx : (lists s.cd)[i]? = some x) (hc : s.active.currentFile = some x.1) :
    s.active.currentFile = s.active.headFile ↔ i = 0 := by
  have hlist := (hs.panel s.cd).list
  have hhead : s.active.headFile = (lists s.cd)[0]?.map Prod.fst := hlist.head_eq_get
  constructor
  · intro heq
    cases h0 : (lists s.cd)[0]? with
    | none =>
      rw [hhead, h0, hc] at heq
      cases heq
    | some y =>
      rw [hhead, h0, hc] at heq
      exact hlist.eq_of_addr hx h0 (Option.some.inj heq)
  · rintro rfl
    rw [hhead, hx, hc]
    rfl

end State.Holds

/-! ## One step -/

/-- What a key does to the state and to the lists. -/
inductive Move (s : State Dir) (lists : Side → List (ℕ × FileInfo)) (e : Event Dir) :
    State Dir → (Side → List (ℕ × FileInfo)) → Prop
  | cursor {q : Option ℕ} : reloadDir e s = none → switchTarget e.key s.cd = none →
      (lists s.cd = [] ∧ q = none ∨ ∃ x ∈ lists s.cd, q = some x.1) →
      Move s lists e (s.setCurrent q) lists
  | switch {p : Side} {dir : Dir} : switchTarget e.key s.cd = some p →
      e.env.fs.chdir s.cwd (s.panels p).dirPath = some dir →
      Move s lists e { s with cd := p, cwd := dir } lists
  | reload {dir : Dir} {t : State Dir} {l : List (ℕ × FileInfo)} : reloadDir e s = some dir →
      Reloaded e.env { s with cwd := dir } t l → (e.key = .enter → l ≠ []) →
      (e.key = .f5 → e.proceeds = true) → Move s lists e t (Function.update lists s.cd l)

/-- `scandir` answers for the path, with an entry 1. -/
def ReadsAt (fs : FileSystem Dir) (cwd : Dir) (path : List UInt8) : Prop :=
  ∃ opened fnl, fs.scandir cwd path = some (opened, fnl) ∧ 1 < fnl.length

/-- `scandir` answers for the directory, with an entry 1. -/
def Reads (fs : FileSystem Dir) (dir : Dir) : Prop := ReadsAt fs dir dot

/-- The key makes the program exit: `main` cannot enter the directory of the other panel, a copy
cannot be started, or the directory that is reloaded cannot be listed for want of memory or because
`stat` fails. -/
inductive Exits (e : Event Dir) (s : State Dir) : Prop
  | chdir {p : Side} : switchTarget e.key s.cd = some p →
      e.env.fs.chdir s.cwd (s.panels p).dirPath = none → Exits e s
  | copy : e.key = .f5 → e.proceeds = false → Exits e s
  | givesUp {dir opened : Dir} {fnl : List Dirent} : reloadDir e s = some dir →
      e.env.fs.scandir dir dot = some (opened, fnl) → 1 < fnl.length → GivesUp e.env dir fnl →
      Exits e s

/-- The key follows a NULL pointer: there is no cursor, or the directory that was entered has no
list. -/
inductive Segv (e : Event Dir) (s : State Dir) : Prop
  | noCursor : s.active.currentFile = none → Segv e s
  | unread {dir : Dir} : e.key = .enter → reloadDir e s = some dir → ¬Reads e.env.fs dir → Segv e s

/-- What a key can come to. -/
inductive Outcome (s : State Dir) (lists : Side → List (ℕ × FileInfo)) (e : Event Dir) : Prop
  | exit : handle e s = .error .exit → Exits e s → Outcome s lists e
  | segv : handle e s = .error .segv → Segv e s → Outcome s lists e
  | move {t : State Dir} {lists' : Side → List (ℕ × FileInfo)} : handle e s = .ok t →
      Move s lists e t lists' → t.Holds lists' → Outcome s lists e

theorem State.setCurrent_currentFile (s : State Dir) : s.setCurrent s.active.currentFile = s := by
  rw [State.setCurrent, State.setActive]
  have hsame : ({ s.active with currentFile := s.active.currentFile } : DirInfo Dir)
      = s.panels s.cd := rfl
  rw [hsame, Function.update_eq_self]

theorem Reloaded.reads_iff {env : Env Dir} {s t : State Dir} {l : List (ℕ × FileInfo)}
    (h : Reloaded env s t l) : l ≠ [] ↔ Reads env.fs s.cwd := by
  cases h with
  | unread hscan =>
    apply iff_of_false (fun hne ↦ hne rfl)
    rintro ⟨opened, fnl, hread, -⟩
    rw [hscan] at hread
    cases hread
  | read hscan hlen =>
    rw [hlen]
    constructor
    · intro hlt
      exact ⟨_, _, hscan, hlt⟩
    · rintro ⟨opened, fnl, hread, hlt⟩
      rw [hscan] at hread
      cases hread
      exact hlt

theorem Reloaded.cd_eq {env : Env Dir} {s t : State Dir} {l : List (ℕ × FileInfo)}
    (h : Reloaded env s t l) : t.cd = s.cd ∧ t.cwd = s.cwd := by
  cases h with
  | unread _ => exact ⟨rfl, rfl⟩
  | read _ _ => exact ⟨rfl, rfl⟩

namespace State.Holds

variable {s : State Dir} {lists : Side → List (ℕ × FileInfo)} {e : Event Dir}

theorem outcome_cursor (hs : s.Holds lists) {q : Option ℕ}
    (hq : lists s.cd = [] ∧ q = none ∨ ∃ x ∈ lists s.cd, q = some x.1)
    (hload : reloadDir e s = none) (hswitch : switchTarget e.key s.cd = none)
    (hok : handle e s = .ok (s.setCurrent q)) : Outcome s lists e :=
  .move hok (.cursor hload hswitch hq) (hs.setCurrent hq)

theorem outcome_stay (hs : s.Holds lists) (hload : reloadDir e s = none)
    (hswitch : switchTarget e.key s.cd = none) (hok : handle e s = .ok s) :
    Outcome s lists e := by
  apply hs.outcome_cursor (hs.panel s.cd).cursor hload hswitch
  rw [hok]
  exact congrArg _ s.setCurrent_currentFile.symm

theorem outcome_switch (hs : s.Holds lists) {p : Side}
    (hswitch : switchTarget e.key s.cd = some p) (heq : handle e s = switchTo e.env s p) :
    Outcome s lists e := by
  cases hdir : e.env.fs.chdir s.cwd (s.panels p).dirPath with
  | none => exact .exit (by rw [heq, switchTo, hdir]) (.chdir hswitch hdir)
  | some dir =>
    exact .move (by rw [heq, switchTo, hdir]) (.switch hswitch hdir) ⟨hs.panel, hs.disjoint⟩

/-- F5 and F8 come back to the list of the working directory. -/
theorem outcome_reload (hs : s.Holds lists) (hload : reloadDir e s = some s.cwd)
    (hkey : e.key ≠ .enter) (hproceeds : e.key = .f5 → e.proceeds = true)
    (heq : handle e s = reload e.env s) : Outcome s lists e := by
  obtain ⟨herr, opened, fnl, hscan, hlen, hgive⟩ | ⟨t, l, hok, hre, hholds⟩ := hs.reload_cases e.env
  · exact .exit (heq.trans herr) (.givesUp hload hscan hlen hgive)
  · exact .move (heq.trans hok) (.reload hload hre (fun hent ↦ absurd hent hkey) hproceeds) hholds

/-- ENTER goes on to look at the cursor of the new list. -/
theorem outcome_enter (hs : s.Holds lists) (hkey : e.key = .enter) (dir : Dir)
    (hload : reloadDir e s = some dir)
    (heq : handle e s = do
      let t ← reload e.env { s with cwd := dir }
      let _ ← t.current
      .ok t) : Outcome s lists e := by
  have hs' : State.Holds { s with cwd := dir } lists := ⟨hs.panel, hs.disjoint⟩
  obtain ⟨herr, opened, fnl, hscan, hlen, hgive⟩ | ⟨t, l, hok, hre, hholds⟩ :=
    hs'.reload_cases e.env
  · exact .exit (by rw [heq, herr]; rfl) (.givesUp hload hscan hlen hgive)
  · rw [hok, Except.ok_bind_eq] at heq
    have hlist : Function.update lists s.cd l t.cd = l := by
      rw [hre.cd_eq.1]
      exact Function.update_self ..
    obtain ⟨hnil, -, hsegv⟩ | ⟨i, x, hi, -, hcur⟩ := hholds.current_cases
    · apply Outcome.segv (by rw [heq, hsegv]; rfl)
      apply Segv.unread hkey hload
      intro hreads
      exact hre.reads_iff.mpr hreads (hlist.symm.trans hnil)
    · apply Outcome.move (by rw [heq, hcur]; rfl) (.reload hload hre ?_ ?_) hholds
      rotate_left
      · intro hf5
        rw [hkey] at hf5
        cases hf5
      rintro - rfl
      rw [show Function.update lists s.cd [] t.cd = [] from hlist] at hi
      cases hi

theorem handle_up (hs : s.Holds lists) (hkey : e.key = .up) {i : ℕ} {x : ℕ × FileInfo}
    (hx : (lists s.cd)[i]? = some x) (hc : s.active.currentFile = some x.1) :
    handle e s = .ok (s.setCurrent ((lists s.cd)[i - 1]?.map Prod.fst)) := by
  rw [handle, hkey]
  simp only
  by_cases h0 : i = 0
  · have hstay : s.active.currentFile = (lists s.cd)[i - 1]?.map Prod.fst := by
      rw [hc, h0, Nat.zero_sub, ← h0, hx]
      rfl
    rw [if_neg (not_not.mpr ((hs.current_eq_head_iff hx hc).mpr h0)), ← hstay,
      s.setCurrent_currentFile]
  · rw [if_pos (mt (hs.current_eq_head_iff hx hc).mp h0), hs.current_eq hx hc, Except.ok_bind_eq,
      if_neg h0]

theorem handle_down (hs : s.Holds lists) (hkey : e.key = .down) {i : ℕ} {x : ℕ × FileInfo}
    (hx : (lists s.cd)[i]? = some x) (hc : s.active.currentFile = some x.1) :
    handle e s
      = .ok (s.setCurrent ((lists s.cd)[min (i + 1) ((lists s.cd).length - 1)]?.map Prod.fst)) := by
  have hi := (List.getElem?_eq_some_iff.mp hx).1
  rw [handle, hkey]
  simp only [hs.current_eq hx hc, Except.ok_bind_eq]
  by_cases hlast : i + 1 < (lists s.cd).length
  · rw [min_eq_left (by omega), List.getElem?_eq_getElem hlast]
    exact if_pos (Option.some_ne_none _)
  · have hstay : s.active.currentFile
        = (lists s.cd)[min (i + 1) ((lists s.cd).length - 1)]?.map Prod.fst := by
      rw [hc, show min (i + 1) ((lists s.cd).length - 1) = i by omega, hx]
      rfl
    rw [List.getElem?_eq_none (by omega), Option.map_none, if_neg (fun hne ↦ hne rfl), ← hstay,
      s.setCurrent_currentFile]

theorem headFile_eq_none (hs : s.Holds lists) (hnil : lists s.cd = []) :
    s.active.headFile = none := by
  obtain ⟨-, hh⟩ | ⟨x, hx, -⟩ := hs.headFile_valid
  · exact hh
  · rw [hnil] at hx
    cases hx

theorem outcome_regular (hs : s.Holds lists) {f : FileInfo} (hkey : e.key ≠ .enter)
    (hproceeds : e.key = .f5 → e.proceeds = true)
    (hload : reloadDir e s = if f.isReg then some s.cwd else none)
    (hswitch : switchTarget e.key s.cd = none) (hstay : f.isReg = false → handle e s = .ok s)
    (hact : f.isReg = true → handle e s = reload e.env s) : Outcome s lists e := by
  cases hreg : f.isReg with
  | false =>
    rw [hreg] at hload
    exact hs.outcome_stay hload hswitch (hstay hreg)
  | true =>
    rw [hreg] at hload
    exact hs.outcome_reload hload hkey hproceeds (hact hreg)

/-- **What a key can come to**, whatever the system calls answer. -/
theorem handle_cases (hs : s.Holds lists) (e : Event Dir) : Outcome s lists e := by
  obtain ⟨key, env, proceeds⟩ := e
  cases key with
  | left =>
    by_cases hcd : s.cd = .rd
    · exact hs.outcome_switch (p := .ld) (if_pos hcd) (if_pos hcd)
    · exact hs.outcome_stay rfl (if_neg hcd) (if_neg hcd)
  | right =>
    by_cases hcd : s.cd = .ld
    · exact hs.outcome_switch (p := .rd) (if_pos hcd) (if_pos hcd)
    · exact hs.outcome_stay rfl (if_neg hcd) (if_neg hcd)
  | tab => exact hs.outcome_switch rfl rfl
  | home => exact hs.outcome_cursor hs.headFile_valid rfl rfl rfl
  | endKey => exact hs.outcome_cursor hs.tailFile_valid rfl rfl rfl
  | up =>
    -- without a cursor nothing happens, in contrast to the keys below
    obtain ⟨hnil, hc, -⟩ | ⟨i, x, hx, hc, -⟩ := hs.current_cases
    · apply hs.outcome_stay rfl rfl
      simp only [handle, hc, hs.headFile_eq_none hnil]
      exact if_neg fun hne ↦ hne rfl
    · have hi := (List.getElem?_eq_some_iff.mp hx).1
      apply hs.outcome_cursor (Or.inr (neighbour_valid rfl _)) rfl rfl (hs.handle_up rfl hx hc)
      rw [List.getElem?_eq_getElem (show i - 1 < _ by omega)]
      exact Option.some_ne_none _
  | down =>
    obtain ⟨-, hc, hsegv⟩ | ⟨i, x, hx, hc, -⟩ := hs.current_cases
    · apply Outcome.segv _ (.noCursor hc)
      simp only [handle, hsegv, Except.error_bind_eq]
    · have hi := (List.getElem?_eq_some_iff.mp hx).1
      apply hs.outcome_cursor (Or.inr (neighbour_valid rfl _)) rfl rfl (hs.handle_down rfl hx hc)
      rw [List.getElem?_eq_getElem (show min (i + 1) _ < _ by omega)]
      exact Option.some_ne_none _
  | enter =>
    obtain ⟨-, hc, hsegv⟩ | ⟨i, x, hx, hc, hcur⟩ := hs.current_cases
    · apply Outcome.segv _ (.noCursor hc)
      simp only [handle, hsegv, Except.error_bind_eq]
    · have hinfo : s.currentInfo = some x.2 := by rw [State.currentInfo, hcur]
      cases hdir : env.fs.chdir s.cwd x.2.fileName with
      | none =>
        apply hs.outcome_stay _ rfl
        · simp only [handle, hcur, Except.ok_bind_eq, hdir]
        · simp only [reloadDir, hinfo, Option.bind_some, hdir]
      | some dir =>
        apply hs.outcome_enter rfl dir
        · simp only [reloadDir, hinfo, Option.bind_some, hdir]
        · simp only [handle, hcur, Except.ok_bind_eq, hdir]
  | f5 =>
    obtain ⟨-, hc, hsegv⟩ | ⟨i, x, hx, hc, hcur⟩ := hs.current_cases
    · apply Outcome.segv _ (.noCursor hc)
      simp only [handle, hsegv, Except.error_bind_eq]
    · have hinfo : s.currentInfo = some x.2 := by rw [State.currentInfo, hcur]
      cases proceeds with
      -- the dialog is confirmed, and the directory is read again after the copy
      | true =>
        apply hs.outcome_regular (f := x.2) (by simp) (fun _ ↦ rfl) _ rfl
        · intro hreg
          simp only [handle, hcur, Except.ok_bind_eq, hreg]
          rfl
        · intro hreg
          simp only [handle, hcur, Except.ok_bind_eq, hreg]
          rfl
        · simp only [reloadDir, hinfo, Option.bind_some]
      | false =>
        cases hreg : x.2.isReg with
        | true =>
          apply Outcome.exit _ (.copy rfl rfl)
          simp only [handle, hcur, Except.ok_bind_eq, hreg]
          rfl
        | false =>
          apply hs.outcome_stay _ rfl
          · simp only [handle, hcur, Except.ok_bind_eq, hreg]
            rfl
          · simp only [reloadDir, hinfo, Option.bind_some, hreg]
            rfl
  | f8 =>
    obtain ⟨-, hc, hsegv⟩ | ⟨i, x, hx, hc, hcur⟩ := hs.current_cases
    · apply Outcome.segv _ (.noCursor hc)
      simp only [handle, hsegv, Except.error_bind_eq]
    · have hinfo : s.currentInfo = some x.2 := by rw [State.currentInfo, hcur]
      apply hs.outcome_regular (f := x.2) (by simp) (by simp) _ rfl
      · intro hreg
        simp only [handle, hcur, Except.ok_bind_eq, hreg]
        rfl
      · intro hreg
        simp only [handle, hcur, Except.ok_bind_eq, hreg]
        rfl
      · simp only [reloadDir, hinfo, Option.bind_some]

theorem step (hs : s.Holds lists) {t : State Dir} (h : Step s e t) :
    ∃ lists', Move s lists e t lists' ∧ t.Holds lists' := by
  cases hs.handle_cases e with
  | exit herr _ =>
    rw [Step, herr] at h
    cases h
  | segv herr _ =>
    rw [Step, herr] at h
    cases h
  | move hok hmove hholds =>
    rw [Step, hok] at h
    obtain rfl := Except.ok.inj h
    exact ⟨_, hmove, hholds⟩

end State.Holds

/-! ## The start -/

/-- The panel shows the answer of this `scandir`. -/
def DirInfo.ReadBy (di : DirInfo Dir) (env : Env Dir) (cwd : Dir) (path : List UInt8) : Prop :=
  env.fs.scandir cwd path = some (di.listed, di.answer)
    ∧ di.dirPath = (env.fs.getcwd cwd).getD dash

/-- `get_dir_info` on a new panel. When nothing can be listed the panel is still as `malloc` left
it. -/
theorem getDirInfo_malloced {env : Env Dir} {cwd : Dir} {path : List UInt8} {junk di : DirInfo Dir}
    {h h' : NodeHeap FileInfo} (hok : getDirInfo env cwd path junk.malloced h = .ok (di, h'))
    (hdi : di.Usable) :
    ∃ l, PanelList h' di l ∧ (l ≠ [] ↔ ReadsAt env.fs cwd path) ∧ (l ≠ [] → di.ReadBy env cwd path)
      ∧ (∀ x ∈ l, h.lookup x.1 = none) ∧ ∀ b, b ∉ l.map Prod.fst → h'.lookup b = h.lookup b := by
  have hnone : ∀ fnl : List Dirent, di.answer = fnl → ¬1 < fnl.length → h' = h →
      ¬ReadsAt env.fs cwd path →
      ∃ l, PanelList h' di l ∧ (l ≠ [] ↔ ReadsAt env.fs cwd path)
        ∧ (l ≠ [] → di.ReadBy env cwd path) ∧ (∀ x ∈ l, h.lookup x.1 = none)
        ∧ ∀ b, b ∉ l.map Prod.fst → h'.lookup b = h.lookup b := by
    rintro fnl rfl hlen rfl hno
    exact ⟨[], .nil (hdi.resolve_left hlen), iff_of_false (fun hne ↦ hne rfl) hno,
      fun hne ↦ absurd rfl hne, fun x hx ↦ absurd hx List.not_mem_nil, fun _ _ ↦ rfl⟩
  rw [getDirInfo] at hok
  cases hscan : env.fs.scandir cwd path with
  | none =>
    rw [hscan] at hok
    cases hok
    refine hnone [] rfl (by simp) rfl ?_
    rintro ⟨opened, fnl, hread, -⟩
    cases hscan.symm.trans hread
  | some answer =>
    obtain ⟨dir, fnl⟩ := answer
    rw [hscan] at hok
    simp only at hok
    by_cases hfnl : 1 < fnl.length
    · obtain ⟨herr, -⟩ | ⟨head, cur, tail, h₁, l, hok', hl, hne, hfresh, hframe⟩ :=
        buildList_cases env cwd h fnl (junk.malloced.reread env cwd dir fnl) (Or.inl hfnl) rfl
      · rw [herr] at hok
        cases hok
      · rw [hok'] at hok
        cases hok
        exact ⟨l, hl, iff_of_true (hne.mpr hfnl) ⟨dir, fnl, hscan, hfnl⟩, fun _ ↦ ⟨hscan, rfl⟩,
          hfresh, hframe⟩
    · rw [buildList, List.getElem?_eq_none (by omega), List.drop_eq_nil_of_le (by omega)] at hok
      cases hok
      refine hnone fnl rfl hfnl rfl ?_
      rintro ⟨opened, fnl', hread, hlen⟩
      cases hscan.symm.trans hread
      exact hfnl hlen

/-- **What the main loop starts with.** -/
theorem start_eq_ok {env : Env Dir} {home pwd : Option (List UInt8)} {junk : Side → DirInfo Dir}
    {cwd : Dir} {s : State Dir} (h : start env home pwd junk cwd = .ok s) :
    ∃ homePath pwdPath homeDir lists, home = some homePath ∧ pwd = some pwdPath
      ∧ env.fs.chdir cwd homePath = some homeDir ∧ env.fs.chdir homeDir pwdPath = some s.cwd
      ∧ s.cd = .ld ∧ s.Holds lists
      ∧ (lists .rd ≠ [] ↔ ReadsAt env.fs homeDir homePath)
      ∧ (lists .ld ≠ [] ↔ ReadsAt env.fs s.cwd pwdPath)
      ∧ (lists .rd ≠ [] → (s.panels .rd).ReadBy env homeDir homePath)
      ∧ (lists .ld ≠ [] → (s.panels .ld).ReadBy env s.cwd pwdPath) := by
  unfold start at h
  split at h
  · rename_i homePath pwdPath
    split at h
    · cases h
    · rename_i homeDir hhome
      obtain ⟨⟨rd, h₁⟩, hrd, h⟩ := Except.bind_eq_ok_iff.mp h
      simp only at h
      split at h
      · cases h
      · rename_i pwdDir hpwd
        obtain ⟨⟨ld, h₂⟩, hld, h⟩ := Except.bind_eq_ok_iff.mp h
        simp only at h
        split_ifs at h with husable
        cases h
        obtain ⟨lr, hlr, hner, hreadr, -, -⟩ := getDirInfo_malloced hrd husable.1
        obtain ⟨ll, hll, hnel, hreadl, hfresh, hframe⟩ := getDirInfo_malloced hld husable.2
        -- the nodes of the left panel are new, so those of the right one stay
        have hne : ∀ x ∈ ll, ∀ y ∈ lr, x.1 ≠ y.1 := by
          intro x hx y hy heq
          exact hlr.lookup_ne hy (heq ▸ hfresh x hx)
        refine ⟨homePath, pwdPath, homeDir, fun p ↦ p.casesOn ll lr, rfl, rfl,
          hhome, hpwd, rfl, ⟨?_, ?_⟩, hner, hnel, hreadr, hreadl⟩
        · intro p
          cases p with
          | ld => exact hll
          | rd =>
            apply hlr.congr
            intro y hy
            apply hframe
            intro hmem
            obtain ⟨x, hx, heq⟩ := List.mem_map.mp hmem
            exact hne x hx y hy heq
        · intro p x hx y hy
          cases p with
          | ld => exact hne x hx y hy
          | rd => exact (hne y hy x hx).symm
  · cases h
  · cases h

/-- Both directories that `init_core` reads have an entry 1. -/
def StartReads (fs : FileSystem Dir) (home pwd : Option (List UInt8)) (cwd : Dir) : Prop :=
  ∃ homePath pwdPath homeDir pwdDir, home = some homePath ∧ pwd = some pwdPath
    ∧ fs.chdir cwd homePath = some homeDir ∧ fs.chdir homeDir pwdPath = some pwdDir
    ∧ ReadsAt fs homeDir homePath ∧ ReadsAt fs pwdDir pwdPath

theorem start_lists {env : Env Dir} {home pwd : Option (List UInt8)} {junk : Side → DirInfo Dir}
    {cwd : Dir} {s : State Dir} (h : start env home pwd junk cwd = .ok s) :
    ∃ lists, s.Holds lists ∧ ((∀ p, lists p ≠ []) ↔ StartReads env.fs home pwd cwd) := by
  obtain ⟨homePath, pwdPath, homeDir, lists, rfl, rfl, hhome, hpwd, -, hs, hrd, hld, -, -⟩ :=
    start_eq_ok h
  refine ⟨lists, hs, ?_, ?_⟩
  · intro hne
    exact ⟨homePath, pwdPath, homeDir, s.cwd, rfl, rfl, hhome, hpwd, hrd.mp (hne .rd),
      hld.mp (hne .ld)⟩
  · rintro ⟨_, _, homeDir', pwdDir', ⟨⟩, ⟨⟩, hhome', hpwd', hreadr, hreadl⟩ p
    obtain rfl := Option.some.inj (hhome.symm.trans hhome')
    obtain rfl := Option.some.inj (hpwd.symm.trans hpwd')
    cases p with
    | ld => exact hld.mpr hreadl
    | rd => exact hrd.mpr hreadr

theorem getDirInfo_usable {env : Env Dir} {cwd : Dir} {path : List UInt8}
    (hread : ReadsAt env.fs cwd path) (di : DirInfo Dir) (h : NodeHeap FileInfo) :
    getDirInfo env cwd path di h = .error .exit
      ∨ ∃ di' h', getDirInfo env cwd path di h = .ok (di', h') ∧ di'.Usable := by
  obtain ⟨dir, fnl, hscan, hfnl⟩ := hread
  rw [getDirInfo, hscan]
  obtain ⟨herr, -⟩ | ⟨head, cur, tail, h', -, hok, -, -, -, -⟩ :=
    buildList_cases env cwd h fnl (di.reread env cwd dir fnl) (Or.inl hfnl) rfl
  · exact Or.inl herr
  · exact Or.inr ⟨_, h', hok, Or.inl hfnl⟩

theorem start_ne_segv {env : Env Dir} {home pwd : Option (List UInt8)} {cwd : Dir}
    (hread : StartReads env.fs home pwd cwd) (junk : Side → DirInfo Dir) :
    start env home pwd junk cwd ≠ .error .segv := by
  obtain ⟨homePath, pwdPath, homeDir, pwdDir, rfl, rfl, hhome, hpwd, hrd, hld⟩ := hread
  simp only [start, hhome]
  obtain hexit | ⟨rd, h₁, hok, hrd⟩ := getDirInfo_usable hrd (junk .rd).malloced ∅
  · rw [hexit, Except.error_bind_eq]
    rintro ⟨⟩
  rw [hok, Except.ok_bind_eq]
  simp only [hpwd]
  obtain hexit | ⟨ld, h₂, hok, hld⟩ := getDirInfo_usable hld (junk .ld).malloced h₁
  · rw [hexit, Except.error_bind_eq]
    rintro ⟨⟩
  rw [hok, Except.ok_bind_eq]
  simp only [if_pos (And.intro hrd hld)]
  rintro ⟨⟩

end FileManager

end AllProjects
