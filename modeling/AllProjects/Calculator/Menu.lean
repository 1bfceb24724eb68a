import AllProjects.FileManager.CopyStatus
import AllProjects.Memory.Scan
import AllProjects.Sctp.Session

/-!
# The menu of the calculator

The calculator loads its operations from a directory of plugins and lists them with their numbers.
Then it takes one line after the other: a number calls the plugin at that place of the table, and
the number behind the last plugin ends the program, as should `quit` and `exit`.

The number is read with `%d` into a variable of `main`, which keeps its value if there is no number
in the line. It is compared with the number of plugins from above only. `fgets` leaves the newline
in the line, and the line where it was when there is no input any more.

So a plugin is called for a line without a number if the last number was one, or if there was none
yet; `exit` is such a line unless the input ends behind it; and a negative number is an index in
front of the table. Lines are what `fgets` returns: a longer one is several.

The complex numbers are left out, and so is what the plugins do with them. Whatever `scanf` takes of
the input for them, the results below hold. All allocations succeed.
-/

namespace AllProjects.Calculator

open FileManager (toInt toInt_eq)
open Sctp (fgets)

/-! ## The plugins -/

/-- `BUF_SIZE` -/
def bufSize : ℕ := 255

/-- What `dlsym` finds in a library. -/
structure Library (F : Type) where
  pluginName : Option (List UInt8)
  mainFunction : Option (List UInt8)
  menuTitle : Option (List UInt8)
  function : List UInt8 → Option F

/-- `PLUGIN_INFO` -/
structure PluginInfo (F : Type) where
  plgnName : List UInt8
  mainFunc : List UInt8
  menuTitle : List UInt8
  pf : F

/-- `strstr(entry->d_name, ".so")` -/
def libFileFilter (dName : List UInt8) : Bool := [46, 115, 111] <:+: dName

/-- What the calls of the system return. `scandir` fails, or there are names in their order. -/
structure System (F : Type) where
  chdir : Bool
  getcwd : List UInt8
  scandir : Option (List (List UInt8))
  dlopen : List UInt8 → Option (Library F)
  fits : ∀ names ∈ scandir, (names.filter libFileFilter).length < 2 ^ 31

/-- `find_libs` -/
def findLibs {F : Type} (sys : System F) : Option (List (List UInt8)) :=
  sys.scandir.map (List.filter libFileFilter)

/-- `get_plgn_path` -/
def getPlgnPath (curDir plgnName : List UInt8) : List UInt8 :=
  (curDir ++ 47 :: plgnName).take (bufSize - 1)

/-- The loop over the libraries. A missing symbol is an error, and a missing name of the function is
looked up. -/
def loadAll {F : Type} (sys : System F) :
    List (List UInt8) → Except Fault (Option (List (PluginInfo F)))
  | [] => .ok (some [])
  | dName :: names =>
    match sys.dlopen (getPlgnPath sys.getcwd dName) with
    | none => .ok none
    | some extLib =>
      match extLib.mainFunction with
      | none => .error .segv
      | some mainFunc =>
        match extLib.pluginName, extLib.menuTitle, extLib.function mainFunc with
        | some plgnName, some menuTitle, some pf => do
          let plgns ← loadAll sys names
          .ok (plgns.map (⟨plgnName, mainFunc, menuTitle, pf⟩ :: ·))
        | _, _, _ => .ok none

/-- `load_plgns`: the table, or `NULL`, and `plgns_count`. -/
def loadPlgns {F : Type} (sys : System F) : Except Fault (Option (List (PluginInfo F)) × ℤ) :=
  if sys.chdir then
    match findLibs sys with
    | none => .ok (none, -1)
    | some names => do
      let plgns ← loadAll sys names
      .ok (plgns, names.length)
  else .ok (none, 0)

/-! ## The program -/

/-- What the program is about to do. -/
inductive Status
  | running
  | exited
  | fault
  deriving DecidableEq, Repr

/-- The variables of `main`. -/
structure State where
  stdin : List UInt8
  userSel : List UInt8
  us : ℤ
  status : Status
  deriving DecidableEq, Repr

/-- One round of the loop: the line that `fgets` returns, the indices with which the table is used,
and the plugin that is called. -/
structure Round (F : Type) where
  line : Option (List UInt8)
  used : List ℤ
  called : Option F
  deriving DecidableEq, Repr

def quitText : List UInt8 := [113, 117, 105, 116]
def exitText : List UInt8 := [101, 120, 105, 116]

/-- An `int` from the digits of `%d`, which are read as a `long`. -/
def intOf (z : ℤ) : ℤ := toInt (max (-2 ^ 63) (min z (2 ^ 63 - 1)))

/-- `us` after `sscanf(user_sel, "%d", &us)`. -/
def selected (us : ℤ) (text : List UInt8) : ℤ :=
  match scanInt text with
  | .value z => intOf z
  | _ => us

/-- The condition for `return 0`. -/
def Leaves (pc us : ℤ) (text : List UInt8) : Prop :=
  us = pc ∨ text.head? = some 113 ∨ strcmp (quitText ++ [0]) (text ++ [0]) = .ok 0
    ∨ strcmp (exitText ++ [0]) (text ++ [0]) = .ok 0

instance (pc us : ℤ) (text : List UInt8) : Decidable (Leaves pc us text) :=
  inferInstanceAs (Decidable (_ ∨ _ ∨ _ ∨ _))

/-- The titles are printed with their numbers. -/
def listing (pc : ℤ) : List ℤ := (List.range pc.toNat).map fun i : ℕ ↦ (i : ℤ)

/-- `plgns[us]` -/
def entry {F : Type} (plgns : List (PluginInfo F)) (us : ℤ) : Option (PluginInfo F) :=
  if 0 ≤ us then plgns[us.toNat]? else none

/-- `fgets(user_sel, BUF_SIZE, stdin)` -/
def readSel (s : State) : Option (List UInt8) × State :=
  match fgets bufSize s.stdin with
  | none => (none, s)
  | some (line, rest) =>
    (some line, { s with stdin := rest, userSel := line ++ 0 :: s.userSel.drop (line.length + 1) })

/-- What follows `sscanf`, with what `scanf` leaves of the input. -/
def runSel {F : Type} (scanLf : List UInt8 → List UInt8) (plgns : List (PluginInfo F)) (pc : ℤ)
    (line : Option (List UInt8)) (text : List UInt8) (s : State) : Round F × State :=
  if Leaves pc s.us text then (⟨line, listing pc, none⟩, { s with status := .exited })
  else if s.us < pc then
    (⟨line, listing pc ++ [s.us], (entry plgns s.us).map (·.pf)⟩,
      if (entry plgns s.us).isSome then { s with stdin := (scanLf (scanLf s.stdin)).tail.tail }
      else { s with status := .fault })
  else (⟨line, listing pc, none⟩, s)

/-- A round of `while(1)`. Without a NUL in the array `sscanf` reads behind it. -/
def round {F : Type} (scanLf : List UInt8 → List UInt8) (plgns : List (PluginInfo F)) (pc : ℤ)
    (s : State) : Option (Round F × State) :=
  if s.status = .running then
    let (line, s) := readSel s
    some (match cstring s.userSel with
      | none => (⟨line, listing pc, none⟩, { s with status := .fault })
      | some text => runSel scanLf plgns pc line text { s with us := selected s.us text })
  else none

/-- `main` up to the loop, with what is in `user_sel` then. The listing goes through the table if
`pc` is positive, and a character is read. -/
def main {F : Type} (sys : System F) (userSel stdin : List UInt8) :
    Except Fault (List (PluginInfo F) × ℤ × State) := do
  let (plgns, pc) ← loadPlgns sys
  match plgns with
  | some plgns => .ok (plgns, pc, ⟨stdin.tail, userSel, 0, .running⟩)
  | none => if 0 < pc then .error .segv else .ok ([], pc, ⟨stdin.tail, userSel, 0, .running⟩)

/-! ## What the menu is for -/

section

variable {F : Type}

/-- The line begins with a number, as `%d` reads it. -/
def Parses (line : Option (List UInt8)) (z : ℤ) : Prop :=
  ∃ l ∈ line, ∃ text ∈ cstring (l ++ [0]), scanInt text = .value z

/-- The line is `exit`, `quit` or the exit number. -/
def SaysEnd (pc : ℤ) (line : Option (List UInt8)) : Prop :=
  (∃ l ∈ line, l ∈ [exitText, exitText ++ [10], quitText, quitText ++ [10]]) ∨ Parses line pc

/-- Only what was chosen is run, the program ends when it is told to, and all indices are in the
table. -/
structure RunsChosen (plgns : List (PluginInfo F)) (pc : ℤ) (r : Round F) (t : State) : Prop where
  called : ∀ pf ∈ r.called, ∃ k : ℕ, Parses r.line k ∧ (k : ℤ) < pc
    ∧ ∃ p, plgns[k]? = some p ∧ p.pf = pf
  ends : SaysEnd pc r.line → t.status = .exited
  used : ∀ k ∈ r.used, 0 ≤ k ∧ k < pc

/-- A line begins with `q`, or is `exit` without a newline. Or it begins with a number: as an `int`
that is not negative, and if it is in the table it is the number in the line. Or no number is there:
then the last one was the exit number or beyond it, and the line is not `exit`.

At the end of the input no number of the table may be left in the array or in `us`. -/
def Chosen (pc : ℤ) (s : State) : Option (List UInt8) → Prop
  | none => ∀ text ∈ cstring s.userSel, text.head? = some 113 ∨ text = exitText
    ∨ pc ≤ selected s.us text
  | some line => ∀ text ∈ cstring (line ++ [0]), text.head? = some 113 ∨ text = exitText
    ∨ match scanInt text with
      | .value z => 0 ≤ intOf z ∧ (intOf z < pc → intOf z = z)
      | _ => s.us = pc ∨ pc < s.us ∧ line ≠ exitText ++ [10]

/-! ## Lines -/

variable {l text : List UInt8} {line : Option (List UInt8)} {pc us z : ℤ}

theorem leaves_iff (h0 : 0 ∉ text) :
    Leaves pc us text ↔ us = pc ∨ text.head? = some 113 ∨ text = exitText := by
  have htext := cstring_append_zero h0 []
  have hquit : cstring (quitText ++ [0]) = some quitText := rfl
  have hexit : cstring (exitText ++ [0]) = some exitText := rfl
  rw [Leaves, strcmp_eq_zero_iff hquit htext, strcmp_eq_zero_iff hexit htext]
  constructor
  · rintro (h | h | h | h)
    · exact Or.inl h
    · exact Or.inr (Or.inl h)
    · exact Or.inr (Or.inl (h ▸ rfl))
    · exact Or.inr (Or.inr h.symm)
  · rintro (h | h | h)
    · exact Or.inl h
    · exact Or.inr (Or.inl h)
    · exact Or.inr (Or.inr (Or.inr h.symm))

theorem exists_text (l : List UInt8) : ∃ text, cstring (l ++ [0]) = some text :=
  exists_cstring_iff.mpr (List.mem_append_right l List.mem_cons_self)

theorem not_parses_none : ¬ Parses none z := by
  rintro ⟨l, hl, -⟩
  cases hl

theorem not_saysEnd_none : ¬ SaysEnd pc none := by
  rintro (⟨l, hl, -⟩ | h)
  · cases hl
  · exact not_parses_none h

theorem parses_some_iff (h : cstring (l ++ [0]) = some text) :
    Parses (some l) z ↔ scanInt text = .value z := by
  constructor
  · rintro ⟨l', hl, text', htext, hscan⟩
    cases hl
    cases h.symm.trans htext
    exact hscan
  · exact fun hscan ↦ ⟨l, rfl, text, h, hscan⟩

theorem intOf_eq (hlo : 0 ≤ z) (hhi : z < 2 ^ 31) : intOf z = z := by
  rw [intOf, min_eq_left (by omega), max_eq_right (by omega)]
  exact toInt_eq (by omega) hhi

theorem selected_of_value (h : scanInt text = .value z) : selected us text = intOf z := by
  rw [selected, h]

theorem selected_of_ne (h : ∀ z, scanInt text ≠ .value z) : selected us text = us := by
  rw [selected]
  split
  · rename_i z hz
    exact absurd hz (h z)
  · rfl

theorem mem_listing {k : ℤ} (hpc : 0 ≤ pc) : k ∈ listing pc ↔ 0 ≤ k ∧ k < pc := by
  rw [listing, List.mem_map]
  constructor
  · rintro ⟨i, hi, rfl⟩
    have hlt := List.mem_range.mp hi
    exact ⟨by positivity, by omega⟩
  · rintro ⟨hlo, hhi⟩
    exact ⟨k.toNat, List.mem_range.mpr (by omega), Int.toNat_of_nonneg hlo⟩

/-! ## One round -/

variable {plgns : List (PluginInfo F)} {scanLf : List UInt8 → List UInt8} {s t : State}
  {r : Round F}

theorem exists_entry (hlen : pc = plgns.length) (hlo : 0 ≤ us) (hhi : us < pc) :
    ∃ p, plgns[us.toNat]? = some p ∧ entry plgns us = some p := by
  have hlt : us.toNat < plgns.length := by omega
  refine ⟨_, List.getElem?_eq_getElem hlt, ?_⟩
  rw [entry, if_pos hlo]
  exact List.getElem?_eq_getElem hlt

theorem runsChosen_of_listing (hpc : 0 ≤ pc) :
    RunsChosen plgns pc ⟨line, listing pc, none⟩ t ↔ (SaysEnd pc line → t.status = .exited) := by
  refine ⟨fun h ↦ h.ends, fun h ↦ ⟨?_, h, fun k hk ↦ (mem_listing hpc).mp hk⟩⟩
  intro pf hpf
  cases hpf

/-- The number in `us` is called: it must be in the line and in the table. -/
theorem runsChosen_of_call (hpc : 0 ≤ pc) (hlen : pc = plgns.length) (hfits : pc < 2 ^ 31)
    (hparses : ∀ z, Parses line z → us = intOf z) (hlt : us < pc) (ht : t.status ≠ .exited) :
    RunsChosen plgns pc ⟨line, listing pc ++ [us], (entry plgns us).map (·.pf)⟩ t
      ↔ (0 ≤ us ∧ Parses line us) ∧ ¬ SaysEnd pc line := by
  constructor
  · rintro ⟨hcalled, hends, hused⟩
    have hlo := (hused us (List.mem_append_right _ List.mem_cons_self)).1
    obtain ⟨p, -, hentry⟩ := exists_entry hlen hlo hlt
    dsimp only at hcalled
    rw [hentry] at hcalled
    obtain ⟨k, hk, hkpc, -⟩ := hcalled p.pf rfl
    have hus : us = k := (hparses k hk).trans (intOf_eq (by positivity) (by omega))
    refine ⟨⟨hlo, ?_⟩, fun hsays ↦ ht (hends hsays)⟩
    rw [hus]
    exact hk
  · rintro ⟨⟨hlo, hus⟩, hsays⟩
    obtain ⟨p, hp, hentry⟩ := exists_entry hlen hlo hlt
    refine ⟨?_, fun h ↦ absurd h hsays, ?_⟩
    · intro pf hpf
      dsimp only at hpf
      rw [hentry] at hpf
      cases hpf
      refine ⟨us.toNat, ?_, by omega, p, hp, rfl⟩
      rwa [Int.toNat_of_nonneg hlo]
    · intro k hk
      obtain hk | hk := List.mem_append.mp hk
      · exact (mem_listing hpc).mp hk
      · cases List.mem_singleton.mp hk
        exact ⟨hlo, hlt⟩

theorem line_runSel (line : Option (List UInt8)) (text : List UInt8) (s : State) :
    (runSel scanLf plgns pc line text s).1.line = line := by
  rw [runSel]
  split_ifs <;> rfl

theorem runSel_iff (hpc : 0 ≤ pc) (hlen : pc = plgns.length) (hfits : pc < 2 ^ 31)
    (hparses : ∀ z, Parses line z → s.us = intOf z) (hs : s.status = .running)
    (h : runSel scanLf plgns pc line text s = (r, t)) :
    RunsChosen plgns pc r t ↔ Leaves pc s.us text
      ∨ (s.us < pc → 0 ≤ s.us ∧ Parses line s.us) ∧ ¬ SaysEnd pc line := by
  rw [runSel] at h
  split_ifs at h with hleaves hlt hsome
  · cases h
    exact iff_of_true ((runsChosen_of_listing hpc).mpr fun _ ↦ rfl) (Or.inl hleaves)
  · cases h
    have hrunning : s.status ≠ .exited := by
      rw [hs]
      decide
    rw [or_iff_right hleaves, imp_iff_right hlt]
    exact runsChosen_of_call hpc hlen hfits hparses hlt hrunning
  · cases h
    have hfault : Status.fault ≠ .exited := by decide
    rw [or_iff_right hleaves, imp_iff_right hlt]
    exact runsChosen_of_call hpc hlen hfits hparses hlt hfault
  · cases h
    rw [runsChosen_of_listing hpc, or_iff_right hleaves, hs]
    refine ⟨fun h ↦ ⟨fun h' ↦ absurd h' hlt, fun hsays ↦ ?_⟩, fun h hsays ↦ absurd hsays h.2⟩
    exact absurd (h hsays) (by decide)

/-! ## What was chosen -/

/-- Of the words only `exit` with its newline is left. -/
theorem saysEnd_some_iff (h : cstring (l ++ [0]) = some text) (hq : text.head? ≠ some 113)
    (hexit : text ≠ exitText) :
    SaysEnd pc (some l) ↔ l = exitText ++ [10] ∨ scanInt text = .value pc := by
  rw [SaysEnd, parses_some_iff h]
  refine or_congr_left ⟨?_, ?_⟩
  · rintro ⟨l', hl, hmem⟩
    cases hl
    simp only [List.mem_cons, List.not_mem_nil, or_false] at hmem
    obtain rfl | rfl | rfl | rfl := hmem
    · cases h
      exact absurd rfl hexit
    · rfl
    · cases h
      exact absurd rfl hq
    · cases h
      exact absurd rfl hq
  · rintro rfl
    exact ⟨_, rfl, List.mem_cons_of_mem _ List.mem_cons_self⟩

theorem leaves_or_iff_chosen_none (htext : cstring s.userSel = some text) :
    (Leaves pc (selected s.us text) text ∨ (selected s.us text < pc
        → 0 ≤ selected s.us text ∧ Parses none (selected s.us text)) ∧ ¬ SaysEnd pc none)
      ↔ Chosen pc s none := by
  have hchosen : Chosen pc s none
      ↔ text.head? = some 113 ∨ text = exitText ∨ pc ≤ selected s.us text := by
    refine ⟨fun h ↦ h text htext, fun h text' htext' ↦ ?_⟩
    cases htext.symm.trans htext'
    exact h
  have hnone : ¬ (0 ≤ selected s.us text ∧ Parses none (selected s.us text)) :=
    fun h ↦ not_parses_none h.2
  rw [hchosen, leaves_iff (zero_not_mem_of_cstring htext), and_iff_left not_saysEnd_none,
    imp_iff_not hnone, not_lt]
  grind

theorem leaves_or_iff_chosen_some (hpc : 0 ≤ pc) (hfits : pc < 2 ^ 31)
    (htext : cstring (l ++ [0]) = some text) :
    (Leaves pc (selected s.us text) text ∨ (selected s.us text < pc
        → 0 ≤ selected s.us text ∧ Parses (some l) (selected s.us text)) ∧ ¬ SaysEnd pc (some l))
      ↔ Chosen pc s (some l) := by
  have hchosen : Chosen pc s (some l) ↔ text.head? = some 113 ∨ text = exitText
      ∨ match scanInt text with
        | .value z => 0 ≤ intOf z ∧ (intOf z < pc → intOf z = z)
        | _ => s.us = pc ∨ pc < s.us ∧ l ≠ exitText ++ [10] := by
    refine ⟨fun h ↦ h text htext, fun h text' htext' ↦ ?_⟩
    cases htext.symm.trans htext'
    exact h
  rw [hchosen, leaves_iff (zero_not_mem_of_cstring htext)]
  by_cases hq : text.head? = some 113
  · exact iff_of_true (Or.inl (Or.inr (Or.inl hq))) (Or.inl hq)
  by_cases hexit : text = exitText
  · exact iff_of_true (Or.inl (Or.inr (Or.inr hexit))) (Or.inr (Or.inl hexit))
  rw [or_iff_left (not_or_intro hq hexit), or_iff_right hq, or_iff_right hexit,
    saysEnd_some_iff htext hq hexit, parses_some_iff htext]
  cases hscan : scanInt text with
  | value z =>
    have hline : l ≠ exitText ++ [10] := by
      have hword : scanInt (exitText ++ [10]) = .mismatch := by decide
      rintro rfl
      cases htext
      cases hword.symm.trans hscan
    have hz : z = pc → intOf z = pc := by
      rintro rfl
      exact intOf_eq hpc hfits
    rw [selected_of_value hscan, or_iff_right hline, Scan.value.injEq, Scan.value.injEq]
    dsimp only
    grind
  | eof | mismatch =>
    have hne : ∀ z, scanInt text ≠ .value z := fun z h ↦ by cases hscan.symm.trans h
    rw [selected_of_ne hne]
    grind

/-- A round reads a line, or has what the array holds; without a NUL in the array it is the last. -/
theorem round_cases (h : round scanLf plgns pc s = some (r, t)) :
    (cstring s.userSel = none ∧ r = ⟨none, listing pc, none⟩) ∨ ∃ line text s',
      ((line = none ∧ cstring s.userSel = some text)
        ∨ ∃ l, line = some l ∧ cstring (l ++ [0]) = some text)
      ∧ s'.us = selected s.us text ∧ s'.status = .running
      ∧ runSel scanLf plgns pc line text s' = (r, t) := by
  rw [round] at h
  split at h
  · rename_i hs
    rw [Option.some_inj, readSel] at h
    cases hline : fgets bufSize s.stdin with
    | none =>
      rw [hline] at h
      dsimp only at h
      cases htext : cstring s.userSel with
      | none =>
        rw [htext] at h
        cases h
        exact Or.inl ⟨rfl, rfl⟩
      | some text =>
        rw [htext] at h
        exact Or.inr ⟨none, text, { s with us := selected s.us text }, Or.inl ⟨rfl, rfl⟩, rfl,
          hs, h⟩
    | some p =>
      obtain ⟨l, rest⟩ := p
      obtain ⟨text, htext⟩ := exists_text l
      have hsel := cstring_append htext (s.userSel.drop (l.length + 1))
      rw [List.append_assoc, List.singleton_append] at hsel
      rw [hline] at h
      dsimp only at h
      rw [hsel] at h
      refine Or.inr ⟨some l, text, ⟨rest, _, selected s.us text, s.status⟩, ?_, rfl, hs, h⟩
      exact Or.inr ⟨l, rfl, htext⟩
  · cases h

/-- **A round runs what was chosen exactly if the line before it says what to run.** -/
theorem round_iff (hpc : 0 ≤ pc) (hlen : pc = plgns.length) (hfits : pc < 2 ^ 31)
    (h : round scanLf plgns pc s = some (r, t)) :
    RunsChosen plgns pc r t ↔ Chosen pc s r.line := by
  obtain ⟨hnul, rfl⟩ | ⟨line, text, s', htext, hus, hs', hrun⟩ := round_cases h
  · refine iff_of_true ((runsChosen_of_listing hpc).mpr fun h ↦ absurd h not_saysEnd_none) ?_
    intro text htext
    cases hnul.symm.trans htext
  · have hline : r.line = line := by rw [← line_runSel line text s', hrun]
    have hparses : ∀ z, Parses line z → s'.us = intOf z := by
      intro z hz
      obtain ⟨rfl, -⟩ | ⟨l, rfl, htext⟩ := htext
      · exact absurd hz not_parses_none
      · rw [hus, selected_of_value ((parses_some_iff htext).mp hz)]
    rw [runSel_iff hpc hlen hfits hparses hs' hrun, hline, hus]
    obtain ⟨rfl, htext⟩ | ⟨l, rfl, htext⟩ := htext
    · exact leaves_or_iff_chosen_none htext
    · exact leaves_or_iff_chosen_some hpc hfits htext

theorem chosen_of_value (htext : cstring (l ++ [0]) = some text) (hscan : scanInt text = .value z)
    (hlo : 0 ≤ z) (hhi : z < 2 ^ 31) : Chosen pc s (some l) := by
  intro text' htext'
  cases htext.symm.trans htext'
  rw [hscan]
  dsimp only
  rw [intOf_eq hlo hhi]
  exact Or.inr (Or.inr ⟨hlo, fun _ ↦ rfl⟩)

/-! ## Loading -/

/-- The plugin is what there is in the library. -/
def Loads (sys : System F) (dName : List UInt8) (p : PluginInfo F) : Prop :=
  ∃ extLib, sys.dlopen (getPlgnPath sys.getcwd dName) = some extLib
    ∧ extLib.pluginName = some p.plgnName ∧ extLib.mainFunction = some p.mainFunc
    ∧ extLib.menuTitle = some p.menuTitle ∧ extLib.function p.mainFunc = some p.pf

theorem loads_of_loadAll {sys : System F} {names : List (List UInt8)}
    (h : loadAll sys names = .ok (some plgns)) : List.Forall₂ (Loads sys) names plgns := by
  induction names generalizing plgns with
  | nil =>
    cases h
    exact List.Forall₂.nil
  | cons dName names ih =>
    rw [loadAll] at h
    split at h
    · cases h
    · rename_i extLib hlib
      split at h
      · cases h
      · rename_i mainFunc hmain
        split at h
        · rename_i plgnName menuTitle pf hname htitle hpf
          obtain ⟨rest, hrest, hcons⟩ := Except.bind_eq_ok_iff.mp h
          obtain ⟨plgns, rfl, rfl⟩ := Option.map_eq_some_iff.mp (Except.ok.inj hcons)
          exact List.Forall₂.cons ⟨extLib, hlib, hname, hmain, htitle, hpf⟩ (ih hrest)
        · cases h

theorem loadPlgns_some {sys : System F} (h : loadPlgns sys = .ok (some plgns, pc)) :
    pc = plgns.length ∧ pc < 2 ^ 31 := by
  rw [loadPlgns] at h
  split at h
  · cases hnames : findLibs sys with
    | none =>
      rw [hnames] at h
      cases h
    | some names =>
      rw [hnames] at h
      obtain ⟨table, htable, hpair⟩ := Except.bind_eq_ok_iff.mp h
      obtain ⟨rfl, rfl⟩ := Prod.mk.inj (Except.ok.inj hpair)
      obtain ⟨names, hmem, rfl⟩ := Option.map_eq_some_iff.mp hnames
      have hlen := (loads_of_loadAll htable).length_eq
      have hfits := sys.fits names hmem
      exact ⟨congrArg Nat.cast hlen, by omega⟩
  · cases h

theorem main_eq_ok {sys : System F} {userSel stdin : List UInt8}
    (h : main sys userSel stdin = .ok (plgns, pc, s)) (hpc : 0 ≤ pc) :
    pc = plgns.length ∧ pc < 2 ^ 31 := by
  obtain ⟨⟨table, n⟩, hload, h⟩ := Except.bind_eq_ok_iff.mp h
  dsimp only at h
  cases table with
  | some table =>
    cases h
    exact loadPlgns_some hload
  | none =>
    dsimp only at h
    split at h
    · cases h
    · rename_i hn
      cases h
      rw [List.length_nil]
      omega

/-- **The menu runs only what was chosen** in a run exactly if the line before each round says what
to run. -/
theorem runsChosen_iff {sys : System F} {userSel stdin : List UInt8}
    (hmain : main sys userSel stdin = .ok (plgns, pc, s)) (hpc : 0 ≤ pc)
    (scanLf : List UInt8 → List UInt8) (rounds : List (Round F)) (t : State) :
    Run (fun s r t ↦ round scanLf plgns pc s = some (r, t) ∧ RunsChosen plgns pc r t) s rounds t
      ↔ Run (fun s r t ↦ round scanLf plgns pc s = some (r, t) ∧ Chosen pc s r.line)
        s rounds t := by
  obtain ⟨hlen, hfits⟩ := main_eq_ok hmain hpc
  exact Run.steps_congr (I := fun _ ↦ True) (fun _ _ _ _ _ ↦ trivial)
    (fun _ _ _ _ h ↦ round_iff hpc hlen hfits h) trivial

end

/-! ## One plugin -/

/-- A directory with the plugin for sums. -/
def addSystem : System ℕ where
  chdir := true
  getcwd := ascii "/calc/plugins"
  scandir := some [ascii "add.so"]
  dlopen _ := some ⟨some (ascii "add.so"), some (ascii "cn_add"), some (ascii "[Add]ition"),
    fun _ ↦ some 7⟩
  fits := by decide

def addPlugin : PluginInfo ℕ := ⟨ascii "add.so", ascii "cn_add", ascii "[Add]ition", 7⟩

/-- Two numbers of digits. -/
def scanDigits (input : List UInt8) : List UInt8 :=
  (((input.dropWhile isSpace).dropWhile isDigit).dropWhile isSpace).dropWhile isDigit

/-- Where the loop starts. -/
def started (stdin : List UInt8) : State := ⟨stdin, List.replicate 255 0, 0, .running⟩

theorem main_addSystem (stdin : List UInt8) :
    main addSystem (List.replicate 255 0) (10 :: stdin) = .ok ([addPlugin], 1, started stdin) := rfl

/-- The first plugin is called with two numbers, and then the program is left by the exit number. -/
theorem runsChosen_iff_add : ∃ t, Run (fun s r t ↦
      round scanDigits [addPlugin] 1 s = some (r, t) ∧ RunsChosen [addPlugin] 1 r t)
    (started (ascii "0\n1 2\n3 4\n\n1\n"))
    [⟨some (ascii "0\n"), [0, 0], some 7⟩, ⟨some (ascii "1\n"), [0], none⟩] t := by
  have hmain := main_addSystem (ascii "0\n1 2\n3 4\n\n1\n")
  have hzero : cstring (ascii "0\n" ++ [0]) = some (ascii "0\n") := by decide
  have hone : cstring (ascii "1\n" ++ [0]) = some (ascii "1\n") := by decide
  refine ⟨_, (runsChosen_iff hmain (by decide) scanDigits _ _).mpr
    (Run.cons ⟨rfl, ?_⟩ (Run.cons ⟨rfl, ?_⟩ (Run.nil _)))⟩
  · exact chosen_of_value (z := 0) hzero (by decide) (by decide) (by decide)
  · exact chosen_of_value (z := 1) hone (by decide) (by decide) (by decide)

/-- `exit` calls the first plugin, and `-1` is an index in front of the table. -/
theorem not_runsChosen :
    (∀ stdin, main addSystem (List.replicate 255 0) (10 :: stdin)
        = .ok ([addPlugin], 1, started stdin))
    ∧ (∃ t, round scanDigits [addPlugin] 1 (started (ascii "exit\n"))
        = some (⟨some (ascii "exit\n"), [0, 0], some 7⟩, t)
      ∧ ¬ RunsChosen [addPlugin] 1 ⟨some (ascii "exit\n"), [0, 0], some 7⟩ t)
    ∧ ∃ t, round scanDigits [addPlugin] 1 (started (ascii "-1\n"))
        = some (⟨some (ascii "-1\n"), [0, -1], none⟩, t)
      ∧ ¬ RunsChosen [addPlugin] 1 ⟨some (ascii "-1\n"), [0, -1], none⟩ t := by
  refine ⟨main_addSystem, ⟨_, rfl, fun h ↦ ?_⟩, _, rfl, fun h ↦ ?_⟩
  · have hends := h.ends (Or.inl ⟨_, rfl, by decide⟩)
    exact absurd hends (by decide)
  · have hused := (h.used (-1) (by decide)).1
    exact absurd hused (by decide)

end AllProjects.Calculator
