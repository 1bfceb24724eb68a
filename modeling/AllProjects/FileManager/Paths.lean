import AllProjects.FileManager.Listing

/-!
# Paths in fixed buffers

F5 and F8 act on the path of the selected file, which goes through several buffers of `BUF_SIZE`
bytes: `getcwd` fills the first, `snprintf` cuts at the second, and `strncpy` copies it to a third
without terminating it. F5 then shows the path in a field of the popup, as wide as the popup less
six, and takes it back from there without the blanks at its ends.

Nothing along the way reports an error. A path that is too long is cut, and what is left of it may
be the path of some other file.

The form library is a parameter: `field w s` is what `field_buffer` returns for a field of one line
and `w` columns after `set_field_buffer` was given `s`. The fields are taken as they are offered,
without further editing.
-/

namespace AllProjects

namespace FileManager

variable {Dir : Type}

/-! ## The buffers -/

/-- What `strncpy(buf, s, BUF_SIZE - 1)` makes of a buffer of `BUF_SIZE` bytes: the last byte is not
written. -/
def strncpyInto (buf s : List UInt8) : List UInt8 :=
  s.take (bufSize - 1) ++ List.replicate (bufSize - 1 - s.length) 0 ++ buf.drop (bufSize - 1)

/-- `get_file_path`. When `getcwd` fails, `cur_dir` is not written, and `junk` is found in it. -/
def getFilePath (curDir : Option (List UInt8)) (junk fileName : List UInt8) : List UInt8 :=
  (curDir.getD (junk.takeWhile (· ≠ 0)) ++ 47 :: fileName).take (bufSize - 1)

/-- The paths in `COPY_FILE_INFO`, one behind the other, and what comes then. -/
structure PathBuffers where
  fnSrc : List UInt8
  fnDst : List UInt8
  behind : List UInt8

namespace PathBuffers

variable (b : PathBuffers)

/-- The string at `cfi->fn_src`. -/
def srcString : List UInt8 := (b.fnSrc ++ (b.fnDst ++ b.behind)).takeWhile (· ≠ 0)

/-- The string at `cfi->fn_dst`. -/
def dstString : List UInt8 := (b.fnDst ++ b.behind).takeWhile (· ≠ 0)

/-- Copy a string to each of them. -/
def write (src dst : List UInt8) : PathBuffers :=
  { b with fnSrc := strncpyInto b.fnSrc src, fnDst := strncpyInto b.fnDst dst }

end PathBuffers

/-- `isspace`, in the C locale. -/
def isspace (b : UInt8) : Bool := b = 32 || (9 ≤ b && b ≤ 13)

/-- `trim`. For a string of blanks it reads what is in front of the string. -/
def trim (spaced : List UInt8) : Except Fault (List UInt8) :=
  if spaced.all isspace then .error .segv
  else .ok ((spaced.rdropWhile isspace).dropWhile isspace)

/-! ## F8 and F5 -/

/-- **The path that F8 unlinks**, if it does. -/
def unlinkPath (fs : FileSystem Dir) (cwd : Dir) (junk : List UInt8) (current : FileInfo)
    (confirmed : Bool) : Option (List UInt8) :=
  if current.isReg && confirmed then some (getFilePath (fs.getcwd cwd) junk current.fileName)
  else none

/-- `copy_action_btn_ok`, from the buffers of the two fields. It first takes `strlen` of the two
`FIELD`s themselves, not of their buffers; what it finds there is taken not to be empty. -/
def copyActionBtnOk (buffer₁ buffer₃ : List UInt8) (b : PathBuffers) :
    Except Fault PathBuffers := do
  let src ← trim buffer₁
  let dst ← trim buffer₃
  .ok (b.write src dst)

/-- `display_copy_form`, in a popup of `cols` columns; `ok` tells how the form is left. `popup_new`
asserts that the fields could be created, for which they need a width. Its other asserts, on
windows, menus, forms and the memory for them, are taken to hold. -/
def displayCopyForm (field : ℕ → List UInt8 → List UInt8) (cols : ℕ) (ok : Bool) (b : PathBuffers) :
    Except Fault (Option PathBuffers) :=
  if cols ≤ 6 then .ok none
  else if ok then
    (copyActionBtnOk (field (cols - 6) b.srcString) (field (cols - 6) b.dstString) b).map some
  else .ok none

/-- What F5 finds in memory that nobody has written: in the two `cur_dir`, and in `cfi`. -/
structure CopyMemory where
  curDir₁ : List UInt8
  curDir₂ : List UInt8
  cfi : PathBuffers
  length_fnSrc : cfi.fnSrc.length = bufSize
  length_fnDst : cfi.fnDst.length = bufSize

/-- The paths that `main` puts into `cfi`, for the file that is selected. -/
def CopyMemory.fill (m : CopyMemory) (fs : FileSystem Dir) (cwd : Dir) (fileName : List UInt8) :
    PathBuffers :=
  m.cfi.write (getFilePath (fs.getcwd cwd) m.curDir₁ fileName)
    (getFilePath (fs.getcwd cwd) m.curDir₂ [])

/-- **The path that F5 copies from**, if it does. -/
def copySource (field : ℕ → List UInt8 → List UInt8) (cols : ℕ) (fs : FileSystem Dir) (cwd : Dir)
    (m : CopyMemory) (current : FileInfo) (ok : Bool) : Except Fault (Option (List UInt8)) :=
  if current.isReg then
    (displayCopyForm field cols ok (m.fill fs cwd current.fileName)).map
      (Option.map PathBuffers.srcString)
  else .ok none

/-! ## The right path -/

/-- The path of a file in a directory. -/
def pathOf (dir name : List UInt8) : List UInt8 := dir ++ 47 :: name

/-- **F8 deletes the selected file or none**, whatever is found in memory. `name` is its name in the
directory, and `junk` stands behind `file_name` in the node. -/
def DeletesSelected (fs : FileSystem Dir) (cwd : Dir) (dir name : List UInt8) (mode : ℕ) : Prop :=
  ∀ (junk curDir : List UInt8) (confirmed : Bool),
    ∀ p ∈ unlinkPath fs cwd curDir ⟨fileNameOf name junk, mode⟩ confirmed, p = pathOf dir name

/-- **F5 copies from the selected file or not at all**, whatever is found in memory. -/
def CopiesSelected (field : ℕ → List UInt8 → List UInt8) (cols : ℕ) (fs : FileSystem Dir)
    (cwd : Dir) (dir name : List UInt8) (mode : ℕ) : Prop :=
  ∀ (junk : List UInt8) (m : CopyMemory) (ok : Bool), ∃ r,
    copySource field cols fs cwd m ⟨fileNameOf name junk, mode⟩ ok = .ok r
      ∧ ∀ p ∈ r, p = pathOf dir name

/-- A field shows as much of a string as it has columns, and blanks behind it. -/
def FieldLaw (field : ℕ → List UInt8 → List UInt8) : Prop :=
  ∀ w s, field w s = s.take w ++ List.replicate (w - s.length) 32

theorem isReg_eq (name name' : List UInt8) (mode : ℕ) :
    FileInfo.isReg ⟨name, mode⟩ = FileInfo.isReg ⟨name', mode⟩ := rfl

/-! ## F8 -/

theorem length_pathOf (dir name : List UInt8) :
    (pathOf dir name).length = dir.length + 1 + name.length := by
  rw [pathOf, List.length_append, List.length_cons]
  omega

theorem length_getFilePath_le (curDir : Option (List UInt8)) (junk fileName : List UInt8) :
    (getFilePath curDir junk fileName).length ≤ bufSize - 1 := by
  rw [getFilePath, List.length_take]
  exact Nat.min_le_left _ _

theorem getcwd_eq_some {fs : FileSystem Dir} {cwd : Dir} {dir : List UInt8}
    (hdir : fs.path cwd = some dir) (hlen : dir.length < bufSize) : fs.getcwd cwd = some dir := by
  rw [FileSystem.getcwd, hdir, Option.filter_some_pos (by simpa using hlen)]

theorem getFilePath_eq (dir junk name : List UInt8)
    (hlen : (pathOf dir name).length ≤ bufSize - 1) :
    getFilePath (some dir) junk name = pathOf dir name := by
  rw [getFilePath, Option.getD_some]
  exact List.take_of_length_le hlen

theorem fileNameOf_eq_of_pathOf {dir name : List UInt8} (habs : dir.head? = some 47) (h0 : 0 ∉ name)
    (hlen : (pathOf dir name).length ≤ bufSize - 1) (junk : List UInt8) :
    fileNameOf name junk = name := by
  apply fileNameOf_eq h0
  rw [length_pathOf] at hlen
  have hpos : dir ≠ [] := by
    rintro rfl
    cases habs
  have := List.length_pos_of_ne_nil hpos
  omega

section

variable {fs : FileSystem Dir} {cwd : Dir} {dir : List UInt8} {e : Dirent} {mode : ℕ}

theorem deletesSelected_iff (hdir : fs.path cwd = some dir) (habs : dir.head? = some 47) :
    DeletesSelected fs cwd dir e.dName mode
      ↔ (FileInfo.isReg ⟨e.dName, mode⟩ = true → dir.length + 1 + e.dName.length < bufSize) := by
  rw [← length_pathOf]
  constructor
  · intro hall hreg
    have hreg' := (isReg_eq (fileNameOf e.dName []) e.dName mode).trans hreg
    have hpath := hall [] [] true _ (if_pos (Bool.and_eq_true_iff.mpr ⟨hreg', rfl⟩))
    have hle := length_getFilePath_le (fs.getcwd cwd) [] (fileNameOf e.dName [])
    rw [hpath] at hle
    exact Nat.lt_of_le_sub_one (by decide) hle
  · intro hlen junk curDir confirmed p hp
    rw [Option.mem_def, unlinkPath, Option.ite_none_right_eq_some] at hp
    obtain ⟨hreg, hp⟩ := hp
    have hreg' := (isReg_eq e.dName _ mode).trans (Bool.and_eq_true_iff.mp hreg).1
    have hfits := Nat.le_sub_one_of_lt (hlen hreg')
    have hshort : dir.length < bufSize := by
      rw [length_pathOf] at hfits
      omega
    rw [getcwd_eq_some hdir hshort, fileNameOf_eq_of_pathOf habs e.zero_notMem hfits,
      getFilePath_eq dir curDir e.dName hfits] at hp
    exact (Option.some.inj hp).symm

end

/-! ## F5 -/

theorem PathBuffers.srcString_write (b : PathBuffers) (src dst : List UInt8) :
    (b.write src dst).srcString
      = fileNameOf src (b.fnSrc.drop (bufSize - 1) ++ (strncpyInto b.fnDst dst ++ b.behind)) := by
  rw [srcString, write, fileNameOf]
  simp only [strncpyInto, List.append_assoc]

theorem PathBuffers.dstString_write (b : PathBuffers) (src dst : List UInt8) :
    (b.write src dst).dstString = fileNameOf dst (b.fnDst.drop (bufSize - 1) ++ b.behind) := by
  rw [dstString, write, fileNameOf]
  simp only [strncpyInto, List.append_assoc]

theorem drop_strncpyInto (buf s : List UInt8) :
    (strncpyInto buf s).drop (bufSize - 1) = buf.drop (bufSize - 1) := by
  apply List.drop_left'
  rw [List.length_append, List.length_take, List.length_replicate]
  omega

theorem rdropWhile_append_of_all {p : UInt8 → Bool} (s : List UInt8) {t : List UInt8}
    (ht : ∀ b ∈ t, p b = true) : (s ++ t).rdropWhile p = s.rdropWhile p := by
  rw [List.rdropWhile, List.reverse_append,
    List.dropWhile_append_of_pos fun b hb ↦ ht b (List.mem_reverse.mp hb), List.rdropWhile]

/-- **`trim` of a field** that starts with something: blanks go from the end only. -/
theorem trim_cons {b : UInt8} (hb : isspace b = false) (s : List UInt8) :
    trim (b :: s) = .ok ((b :: s).rdropWhile isspace) := by
  have hall : ¬(b :: s).all isspace = true := by
    rw [List.all_cons, hb]
    exact Bool.false_ne_true
  obtain ⟨t, ht⟩ : ∃ t, (b :: s).rdropWhile isspace = b :: t := by
    obtain ⟨t, ht⟩ := List.rdropWhile_prefix isspace (b :: s)
    cases hd : (b :: s).rdropWhile isspace with
    | nil =>
      have hspace := List.rdropWhile_eq_nil_iff.mp hd b List.mem_cons_self
      rw [hb] at hspace
      cases hspace
    | cons c u =>
      rw [hd, List.cons_append, List.cons.injEq] at ht
      exact ⟨u, by rw [ht.1]⟩
  rw [trim, if_neg hall, ht, List.dropWhile_cons_of_neg (by rw [hb]; exact Bool.false_ne_true)]

theorem trim_subset {s t : List UInt8} (h : trim s = .ok t) : t ⊆ s := by
  rw [trim] at h
  split at h
  · cases h
  · cases h
    exact fun b hb ↦ (List.rdropWhile_prefix isspace _).subset ((List.dropWhile_suffix _).subset hb)

theorem zero_notMem_fileNameOf (s junk : List UInt8) : 0 ∉ fileNameOf s junk := by
  intro h
  have := List.mem_takeWhile_imp h
  simp at this

section

variable {field : ℕ → List UInt8 → List UInt8} {cols : ℕ} {fs : FileSystem Dir} {cwd : Dir}
  {dir : List UInt8} {e : Dirent} {mode : ℕ}

theorem trim_field (hfield : FieldLaw field) {w : ℕ} (hw : 0 < w) {s : List UInt8}
    (hs : s.head? = some 47) : trim (field w s) = .ok ((s.take w).rdropWhile isspace) := by
  obtain ⟨t, rfl⟩ := List.head?_eq_some_iff.mp hs
  obtain ⟨w, rfl⟩ := Nat.exists_eq_succ_of_ne_zero hw.ne'
  rw [hfield, List.take_succ_cons, List.cons_append, trim_cons (by decide), ← List.cons_append,
    rdropWhile_append_of_all]
  intro b hb
  rw [List.eq_of_mem_replicate hb]
  decide

/-- **F5 when the form is left with OK.** -/
theorem copySource_eq_ok {m : CopyMemory} {current : FileInfo} {r : Option (List UInt8)}
    (hreg : current.isReg = true) (hcols : 6 < cols) :
    copySource field cols fs cwd m current true = .ok r ↔
      ∃ src dst, trim (field (cols - 6) (m.fill fs cwd current.fileName).srcString) = .ok src
        ∧ trim (field (cols - 6) (m.fill fs cwd current.fileName).dstString) = .ok dst
        ∧ r = some ((m.fill fs cwd current.fileName).write src dst).srcString := by
  rw [copySource, if_pos hreg, displayCopyForm, if_neg (not_le.mpr hcols), if_pos rfl,
    copyActionBtnOk]
  cases trim (field (cols - 6) (m.fill fs cwd current.fileName).srcString) with
  | error f => exact ⟨by rintro ⟨⟩, by rintro ⟨src, dst, ⟨⟩, -⟩⟩
  | ok src =>
    cases trim (field (cols - 6) (m.fill fs cwd current.fileName).dstString) with
    | error f => exact ⟨by rintro ⟨⟩, by rintro ⟨src, dst, -, ⟨⟩, -⟩⟩
    | ok dst =>
      constructor
      · intro h
        exact ⟨src, dst, rfl, rfl, (Except.ok.inj h).symm⟩
      · rintro ⟨_, _, ⟨⟩, ⟨⟩, rfl⟩
        rfl

/-- F5 leaves other files than regular ones alone, needs room for its form, and can be cancelled. -/
theorem copySource_refused {m : CopyMemory} {current : FileInfo} {ok : Bool}
    (h : ¬(current.isReg = true ∧ 6 < cols ∧ ok = true)) :
    copySource field cols fs cwd m current ok = .ok none := by
  rw [copySource]
  split
  · rename_i hreg
    rw [displayCopyForm]
    split
    · rfl
    · rename_i hcols
      rw [if_neg fun hok ↦ h ⟨hreg, not_le.mp hcols, hok⟩]
      rfl
  · rfl

/-- The string that is copied from, behind it the byte that `malloc` left at its end. -/
theorem srcString_write_fill (m : CopyMemory) (fileName src dst : List UInt8) :
    ((m.fill fs cwd fileName).write src dst).srcString = fileNameOf src
      (m.cfi.fnSrc.drop (bufSize - 1) ++ (strncpyInto (m.fill fs cwd fileName).fnDst dst
        ++ m.cfi.behind)) := by
  rw [PathBuffers.srcString_write]
  simp only [CopyMemory.fill, PathBuffers.write, drop_strncpyInto]

/-- **A path with a byte to spare.** What F5 copies from is as much of it as the field has shown. -/
theorem copySource_of_fits (hfield : FieldLaw field) (hdir : fs.path cwd = some dir)
    (habs : dir.head? = some 47) (h0 : 0 ∉ dir) (hreg : FileInfo.isReg ⟨e.dName, mode⟩ = true)
    (hcols : 6 < cols) (hlen : (pathOf dir e.dName).length < bufSize - 1) (junk : List UInt8)
    (m : CopyMemory) : copySource field cols fs cwd m ⟨fileNameOf e.dName junk, mode⟩ true
      = .ok (some (((pathOf dir e.dName).take (cols - 6)).rdropWhile isspace)) := by
  have hle := length_pathOf dir e.dName
  have hroot : ∀ name, (pathOf dir name).head? = some 47 := by
    intro name
    rw [pathOf, List.head?_append, habs]
    rfl
  have hzero : ∀ name, 0 ∉ name → 0 ∉ pathOf dir name := by
    intro name hname
    rw [pathOf, List.mem_append, List.mem_cons]
    rintro (hmem | hmem | hmem)
    · exact h0 hmem
    · exact absurd hmem (by decide)
    · exact hname hmem
  have hcwd : fs.getcwd cwd = some dir := getcwd_eq_some hdir (by omega)
  -- both paths fit
  have hname := fileNameOf_eq_of_pathOf habs e.zero_notMem hlen.le junk
  have hdst : (pathOf dir []).length < bufSize - 1 := by
    rw [length_pathOf] at hlen ⊢
    exact lt_of_le_of_lt (Nat.le_add_right _ _) hlen
  have hfill : (m.fill fs cwd e.dName).srcString = pathOf dir e.dName
      ∧ (m.fill fs cwd e.dName).dstString = pathOf dir [] := by
    rw [CopyMemory.fill, PathBuffers.srcString_write, PathBuffers.dstString_write, hcwd,
      getFilePath_eq _ _ _ hlen.le, getFilePath_eq _ _ _ hdst.le]
    exact ⟨fileNameOf_eq (hzero _ e.zero_notMem) hlen _,
      fileNameOf_eq (hzero _ List.not_mem_nil) hdst _⟩
  have hw : 0 < cols - 6 := Nat.sub_pos_of_lt hcols
  have hsrcTrim := trim_field hfield hw (hfill.1 ▸ hroot e.dName)
  have hdstTrim := trim_field hfield hw (hfill.2 ▸ hroot [])
  rw [hname]
  refine (copySource_eq_ok hreg hcols).mpr ⟨_, _, hsrcTrim, hdstTrim, ?_⟩
  have hpre := (List.rdropWhile_prefix isspace ((pathOf dir e.dName).take (cols - 6))).trans
    (List.take_prefix _ _)
  rw [srcString_write_fill, hfill.1, fileNameOf_eq]
  · exact fun hmem ↦ hzero _ e.zero_notMem (hpre.subset hmem)
  · exact hpre.length_le.trans_lt hlen

/-- Memory in which all bytes are the same. -/
def CopyMemory.constant (b : UInt8) : CopyMemory where
  curDir₁ := []
  curDir₂ := []
  cfi := ⟨List.replicate bufSize b, List.replicate bufSize b, []⟩
  length_fnSrc := List.length_replicate
  length_fnDst := List.length_replicate

theorem CopyMemory.drop_constant (b : UInt8) :
    (CopyMemory.constant b).cfi.fnSrc.drop (bufSize - 1) = [b] := by
  rw [constant, List.drop_replicate]
  rfl

theorem CopiesSelected.exists_source (hall : CopiesSelected field cols fs cwd dir e.dName mode)
    (hfield : FieldLaw field) (hreg : FileInfo.isReg ⟨e.dName, mode⟩ = true) (hcols : 6 < cols)
    (b : UInt8) : ∃ src rest, 0 ∉ src ∧ fileNameOf src (b :: rest) = pathOf dir e.dName := by
  obtain ⟨m, hm⟩ : ∃ m : CopyMemory, m.cfi.fnSrc.drop (bufSize - 1) = [b] :=
    ⟨.constant b, CopyMemory.drop_constant b⟩
  obtain ⟨r, hr, hpath⟩ := hall [] m true
  obtain ⟨src, dst, hsrc, -, rfl⟩ := (copySource_eq_ok ((isReg_eq _ _ _).trans hreg) hcols).mp hr
  rw [srcString_write_fill, hm, List.singleton_append] at hpath
  refine ⟨src, _, ?_, hpath _ rfl⟩
  intro hmem
  have hin := trim_subset hsrc hmem
  rw [hfield, List.mem_append] at hin
  obtain hin | hin := hin
  · rw [CopyMemory.fill, PathBuffers.srcString_write] at hin
    exact zero_notMem_fileNameOf _ _ (List.mem_of_mem_take hin)
  · exact absurd (List.eq_of_mem_replicate hin) (by decide)

theorem CopiesSelected.length_lt (hall : CopiesSelected field cols fs cwd dir e.dName mode)
    (hfield : FieldLaw field) (hreg : FileInfo.isReg ⟨e.dName, mode⟩ = true) (hcols : 6 < cols) :
    (pathOf dir e.dName).length < bufSize - 1 := by
  obtain ⟨src, rest, -, hzero⟩ := hall.exists_source hfield hreg hcols 0
  obtain ⟨src', rest', h0, hone⟩ := hall.exists_source hfield hreg hcols 1
  have hle := length_fileNameOf_zero src rest
  have hne := length_fileNameOf_one h0 rest'
  rw [hzero] at hle
  rw [hone] at hne
  exact lt_of_le_of_ne hle hne

/-- What is left of a path in a field is the path when the field shows all of it and there is no
blank at its end. -/
theorem rdropWhile_take_eq_iff (s : List UInt8) (w : ℕ) :
    (s.take w).rdropWhile isspace = s ↔ s.length ≤ w ∧ ∀ b ∈ s.getLast?, isspace b = false := by
  constructor
  · intro h
    have hlen : s.length ≤ w := by
      have hle := (List.rdropWhile_prefix isspace (s.take w)).length_le
      rw [h, List.length_take] at hle
      exact hle.trans (Nat.min_le_left _ _)
    rw [List.take_of_length_le hlen, List.rdropWhile_eq_self_iff] at h
    refine ⟨hlen, fun b hb ↦ ?_⟩
    obtain ⟨hne, rfl⟩ := List.mem_getLast?_eq_getLast hb
    exact Bool.eq_false_of_not_eq_true (h hne)
  · rintro ⟨hlen, hlast⟩
    rw [List.take_of_length_le hlen, List.rdropWhile_eq_self_iff]
    intro hne
    rw [hlast _ (List.getLast_mem_getLast? hne)]
    exact Bool.false_ne_true

theorem copiesSelected_iff (hfield : FieldLaw field) (hdir : fs.path cwd = some dir)
    (habs : dir.head? = some 47) (h0 : 0 ∉ dir) (hne : e.dName ≠ []) :
    CopiesSelected field cols fs cwd dir e.dName mode
      ↔ (FileInfo.isReg ⟨e.dName, mode⟩ = true → 6 < cols →
        dir.length + 1 + e.dName.length < bufSize - 1
          ∧ dir.length + 1 + e.dName.length ≤ cols - 6
          ∧ ∀ b ∈ e.dName.getLast?, isspace b = false) := by
  have hlast : (pathOf dir e.dName).getLast? = e.dName.getLast? := by
    rw [pathOf, List.getLast?_append, List.getLast?_cons_of_ne_nil hne,
      List.getLast?_eq_some_getLast hne]
    rfl
  rw [← length_pathOf, ← hlast, ← rdropWhile_take_eq_iff]
  constructor
  · intro hall hreg hcols
    have hlen := hall.length_lt hfield hreg hcols
    obtain ⟨r, hr, hpath⟩ := hall [] (.constant 0) true
    rw [copySource_of_fits hfield hdir habs h0 hreg hcols hlen] at hr
    exact ⟨hlen, hpath _ (Except.ok.inj hr ▸ rfl)⟩
  · intro hall junk m ok
    by_cases hcopy : FileInfo.isReg ⟨e.dName, mode⟩ = true ∧ 6 < cols ∧ ok = true
    · obtain ⟨hreg, hcols, rfl⟩ := hcopy
      obtain ⟨hlen, hpath⟩ := hall hreg hcols
      refine ⟨_, copySource_of_fits hfield hdir habs h0 hreg hcols hlen junk m, ?_⟩
      rintro p ⟨⟩
      exact hpath
    · refine ⟨none, copySource_refused ?_, by rintro p ⟨⟩⟩
      exact fun hcopy' ↦ hcopy ⟨(isReg_eq _ _ _).trans hcopy'.1, hcopy'.2⟩

/-- **Paths that stay whole.** F8 needs room for the path and its NUL in one buffer; F5 needs one
byte more, a field that shows all of the path, and a name that does not end in a blank. Otherwise,
if they act at all, they act on some other path. -/
theorem selected_iff (hfield : FieldLaw field) (hdir : fs.path cwd = some dir)
    (habs : dir.head? = some 47) (h0 : 0 ∉ dir) (hne : e.dName ≠ []) :
    (DeletesSelected fs cwd dir e.dName mode
      ↔ (FileInfo.isReg ⟨e.dName, mode⟩ = true → dir.length + 1 + e.dName.length < bufSize))
    ∧ (CopiesSelected field cols fs cwd dir e.dName mode
      ↔ (FileInfo.isReg ⟨e.dName, mode⟩ = true → 6 < cols →
        dir.length + 1 + e.dName.length < bufSize - 1
          ∧ dir.length + 1 + e.dName.length ≤ cols - 6
          ∧ ∀ b ∈ e.dName.getLast?, isspace b = false)) :=
  ⟨deletesSelected_iff hdir habs, copiesSelected_iff hfield hdir habs h0 hne⟩

end

/-- A file system in which the working directory has this path. -/
def dirAt (dir : List UInt8) : FileSystem Unit := { oneDir dotsAndA with path := fun _ ↦ some dir }

/-- A field that shows what it is given. -/
def plainField (w : ℕ) (s : List UInt8) : List UInt8 := s.take w ++ List.replicate (w - s.length) 32

/-- A file in the directory `h` of the root, in a popup of 40 columns. -/
theorem selected_iff_short :
    DeletesSelected (dirAt [47, 104]) () [47, 104] dashX.dName 0o100644
    ∧ CopiesSelected plainField 40 (dirAt [47, 104]) () [47, 104] dashX.dName 0o100644 := by
  have h : (DeletesSelected (dirAt [47, 104]) () [47, 104] dashX.dName 0o100644 ↔ _)
      ∧ (CopiesSelected plainField 40 (dirAt [47, 104]) () [47, 104] dashX.dName 0o100644 ↔ _) :=
    selected_iff (fun _ _ ↦ rfl) rfl rfl (by decide) (by decide)
  refine ⟨h.1.mpr fun _ ↦ by decide, h.2.mpr fun _ _ ↦ ⟨by decide, by decide, ?_⟩⟩
  rintro b ⟨⟩
  decide

/-- A directory with a path of 250 bytes. -/
def deepPath : List UInt8 := 47 :: List.replicate 249 97

/-- **A name of ten bytes in a deep directory.** F8 unlinks what is left of its path. -/
theorem deep_not_selected : ¬∀ (Dir : Type) (field : ℕ → List UInt8 → List UInt8) (cols : ℕ)
    (fs : FileSystem Dir) (cwd : Dir) (dir : List UInt8) (e : Dirent) (mode : ℕ),
    FieldLaw field → fs.path cwd = some dir → dir.head? = some 47 → 0 ∉ dir → e.dName ≠ [] →
    DeletesSelected fs cwd dir e.dName mode
      ∧ CopiesSelected field cols fs cwd dir e.dName mode := by
  intro hall
  have hdel := (hall Unit plainField 40 (dirAt deepPath) () deepPath
    ⟨List.replicate 10 98, by decide⟩ 0o100644 (fun _ _ ↦ rfl) rfl rfl (by decide +kernel)
    (by decide)).1
  have hlen := (deletesSelected_iff rfl rfl).mp hdel (by decide)
  exact absurd hlen (by decide +kernel)

end FileManager

end AllProjects
