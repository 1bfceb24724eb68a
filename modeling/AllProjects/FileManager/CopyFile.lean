import AllProjects.Transition.Run

/-!
# Copying a file

`copy_file` runs in a thread of its own and shares a `COPY_FILE_INFO` with the thread that draws the
progress. It opens the source, asks for its size, opens the destination, which cuts that to length
zero, and moves pieces of at most `COPY_BUF_SIZE` bytes until `read` finds nothing more.

The program knows files by path only; the disk knows them as inodes, and several paths may lead to
one. A descriptor is the inode it was opened on and an offset. Every call may fail, and `read` may
return less than is there; the answers of the calls are the labels of the steps.

Permissions are left out, and so are the descriptors after the last call.
-/

namespace AllProjects

namespace FileManager

/-- `COPY_BUF_SIZE` -/
def copyBufSize : ℕ := 1024

/-! ## Files -/

/-- `write` of `buf` at an offset. Bytes that were skipped read as zeros. -/
def writeAt (bs : List UInt8) (off : ℕ) (buf : List UInt8) : List UInt8 :=
  bs.take off ++ List.replicate (off - bs.length) 0 ++ buf ++ bs.drop (off + buf.length)

theorem writeAt_end {bs : List UInt8} {off : ℕ} (h : bs.length = off) (buf : List UInt8) :
    writeAt bs off buf = bs ++ buf := by
  subst h
  rw [writeAt, List.take_length, Nat.sub_self, List.replicate_zero, List.append_nil,
    List.drop_eq_nil_of_le (Nat.le_add_right _ _), List.append_nil]

/-- Paths lead to inodes, and these have content. -/
structure Disk where
  inode : List UInt8 → Option ℕ
  content : ℕ → List UInt8
  nextIno : ℕ
  inode_lt : ∀ {p : List UInt8} {i : ℕ}, inode p = some i → i < nextIno

namespace Disk

variable (d : Disk)

/-- The content of the file at a path. -/
def contentAt (p : List UInt8) : Option (List UInt8) := (d.inode p).map d.content

/-- Replace the content of a file. -/
def setContent (i : ℕ) (bs : List UInt8) : Disk :=
  { d with content := Function.update d.content i bs }

/-- A new file, at a path where there is none. -/
def create (p : List UInt8) : Disk where
  inode := Function.update d.inode p (some d.nextIno)
  content := Function.update d.content d.nextIno []
  nextIno := d.nextIno + 1
  inode_lt := by
    intro q i h
    rw [Function.update_apply] at h
    split at h
    · obtain rfl := Option.some.inj h
      exact Nat.lt_succ_self _
    · exact Nat.lt_succ_of_lt (d.inode_lt h)

/-- `open(p, O_CREAT | O_WRONLY | O_TRUNC, …)`, when it succeeds. -/
def openTrunc (p : List UInt8) : Disk × ℕ :=
  match d.inode p with
  | some i => (d.setContent i [], i)
  | none => (d.create p, d.nextIno)

variable {d} {p q : List UInt8} {i j : ℕ}

@[simp] theorem inode_setContent (bs : List UInt8) : (d.setContent i bs).inode = d.inode := rfl

@[simp] theorem content_setContent_self (bs : List UInt8) :
    (d.setContent i bs).content i = bs := by
  simp only [setContent, Function.update_self]

theorem content_setContent_of_ne (bs : List UInt8) (h : j ≠ i) :
    (d.setContent i bs).content j = d.content j := by
  simp only [setContent, Function.update_of_ne h]

/-- **What opening the destination does.** The path leads to an empty file, other files are as they
were, and so are the paths that led to one. -/
theorem openTrunc_spec (d : Disk) (p : List UInt8) :
    (d.openTrunc p).1.inode p = some (d.openTrunc p).2
      ∧ (d.openTrunc p).1.content (d.openTrunc p).2 = []
      ∧ ∀ q i, d.inode q = some i → (d.openTrunc p).1.inode q = some i
        ∧ ((d.openTrunc p).2 = i ↔ d.inode p = some i)
        ∧ ((d.openTrunc p).2 ≠ i → (d.openTrunc p).1.content i = d.content i) := by
  cases hp : d.inode p with
  | some j =>
    simp only [openTrunc, hp]
    refine ⟨hp, content_setContent_self [], ?_⟩
    intro q i hq
    exact ⟨hq, Option.some_inj.symm, fun hne ↦ content_setContent_of_ne [] (Ne.symm hne)⟩
  | none =>
    simp only [openTrunc, hp]
    refine ⟨Function.update_self p _ d.inode, by simp only [create, Function.update_self], ?_⟩
    intro q i hq
    have hi : i ≠ d.nextIno := (d.inode_lt hq).ne
    have hqp : q ≠ p := by
      rintro rfl
      rw [hp] at hq
      cases hq
    refine ⟨?_, iff_of_false hi.symm (by rintro ⟨⟩), ?_⟩
    · exact (Function.update_of_ne hqp _ d.inode).trans hq
    · intro _
      simp only [create, Function.update_of_ne hi]

end Disk

/-! ## The thread -/

/-- The fields of `COPY_FILE_INFO` that the threads use; `fs_src` is used for `st_size`. -/
structure CopyFileInfo where
  fnSrc : List UInt8
  fnDst : List UInt8
  curSize : ℤ
  stSize : ℤ
  cols : ℤ

/-- Where `copy_file` stands: the call or the assignment that comes next. `src` and `dst` are the
files behind the descriptors, `rd` and `wr` the offsets. -/
inductive CopyPc
  | openSrc
  | statSrc (src : ℕ)
  | openDst (src : ℕ)
  | zero (src dst : ℕ)
  | read (src dst rd wr : ℕ)
  | write (src dst rd wr : ℕ) (buf : List UInt8)
  | add (src dst rd wr nbytes : ℕ)
  | exited (success : Bool)
  deriving DecidableEq

/-- What a call answers: `-1`, success, or a number of bytes. -/
inductive Answer
  | fails
  | succeeds
  | bytes (n : ℕ)
  deriving DecidableEq

/-- The thread, with the memory and the disk that it works on. -/
structure CopyThread where
  disk : Disk
  cfi : CopyFileInfo
  pc : CopyPc

namespace CopyThread

variable (t : CopyThread)

/-- The program goes on at `pc`. -/
def goto (pc : CopyPc) : CopyThread := { t with pc := pc }

/-- `cfi->cur_size = z` -/
def setCurSize (z : ℤ) : CopyThread := { t with cfi := { t.cfi with curSize := z } }

/-- `stat` fills `fs_src`. -/
def setStSize (z : ℤ) : CopyThread := { t with cfi := { t.cfi with stSize := z } }

/-- `write(fd_dst, buf, …)`, of which the disk took `buf`. -/
def put (dst wr : ℕ) (buf : List UInt8) : CopyThread :=
  { t with disk := t.disk.setContent dst (writeAt (t.disk.content dst) wr buf) }

/-- What `read` has not reached. -/
def rest (src rd : ℕ) : List UInt8 := (t.disk.content src).drop rd

end CopyThread

/-- One step of `copy_file`, for an answer that the call can give. A failed call and a short `write`
end the thread with `EXIT_FAILURE`. -/
def copyStep (a : Answer) (t : CopyThread) : Option CopyThread :=
  match t.pc, a with
  | .openSrc, .succeeds => (t.disk.inode t.cfi.fnSrc).map fun i ↦ t.goto (.statSrc i)
  | .statSrc src, .succeeds =>
    (t.disk.contentAt t.cfi.fnSrc).map fun bs ↦ (t.setStSize bs.length).goto (.openDst src)
  | .openDst src, .succeeds =>
    some ({ t with disk := (t.disk.openTrunc t.cfi.fnDst).1 }.goto
      (.zero src (t.disk.openTrunc t.cfi.fnDst).2))
  | .zero src dst, .succeeds => some ((t.setCurSize 0).goto (.read src dst 0 0))
  | .read src dst rd wr, .bytes n =>
    if n = 0 then if t.rest src rd = [] then some (t.goto (.exited true)) else none
    else if n ≤ copyBufSize ∧ n ≤ (t.rest src rd).length then
      some (t.goto (.write src dst (rd + n) wr ((t.rest src rd).take n)))
    else none
  | .write src dst rd wr buf, .bytes n =>
    -- a short write is taken for a failure
    if n < buf.length then some ((t.put dst wr (buf.take n)).goto (.exited false))
    else if n = buf.length then some ((t.put dst wr buf).goto (.add src dst rd (wr + n) n))
    else none
  | .add src dst rd wr nbytes, .succeeds =>
    some ((t.setCurSize (t.cfi.curSize + nbytes)).goto (.read src dst rd wr))
  | .openSrc, .fails | .statSrc _, .fails | .openDst _, .fails | .read _ _ _ _, .fails
  | .write _ _ _ _ _, .fails => some (t.goto (.exited false))
  | _, _ => none

/-- A step of the thread on its own. -/
def CopyStep (s : CopyThread) (a : Answer) (t : CopyThread) : Prop := copyStep a s = some t

/-- What a step of `copy_file` can do. -/
inductive CopyMove (s : CopyThread) : Answer → CopyThread → Prop
  | openSrc {i : ℕ} : s.pc = .openSrc → s.disk.inode s.cfi.fnSrc = some i →
      CopyMove s .succeeds (s.goto (.statSrc i))
  | statSrc {i : ℕ} {bs : List UInt8} : s.pc = .statSrc i →
      s.disk.contentAt s.cfi.fnSrc = some bs →
      CopyMove s .succeeds ((s.setStSize bs.length).goto (.openDst i))
  | openDst {i : ℕ} : s.pc = .openDst i →
      CopyMove s .succeeds ({ s with disk := (s.disk.openTrunc s.cfi.fnDst).1 }.goto
        (.zero i (s.disk.openTrunc s.cfi.fnDst).2))
  | zero {i j : ℕ} : s.pc = .zero i j →
      CopyMove s .succeeds ((s.setCurSize 0).goto (.read i j 0 0))
  | read {i j rd wr n : ℕ} : s.pc = .read i j rd wr → n ≠ 0 → n ≤ copyBufSize →
      n ≤ (s.rest i rd).length →
      CopyMove s (.bytes n) (s.goto (.write i j (rd + n) wr ((s.rest i rd).take n)))
  | eof {i j rd wr : ℕ} : s.pc = .read i j rd wr → s.rest i rd = [] →
      CopyMove s (.bytes 0) (s.goto (.exited true))
  | write {i j rd wr : ℕ} {buf : List UInt8} : s.pc = .write i j rd wr buf →
      CopyMove s (.bytes buf.length)
        ((s.put j wr buf).goto (.add i j rd (wr + buf.length) buf.length))
  | short {i j rd wr n : ℕ} {buf : List UInt8} : s.pc = .write i j rd wr buf → n < buf.length →
      CopyMove s (.bytes n) ((s.put j wr (buf.take n)).goto (.exited false))
  | add {i j rd wr n : ℕ} : s.pc = .add i j rd wr n →
      CopyMove s .succeeds ((s.setCurSize (s.cfi.curSize + n)).goto (.read i j rd wr))
  | fails : (∀ b, s.pc ≠ .exited b) → CopyMove s .fails (s.goto (.exited false))

theorem CopyStep.move {s t : CopyThread} {a : Answer} (h : CopyStep s a t) : CopyMove s a t := by
  unfold CopyStep copyStep at h
  split at h
  · obtain ⟨i, hi, rfl⟩ := Option.map_eq_some_iff.mp h
    exact .openSrc ‹_› hi
  · obtain ⟨bs, hbs, rfl⟩ := Option.map_eq_some_iff.mp h
    exact .statSrc ‹_› hbs
  · obtain rfl := Option.some.inj h
    exact .openDst ‹_›
  · obtain rfl := Option.some.inj h
    exact .zero ‹_›
  · split at h
    · split at h
      · rename_i hn _
        obtain rfl := Option.some.inj h
        exact hn ▸ .eof ‹_› ‹_›
      · cases h
    · split at h
      · rename_i hn
        obtain rfl := Option.some.inj h
        exact .read ‹_› ‹_› hn.1 hn.2
      · cases h
  · split at h
    · obtain rfl := Option.some.inj h
      exact .short ‹_› ‹_›
    · split at h
      · rename_i hn
        obtain rfl := Option.some.inj h
        exact hn ▸ .write ‹_›
      · cases h
  · obtain rfl := Option.some.inj h
    exact .add ‹_›
  case h_13 => cases h
  all_goals
    rename_i hpc
    obtain rfl := Option.some.inj h
    refine .fails fun b hb ↦ ?_
    rw [hpc] at hb
    cases hb

theorem CopyStep.paths {s t : CopyThread} {a : Answer} (h : CopyStep s a t) :
    t.cfi.fnSrc = s.cfi.fnSrc ∧ t.cfi.fnDst = s.cfi.fnDst := by
  cases h.move <;> exact ⟨rfl, rfl⟩

/-! ## What a copy does -/

/-- **A faithful copy**, of a thread that found the disk `d`: the destination has the content that
the source had, the source still has it, and `cur_size` counts its bytes. -/
structure Faithful (d : Disk) (t : CopyThread) : Prop where
  copied : t.disk.contentAt t.cfi.fnDst = d.contentAt t.cfi.fnSrc
  kept : t.disk.contentAt t.cfi.fnSrc = d.contentAt t.cfi.fnSrc
  size : (d.contentAt t.cfi.fnSrc).map (fun bs ↦ (bs.length : ℤ)) = some t.cfi.curSize

/-- The paths lead to different files, or the source is empty. -/
def Apart (d : Disk) (src dst : List UInt8) : Prop :=
  ∀ i, d.inode src = some i → d.inode dst = some i → d.content i = []

/-- Both files are open: `i` was the source, `j` is the destination, and what is left in the source
is `bytes`. -/
structure Opened (d : Disk) (t : CopyThread) (i j : ℕ) (bytes : List UInt8) : Prop where
  src_before : d.inode t.cfi.fnSrc = some i
  src : t.disk.inode t.cfi.fnSrc = some i
  dst : t.disk.inode t.cfi.fnDst = some j
  alias_iff : j = i ↔ d.inode t.cfi.fnDst = some i
  content : t.disk.content i = bytes
  bytes_eq : bytes = if j = i then [] else d.content i

/-- `n` bytes of `bytes` have arrived. -/
def Arrived (t : CopyThread) (j : ℕ) (bytes : List UInt8) (n : ℕ) : Prop :=
  n ≤ bytes.length ∧ t.disk.content j = bytes.take n

/-- What is known at each point of `copy_file`, started on the disk `d`. -/
def CopyInv (d : Disk) (t : CopyThread) : Prop :=
  match t.pc with
  | .openSrc => t.disk = d
  | .statSrc i | .openDst i => t.disk = d ∧ d.inode t.cfi.fnSrc = some i
  | .zero i j => ∃ bytes, Opened d t i j bytes ∧ Arrived t j bytes 0
  | .read i j rd wr => ∃ bytes, Opened d t i j bytes ∧ Arrived t j bytes wr
    ∧ rd = wr ∧ t.cfi.curSize = wr
  | .write i j rd wr buf => ∃ bytes, Opened d t i j bytes ∧ Arrived t j bytes wr
    ∧ rd = wr + buf.length ∧ buf ≠ [] ∧ (bytes.drop wr).take buf.length = buf ∧ t.cfi.curSize = wr
  | .add i j rd wr n => ∃ bytes, Opened d t i j bytes ∧ Arrived t j bytes wr
    ∧ rd = wr ∧ t.cfi.curSize + n = wr
  | .exited true => ∃ i j bytes, Opened d t i j bytes ∧ t.disk.content j = bytes
    ∧ t.cfi.curSize = bytes.length
  | .exited false => True

theorem Opened.congr {d : Disk} {s t : CopyThread} {i j : ℕ} {bytes : List UInt8}
    (h : Opened d s i j bytes) (hdisk : t.disk = s.disk) (hsrc : t.cfi.fnSrc = s.cfi.fnSrc)
    (hdst : t.cfi.fnDst = s.cfi.fnDst) : Opened d t i j bytes := by
  obtain ⟨h₁, h₂, h₃, h₄, h₅, h₆⟩ := h
  exact ⟨hsrc ▸ h₁, hdisk ▸ hsrc ▸ h₂, hdisk ▸ hdst ▸ h₃, hdst ▸ h₄, hdisk ▸ h₅, h₆⟩

/-- **A `write` in full.** The piece that was read continues what has arrived. -/
theorem Opened.put {d : Disk} {t : CopyThread} {i j wr : ℕ} {bytes buf : List UInt8}
    (h : Opened d t i j bytes) (harr : Arrived t j bytes wr)
    (hbuf : (bytes.drop wr).take buf.length = buf) (hne : buf ≠ []) :
    Opened d (t.put j wr buf) i j bytes ∧ Arrived (t.put j wr buf) j bytes (wr + buf.length) := by
  obtain ⟨hle, hcontent⟩ := harr
  have hlen : buf.length ≤ bytes.length - wr := by
    rw [← hbuf, List.length_take, List.length_drop]
    exact Nat.min_le_right _ _
  have hpos : 0 < buf.length := List.length_pos_of_ne_nil hne
  have hij : i ≠ j := by
    rintro rfl
    have hnil := h.bytes_eq
    rw [if_pos rfl] at hnil
    rw [hnil, List.length_nil] at hlen
    omega
  have htake : (bytes.take wr).length = wr := by
    rw [List.length_take]
    omega
  constructor
  · refine ⟨h.src_before, h.src, h.dst, h.alias_iff, ?_, h.bytes_eq⟩
    exact (Disk.content_setContent_of_ne _ hij).trans h.content
  · refine ⟨by omega, (Disk.content_setContent_self _).trans ?_⟩
    rw [hcontent, writeAt_end htake, List.take_add, hbuf]

/-- **The invariant of `copy_file`.** -/
theorem CopyInv.step {d : Disk} {s t : CopyThread} {a : Answer} (hs : CopyInv d s)
    (h : CopyStep s a t) : CopyInv d t := by
  cases h.move with
  | @openSrc i hpc hi =>
    rw [CopyInv, hpc] at hs
    exact ⟨hs, hs ▸ hi⟩
  | @statSrc i bs hpc _ =>
    rw [CopyInv, hpc] at hs
    exact hs
  | @openDst i hpc =>
    rw [CopyInv, hpc] at hs
    obtain ⟨hdisk, hi⟩ := hs
    subst hdisk
    -- the two names may be one file, which is then empty
    obtain ⟨hdst, hempty, hother⟩ := s.disk.openTrunc_spec s.cfi.fnDst
    obtain ⟨hsrc, halias, hkeep⟩ := hother _ _ hi
    refine ⟨_, ⟨hi, hsrc, hdst, halias, rfl, ?_⟩, Nat.zero_le _, hempty⟩
    split
    · rename_i heq
      exact heq ▸ hempty
    · exact hkeep ‹_›
  | @zero i j hpc =>
    rw [CopyInv, hpc] at hs
    obtain ⟨bytes, hopen, harr⟩ := hs
    exact ⟨bytes, hopen.congr rfl rfl rfl, harr, rfl, rfl⟩
  | @read i j rd wr n hpc h0 _ hn =>
    rw [CopyInv, hpc] at hs
    obtain ⟨bytes, hopen, harr, rfl, hcur⟩ := hs
    have hlen : ((s.rest i rd).take n).length = n := by
      rw [List.length_take, Nat.min_eq_left hn]
    refine ⟨bytes, hopen.congr rfl rfl rfl, harr, ?_, ?_, ?_, hcur⟩
    · rw [hlen]
    · exact List.ne_nil_of_length_pos (by omega)
    · rw [hlen, CopyThread.rest, hopen.content]
  | @eof i j rd wr hpc hend =>
    rw [CopyInv, hpc] at hs
    obtain ⟨bytes, hopen, ⟨hle, hcontent⟩, rfl, hcur⟩ := hs
    rw [CopyThread.rest, hopen.content, List.drop_eq_nil_iff] at hend
    obtain rfl : rd = bytes.length := le_antisymm hle hend
    rw [List.take_length] at hcontent
    exact ⟨i, j, bytes, hopen.congr rfl rfl rfl, hcontent, hcur⟩
  | @write i j rd wr buf hpc =>
    rw [CopyInv, hpc] at hs
    obtain ⟨bytes, hopen, harr, rfl, hne, hbuf, hcur⟩ := hs
    obtain ⟨hopen', harr'⟩ := hopen.put harr hbuf hne
    refine ⟨bytes, hopen'.congr rfl rfl rfl, harr', rfl, ?_⟩
    change s.cfi.curSize + _ = _
    rw [hcur, Nat.cast_add]
  | short _ _ => trivial
  | @add i j rd wr n hpc =>
    rw [CopyInv, hpc] at hs
    obtain ⟨bytes, hopen, harr, rfl, hcur⟩ := hs
    exact ⟨bytes, hopen.congr rfl rfl rfl, harr, rfl, hcur⟩
  | fails _ => trivial

/-- **A copy that ends with success is faithful exactly when the paths lead to different files**, or
there was nothing to copy: opening the destination empties the source when they are one. -/
theorem copy_faithful_iff {d : Disk} {cfi : CopyFileInfo} {as : List Answer} {t : CopyThread}
    (hrun : Run CopyStep ⟨d, cfi, .openSrc⟩ as t) (hend : t.pc = .exited true) :
    Faithful d t ↔ Apart d cfi.fnSrc cfi.fnDst := by
  have hinv : CopyInv d t := hrun.invariant (fun _ _ _ hs hstep ↦ hs.step hstep) rfl
  obtain ⟨hsrc, hdst⟩ : t.cfi.fnSrc = cfi.fnSrc ∧ t.cfi.fnDst = cfi.fnDst := by
    apply hrun.invariant (I := fun t ↦ t.cfi.fnSrc = cfi.fnSrc ∧ t.cfi.fnDst = cfi.fnDst) _
      ⟨rfl, rfl⟩
    rintro s a t ⟨h₁, h₂⟩ hstep
    obtain ⟨h₃, h₄⟩ := hstep.paths
    exact ⟨h₃.trans h₁, h₄.trans h₂⟩
  rw [CopyInv, hend] at hinv
  obtain ⟨i, j, bytes, hopen, hcontent, hcur⟩ := hinv
  -- the copy is faithful when the source was not emptied
  have hbytes : Faithful d t ↔ bytes = d.content i := by
    have hbefore : d.contentAt t.cfi.fnSrc = some (d.content i) := by
      rw [Disk.contentAt, hopen.src_before, Option.map_some]
    constructor
    · intro h
      have hkept := h.kept
      rw [hbefore, Disk.contentAt, hopen.src, Option.map_some, hopen.content] at hkept
      exact Option.some.inj hkept
    · rintro rfl
      refine ⟨?_, ?_, ?_⟩
      · rw [hbefore, Disk.contentAt, hopen.dst, Option.map_some, hcontent]
      · rw [hbefore, Disk.contentAt, hopen.src, Option.map_some, hopen.content]
      · rw [hbefore, Option.map_some, hcur]
  have halias := hopen.alias_iff
  have hbefore := hopen.src_before
  rw [hsrc] at hbefore
  rw [hdst] at halias
  rw [hbytes, hopen.bytes_eq]
  constructor
  · intro heq i' hi' hd
    obtain rfl := Option.some.inj (hbefore.symm.trans hi')
    rw [if_pos (halias.mpr hd)] at heq
    exact heq.symm
  · intro hapart
    split
    · rename_i hji
      exact (hapart i hbefore (halias.mp hji)).symm
    · rfl

/-- One file with two names, `a` and `b`. -/
def linkedDisk : Disk where
  inode := fun p ↦ if p = [97] ∨ p = [98] then some 0 else none
  content := fun _ ↦ [120]
  nextIno := 1
  inode_lt := by
    intro p i h
    split at h
    · obtain rfl := Option.some.inj h
      exact Nat.one_pos
    · cases h

/-- From `a` to a new file, in one piece. -/
theorem copy_faithful_iff_new : ∃ t, Run CopyStep ⟨linkedDisk, ⟨[97], [99], -1, -1, 40⟩, .openSrc⟩
    [.succeeds, .succeeds, .succeeds, .succeeds, .bytes 1, .bytes 1, .succeeds, .bytes 0] t
    ∧ t.pc = .exited true ∧ Faithful linkedDisk t := by
  have hfinal : ([.succeeds, .succeeds, .succeeds, .succeeds, .bytes 1, .bytes 1, .succeeds,
      .bytes 0].foldlM (fun s a ↦ copyStep a s)
        ⟨linkedDisk, ⟨[97], [99], -1, -1, 40⟩, .openSrc⟩).map CopyThread.pc
      = some (.exited true) := by
    decide
  obtain ⟨t, hrun, hend⟩ := exists_run_of_map hfinal
  refine ⟨t, hrun, hend, (copy_faithful_iff hrun hend).mpr ?_⟩
  intro i _ hi
  exact absurd hi (by simp [linkedDisk])

/-- **A copy to another name of the same file.** It ends with success and the data is gone. -/
theorem copy_to_link_not_faithful : ¬∀ (d : Disk) (cfi : CopyFileInfo) (as : List Answer)
    (t : CopyThread), Run CopyStep ⟨d, cfi, .openSrc⟩ as t → t.pc = .exited true →
    Faithful d t := by
  intro hall
  have hfinal : ([.succeeds, .succeeds, .succeeds, .succeeds, .bytes 0].foldlM
      (fun s a ↦ copyStep a s) ⟨linkedDisk, ⟨[97], [98], -1, -1, 40⟩, .openSrc⟩).map
        (fun t ↦ (t.pc, t.cfi.fnSrc, t.disk.contentAt t.cfi.fnSrc))
      = some (.exited true, [97], some []) := by
    decide
  obtain ⟨t, hrun, hview⟩ := exists_run_of_map hfinal
  obtain ⟨hend, hrest⟩ := Prod.mk.inj hview
  obtain ⟨hsrc, hcontent⟩ := Prod.mk.inj hrest
  have hkept := (hall _ _ _ t hrun hend).kept
  rw [hcontent, hsrc] at hkept
  exact absurd hkept (by decide)

end FileManager

end AllProjects
