import AllProjects.Memory.CString
import AllProjects.Memory.LinkedList
import AllProjects.Transition.Run

/-!
# The file manager

Two panels show a directory each. A panel keeps the files of its directory in a doubly linked list
with a cursor, and a copy of the path. The working directory is the one of the process.

The file system is seen through the calls that the program makes. A directory is an identity of its
own, apart from the paths that lead to it; beside each panel the model keeps which directory its
list was read from, and what `scandir` answered. Neither is part of the program.

Windows, the dialogs and the copying threads are not modelled: they draw, and they change files,
which the next call sees.
-/

namespace AllProjects

namespace FileManager

/-- `BUF_SIZE` -/
def bufSize : ℕ := 255

/-- The string `"."`. -/
def dot : List UInt8 := [46]

/-- The string `"-"`. -/
def dash : List UInt8 := [45]

/-- Why the program stops: a call to `exit`, or a `return` from `main`; or a pointer that leads
nowhere. -/
inductive Stop
  | exit
  | segv
  deriving DecidableEq

/-- Library faults are faults of the program. -/
def liftFault {β : Type} : Except Fault β → Except Stop β
  | .ok b => .ok b
  | .error _ => .error .segv

@[simp] theorem liftFault_ok {β : Type} (b : β) : liftFault (.ok b) = .ok b := rfl

/-! ## The file system -/

/-- An entry of a directory. -/
structure Dirent where
  dName : List UInt8
  zero_notMem : 0 ∉ dName

/-- `.`, `..` and a third entry, `a`. -/
def dotsAndA : List Dirent := [⟨[46], by decide⟩, ⟨[46, 46], by decide⟩, ⟨[97], by decide⟩]

/-- The calls of the program, from a working directory. `scandir` also tells which directory it
opened; `path` is the path of a directory that `getcwd` finds, however long; of a file only the mode
matters. -/
structure FileSystem (Dir : Type) where
  chdir : Dir → List UInt8 → Option Dir
  scandir : Dir → List UInt8 → Option (Dir × List Dirent)
  path : Dir → Option (List UInt8)
  stat : Dir → List UInt8 → Option ℕ

/-- `getcwd(buf, BUF_SIZE)`: the path and its NUL have to fit. -/
def FileSystem.getcwd {Dir : Type} (fs : FileSystem Dir) (cwd : Dir) : Option (List UInt8) :=
  (fs.path cwd).filter fun p ↦ p.length < bufSize

/-! ## Nodes -/

/-- What a node says about a file: the string at `file_name`, and `st_mode`. -/
structure FileInfo where
  fileName : List UInt8
  stMode : ℕ
  deriving DecidableEq

/-- `S_ISREG` -/
def FileInfo.isReg (f : FileInfo) : Bool := f.stMode &&& 0o170000 = 0o100000

/-- The string at `file_name` after `strncpy(file_name, d_name, BUF_SIZE - 1)`. When the name leaves
no room for a NUL it runs on into `junk`, the bytes that stand behind. -/
def fileNameOf (dName junk : List UInt8) : List UInt8 :=
  (dName.take (bufSize - 1) ++ List.replicate (bufSize - 1 - dName.length) 0 ++ junk).takeWhile
    (· ≠ 0)

theorem fileNameOf_eq {dName : List UInt8} (h0 : 0 ∉ dName) (hlen : dName.length < bufSize - 1)
    (junk : List UInt8) : fileNameOf dName junk = dName := by
  have hroom : bufSize - 1 - dName.length = (bufSize - 1 - dName.length - 1) + 1 := by omega
  have hall : ∀ b ∈ dName, decide (b ≠ 0) = true := by
    intro b hb
    rw [decide_eq_true_iff]
    rintro rfl
    exact h0 hb
  rw [fileNameOf, List.take_of_length_le hlen.le, List.append_assoc,
    List.takeWhile_append_of_pos hall, hroom, List.replicate_succ, List.cons_append,
    List.takeWhile_cons_of_neg (by decide), List.append_nil]

/-- `malloc` of a node: an address that is not in use, and the bytes that will stand behind
`file_name`. -/
structure Allocator where
  malloc : NodeHeap FileInfo → Option (ℕ × List UInt8)
  fresh : ∀ {h : NodeHeap FileInfo} {a : ℕ} {junk : List UInt8},
    malloc h = some (a, junk) → h.lookup a = none

/-- An allocator that never fails. -/
def Allocator.bump : Allocator where
  malloc := fun h ↦ some (h.keys.sup id + 1, [])
  fresh := by
    intro h a junk hm
    obtain ⟨rfl, rfl⟩ := Prod.mk.inj (Option.some.inj hm)
    apply Finmap.lookup_eq_none.mpr
    intro hmem
    have hle : h.keys.sup id + 1 ≤ h.keys.sup id :=
      Finset.le_sup (f := id) (Finmap.mem_keys.mpr hmem)
    omega

/-! ## `DIR_INFO` -/

/-- A panel. -/
structure DirInfo (Dir : Type) where
  dirPath : List UInt8
  fileCount : ℤ
  headFile : Option ℕ
  currentFile : Option ℕ
  tailFile : Option ℕ
  /-- The answer of the last `scandir` that succeeded, and the directory it was about. -/
  answer : List Dirent
  listed : Dir

variable {Dir : Type}

/-- What the calls of the program meet during one key. -/
structure Env (Dir : Type) where
  fs : FileSystem Dir
  alloc : Allocator

/-- `free_fil` -/
def freeFil (di : DirInfo Dir) (h : NodeHeap FileInfo) :
    Except Stop (DirInfo Dir × NodeHeap FileInfo) := do
  let h ← liftFault (NodeHeap.freeList h.keys.card h di.headFile)
  .ok ({ di with headFile := none, currentFile := none, tailFile := none }, h)

/-- `malloc`, `strncpy` and `stat` for one entry. The program exits when there is no memory, and
when `stat` fails. -/
def newNode (env : Env Dir) (cwd : Dir) (e : Dirent) (h : NodeHeap FileInfo) :
    Except Stop (ℕ × FileInfo) :=
  match env.alloc.malloc h with
  | none => .error .exit
  | some (a, junk) =>
    match env.fs.stat cwd e.dName with
    | none => .error .exit
    | some mode => .ok (a, ⟨fileNameOf e.dName junk, mode⟩)

/-- The node of entry 1. -/
def headNode (env : Env Dir) (cwd : Dir) (e : Dirent) (di : DirInfo Dir) (h : NodeHeap FileInfo) :
    Except Stop (DirInfo Dir × NodeHeap FileInfo) := do
  let (a, info) ← newNode env cwd e h
  .ok ({ di with headFile := some a, currentFile := some a }, h.insert a ⟨info, none, none⟩)

/-- A round of the loop over the further entries: `current_file` is the node to append to. -/
def appendNode (env : Env Dir) (cwd : Dir) (s : DirInfo Dir × NodeHeap FileInfo) (e : Dirent) :
    Except Stop (DirInfo Dir × NodeHeap FileInfo) := do
  let (a, info) ← newNode env cwd e s.2
  let h ← liftFault
    (NodeHeap.setNext (s.2.insert a ⟨info, none, s.1.currentFile⟩) s.1.currentFile (some a))
  .ok ({ s.1 with currentFile := some a }, h)

/-- The list of `get_dir_info`, from the answer `fnl` of `scandir`: entry 1 becomes the head, the
loop starts at entry 2. -/
def buildList (env : Env Dir) (cwd : Dir) (fnl : List Dirent) (di : DirInfo Dir)
    (h : NodeHeap FileInfo) : Except Stop (DirInfo Dir × NodeHeap FileInfo) := do
  let s ← match fnl[1]? with
    | some e => headNode env cwd e di h
    | none => .ok (di, h)
  let s ← (fnl.drop 2).foldlM (appendNode env cwd) s
  .ok ({ s.1 with tailFile := s.1.currentFile, currentFile := s.1.headFile }, s.2)

/-- What `get_dir_info` notes about the directory itself. -/
def DirInfo.reread (di : DirInfo Dir) (env : Env Dir) (cwd dir : Dir) (fnl : List Dirent) :
    DirInfo Dir :=
  { di with
    dirPath := (env.fs.getcwd cwd).getD dash
    fileCount := fnl.length - 2
    answer := fnl
    listed := dir }

/-- `get_dir_info` -/
def getDirInfo (env : Env Dir) (cwd : Dir) (path : List UInt8) (di : DirInfo Dir)
    (h : NodeHeap FileInfo) : Except Stop (DirInfo Dir × NodeHeap FileInfo) :=
  match env.fs.scandir cwd path with
  | none => .ok (di, h)
  | some (dir, fnl) => buildList env cwd fnl (di.reread env cwd dir fnl) h

/-! ## The program -/

/-- The left and the right panel. -/
inductive Side
  | ld
  | rd
  deriving DecidableEq

/-- The other panel. -/
def Side.other : Side → Side
  | ld => rd
  | rd => ld

/-- The process. -/
structure State (Dir : Type) where
  heap : NodeHeap FileInfo
  panels : Side → DirInfo Dir
  cd : Side
  cwd : Dir

/-- The keys of the main loop. -/
inductive Key
  | up
  | down
  | left
  | right
  | tab
  | home
  | endKey
  | enter
  | f5
  | f8
  deriving DecidableEq

/-- A key is pressed. `proceeds` tells whether the `malloc` and `pthread_create` calls of a copy
succeed; the program exits when they do not. -/
structure Event (Dir : Type) where
  key : Key
  env : Env Dir
  proceeds : Bool

namespace DirInfo

/-- The panel that `init_core` allocates: nothing has been read into it yet. -/
def malloced (junk : DirInfo Dir) : DirInfo Dir := { junk with answer := [] }

/-- Nothing is listed. -/
def Empty (di : DirInfo Dir) : Prop :=
  di.headFile = none ∧ di.currentFile = none ∧ di.tailFile = none

instance (di : DirInfo Dir) : Decidable di.Empty := inferInstanceAs (Decidable (_ ∧ _ ∧ _))

/-- The pointers can be used: `get_dir_info` has set them, or `malloc` happened to return memory in
which they are NULL. Any other pointer that `malloc` left leads nowhere. -/
def Usable (di : DirInfo Dir) : Prop := 1 < di.answer.length ∨ di.Empty

instance (di : DirInfo Dir) : Decidable di.Usable := inferInstanceAs (Decidable (_ ∨ _))

end DirInfo

/-- `init_core`, with `HOME` and `PWD` as `getenv` finds them; `chdir(NULL)` fails. A directory that
cannot be read does not stop the program: its panel stays as `malloc` left it, which is taken to
succeed for the panels themselves. Then `main` draws both panels, from their heads. -/
def start (env : Env Dir) (home pwd : Option (List UInt8)) (junk : Side → DirInfo Dir) (cwd : Dir) :
    Except Stop (State Dir) :=
  match home, pwd with
  | some home, some pwd =>
    match env.fs.chdir cwd home with
    | none => .error .exit
    | some homeDir => do
      let (rd, h) ← getDirInfo env homeDir home (junk .rd).malloced ∅
      match env.fs.chdir homeDir pwd with
      | none => .error .exit
      | some pwdDir => do
        let (ld, h) ← getDirInfo env pwdDir pwd (junk .ld).malloced h
        if rd.Usable ∧ ld.Usable then
          .ok ⟨h, fun p ↦ match p with | .ld => ld | .rd => rd, .ld, pwdDir⟩
        else .error .segv
  | none, _ | some _, none => .error .exit

namespace State

variable (s : State Dir)

/-- `cd` as a structure. -/
def active : DirInfo Dir := s.panels s.cd

/-- Replace the active panel. -/
def setActive (di : DirInfo Dir) : State Dir :=
  { s with panels := Function.update s.panels s.cd di }

/-- `cd->current_file = p`. -/
def setCurrent (p : Option ℕ) : State Dir := s.setActive { s.active with currentFile := p }

/-- `cd->current_file->…` -/
def current : Except Stop (LinkedNode FileInfo) := liftFault (s.heap.deref s.active.currentFile)

end State

/-- `free_fil(&cd); get_dir_info(".", &cd);` -/
def reload (env : Env Dir) (s : State Dir) : Except Stop (State Dir) := do
  let (di, h) ← freeFil s.active s.heap
  let (di, h) ← getDirInfo env s.cwd dot di h
  .ok { s.setActive di with heap := h }

/-- `cd = p`, and `chdir(cd->dir_path)`; `main` returns when that fails. -/
def switchTo (env : Env Dir) (s : State Dir) (p : Side) : Except Stop (State Dir) :=
  match env.fs.chdir s.cwd (s.panels p).dirPath with
  | none => .error .exit
  | some dir => .ok { s with cd := p, cwd := dir }

/-- One round of the main loop. -/
def handle (e : Event Dir) (s : State Dir) : Except Stop (State Dir) :=
  match e.key with
  | .up =>
    if s.active.currentFile ≠ s.active.headFile then do
      let n ← s.current
      .ok (s.setCurrent n.prev)
    else .ok s
  | .down => do
    let n ← s.current
    if n.next ≠ none then .ok (s.setCurrent n.next) else .ok s
  | .left => if s.cd = .rd then switchTo e.env s .ld else .ok s
  | .right => if s.cd = .ld then switchTo e.env s .rd else .ok s
  | .tab => switchTo e.env s s.cd.other
  | .home => .ok (s.setCurrent s.active.headFile)
  | .endKey => .ok (s.setCurrent s.active.tailFile)
  | .enter => do
    let n ← s.current
    let s ← match e.env.fs.chdir s.cwd n.data.fileName with
      | some dir => reload e.env { s with cwd := dir }
      | none => .ok s
    -- `S_ISREG(cd->current_file->file_stat.st_mode)`, then perhaps `fork` and `execl`
    let _ ← s.current
    .ok s
  | .f5 => do
    let n ← s.current
    if n.data.isReg then if e.proceeds then reload e.env s else .error .exit else .ok s
  | .f8 => do
    let n ← s.current
    if n.data.isReg then reload e.env s else .ok s

/-- One step. -/
def Step (s : State Dir) (e : Event Dir) (t : State Dir) : Prop := handle e s = .ok t

end FileManager

end AllProjects
