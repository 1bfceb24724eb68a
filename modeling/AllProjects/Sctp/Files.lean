import AllProjects.Sctp.Upload

/-!
# Several uploads at once

Each connection has a `cln_hndl` of its own, and the handlers share the file system. A handler opens
a file that it names after its client's address, without the port, and empties it; then it writes
from its own position in that file, wherever others have written meanwhile.

So handlers of clients on different hosts do not meet, and each session is what it would be alone.
Handlers of clients on one host meet in one file. They keep out of each other's way only as long as
those that have opened it write nothing.
-/

namespace AllProjects

namespace Sctp

/-! ## File names -/

/-- `struct in_addr`, by its bytes. -/
@[ext]
structure InAddr where
  a : UInt8
  b : UInt8
  c : UInt8
  d : UInt8
  deriving DecidableEq

/-- The address of a client. -/
structure SockaddrIn where
  sinAddr : InAddr
  sinPort : UInt16
  deriving DecidableEq

/-- `inet_ntop`: the bytes in decimal, with dots between them. -/
def inetNtop (x : InAddr) : List Char :=
  Nat.toDigits 10 x.a.toNat ++ '.' :: (Nat.toDigits 10 x.b.toNat ++ '.' ::
    (Nat.toDigits 10 x.c.toNat ++ '.' :: Nat.toDigits 10 x.d.toNat))

/-- The size of the array `filename`. -/
def filenameSize : ℕ := 64

/-- The name of the file in which an upload is stored. -/
def filename (clnAddr : SockaddrIn) : List Char :=
  ("./files/client_".toList ++ inetNtop clnAddr.sinAddr).take (filenameSize - 1)

theorem toDigits_injective : Function.Injective (Nat.toDigits 10) := by
  intro m n h
  have hvalue := congrArg (fun digits ↦ Nat.ofDigitChars 10 digits 0) h
  simpa only [Nat.ofDigitChars_ten_toDigits] using hvalue

theorem dot_notMem_toDigits (n : ℕ) : '.' ∉ Nat.toDigits 10 n := fun h ↦
  absurd (Nat.isDigit_of_mem_toDigits (by decide) (by decide) h) (by decide)

theorem append_dot_inj {u u' v v' : List Char} (hu : '.' ∉ u) (hu' : '.' ∉ u')
    (h : u ++ '.' :: v = u' ++ '.' :: v') : u = u' ∧ v = v' := by
  have hbefore : ∀ {w x : List Char}, '.' ∉ w → (w ++ '.' :: x).takeWhile (· ≠ '.') = w := by
    intro w x hw
    rw [List.takeWhile_append_of_pos fun c hc ↦ decide_eq_true (ne_of_mem_of_not_mem hc hw),
      List.takeWhile_cons_of_neg (by decide), List.append_nil]
  have heq : u = u' := by rw [← hbefore hu, h, hbefore hu']
  rw [heq, List.append_right_inj] at h
  exact ⟨heq, (List.cons.inj h).2⟩

theorem inetNtop_injective : Function.Injective inetNtop := by
  intro x y h
  have hbyte : ∀ {b b' : UInt8}, Nat.toDigits 10 b.toNat = Nat.toDigits 10 b'.toNat → b = b' :=
    fun heq ↦ UInt8.toNat_inj.mp (toDigits_injective heq)
  obtain ⟨ha, h⟩ := append_dot_inj (dot_notMem_toDigits _) (dot_notMem_toDigits _) h
  obtain ⟨hb, h⟩ := append_dot_inj (dot_notMem_toDigits _) (dot_notMem_toDigits _) h
  obtain ⟨hc, hd⟩ := append_dot_inj (dot_notMem_toDigits _) (dot_notMem_toDigits _) h
  exact InAddr.ext (hbyte ha) (hbyte hb) (hbyte hc) (hbyte hd)

theorem length_inetNtop_le (x : InAddr) : (inetNtop x).length ≤ 15 := by
  have hbyte : ∀ b : UInt8, (Nat.toDigits 10 b.toNat).length ≤ 3 := fun b ↦
    (Nat.length_toDigits_le_iff (by decide) (by decide)).mpr (b.toNat_lt.trans (by decide))
  have ha := hbyte x.a
  have hb := hbyte x.b
  have hc := hbyte x.c
  have hd := hbyte x.d
  simp only [inetNtop, List.length_append, List.length_cons]
  omega

/-- The name fits its array. -/
theorem filename_eq (clnAddr : SockaddrIn) :
    filename clnAddr = "./files/client_".toList ++ inetNtop clnAddr.sinAddr := by
  have hle := length_inetNtop_le clnAddr.sinAddr
  apply List.take_of_length_le
  rw [List.length_append, filenameSize]
  exact (Nat.add_le_add_left hle _).trans (by decide)

theorem filename_eq_iff {x y : SockaddrIn} : filename x = filename y ↔ x.sinAddr = y.sinAddr := by
  rw [filename_eq, filename_eq, List.append_right_inj]
  exact inetNtop_injective.eq_iff

/-! ## Files -/

/-- A `write` of these bytes at a position: past the end the gap is filled with zeros, and nothing
is written where there is nothing to write. -/
def overwrite (content : List UInt8) (pos : ℕ) (bs : List UInt8) : List UInt8 :=
  if bs = [] then content
  else content.take pos ++ List.replicate (pos - content.length) 0 ++ bs ++
    content.drop (pos + bs.length)

theorem overwrite_length (content bs : List UInt8) :
    overwrite content content.length bs = content ++ bs := by
  rw [overwrite]
  split_ifs with hbs
  · rw [hbs, List.append_nil]
  · rw [List.take_length, Nat.sub_self, List.replicate_zero, List.append_nil,
      List.drop_of_length_le (Nat.le_add_right _ _), List.append_nil]

/-- What a call does to a file. -/
inductive FileOp
  | truncate
  | write (bs : List UInt8)

/-- The content after the call, with the position where the handler is. -/
def FileOp.apply (pos : ℕ) (content : List UInt8) : FileOp → List UInt8
  | .truncate => []
  | .write bs => overwrite content pos bs

namespace Conn

/-- What the step does to the file of the session. -/
def fileOp (s : Conn) : Event → Option FileOp
  | .cln (.openFile true) => some .truncate
  | .cln (.handle (some n)) =>
    match s.clnHndl with
    | .handle msg => if s.sinfoStream = fileStream then some (.write (msg.take n)) else none
    | _ => none
  | _ => none

/-- The session has opened its file, and may have closed it since. -/
def Opened (s : Conn) : Prop :=
  match s.clnHndl with
  | .openFile | .failed => False
  | .sctpRecvmsg | .handle _ | .exited _ _ => True

instance (s : Conn) : Decidable s.Opened :=
  match h : s.clnHndl with
  | .openFile | .failed => isFalse (by rw [Opened, h]; exact not_false)
  | .sctpRecvmsg | .handle _ | .exited _ _ => isTrue (by rw [Opened, h]; trivial)

variable {s t : Conn} {e : Event}

theorem Step.fileOp (hstep : Step s e t) :
    s.fileOp e = none ∧ (t.Opened ↔ s.Opened) ∧ t.stored = s.stored ∨
      s.fileOp e = some .truncate ∧ ¬s.Opened ∧ t.Opened ∧ t.stored = s.stored ∨
      ∃ bs, s.fileOp e = some (.write bs) ∧ s.Opened ∧ t.Opened ∧ t.stored = s.stored ++ bs := by
  rcases hstep.cases with hmove | ⟨c, rfl, hmove⟩
  · apply Or.inl
    cases hmove <;> exact ⟨rfl, Iff.rfl, rfl⟩
  · cases hmove with
    | openFile hcln =>
      refine Or.inr (Or.inl ⟨rfl, ?_, trivial, rfl⟩)
      rw [Opened, hcln]
      exact not_false
    | openErr hcln =>
      refine Or.inl ⟨rfl, ?_, rfl⟩
      rw [Opened, Opened, hcln]
    | sctpRecvmsg hcln _ | recvEof hcln _ _ _ | recvErr hcln =>
      refine Or.inl ⟨rfl, ?_, rfl⟩
      rw [Opened, Opened, hcln]
    | @text msg rtn hcln hmsg =>
      have hfile := ne_fileStream_of_eq hmsg
      refine Or.inl ⟨?_, ?_, rfl⟩
      · cases rtn with
        | none => rfl
        | some n => simp only [Conn.fileOp, hcln, if_neg hfile]
      · rw [Opened, Opened, hcln]
        split_ifs <;> exact Iff.rfl
    | @write msg n hcln hfile _ =>
      refine Or.inr (Or.inr ⟨msg.take n, ?_, ?_, ?_, rfl⟩)
      · simp only [Conn.fileOp, hcln, if_pos hfile]
      · rw [Opened, hcln]
        trivial
      · rw [Opened]
        split_ifs <;> trivial
    | writeErr hcln _ =>
      refine Or.inl ⟨rfl, ?_, rfl⟩
      rw [Opened, Opened, hcln]
    | @other msg rtn hcln _ hfile =>
      refine Or.inl ⟨?_, ?_, rfl⟩
      · cases rtn with
        | none => rfl
        | some n => simp only [Conn.fileOp, hcln, if_neg hfile]
      · rw [Opened, Opened, hcln]

end Conn

/-! ## The server -/

section Server

/-- What the clients bring: their addresses, their files, and the lines that are typed; and the
stream number that is on the stack of each handler. -/
structure Clients (ι : Type) where
  clnAddr : ι → SockaddrIn
  file : ι → List UInt8
  stdin : ι → List UInt8
  sinfoStream : ι → ℕ

variable {ι : Type} [DecidableEq ι] (C : Clients ι)

/-- The sessions, and the files by their names. -/
structure Server (ι : Type) where
  conns : ι → Conn
  files : List Char → List UInt8

/-- A session at its start. -/
def Clients.initial (i : ι) : Conn := Conn.initial (C.file i) (C.stdin i) (C.sinfoStream i)

/-- The name under which an upload is stored. -/
def Clients.name (i : ι) : List Char := filename (C.clnAddr i)

/-- All sessions at their start, with any files. -/
def Server.initial (files : List Char → List UInt8) : Server ι := ⟨C.initial, files⟩

/-- The files after a call. A handler is in its file where its own writes have brought it. -/
def Server.filesAfter (S : Server ι) (p : ι × Event) : List Char → List UInt8 :=
  match (S.conns p.1).fileOp p.2 with
  | none => S.files
  | some op => Function.update S.files (C.name p.1)
      (op.apply (S.conns p.1).stored.length (S.files (C.name p.1)))

/-- One call of one session. -/
def Server.exec (S : Server ι) (p : ι × Event) : Option (Server ι) :=
  ((S.conns p.1).exec p.2).map fun t ↦ ⟨Function.update S.conns p.1 t, S.filesAfter C p⟩

/-- One step of the server. -/
def Server.Step (S : Server ι) (p : ι × Event) (T : Server ι) : Prop := S.exec C p = some T

/-- A file that was opened for an upload holds what is stored of this upload. -/
def Isolated (S : Server ι) : Prop :=
  ∀ i, (S.conns i).Opened → S.files (C.name i) = (S.conns i).stored

/-- The step does not meet an upload from the same host: a file is opened while no other upload from
the host has anything stored, and written while no other upload from the host has opened it. -/
def Alone (S : Server ι) (p : ι × Event) : Prop :=
  match (S.conns p.1).fileOp p.2 with
  | none => True
  | some .truncate => ∀ j, j ≠ p.1 → (S.conns j).Opened →
      (C.clnAddr j).sinAddr = (C.clnAddr p.1).sinAddr → (S.conns j).stored = []
  | some (.write bs) => bs = [] ∨ ∀ j, j ≠ p.1 → (S.conns j).Opened →
      (C.clnAddr j).sinAddr ≠ (C.clnAddr p.1).sinAddr

instance [Fintype ι] (S : Server ι) (p : ι × Event) : Decidable (Alone C S p) :=
  match hop : (S.conns p.1).fileOp p.2 with
  | none => isTrue (by rw [Alone, hop]; trivial)
  | some .truncate => decidable_of_iff (∀ j, j ≠ p.1 → (S.conns j).Opened →
      (C.clnAddr j).sinAddr = (C.clnAddr p.1).sinAddr → (S.conns j).stored = [])
      (by rw [Alone, hop])
  | some (.write bs) => decidable_of_iff (bs = [] ∨ ∀ j, j ≠ p.1 → (S.conns j).Opened →
      (C.clnAddr j).sinAddr ≠ (C.clnAddr p.1).sinAddr) (by rw [Alone, hop])

variable {C} {S T : Server ι} {p : ι × Event}

omit [DecidableEq ι] in
theorem Clients.name_eq_iff {i j : ι} :
    C.name i = C.name j ↔ (C.clnAddr i).sinAddr = (C.clnAddr j).sinAddr :=
  filename_eq_iff

theorem Server.step_iff : Server.Step C S p T ↔
    ∃ t, Conn.Step (S.conns p.1) p.2 t ∧ T = ⟨Function.update S.conns p.1 t, S.filesAfter C p⟩ := by
  rw [Server.Step, Server.exec, Option.map_eq_some_iff]
  exact exists_congr fun t ↦ and_congr_right fun _ ↦ eq_comm

/-- Each session runs as it would alone. -/
theorem Server.component {es : List (ι × Event)} (hrun : Run (Server.Step C) S es T) (i : ι) :
    Run Conn.Step (S.conns i) (eventsOf i es) (T.conns i) := by
  refine Run.component ?_ ?_ hrun i
  · intro S p T hstep
    obtain ⟨t, ht, rfl⟩ := Server.step_iff.mp hstep
    simpa only [Function.update_self] using ht
  · intro S p T j hstep hj
    obtain ⟨t, -, rfl⟩ := Server.step_iff.mp hstep
    exact Function.update_of_ne hj t S.conns

/-! ## Isolation -/

/-- Nothing is stored before the file is opened. -/
def Fresh (S : Server ι) : Prop := ∀ i, ¬(S.conns i).Opened → (S.conns i).stored = []

omit [DecidableEq ι] in
theorem fresh_initial (files : List Char → List UInt8) : Fresh (Server.initial C files) :=
  fun _ _ ↦ rfl

theorem Fresh.step (h : Fresh S) (hstep : Server.Step C S p T) : Fresh T := by
  obtain ⟨t, ht, rfl⟩ := Server.step_iff.mp hstep
  intro i hi
  by_cases heq : i = p.1
  · simp only [heq, Function.update_self] at hi ⊢
    rcases ht.fileOp with ⟨-, hopened, hstored⟩ | ⟨-, -, hopened, -⟩ | ⟨bs, -, -, hopened, -⟩
    · exact hstored.trans (h p.1 fun ho ↦ hi (hopened.mpr ho))
    · exact absurd hopened hi
    · exact absurd hopened hi
  · simp only [Function.update_of_ne heq] at hi ⊢
    exact h i hi

omit [DecidableEq ι] in
theorem isolated_initial (files : List Char → List UInt8) : Isolated C (Server.initial C files) :=
  fun _ h ↦ h.elim

theorem isolated_of_none {t : Conn} (hiso : Isolated C S)
    (hopened : t.Opened ↔ (S.conns p.1).Opened) (hstored : t.stored = (S.conns p.1).stored) :
    Isolated C ⟨Function.update S.conns p.1 t, S.files⟩ := by
  intro i hi
  by_cases heq : i = p.1
  · simp only [heq, Function.update_self] at hi ⊢
    rw [hstored]
    exact hiso p.1 (hopened.mp hi)
  · simp only [Function.update_of_ne heq] at hi ⊢
    exact hiso i hi

/-- A file that gets a new content is right for its own session, and for the others exactly when it
is what they have stored. -/
theorem isolated_update_iff {t : Conn} {content : List UInt8} (hiso : Isolated C S)
    (hcontent : content = t.stored) :
    Isolated C ⟨Function.update S.conns p.1 t, Function.update S.files (C.name p.1) content⟩ ↔
      ∀ j, j ≠ p.1 → (S.conns j).Opened → (C.clnAddr j).sinAddr = (C.clnAddr p.1).sinAddr →
        content = (S.conns j).stored := by
  constructor
  · intro hT j hj hopened hsame
    have hfile := hT j
    simp only [Function.update_of_ne hj, C.name_eq_iff.mpr hsame, Function.update_self] at hfile
    exact hfile hopened
  · intro hsame j hopened
    by_cases hj : j = p.1
    · simp only [hj, Function.update_self]
      exact hcontent
    · simp only [Function.update_of_ne hj] at hopened ⊢
      by_cases hname : C.name j = C.name p.1
      · rw [hname, Function.update_self]
        exact hsame j hj hopened (C.name_eq_iff.mp hname)
      · rw [Function.update_of_ne hname]
        exact hiso j hopened

/-- **Uploads stay apart exactly as long as they do not meet in a file.** -/
theorem isolated_iff_of_step (hfresh : Fresh S) (hiso : Isolated C S)
    (hstep : Server.Step C S p T) : Isolated C T ↔ Alone C S p := by
  obtain ⟨t, ht, rfl⟩ := Server.step_iff.mp hstep
  rcases ht.fileOp with ⟨hop, hopened, hstored⟩ | ⟨hop, hclosed, -, hstored⟩ |
    ⟨bs, hop, hopened, -, hstored⟩
  · rw [Alone, Server.filesAfter, hop]
    exact iff_of_true (isolated_of_none hiso hopened hstored) trivial
  · -- the file is empty now, and so is what its own session has stored
    have hnil : [] = t.stored := (hstored.trans (hfresh p.1 hclosed)).symm
    rw [Alone, Server.filesAfter, hop]
    simp only [FileOp.apply]
    rw [isolated_update_iff hiso hnil]
    exact forall₄_congr fun j _ _ _ ↦ eq_comm
  · -- all others in this file have stored the same so far, and have not written these bytes
    have hcontent : overwrite (S.files (C.name p.1)) (S.conns p.1).stored.length bs = t.stored := by
      rw [hiso p.1 hopened, overwrite_length, hstored]
    rw [Alone, Server.filesAfter, hop]
    simp only [FileOp.apply]
    rw [isolated_update_iff hiso hcontent, hcontent, hstored]
    have hmeet : ∀ j, (S.conns j).Opened → (C.clnAddr j).sinAddr = (C.clnAddr p.1).sinAddr →
        ((S.conns p.1).stored ++ bs = (S.conns j).stored ↔ bs = []) := by
      intro j hj hsame
      rw [← hiso j hj, C.name_eq_iff.mpr hsame, hiso p.1 hopened, List.append_right_eq_self]
    constructor
    · intro h
      by_cases hbs : bs = []
      · exact Or.inl hbs
      · exact Or.inr fun j hj ho hsame ↦ hbs ((hmeet j ho hsame).mp (h j hj ho hsame))
    · rintro (hbs | hnone) j hj ho hsame
      · exact (hmeet j ho hsame).mpr hbs
      · exact absurd hsame (hnone j hj ho)

/-- **When uploads do not interfere.** In all states of a run the file of each upload holds what is
stored of this upload, exactly when no step meets an upload from the same host. Then what is in the
file depends on the session's own steps alone, and is a prefix of its client's file. -/
theorem isolated_iff_alone (C : Clients ι) (files : List Char → List UInt8) (es : List (ι × Event))
    (S : Server ι) :
    (Run (fun S p T ↦ Server.Step C S p T ∧ Isolated C T) (Server.initial C files) es S ↔
        Run (fun S p T ↦ Server.Step C S p T ∧ Alone C S p) (Server.initial C files) es S) ∧
      (Run (fun S p T ↦ Server.Step C S p T ∧ Alone C S p) (Server.initial C files) es S →
        ∀ i, ∃ s, (eventsOf i es).foldlM Conn.exec (C.initial i) = some s ∧
          (s.Opened → S.files (C.name i) = s.stored ∧ s.stored <+: C.file i)) := by
  have hiff : Run (fun S p T ↦ Server.Step C S p T ∧ Isolated C T) (Server.initial C files) es S ↔
      Run (fun S p T ↦ Server.Step C S p T ∧ Alone C S p) (Server.initial C files) es S :=
    Run.always_iff_sound (fun S p T h (hstep : Server.Step C S p T) ↦ Fresh.step h hstep)
      (fun S p T h hiso hstep ↦ isolated_iff_of_step (p := p) h hiso hstep)
      (fresh_initial files) (isolated_initial files)
  refine ⟨hiff, fun halone i ↦ ⟨S.conns i, ?_, fun hopened ↦ ⟨?_, ?_⟩⟩⟩
  all_goals have hrun := Server.component (halone.imp fun _ _ _ h ↦ h.1) i
  · exact foldlM_of_run hrun
  · have hiso : Isolated C S :=
      (hiff.mpr halone).invariant (fun _ _ _ _ h ↦ h.2) (isolated_initial files)
    exact hiso i hopened
  · exact (Conn.tracks_of_run hrun).stored_isPrefix_fileSent.trans
      (Conn.tracks_of_run hrun).fileSent_isPrefix

/-- Clients with these addresses, and one byte to upload each. -/
def clientsAt (clnAddr : Fin 2 → SockaddrIn) : Clients (Fin 2) where
  clnAddr := clnAddr
  file := ![[1], [2]]
  stdin := fun _ ↦ []
  sinfoStream := fun _ ↦ 0

/-- Two clients on two hosts. -/
def twoHosts : Clients (Fin 2) := clientsAt ![⟨⟨10, 0, 0, 1⟩, 5000⟩, ⟨⟨10, 0, 0, 2⟩, 5000⟩]

/-- Two clients on one host. -/
def oneHost : Clients (Fin 2) := clientsAt ![⟨⟨10, 0, 0, 1⟩, 5000⟩, ⟨⟨10, 0, 0, 1⟩, 5001⟩]

/-- Two clients send a byte each; both handlers open their file; each byte is received and written.
-/
def bothUpload (i j : ι) : List (ι × Event) :=
  [(i, .file (.openFile true)), (i, .file (.read (some 1))), (i, .file (.sctpSendmsg true)),
    (j, .file (.openFile true)), (j, .file (.read (some 1))), (j, .file (.sctpSendmsg true)),
    (i, .cln (.openFile true)), (j, .cln (.openFile true)),
    (i, .cln (.sctpRecvmsg fileStream)), (i, .cln (.handle (some 1))),
    (j, .cln (.sctpRecvmsg fileStream)), (j, .cln (.handle (some 1)))]

theorem isolated_iff_alone_two_hosts :
    ∃ S, Run (Server.Step twoHosts) (Server.initial twoHosts fun _ ↦ []) (bothUpload 0 1) S ∧
      Isolated twoHosts S := by
  have hsome : ((bothUpload 0 1).foldlM
      (fun S p ↦ if Alone twoHosts S p then S.exec twoHosts p else none)
      (Server.initial twoHosts fun _ ↦ [])).isSome = true := by
    decide
  obtain ⟨S, -, hrun⟩ := exists_run_of_isSome _ hsome
  have halone : Run (fun S p T ↦ Server.Step twoHosts S p T ∧ Alone twoHosts S p)
      (Server.initial twoHosts fun _ ↦ []) (bothUpload 0 1) S := by
    apply hrun.imp
    intro S p T h
    split_ifs at h with hp
    exact ⟨h, hp⟩
  have hiso := (isolated_iff_alone twoHosts (fun _ ↦ []) (bothUpload 0 1) S).1.mpr halone
  refine ⟨S, halone.imp fun _ _ _ h ↦ h.1, ?_⟩
  exact hiso.invariant (I := Isolated twoHosts) (fun _ _ _ _ h ↦ h.2) (isolated_initial _)

/-- The file of the first client holds what the second has uploaded. -/
theorem uploads_meet :
    ∃ S, Run (Server.Step oneHost) (Server.initial oneHost fun _ ↦ []) (bothUpload 0 1) S ∧
      (S.conns 0).stored = [1] ∧ S.files (oneHost.name 0) = [2] ∧
      ¬S.files (oneHost.name 0) <+: oneHost.file 0 := by
  have hsome : ((bothUpload 0 1).foldlM (Server.exec oneHost)
      (Server.initial oneHost fun _ ↦ [])).isSome = true := by
    decide
  obtain ⟨S, hS, hrun⟩ := exists_run_of_isSome _ hsome
  have hfile : S.files (oneHost.name 0) = [2] := by
    cases hS
    decide
  refine ⟨S, hrun, ?_, hfile, ?_⟩
  · cases hS
    rfl
  · rw [hfile]
    decide

end Server

end Sctp

end AllProjects
