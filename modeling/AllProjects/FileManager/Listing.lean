import AllProjects.FileManager.Lists

/-!
# What a listing shows

`get_dir_info` leaves out entry 0 of the sorted answer, taking it for `.`; a name that starts with a
byte below the dot, such as a blank, `!`, `#`, `+` or `-`, comes before it. And it copies names with
`strncpy` into a buffer of `BUF_SIZE` bytes that it does not terminate: a name of 254 bytes runs on
into the byte behind it, which `malloc` does not clear, and one of 255 bytes is cut.

All other directories are shown in full. When `stat` fails for an entry that is listed, the program
exits and nothing is shown.
-/

namespace AllProjects

namespace FileManager

variable {Dir : Type}

/-- The answer of `scandir` with `alphasort` for a directory, in the C locale: sorted by bytes, with
`.` and `..`, and legal names. -/
structure Listing (fnl : List Dirent) : Prop where
  sorted : fnl.Pairwise fun a b ↦ a.dName < b.dName
  dot_mem : ∃ e ∈ fnl, e.dName = dot
  dotDot_mem : ∃ e ∈ fnl, e.dName = dot ++ dot
  length : ∀ e ∈ fnl, 1 ≤ e.dName.length ∧ e.dName.length ≤ 255
  slash : ∀ e ∈ fnl, 47 ∉ e.dName

/-- The names that should be shown. -/
def namesToShow (fnl : List Dirent) : List (List UInt8) :=
  (fnl.filter fun e ↦ e.dName ≠ dot).map Dirent.dName

/-- **The listing shows every entry** but `.`, once and in order, whatever is in the memory that
`malloc` returns. -/
def ShowsAll (fs : FileSystem Dir) (cwd : Dir) (path : List UInt8) (fnl : List Dirent) : Prop :=
  ∀ (alloc : Allocator) (di di' : DirInfo Dir) (h h' : NodeHeap FileInfo),
    getDirInfo ⟨fs, alloc⟩ cwd path di h = .ok (di', h') →
    ∃ l, IsList h' l di'.headFile di'.tailFile ∧ l.map (fun x ↦ x.2.fileName) = namesToShow fnl

/-! ## Names -/

theorem fileNameOf_of_le {dName : List UInt8} (h0 : 0 ∉ dName) (hlen : bufSize - 1 ≤ dName.length)
    (junk : List UInt8) :
    fileNameOf dName junk = dName.take (bufSize - 1) ++ junk.takeWhile (· ≠ 0) := by
  have hall : ∀ b ∈ dName.take (bufSize - 1), decide (b ≠ 0) = true := by
    intro b hb
    rw [decide_eq_true_iff]
    rintro rfl
    exact h0 (List.mem_of_mem_take hb)
  rw [fileNameOf, Nat.sub_eq_zero_of_le hlen, List.replicate_zero, List.append_nil,
    List.takeWhile_append_of_pos hall]

/-- With a NUL behind the buffer nothing longer than the buffer comes out. -/
theorem length_fileNameOf_zero (dName rest : List UInt8) :
    (fileNameOf dName (0 :: rest)).length ≤ bufSize - 1 := by
  have hbuf : (dName.take (bufSize - 1) ++ List.replicate (bufSize - 1 - dName.length) 0).length
      = bufSize - 1 := by
    rw [List.length_append, List.length_take, List.length_replicate]
    omega
  rw [fileNameOf, List.takeWhile_append]
  split
  · rw [List.takeWhile_cons_of_neg (by decide), List.append_nil]
    exact hbuf.le
  · exact (List.takeWhile_prefix _).length_le.trans hbuf.le

/-- With another byte there no name comes out with 254 bytes. -/
theorem length_fileNameOf_one {dName : List UInt8} (h0 : 0 ∉ dName) (rest : List UInt8) :
    (fileNameOf dName (1 :: rest)).length ≠ bufSize - 1 := by
  obtain hlt | hle := lt_or_ge dName.length (bufSize - 1)
  · rw [fileNameOf_eq h0 hlt]
    exact hlt.ne
  · rw [fileNameOf_of_le h0 hle, List.length_append, List.length_take, Nat.min_eq_left hle,
      List.takeWhile_cons_of_pos (by decide), List.length_cons]
    omega

/-! ## The order -/

theorem Listing.one_lt_length {fnl : List Dirent} (hl : Listing fnl) : 1 < fnl.length := by
  obtain ⟨e, he, hdot⟩ := hl.dot_mem
  obtain ⟨e', he', hdotDot⟩ := hl.dotDot_mem
  obtain _ | ⟨x, _ | ⟨y, es⟩⟩ := fnl
  · cases he
  · rw [List.mem_singleton] at he he'
    rw [he'.trans he.symm, hdot] at hdotDot
    exact absurd hdotDot (by decide)
  · exact Nat.succ_lt_succ (Nat.succ_pos _)

/-- **What is left when entry 0 is dropped** is what should be shown, when no name comes before the
dot. -/
theorem Listing.drop_one_eq_iff {fnl : List Dirent} (hl : Listing fnl) :
    (fnl.drop 1).map Dirent.dName = namesToShow fnl ↔ ∀ e ∈ fnl, ¬e.dName < dot := by
  obtain ⟨e₀, es, rfl⟩ := List.exists_cons_of_length_pos (Nat.zero_lt_of_lt hl.one_lt_length)
  obtain ⟨hfirst, hsorted⟩ := List.pairwise_cons.mp hl.sorted
  rw [List.drop_one, List.tail_cons, namesToShow]
  by_cases h0 : e₀.dName = dot
  · have hrest : ∀ e ∈ es, e.dName ≠ dot := by
      intro e he heq
      have hlt := hfirst e he
      rw [h0, heq] at hlt
      exact List.lt_irrefl dot hlt
    rw [List.filter_cons_of_neg (by simpa using h0),
      List.filter_eq_self.mpr fun e he ↦ decide_eq_true (hrest e he)]
    refine iff_of_true rfl ?_
    rw [List.forall_mem_cons, h0]
    exact ⟨List.lt_irrefl dot, fun e he ↦ List.lt_asymm (h0 ▸ hfirst e he)⟩
  · obtain ⟨d, hd, hdot⟩ := hl.dot_mem
    have hmem : d ∈ es := by
      obtain rfl | hmem := List.mem_cons.mp hd
      · exact absurd hdot h0
      · exact hmem
    refine iff_of_false ?_ ?_
    · -- the name of entry 0 is missing
      intro heq
      rw [List.filter_cons_of_pos (by simpa using h0), List.map_cons] at heq
      have hin : e₀.dName ∈ es.map Dirent.dName := heq ▸ List.mem_cons_self
      obtain ⟨e, he, hname⟩ := List.mem_map.mp hin
      exact List.lt_irrefl _ (hname ▸ hfirst e he)
    · intro hall
      exact hall e₀ List.mem_cons_self (hdot ▸ hfirst d hmem)

/-! ## What the program builds -/

section Build

variable {env : Env Dir} {cwd : Dir}

/-- All nodes of a heap have data with the property `P`. -/
def AllData (P : FileInfo → Prop) (h : NodeHeap FileInfo) : Prop :=
  ∀ a n, h.lookup a = some n → P n.data

theorem AllData.insert {P : FileInfo → Prop} {h : NodeHeap FileInfo} (hh : AllData P h)
    {n : LinkedNode FileInfo} (hn : P n.data) (a : ℕ) : AllData P (h.insert a n) := by
  intro b m hm
  by_cases hb : b = a
  · subst hb
    rw [Finmap.lookup_insert] at hm
    exact Option.some.inj hm ▸ hn
  · rw [Finmap.lookup_insert_of_ne h hb] at hm
    exact hh b m hm

theorem newNode_eq_ok {e : Dirent} {h : NodeHeap FileInfo} {a : ℕ} {info : FileInfo}
    (hnew : newNode env cwd e h = .ok (a, info)) : env.fs.stat cwd e.dName ≠ none
      ∧ ∃ junk, env.alloc.malloc h = some (a, junk) ∧ info.fileName = fileNameOf e.dName junk := by
  unfold newNode at hnew
  split at hnew
  · cases hnew
  · split at hnew
    · cases hnew
    · rename_i hmalloc _ _ hstat
      cases hnew
      exact ⟨by rw [hstat]; exact Option.some_ne_none _, _, hmalloc, rfl⟩

/-- What has to hold of the nodes that are made. -/
def NewData (env : Env Dir) (cwd : Dir) (P : FileInfo → Prop) : Prop :=
  ∀ e h a info, newNode env cwd e h = .ok (a, info) → P info

theorem headNode_data {P : FileInfo → Prop} (hnew : NewData env cwd P) {e : Dirent}
    {di : DirInfo Dir} {h : NodeHeap FileInfo} {t : DirInfo Dir × NodeHeap FileInfo}
    (hok : headNode env cwd e di h = .ok t) (hh : AllData P h) :
    AllData P t.2 ∧ env.fs.stat cwd e.dName ≠ none := by
  obtain ⟨⟨a, info⟩, hnode, hrest⟩ := Except.bind_eq_ok_iff.mp hok
  cases hrest
  exact ⟨hh.insert (hnew _ _ _ _ hnode) a, (newNode_eq_ok hnode).1⟩

theorem appendNode_data {P : FileInfo → Prop} (hnew : NewData env cwd P) {e : Dirent}
    {s t : DirInfo Dir × NodeHeap FileInfo} (hok : appendNode env cwd s e = .ok t)
    (hh : AllData P s.2) : AllData P t.2 ∧ env.fs.stat cwd e.dName ≠ none := by
  obtain ⟨⟨a, info⟩, hnode, hrest⟩ := Except.bind_eq_ok_iff.mp hok
  obtain ⟨h', hset, hend⟩ := Except.bind_eq_ok_iff.mp hrest
  cases hend
  refine ⟨?_, (newNode_eq_ok hnode).1⟩
  have hins := hh.insert (n := ⟨info, none, s.1.currentFile⟩) (hnew _ _ _ _ hnode) a
  -- `setNext` leaves the data of the node
  unfold NodeHeap.setNext at hset
  split at hset
  · cases hset
  · split at hset
    · rename_i hb
      have hdata := hins _ _ hb
      cases hset
      exact hins.insert (n := ⟨_, some a, _⟩) hdata _
    · cases hset

theorem appendNodes_data {P : FileInfo → Prop} (hnew : NewData env cwd P) {es : List Dirent}
    {s t : DirInfo Dir × NodeHeap FileInfo} (hok : es.foldlM (appendNode env cwd) s = .ok t)
    (hh : AllData P s.2) : AllData P t.2 ∧ ∀ e ∈ es, env.fs.stat cwd e.dName ≠ none := by
  have hrun := run_of_foldlM_ok hok
  constructor
  · exact hrun.invariant (I := fun s ↦ AllData P s.2)
      (fun _ _ _ hs hstep ↦ (appendNode_data hnew hstep hs).1) hh
  · refine hrun.forall_events fun s e t hstep ↦ ?_
    obtain ⟨⟨a, info⟩, hnode, -⟩ := Except.bind_eq_ok_iff.mp hstep
    exact (newNode_eq_ok hnode).1

/-- **A list that was built.** `stat` succeeded for all entries from 1 on. -/
theorem buildList_data {P : FileInfo → Prop} (hnew : NewData env cwd P) {fnl : List Dirent}
    {di : DirInfo Dir} {h : NodeHeap FileInfo} {t : DirInfo Dir × NodeHeap FileInfo}
    (hok : buildList env cwd fnl di h = .ok t) (hh : AllData P h) :
    AllData P t.2 ∧ ∀ e ∈ fnl.drop 1, env.fs.stat cwd e.dName ≠ none := by
  rw [buildList] at hok
  cases h1 : fnl[1]? with
  | none =>
    rw [h1] at hok
    obtain ⟨s₁, hhead, hrest⟩ := Except.bind_eq_ok_iff.mp hok
    obtain ⟨s₂, hloop, hend⟩ := Except.bind_eq_ok_iff.mp hrest
    cases hhead
    cases hend
    rw [List.drop_eq_nil_of_le (List.getElem?_eq_none_iff.mp h1)]
    exact ⟨(appendNodes_data hnew hloop hh).1, fun e he ↦ absurd he List.not_mem_nil⟩
  | some e =>
    rw [h1] at hok
    obtain ⟨s₁, hhead, hrest⟩ := Except.bind_eq_ok_iff.mp hok
    obtain ⟨s₂, hloop, hend⟩ := Except.bind_eq_ok_iff.mp hrest
    cases hend
    obtain ⟨hlt, he⟩ := List.getElem?_eq_some_iff.mp h1
    obtain ⟨hh₁, hstat⟩ := headNode_data hnew hhead hh
    obtain ⟨hh₂, hstats⟩ := appendNodes_data hnew hloop hh₁
    rw [List.drop_eq_getElem_cons hlt, he, List.forall_mem_cons]
    exact ⟨hh₂, hstat, hstats⟩

end Build

/-! ## The listing -/

/-- An allocator that never fails, with `junk` behind the names. -/
def Allocator.bumpBefore (junk : List UInt8) : Allocator where
  malloc := fun h ↦ (Allocator.bump.malloc h).map fun x ↦ (x.1, junk)
  fresh := by
    intro h a j hm
    obtain ⟨⟨b, j'⟩, hb, heq⟩ := Option.map_eq_some_iff.mp hm
    cases heq
    exact Allocator.bump.fresh hb

theorem exists_getDirInfo {fs : FileSystem Dir} {cwd dir : Dir} {path : List UInt8}
    {fnl : List Dirent} (hscan : fs.scandir cwd path = some (dir, fnl)) (hlen : 1 < fnl.length)
    (hstat : ∀ e ∈ fnl.drop 1, fs.stat cwd e.dName ≠ none) (junk : List UInt8)
    (di : DirInfo Dir) : ∃ di' h' l,
      getDirInfo ⟨fs, .bumpBefore junk⟩ cwd path di ∅ = .ok (di', h')
      ∧ IsList h' l di'.headFile di'.tailFile ∧ List.Forall₂ NodeOf l (fnl.drop 1)
      ∧ ∀ x ∈ l, ∃ d, 0 ∉ d ∧ x.2.fileName = fileNameOf d junk := by
  rw [getDirInfo, hscan]
  obtain ⟨-, -, e, he, h, hnode⟩ | ⟨head, cur, tail, h', l, hok, hl, hne, -, -⟩ :=
    buildList_cases ⟨fs, .bumpBefore junk⟩ cwd ∅ fnl
      (di.reread ⟨fs, .bumpBefore junk⟩ cwd dir fnl) (Or.inl hlen) rfl
  · obtain ⟨mode, hmode⟩ := Option.ne_none_iff_exists'.mp (hstat e he)
    rw [newNode, show (Allocator.bumpBefore junk).malloc h = some (_, junk) from rfl] at hnode
    simp only [hmode] at hnode
    cases hnode
  · refine ⟨_, h', l, hok, hl.list, hl.names (hne.mpr hlen), ?_⟩
    have hnew : NewData ⟨fs, .bumpBefore junk⟩ cwd
        fun info ↦ ∃ d, 0 ∉ d ∧ info.fileName = fileNameOf d junk := by
      intro e h a info hnode
      obtain ⟨-, junk', hmalloc, hname⟩ := newNode_eq_ok hnode
      obtain ⟨-, rfl⟩ := Prod.mk.inj (Option.some.inj hmalloc)
      exact ⟨e.dName, e.zero_notMem, hname⟩
    have hempty : AllData (fun info ↦ ∃ d, 0 ∉ d ∧ info.fileName = fileNameOf d junk) ∅ := by
      intro a n hn
      rw [Finmap.lookup_empty] at hn
      cases hn
    have hdata := (buildList_data hnew hok hempty).1
    intro x hx
    obtain ⟨n, hn, hxn⟩ := hl.list.linked.exists_lookup hx
    exact hxn ▸ hdata _ n hn

/-- A complete listing, when nothing fails: the allocator shows what becomes of long names. -/
theorem ShowsAll.complete {fs : FileSystem Dir} {cwd dir : Dir} {path : List UInt8}
    {fnl : List Dirent} (hall : ShowsAll fs cwd path fnl)
    (hscan : fs.scandir cwd path = some (dir, fnl)) (hl : Listing fnl)
    (hstat : ∀ e ∈ fnl.drop 1, fs.stat cwd e.dName ≠ none) :
    (∀ e ∈ fnl, ¬e.dName < dot) ∧ ∀ e ∈ fnl, e.dName.length < bufSize - 1 := by
  have hlist : ∀ junk, ∃ l : List (ℕ × FileInfo), List.Forall₂ NodeOf l (fnl.drop 1)
      ∧ l.map (fun x ↦ x.2.fileName) = namesToShow fnl
      ∧ ∀ x ∈ l, ∃ d, 0 ∉ d ∧ x.2.fileName = fileNameOf d junk := by
    intro junk
    obtain ⟨di', h', l, hok, hl₁, hnames, hdata⟩ :=
      exists_getDirInfo hscan hl.one_lt_length hstat junk ⟨[], 0, none, none, none, [], dir⟩
    obtain ⟨l', hl₂, hshown⟩ := hall _ _ _ _ _ hok
    obtain rfl := hl₁.unique hl₂
    exact ⟨l, hnames, hshown, hdata⟩
  have hname : ∀ junk, ∀ n ∈ namesToShow fnl, ∃ d, 0 ∉ d ∧ n = fileNameOf d junk := by
    intro junk n hn
    obtain ⟨l, -, hshown, hdata⟩ := hlist junk
    rw [← hshown] at hn
    obtain ⟨x, hx, rfl⟩ := List.mem_map.mp hn
    exact hdata x hx
  have hroom : ∀ e ∈ fnl, e.dName.length < bufSize - 1 := by
    intro e he
    by_cases hdot : e.dName = dot
    · rw [hdot]
      decide
    · have hmem : e.dName ∈ namesToShow fnl :=
        List.mem_map_of_mem (List.mem_filter.mpr ⟨he, decide_eq_true hdot⟩)
      obtain ⟨d, -, hcut⟩ := hname [0] _ hmem
      obtain ⟨d', hd', hrun⟩ := hname [1] _ hmem
      have hle := length_fileNameOf_zero d []
      have hne := length_fileNameOf_one hd' []
      rw [← hcut] at hle
      rw [← hrun] at hne
      exact lt_of_le_of_ne hle hne
  obtain ⟨l, hnames, hshown, -⟩ := hlist []
  refine ⟨hl.drop_one_eq_iff.mp ?_, hroom⟩
  rw [← hshown]
  exact (map_fileName_eq hnames fun e he ↦ hroom e (List.mem_of_mem_drop he)).symm

/-- **The listing is complete** exactly when no name sorts before `.` and all names leave room for
their NUL; or the program exits, since `stat` fails for a listed entry. -/
theorem showsAll_iff {fs : FileSystem Dir} {cwd dir : Dir} {path : List UInt8} {fnl : List Dirent}
    (hscan : fs.scandir cwd path = some (dir, fnl)) (hl : Listing fnl) :
    ShowsAll fs cwd path fnl ↔ (∃ e ∈ fnl.drop 1, fs.stat cwd e.dName = none)
      ∨ (∀ e ∈ fnl, ¬e.dName < dot) ∧ ∀ e ∈ fnl, e.dName.length < bufSize - 1 := by
  have hlen := hl.one_lt_length
  constructor
  · intro hall
    refine or_iff_not_imp_left.mpr fun hstat ↦ hall.complete hscan hl ?_
    exact fun e he hnone ↦ hstat ⟨e, he, hnone⟩
  · rintro (⟨e, he, hnone⟩ | ⟨hfirst, hroom⟩) alloc di di' h h' hok
    · rw [getDirInfo, hscan] at hok
      have hdata : AllData (fun _ ↦ True) h := fun _ _ _ ↦ trivial
      exact absurd hnone ((buildList_data (fun _ _ _ _ _ ↦ trivial) hok hdata).2 e he)
    · rw [getDirInfo, hscan] at hok
      obtain ⟨herr, -⟩ | ⟨head, cur, tail, h₁, l, hok', hpanel, hne, -, -⟩ :=
        buildList_cases ⟨fs, alloc⟩ cwd h fnl (di.reread ⟨fs, alloc⟩ cwd dir fnl) (Or.inl hlen) rfl
      · cases herr.symm.trans hok
      · cases hok'.symm.trans hok
        refine ⟨l, hpanel.list, ?_⟩
        rw [← hl.drop_one_eq_iff.mpr hfirst]
        exact map_fileName_eq (hpanel.names (hne.mpr hlen))
          fun e he ↦ hroom e (List.mem_of_mem_drop he)

/-- One directory, in which `stat` succeeds for everything. -/
def oneDir (fnl : List Dirent) : FileSystem Unit where
  chdir := fun _ _ ↦ none
  scandir := fun _ _ ↦ some ((), fnl)
  path := fun _ ↦ none
  stat := fun _ _ ↦ some 0o100644

theorem listing_dotsAndA : Listing dotsAndA where
  sorted := by decide
  dot_mem := by decide
  dotDot_mem := by decide
  length := by decide
  slash := by decide

theorem showsAll_iff_a : Listing dotsAndA ∧ ShowsAll (oneDir dotsAndA) () dot dotsAndA :=
  ⟨listing_dotsAndA, (showsAll_iff rfl listing_dotsAndA).mpr (Or.inr (by decide))⟩

/-- A file `-x`. -/
def dashX : Dirent := ⟨[45, 120], by decide⟩

/-- A directory with such a file, which sorts before `.` -/
def dashAndA : List Dirent := dashX :: dotsAndA

theorem listing_dashAndA : Listing dashAndA where
  sorted := by decide
  dot_mem := by decide
  dotDot_mem := by decide
  length := by decide
  slash := by decide

/-- **A file `-x`** is not shown, and `.` is. -/
theorem dash_not_shown : ¬∀ (Dir : Type) (fs : FileSystem Dir) (cwd dir : Dir) (path : List UInt8)
    (fnl : List Dirent), fs.scandir cwd path = some (dir, fnl) → Listing fnl →
    ShowsAll fs cwd path fnl := by
  intro hall
  have hshows := hall Unit (oneDir dashAndA) () () dot dashAndA rfl listing_dashAndA
  have hfirst := (hshows.complete rfl listing_dashAndA fun _ _ ↦ Option.some_ne_none _).1
  exact absurd hfirst (by decide)

end FileManager

end AllProjects
