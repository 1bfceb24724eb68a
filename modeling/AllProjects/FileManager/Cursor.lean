import AllProjects.FileManager.Keys

/-!
# Panel lists and cursors

When every directory that is listed has an entry 1, neither panel ever goes without a list, and the
pointers of a panel describe one position in one list. UP, DOWN, HOME and END move that position;
what is no reload changes nothing but the cursor of the active panel.
-/

namespace AllProjects

namespace FileManager

variable {Dir : Type}

/-- What is found by following the pointers of a panel: the list `l`, with the cursor at position
`i`. -/
structure View (h : NodeHeap FileInfo) (di : DirInfo Dir) (l : List (ℕ × FileInfo)) (i : ℕ) :
    Prop where
  forward : Walk LinkedNode.next h di.headFile l
  backward : Walk LinkedNode.prev h di.tailFile l.reverse
  head_prev : ∃ n, h.deref di.headFile = .ok n ∧ n.prev = none
  tail_next : ∃ n, h.deref di.tailFile = .ok n ∧ n.next = none
  names : l.map (fun x ↦ x.2.fileName) = (di.answer.drop 1).map Dirent.dName
  cursor : ∃ x, l[i]? = some x ∧ di.currentFile = some x.1

/-- All names in the answer leave room for the NUL. -/
def DirInfo.Short (di : DirInfo Dir) : Prop := ∀ e ∈ di.answer, e.dName.length < bufSize - 1

theorem PanelList.view {h : NodeHeap FileInfo} {di : DirInfo Dir} {l : List (ℕ × FileInfo)}
    (hl : PanelList h di l) (hne : l ≠ []) (hshort : di.Short) {i : ℕ} {x : ℕ × FileInfo}
    (hx : l[i]? = some x) (hc : di.currentFile = some x.1) : View h di l i where
  forward := hl.list.head_eq ▸ hl.list.linked.walk_next
  backward := hl.list.tail_eq ▸ hl.list.linked.walk_prev
  head_prev := by
    obtain ⟨y, l', rfl⟩ := List.exists_cons_of_ne_nil hne
    rw [hl.list.head_eq]
    exact ⟨_, NodeHeap.deref_some hl.list.linked.1, rfl⟩
  tail_next := by
    obtain ⟨l', y, rfl⟩ : ∃ l' y, l = l' ++ [y] := ⟨_, _, (List.dropLast_append_getLast hne).symm⟩
    rw [hl.list.tail_eq, lastPtr_concat]
    exact ⟨_, NodeHeap.deref_some hl.list.linked.lookup, rfl⟩
  names := map_fileName_eq (hl.names hne) fun e he ↦ hshort e (List.mem_of_mem_drop he)
  cursor := ⟨x, hx, hc⟩

theorem PanelList.exists_view {h : NodeHeap FileInfo} {di : DirInfo Dir} {l : List (ℕ × FileInfo)}
    (hl : PanelList h di l) (hne : l ≠ []) (hshort : di.Short) : ∃ i, View h di l i := by
  obtain ⟨hnil, -⟩ | ⟨x, hx, hc⟩ := hl.cursor
  · exact absurd hnil hne
  · obtain ⟨i, hi⟩ := List.mem_iff_getElem?.mp hx
    exact ⟨i, hl.view hne hshort hi hc⟩

theorem PanelList.eq_of_view {h : NodeHeap FileInfo} {di : DirInfo Dir}
    {l l' : List (ℕ × FileInfo)} {i : ℕ} (hl : PanelList h di l) (hview : View h di l' i) :
    l' = l := by
  have hwalk := hl.list.linked.walk_next
  rw [← hl.list.head_eq] at hwalk
  exact hview.forward.unique hwalk

/-! ## The assumptions -/

/-- `scandir` answers with two entries or more, all with short names, and neither `stat` nor
`malloc` fails. -/
structure Readable (env : Env Dir) (dir : Dir) (fnl : List Dirent) : Prop where
  two_le : 2 ≤ fnl.length
  short : ∀ e ∈ fnl, e.dName.length < bufSize - 1
  stat : ∀ e ∈ fnl, (env.fs.stat dir e.dName).isSome
  malloc : ∀ h, (env.alloc.malloc h).isSome

/-- A reload finds a readable directory, and the directory of the other panel can be entered. -/
structure Assumption (e : Event Dir) (s : State Dir) : Prop where
  reload : ∀ dir, reloadDir e s = some dir →
    ∃ opened fnl, e.env.fs.scandir dir dot = some (opened, fnl) ∧ Readable e.env dir fnl
  switch : ∀ p, switchTarget e.key s.cd = some p →
    (e.env.fs.chdir s.cwd (s.panels p).dirPath).isSome

theorem Readable.not_givesUp {env : Env Dir} {dir : Dir} {fnl : List Dirent}
    (h : Readable env dir fnl) : ¬GivesUp env dir fnl := by
  rintro ⟨e, he, heap, herr⟩
  obtain ⟨⟨a, junk⟩, hm⟩ := Option.isSome_iff_exists.mp (h.malloc heap)
  obtain ⟨mode, hs⟩ := Option.isSome_iff_exists.mp (h.stat e he)
  rw [newNode, hm] at herr
  simp only [hs] at herr
  cases herr

/-- Both panels have lists, with short names. -/
structure Listed (s : State Dir) (lists : Side → List (ℕ × FileInfo)) : Prop where
  holds : s.Holds lists
  ne_nil : ∀ p, lists p ≠ []
  short : ∀ p, (s.panels p).Short

namespace Listed

variable {s t : State Dir} {lists lists' : Side → List (ℕ × FileInfo)} {e : Event Dir}

theorem move (hs : Listed s lists) (he : Assumption e s) (hmove : Move s lists e t lists')
    (ht : t.Holds lists') : Listed t lists' := by
  cases hmove with
  | cursor hload hswitch hq =>
    refine ⟨ht, hs.ne_nil, ?_⟩
    apply (Function.forall_update_iff s.panels (p := fun _ (di : DirInfo Dir) ↦ di.Short)).mpr
    exact ⟨hs.short s.cd, fun p _ ↦ hs.short p⟩
  | switch hswitch hdir => exact ⟨ht, hs.ne_nil, hs.short⟩
  | @reload dir t l hload hre hent _ =>
    obtain ⟨opened, fnl, hscan, hread⟩ := he.reload dir hload
    have hl : l ≠ [] := hre.reads_iff.mpr ⟨opened, fnl, hscan, hread.two_le⟩
    refine ⟨ht, ?_, ?_⟩
    · apply (Function.forall_update_iff lists (p := fun _ (l : List (ℕ × FileInfo)) ↦ l ≠ [])).mpr
      exact ⟨hl, fun p _ ↦ hs.ne_nil p⟩
    · cases hre with
      | unread hnone => exact absurd rfl hl
      | read hscan' hlen =>
        have heq := Option.some.inj (hscan.symm.trans hscan')
        cases heq
        apply (Function.forall_update_iff s.panels (p := fun _ (di : DirInfo Dir) ↦ di.Short)).mpr
        exact ⟨hread.short, fun p _ ↦ hs.short p⟩

end Listed

/-! ## The keys -/

/-- Where a key that does not reload leaves a cursor at position `i`. -/
def Key.position (k : Key) (len i : ℕ) : ℕ :=
  match k with
  | .up => i - 1
  | .down => min (i + 1) (len - 1)
  | .home => 0
  | .endKey => len - 1
  | .left | .right | .tab | .enter | .f5 | .f8 => i

theorem Key.position_lt (k : Key) {len i : ℕ} (hi : i < len) : k.position len i < len := by
  cases k <;> simp only [Key.position] <;> omega

theorem State.Holds.handle_position {s : State Dir} {lists : Side → List (ℕ × FileInfo)}
    (hs : s.Holds lists) {e : Event Dir} {i : ℕ} {x : ℕ × FileInfo}
    (hx : (lists s.cd)[i]? = some x) (hc : s.active.currentFile = some x.1)
    (hload : reloadDir e s = none) (hswitch : switchTarget e.key s.cd = none) :
    handle e s = .ok (s.setCurrent
      ((lists s.cd)[e.key.position (lists s.cd).length i]?.map Prod.fst)) := by
  have hlist := (hs.panel s.cd).list
  have hcur := hs.current_eq hx hc
  have hinfo : s.currentInfo = some x.2 := by rw [State.currentInfo, hcur]
  have hstay : s.setCurrent ((lists s.cd)[i]?.map Prod.fst) = s := by
    rw [hx, Option.map_some, ← hc]
    exact s.setCurrent_currentFile
  obtain ⟨key, env, proceeds⟩ := e
  cases key with
  | up => exact hs.handle_up rfl hx hc
  | down => exact hs.handle_down rfl hx hc
  | home => exact congrArg (fun q ↦ Except.ok (s.setCurrent q)) hlist.head_eq_get
  | endKey => exact congrArg (fun q ↦ Except.ok (s.setCurrent q)) hlist.tail_eq_get
  | left =>
    simp only [switchTarget, ite_eq_right_iff, reduceCtorEq, imp_false] at hswitch
    simp only [handle, if_neg hswitch, Key.position, hstay]
  | right =>
    simp only [switchTarget, ite_eq_right_iff, reduceCtorEq, imp_false] at hswitch
    simp only [handle, if_neg hswitch, Key.position, hstay]
  | tab => cases hswitch
  | enter =>
    simp only [reloadDir, hinfo, Option.bind_some] at hload
    simp only [handle, hcur, Except.ok_bind_eq, hload, Key.position, hstay]
  | f5 | f8 =>
    simp only [reloadDir, hinfo, Option.bind_some, ite_eq_right_iff, reduceCtorEq,
      imp_false] at hload
    simp only [handle, hcur, Except.ok_bind_eq, if_neg hload, Key.position, hstay]

theorem Key.position_of_switch {k : Key} {cd p : Side} (h : switchTarget k cd = some p)
    (len i : ℕ) : k.position len i = i := by
  cases k <;> first | rfl | cases h

namespace Listed

variable {s t : State Dir} {lists lists' : Side → List (ℕ × FileInfo)} {e : Event Dir}

theorem current_ne_none (hs : Listed s lists) (p : Side) : (s.panels p).currentFile ≠ none := by
  obtain ⟨hnil, -⟩ | ⟨x, -, hc⟩ := (hs.holds.panel p).cursor
  · exact absurd hnil (hs.ne_nil p)
  · rw [hc]
    exact Option.some_ne_none _

theorem exits (he : Assumption e s) (hexit : Exits e s) : e.key = .f5 ∧ e.proceeds = false := by
  cases hexit with
  | chdir hswitch hnone =>
    have hsome := he.switch _ hswitch
    rw [hnone] at hsome
    cases hsome
  | copy hkey hproceeds => exact ⟨hkey, hproceeds⟩
  | givesUp hload hscan _ hgive =>
    obtain ⟨opened, fnl, hscan', hread⟩ := he.reload _ hload
    cases hscan.symm.trans hscan'
    exact absurd hgive hread.not_givesUp

theorem not_segv (hs : Listed s lists) (he : Assumption e s) : ¬Segv e s := by
  intro hsegv
  cases hsegv with
  | noCursor hc => exact hs.current_ne_none s.cd hc
  | unread hkey hload hreads =>
    obtain ⟨opened, fnl, hscan, hread⟩ := he.reload _ hload
    exact hreads ⟨opened, fnl, hscan, hread.two_le⟩

/-- A key that does not reload moves the cursor to the position it stands for. -/
theorem view_position (hs : Listed s lists) (hmove : Move s lists e t lists')
    (hok : handle e s = .ok t) (hload : reloadDir e s = none) {l : List (ℕ × FileInfo)} {i : ℕ}
    (hview : View s.heap s.active l i) :
    View t.heap (t.panels s.cd) l (e.key.position l.length i) := by
  have hpanel := hs.holds.panel s.cd
  obtain rfl := hpanel.eq_of_view hview
  obtain ⟨x, hx, hc⟩ := hview.cursor
  cases hmove with
  | cursor _ hswitch hq =>
    have hi := e.key.position_lt (List.getElem?_eq_some_iff.mp hx).1
    have hget := List.getElem?_eq_getElem hi
    have heq := hok.symm.trans (hs.holds.handle_position hx hc hload hswitch)
    rw [Except.ok.inj heq, hget]
    have hcur : ∀ q, (s.setCurrent q).panels s.cd = { s.active with currentFile := q } :=
      fun q ↦ Function.update_self ..
    rw [Option.map_some, hcur]
    have hpanel' : PanelList s.heap { s.active with
        currentFile := some (lists s.cd)[e.key.position (lists s.cd).length i].1 } (lists s.cd) :=
      ⟨hpanel.list, hpanel.names, Or.inr ⟨_, List.mem_of_getElem? hget, rfl⟩⟩
    exact hpanel'.view (hs.ne_nil s.cd) (hs.short s.cd) hget rfl
  | switch hswitch hdir =>
    rw [Key.position_of_switch hswitch]
    exact hview
  | reload hload' _ _ _ =>
    rw [hload] at hload'
    cases hload'

end Listed

theorem Move.frame {s t : State Dir} {lists lists' : Side → List (ℕ × FileInfo)} {e : Event Dir}
    (hmove : Move s lists e t lists') (hload : reloadDir e s = none) :
    t.heap = s.heap
      ∧ (∃ q, t.panels = Function.update s.panels s.cd { s.active with currentFile := q })
      ∧ (switchTarget e.key s.cd = none → t.cd = s.cd ∧ t.cwd = s.cwd)
      ∧ (switchTarget e.key s.cd ≠ none → t.panels = s.panels) := by
  cases hmove with
  | @cursor q _ hswitch _ => exact ⟨rfl, ⟨q, rfl⟩, fun _ ↦ ⟨rfl, rfl⟩, fun hne ↦ absurd hswitch hne⟩
  | switch hswitch _ =>
    refine ⟨rfl, ⟨s.active.currentFile, ?_⟩, ?_, fun _ ↦ rfl⟩
    · exact (congrArg State.panels s.setCurrent_currentFile).symm
    · intro hnone
      rw [hswitch] at hnone
      cases hnone
  | reload hload' _ _ _ =>
    rw [hload] at hload'
    cases hload'

/-- **Panel lists and cursors stay well formed.** -/
theorem panels_well_formed {env : Env Dir} {home pwd : Option (List UInt8)}
    {junk : Side → DirInfo Dir} {cwd : Dir} {s t : State Dir} {es : List (Event Dir)}
    (hstart : start env home pwd junk cwd = .ok s) (hread : StartReads env.fs home pwd cwd)
    (hshort : ∀ p, (s.panels p).Short)
    (hrun : Run (fun s e t ↦ Assumption e s ∧ Step s e t) s es t) :
    (∀ p, ∃ l i, View t.heap (t.panels p) l i)
      ∧ ∀ e, Assumption e t →
        handle e t = .error .exit ∧ e.key = .f5 ∧ e.proceeds = false
        ∨ ∃ u, handle e t = .ok u
          ∧ (reloadDir e t = none → ∀ l i, View t.heap t.active l i →
              View u.heap (u.panels t.cd) l (e.key.position l.length i))
          ∧ (reloadDir e t = none →
              u.heap = t.heap
              ∧ (∃ q, u.panels
                  = Function.update t.panels t.cd { t.active with currentFile := q })
              ∧ (switchTarget e.key t.cd = none → u.cd = t.cd ∧ u.cwd = t.cwd)
              ∧ (switchTarget e.key t.cd ≠ none → u.panels = t.panels)) := by
  obtain ⟨lists, hholds, hne⟩ := start_lists hstart
  obtain ⟨lists, ht⟩ : ∃ lists, Listed t lists := by
    apply hrun.invariant (I := fun s ↦ ∃ lists, Listed s lists) _
      ⟨lists, hholds, hne.mpr hread, hshort⟩
    rintro s e t ⟨lists, hs⟩ ⟨he, hstep⟩
    obtain ⟨lists', hmove, ht⟩ := hs.holds.step hstep
    exact ⟨lists', hs.move he hmove ht⟩
  constructor
  · intro p
    exact ⟨lists p, (ht.holds.panel p).exists_view (ht.ne_nil p) (ht.short p)⟩
  · intro e he
    cases ht.holds.handle_cases e with
    | exit herr hexit => exact Or.inl ⟨herr, Listed.exits he hexit⟩
    | segv herr hsegv => exact absurd hsegv (ht.not_segv he)
    | move hok hmove hholds' =>
      refine Or.inr ⟨_, hok, ?_, hmove.frame⟩
      intro hload l i hview
      exact ht.view_position hmove hok hload hview

/-- A single directory, with one file in it. -/
def oneFile : FileSystem Unit where
  chdir := fun _ _ ↦ some ()
  scandir := fun _ _ ↦ some ((), dotsAndA)
  path := fun _ ↦ some [47]
  stat := fun _ _ ↦ some 0o100644

/-- The cursor goes to the file, and the file is removed. -/
theorem panels_well_formed_f8 : ∃ s t, start ⟨oneFile, .bump⟩ (some [47]) (some [47])
      (fun _ ↦ ⟨[], 0, none, none, none, [], ()⟩) () = .ok s
    ∧ Run (fun s e t ↦ Assumption e s ∧ Step s e t) s
        [⟨.down, ⟨oneFile, .bump⟩, true⟩, ⟨.tab, ⟨oneFile, .bump⟩, true⟩,
          ⟨.endKey, ⟨oneFile, .bump⟩, true⟩, ⟨.f8, ⟨oneFile, .bump⟩, true⟩] t
    ∧ ∀ p, ∃ l i, View t.heap (t.panels p) l i := by
  have hok : (start ⟨oneFile, .bump⟩ (some [47]) (some [47])
      (fun _ ↦ ⟨[], 0, none, none, none, [], ()⟩) () >>= fun s ↦
        execAll (fun s e ↦ handle e s) s
          [⟨.down, ⟨oneFile, .bump⟩, true⟩, ⟨.tab, ⟨oneFile, .bump⟩, true⟩,
            ⟨.endKey, ⟨oneFile, .bump⟩, true⟩, ⟨.f8, ⟨oneFile, .bump⟩, true⟩]).isOk = true := by
    decide +kernel
  obtain ⟨t, ht⟩ := Except.exists_eq_ok_of_isOk hok
  obtain ⟨s, hs, hexec⟩ := Except.bind_eq_ok_iff.mp ht
  have hshown : ∀ {di : DirInfo Unit} {cwd : Unit} {path : List UInt8},
      di.ReadBy ⟨oneFile, .bump⟩ cwd path → di.Short := by
    rintro di cwd path ⟨hscan, -⟩
    have hanswer : dotsAndA = di.answer := congrArg Prod.snd (Option.some.inj hscan)
    rw [DirInfo.Short, ← hanswer]
    decide
  have hreads : ReadsAt oneFile () [47] := ⟨(), dotsAndA, rfl, by decide⟩
  obtain ⟨_, _, _, _, hh, hp, _, _, _, _, hner, hnel, hrd, hld⟩ := start_eq_ok hs
  cases hh
  cases hp
  have hshort : ∀ p, (s.panels p).Short := by
    intro p
    cases p with
    | ld => exact hshown (hld (hnel.mpr hreads))
    | rd => exact hshown (hrd (hner.mpr hreads))
  have hassume : ∀ (s : State Unit) (e : Event Unit), e.env = ⟨oneFile, .bump⟩ →
      Assumption e s := by
    rintro s ⟨key, env, proceeds⟩ rfl
    refine ⟨fun dir _ ↦ ⟨(), _, rfl, ?_⟩, fun _ _ ↦ rfl⟩
    exact ⟨by decide, by decide, fun _ _ ↦ rfl, fun _ ↦ rfl⟩
  have hrun := (run_of_execAll hexec).imp_of (P := fun e ↦ e.env = ⟨oneFile, .bump⟩)
    (fun s e t he hstep ↦ And.intro (hassume s e he) hstep) (by simp)
  have hstart : StartReads oneFile (some [47]) (some [47]) () :=
    ⟨_, _, (), (), rfl, rfl, rfl, rfl, hreads, hreads⟩
  exact ⟨s, t, hs, hrun, (panels_well_formed hs hstart hshort hrun).1⟩

end FileManager

end AllProjects
