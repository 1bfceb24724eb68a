import AllProjects.FileManager.Panel

/-!
# The lists of the panels

What holds between any two keys, whatever the system calls answer: each panel has a list of its own,
linked both ways, with the cursor in it. The list may be empty, after a `scandir` that failed or
found next to nothing; all three pointers are NULL then.

`get_dir_info` builds the list with `current_file` as the place to append to. Its loop keeps
`Built`: so far there is a list from `head_file` to `current_file`, made of nodes that were free
before, and everything else on the heap is as it was.
-/

namespace AllProjects

namespace FileManager

variable {Dir : Type} {env : Env Dir} {cwd : Dir}

/-! ## Building a list -/

/-- The node of an entry. -/
def NodeOf (x : ℕ × FileInfo) (e : Dirent) : Prop := ∃ junk, x.2.fileName = fileNameOf e.dName junk

theorem map_fileName_eq {l : List (ℕ × FileInfo)} {es : List Dirent}
    (hnames : List.Forall₂ NodeOf l es) (hlen : ∀ e ∈ es, e.dName.length < bufSize - 1) :
    l.map (fun x ↦ x.2.fileName) = es.map Dirent.dName := by
  induction hnames with
  | nil => rfl
  | @cons x e l es hx _ ih =>
    obtain ⟨junk, hjunk⟩ := hx
    rw [List.map_cons, List.map_cons, ih fun e he ↦ hlen e (List.mem_cons_of_mem _ he), hjunk,
      fileNameOf_eq e.zero_notMem (hlen e List.mem_cons_self)]

/-- `get_dir_info` has to give up: there is no memory for an entry, or `stat` fails for it. -/
def GivesUp (env : Env Dir) (cwd : Dir) (fnl : List Dirent) : Prop :=
  ∃ e ∈ fnl, ∃ h, newNode env cwd e h = .error .exit

theorem GivesUp.of_drop {fnl : List Dirent} {n : ℕ} (h : GivesUp env cwd (fnl.drop n)) :
    GivesUp env cwd fnl := by
  obtain ⟨e, he, hgive⟩ := h
  exact ⟨e, List.mem_of_mem_drop he, hgive⟩

/-- On top of the heap `h` there is a list for the entries `es`. -/
structure Built (h : NodeHeap FileInfo) (es : List Dirent) (h' : NodeHeap FileInfo)
    (l : List (ℕ × FileInfo)) (head tail : Option ℕ) : Prop where
  list : IsList h' l head tail
  names : List.Forall₂ NodeOf l es
  fresh : ∀ x ∈ l, h.lookup x.1 = none
  frame : ∀ b, b ∉ l.map Prod.fst → h'.lookup b = h.lookup b

theorem newNode_cases (env : Env Dir) (cwd : Dir) (e : Dirent) (h : NodeHeap FileInfo) :
    newNode env cwd e h = .error .exit
      ∨ ∃ a info, newNode env cwd e h = .ok (a, info) ∧ h.lookup a = none ∧ NodeOf (a, info) e := by
  cases hm : env.alloc.malloc h with
  | none => exact Or.inl (by rw [newNode, hm])
  | some aj =>
    obtain ⟨a, junk⟩ := aj
    cases hs : env.fs.stat cwd e.dName with
    | none => exact Or.inl (by rw [newNode, hm]; simp only [hs])
    | some mode =>
      refine Or.inr ⟨a, ⟨fileNameOf e.dName junk, mode⟩, ?_, env.alloc.fresh hm, junk, rfl⟩
      rw [newNode, hm]
      simp only [hs]

theorem headNode_cases (env : Env Dir) (cwd : Dir) (di : DirInfo Dir) (h : NodeHeap FileInfo)
    (e : Dirent) :
    headNode env cwd e di h = .error .exit ∧ (∃ h, newNode env cwd e h = .error .exit)
      ∨ ∃ h' l a, headNode env cwd e di h
          = .ok ({ di with headFile := some a, currentFile := some a }, h')
        ∧ l ≠ [] ∧ Built h [e] h' l (some a) (some a) := by
  obtain herr | ⟨a, info, hok, hfresh, hname⟩ := newNode_cases env cwd e h
  · exact Or.inl ⟨by rw [headNode, herr]; rfl, h, herr⟩
  · refine Or.inr ⟨_, [(a, info)], a, by rw [headNode, hok]; rfl, List.cons_ne_nil _ _, ?_⟩
    refine ⟨IsList.single h a info, .cons hname .nil, ?_, ?_⟩
    · intro x hx
      obtain rfl := List.mem_singleton.mp hx
      exact hfresh
    · intro b hb
      exact Finmap.lookup_insert_of_ne h fun heq ↦ hb (List.mem_singleton.mpr heq)

/-- **A round of the loop.** The list from `head_file` to `current_file` gets one longer. -/
theorem appendNode_cases {h h' : NodeHeap FileInfo} {es : List Dirent} {l : List (ℕ × FileInfo)}
    {di : DirInfo Dir} (hb : Built h es h' l di.headFile di.currentFile) (hne : l ≠ [])
    (e : Dirent) :
    appendNode env cwd (di, h') e = .error .exit ∧ (∃ h, newNode env cwd e h = .error .exit)
      ∨ ∃ h'' l' a, appendNode env cwd (di, h') e = .ok ({ di with currentFile := some a }, h'')
        ∧ l' ≠ [] ∧ Built h (es ++ [e]) h'' l' di.headFile (some a) := by
  obtain herr | ⟨a, info, hok, hfresh, hname⟩ := newNode_cases env cwd e h'
  · exact Or.inl ⟨by rw [appendNode, herr]; rfl, h', herr⟩
  · obtain ⟨h'', hset, hlist, hframe⟩ := hb.list.push hne hfresh info
    refine Or.inr ⟨h'', l ++ [(a, info)], a, ?_, by simp, hlist, ?_, ?_, ?_⟩
    · rw [appendNode, hok]
      simp only [Except.ok_bind_eq, hset, liftFault_ok]
    · exact List.rel_append hb.names (.cons hname .nil)
    · intro x hx
      obtain hx | hx := List.mem_append.mp hx
      · exact hb.fresh x hx
      · obtain rfl := List.mem_singleton.mp hx
        have hout : a ∉ l.map Prod.fst := by
          intro ha
          obtain ⟨y, hy, heq⟩ := List.mem_map.mp ha
          exact hb.list.ne_of_fresh hfresh hy heq
        exact (hb.frame a hout).symm.trans hfresh
    · intro b hbout
      rw [hframe b hbout]
      apply hb.frame
      intro hbl
      exact hbout (by rw [List.map_append]; exact List.mem_append_left _ hbl)

theorem appendNodes_cases (env : Env Dir) (cwd : Dir) (di : DirInfo Dir)
    {h h' : NodeHeap FileInfo} {es : List Dirent} {l : List (ℕ × FileInfo)}
    (hb : Built h es h' l di.headFile di.currentFile) (hne : l ≠ []) (rest : List Dirent) :
    rest.foldlM (appendNode env cwd) (di, h') = .error .exit ∧ GivesUp env cwd rest
      ∨ ∃ h'' l' a, rest.foldlM (appendNode env cwd) (di, h')
          = .ok ({ di with currentFile := a }, h'')
        ∧ l' ≠ [] ∧ Built h (es ++ rest) h'' l' di.headFile a := by
  induction rest generalizing di h' es l with
  | nil => exact Or.inr ⟨h', l, di.currentFile, rfl, hne, by rwa [List.append_nil]⟩
  | cons e rest ih =>
    rw [List.foldlM_cons]
    obtain ⟨herr, hgive⟩ | ⟨h₁, l₁, a, hok, hne₁, hb₁⟩ := appendNode_cases hb hne e
    · rw [herr]
      exact Or.inl ⟨rfl, e, List.mem_cons_self, hgive⟩
    · rw [hok]
      obtain ⟨herr, e', he', hgive⟩ | ⟨h₂, l₂, a₂, hok₂, hne₂, hb₂⟩ :=
        ih { di with currentFile := some a } hb₁ hne₁
      · exact Or.inl ⟨herr, e', List.mem_cons_of_mem _ he', hgive⟩
      · rw [List.append_assoc] at hb₂
        exact Or.inr ⟨h₂, l₂, a₂, hok₂, hne₂, hb₂⟩

/-! ## Panels -/

/-- The list of a panel, and the cursor in it. -/
structure PanelList (h : NodeHeap FileInfo) (di : DirInfo Dir)
    (l : List (ℕ × FileInfo)) : Prop where
  list : IsList h l di.headFile di.tailFile
  names : l ≠ [] → List.Forall₂ NodeOf l (di.answer.drop 1)
  cursor : l = [] ∧ di.currentFile = none ∨ ∃ x ∈ l, di.currentFile = some x.1

/-- The panel with other pointers. -/
def DirInfo.relink (di : DirInfo Dir) (head cur tail : Option ℕ) : DirInfo Dir :=
  { di with headFile := head, currentFile := cur, tailFile := tail }

theorem PanelList.nil {h : NodeHeap FileInfo} {di : DirInfo Dir} (hdi : di.Empty) :
    PanelList h di [] where
  list := by
    rw [hdi.1, hdi.2.2]
    exact IsList.nil h
  names := fun hne ↦ absurd rfl hne
  cursor := Or.inl ⟨rfl, hdi.2.1⟩

/-- **The list of `get_dir_info`.** Where entry 1 exists the list has a node for each entry from it
on; where it does not, nothing happens to the list. -/
theorem buildList_cases (env : Env Dir) (cwd : Dir) (h : NodeHeap FileInfo) (fnl : List Dirent)
    (di : DirInfo Dir) (hdi : 1 < fnl.length ∨ di.Empty) (hanswer : di.answer = fnl) :
    buildList env cwd fnl di h = .error .exit ∧ 1 < fnl.length ∧ GivesUp env cwd (fnl.drop 1)
      ∨ ∃ head cur tail h' l, buildList env cwd fnl di h = .ok (di.relink head cur tail, h')
        ∧ PanelList h' (di.relink head cur tail) l ∧ (l ≠ [] ↔ 1 < fnl.length)
        ∧ (∀ x ∈ l, h.lookup x.1 = none) ∧ ∀ b, b ∉ l.map Prod.fst → h'.lookup b = h.lookup b := by
  rw [buildList]
  cases h1 : fnl[1]? with
  | none =>
    have hlen := List.getElem?_eq_none_iff.mp h1
    obtain hlt | hempty := hdi
    · omega
    -- nothing stands behind the first entry, and the list stays empty
    have hdrop : fnl.drop 2 = [] := List.drop_eq_nil_of_le (by omega)
    refine Or.inr ⟨none, none, none, h, [], ?_, .nil ⟨rfl, rfl, rfl⟩, ?_, ?_, ?_⟩
    · rw [hdrop, DirInfo.relink]
      simp only [List.foldlM_nil, Except.pure_eq_ok, Except.ok_bind_eq, hempty.1, hempty.2.1]
    · exact iff_of_false (by simp) (by omega)
    · intro x hx
      exact absurd hx List.not_mem_nil
    · intro b _
      rfl
  | some e =>
    obtain ⟨hlt, he⟩ := List.getElem?_eq_some_iff.mp h1
    have hsplit : fnl.drop 1 = e :: fnl.drop 2 := by rw [← he]; exact List.drop_eq_getElem_cons hlt
    rw [hsplit]
    obtain ⟨herr, hgive⟩ | ⟨h₁, l₁, a, hok, hne, hb⟩ :=
      headNode_cases env cwd di h e
    · exact Or.inl ⟨by simp only [herr]; rfl, hlt, e, List.mem_cons_self, hgive⟩
    · simp only [hok, Except.ok_bind_eq]
      obtain ⟨herr, e', he', hgive⟩ | ⟨h₂, l₂, a₂, hok₂, hne₂, hb₂⟩ :=
        appendNodes_cases env cwd { di with headFile := some a, currentFile := some a } hb hne
          (fnl.drop 2)
      · exact Or.inl ⟨by rw [herr]; rfl, hlt, e', List.mem_cons_of_mem e he', hgive⟩
      · refine Or.inr ⟨some a, some a, a₂, h₂, l₂, by rw [hok₂]; rfl, ⟨hb₂.list, ?_, ?_⟩, ?_,
          hb₂.fresh, hb₂.frame⟩
        · intro _
          change List.Forall₂ NodeOf l₂ (di.answer.drop 1)
          rw [hanswer, hsplit]
          exact hb₂.names
        · right
          obtain ⟨x, l, rfl⟩ := List.exists_cons_of_ne_nil hne₂
          exact ⟨x, List.mem_cons_self, hb₂.list.head_eq⟩
        · exact iff_of_true hne₂ hlt

theorem PanelList.congr {h h' : NodeHeap FileInfo} {di : DirInfo Dir} {l : List (ℕ × FileInfo)}
    (hl : PanelList h di l) (hsame : ∀ x ∈ l, h'.lookup x.1 = h.lookup x.1) : PanelList h' di l :=
  ⟨hl.list.congr hsame, hl.names, hl.cursor⟩

theorem PanelList.lookup_ne {h : NodeHeap FileInfo} {di : DirInfo Dir} {l : List (ℕ × FileInfo)}
    (hl : PanelList h di l) {x : ℕ × FileInfo} (hx : x ∈ l) : h.lookup x.1 ≠ none := by
  obtain ⟨n, hn, -⟩ := hl.list.linked.exists_lookup hx
  rw [hn]
  exact Option.some_ne_none n

theorem freeFil_eq {h : NodeHeap FileInfo} {di : DirInfo Dir} {l : List (ℕ × FileInfo)}
    (hl : PanelList h di l) : ∃ h', freeFil di h = .ok (di.relink none none none, h')
      ∧ ∀ b, b ∉ l.map Prod.fst → h'.lookup b = h.lookup b := by
  obtain ⟨h', hfree, hframe⟩ := hl.list.freeList
  exact ⟨h', by rw [freeFil, hfree]; rfl, hframe⟩

/-! ## Both panels -/

theorem Side.eq_or_other (p q : Side) : p = q ∨ p = q.other := by
  cases p <;> cases q <;> decide

theorem Side.other_ne (p : Side) : p.other ≠ p := by
  cases p <;> decide

theorem Side.other_other (p : Side) : p.other.other = p := by
  cases p <;> rfl

/-- The panels hold these lists, and share no node. -/
structure State.Holds (s : State Dir) (lists : Side → List (ℕ × FileInfo)) : Prop where
  panel : ∀ p, PanelList s.heap (s.panels p) (lists p)
  disjoint : ∀ p, ∀ x ∈ lists p, ∀ y ∈ lists p.other, x.1 ≠ y.1

/-- What a reload makes of the active panel, with its new list. -/
inductive Reloaded (env : Env Dir) (s : State Dir) : State Dir → List (ℕ × FileInfo) → Prop
  | unread {h' : NodeHeap FileInfo} : env.fs.scandir s.cwd dot = none →
      Reloaded env s { s.setActive (s.active.relink none none none) with heap := h' } []
  | read {dir : Dir} {fnl : List Dirent} {head cur tail : Option ℕ} {h' : NodeHeap FileInfo}
      {l : List (ℕ × FileInfo)} : env.fs.scandir s.cwd dot = some (dir, fnl) →
      (l ≠ [] ↔ 1 < fnl.length) →
      Reloaded env s { s.setActive ((s.active.reread env s.cwd dir fnl).relink head cur tail) with
        heap := h' } l

namespace State.Holds

variable {s : State Dir} {lists : Side → List (ℕ × FileInfo)}

theorem setCurrent (hs : s.Holds lists) {q : Option ℕ}
    (hq : lists s.cd = [] ∧ q = none ∨ ∃ x ∈ lists s.cd, q = some x.1) :
    (s.setCurrent q).Holds lists where
  panel := by
    apply (Function.forall_update_iff s.panels
      (p := fun p (di : DirInfo Dir) ↦ PanelList s.heap di (lists p))).mpr
    exact ⟨⟨(hs.panel s.cd).list, (hs.panel s.cd).names, hq⟩, fun p _ ↦ hs.panel p⟩
  disjoint := hs.disjoint

/-- The active panel gets a list of nodes that the other panel does not have. -/
theorem replace (hs : s.Holds lists) {h' : NodeHeap FileInfo} {di : DirInfo Dir}
    {l : List (ℕ × FileInfo)} (hl : PanelList h' di l)
    (hout : ∀ y ∈ lists s.cd.other, (∀ x ∈ l, x.1 ≠ y.1) ∧ h'.lookup y.1 = s.heap.lookup y.1) :
    State.Holds { s.setActive di with heap := h' } (Function.update lists s.cd l) where
  panel := by
    intro p
    obtain rfl | rfl := Side.eq_or_other p s.cd
    · simp only [State.setActive, Function.update_self]
      exact hl
    · simp only [State.setActive, Function.update_of_ne (Side.other_ne s.cd)]
      exact (hs.panel _).congr fun y hy ↦ (hout y hy).2
  disjoint := by
    intro p x hx y hy
    obtain rfl | rfl := Side.eq_or_other p s.cd
    · rw [Function.update_self] at hx
      rw [Function.update_of_ne (Side.other_ne s.cd)] at hy
      exact (hout y hy).1 x hx
    · rw [Function.update_of_ne (Side.other_ne s.cd)] at hx
      rw [Side.other_other, Function.update_self] at hy
      exact ((hout x hx).1 y hy).symm

/-- **A reload.** The old nodes are freed and a new list is built, or none. -/
theorem reload_cases (hs : s.Holds lists) (env : Env Dir) :
    (reload env s = .error .exit
        ∧ ∃ dir fnl, env.fs.scandir s.cwd dot = some (dir, fnl) ∧ 1 < fnl.length
          ∧ GivesUp env s.cwd fnl)
      ∨ ∃ t l, reload env s = .ok t ∧ Reloaded env s t l
        ∧ t.Holds (Function.update lists s.cd l) := by
  obtain ⟨h₁, hfree, hframe⟩ := freeFil_eq (hs.panel s.cd)
  have hother : ∀ y ∈ lists s.cd.other, h₁.lookup y.1 = s.heap.lookup y.1 := by
    intro y hy
    apply hframe
    intro hmem
    obtain ⟨x, hx, heq⟩ := List.mem_map.mp hmem
    exact hs.disjoint s.cd x hx y hy heq
  have hfree' : freeFil s.active s.heap = .ok (s.active.relink none none none, h₁) := hfree
  simp only [reload, hfree', Except.ok_bind_eq, getDirInfo]
  cases hscan : env.fs.scandir s.cwd dot with
  | none =>
    refine Or.inr ⟨_, [], rfl, .unread hscan, hs.replace ?_ ?_⟩
    · exact .nil ⟨rfl, rfl, rfl⟩
    · intro y hy
      exact ⟨fun x hx ↦ absurd hx List.not_mem_nil, hother y hy⟩
  | some answer =>
    obtain ⟨dir, fnl⟩ := answer
    obtain ⟨herr, hlen, hgive⟩ | ⟨head, cur, tail, h₂, l, hok, hl, hlen, hfresh, hframe₂⟩ :=
      buildList_cases env s.cwd h₁ fnl
        ((s.active.relink none none none).reread env s.cwd dir fnl) (Or.inr ⟨rfl, rfl, rfl⟩) rfl
    · exact Or.inl ⟨by simp only [herr]; rfl, dir, fnl, rfl, hlen, hgive.of_drop⟩
    · refine Or.inr ⟨_, l, by simp only [hok]; rfl, .read hscan hlen, hs.replace hl ?_⟩
      intro y hy
      have hlive : h₁.lookup y.1 ≠ none := by
        rw [hother y hy]
        exact (hs.panel _).lookup_ne hy
      have hne : ∀ x ∈ l, x.1 ≠ y.1 := by
        intro x hx heq
        exact hlive (heq ▸ hfresh x hx)
      refine ⟨hne, ?_⟩
      rw [hframe₂ y.1, hother y hy]
      intro hmem
      obtain ⟨x, hx, heq⟩ := List.mem_map.mp hmem
      exact hne x hx heq

end State.Holds

end FileManager

end AllProjects
