import AllProjects.FileManager.WorkingDir
import AllProjects.Memory.LinkedSplice

/-!
# The memory of the lists

Every node that `get_dir_info` allocates is in the list of a panel, and `free_fil` frees a whole
list before the next one is built. So nothing is left behind, however many directories are visited:
the nodes on the heap are at every moment those of the two lists.
-/

namespace AllProjects

namespace FileManager

variable {Dir : Type}

/-- The nodes on the heap are those of the two lists. -/
def State.Tight (s : State Dir) (lists : Side → List (ℕ × FileInfo)) : Prop :=
  ∀ a, a ∈ s.heap ↔ ∃ p, a ∈ (lists p).map Prod.fst

theorem PanelList.mem_iff {h h' : NodeHeap FileInfo} {di : DirInfo Dir} {l : List (ℕ × FileInfo)}
    (hl : PanelList h' di l) (hframe : ∀ b, b ∉ l.map Prod.fst → h'.lookup b = h.lookup b) (a : ℕ) :
    a ∈ h' ↔ a ∈ h ∨ a ∈ l.map Prod.fst := by
  by_cases ha : a ∈ l.map Prod.fst
  · obtain ⟨x, hx, rfl⟩ := List.mem_map.mp ha
    have hlive : x.1 ∈ h' := not_not.mp fun hout ↦ hl.lookup_ne hx (Finmap.lookup_eq_none.mpr hout)
    exact iff_of_true hlive (.inr ha)
  · rw [← Finmap.lookup_isSome, ← Finmap.lookup_isSome, hframe a ha]
    exact (or_iff_left ha).symm

/-- **What `get_dir_info` allocates.** Where nothing is listed yet, exactly the nodes of the list
that it builds. -/
theorem getDirInfo_mem {env : Env Dir} {cwd : Dir} {path : List UInt8} {di di' : DirInfo Dir}
    {h h' : NodeHeap FileInfo} (hok : getDirInfo env cwd path di h = .ok (di', h'))
    (hdi : di.Empty) :
    ∃ l, IsList h' l di'.headFile di'.tailFile ∧ ∀ a, a ∈ h' ↔ a ∈ h ∨ a ∈ l.map Prod.fst := by
  rw [getDirInfo] at hok
  cases hscan : env.fs.scandir cwd path with
  | none =>
    rw [hscan] at hok
    cases hok
    refine ⟨[], ?_, fun a ↦ (or_iff_left List.not_mem_nil).symm⟩
    rw [hdi.1, hdi.2.2]
    exact IsList.nil h
  | some answer =>
    obtain ⟨dir, fnl⟩ := answer
    rw [hscan] at hok
    dsimp only at hok
    obtain ⟨herr, -⟩ | ⟨head, cur, tail, h₁, l, hok', hl, -, -, hframe⟩ :=
      buildList_cases env cwd h fnl (di.reread env cwd dir fnl) (.inr hdi) rfl
    · rw [herr] at hok
      cases hok
    · rw [hok'] at hok
      cases hok
      exact ⟨l, hl.list, hl.mem_iff hframe⟩

theorem State.Tight.reload {env : Env Dir} {s t : State Dir}
    {lists lists' : Side → List (ℕ × FileInfo)} (htight : s.Tight lists) (hs : s.Holds lists)
    (hok : FileManager.reload env s = .ok t)
    (ht : t.Holds lists') (hother : lists' s.cd.other = lists s.cd.other) : t.Tight lists' := by
  rw [FileManager.reload] at hok
  obtain ⟨⟨di, h₁⟩, hfree, hok⟩ := Except.bind_eq_ok_iff.mp hok
  obtain ⟨⟨di', h₂⟩, hget, hok⟩ := Except.bind_eq_ok_iff.mp hok
  cases hok
  have hlist := (hs.panel s.cd).list
  obtain ⟨h', hfree', -⟩ := hlist.freeList
  have hdi : freeFil s.active s.heap = .ok (s.active.relink none none none, h') := by
    rw [freeFil, show s.active.headFile = (s.panels s.cd).headFile from rfl, hfree']
    rfl
  rw [hdi] at hfree
  cases hfree
  obtain ⟨l, hl, hmem⟩ := getDirInfo_mem hget ⟨rfl, rfl, rfl⟩
  have hactive : lists' s.cd = l := by
    have hpanel := (ht.panel s.cd).list
    rw [State.setActive] at hpanel
    dsimp only at hpanel
    rw [Function.update_self] at hpanel
    exact hpanel.unique hl
  intro a
  rw [hmem a, hlist.mem_freeList hfree' a, htight a]
  constructor
  · rintro (⟨⟨p, hp⟩, hout⟩ | ha)
    · obtain rfl | rfl := Side.eq_or_other p s.cd
      · exact absurd hp hout
      · exact ⟨s.cd.other, by rwa [hother]⟩
    · exact ⟨s.cd, by rwa [hactive]⟩
  · rintro ⟨p, hp⟩
    obtain rfl | rfl := Side.eq_or_other p s.cd
    · rw [hactive] at hp
      exact .inr hp
    · rw [hother] at hp
      refine .inl ⟨⟨_, hp⟩, fun ha ↦ ?_⟩
      obtain ⟨x, hx, hxa⟩ := List.mem_map.mp ha
      obtain ⟨y, hy, hya⟩ := List.mem_map.mp hp
      exact hs.disjoint s.cd x hx y hy (hxa.trans hya.symm)

/-! ## Keys -/

theorem handle_of_reloadDir {e : Event Dir} {s t : State Dir} {dir : Dir}
    (hload : reloadDir e s = some dir) (hok : handle e s = .ok t) :
    reload e.env { s with cwd := dir } = .ok t := by
  obtain ⟨key, env, proceeds⟩ := e
  cases hcur : s.current with
  | error stop =>
    have hinfo : s.currentInfo = none := by rw [State.currentInfo, hcur]
    rw [reloadDir, hinfo] at hload
    cases key <;> cases hload
  | ok n =>
    have hinfo : s.currentInfo = some n.data := by rw [State.currentInfo, hcur]
    rw [reloadDir, hinfo] at hload
    rw [handle, hcur] at hok
    cases key with
    | up | down | left | right | tab | home | endKey => cases hload
    | enter =>
      dsimp only [Option.bind_some] at hload
      simp only [Except.ok_bind_eq, hload] at hok
      obtain ⟨u, hu, hok⟩ := Except.bind_eq_ok_iff.mp hok
      obtain ⟨-, -, hok⟩ := Except.bind_eq_ok_iff.mp hok
      cases hok
      exact hu
    | f5 =>
      dsimp only [Option.bind_some] at hload
      split at hload
      · rename_i hreg
        cases hload
        simp only [Except.ok_bind_eq, hreg, if_true] at hok
        split at hok
        · exact hok
        · cases hok
      · cases hload
    | f8 =>
      dsimp only [Option.bind_some] at hload
      split at hload
      · rename_i hreg
        cases hload
        simp only [Except.ok_bind_eq, hreg, if_true] at hok
        exact hok
      · cases hload

theorem State.Tight.step {e : Event Dir} {s t : State Dir} {lists : Side → List (ℕ × FileInfo)}
    (htight : s.Tight lists) (hs : s.Holds lists) (hstep : Step s e t) :
    ∃ lists', t.Holds lists' ∧ t.Tight lists' := by
  obtain ⟨lists', hmove, ht⟩ := hs.step hstep
  refine ⟨lists', ht, ?_⟩
  cases hmove with
  | cursor _ _ _ => exact htight
  | switch _ _ => exact htight
  | @reload dir t l hload _ _ _ =>
    have hs' : State.Holds { s with cwd := dir } lists := ⟨hs.panel, hs.disjoint⟩
    have htight' : State.Tight { s with cwd := dir } lists := htight
    exact htight'.reload hs' (handle_of_reloadDir hload hstep) ht
      (Function.update_of_ne (Side.other_ne s.cd) _ _)

/-! ## The start -/

theorem start_tight {env : Env Dir} {home pwd : Option (List UInt8)} {junk : Side → DirInfo Dir}
    {cwd : Dir} {s : State Dir} (h : start env home pwd junk cwd = .ok s) :
    ∃ lists, s.Holds lists ∧ s.Tight lists := by
  obtain ⟨homePath, pwdPath, homeDir, lists, rfl, rfl, hhome, hpwd, -, hs, -⟩ := start_eq_ok h
  refine ⟨lists, hs, ?_⟩
  rw [start, hhome] at h
  obtain ⟨⟨rd, h₁⟩, hrd, h⟩ := Except.bind_eq_ok_iff.mp h
  rw [hpwd] at h
  obtain ⟨⟨ld, h₂⟩, hld, h⟩ := Except.bind_eq_ok_iff.mp h
  dsimp only at h
  split at h
  · rename_i husable
    have heq := (Except.ok.inj h).symm
    obtain ⟨lr, hlr, -, -, -, hframer⟩ := getDirInfo_malloced hrd husable.1
    obtain ⟨ll, hll, -, -, hfresh, hframel⟩ := getDirInfo_malloced hld husable.2
    have hright : lists .rd = lr := by
      have hpanel := (hs.panel .rd).list
      rw [heq] at hpanel
      refine hpanel.unique (hlr.list.congr fun x hx ↦ hframel x.1 fun hxl ↦ ?_)
      obtain ⟨y, hy, hyx⟩ := List.mem_map.mp hxl
      exact hlr.lookup_ne hx (hyx ▸ hfresh y hy)
    have hleft : lists .ld = ll := by
      have hpanel := (hs.panel .ld).list
      rw [heq] at hpanel
      exact hpanel.unique hll.list
    intro a
    rw [heq]
    dsimp only
    rw [hll.mem_iff hframel, hlr.mem_iff hframer]
    constructor
    · rintro ((hnew | hr) | hl)
      · cases hnew
      · exact ⟨.rd, by rwa [hright]⟩
      · exact ⟨.ld, by rwa [hleft]⟩
    · rintro ⟨p, hp⟩
      cases p with
      | ld => exact .inr (hleft ▸ hp)
      | rd => exact .inl (.inr (hright ▸ hp))
  · cases h

/-! ## Every run -/

theorem State.Tight.card_eq {s : State Dir} {lists : Side → List (ℕ × FileInfo)}
    (htight : s.Tight lists) (hs : s.Holds lists) :
    s.heap.keys.card = (lists .ld).length + (lists .rd).length := by
  have hkeys : s.heap.keys = ((lists .ld).map Prod.fst ++ (lists .rd).map Prod.fst).toFinset := by
    ext a
    rw [Finmap.mem_keys, htight a, List.mem_toFinset, List.mem_append]
    constructor
    · rintro ⟨p, hp⟩
      cases p with
      | ld => exact .inl hp
      | rd => exact .inr hp
    · rintro (hp | hp)
      · exact ⟨.ld, hp⟩
      · exact ⟨.rd, hp⟩
  have hnodup : ((lists .ld).map Prod.fst ++ (lists .rd).map Prod.fst).Nodup := by
    rw [List.nodup_append]
    refine ⟨(hs.panel .ld).list.nodup, (hs.panel .rd).list.nodup, fun a ha b hb hab ↦ ?_⟩
    obtain ⟨x, hx, rfl⟩ := List.mem_map.mp ha
    obtain ⟨y, hy, rfl⟩ := List.mem_map.mp hb
    exact hs.disjoint .ld x hx y hy hab
  rw [hkeys, List.toFinset_card_of_nodup hnodup, List.length_append, List.length_map,
    List.length_map]

theorem PanelList.length_le {h : NodeHeap FileInfo} {di : DirInfo Dir} {l : List (ℕ × FileInfo)}
    (hl : PanelList h di l) : l.length ≤ di.answer.length - 1 := by
  rcases eq_or_ne l [] with rfl | hne
  · exact Nat.zero_le _
  · rw [(hl.names hne).length_eq, List.length_drop]

/-- **No node is lost.** Whatever keys are pressed and whatever the system calls answer, the heap
holds the nodes of the two lists and nothing else. In each panel there is none for the first of the
entries that `scandir` found. -/
theorem no_node_is_lost {env : Env Dir} {home pwd : Option (List UInt8)}
    {junk : Side → DirInfo Dir} {cwd : Dir} {s t : State Dir} {es : List (Event Dir)}
    (hstart : start env home pwd junk cwd = .ok s) (hrun : Run Step s es t) :
    (∃ lists, t.Holds lists ∧ (∀ a, a ∈ t.heap ↔ ∃ p, a ∈ (lists p).map Prod.fst)
        ∧ t.heap.keys.card = (lists .ld).length + (lists .rd).length)
      ∧ t.heap.keys.card
        ≤ ((t.panels .ld).answer.length - 1) + ((t.panels .rd).answer.length - 1) := by
  obtain ⟨lists, hs, htight⟩ : ∃ lists, t.Holds lists ∧ t.Tight lists := by
    refine hrun.invariant (I := fun s ↦ ∃ lists, s.Holds lists ∧ s.Tight lists) ?_
      (start_tight hstart)
    rintro s e t ⟨lists, hs, htight⟩ hstep
    exact htight.step hs hstep
  have hcard := htight.card_eq hs
  refine ⟨⟨lists, hs, htight, hcard⟩, ?_⟩
  rw [hcard]
  exact Nat.add_le_add (hs.panel .ld).length_le (hs.panel .rd).length_le

theorem no_node_is_lost_twice : ∃ s t,
    start Place.env (some Place.home.path) (some Place.long.path) Place.junk .home = .ok s
    ∧ Run Step s [⟨.f8, Place.env, true⟩, ⟨.right, Place.env, true⟩, ⟨.f8, Place.env, true⟩] t
    ∧ ∃ lists, t.Holds lists ∧ (∀ a, a ∈ t.heap ↔ ∃ p, a ∈ (lists p).map Prod.fst)
      ∧ t.heap.keys.card = (lists .ld).length + (lists .rd).length := by
  have hok : (start Place.env (some Place.home.path) (some Place.long.path) Place.junk
      .home >>= fun s ↦ execAll (fun s e ↦ handle e s) s
        [⟨.f8, Place.env, true⟩, ⟨.right, Place.env, true⟩, ⟨.f8, Place.env, true⟩]).isOk
        = true := by
    decide +kernel
  obtain ⟨t, ht⟩ := Except.exists_eq_ok_of_isOk hok
  obtain ⟨s, hs, hkeys⟩ := Except.bind_eq_ok_iff.mp ht
  have hrun := run_of_execAll hkeys
  exact ⟨s, t, hs, hrun, (no_node_is_lost hs hrun).1⟩

end FileManager

end AllProjects
