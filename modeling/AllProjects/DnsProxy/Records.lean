import AllProjects.SearchTree.RbTree
import AllProjects.Transition.Run
import AllProjects.DnsProxy.Packet

/-!
# The record tree

The cache is a red-black tree of records, searched and extended with `strcmp` on the record names.
The kernel's part in it is `rb_insert_color`, which is a parameter: all that is known of it is that
it rotates and recolours, so the in-order sequence stays.

A record's name is a field of 256 bytes, and nothing forces a NUL into it. The string functions
read on through `addr` and `ttl`, and fault behind the record. `DnsRecord.image` is what they see.
As long as every record holds a string, `strcmp` is a linear order and the tree is a finite map.
-/

namespace AllProjects

namespace DnsProxy

/-- `MAX_HOSTNAME_SIZE`. -/
def maxHostnameSize : ℕ := 256

/-- The fixed-size field for a name. -/
abbrev NameField := { bytes : List UInt8 // bytes.length = maxHostnameSize }

/-- A cached record, without its tree links. -/
structure DnsRecord where
  name : NameField
  addr : UInt32
  ttl : UInt32
  deriving DecidableEq

/-- The bytes of a 32-bit number in memory. -/
def bytesOf (v : UInt32) : List UInt8 := (Mem.store (fun _ ↦ 0) 0 4 v.toNat).slice 0 4

theorem bytesOf_load (m : Mem) (a : ℕ) : bytesOf (UInt32.ofNat (m.load a 4)) = m.slice a 4 := by
  have hlt : m.load a 4 < 2 ^ 32 := Mem.load_lt m a 4
  rw [bytesOf, UInt32.toNat_ofNat', Nat.mod_eq_of_lt hlt]
  exact Mem.slice_store_load m _ a 0 4

namespace DnsRecord

/-- The bytes of a record from its name on. -/
def image (r : DnsRecord) : List UInt8 := r.name.val ++ bytesOf r.addr ++ bytesOf r.ttl

/-- The record holds the string `n`. -/
def Named (r : DnsRecord) (n : List UInt8) : Prop := cstring r.image = some n

instance (r : DnsRecord) (n : List UInt8) : Decidable (r.Named n) :=
  inferInstanceAs (Decidable (cstring r.image = some n))

/-- The record's string as an element of a linear order. -/
def key (r : DnsRecord) : List ℕ := cstringKey ((cstring r.image).getD [])

theorem key_of_named {r : DnsRecord} {n : List UInt8} (h : r.Named n) : r.key = cstringKey n := by
  rw [key, h]
  rfl

theorem named_of_cstring {r : DnsRecord} {n : List UInt8} (h : cstring r.name.val = some n) :
    r.Named n := by
  rw [Named, image, List.append_assoc]
  exact cstring_append h _

theorem length_lt_of_named {r : DnsRecord} {n : List UInt8} (h : r.Named n) : n.length < 264 := by
  have himage : r.image.length = 264 := by
    rw [image, List.length_append, List.length_append, r.name.property]
    rfl
  rw [← himage]
  exact length_lt_of_cstring h

end DnsRecord

/-- `strncpy` into the name field of a record. -/
def strncpyName (src : List UInt8) : Except Fault NameField :=
  match h : strncpy maxHostnameSize src with
  | .ok bytes => .ok ⟨bytes, length_of_strncpy h⟩
  | .error e => .error e

theorem strncpyName_eq_ok {src : List UInt8} {bytes : NameField} :
    strncpyName src = .ok bytes ↔ strncpy maxHostnameSize src = .ok bytes.val := by
  rw [strncpyName]
  split
  · rename_i out h
    rw [Except.ok.injEq, Subtype.ext_iff]
    exact ⟨fun heq ↦ h.trans (congrArg Except.ok heq), fun hb ↦ Except.ok.inj (h.symm.trans hb)⟩
  · rename_i e h
    exact ⟨fun hb ↦ (by cases hb), fun hb ↦ (by cases h.symm.trans hb)⟩

/-! ## The kernel -/

/-- The kernel functions that the module calls. `rbInsertColor` gets the tree with the new red leaf
and the path to it; `ipFastCsum` gets the IP header and its length in words. -/
structure Kernel where
  rbInsertColor : RbTree DnsRecord → List Dir → RbTree DnsRecord
  inorder_rbInsertColor : ∀ t path, (rbInsertColor t path).inorder = t.inorder
  ipFastCsum : Mem → ℕ → ℕ

/-- The sum of the first `n` 16-bit words, with the carries folded in. -/
def foldedSum (m : Mem) : ℕ → ℕ
  | 0 => 0
  | n + 1 => (foldedSum m n + m.load (2 * n) 2) % 0xffff

/-- A kernel for trees of at most two nodes, where the repair only paints the root. -/
def Kernel.small : Kernel where
  rbInsertColor := fun t path ↦
    match path, t with
    | [], .node _ left data right => .node .black left data right
    | _, t => t
  inorder_rbInsertColor := fun t path ↦ by
    cases path <;> cases t <;> rfl
  ipFastCsum := fun m ihl ↦ 0xffff - foldedSum m (2 * ihl)

/-! ## `search_dr` and `insert_dr` -/

/-- `search_dr`. -/
def searchDr (root : RbTree DnsRecord) (name : List UInt8) : Except Fault (Option DnsRecord) :=
  root.search fun data ↦ strcmp name data.image

/-- `insert_dr`: the returned number and the tree. -/
def insertDr (k : Kernel) (root : RbTree DnsRecord) (data : DnsRecord) :
    Except Fault (ℕ × RbTree DnsRecord) := do
  match ← root.linkPath fun this ↦ strcmp data.image this.image with
  | none => return (0, root)
  | some path => return (1, k.rbInsertColor (root.link data path) path)

theorem searchDr_congr {bs bs' n : List UInt8} (h : cstring bs = some n) (h' : cstring bs' = some n)
    (root : RbTree DnsRecord) : searchDr root bs = searchDr root bs' := by
  rw [searchDr, searchDr]
  congr 1
  funext data
  exact strcmp_congr h h' data.image

/-- What a search finds holds the string that was looked for, whatever else is in the tree. -/
theorem named_of_searchDr {root : RbTree DnsRecord} {bs n : List UInt8} {r : DnsRecord}
    (hn : cstring bs = some n) (h : searchDr root bs = .ok (some r)) : r.Named n :=
  cstring_eq_of_strcmp hn (RbTree.search_eq_some h).2

/-- An insertion adds nothing but its record, whatever else is in the tree. -/
theorem mem_of_insertDr {k : Kernel} {root : RbTree DnsRecord} {data r : DnsRecord}
    {result : ℕ × RbTree DnsRecord} (h : insertDr k root data = .ok result)
    (hr : r ∈ result.2.inorder) : r = data ∨ r ∈ root.inorder := by
  rw [insertDr] at h
  obtain ⟨path, hpath, h⟩ := Except.bind_eq_ok_iff.mp h
  cases path with
  | none =>
    cases h
    exact Or.inr hr
  | some path =>
    cases h
    refine (RbTree.mem_inorder_link : r ∈ (root.link data path).inorder → _) ?_
    rwa [← k.inorder_rbInsertColor _ path]

/-- A tree whose records all hold strings, in increasing order. -/
structure Ordered (root : RbTree DnsRecord) : Prop where
  named : ∀ r ∈ root.inorder, ∃ n, r.Named n
  sorted : root.Sorted DnsRecord.key

theorem ordered_nil : Ordered .nil := ⟨fun _ hr ↦ absurd hr List.not_mem_nil, RbTree.sorted_nil⟩

namespace Ordered

variable {root : RbTree DnsRecord} (h : Ordered root)

include h

theorem compares {bs n : List UInt8} (hn : cstring bs = some n) :
    ∀ r ∈ root.inorder,
      RbTree.Compares (fun data ↦ strcmp bs data.image) DnsRecord.key (cstringKey n) r := by
  intro r hr
  obtain ⟨t, ht⟩ := h.named r hr
  refine ⟨_, strcmp_eq_ok hn ht, ?_, ?_⟩
  · rw [orderSign_neg_iff, DnsRecord.key_of_named ht]
  · rw [orderSign_pos_iff, DnsRecord.key_of_named ht]

theorem key_eq_iff {r : DnsRecord} (hr : r ∈ root.inorder) (n : List UInt8) :
    r.key = cstringKey n ↔ r.Named n := by
  obtain ⟨t, ht⟩ := h.named r hr
  rw [DnsRecord.key_of_named ht, cstringKey_injective.eq_iff, DnsRecord.Named, ht, Option.some_inj]

/-- **Search is lookup.** -/
theorem searchDr_eq {bs n : List UInt8} (hn : cstring bs = some n) :
    searchDr root bs = .ok (root.inorder.find? fun r ↦ r.Named n) := by
  rw [searchDr, RbTree.search_eq h.sorted (h.compares hn)]
  congr 1
  refine List.find?_congr fun r hr ↦ ?_
  rw [decide_eq_decide]
  exact h.key_eq_iff hr n

theorem insertDr_of_mem (k : Kernel) {data r : DnsRecord} {n : List UInt8} (hdata : data.Named n)
    (hr : r ∈ root.inorder) (hn : r.Named n) : insertDr k root data = .ok (0, root) := by
  rw [insertDr, RbTree.linkPath_eq_none h.sorted (h.compares hdata)
    ⟨r, hr, (h.key_eq_iff hr n).mpr hn⟩]
  rfl

/-- **A record with a new name is inserted**, and a lookup finds it behind what it found before. -/
theorem insertDr_of_not_mem (k : Kernel) {data : DnsRecord} {n : List UInt8}
    (hdata : data.Named n) (hnew : ∀ r ∈ root.inorder, ¬r.Named n) :
    ∃ root' pre post, insertDr k root data = .ok (1, root') ∧ Ordered root' ∧
      root.inorder = pre ++ post ∧ root'.inorder = pre ++ data :: post ∧
      ∀ m, root'.inorder.find? (fun r ↦ r.Named m)
        = (root.inorder.find? fun r ↦ r.Named m).or (if data.Named m then some data else none) := by
  obtain ⟨path, pre, post, hpath, hsplit, hlink, hpre, hpost⟩ :=
    RbTree.exists_linkPath h.sorted (h.compares hdata)
      (fun r hr ↦ mt (h.key_eq_iff hr n).mp (hnew r hr)) data
  have hinorder : (k.rbInsertColor (root.link data path) path).inorder = pre ++ data :: post :=
    (k.inorder_rbInsertColor _ _).trans hlink
  have hmem : ∀ r, r ∈ pre ++ data :: post ↔ r = data ∨ r ∈ root.inorder := by
    intro r
    rw [hsplit, List.mem_append, List.mem_append, List.mem_cons]
    tauto
  rw [← DnsRecord.key_of_named hdata] at hpre hpost
  have hordered : Ordered (k.rbInsertColor (root.link data path) path) := by
    constructor
    · intro r hr
      rw [hinorder] at hr
      rcases (hmem r).mp hr with rfl | hr
      · exact ⟨n, hdata⟩
      · exact h.named r hr
    · have hsorted := h.sorted
      rw [RbTree.Sorted, hsplit] at hsorted
      rw [RbTree.Sorted, hinorder]
      exact RbTree.pairwise_insert hsorted hpre hpost
  refine ⟨_, pre, post, by rw [insertDr, hpath]; rfl, hordered, hsplit, hinorder, fun m ↦ ?_⟩
  -- looking a name up is looking its key up
  have hdata' : data.key = cstringKey m ↔ data.Named m :=
    hordered.key_eq_iff (by rw [hinorder]; exact (hmem data).mpr (Or.inl rfl)) m
  rw [hinorder, hsplit]
  refine (List.find?_congr fun r hr ↦ ?_).trans
    ((RbTree.find?_insert hpre hpost (cstringKey m)).trans ?_)
  · rw [decide_eq_decide]
    exact (hordered.key_eq_iff (hinorder ▸ hr) m).symm
  · congr 1
    · refine List.find?_congr fun r hr ↦ ?_
      rw [decide_eq_decide]
      exact h.key_eq_iff (hsplit ▸ hr) m
    · by_cases hm : data.Named m
      · rw [if_pos hm, if_pos (hdata'.mpr hm)]
      · rw [if_neg hm, if_neg (mt hdata'.mp hm)]

end Ordered

theorem ordered_node {c : Color} {r : DnsRecord} {n : List UInt8} (h : r.Named n) :
    Ordered (.node c .nil r .nil) := by
  constructor
  · intro r' hr'
    obtain rfl := List.mem_singleton.mp hr'
    exact ⟨n, h⟩
  · exact List.pairwise_singleton _ _

theorem searchDr_node {c : Color} {r : DnsRecord} {bs n : List UInt8} (h : r.Named n)
    (hbs : cstring bs = some n) : searchDr (.node c .nil r .nil) bs = .ok (some r) := by
  rw [(ordered_node h).searchDr_eq hbs]
  exact congrArg Except.ok (List.find?_cons_of_pos (decide_eq_true h))

/-! ## Sequences of insertions -/

/-- An insertion whose returned number is not looked at, as in the reply hook. -/
def insertStep (k : Kernel) (root : RbTree DnsRecord) (data : DnsRecord) :
    Except Fault (RbTree DnsRecord) :=
  (insertDr k root data).map Prod.snd

theorem Ordered.exists_insertStep {root : RbTree DnsRecord} (h : Ordered root) (k : Kernel)
    {data : DnsRecord} {n : List UInt8} (hdata : data.Named n) :
    ∃ root', insertStep k root data = .ok root' ∧ Ordered root' ∧
      (∀ r ∈ root'.inorder, r = data ∨ r ∈ root.inorder) ∧
      ∀ m, root'.inorder.find? (fun r ↦ r.Named m)
        = (root.inorder.find? fun r ↦ r.Named m).or (if data.Named m then some data else none) := by
  by_cases hnew : ∀ r ∈ root.inorder, ¬r.Named n
  · obtain ⟨root', pre, post, hins, hordered, -, -, hfind⟩ := h.insertDr_of_not_mem k hdata hnew
    exact ⟨root', by rw [insertStep, hins]; rfl, hordered, fun r ↦ mem_of_insertDr hins, hfind⟩
  · simp only [not_forall, not_not] at hnew
    obtain ⟨r, hr, hn⟩ := hnew
    refine ⟨root, by rw [insertStep, h.insertDr_of_mem k hdata hr hn]; rfl, h,
      fun r hr ↦ Or.inr hr, fun m ↦ ?_⟩
    by_cases hm : data.Named m
    · -- the lookup already found a record
      have hnm : n = m := Option.some_inj.mp (hdata.symm.trans hm)
      have hsome : (root.inorder.find? fun r ↦ r.Named m).isSome := by
        rw [List.find?_isSome]
        exact ⟨r, hr, by simpa [hnm] using hn⟩
      rw [Option.or_of_isSome hsome]
    · rw [if_neg hm, Option.or_none]

/-- A sequence of insertions completes, and adds to every lookup the first insertion of the name. -/
theorem Ordered.exists_insertAll (k : Kernel) {rs : List DnsRecord}
    (hnames : ∀ r ∈ rs, ∃ n, r.Named n) {root : RbTree DnsRecord} (h : Ordered root) :
    ∃ root', execAll (insertStep k) root rs = .ok root' ∧ Ordered root' ∧
      (∀ r ∈ root'.inorder, r ∈ rs ∨ r ∈ root.inorder) ∧
      ∀ m, root'.inorder.find? (fun r ↦ r.Named m)
        = (root.inorder.find? fun r ↦ r.Named m).or (rs.find? fun r ↦ r.Named m) := by
  induction rs generalizing root with
  | nil => exact ⟨root, rfl, h, fun r hr ↦ Or.inr hr, fun m ↦ by simp⟩
  | cons data rs ih =>
    obtain ⟨n, hn⟩ := hnames data List.mem_cons_self
    obtain ⟨root₁, hstep, hordered, hmem, hfind⟩ := h.exists_insertStep k hn
    obtain ⟨root₂, hexec, hordered', hmem', hfind'⟩ :=
      ih (fun r hr ↦ hnames r (List.mem_cons_of_mem _ hr)) hordered
    refine ⟨root₂, by rw [execAll_cons, hstep]; exact hexec, hordered', fun r hr ↦ ?_, fun m ↦ ?_⟩
    · rcases hmem' r hr with hr | hr
      · exact Or.inl (List.mem_cons_of_mem _ hr)
      · rcases hmem r hr with rfl | hr
        · exact Or.inl List.mem_cons_self
        · exact Or.inr hr
    · rw [hfind', hfind, List.find?_cons, Option.or_assoc]
      congr 1
      by_cases hm : data.Named m
      · simp [hm]
      · simp [hm]

/-- **The record tree refines a finite map.** Insertions of NUL-terminated names into the empty tree
leave an in-order sequence that is strictly increasing under `strcmp`. A further insertion returns
1 exactly when no node has its name, and changes nothing otherwise. A search returns the first
insertion of its name. -/
theorem record_tree_refines_map (k : Kernel) {rs : List DnsRecord}
    (hnames : ∀ r ∈ rs, ∃ n, cstring r.name.val = some n) :
    ∃ root, execAll (insertStep k) .nil rs = .ok root ∧
      (root.inorder.Pairwise fun a b ↦ ∃ z, strcmp a.name.val b.name.val = .ok z ∧ z < 0) ∧
      (∀ data n, cstring data.name.val = some n →
        ∃ result root', insertDr k root data = .ok (result, root') ∧
          (result = 1 ↔ ∀ r ∈ root.inorder, cstring r.name.val ≠ some n) ∧
          (result ≠ 1 → result = 0 ∧ root' = root)) ∧
      ∀ bs n, cstring bs = some n →
        searchDr root bs = .ok (rs.find? fun r ↦ cstring r.name.val = some n) := by
  have hnamed : ∀ r ∈ rs, ∃ n, r.Named n := fun r hr ↦
    (hnames r hr).imp fun _ hn ↦ DnsRecord.named_of_cstring hn
  obtain ⟨root, hexec, hordered, hmem, hfind⟩ := ordered_nil.exists_insertAll k hnamed
  have hin : ∀ r ∈ root.inorder, r ∈ rs := fun r hr ↦
    (hmem r hr).resolve_right List.not_mem_nil
  -- inside their fields, names and records hold the same strings
  have hiff : ∀ r ∈ rs, ∀ n, r.Named n ↔ cstring r.name.val = some n := by
    intro r hr n
    obtain ⟨m, hm⟩ := hnames r hr
    rw [hm, DnsRecord.Named, DnsRecord.named_of_cstring hm]
  refine ⟨root, hexec, ?_, ?_, ?_⟩
  · have hsorted := List.pairwise_map.mp hordered.sorted
    refine hsorted.imp_of_mem fun {a b} ha hb hlt ↦ ?_
    obtain ⟨s, hs⟩ := hnames a (hin a ha)
    obtain ⟨t, ht⟩ := hnames b (hin b hb)
    refine ⟨_, strcmp_eq_ok hs ht, orderSign_neg_iff.mpr ?_⟩
    rw [← DnsRecord.key_of_named (DnsRecord.named_of_cstring hs),
      ← DnsRecord.key_of_named (DnsRecord.named_of_cstring ht)]
    exact hlt
  · intro data n hdata
    have hdata' := DnsRecord.named_of_cstring hdata
    by_cases hnew : ∀ r ∈ root.inorder, cstring r.name.val ≠ some n
    · obtain ⟨root', -, -, hins, -⟩ := hordered.insertDr_of_not_mem k hdata'
        fun r hr hn ↦ hnew r hr ((hiff r (hin r hr) n).mp hn)
      exact ⟨1, root', hins, by simpa using hnew, fun hne ↦ absurd rfl hne⟩
    · have hold := hnew
      simp only [not_forall, not_not] at hold
      obtain ⟨r, hr, hn⟩ := hold
      refine ⟨0, root, hordered.insertDr_of_mem k hdata' hr ((hiff r (hin r hr) n).mpr hn), ?_,
        fun _ ↦ ⟨rfl, rfl⟩⟩
      exact ⟨fun h ↦ absurd h (by decide), fun h ↦ absurd h hnew⟩
  · intro bs n hn
    rw [hordered.searchDr_eq hn, hfind n]
    simp only [RbTree.inorder_nil, List.find?_nil, Option.none_or]
    congr 1
    refine List.find?_congr fun r hr ↦ ?_
    rw [decide_eq_decide]
    exact hiff r hr n

/-- A record with a short name. -/
def shortRecord (name : List UInt8) (addr ttl : UInt32) : DnsRecord where
  name := ⟨(name ++ List.replicate maxHostnameSize 0).take maxHostnameSize, by
    rw [List.length_take, List.length_append, List.length_replicate]
    exact Nat.min_eq_left (Nat.le_add_left _ _)⟩
  addr := addr
  ttl := ttl

theorem record_tree_refines_map_two :
    ∃ root, execAll (insertStep Kernel.small) .nil
        [shortRecord [1, 98] 10 60, shortRecord [1, 97] 11 60] = .ok root ∧
      ∀ bs n, cstring bs = some n → searchDr root bs
        = .ok ([shortRecord [1, 98] 10 60, shortRecord [1, 97] 11 60].find? fun r ↦
            cstring r.name.val = some n) := by
  have hnames : ∀ r ∈ [shortRecord [1, 98] 10 60, shortRecord [1, 97] 11 60],
      ∃ n, cstring r.name.val = some n := by
    intro r hr
    rcases List.mem_pair.mp hr with rfl | rfl
    · exact ⟨[1, 98], by decide⟩
    · exact ⟨[1, 97], by decide⟩
  obtain ⟨root, hexec, -, -, hsearch⟩ := record_tree_refines_map Kernel.small hnames
  exact ⟨root, hexec, hsearch⟩

end DnsProxy

end AllProjects
