import AllProjects.Memory.Bytes

/-!
# Search trees by link

Insertion into a balanced tree, done in three steps: descend from the root to the empty link where
the element belongs, put a red leaf there, and let a rebalancing step repair the colours. The
descent and the search use the same three-way comparison, which may fault.

The rebalancing step is not fixed. All that is asked of it is that it keeps the in-order sequence,
so the theorems hold for every algorithm that only rotates and recolours. What they say is stated
about the in-order sequence alone: the search is `List.find?` on it, and an insertion puts one
element between the smaller and the greater ones.

Elements are ordered by a key in a linear order. A comparison with a fixed key is sound for an
element when its sign is that of the key against the element's.
-/

namespace AllProjects

/-- The colour of a node. -/
inductive Color
  | red
  | black
  deriving DecidableEq, Repr

/-- The link that a descent takes at a node. -/
inductive Dir
  | left
  | right
  deriving DecidableEq, Repr

/-- A binary tree with coloured nodes. -/
inductive RbTree (α : Type)
  | nil
  | node (color : Color) (left : RbTree α) (data : α) (right : RbTree α)
  deriving DecidableEq, Repr

namespace RbTree

variable {α : Type} {φ : Type} {κ : Type*} [LinearOrder κ]

/-- The elements from left to right. -/
def inorder : RbTree α → List α
  | nil => []
  | node _ left data right => left.inorder ++ data :: right.inorder

@[simp] theorem inorder_nil : (nil : RbTree α).inorder = [] := rfl

@[simp] theorem inorder_node (color : Color) (left : RbTree α) (data : α) (right : RbTree α) :
    (node color left data right).inorder = left.inorder ++ data :: right.inorder := rfl

/-- Search along a comparison: left when it is negative, right when it is positive. -/
def search (cmp : α → Except φ ℤ) : RbTree α → Except φ (Option α)
  | nil => .ok none
  | node _ left data right => do
    let result ← cmp data
    if result < 0 then left.search cmp
    else if 0 < result then right.search cmp
    else return some data

/-- The path to the empty link where an element with this comparison belongs, or nothing when an
equal element is met. -/
def linkPath (cmp : α → Except φ ℤ) : RbTree α → Except φ (Option (List Dir))
  | nil => .ok (some [])
  | node _ left data right => do
    let result ← cmp data
    if result < 0 then return (← left.linkPath cmp).map (Dir.left :: ·)
    else if 0 < result then return (← right.linkPath cmp).map (Dir.right :: ·)
    else return none

/-- Put a red leaf at the link that a path leads to. -/
def link (a : α) : List Dir → RbTree α → RbTree α
  | [], _ => node .red nil a nil
  | Dir.left :: path, node color left data right => node color (left.link a path) data right
  | Dir.right :: path, node color left data right => node color left data (right.link a path)
  | _ :: _, nil => nil

/-! ## Keys -/

/-- The keys increase from left to right. -/
def Sorted (key : α → κ) (t : RbTree α) : Prop := (t.inorder.map key).Pairwise (· < ·)

/-- The comparison tells on which side of `a` the key `k` lies. -/
def Compares (cmp : α → Except φ ℤ) (key : α → κ) (k : κ) (a : α) : Prop :=
  ∃ result, cmp a = .ok result ∧ (result < 0 ↔ k < key a) ∧ (0 < result ↔ key a < k)

variable {key : α → κ} {k : κ} {cmp : α → Except φ ℤ} {t : RbTree α}

theorem Compares.cases {a : α} (h : Compares cmp key k a) :
    ∃ result, cmp a = .ok result ∧
      ((result < 0 ∧ k < key a) ∨ (¬result < 0 ∧ 0 < result ∧ key a < k) ∨
        (¬result < 0 ∧ ¬0 < result ∧ key a = k)) := by
  obtain ⟨result, hcmp, hneg, hpos⟩ := h
  refine ⟨result, hcmp, ?_⟩
  rcases lt_trichotomy k (key a) with hlt | heq | hgt
  · exact Or.inl ⟨hneg.mpr hlt, hlt⟩
  · refine Or.inr (Or.inr ⟨?_, ?_, heq.symm⟩)
    · exact fun h ↦ (hneg.mp h).ne heq
    · exact fun h ↦ (hpos.mp h).ne heq.symm
  · exact Or.inr (Or.inl ⟨fun h ↦ (hneg.mp h).asymm hgt, hpos.mpr hgt, hgt⟩)

theorem sorted_nil : Sorted key (nil : RbTree α) := List.Pairwise.nil

theorem sorted_node {color : Color} {left right : RbTree α} {data : α} :
    Sorted key (node color left data right) ↔
      Sorted key left ∧ Sorted key right ∧ (∀ a ∈ left.inorder, key a < key data) ∧
        (∀ a ∈ right.inorder, key data < key a) ∧
        ∀ a ∈ left.inorder, ∀ b ∈ right.inorder, key a < key b := by
  simp only [Sorted, inorder_node, List.map_append, List.map_cons, List.pairwise_append,
    List.pairwise_cons, List.mem_map, List.mem_cons, forall_exists_index, and_imp,
    forall_apply_eq_imp_iff₂, forall_eq_or_imp]
  constructor
  · rintro ⟨hl, ⟨hdr, hr⟩, hlr⟩
    exact ⟨hl, hr, fun a ha ↦ (hlr a ha).1, hdr, fun a ha ↦ (hlr a ha).2⟩
  · rintro ⟨hl, hr, hld, hdr, hlr⟩
    exact ⟨hl, ⟨hdr, hr⟩, fun a ha ↦ ⟨hld a ha, hlr a ha⟩⟩

/-! ## Search -/

theorem find?_eq_none_of_ne {as : List α} (h : ∀ a ∈ as, key a ≠ k) :
    as.find? (fun a ↦ key a = k) = none :=
  List.find?_eq_none.mpr fun a ha ↦ by simpa using h a ha

/-- **Search finds what the sequence holds.** -/
theorem search_eq (hsorted : Sorted key t) (hcmp : ∀ a ∈ t.inorder, Compares cmp key k a) :
    t.search cmp = .ok (t.inorder.find? fun a ↦ key a = k) := by
  induction t with
  | nil => rfl
  | node color left data right ihl ihr =>
    obtain ⟨hl, hr, hld, hdr, -⟩ := sorted_node.mp hsorted
    simp only [inorder_node, List.mem_append, List.mem_cons] at hcmp
    obtain ⟨result, hresult, hcases⟩ := (hcmp data (Or.inr (Or.inl rfl))).cases
    rw [search, hresult, Except.ok_bind_eq, inorder_node, List.find?_append, List.find?_cons]
    rcases hcases with ⟨hneg, hlt⟩ | ⟨hneg, hpos, hgt⟩ | ⟨hneg, hpos, heq⟩
    · -- neither the node nor anything to its right has the key
      have hright := find?_eq_none_of_ne (k := k) fun a ha ↦ (hlt.trans (hdr a ha)).ne'
      rw [if_pos hneg, ihl hl fun a ha ↦ hcmp a (Or.inl ha), decide_eq_false hlt.ne', hright]
      simp
    · have hleft := find?_eq_none_of_ne (k := k) fun a ha ↦ ((hld a ha).trans hgt).ne
      rw [if_neg hneg, if_pos hpos, ihr hr fun a ha ↦ hcmp a (Or.inr (Or.inr ha)),
        decide_eq_false hgt.ne, hleft]
      simp
    · have hleft := find?_eq_none_of_ne (k := k) fun a ha ↦ ((hld a ha).trans_eq heq).ne
      rw [if_neg hneg, if_neg hpos, decide_eq_true heq, hleft]
      simp

/-- Whatever the order, what a search finds is in the tree and compares equal. -/
theorem search_eq_some {a : α} (h : t.search cmp = .ok (some a)) :
    a ∈ t.inorder ∧ cmp a = .ok 0 := by
  induction t with
  | nil => cases h
  | node color left data right ihl ihr =>
    rw [search] at h
    obtain ⟨result, hresult, h⟩ := Except.bind_eq_ok_iff.mp h
    rw [inorder_node, List.mem_append, List.mem_cons]
    by_cases hneg : result < 0
    · rw [if_pos hneg] at h
      exact ⟨Or.inl (ihl h).1, (ihl h).2⟩
    · by_cases hpos : 0 < result
      · rw [if_neg hneg, if_pos hpos] at h
        exact ⟨Or.inr (Or.inr (ihr h).1), (ihr h).2⟩
      · rw [if_neg hneg, if_neg hpos, Except.pure_eq_ok, Except.ok.injEq, Option.some_inj] at h
        have hzero : result = 0 := le_antisymm (not_lt.mp hpos) (not_lt.mp hneg)
        exact ⟨Or.inr (Or.inl h.symm), by rw [← h, hresult, hzero]⟩

/-! ## Insertion -/

/-- Whatever the path, a link adds nothing but the new element. -/
theorem mem_inorder_link {a b : α} {path : List Dir} {t : RbTree α}
    (h : b ∈ (t.link a path).inorder) : b = a ∨ b ∈ t.inorder := by
  induction path generalizing t with
  | nil => exact Or.inl (List.mem_singleton.mp h)
  | cons dir path ih =>
    cases t with
    | nil => cases dir <;> exact absurd h List.not_mem_nil
    | node color left data right =>
      cases dir with
      | left =>
        rw [link, inorder_node, List.mem_append] at h
        rw [inorder_node, List.mem_append]
        rcases h with h | h
        · exact (ih h).imp_right Or.inl
        · exact Or.inr (Or.inr h)
      | right =>
        rw [link, inorder_node, List.mem_append, List.mem_cons] at h
        rw [inorder_node, List.mem_append, List.mem_cons]
        rcases h with h | h | h
        · exact Or.inr (Or.inl h)
        · exact Or.inr (Or.inr (Or.inl h))
        · exact (ih h).imp_right fun hb ↦ Or.inr (Or.inr hb)

theorem linkPath_eq_none (hsorted : Sorted key t) (hcmp : ∀ a ∈ t.inorder, Compares cmp key k a)
    (hmem : ∃ a ∈ t.inorder, key a = k) : t.linkPath cmp = .ok none := by
  induction t with
  | nil =>
    obtain ⟨a, ha, -⟩ := hmem
    exact absurd ha List.not_mem_nil
  | node color left data right ihl ihr =>
    obtain ⟨hl, hr, hld, hdr, -⟩ := sorted_node.mp hsorted
    obtain ⟨b, hb, hbk⟩ := hmem
    simp only [inorder_node, List.mem_append, List.mem_cons] at hcmp hb
    obtain ⟨result, hresult, hcases⟩ := (hcmp data (Or.inr (Or.inl rfl))).cases
    rw [linkPath, hresult, Except.ok_bind_eq]
    rcases hcases with ⟨hneg, hlt⟩ | ⟨hneg, hpos, hgt⟩ | ⟨hneg, hpos, heq⟩
    · have hb' : b ∈ left.inorder := by
        rcases hb with hb | rfl | hb
        · exact hb
        · exact absurd hbk hlt.ne'
        · exact absurd hbk (hlt.trans (hdr b hb)).ne'
      rw [if_pos hneg, ihl hl (fun a ha ↦ hcmp a (Or.inl ha)) ⟨b, hb', hbk⟩]
      rfl
    · have hb' : b ∈ right.inorder := by
        rcases hb with hb | rfl | hb
        · exact absurd hbk ((hld b hb).trans hgt).ne
        · exact absurd hbk hgt.ne
        · exact hb
      rw [if_neg hneg, if_pos hpos, ihr hr (fun a ha ↦ hcmp a (Or.inr (Or.inr ha))) ⟨b, hb', hbk⟩]
      rfl
    · rw [if_neg hneg, if_neg hpos]
      rfl

/-- **A new key gets a link**, and the leaf put there stands between the smaller and the greater
elements. -/
theorem exists_linkPath (hsorted : Sorted key t) (hcmp : ∀ a ∈ t.inorder, Compares cmp key k a)
    (hnew : ∀ a ∈ t.inorder, key a ≠ k) (b : α) :
    ∃ path pre post, t.linkPath cmp = .ok (some path) ∧ t.inorder = pre ++ post ∧
      (t.link b path).inorder = pre ++ b :: post ∧ (∀ a ∈ pre, key a < k) ∧
      ∀ a ∈ post, k < key a := by
  induction t with
  | nil => exact ⟨[], [], [], rfl, rfl, rfl, by simp, by simp⟩
  | node color left data right ihl ihr =>
    obtain ⟨hl, hr, hld, hdr, -⟩ := sorted_node.mp hsorted
    simp only [inorder_node, List.mem_append, List.mem_cons] at hcmp hnew
    obtain ⟨result, hresult, hcases⟩ := (hcmp data (Or.inr (Or.inl rfl))).cases
    rw [linkPath, hresult, Except.ok_bind_eq]
    rcases hcases with ⟨hneg, hlt⟩ | ⟨hneg, hpos, hgt⟩ | ⟨hneg, hpos, heq⟩
    · obtain ⟨path, pre, post, hpath, hsplit, hlink, hpre, hpost⟩ :=
        ihl hl (fun a ha ↦ hcmp a (Or.inl ha)) fun a ha ↦ hnew a (Or.inl ha)
      refine ⟨Dir.left :: path, pre, post ++ data :: right.inorder, ?_, ?_, ?_, hpre, ?_⟩
      · rw [if_pos hneg, hpath]
        rfl
      · rw [inorder_node, hsplit, List.append_assoc]
      · rw [link, inorder_node, hlink, List.append_assoc, List.cons_append]
      · intro a ha
        rcases List.mem_append.mp ha with ha | ha
        · exact hpost a ha
        · rcases List.mem_cons.mp ha with rfl | ha
          · exact hlt
          · exact hlt.trans (hdr a ha)
    · obtain ⟨path, pre, post, hpath, hsplit, hlink, hpre, hpost⟩ :=
        ihr hr (fun a ha ↦ hcmp a (Or.inr (Or.inr ha))) fun a ha ↦ hnew a (Or.inr (Or.inr ha))
      refine ⟨Dir.right :: path, left.inorder ++ data :: pre, post, ?_, ?_, ?_, ?_, hpost⟩
      · rw [if_neg hneg, if_pos hpos, hpath]
        rfl
      · rw [inorder_node, hsplit, List.append_assoc, List.cons_append]
      · rw [link, inorder_node, hlink, List.append_assoc, List.cons_append]
      · intro a ha
        rcases List.mem_append.mp ha with ha | ha
        · exact (hld a ha).trans hgt
        · rcases List.mem_cons.mp ha with rfl | ha
          · exact hgt
          · exact hpre a ha
    · exact absurd heq (hnew data (Or.inr (Or.inl rfl)))

theorem pairwise_insert {pre post : List α} {b : α}
    (hsorted : ((pre ++ post).map key).Pairwise (· < ·))
    (hpre : ∀ a ∈ pre, key a < key b) (hpost : ∀ a ∈ post, key b < key a) :
    ((pre ++ b :: post).map key).Pairwise (· < ·) := by
  rw [List.map_append, List.pairwise_append] at hsorted
  obtain ⟨hl, hr, hlr⟩ := hsorted
  rw [List.map_append, List.map_cons, List.pairwise_append]
  refine ⟨hl, List.pairwise_cons.mpr ⟨?_, hr⟩, ?_⟩
  · intro x hx
    obtain ⟨a, ha, rfl⟩ := List.mem_map.mp hx
    exact hpost a ha
  · intro x hx y hy
    rcases List.mem_cons.mp hy with rfl | hy
    · obtain ⟨a, ha, rfl⟩ := List.mem_map.mp hx
      exact hpre a ha
    · exact hlr x hx y hy

theorem find?_insert {pre post : List α} {b : α} (hpre : ∀ a ∈ pre, key a < key b)
    (hpost : ∀ a ∈ post, key b < key a) (k : κ) :
    (pre ++ b :: post).find? (fun a ↦ key a = k)
      = ((pre ++ post).find? fun a ↦ key a = k).or (if key b = k then some b else none) := by
  by_cases hk : key b = k
  · have hnone : (pre ++ post).find? (fun a ↦ key a = k) = none := by
      refine find?_eq_none_of_ne fun a ha ↦ ?_
      rcases List.mem_append.mp ha with ha | ha
      · exact ((hpre a ha).trans_eq hk).ne
      · exact (hk.symm.trans_lt (hpost a ha)).ne'
    rw [List.find?_append, Option.or_eq_none_iff] at hnone
    rw [List.find?_append, List.find?_append, hnone.1, hnone.2,
      List.find?_cons_of_pos (by simpa using hk), if_pos hk]
    rfl
  · rw [List.find?_append, List.find?_append, List.find?_cons_of_neg (by simpa using hk), if_neg hk]
    simp

end RbTree

end AllProjects
