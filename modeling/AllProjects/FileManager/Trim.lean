import AllProjects.FileManager.CopyStatus
import AllProjects.FileManager.Paths

/-!
# Blanks around a field

`trim` counts the blanks at both ends of a string with one variable, `length`: the first loop goes
back from the end of the string, the second forward from its start, and both decrease it. The first
has no bound. On a string of blanks it goes on in front of the string, down to some byte that is
not a blank, and the second then takes the length below zero.

Memory is cut at the pointer: `before` are the bytes in front of the string, the nearest first, and
`bytes` those from its start on. Where a list ends, nothing may be read. So a run that reads nothing
but the string and its NUL is one that succeeds in a memory that has nothing else.
-/

namespace AllProjects

namespace FileManager

/-! ## The function in memory -/

/-- The bytes from `spaced[length - 1]` down. -/
def bytesBelow (before bytes : List UInt8) (length : ℤ) : List UInt8 :=
  if 0 ≤ length then (bytes.take length.toNat).reverse ++ before else before.drop (-length).toNat

/-- `while (isspace(spaced[length - 1])) --length;` -/
def trimEnd : List UInt8 → ℤ → Except Fault ℤ
  | [], _ => .error .segv
  | b :: below, length => if isspace b then trimEnd below (length - 1) else .ok length

/-- `while (*spaced && isspace(*spaced)) ++spaced, --length;` -/
def trimStart : List UInt8 → ℤ → Except Fault (List UInt8 × ℤ)
  | [], _ => .error .segv
  | b :: bytes, length =>
    if b ≠ 0 ∧ isspace b then trimStart bytes (length - 1) else .ok (b :: bytes, length)

/-- `trim`, on a string in memory. The length is converted to an `int` in the beginning, and to a
`size_t` in the end. -/
def trimAt (before bytes : List UInt8) : Except Fault (List UInt8) := do
  let length ← strlen bytes
  let length ← trimEnd (bytesBelow before bytes (toInt length)) (toInt length)
  let (spaced, length) ← trimStart bytes length
  strndup spaced (length % 2 ^ 64).toNat

/-! ## What it is for -/

/-- The string without the blanks at its ends. -/
def trimmed (s : List UInt8) : List UInt8 := (s.rdropWhile isspace).dropWhile isspace

/-- **What `trim` should do with a string**: drop the blanks at its ends, read nothing in front of
the string or behind its NUL, and drop nothing the second time. -/
structure MeetsSpec (s : List UInt8) : Prop where
  result : ∀ before behind, trimAt before (s ++ 0 :: behind) = .ok (trimmed s)
  reads : ∃ t, trimAt [] (s ++ [0]) = .ok t
  twice : ∀ before behind before' behind',
    (do
      let t ← trimAt before (s ++ 0 :: behind)
      trimAt before' (t ++ 0 :: behind')) = trimAt before (s ++ 0 :: behind)

/-- The bytes in front of the end that the first loop starts from: all of them in a string that is
shorter than `2 ^ 31`. -/
def counted (s : List UInt8) : List UInt8 := s.take (toInt s.length).toNat

/-- The bytes that are not counted. -/
def uncounted (s : List UInt8) : List UInt8 := s.drop (toInt s.length).toNat

/-! ## The loops -/

section

variable {s t before behind : List UInt8} {b : UInt8}

theorem exists_of_ne_nil (h : s.rdropWhile isspace ≠ []) :
    ∃ b ∈ s.rdropWhile isspace, isspace b = false :=
  ⟨_, List.getLast_mem h, Bool.eq_false_of_not_eq_true (List.rdropWhile_last_not _ _ h)⟩

theorem rdropWhile_ne_nil_iff : s.rdropWhile isspace ≠ [] ↔ ∃ b ∈ s, isspace b = false := by
  rw [Ne, List.rdropWhile_eq_nil_iff]
  push Not
  simp only [Bool.not_eq_true]

theorem dropWhile_ne_nil (h : ∃ b ∈ s, isspace b = false) : s.dropWhile isspace ≠ [] := by
  obtain ⟨b, hb, hspace⟩ := h
  intro hnil
  rw [List.dropWhile_eq_nil_iff.mp hnil b hb] at hspace
  cases hspace

theorem dropWhile_append_of_exists (h : ∃ b ∈ s, isspace b = false) (t : List UInt8) :
    (s ++ t).dropWhile isspace = s.dropWhile isspace ++ t := by
  rw [List.dropWhile_append, if_neg]
  rw [List.isEmpty_iff]
  exact dropWhile_ne_nil h

theorem length_takeWhile_add (s : List UInt8) :
    (s.takeWhile isspace).length + (s.dropWhile isspace).length = s.length := by
  rw [← List.length_append, List.takeWhile_append_dropWhile]

theorem takeWhile_append_of_exists (h : ∃ b ∈ s, isspace b = false) (t : List UInt8) :
    (s ++ t).takeWhile isspace = s.takeWhile isspace := by
  rw [List.takeWhile_append, if_neg]
  have hlen := length_takeWhile_add s
  have hpos := List.length_pos_of_ne_nil (dropWhile_ne_nil h)
  omega

theorem trimEnd_eq_error (h : ∀ b ∈ s, isspace b = true) (length : ℤ) :
    trimEnd s length = .error .segv := by
  induction s generalizing length with
  | nil => rfl
  | cons b s ih =>
    rw [trimEnd, if_pos (h b List.mem_cons_self)]
    exact ih (fun c hc ↦ h c (List.mem_cons_of_mem b hc)) _

/-- **The first loop** stops behind the last byte that is not a blank. -/
theorem trimEnd_eq_ok (h : ∃ b ∈ s, isspace b = false) (length : ℤ) :
    trimEnd s length = .ok (length - (s.takeWhile isspace).length) := by
  induction s generalizing length with
  | nil =>
    obtain ⟨b, hb, -⟩ := h
    exact absurd hb List.not_mem_nil
  | cons b s ih =>
    by_cases hb : isspace b = true
    · obtain ⟨c, hc, hspace⟩ := h
      obtain rfl | hc := List.mem_cons.mp hc
      · rw [hb] at hspace
        cases hspace
      · rw [trimEnd, if_pos hb, ih ⟨c, hc, hspace⟩, List.takeWhile_cons_of_pos hb, List.length_cons]
        congr 1
        push_cast
        ring
    · rw [trimEnd, if_neg hb, List.takeWhile_cons_of_neg hb, List.length_nil, Nat.cast_zero,
        sub_zero]

/-- **The second loop** stops at the first byte that is not a blank, or at the NUL. -/
theorem trimStart_eq (h0 : 0 ∉ s) (length : ℤ) :
    trimStart (s ++ 0 :: behind) length
      = .ok (s.dropWhile isspace ++ 0 :: behind, length - (s.takeWhile isspace).length) := by
  induction s generalizing length with
  | nil =>
    rw [List.dropWhile_nil, List.takeWhile_nil, List.length_nil, Nat.cast_zero, sub_zero]
    exact if_neg fun h ↦ h.1 rfl
  | cons b s ih =>
    obtain ⟨hb, h0⟩ := not_or.mp (mt List.mem_cons.mpr h0)
    rw [List.cons_append, trimStart]
    by_cases hspace : isspace b = true
    · rw [if_pos ⟨Ne.symm hb, hspace⟩, ih h0, List.dropWhile_cons_of_pos hspace,
        List.takeWhile_cons_of_pos hspace, List.length_cons]
      congr 2
      push_cast
      ring
    · rw [if_neg fun h ↦ hspace h.2, List.dropWhile_cons_of_neg hspace,
        List.takeWhile_cons_of_neg hspace, List.length_nil, Nat.cast_zero, sub_zero,
        List.cons_append]

/-! ## The length -/

theorem counted_append_uncounted (s : List UInt8) : counted s ++ uncounted s = s :=
  List.take_append_drop _ _

theorem length_counted (s : List UInt8) : (counted s).length = (toInt s.length).toNat := by
  rw [counted, List.length_take, toInt_natCast]
  split <;> omega

theorem counted_eq (h : s.length < 2 ^ 31) : counted s = s ∧ uncounted s = [] := by
  have hlen : (toInt s.length).toNat = s.length := by
    rw [toInt_eq] <;> omega
  rw [counted, uncounted, hlen]
  exact ⟨List.take_length, List.drop_length⟩

/-- With nothing counted, the first loop starts in front of the string. -/
theorem bytesBelow_eq (before behind : List UInt8) :
    bytesBelow before (s ++ behind) (toInt s.length) = (counted s).reverse ++ before
      ∨ counted s = [] ∧ ∃ k, bytesBelow before (s ++ behind) (toInt s.length) = before.drop k := by
  by_cases hlen : 0 ≤ toInt s.length
  · left
    have hle : (toInt s.length).toNat ≤ s.length := by
      rw [← length_counted, counted]
      exact List.length_take_le' _ _
    rw [bytesBelow, if_pos hlen, List.take_append_of_le_length hle, counted]
  · right
    refine ⟨?_, _, if_neg hlen⟩
    rw [counted, Int.toNat_of_nonpos (not_le.mp hlen).le, List.take_zero]

/-! ## Strings with something counted -/

theorem exists_append (s : List UInt8) : ∃ t, s = (counted s).rdropWhile isspace ++ t := by
  refine ⟨(counted s).rtakeWhile isspace ++ uncounted s, ?_⟩
  rw [← List.append_assoc, List.rdropWhile_append_rtakeWhile, counted_append_uncounted]

theorem trimEnd_counted (h : ∃ b ∈ counted s, isspace b = false) (before behind : List UInt8) :
    trimEnd (bytesBelow before (s ++ behind) (toInt s.length)) (toInt s.length)
      = .ok ((counted s).rdropWhile isspace).length := by
  have hrev : ∃ b ∈ (counted s).reverse, isspace b = false := by
    obtain ⟨b, hb, hspace⟩ := h
    exact ⟨b, List.mem_reverse.mpr hb, hspace⟩
  have hcut := length_takeWhile_add (counted s).reverse
  have hlen := length_counted s
  have hpos : 0 < (counted s).length := by
    obtain ⟨b, hb, -⟩ := h
    exact List.length_pos_of_mem hb
  obtain hbelow | ⟨hnil, -⟩ := bytesBelow_eq (s := s) before behind
  · have hall : ∃ b ∈ (counted s).reverse ++ before, isspace b = false := by
      obtain ⟨b, hb, hspace⟩ := hrev
      exact ⟨b, List.mem_append_left _ hb, hspace⟩
    have hcount : toInt s.length - ((counted s).reverse.takeWhile isspace).length
        = ((counted s).reverse.dropWhile isspace).length := by
      rw [List.length_reverse] at hcut
      omega
    rw [hbelow, trimEnd_eq_ok hall, takeWhile_append_of_exists hrev, hcount, List.rdropWhile,
      List.length_reverse]
  · rw [hnil] at hpos
    exact absurd hpos (lt_irrefl 0)

theorem trimmed_subset (s : List UInt8) : trimmed s ⊆ s := fun _ hb ↦
  (List.rdropWhile_prefix isspace s).subset ((List.dropWhile_suffix _).subset hb)

theorem length_trimmed_counted_lt (s : List UInt8) : (trimmed (counted s)).length < 2 ^ 31 := by
  have hle := (List.dropWhile_suffix isspace (l := (counted s).rdropWhile isspace)).length_le
  have hle' := (List.rdropWhile_prefix isspace (counted s)).length_le
  rw [length_counted, toInt_natCast] at hle'
  rw [trimmed]
  split at hle' <;> omega

/-- **The result** is what `trim` should make of the bytes that are counted. -/
theorem trimAt_eq_ok (h0 : 0 ∉ s) (h : ∃ b ∈ counted s, isspace b = false)
    (before behind : List UInt8) :
    trimAt before (s ++ 0 :: behind) = .ok (trimmed (counted s)) := by
  have hr := exists_of_ne_nil (rdropWhile_ne_nil_iff.mpr h)
  obtain ⟨t, ht⟩ := exists_append s
  have hdrop : s.dropWhile isspace = trimmed (counted s) ++ t := by
    conv_lhs => rw [ht]
    rw [dropWhile_append_of_exists hr, trimmed]
  have htake : s.takeWhile isspace = ((counted s).rdropWhile isspace).takeWhile isspace := by
    conv_lhs => rw [ht]
    rw [takeWhile_append_of_exists hr]
  have hcut := length_takeWhile_add ((counted s).rdropWhile isspace)
  have hlen := length_trimmed_counted_lt s
  have hcount : ((((counted s).rdropWhile isspace).length : ℤ) - (s.takeWhile isspace).length)
      = (trimmed (counted s)).length := by
    rw [htake, trimmed]
    omega
  have hmod : ((trimmed (counted s)).length : ℤ) % 2 ^ 64 = (trimmed (counted s)).length := by
    omega
  have hstring : cstring (s.dropWhile isspace ++ 0 :: behind) = some (s.dropWhile isspace) :=
    cstring_append_zero (fun hmem ↦ h0 ((List.dropWhile_suffix _).subset hmem)) _
  rw [trimAt, strlen_eq_ok (cstring_append_zero h0 behind), Except.ok_bind_eq, trimEnd_counted h,
    Except.ok_bind_eq, trimStart_eq h0, Except.ok_bind_eq, hcount]
  simp only
  rw [hmod, Int.toNat_natCast, strndup_eq_ok hstring, hdrop, List.take_left]

/-- **Nothing counted but blanks.** With nothing in front of the string the first loop fails. -/
theorem trimAt_eq_error (h0 : 0 ∉ s) (h : ∀ b ∈ counted s, isspace b = true)
    (behind : List UInt8) : trimAt [] (s ++ 0 :: behind) = .error .segv := by
  have hbelow : ∀ b ∈ bytesBelow [] (s ++ 0 :: behind) (toInt s.length), isspace b = true := by
    obtain hbelow | ⟨-, k, hbelow⟩ := bytesBelow_eq (s := s) [] (0 :: behind)
    · rw [hbelow, List.append_nil]
      exact fun b hb ↦ h b (List.mem_reverse.mp hb)
    · rw [hbelow, List.drop_nil]
      exact fun b hb ↦ absurd hb List.not_mem_nil
  rw [trimAt, strlen_eq_ok (cstring_append_zero h0 behind), Except.ok_bind_eq,
    trimEnd_eq_error hbelow, Except.error_bind_eq]

/-! ## The specification -/

/-- Nothing is lost when there are only blanks behind the bytes that are counted. -/
theorem trimmed_counted_iff (h : ∃ b ∈ counted s, isspace b = false) :
    trimmed (counted s) = trimmed s ↔ ∀ b ∈ uncounted s, isspace b = true := by
  have hsplit := counted_append_uncounted s
  constructor
  · intro heq
    by_contra hspace
    push Not at hspace
    obtain ⟨b, hb, hspace⟩ := hspace
    have hrest : (uncounted s).rdropWhile isspace ≠ [] :=
      rdropWhile_ne_nil_iff.mpr ⟨b, hb, Bool.eq_false_of_not_eq_true hspace⟩
    -- then the end of the string is the end of the other part
    have hend : s.rdropWhile isspace = counted s ++ (uncounted s).rdropWhile isspace := by
      conv_lhs => rw [← hsplit]
      have hrev : ∃ b ∈ (uncounted s).reverse, isspace b = false :=
        ⟨b, List.mem_reverse.mpr hb, Bool.eq_false_of_not_eq_true hspace⟩
      rw [List.rdropWhile, List.reverse_append, dropWhile_append_of_exists hrev,
        List.reverse_append, List.reverse_reverse, List.rdropWhile]
    have hr := exists_of_ne_nil (rdropWhile_ne_nil_iff.mpr h)
    have hlong : (trimmed (counted s)).length ≤ ((counted s).dropWhile isspace).length := by
      have hsuffix := List.rdropWhile_append_rtakeWhile (p := isspace) (l := counted s)
      conv_rhs => rw [← hsuffix, dropWhile_append_of_exists hr, List.length_append]
      exact Nat.le_add_right _ _
    rw [heq, trimmed, hend, dropWhile_append_of_exists h, List.length_append] at hlong
    have hpos := List.length_pos_of_ne_nil hrest
    omega
  · intro hspace
    rw [trimmed, trimmed, ← rdropWhile_append_of_all (counted s) hspace, hsplit]

theorem trimmed_trimmed (s : List UInt8) : trimmed (trimmed s) = trimmed s := by
  have hself : (trimmed s).rdropWhile isspace = trimmed s := by
    rw [List.rdropWhile_eq_self_iff]
    intro hne
    have hsuffix : trimmed s <:+ s.rdropWhile isspace := List.dropWhile_suffix _
    have hr : s.rdropWhile isspace ≠ [] := by
      intro hnil
      rw [hnil] at hsuffix
      exact hne (List.suffix_nil.mp hsuffix)
    rw [hsuffix.getLast hne]
    exact List.rdropWhile_last_not _ _ hr
  conv_lhs => rw [trimmed, hself]
  rw [trimmed, List.dropWhile_idempotent]

theorem exists_trimmed (h : ∃ b ∈ s, isspace b = false) : ∃ b ∈ trimmed s, isspace b = false := by
  have hne := dropWhile_ne_nil (exists_of_ne_nil (rdropWhile_ne_nil_iff.mpr h))
  refine ⟨_, List.head_mem hne, ?_⟩
  exact List.head_dropWhile_not _ hne

/-- **A string of blanks.** The first loop goes on in front of the string, to a byte that is not a
blank. The length is then zero or negative, and what is left is empty all the same. -/
theorem trimAt_of_blank (h0 : 0 ∉ s) (hlen : s.length < 2 ^ 31)
    (hspace : ∀ b ∈ s, isspace b = true) (before behind : List UInt8) :
    trimAt before (s ++ 0 :: behind)
      = if before.all isspace then .error .segv else .ok [] := by
  have hcounted := (counted_eq hlen).1
  have hbelow : bytesBelow before (s ++ 0 :: behind) (toInt s.length) = s.reverse ++ before := by
    obtain hbelow | ⟨hnil, -⟩ := bytesBelow_eq (s := s) before (0 :: behind)
    · rw [hbelow, hcounted]
    · rw [hcounted] at hnil
      subst hnil
      simp [bytesBelow, toInt]
  have hrev : ∀ b ∈ s.reverse, isspace b = true := fun b hb ↦ hspace b (List.mem_reverse.mp hb)
  rw [trimAt, strlen_eq_ok (cstring_append_zero h0 behind), Except.ok_bind_eq, hbelow]
  split
  · rename_i hall
    have hall : ∀ b ∈ s.reverse ++ before, isspace b = true :=
      List.forall_mem_append.mpr ⟨hrev, List.all_eq_true.mp hall⟩
    rw [trimEnd_eq_error hall, Except.error_bind_eq]
  · rename_i hall
    have hall : ∃ b ∈ s.reverse ++ before, isspace b = false := by
      rw [List.all_eq_true] at hall
      push Not at hall
      obtain ⟨b, hb, hne⟩ := hall
      exact ⟨b, List.mem_append_right _ hb, Bool.eq_false_of_not_eq_true hne⟩
    have hnil : s.dropWhile isspace = [] := List.dropWhile_eq_nil_iff.mpr hspace
    rw [trimEnd_eq_ok hall, Except.ok_bind_eq, trimStart_eq h0, Except.ok_bind_eq, hnil,
      List.nil_append]
    simp only
    rw [strndup_eq_ok (cstring_cons_zero behind), List.take_nil]

/-- In a memory of its own, `trim` is the function that the form was described with. -/
theorem trimAt_nil (h0 : 0 ∉ s) (hlen : s.length < 2 ^ 31) : trimAt [] (s ++ [0]) = trim s := by
  have hcounted := (counted_eq hlen).1
  rw [trim]
  split
  · rename_i hall
    rw [trimAt_of_blank h0 hlen (List.all_eq_true.mp hall)]
    rfl
  · rename_i hall
    rw [trimAt_eq_ok h0, hcounted, trimmed]
    rw [List.all_eq_true] at hall
    push Not at hall
    simp only [Bool.not_eq_true] at hall
    rw [hcounted]
    exact hall

/-- **`trim` meets its specification** exactly when there is a byte that is not a blank among those
it counts, and none among the others. -/
theorem meetsSpec_iff (h0 : 0 ∉ s) :
    MeetsSpec s ↔ (∃ b ∈ counted s, isspace b = false) ∧ ∀ b ∈ uncounted s, isspace b = true := by
  constructor
  · intro hmeets
    have hcounted : ∃ b ∈ counted s, isspace b = false := by
      by_contra hspace
      push Not at hspace
      obtain ⟨t, ht⟩ := hmeets.reads
      rw [trimAt_eq_error h0 fun b hb ↦ Bool.eq_true_of_not_eq_false (hspace b hb)] at ht
      cases ht
    refine ⟨hcounted, (trimmed_counted_iff hcounted).mp ?_⟩
    have hresult := hmeets.result [] []
    rw [trimAt_eq_ok h0 hcounted] at hresult
    exact Except.ok.inj hresult
  · rintro ⟨hcounted, hspace⟩
    have hall := (trimmed_counted_iff hcounted).mpr hspace
    have hresult : ∀ before behind, trimAt before (s ++ 0 :: behind) = .ok (trimmed s) := by
      intro before behind
      rw [trimAt_eq_ok h0 hcounted, hall]
    have hagain : counted (trimmed s) = trimmed s := by
      rw [← hall]
      exact (counted_eq (length_trimmed_counted_lt s)).1
    constructor
    · exact hresult
    · exact ⟨_, hresult [] []⟩
    · intro before behind before' behind'
      have hsome : ∃ b ∈ counted (trimmed s), isspace b = false := by
        rw [hagain, ← hall]
        exact exists_trimmed hcounted
      rw [hresult, Except.ok_bind_eq, trimAt_eq_ok (fun hmem ↦ h0 (trimmed_subset s hmem)) hsome,
        hagain, trimmed_trimmed]

/-- For strings whose length is an `int`, one byte that is not a blank is enough. -/
theorem meetsSpec_iff_of_length_lt (h0 : 0 ∉ s) (hlen : s.length < 2 ^ 31) :
    MeetsSpec s ↔ ∃ b ∈ s, isspace b = false := by
  obtain ⟨hcounted, huncounted⟩ := counted_eq hlen
  rw [meetsSpec_iff h0, hcounted, huncounted]
  exact and_iff_left fun b hb ↦ absurd hb List.not_mem_nil

end

/-- A letter between two blanks. -/
theorem meetsSpec_letter : MeetsSpec [32, 97, 32] := by
  obtain ⟨hcounted, huncounted⟩ := counted_eq (s := [32, 97, 32]) (by simp)
  rw [meetsSpec_iff (by decide), hcounted, huncounted]
  exact ⟨⟨97, by simp, by decide⟩, by simp⟩

/-- **A cleared field** with its one column. -/
theorem blank_not_meetsSpec : ¬∀ s : List UInt8, 0 ∉ s → MeetsSpec s := by
  intro hall
  obtain ⟨t, ht⟩ := (hall [32] (by decide)).reads
  cases ht

end FileManager

end AllProjects
