import AllProjects.Memory.Bytes

/-!
# C strings

The string functions of the C library, over the list of bytes that are accessible from a pointer
on. A list that runs out before its first NUL is an object read past its end, which is a fault;
nothing is assumed about the bytes behind it.

The string at the head of a list is a partial function of the list, `cstring`. Everything else is
described through it: `strlen` is its length, `strncpy` and `strndup` copy as much of it as fits,
and `strcmp` is the lexicographic comparison of the strings as lists of unsigned numbers. The last
fact is what lets a search structure keyed by `strcmp` be reasoned about as one keyed by a linear
order.
-/

namespace AllProjects

/-! ## The string at a pointer -/

/-- The bytes before the first NUL, when there is one. -/
def cstring : List UInt8 → Option (List UInt8)
  | [] => none
  | b :: bs => if b = 0 then some [] else (cstring bs).map (b :: ·)

theorem cstring_cons_zero (bs : List UInt8) : cstring (0 :: bs) = some [] := rfl

theorem cstring_cons_of_ne {b : UInt8} (h : b ≠ 0) (bs : List UInt8) :
    cstring (b :: bs) = (cstring bs).map (b :: ·) := if_neg h

theorem cstring_cons_eq_some {b : UInt8} {bs s : List UInt8} (h : b ≠ 0) :
    cstring (b :: bs) = some s ↔ ∃ t, cstring bs = some t ∧ s = b :: t := by
  rw [cstring_cons_of_ne h, Option.map_eq_some_iff]
  exact exists_congr fun t ↦ and_congr_right fun _ ↦ eq_comm

/-- The shape of a list that holds a string: the string, its NUL, and whatever follows. -/
theorem cstring_eq_some_iff {bs s : List UInt8} :
    cstring bs = some s ↔ 0 ∉ s ∧ ∃ rest, bs = s ++ 0 :: rest := by
  induction bs generalizing s with
  | nil => simp [cstring]
  | cons b bs ih =>
    by_cases hb : b = 0
    · subst hb
      rw [cstring_cons_zero, Option.some_inj]
      constructor
      · rintro rfl
        exact ⟨by simp, bs, rfl⟩
      · rintro ⟨hs, rest, hrest⟩
        cases s with
        | nil => rfl
        | cons c s =>
          rw [List.cons_append, List.cons.injEq] at hrest
          exact absurd (List.mem_cons.mpr (Or.inl hrest.1)) hs
    · rw [cstring_cons_eq_some hb]
      constructor
      · rintro ⟨t, ht, rfl⟩
        obtain ⟨h0, rest, rfl⟩ := ih.mp ht
        exact ⟨by simp [Ne.symm hb, h0], rest, rfl⟩
      · rintro ⟨hs, rest, hrest⟩
        cases s with
        | nil =>
          rw [List.nil_append, List.cons.injEq] at hrest
          exact absurd hrest.1 hb
        | cons c s =>
          rw [List.cons_append, List.cons.injEq] at hrest
          obtain ⟨rfl, hrest⟩ := hrest
          exact ⟨s, ih.mpr ⟨fun h ↦ hs (List.mem_cons_of_mem _ h), rest, hrest⟩, rfl⟩

theorem cstring_append_zero {s : List UInt8} (h : 0 ∉ s) (rest : List UInt8) :
    cstring (s ++ 0 :: rest) = some s :=
  cstring_eq_some_iff.mpr ⟨h, rest, rfl⟩

theorem zero_not_mem_of_cstring {bs s : List UInt8} (h : cstring bs = some s) : 0 ∉ s :=
  (cstring_eq_some_iff.mp h).1

theorem exists_cstring_iff {bs : List UInt8} : (∃ s, cstring bs = some s) ↔ 0 ∈ bs := by
  induction bs with
  | nil => simp [cstring]
  | cons b bs ih =>
    by_cases hb : b = 0
    · subst hb
      exact ⟨fun _ ↦ List.mem_cons_self, fun _ ↦ ⟨[], rfl⟩⟩
    · simp only [cstring_cons_eq_some hb, List.mem_cons, Ne.symm hb, false_or, ← ih]
      exact ⟨fun ⟨_, t, ht, _⟩ ↦ ⟨t, ht⟩, fun ⟨t, ht⟩ ↦ ⟨b :: t, t, ht, rfl⟩⟩

theorem cstring_append {bs s : List UInt8} (h : cstring bs = some s) (rest : List UInt8) :
    cstring (bs ++ rest) = some s := by
  obtain ⟨h0, r, rfl⟩ := cstring_eq_some_iff.mp h
  rw [List.append_assoc, List.cons_append]
  exact cstring_append_zero h0 _

theorem length_lt_of_cstring {bs s : List UInt8} (h : cstring bs = some s) :
    s.length < bs.length := by
  obtain ⟨-, r, rfl⟩ := cstring_eq_some_iff.mp h
  rw [List.length_append, List.length_cons]
  omega

/-! ## `strlen`, `strncpy` and `strndup` -/

/-- `strlen`. -/
def strlen : List UInt8 → Except Fault ℕ
  | [] => .error .segv
  | b :: bs => if b = 0 then .ok 0 else (strlen bs).map (· + 1)

theorem strlen_eq_ok {bs s : List UInt8} (h : cstring bs = some s) : strlen bs = .ok s.length := by
  induction bs generalizing s with
  | nil => simp [cstring] at h
  | cons b bs ih =>
    by_cases hb : b = 0
    · subst hb
      rw [cstring_cons_zero, Option.some_inj] at h
      subst h
      rfl
    · obtain ⟨t, ht, rfl⟩ := (cstring_cons_eq_some hb).mp h
      rw [strlen, if_neg hb, ih ht]
      rfl

theorem strlen_eq_error {bs : List UInt8} (h : cstring bs = none) : strlen bs = .error .segv := by
  induction bs with
  | nil => rfl
  | cons b bs ih =>
    by_cases hb : b = 0
    · subst hb
      simp [cstring_cons_zero] at h
    · rw [cstring_cons_of_ne hb, Option.map_eq_none_iff] at h
      rw [strlen, if_neg hb, ih h]
      rfl

theorem exists_cstring_of_strlen {bs : List UInt8} {n : ℕ} (h : strlen bs = .ok n) :
    ∃ s, cstring bs = some s ∧ s.length = n := by
  cases hs : cstring bs with
  | none => rw [strlen_eq_error hs] at h; cases h
  | some s =>
    rw [strlen_eq_ok hs] at h
    exact ⟨s, rfl, Except.ok.inj h⟩

/-- `strncpy`: the `n` bytes left in the destination, the source string padded with zeros, or cut
at `n` bytes without a NUL when it is too long. -/
def strncpy : ℕ → List UInt8 → Except Fault (List UInt8)
  | 0, _ => .ok []
  | _ + 1, [] => .error .segv
  | n + 1, b :: bs =>
    if b = 0 then .ok (List.replicate (n + 1) 0) else (strncpy n bs).map (b :: ·)

theorem strncpy_eq_ok {bs s : List UInt8} (n : ℕ) (h : cstring bs = some s) :
    strncpy n bs = .ok (s.take n ++ List.replicate (n - s.length) 0) := by
  induction n generalizing bs s with
  | zero => simp [strncpy]
  | succ n ih =>
    cases bs with
    | nil => simp [cstring] at h
    | cons b bs =>
      by_cases hb : b = 0
      · subst hb
        rw [cstring_cons_zero, Option.some_inj] at h
        subst h
        rfl
      · obtain ⟨t, ht, rfl⟩ := (cstring_cons_eq_some hb).mp h
        rw [strncpy, if_neg hb, ih ht, List.length_cons, Nat.add_sub_add_right]
        rfl

theorem length_of_strncpy {bs out : List UInt8} {n : ℕ} (h : strncpy n bs = .ok out) :
    out.length = n := by
  induction n generalizing bs out with
  | zero => cases h; rfl
  | succ n ih =>
    cases bs with
    | nil => cases h
    | cons b bs =>
      rw [strncpy] at h
      split at h
      · cases h
        exact List.length_replicate
      · cases hrest : strncpy n bs with
        | error e => rw [hrest] at h; cases h
        | ok rest =>
          rw [hrest] at h
          cases h
          exact congrArg (· + 1) (ih hrest)

/-- `strndup`: a copy of the string, cut at `n` bytes. -/
def strndup : List UInt8 → ℕ → Except Fault (List UInt8)
  | _, 0 => .ok []
  | [], _ + 1 => .error .segv
  | b :: bs, n + 1 => if b = 0 then .ok [] else (strndup bs n).map (b :: ·)

theorem strndup_eq_ok {bs s : List UInt8} (h : cstring bs = some s) (n : ℕ) :
    strndup bs n = .ok (s.take n) := by
  induction bs generalizing s n with
  | nil => simp [cstring] at h
  | cons b bs ih =>
    obtain - | n := n
    · rw [strndup, List.take_zero]
    · by_cases hb : b = 0
      · subst hb
        rw [cstring_cons_zero, Option.some_inj] at h
        subst h
        rfl
      · obtain ⟨t, ht, rfl⟩ := (cstring_cons_eq_some hb).mp h
        rw [strndup, if_neg hb, ih ht, List.take_succ_cons]
        rfl

theorem cstring_strncpy {s : List UInt8} {n : ℕ} (h0 : 0 ∉ s) (h : s.length < n) :
    cstring (s.take n ++ List.replicate (n - s.length) 0) = some s := by
  rw [List.take_of_length_le h.le, show n - s.length = (n - s.length - 1) + 1 by omega,
    List.replicate_succ]
  exact cstring_append_zero h0 _

/-- What `strncpy` leaves in `n` bytes for a source that is at least as long, with or without a NUL
in it. -/
def strncpyBuf (n : ℕ) (src : List UInt8) : List UInt8 :=
  (src.take n).takeWhile (· ≠ 0) ++
    List.replicate (n - ((src.take n).takeWhile (· ≠ 0)).length) 0

theorem strncpy_eq_strncpyBuf {bs : List UInt8} {n : ℕ} (h : n ≤ bs.length) :
    strncpy n bs = .ok (strncpyBuf n bs) := by
  induction n generalizing bs with
  | zero => rfl
  | succ n ih =>
    cases bs with
    | nil => exact absurd h (Nat.not_succ_le_zero n)
    | cons b bs =>
      rw [strncpy, strncpyBuf, List.take_succ_cons, List.takeWhile_cons]
      by_cases hb : b = 0
      · rw [if_pos hb, if_neg (by simpa using hb)]
        rfl
      · rw [if_neg hb, if_pos (by simpa using hb), ih (Nat.le_of_succ_le_succ h), List.length_cons,
          Nat.add_sub_add_right]
        rfl

/-! ## `strcmp`

Bytes compare as unsigned numbers, so a string is ordered as the list of its bytes' values. -/

/-- A string as a list of numbers, which carries the lexicographic order. -/
def cstringKey (s : List UInt8) : List ℕ := s.map UInt8.toNat

theorem cstringKey_injective : Function.Injective cstringKey :=
  List.map_injective_iff.mpr fun _ _ h ↦ UInt8.toNat_inj.mp h

/-- `strcmp`: negative, zero or positive, by the first byte at which the strings differ. -/
def strcmp : List UInt8 → List UInt8 → Except Fault ℤ
  | a :: as, b :: bs =>
    if a ≠ b then .ok (if a < b then -1 else 1)
    else if a = 0 then .ok 0 else strcmp as bs
  | _, _ => .error .segv

/-- The three answers of a comparison in a linear order, as `strcmp` gives them. -/
def orderSign {κ : Type*} [LinearOrder κ] (x y : κ) : ℤ :=
  if x < y then -1 else if y < x then 1 else 0

section OrderSign

variable {κ : Type*} [LinearOrder κ] {x y : κ}

theorem orderSign_neg_iff : orderSign x y < 0 ↔ x < y := by
  rw [orderSign]
  split_ifs with h1 h2 <;> simp [h1]

theorem orderSign_pos_iff : 0 < orderSign x y ↔ y < x := by
  rw [orderSign]
  split_ifs with h1 h2
  · simp [h1.le]
  · simp [h2]
  · simp [h2]

theorem orderSign_eq_zero_iff : orderSign x y = 0 ↔ x = y := by
  rw [orderSign]
  split_ifs with h1 h2
  · simp [h1.ne]
  · simp [h2.ne']
  · simp [le_antisymm (not_lt.mp h2) (not_lt.mp h1)]

end OrderSign

theorem orderSign_cons_of_ne {a b : ℕ} (as bs : List ℕ) (h : a ≠ b) :
    orderSign (a :: as) (b :: bs) = if a < b then -1 else 1 := by
  rcases lt_or_gt_of_ne h with hab | hab
  · rw [orderSign, if_pos (List.cons_lt_cons_iff.mpr (Or.inl hab)), if_pos hab]
  · have hlt : b :: bs < a :: as := List.cons_lt_cons_iff.mpr (Or.inl hab)
    rw [orderSign, if_neg hlt.asymm, if_pos hlt, if_neg (by omega)]

theorem orderSign_cons_same (a : ℕ) (as bs : List ℕ) :
    orderSign (a :: as) (a :: bs) = orderSign as bs := by
  have h : ∀ xs ys : List ℕ, a :: xs < a :: ys ↔ xs < ys := fun xs ys ↦ by
    rw [List.cons_lt_cons_iff]
    simp
  by_cases h1 : as < bs
  · rw [orderSign, orderSign, if_pos ((h _ _).mpr h1), if_pos h1]
  · by_cases h2 : bs < as
    · rw [orderSign, orderSign, if_neg (mt (h _ _).mp h1), if_neg h1, if_pos ((h _ _).mpr h2),
        if_pos h2]
    · rw [orderSign, orderSign, if_neg (mt (h _ _).mp h1), if_neg h1, if_neg (mt (h _ _).mp h2),
        if_neg h2]

/-- **`strcmp` is the lexicographic order on strings.** -/
theorem strcmp_eq_ok {as bs s t : List UInt8} (hs : cstring as = some s)
    (ht : cstring bs = some t) :
    strcmp as bs = .ok (orderSign (cstringKey s) (cstringKey t)) := by
  induction as generalizing bs s t with
  | nil => simp [cstring] at hs
  | cons a as ih =>
    cases bs with
    | nil => simp [cstring] at ht
    | cons b bs =>
      by_cases ha : a = 0 <;> by_cases hb : b = 0
      · subst ha hb
        rw [cstring_cons_zero, Option.some_inj] at hs ht
        subst hs ht
        simp [strcmp, orderSign]
      · subst ha
        rw [cstring_cons_zero, Option.some_inj] at hs
        obtain ⟨t', -, rfl⟩ := (cstring_cons_eq_some hb).mp ht
        subst hs
        have hpos : (0 : UInt8) < b := UInt8.pos_iff_ne_zero.mpr hb
        simp [strcmp, Ne.symm hb, hpos, orderSign, cstringKey]
      · subst hb
        rw [cstring_cons_zero, Option.some_inj] at ht
        obtain ⟨s', -, rfl⟩ := (cstring_cons_eq_some ha).mp hs
        subst ht
        simp [strcmp, ha, orderSign, cstringKey]
      · obtain ⟨s', hs', rfl⟩ := (cstring_cons_eq_some ha).mp hs
        obtain ⟨t', ht', rfl⟩ := (cstring_cons_eq_some hb).mp ht
        rw [strcmp, cstringKey, cstringKey, List.map_cons, List.map_cons]
        by_cases hab : a = b
        · subst hab
          rw [if_neg (by simp), if_neg ha, ih hs' ht', orderSign_cons_same]
          rfl
        · rw [if_pos hab, orderSign_cons_of_ne _ _ fun h ↦ hab (UInt8.toNat_inj.mp h)]
          rfl

theorem strcmp_eq_zero_iff {as bs s t : List UInt8} (hs : cstring as = some s)
    (ht : cstring bs = some t) : strcmp as bs = .ok 0 ↔ s = t := by
  rw [strcmp_eq_ok hs ht, Except.ok.injEq, orderSign_eq_zero_iff]
  exact cstringKey_injective.eq_iff

/-- A comparison that finds two byte lists equal has read the same string from both. -/
theorem cstring_eq_of_strcmp {as bs s : List UInt8} (hs : cstring as = some s)
    (h : strcmp as bs = .ok 0) : cstring bs = some s := by
  induction as generalizing bs s with
  | nil => simp [cstring] at hs
  | cons a as ih =>
    cases bs with
    | nil => simp [strcmp] at h
    | cons b bs =>
      rw [strcmp] at h
      by_cases hab : a = b
      · subst hab
        rw [if_neg (by simp)] at h
        by_cases ha : a = 0
        · subst ha
          exact hs
        · rw [if_neg ha] at h
          obtain ⟨s', hs', rfl⟩ := (cstring_cons_eq_some ha).mp hs
          exact (cstring_cons_eq_some ha).mpr ⟨s', ih hs' h, rfl⟩
      · rw [if_pos hab] at h
        split at h <;> cases h

theorem strcmp_eq_zero_symm {as bs : List UInt8} (h : strcmp as bs = .ok 0) :
    strcmp bs as = .ok 0 := by
  induction as generalizing bs with
  | nil => cases h
  | cons a as ih =>
    cases bs with
    | nil => cases h
    | cons b bs =>
      rw [strcmp] at h ⊢
      by_cases hab : a = b
      · subst hab
        rw [if_neg (not_ne_iff.mpr rfl)] at h ⊢
        split at h
        case isTrue ha => exact if_pos ha
        case isFalse ha =>
          rw [if_neg ha]
          exact ih h
      · rw [if_pos hab] at h
        split at h <;> cases h

/-- `strcmp` reads nothing behind the NUL of its first argument. -/
theorem strcmp_congr {as as' s : List UInt8} (h : cstring as = some s) (h' : cstring as' = some s)
    (bs : List UInt8) : strcmp as bs = strcmp as' bs := by
  obtain ⟨-, rest, rfl⟩ := cstring_eq_some_iff.mp h
  obtain ⟨-, rest', rfl⟩ := cstring_eq_some_iff.mp h'
  clear h h'
  induction s generalizing bs with
  | nil => cases bs <;> rfl
  | cons a s ih =>
    cases bs with
    | nil => rfl
    | cons b bs => rw [List.cons_append, List.cons_append, strcmp, strcmp, ih bs]

end AllProjects
