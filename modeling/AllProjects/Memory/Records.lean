import AllProjects.Memory.Bytes

/-!
# Records in a row

A buffer may hold records one behind the other, each with its length in front of it and each at a
multiple of four bytes from the first. A reader walks over them with the number of bytes that are
left, which is negative behind a last record whose padding is not counted.

The walk folds its body over the records, so what is proved about a fold over a list is a fact about
the bytes.
-/

namespace AllProjects

/-- A kind of record: how wide its length is, which comes first, and how long its header. -/
structure RecordKind where
  width : ℕ
  header : ℕ
  header_pos : 0 < header

namespace RecordKind

/-- A length with its padding. -/
def align (n : ℕ) : ℕ := (n + 3) / 4 * 4

theorem le_align (n : ℕ) : n ≤ align n := by
  rw [align]
  omega

variable (k : RecordKind)

/-- The length in front of a record, which includes the header. -/
def recordLen (m : Mem) (a : ℕ) : ℕ := m.load a k.width

/-- With `len` bytes left there is a whole record. -/
def Ok (m : Mem) (a : ℕ) (len : ℤ) : Prop :=
  (k.header : ℤ) ≤ len ∧ k.header ≤ k.recordLen m a ∧ (k.recordLen m a : ℤ) ≤ len

instance (m : Mem) (a : ℕ) (len : ℤ) : Decidable (k.Ok m a len) :=
  inferInstanceAs (Decidable (_ ∧ _ ∧ _))

variable {σ α : Type*}

/-- The loop over the records, with the state that its body changes. -/
def walk (m : Mem) (body : σ → ℕ → σ) (a : ℕ) (len : ℤ) (s : σ) : σ :=
  if h : k.Ok m a len then
    have : (len - align (k.recordLen m a)).toNat < len.toNat := by
      have hpos := k.header_pos
      have halign := le_align (k.recordLen m a)
      obtain ⟨hlen, hheader, -⟩ := h
      omega
    walk m body (a + align (k.recordLen m a)) (len - align (k.recordLen m a)) (body s a)
  else s
termination_by len.toNat

/-- The list is what the bytes hold: `At` says when a record is at an address. -/
def Holds (m : Mem) (At : α → ℕ → Prop) : ℕ → ℤ → List α → Prop
  | _, len, [] => len ≤ 0
  | a, len, x :: xs => k.Ok m a len ∧ At x a
    ∧ Holds m At (a + align (k.recordLen m a)) (len - align (k.recordLen m a)) xs

instance decidableHolds (m : Mem) (At : α → ℕ → Prop) [∀ x a, Decidable (At x a)] :
    ∀ a len xs, Decidable (k.Holds m At a len xs)
  | _, len, [] => inferInstanceAs (Decidable (len ≤ 0))
  | a, len, _ :: xs =>
    have := decidableHolds m At (a + align (k.recordLen m a)) (len - align (k.recordLen m a)) xs
    inferInstanceAs (Decidable (_ ∧ _ ∧ _))

variable {k}

/-- **The walk over the bytes is the fold over the records.** -/
theorem walk_eq_foldl {m : Mem} {At : α → ℕ → Prop} {body : σ → ℕ → σ} {step : σ → α → σ}
    (hbody : ∀ s x a, At x a → body s a = step s x) {a : ℕ} {len : ℤ} {xs : List α}
    (h : k.Holds m At a len xs) (s : σ) : k.walk m body a len s = xs.foldl step s := by
  induction xs generalizing a len s with
  | nil =>
    have hend : ¬ k.Ok m a len := by
      rintro ⟨hlen, -⟩
      have hpos := k.header_pos
      have hle : len ≤ 0 := h
      omega
    rw [walk, dif_neg hend, List.foldl_nil]
  | cons x xs ih =>
    obtain ⟨hok, hat, hrest⟩ := h
    rw [walk, dif_pos hok, hbody s x a hat, List.foldl_cons]
    exact ih hrest _

end RecordKind

end AllProjects
