import Mathlib

/-!
# Byte memory

A memory is a total function from addresses to bytes, and a little-endian number of any width is
read from it and written to it. What a program may touch is a separate matter: an object occupies
a range of addresses, and the checked accesses below fail outside the range they are given.

The two laws that carry the developments built on this file are the usual ones: a load returns
what was stored at the same place, and is unchanged by a store elsewhere. The second is stated for
arbitrary widths, so that one lemma serves every pair of fields of every record. Its side
condition is linear arithmetic, which is why addresses are plain natural numbers.
-/

namespace AllProjects

/-- Why an execution stops without a result: an access outside the accessible range, or a loop
that runs past the bound it was given. -/
inductive Fault
  | segv
  | diverges
  deriving DecidableEq, Repr

/-! ## Computations that may fault

`Except` is used as it is; these equations are what symbolic execution needs. -/

section Except

variable {φ : Type*} {α β : Type}

@[simp] theorem Except.ok_bind_eq (a : α) (f : α → Except φ β) : (Except.ok a >>= f) = f a := rfl

@[simp] theorem Except.error_bind_eq (e : φ) (f : α → Except φ β) :
    ((Except.error e : Except φ α) >>= f) = .error e := rfl

@[simp] theorem Except.pure_eq_ok (a : α) : (pure a : Except φ α) = .ok a := rfl

theorem Except.bind_eq_ok_iff {x : Except φ α} {f : α → Except φ β} {b : β} :
    (x >>= f) = .ok b ↔ ∃ a, x = .ok a ∧ f a = .ok b := by
  cases x with
  | error e => simp
  | ok a => simp

theorem Except.exists_eq_ok_of_isOk {x : Except φ α} (h : x.isOk = true) : ∃ a, x = .ok a := by
  cases x with
  | error e => cases h
  | ok a => exact ⟨a, rfl⟩

theorem Except.map_eq_ok_iff {x : Except φ α} {f : α → β} {b : β} :
    x.map f = .ok b ↔ ∃ a, x = .ok a ∧ f a = b := by
  cases x with
  | error e => simp [Except.map]
  | ok a => simp [Except.map]

end Except

/-- A byte-addressed memory. -/
abbrev Mem := ℕ → UInt8

namespace Mem

/-! ## Loads and stores -/

/-- The `w`-byte little-endian number at `a`. -/
def load (m : Mem) : ℕ → ℕ → ℕ
  | _, 0 => 0
  | a, w + 1 => (m a).toNat + 256 * load m (a + 1) w

/-- Write the low `w` bytes of `v` at `a`, least significant first. -/
def store (m : Mem) (a w v : ℕ) : Mem := fun x ↦
  if a ≤ x ∧ x < a + w then UInt8.ofNat (v / 256 ^ (x - a)) else m x

@[simp] theorem load_zero (m : Mem) (a : ℕ) : m.load a 0 = 0 := rfl

theorem load_succ (m : Mem) (a w : ℕ) :
    m.load a (w + 1) = (m a).toNat + 256 * m.load (a + 1) w := rfl

theorem load_one (m : Mem) (a : ℕ) : m.load a 1 = (m a).toNat := by
  rw [load_succ, load_zero, mul_zero, add_zero]

theorem load_two (m : Mem) (a : ℕ) : m.load a 2 = (m a).toNat + 256 * (m (a + 1)).toNat := by
  rw [load_succ, load_one]

theorem load_lt (m : Mem) (a w : ℕ) : m.load a w < 256 ^ w := by
  induction w generalizing a with
  | zero => simp
  | succ w ih =>
    have hb : (m a).toNat < 256 := (m a).toNat_lt
    have hrest := ih (a + 1)
    rw [load_succ, pow_succ]
    omega

theorem load_congr {m m' : Mem} {a w : ℕ} (h : ∀ x, a ≤ x → x < a + w → m x = m' x) :
    m.load a w = m'.load a w := by
  induction w generalizing a with
  | zero => rfl
  | succ w ih =>
    rw [load_succ, load_succ, h a le_rfl (by omega),
      ih fun x hx hx' ↦ h x (by omega) (by omega)]

theorem store_of_lt (m : Mem) {a w v x : ℕ} (h : x < a) : m.store a w v x = m x :=
  if_neg (by omega)

theorem store_of_ge (m : Mem) {a w v x : ℕ} (h : a + w ≤ x) : m.store a w v x = m x :=
  if_neg (by omega)

theorem store_of_mem (m : Mem) {a w v x : ℕ} (h : a ≤ x) (h' : x < a + w) :
    m.store a w v x = UInt8.ofNat (v / 256 ^ (x - a)) :=
  if_pos ⟨h, h'⟩

/-- The frame law for single bytes. -/
theorem store_apply_of_disjoint (m : Mem) {a w v x : ℕ} (h : x < a ∨ a + w ≤ x) :
    m.store a w v x = m x :=
  h.elim (store_of_lt m) (store_of_ge m)

/-- **The frame law.** A load is unchanged by a store to a disjoint range. -/
theorem load_store_of_disjoint (m : Mem) {a w v b u : ℕ} (h : b + u ≤ a ∨ a + w ≤ b) :
    (m.store a w v).load b u = m.load b u :=
  load_congr fun x hx hx' ↦ store_apply_of_disjoint m (by omega)

theorem store_shift (m : Mem) (a w v : ℕ) {x : ℕ} (h : a + 1 ≤ x) :
    m.store a (w + 1) v x = m.store (a + 1) w (v / 256) x := by
  by_cases hx : x < a + (w + 1)
  · rw [store_of_mem m (by omega) hx, store_of_mem m h (by omega), Nat.div_div_eq_div_mul,
      ← pow_succ']
    congr 3
    omega
  · rw [store_of_ge m (by omega), store_of_ge m (by omega)]

theorem load_store_mod (m : Mem) (a w v : ℕ) : (m.store a w v).load a w = v % 256 ^ w := by
  induction w generalizing a v with
  | zero => simp [Nat.mod_one]
  | succ w ih =>
    have hrest :
        (m.store a (w + 1) v).load (a + 1) w = (m.store (a + 1) w (v / 256)).load (a + 1) w :=
      load_congr fun x hx _ ↦ store_shift m a w v hx
    have hhead : (m.store a (w + 1) v a).toNat = v % 256 := by
      rw [store_of_mem m le_rfl (by omega), Nat.sub_self, pow_zero, Nat.div_one, UInt8.toNat_ofNat']
    rw [load_succ, hrest, ih, hhead, pow_succ', Nat.mod_mul]

theorem load_store_at (m : Mem) {a b w v : ℕ} (h : b = a) :
    (m.store a w v).load b w = v % 256 ^ w := by
  rw [h, load_store_mod]

theorem load_store_same (m : Mem) {a w v : ℕ} (h : v < 256 ^ w) :
    (m.store a w v).load a w = v := by
  rw [load_store_mod, Nat.mod_eq_of_lt h]

/-! ## Slices -/

/-- The `n` bytes from `a` on. -/
def slice (m : Mem) (a n : ℕ) : List UInt8 := (List.range n).map fun i ↦ m (a + i)

@[simp] theorem length_slice (m : Mem) (a n : ℕ) : (m.slice a n).length = n := by
  rw [slice, List.length_map, List.length_range]

theorem getElem?_slice (m : Mem) {a n i : ℕ} (h : i < n) :
    (m.slice a n)[i]? = some (m (a + i)) := by
  rw [slice, List.getElem?_map, List.getElem?_range h, Option.map_some]

theorem slice_succ (m : Mem) (a n : ℕ) : m.slice a (n + 1) = m a :: m.slice (a + 1) n := by
  rw [slice, List.range_succ_eq_map, List.map_cons, List.map_map, slice]
  congr 1
  apply List.map_congr_left
  intro i _
  rw [Function.comp_apply]
  congr 1
  omega

theorem slice_add (m : Mem) (a k n : ℕ) :
    m.slice a (k + n) = m.slice a k ++ m.slice (a + k) n := by
  rw [slice, List.range_add, List.map_append, List.map_map, slice, slice]
  congr 1
  apply List.map_congr_left
  intro i _
  rw [Function.comp_apply, add_assoc]

theorem slice_congr {m m' : Mem} {a n : ℕ} (h : ∀ x, a ≤ x → x < a + n → m x = m' x) :
    m.slice a n = m'.slice a n :=
  List.map_congr_left fun i hi ↦ h _ (by omega) (by rw [List.mem_range] at hi; omega)

theorem slice_store_of_disjoint (m : Mem) {a w v b n : ℕ} (h : b + n ≤ a ∨ a + w ≤ b) :
    (m.store a w v).slice b n = m.slice b n :=
  slice_congr fun x hx hx' ↦ store_apply_of_disjoint m (by omega)

theorem slice_store_same (m : Mem) (a w v : ℕ) :
    (m.store a w v).slice a w = (List.range w).map fun i ↦ UInt8.ofNat (v / 256 ^ i) := by
  refine List.map_congr_left fun i hi ↦ ?_
  rw [List.mem_range] at hi
  rw [store_of_mem m (by omega) (by omega), Nat.add_sub_cancel_left]

theorem slice_eq_of_load_eq {m m' : Mem} {a b w : ℕ} (h : m.load a w = m'.load b w) :
    m.slice a w = m'.slice b w := by
  induction w generalizing a b with
  | zero => rfl
  | succ w ih =>
    rw [load_succ, load_succ] at h
    have hbyte : (m a).toNat = (m' b).toNat := by
      have hmod := congrArg (· % 256) h
      rwa [Nat.add_mul_mod_self_left, Nat.add_mul_mod_self_left, Nat.mod_eq_of_lt (m a).toNat_lt,
        Nat.mod_eq_of_lt (m' b).toNat_lt] at hmod
    have hrest : m.load (a + 1) w = m'.load (b + 1) w := by omega
    rw [slice_succ, slice_succ, UInt8.toNat_inj.mp hbyte, ih hrest]

/-- A number that is read in one place and written in another carries its bytes over. -/
theorem slice_store_load (m m' : Mem) (a b w : ℕ) :
    (m'.store b w (m.load a w)).slice b w = m.slice a w := by
  induction w generalizing a b with
  | zero => rfl
  | succ w ih =>
    have hb : (m a).toNat < 256 := (m a).toNat_lt
    have hdiv : m.load a (w + 1) / 256 = m.load (a + 1) w := by rw [load_succ]; omega
    rw [slice_succ, slice_succ, slice_congr fun x hx _ ↦ store_shift m' b w _ hx, hdiv, ih,
      store_of_mem m' le_rfl (by omega), Nat.sub_self, pow_zero, Nat.div_one, load_succ]
    congr 1
    apply UInt8.toNat_inj.mp
    rw [UInt8.toNat_ofNat']
    omega

/-- Write bytes at `a`. -/
def storeBytes (m : Mem) (a : ℕ) (bs : List UInt8) : Mem := fun x ↦
  if a ≤ x ∧ x < a + bs.length then bs.getD (x - a) 0 else m x

theorem slice_storeBytes (m : Mem) (a : ℕ) (bs : List UInt8) :
    (m.storeBytes a bs).slice a bs.length = bs := by
  apply List.ext_getElem?
  intro i
  obtain hi | hi := lt_or_ge i bs.length
  · rw [getElem?_slice _ hi, storeBytes, if_pos ⟨by omega, by omega⟩, Nat.add_sub_cancel_left,
      List.getD_eq_getElem _ _ hi, List.getElem?_eq_getElem hi]
  · rw [List.getElem?_eq_none hi, List.getElem?_eq_none (by rwa [length_slice])]

theorem slice_storeBytes_append (m : Mem) (a : ℕ) (bs cs : List UInt8) :
    (m.storeBytes a (bs ++ cs)).slice a bs.length = bs := by
  have hall := slice_storeBytes m a (bs ++ cs)
  rw [List.length_append, slice_add] at hall
  exact (List.append_inj hall (length_slice ..)).1

/-! ## Checked accesses -/

/-- A load inside `[lo, hi)`. -/
def loadIn (m : Mem) (lo hi a w : ℕ) : Except Fault ℕ :=
  if lo ≤ a ∧ a + w ≤ hi then .ok (m.load a w) else .error .segv

/-- A store inside `[lo, hi)`. -/
def storeIn (m : Mem) (lo hi a w v : ℕ) : Except Fault Mem :=
  if lo ≤ a ∧ a + w ≤ hi then .ok (m.store a w v) else .error .segv

theorem loadIn_eq_ok (m : Mem) {lo hi a w : ℕ} (h : lo ≤ a) (h' : a + w ≤ hi) :
    m.loadIn lo hi a w = .ok (m.load a w) :=
  if_pos ⟨h, h'⟩

theorem storeIn_eq_ok (m : Mem) {lo hi a w v : ℕ} (h : lo ≤ a) (h' : a + w ≤ hi) :
    m.storeIn lo hi a w v = .ok (m.store a w v) :=
  if_pos ⟨h, h'⟩

theorem loadIn_eq_ok_iff (m : Mem) {lo hi a w v : ℕ} :
    m.loadIn lo hi a w = .ok v ↔ lo ≤ a ∧ a + w ≤ hi ∧ v = m.load a w := by
  rw [loadIn]
  split <;> rename_i h
  · simp [h, eq_comm]
  · simp only [reduceCtorEq, false_iff]
    rintro ⟨h1, h2, -⟩
    exact h ⟨h1, h2⟩

theorem storeIn_eq_ok_iff (m m' : Mem) {lo hi a w v : ℕ} :
    m.storeIn lo hi a w v = .ok m' ↔ lo ≤ a ∧ a + w ≤ hi ∧ m' = m.store a w v := by
  rw [storeIn]
  split <;> rename_i h
  · simp [h, eq_comm]
  · simp only [reduceCtorEq, false_iff]
    rintro ⟨h1, h2, -⟩
    exact h ⟨h1, h2⟩

end Mem

end AllProjects
