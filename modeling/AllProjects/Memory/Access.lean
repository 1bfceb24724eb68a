import AllProjects.Memory.Bytes

/-!
# Programs that keep a record of their reads

A program runs on a byte memory. It may read and write anywhere; which addresses it reads, and what
it prints, is recorded. Nothing faults: whether the reads stay inside an object is a property of the
record, `ReadsBelow`, and it is computed from the program like the result is: the reads of a
sequence are those of its parts.
-/

namespace AllProjects

/-- What a run comes to. -/
structure Outcome (ω α : Type) where
  val : α
  mem : Mem
  reads : List ℕ
  out : List ω

/-- A program with results in `α` that prints items of `ω`. -/
def Prog (ω α : Type) := Mem → Outcome ω α

namespace Prog

variable {ω α β : Type}

instance : Monad (Prog ω) where
  pure a := fun m ↦ ⟨a, m, [], []⟩
  bind x f := fun m ↦
    let r := x m
    let t := f r.val r.mem
    ⟨t.val, t.mem, r.reads ++ t.reads, r.out ++ t.out⟩

/-- Read a number of `w` bytes. -/
def read (a w : ℕ) : Prog ω ℕ := fun m ↦ ⟨m.load a w, m, (List.range w).map (a + ·), []⟩

/-- Read `n` bytes, as `memcpy` does. -/
def readSlice (a n : ℕ) : Prog ω (List UInt8) :=
  fun m ↦ ⟨m.slice a n, m, (List.range n).map (a + ·), []⟩

/-- Write a number of `w` bytes. -/
def write (a w v : ℕ) : Prog ω Unit := fun m ↦ ⟨(), m.store a w v, [], []⟩

/-- Print an item. -/
def print (o : ω) : Prog ω Unit := fun m ↦ ⟨(), m, [], [o]⟩

/-- `for (i = start; i < start + count; i++) body` -/
def forRange (body : ℕ → Prog ω Unit) : ℕ → ℕ → Prog ω Unit
  | _, 0 => pure ()
  | i, n + 1 => do
    body i
    forRange body (i + 1) n

/-! ## Results

The proofs `(rfl)` keep these equations from being applied by definitional unfolding: a long program
is then rewritten one statement at a time, in the kernel too. -/

section

variable (x : Prog ω α) (f : α → Prog ω β) (m : Mem)

@[simp] theorem pure_val (a : α) : ((pure a : Prog ω α) m).val = a := (rfl)

@[simp] theorem pure_mem (a : α) : ((pure a : Prog ω α) m).mem = m := (rfl)

@[simp] theorem pure_out (a : α) : ((pure a : Prog ω α) m).out = [] := (rfl)

@[simp] theorem bind_val : ((x >>= f) m).val = (f (x m).val (x m).mem).val := (rfl)

@[simp] theorem bind_mem : ((x >>= f) m).mem = (f (x m).val (x m).mem).mem := (rfl)

@[simp] theorem bind_out : ((x >>= f) m).out = (x m).out ++ (f (x m).val (x m).mem).out := (rfl)

@[simp] theorem read_val (a w : ℕ) : ((read a w : Prog ω ℕ) m).val = m.load a w := (rfl)

@[simp] theorem read_mem (a w : ℕ) : ((read a w : Prog ω ℕ) m).mem = m := (rfl)

@[simp] theorem read_out (a w : ℕ) : ((read a w : Prog ω ℕ) m).out = [] := (rfl)

@[simp] theorem readSlice_val (a n : ℕ) :
    ((readSlice a n : Prog ω (List UInt8)) m).val = m.slice a n := (rfl)

@[simp] theorem readSlice_mem (a n : ℕ) : ((readSlice a n : Prog ω (List UInt8)) m).mem = m := (rfl)

@[simp] theorem readSlice_out (a n : ℕ) :
    ((readSlice a n : Prog ω (List UInt8)) m).out = [] := (rfl)

@[simp] theorem write_mem (a w v : ℕ) : ((write a w v : Prog ω Unit) m).mem = m.store a w v := (rfl)

@[simp] theorem write_out (a w v : ℕ) : ((write a w v : Prog ω Unit) m).out = [] := (rfl)

@[simp] theorem print_mem (o : ω) : ((print o) m).mem = m := (rfl)

@[simp] theorem print_out (o : ω) : ((print o) m).out = [o] := (rfl)

end

/-! ## Results as a relation

Two results that differ only in how the program is written are compared by running it. A relation is
rewritten instead, one statement at a time. -/

/-- The run ends with the result `v`. -/
def Returns (x : Prog ω α) (m : Mem) (v : α) : Prop := (x m).val = v

theorem returns_bind {x : Prog ω α} {f : α → Prog ω β} {m : Mem} {v : β} :
    (x >>= f).Returns m v ↔ (f (x m).val).Returns (x m).mem v := Iff.rfl

/-! ## Programs that only read -/

/-- The program neither writes nor prints. -/
structure Silent (x : Prog ω α) : Prop where
  mem : ∀ m, (x m).mem = m
  out : ∀ m, (x m).out = []

theorem silent_pure (a : α) : Silent (pure a : Prog ω α) := ⟨fun _ ↦ rfl, fun _ ↦ rfl⟩

theorem silent_read (a w : ℕ) : Silent (read a w : Prog ω ℕ) := ⟨fun _ ↦ rfl, fun _ ↦ rfl⟩

theorem Silent.bind {x : Prog ω α} {f : α → Prog ω β} (hx : Silent x) (hf : ∀ a, Silent (f a)) :
    Silent (x >>= f) := by
  constructor
  · intro m
    rw [bind_mem, hx.mem, (hf _).mem]
  · intro m
    rw [bind_out, hx.out, (hf _).out]
    rfl

/-! ## Bounds -/

/-- All reads of the run are below `b`. -/
def ReadsBelow (x : Prog ω α) (m : Mem) (b : ℕ) : Prop := ∀ i ∈ (x m).reads, i < b

section

variable {m : Mem} {b : ℕ}

@[simp] theorem readsBelow_pure (a : α) : (pure a : Prog ω α).ReadsBelow m b :=
  fun _ hi ↦ absurd hi List.not_mem_nil

@[simp] theorem readsBelow_bind {x : Prog ω α} {f : α → Prog ω β} :
    (x >>= f).ReadsBelow m b
      ↔ x.ReadsBelow m b ∧ (f (x m).val).ReadsBelow (x m).mem b := by
  simp only [ReadsBelow]
  exact List.forall_mem_append

theorem forall_mem_range_map {a n : ℕ} :
    (∀ i ∈ (List.range n).map (a + ·), i < b) ↔ n = 0 ∨ a + n ≤ b := by
  rw [List.forall_mem_map]
  simp only [List.mem_range]
  constructor
  · intro h
    by_contra hnot
    have hlast := h (n - 1) (by omega)
    omega
  · intro h i hi
    omega

@[simp] theorem readsBelow_read {a w : ℕ} :
    (read a w : Prog ω ℕ).ReadsBelow m b ↔ w = 0 ∨ a + w ≤ b := forall_mem_range_map

@[simp] theorem readsBelow_readSlice {a n : ℕ} :
    (readSlice a n : Prog ω (List UInt8)).ReadsBelow m b ↔ n = 0 ∨ a + n ≤ b :=
  forall_mem_range_map

@[simp] theorem readsBelow_write {a w v : ℕ} : (write a w v : Prog ω Unit).ReadsBelow m b :=
  fun _ hi ↦ absurd hi List.not_mem_nil

@[simp] theorem readsBelow_print {o : ω} : (print o).ReadsBelow m b :=
  fun _ hi ↦ absurd hi List.not_mem_nil

end

/-! ## Loops that write nothing -/

section

variable {body : ℕ → Prog ω Unit} (hbody : ∀ i m, (body i m).mem = m) (m : Mem)
include hbody

theorem forRange_mem (i n : ℕ) : (forRange body i n m).mem = m := by
  induction n generalizing i with
  | zero => rfl
  | succ n ih => rw [forRange, bind_mem, hbody, ih]

theorem forRange_out (i n : ℕ) :
    (forRange body i n m).out = (List.range' i n).flatMap fun j ↦ (body j m).out := by
  induction n generalizing i with
  | zero => rfl
  | succ n ih => rw [forRange, bind_out, hbody, ih, List.range'_succ, List.flatMap_cons]

theorem readsBelow_forRange {i n b : ℕ} :
    (forRange body i n).ReadsBelow m b
      ↔ ∀ j, i ≤ j → j < i + n → (body j).ReadsBelow m b := by
  induction n generalizing i with
  | zero =>
    apply iff_of_true (readsBelow_pure ())
    intro j hij hj
    omega
  | succ n ih =>
    rw [forRange, readsBelow_bind, hbody, ih]
    constructor
    · rintro ⟨hfirst, hrest⟩ j hij hj
      obtain rfl | hlt := hij.eq_or_lt
      · exact hfirst
      · exact hrest j hlt (by omega)
    · intro h
      exact ⟨h i le_rfl (by omega), fun j hij hj ↦ h j (by omega) (by omega)⟩

end

end Prog

/-! ## Writing back -/

namespace Mem

theorem store_store (m : Mem) (a w v v' : ℕ) : (m.store a w v).store a w v' = m.store a w v' := by
  funext x
  by_cases hx : a ≤ x ∧ x < a + w
  · rw [store_of_mem _ hx.1 hx.2, store_of_mem _ hx.1 hx.2]
  · have hout : x < a ∨ a + w ≤ x := by omega
    rw [store_apply_of_disjoint _ hout, store_apply_of_disjoint _ hout,
      store_apply_of_disjoint _ hout]

theorem store_load (m : Mem) (a w : ℕ) : m.store a w (m.load a w) = m := by
  funext x
  by_cases hx : a ≤ x ∧ x < a + w
  · have hlt : x - a < w := by omega
    have hbyte := congrArg (·[x - a]?) (slice_store_load m m a a w)
    simp only [getElem?_slice _ hlt, Nat.add_sub_cancel' hx.1, Option.some.injEq] at hbyte
    exact hbyte
  · exact store_apply_of_disjoint _ (by omega)

theorem store_eq_self_iff {m : Mem} {a w v : ℕ} (hv : v < 256 ^ w) :
    m.store a w v = m ↔ m.load a w = v := by
  constructor
  · intro h
    rw [← load_store_same m hv, h]
  · rintro rfl
    exact store_load m a w

/-- A store changes what it changes, whatever the rest of the memory. -/
theorem store_congr {m m' : Mem} {a w v x : ℕ} (h : m x = m' x) :
    m.store a w v x = m'.store a w v x := by
  rw [store, store, h]

/-- Two stores apart from each other leave a byte as it was when each of them does. -/
theorem store_store_apply_eq_iff (m : Mem) {a w v b u v' : ℕ} (h : a + w ≤ b ∨ b + u ≤ a) (x : ℕ) :
    (m.store a w v).store b u v' x = m x ↔ m.store a w v x = m x ∧ m.store b u v' x = m x := by
  by_cases hx : b ≤ x ∧ x < b + u
  · have hfirst : m.store a w v x = m x := store_apply_of_disjoint m (by omega)
    rw [store_congr hfirst, and_iff_right hfirst]
  · have hout : x < b ∨ b + u ≤ x := by omega
    rw [store_apply_of_disjoint _ hout, store_apply_of_disjoint _ hout, and_iff_left rfl]

end Mem

end AllProjects
