import AllProjects.Memory.CString

/-!
# A string handed out in pieces

Both character devices keep a string in a buffer and a pointer into it, and `device_read` copies
from the pointer on, as much as it is asked for and as there is, leaving the pointer behind what it
copied. Whatever the sizes of the reads, what they return one after another is the beginning of the
string.
-/

namespace AllProjects.CharDevice

/-- `BUF_LEN`. -/
def bufLen : ℕ := 80

/-- `while (length && *ptr) put_user(*(ptr++), buffer++)`: where the pointer is left, and what was
copied. -/
def readLoop (msg : List UInt8) : ℕ → ℕ → Except Fault (ℕ × List UInt8)
  | 0, ptr => .ok (ptr, [])
  | length + 1, ptr =>
    match msg[ptr]? with
    | none => .error .segv
    | some b =>
      if b = 0 then .ok (ptr, [])
      else (readLoop msg length (ptr + 1)).map fun r ↦ (r.1, b :: r.2)

/-- `device_read`. The first byte is looked at even when nothing is asked for. -/
def deviceRead (msg : List UInt8) (ptr length : ℕ) : Except Fault (ℕ × List UInt8) :=
  match msg[ptr]? with
  | none => .error .segv
  | some b => if b = 0 then .ok (ptr, []) else readLoop msg length ptr

variable {msg m out : List UInt8} {ptr length asked : ℕ}

theorem getElem?_of_cstring (hm : cstring msg = some m) (hp : ptr ≤ m.length) :
    ∃ b, msg[ptr]? = some b ∧ (b = 0 ↔ ptr = m.length) ∧ (b ≠ 0 → m[ptr]? = some b) := by
  obtain ⟨h0, rest, rfl⟩ := cstring_eq_some_iff.mp hm
  rcases Nat.eq_or_lt_of_le hp with rfl | hlt
  · refine ⟨0, ?_, ⟨fun _ ↦ rfl, fun _ ↦ rfl⟩, fun h ↦ absurd rfl h⟩
    rw [List.getElem?_append_right (Nat.le_refl _), Nat.sub_self]
    rfl
  · refine ⟨m[ptr], ?_, ?_, fun _ ↦ List.getElem?_eq_getElem hlt⟩
    · rw [List.getElem?_append_left hlt, List.getElem?_eq_getElem hlt]
    · constructor
      · intro hzero
        exact absurd (hzero ▸ List.getElem_mem hlt) h0
      · intro heq
        exact absurd heq (Nat.ne_of_lt hlt)

theorem readLoop_eq (hm : cstring msg = some m) (hp : ptr ≤ m.length) :
    readLoop msg length ptr
      = .ok (ptr + min length (m.length - ptr), (m.drop ptr).take length) := by
  induction length generalizing ptr with
  | zero => rw [readLoop, Nat.zero_min, Nat.add_zero, List.take_zero]
  | succ n ih =>
    obtain ⟨b, hb, hzero, hget⟩ := getElem?_of_cstring hm hp
    rw [readLoop, hb]
    dsimp only
    by_cases hend : ptr = m.length
    · rw [if_pos (hzero.mpr hend), hend, Nat.sub_self, Nat.min_zero, Nat.add_zero, List.drop_length,
        List.take_nil]
    · have hlt : ptr < m.length := Nat.lt_of_le_of_ne hp hend
      have hne : b ≠ 0 := fun h ↦ hend (hzero.mp h)
      have hmb : m[ptr] = b :=
        Option.some.inj ((List.getElem?_eq_getElem hlt).symm.trans (hget hne))
      have hcount :
          ptr + 1 + min n (m.length - (ptr + 1)) = ptr + min (n + 1) (m.length - ptr) := by
        omega
      rw [if_neg hne, ih hlt, List.drop_eq_getElem_cons hlt, List.take_succ_cons, hmb, ← hcount]
      rfl

/-- **A read from a string.** -/
theorem deviceRead_eq (hm : cstring msg = some m) (hp : ptr ≤ m.length) :
    deviceRead msg ptr length
      = .ok (ptr + min length (m.length - ptr), (m.drop ptr).take length) := by
  obtain ⟨b, hb, hzero, -⟩ := getElem?_of_cstring hm hp
  rw [deviceRead, hb]
  dsimp only
  by_cases hend : ptr = m.length
  · rw [if_pos (hzero.mpr hend), hend, Nat.sub_self, Nat.min_zero, Nat.add_zero, List.drop_length,
      List.take_nil]
  · rw [if_neg fun h ↦ hend (hzero.mp h)]
    exact readLoop_eq hm hp

/-- The pointer and what was handed out since it stood at the beginning, of `asked` bytes. -/
structure Handed (msg m : List UInt8) (ptr : ℕ) (out : List UInt8) (asked : ℕ) : Prop where
  string : cstring msg = some m
  ptr_eq : ptr = min asked m.length
  out_eq : out = m.take asked

theorem handed_start (hm : cstring msg = some m) : Handed msg m 0 [] 0 :=
  ⟨hm, (Nat.zero_min _).symm, List.take_zero.symm⟩

/-- **One read more.** -/
theorem Handed.read (h : Handed msg m ptr out asked) (length : ℕ) :
    ∃ ptr', deviceRead msg ptr length = .ok (ptr', (m.drop asked).take length)
      ∧ Handed msg m ptr' (out ++ (m.drop asked).take length) (asked + length) := by
  have hp : ptr ≤ m.length := by
    rw [h.ptr_eq]
    exact Nat.min_le_right _ _
  have hdrop : m.drop ptr = m.drop asked := by
    rw [h.ptr_eq]
    rcases Nat.le_total asked m.length with hle | hle
    · rw [Nat.min_eq_left hle]
    · rw [Nat.min_eq_right hle, List.drop_length, List.drop_eq_nil_of_le hle]
  refine ⟨ptr + min length (m.length - ptr), ?_, h.string, ?_, ?_⟩
  · rw [deviceRead_eq h.string hp, hdrop]
  · rw [h.ptr_eq]
    omega
  · rw [h.out_eq, List.take_add]

end AllProjects.CharDevice
