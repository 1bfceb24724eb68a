import AllProjects.FileManager.CopyStatus

/-!
# The message of the proc file

The module keeps one message for its file `hello`: a buffer of 100 bytes and two numbers, `len` and
`temp`. A write replaces the message, a read takes from it, and a reader is told by a read of no
bytes that there is nothing left. The same read starts the message again for the next reader.

What a read has left over is kept in `temp` as a number only. Where in the message to go on is kept
nowhere: every read starts at the first byte of the buffer. A write copies the message up to its
first zero byte, and does not compare its length with the 100 bytes.

So the message comes back when what is due at every read is what the buffer begins with. A reader
who takes the whole message at once is always given it, if it fits and is a string.

The lines for the log are left out. `copy_to_user` copies a number of bytes from the buffer of the
module. `strncpy_from_user` copies a string, but it may copy whole words of memory: what it leaves
behind the zero byte depends on the kernel, and is an argument here.
-/

namespace AllProjects.Procfs

open FileManager (toInt)

/-! ## The module -/

/-- The size of the buffer, as it is asked from `kmalloc`. -/
def msgSize : ℕ := 100

/-- `msg`, `len` and `temp`. -/
@[ext] structure Proc where
  msg : List UInt8
  len : ℤ
  temp : ℤ
  size : msg.length = msgSize

/-- The conversion of an `int` to a `size_t`. -/
def toSize (z : ℤ) : ℕ := (z % 2 ^ 64).toNat

/-- A string, with the zero byte that ends it, or all there is. -/
def upToNul : List UInt8 → List UInt8
  | [] => []
  | b :: w => if b = 0 then [0] else b :: upToNul w

/-- A buffer after a text was copied to its beginning. -/
def overwrite (msg text : List UInt8) : List UInt8 := text ++ msg.drop text.length

theorem length_overwrite {msg text : List UInt8} (h : text.length ≤ msg.length) :
    (overwrite msg text).length = msg.length := by
  rw [overwrite, List.length_append, List.length_drop, Nat.add_sub_cancel' h]

/-- The buffer after `strncpy_from_user` has written the string and the bytes `behind` it. -/
def Proc.copied (p : Proc) (behind buf : List UInt8) : List UInt8 :=
  overwrite p.msg (upToNul buf ++ behind)

/-- `write_proc`: what it returns and the module after it. There is none when the copy runs past the
buffer. -/
def writeProc (p : Proc) (behind buf : List UInt8) : Option (ℕ × Proc) :=
  if h : (upToNul buf ++ behind).length ≤ msgSize then
    some (buf.length,
      { msg := p.copied behind buf
        len := toInt buf.length
        temp := toInt buf.length
        size := (length_overwrite (h.trans_eq p.size.symm)).trans p.size })
  else none

/-- `count` after the comparison with `temp`, which is one of `size_t`s. -/
def readCount (temp : ℤ) (count : ℕ) : ℕ := if toSize temp < count then toSize temp else count

/-- `temp` after a read. -/
def Proc.taken (p : Proc) (count : ℕ) : Proc :=
  { p with temp := if count = 0 then p.len else toInt (p.temp - count) }

/-- `read_proc`: the bytes it returns and the module after it. There is none when the copy runs past
the buffer. -/
def readProc (p : Proc) (count : ℕ) : Option (List UInt8 × Proc) :=
  let count := readCount p.temp count
  if count ≤ msgSize then some (p.msg.take count, p.taken count) else none

/-! ## Readers -/

/-- Reads of the given sizes, one after the other: the bytes returned and the module after them. -/
def readAll (p : Proc) : List ℕ → Option (List UInt8 × Proc)
  | [] => some ([], p)
  | size :: sizes => do
    let (bytes, p) ← readProc p size
    let (rest, p) ← readAll p sizes
    return (bytes ++ rest, p)

/-- Sizes for one reader: none is zero, and the last read is the first one that returns 0. -/
def IsPass : ℤ → List ℕ → Prop
  | _, [] => False
  | temp, size :: sizes => 1 ≤ size ∧
    if readCount temp size = 0 then sizes = []
    else IsPass (toInt (temp - readCount temp size)) sizes

instance decidableIsPass : ∀ temp sizes, Decidable (IsPass temp sizes)
  | _, [] => instDecidableFalse
  | temp, size :: sizes =>
    have := decidableIsPass (toInt (temp - readCount temp size)) sizes
    inferInstanceAs (Decidable (1 ≤ size ∧ if readCount temp size = 0 then _ else _))

/-- Every reader is given the message, or a prefix of it that was reported as accepted and fits. -/
def PassesGiveBack (w : List UInt8) (ret : ℕ) : Proc → List (List ℕ) → Prop
  | _, [] => True
  | p, sizes :: passes => ∃ out p', readAll p sizes = some (out, p')
    ∧ (out = w ∨ ret ≤ msgSize ∧ out = w.take ret) ∧ PassesGiveBack w ret p' passes

/-- The message is written, and given back to all readers after it. -/
def GivesBack (p : Proc) (behind w : List UInt8) (passes : List (List ℕ)) : Prop :=
  ∃ ret p', writeProc p behind w = some (ret, p') ∧ PassesGiveBack w ret p' passes

/-- At each read what is due is what the buffer begins with: the string of the message, and behind
it what the copy left there. -/
def Repeats (old w : List UInt8) : List UInt8 → List ℕ → Prop
  | _, [] => True
  | rest, size :: sizes =>
    let count := min size rest.length
    count ≤ msgSize
      ∧ (∀ x < count, rest[x]? = if x < (upToNul w).length then w[x]? else old[x]?)
      ∧ Repeats old w (rest.drop count) sizes

instance decidableRepeats (old w : List UInt8) : ∀ rest sizes, Decidable (Repeats old w rest sizes)
  | _, [] => instDecidableTrue
  | rest, size :: sizes =>
    have := decidableRepeats old w (rest.drop (min size rest.length)) sizes
    inferInstanceAs (Decidable (_ ∧ _ ∧ _))

/-! ## The buffer -/

theorem upToNul_isPrefix (w : List UInt8) : upToNul w <+: w := by
  induction w with
  | nil => exact List.prefix_rfl
  | cons b w ih =>
    rw [upToNul]
    split
    next h => exact h ▸ (List.prefix_append [0] w)
    next => exact List.cons_prefix_cons.mpr ⟨rfl, ih⟩

theorem upToNul_eq_self {w : List UInt8} (h : 0 ∉ w.dropLast) : upToNul w = w := by
  induction w with
  | nil => rfl
  | cons b w ih =>
    rw [upToNul]
    split
    next hb =>
      cases w with
      | nil => rw [hb]
      | cons b' w => exact absurd (List.mem_cons.mpr (Or.inl hb.symm)) h
    next =>
      cases w with
      | nil => rfl
      | cons b' w => rw [ih fun hmem ↦ h (List.mem_cons_of_mem _ hmem)]

theorem getElem?_overwrite (old w : List UInt8) (x : ℕ) :
    (overwrite old (upToNul w))[x]? = if x < (upToNul w).length then w[x]? else old[x]? := by
  rw [overwrite]
  split
  next h =>
    rw [List.getElem?_append_left h, List.getElem?_eq_getElem h,
      List.prefix_iff_getElem?.mp (upToNul_isPrefix w) x h]
  next h =>
    rw [List.getElem?_append_right (not_lt.mp h), List.getElem?_drop,
      Nat.add_sub_cancel' (not_lt.mp h)]

theorem overwrite_eq_self {msg text : List UInt8} (h : text <+: msg) :
    overwrite msg text = msg := by
  obtain ⟨rest, rfl⟩ := h
  rw [overwrite, List.drop_left]

theorem Proc.upToNul_isPrefix_copied (p : Proc) (behind w : List UInt8) :
    upToNul w <+: p.copied behind w :=
  ⟨behind ++ p.msg.drop (upToNul w ++ behind).length, (List.append_assoc ..).symm⟩

theorem take_eq_take_iff {α : Type*} {l l' : List α} {c : ℕ} :
    l.take c = l'.take c ↔ ∀ x < c, l'[x]? = l[x]? := by
  constructor
  · intro h x hx
    rw [← List.getElem?_take_of_lt hx, ← h, List.getElem?_take_of_lt hx]
  · intro h
    apply List.ext_getElem?
    intro x
    rcases lt_or_ge x c with hx | hx
    · rw [List.getElem?_take_of_lt hx, List.getElem?_take_of_lt hx, h x hx]
    · rw [List.getElem?_take_eq_none hx, List.getElem?_take_eq_none hx]

/-! ## The count -/

section

variable {n c : ℕ}

theorem toInt_sub_natCast (h : c ≤ n) : toInt (toInt n - c) = toInt (n - c : ℕ) := by
  rw [toInt, toInt, toInt, Int.bmod_sub_bmod, Nat.cast_sub h]

theorem toSize_toInt (h : n < 2 ^ 32) :
    toSize (toInt n) = if n < 2 ^ 31 then n else n + (2 ^ 64 - 2 ^ 32) := by
  rw [toSize, toInt, Int.bmod_def]
  split <;> split <;> omega

theorem toInt_mod (n : ℕ) : toInt (n % 2 ^ 32 : ℕ) = toInt n := by
  rw [toInt, toInt, Int.natCast_mod]
  exact Int.emod_bmod ..

/-- Whatever does not run past the buffer is the number of bytes that are left, or asked for. -/
theorem readCount_toInt (h : n < 2 ^ 32) (size : ℕ) :
    readCount (toInt n) size = min size n
      ∨ msgSize < readCount (toInt n) size ∧ msgSize < min size n := by
  rw [readCount, toSize_toInt h, msgSize]
  split <;> split <;> omega

theorem readCount_toInt_eq (h : n < 2 ^ 32) {size : ℕ}
    (hfits : readCount (toInt n) size ≤ msgSize ∨ min size n ≤ msgSize) :
    readCount (toInt n) size = min size n := by
  rcases readCount_toInt h size with heq | ⟨hcount, hmin⟩
  · exact heq
  · omega

end

/-! ## One read -/

section

variable {p p' : Proc} {size : ℕ} {out : List UInt8}

theorem readProc_eq_some_iff : readProc p size = some (out, p')
    ↔ readCount p.temp size ≤ msgSize ∧ out = p.msg.take (readCount p.temp size)
      ∧ p' = p.taken (readCount p.temp size) := by
  rw [readProc, Option.ite_none_right_eq_some]
  refine and_congr_right fun _ ↦ ?_
  rw [Option.some_inj, Prod.mk.injEq, eq_comm, eq_comm (b := p')]

theorem Proc.taken_zero (p : Proc) : p.taken 0 = { p with temp := p.len } := rfl

theorem Proc.temp_taken {p : Proc} {n c : ℕ} (htemp : p.temp = toInt n) (hc : c ≤ n) (h0 : c ≠ 0) :
    (p.taken c).temp = toInt (n - c : ℕ) := by
  rw [← toInt_sub_natCast hc, ← htemp]
  exact if_neg h0

theorem length_take_msg (h : size ≤ msgSize) : (p.msg.take size).length = size := by
  rw [List.length_take, p.size, Nat.min_eq_left h]

end

/-! ## A pass -/

theorem readAll_cons_eq_some_iff {p p' : Proc} {size : ℕ} {sizes : List ℕ} {out : List UInt8} :
    readAll p (size :: sizes) = some (out, p') ↔ ∃ bytes q rest, readProc p size = some (bytes, q)
      ∧ readAll q sizes = some (rest, p') ∧ out = bytes ++ rest := by
  rw [readAll, Option.bind_eq_bind, Option.bind_eq_some_iff]
  constructor
  · rintro ⟨⟨bytes, q⟩, hread, h⟩
    obtain ⟨⟨rest, q'⟩, hrest, h⟩ := Option.bind_eq_some_iff.mp h
    obtain ⟨rfl, rfl⟩ := Prod.mk.inj (Option.some.inj h)
    exact ⟨bytes, q, rest, hread, hrest, rfl⟩
  · rintro ⟨bytes, q, rest, hread, hrest, rfl⟩
    exact ⟨(bytes, q), hread, Option.bind_eq_some_iff.mpr ⟨(rest, p'), hrest, rfl⟩⟩

/-- What is due comes back if the first read returns its beginning and the others the rest. -/
theorem readAll_cons_due_iff {p : Proc} {size c : ℕ} {sizes : List ℕ} {due : List UInt8}
    (hcount : readCount p.temp size = c) (hfits : c ≤ msgSize) :
    (∃ p', readAll p (size :: sizes) = some (due, p')) ↔ due.take c = p.msg.take c
      ∧ ∃ p', readAll (p.taken c) sizes = some (due.drop c, p') := by
  constructor
  · rintro ⟨p', hread⟩
    obtain ⟨bytes, q, rest, hone, hrest, rfl⟩ := readAll_cons_eq_some_iff.mp hread
    obtain ⟨-, rfl, rfl⟩ := readProc_eq_some_iff.mp hone
    have hlen : (p.msg.take c).length = c := length_take_msg hfits
    rw [hcount] at hrest ⊢
    rw [List.take_left' hlen, List.drop_left' hlen]
    exact ⟨rfl, p', hrest⟩
  · rintro ⟨htake, p', hrest⟩
    refine ⟨p', readAll_cons_eq_some_iff.mpr ⟨due.take c, p.taken c, due.drop c, ?_, hrest,
      (List.take_append_drop c due).symm⟩⟩
    rw [readProc_eq_some_iff, hcount]
    exact ⟨hfits, htake, rfl⟩

theorem isPass_cons_iff {p : Proc} {size : ℕ} {sizes : List ℕ} :
    IsPass p.temp (size :: sizes) ↔ 1 ≤ size ∧ (readCount p.temp size = 0 ∧ sizes = []
      ∨ readCount p.temp size ≠ 0 ∧ IsPass (p.taken (readCount p.temp size)).temp sizes) := by
  rw [IsPass]
  by_cases hzero : readCount p.temp size = 0
  · rw [if_pos hzero]
    simp [hzero]
  · rw [if_neg hzero, Proc.taken, if_neg hzero]
    simp [hzero]

/-- A pass returns as many bytes as were left, and starts the message again. -/
theorem readAll_pass {sizes : List ℕ} {p p' : Proc} {n : ℕ} {out : List UInt8} (h : n < 2 ^ 32)
    (htemp : p.temp = toInt n) (hpass : IsPass p.temp sizes)
    (hread : readAll p sizes = some (out, p')) :
    out.length = n ∧ p' = { p with temp := p.len } := by
  induction sizes generalizing p n out with
  | nil => exact hpass.elim
  | cons size sizes ih =>
    -- `n` is what is left, also where `temp` is negative
    obtain ⟨bytes, q, rest, hone, hrest, rfl⟩ := readAll_cons_eq_some_iff.mp hread
    obtain ⟨hcount, rfl, rfl⟩ := readProc_eq_some_iff.mp hone
    have hmin : readCount p.temp size = min size n := by
      rw [htemp] at hcount ⊢
      exact readCount_toInt_eq h (Or.inl hcount)
    obtain ⟨hsize, ⟨hzero, rfl⟩ | ⟨hpos, hlater⟩⟩ := isPass_cons_iff.mp hpass
    · obtain ⟨rfl, rfl⟩ := Prod.mk.inj (Option.some.inj hrest)
      have hn : n = 0 := by omega
      rw [hzero, hn]
      exact ⟨rfl, p.taken_zero⟩
    · have hle : readCount p.temp size ≤ n := by omega
      obtain ⟨hlen, rfl⟩ := ih (by omega) (Proc.temp_taken htemp hle hpos) hlater hrest
      refine ⟨?_, rfl⟩
      rw [List.length_append, length_take_msg hcount, hlen, Nat.add_sub_cancel' hle]

/-- A pass returns what is due exactly if each of its reads does. -/
theorem readAll_due_iff {old w : List UInt8} {sizes : List ℕ} {p : Proc} {rest : List UInt8}
    (hmsg : p.msg = overwrite old (upToNul w)) (h : rest.length < 2 ^ 32)
    (htemp : p.temp = toInt rest.length) (hpass : IsPass p.temp sizes) :
    (∃ p', readAll p sizes = some (rest, p')) ↔ Repeats old w rest sizes := by
  induction sizes generalizing p rest with
  | nil => exact hpass.elim
  | cons size sizes ih =>
    obtain ⟨hsize, hpass⟩ := isPass_cons_iff.mp hpass
    by_cases hfits : min size rest.length ≤ msgSize
    case neg =>
      -- a read past the buffer
      refine iff_of_false ?_ fun hdue ↦ hfits hdue.1
      rintro ⟨p', hread⟩
      obtain ⟨bytes, q, later, hone, -⟩ := readAll_cons_eq_some_iff.mp hread
      obtain ⟨hcount, -⟩ := readProc_eq_some_iff.mp hone
      rw [htemp] at hcount
      rw [readCount_toInt_eq h (Or.inl hcount)] at hcount
      exact hfits hcount
    have hcount : readCount p.temp size = min size rest.length := by
      rw [htemp]
      exact readCount_toInt_eq h (Or.inr hfits)
    rw [hcount] at hpass
    have hdue : rest.take (min size rest.length) = p.msg.take (min size rest.length)
        ↔ ∀ x < min size rest.length, rest[x]?
          = if x < (upToNul w).length then w[x]? else old[x]? := by
      rw [eq_comm, take_eq_take_iff, hmsg]
      simp only [getElem?_overwrite]
    -- the last read leaves nothing that is due; the others leave the rest
    have hlater : (∃ p', readAll (p.taken (min size rest.length)) sizes
        = some (rest.drop (min size rest.length), p'))
        ↔ Repeats old w (rest.drop (min size rest.length)) sizes := by
      rcases hpass with ⟨hzero, rfl⟩ | ⟨hpos, hpass⟩
      · have hnil : rest = [] := List.length_eq_zero_iff.mp (by omega)
        exact iff_of_true ⟨_, by rw [hnil, List.drop_nil]; rfl⟩ trivial
      · have hlen : (rest.drop (min size rest.length)).length
            = rest.length - min size rest.length := List.length_drop
        refine ih hmsg (by omega) ?_ hpass
        rw [hlen]
        exact Proc.temp_taken htemp (Nat.min_le_right _ _) hpos
    rw [readAll_cons_due_iff hcount hfits, hdue, hlater]
    exact ⟨fun hall ↦ ⟨hfits, hall⟩, fun hall ↦ hall.2⟩

/-! ## All readers -/

section

variable {p : Proc} {w : List UInt8}

/-- A message that was written, before it is read and after each pass. -/
structure Holds (p : Proc) (old w : List UInt8) : Prop where
  msg : p.msg = overwrite old (upToNul w)
  len : p.len = toInt w.length
  temp : p.temp = p.len

theorem Holds.temp_eq {old : List UInt8} (h : Holds p old w) : p.temp = toInt w.length :=
  h.temp.trans h.len

theorem writeProc_eq_some_iff {p' : Proc} {behind : List UInt8} {ret : ℕ} :
    writeProc p behind w = some (ret, p') ↔ (upToNul w ++ behind).length ≤ msgSize
      ∧ ret = w.length ∧ Holds p' (p.copied behind w) w := by
  have hcopied := overwrite_eq_self (p.upToNul_isPrefix_copied behind w)
  rw [writeProc]
  split
  next hfits =>
    rw [Option.some_inj, Prod.mk.injEq]
    constructor
    · rintro ⟨rfl, rfl⟩
      refine ⟨hfits, rfl, ?_⟩
      constructor <;> dsimp only
      exact hcopied.symm
    · rintro ⟨-, rfl, hmsg, hlen, htemp⟩
      refine ⟨rfl, Proc.ext ?_ ?_ ?_⟩
      · exact (hmsg.trans hcopied).symm
      · dsimp only
        exact hlen.symm
      · dsimp only
        exact (htemp.trans hlen).symm
  next hlong => exact iff_of_false (fun h ↦ (by cases h)) fun h ↦ hlong h.1

theorem accepted_iff {out : List UInt8} :
    (out = w ∨ w.length ≤ msgSize ∧ out = w.take w.length) ↔ out = w := by
  rw [List.take_length]
  exact ⟨fun h ↦ h.elim id And.right, Or.inl⟩

/-- A pass returns as many bytes as the message has, which are counted in an `int`, and leaves the
module as it was. -/
theorem Holds.pass {old out : List UInt8} {sizes : List ℕ} {p' : Proc} (h : Holds p old w)
    (hpass : IsPass (toInt w.length) sizes) (hread : readAll p sizes = some (out, p')) :
    out.length = w.length % 2 ^ 32 ∧ p' = p := by
  have hmod : w.length % 2 ^ 32 < 2 ^ 32 := Nat.mod_lt _ (Nat.two_pow_pos 32)
  have htemp : p.temp = toInt (w.length % 2 ^ 32 : ℕ) := h.temp_eq.trans (toInt_mod _).symm
  obtain ⟨hlen, rfl⟩ := readAll_pass hmod htemp (h.temp_eq ▸ hpass) hread
  exact ⟨hlen, Proc.ext rfl rfl h.temp.symm⟩

theorem pass_gives_iff {old : List UInt8} {sizes : List ℕ} (h : Holds p old w)
    (hpass : IsPass (toInt w.length) sizes) :
    (∃ p', readAll p sizes = some (w, p')) ↔ w.length < 2 ^ 32 ∧ Repeats old w w sizes := by
  have hstart : IsPass p.temp sizes := h.temp_eq ▸ hpass
  rcases Nat.lt_or_ge w.length (2 ^ 32) with hlt | hge
  · rw [readAll_due_iff h.msg hlt h.temp_eq hstart]
    exact ⟨fun hdue ↦ ⟨hlt, hdue⟩, And.right⟩
  -- `temp` has lost the high bits of the length
  · refine iff_of_false ?_ fun hdue ↦ Nat.not_lt.mpr hge hdue.1
    rintro ⟨p', hread⟩
    obtain ⟨hlen, -⟩ := h.pass hpass hread
    omega

theorem passesGiveBack_iff {old : List UInt8} {passes : List (List ℕ)} (h : Holds p old w)
    (hpasses : ∀ sizes ∈ passes, IsPass (toInt w.length) sizes) :
    PassesGiveBack w w.length p passes
      ↔ ∀ sizes ∈ passes, w.length < 2 ^ 32 ∧ Repeats old w w sizes := by
  induction passes with
  | nil => exact iff_of_true trivial fun sizes hmem ↦ absurd hmem List.not_mem_nil
  | cons sizes passes ih =>
    obtain ⟨hpass, hpasses⟩ := List.forall_mem_cons.mp hpasses
    rw [List.forall_mem_cons, ← pass_gives_iff h hpass, ← ih hpasses, PassesGiveBack]
    have hagain : ∀ {p'}, readAll p sizes = some (w, p') → p' = p :=
      fun hread ↦ (h.pass hpass hread).2
    constructor
    · rintro ⟨out, p', hread, hout, hrest⟩
      obtain rfl := accepted_iff.mp hout
      exact ⟨⟨p', hread⟩, hagain hread ▸ hrest⟩
    · rintro ⟨⟨p', hread⟩, hrest⟩
      exact ⟨w, p', hread, Or.inl rfl, (hagain hread).symm ▸ hrest⟩

end

/-- **When the message comes back.** Exactly if it is copied within the buffer and what is due at
every read is what the buffer begins with. -/
theorem givesBack_iff (p : Proc) (behind : List UInt8) {w : List UInt8} {passes : List (List ℕ)}
    (hpasses : ∀ sizes ∈ passes, IsPass (toInt w.length) sizes) :
    GivesBack p behind w passes ↔ (upToNul w ++ behind).length ≤ msgSize
      ∧ ∀ sizes ∈ passes, w.length < 2 ^ 32 ∧ Repeats (p.copied behind w) w w sizes := by
  constructor
  · rintro ⟨ret, p', hwrite, hback⟩
    obtain ⟨hfits, rfl, hholds⟩ := writeProc_eq_some_iff.mp hwrite
    exact ⟨hfits, (passesGiveBack_iff hholds hpasses).mp hback⟩
  · rintro ⟨hfits, hdue⟩
    obtain ⟨⟨ret, p'⟩, hwrite⟩ := Option.isSome_iff_exists.mp
      (show (writeProc p behind w).isSome by rw [writeProc, dif_pos hfits]; rfl)
    obtain ⟨-, rfl, hholds⟩ := writeProc_eq_some_iff.mp hwrite
    exact ⟨w.length, p', hwrite, (passesGiveBack_iff hholds hpasses).mpr hdue⟩

theorem repeats_nil (old w : List UInt8) (sizes : List ℕ) : Repeats old w [] sizes := by
  induction sizes with
  | nil => exact trivial
  | cons size sizes ih =>
    rw [Repeats, List.length_nil, Nat.min_zero, List.drop_nil]
    exact ⟨Nat.zero_le _, fun x hx ↦ absurd hx (Nat.not_lt_zero x), ih⟩

/-- A string that fits comes back to readers who ask for all of it at once. -/
theorem givesBack_of_one_read (p : Proc) {behind w : List UInt8} {passes : List (List ℕ)}
    (hfits : (w ++ behind).length ≤ msgSize) (h0 : 0 ∉ w.dropLast)
    (hpasses : ∀ sizes ∈ passes, IsPass (toInt w.length) sizes)
    (hsizes : ∀ sizes ∈ passes, ∃ size, sizes.head? = some size ∧ w.length ≤ size) :
    GivesBack p behind w passes := by
  have htext : upToNul w = w := upToNul_eq_self h0
  refine (givesBack_iff p behind hpasses).mpr ⟨htext.symm ▸ hfits, fun sizes hmem ↦ ?_⟩
  obtain ⟨size, hhead, hall⟩ := hsizes sizes hmem
  obtain ⟨later, rfl⟩ := List.head?_eq_some_iff.mp hhead
  have hlen : w.length ≤ msgSize := (List.length_append ▸ Nat.le_add_right _ _).trans hfits
  have hint : w.length < 2 ^ 32 := by
    rw [msgSize] at hlen
    omega
  refine ⟨hint, ?_⟩
  rw [Repeats, Nat.min_eq_right hall, htext, List.drop_length]
  exact ⟨hlen, fun x hx ↦ (if_pos hx).symm, repeats_nil _ _ _⟩

/-- The module as it is loaded, with zeros in the buffer. -/
def loaded : Proc := { msg := List.replicate msgSize 0, len := 0, temp := 0, size := by decide }

/-- `aa` is read one byte at a time, and then at once. -/
theorem givesBack_iff_aa : GivesBack loaded [] [97, 97] [[1, 1, 1], [5, 1]] := by
  have hpasses : ∀ sizes ∈ [[1, 1, 1], [5, 1]],
      IsPass (toInt ([97, 97] : List UInt8).length) sizes := by decide
  exact (givesBack_iff loaded [] hpasses).mpr ⟨by decide, by decide⟩

/-- `hi` is read one byte at a time, and comes back as `hh`. -/
theorem not_givesBack :
    IsPass (toInt 2) [1, 1, 1] ∧ ¬ GivesBack loaded [] [104, 105] [[1, 1, 1]] := by
  have hrun : ((writeProc loaded [] [104, 105]).bind fun r ↦ (readAll r.2 [1, 1, 1]).map Prod.fst)
      = some [104, 104] := by decide
  refine ⟨by decide, ?_⟩
  rintro ⟨ret, p, hwrite, out, q, hread, hout, -⟩
  rw [hwrite, Option.bind_some, hread, Option.map_some, Option.some_inj] at hrun
  obtain ⟨-, rfl, -⟩ := writeProc_eq_some_iff.mp hwrite
  rw [accepted_iff.mp hout] at hrun
  change [104, 105] = [104, 104] at hrun
  exact absurd hrun (by decide)

end AllProjects.Procfs
