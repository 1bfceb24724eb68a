import AllProjects.CharDevice.Ioctl
import AllProjects.Memory.Scan
import Mathlib.Data.Int.ModEq

/-!
# The character device that says hello

Every time the device is opened it makes up a new message, with the number of the times it was
opened before. Whoever has it open reads this message, in pieces of whatever sizes, until it is
closed; an attempt to open it in the meantime is refused and does not count.
-/

namespace AllProjects.CharDevice

/-- The static variables of the module, and that of `device_open`. -/
structure Hello where
  deviceOpen : ℤ
  msg : List UInt8
  msgPtr : Option ℕ
  counter : ℤ

/-- The module when it is loaded. -/
def Hello.load : Hello := ⟨0, List.replicate bufLen 0, none, 0⟩

/-- `counter++`, on an `int`. -/
def incrCounter (counter : ℤ) : ℤ := Int.bmod (counter + 1) (2 ^ 32)

/-- `%d`. -/
def formatInt (n : ℤ) : List UInt8 :=
  (if n < 0 then [45] else []) ++ (Nat.toDigits 10 n.natAbs).map fun c ↦ c.toNat.toUInt8

/-- `"I already told you %d times Hello world!\n"`. -/
def helloText (counter : ℤ) : List UInt8 :=
  ascii "I already told you " ++ formatInt counter ++ ascii " times Hello world!\n"

/-- What a process does with the device. -/
inductive HelloCall
  | openFile
  | release
  | read (length : ℕ)
  | write (buffer : List UInt8)
  deriving DecidableEq

/-- `EINVAL`. -/
def einval : ℤ := 22

/-- The functions of `fops`. -/
def Hello.exec (d : Hello) : HelloCall → Except Fault (Reply × Hello)
  | .openFile =>
    if d.deviceOpen ≠ 0 then .ok (⟨-ebusy, []⟩, d)
    else if (helloText d.counter).length < bufLen then
      .ok (⟨0, []⟩,
        { deviceOpen := d.deviceOpen + 1
          msg := helloText d.counter ++ 0 :: d.msg.drop ((helloText d.counter).length + 1)
          msgPtr := some 0
          counter := incrCounter d.counter })
    -- `sprintf` leaves the buffer
    else .error .segv
  | .release => .ok (⟨0, []⟩, { d with deviceOpen := d.deviceOpen - 1 })
  | .read length =>
    match d.msgPtr with
    | none => .error .segv
    | some ptr => (deviceRead d.msg ptr length).map fun r ↦
      (⟨r.2.length, r.2⟩, { d with msgPtr := some r.1 })
  | .write _ => .ok (⟨-einval, []⟩, d)

/-- A call and its reply. All but `open` go through a file that is open. -/
def Hello.Step (d : Hello) (e : HelloCall × Reply) (d' : Hello) : Prop :=
  (e.1 = .openFile ∨ d.deviceOpen ≠ 0) ∧ d.exec e.1 = .ok (e.2, d')

/-! ## The text fits -/

theorem length_formatInt_le {n : ℤ} (hn : n.natAbs < 10 ^ 10) : (formatInt n).length ≤ 11 := by
  have hdigits : (Nat.toDigits 10 n.natAbs).length ≤ 10 :=
    (Nat.length_toDigits_le_iff (by decide) (by decide)).mpr hn
  rw [formatInt, List.length_append, List.length_map]
  split
  · rw [List.length_singleton]
    omega
  · rw [List.length_nil]
    omega

theorem natAbs_bmod_lt (n : ℤ) : (Int.bmod n (2 ^ 32)).natAbs < 10 ^ 10 := by
  have hlow := Int.le_bmod (x := n) (m := 2 ^ 32) (by decide)
  have hhigh := Int.bmod_lt (x := n) (m := 2 ^ 32) (by decide)
  omega

theorem length_helloText_lt {n : ℤ} (hn : n.natAbs < 10 ^ 10) :
    (helloText n).length < bufLen := by
  have hformat := length_formatInt_le hn
  have hfront : (ascii "I already told you ").length = 19 := by decide
  have hback : (ascii " times Hello world!\n").length = 20 := by decide
  rw [helloText, List.length_append, List.length_append, hfront, hback, bufLen]
  omega

theorem digit_ne_zero {c : Char} (hc : c.isDigit = true) : c.toNat.toUInt8 ≠ 0 := by
  have hrange : 48 ≤ c.toNat ∧ c.toNat ≤ 57 := by
    rw [Char.isDigit, Bool.and_eq_true, decide_eq_true_iff, decide_eq_true_iff] at hc
    exact hc
  intro h
  have hmod : c.toNat % 256 = 0 := congrArg UInt8.toNat h
  omega

theorem zero_notMem_helloText (n : ℤ) : 0 ∉ helloText n := by
  have hfront : 0 ∉ ascii "I already told you " := by decide
  have hback : 0 ∉ ascii " times Hello world!\n" := by decide
  rw [helloText, List.mem_append, List.mem_append]
  rintro ((h | h) | h)
  · exact hfront h
  · rw [formatInt, List.mem_append] at h
    rcases h with h | h
    · split at h
      · exact absurd (List.mem_singleton.mp h) (by decide)
      · exact List.not_mem_nil h
    · obtain ⟨c, hc, hzero⟩ := List.mem_map.mp h
      exact digit_ne_zero (Nat.isDigit_of_mem_toDigits (by decide) (by decide) hc) hzero
  · exact hback h

/-! ## The readers -/

/-- The times the device was opened, and what was read since the last time, of how much. -/
structure Readers where
  opens : ℕ
  out : List UInt8
  asked : ℕ

/-- What a call adds to it. -/
def Readers.track (t : Readers) (e : HelloCall × Reply) : Readers :=
  match e.1 with
  | .openFile => if e.2.ret = 0 then ⟨t.opens + 1, [], 0⟩ else t
  | .read length => ⟨t.opens, t.out ++ e.2.out, t.asked + length⟩
  | _ => t

/-- The message of the reader that was the `opens`-th to open the device. -/
def greeting (opens : ℕ) : List UInt8 := helloText (Int.bmod ((opens : ℤ) - 1) (2 ^ 32))

/-- The device counts, and hands out the message of whoever has it open. -/
structure Greets (d : Hello) (t : Readers) : Prop where
  opened : d.deviceOpen = 0 ∨ d.deviceOpen = 1
  counter : d.counter = Int.bmod t.opens (2 ^ 32)
  handed : d.deviceOpen ≠ 0 → ∃ ptr, d.msgPtr = some ptr
    ∧ Handed d.msg (greeting t.opens) ptr t.out t.asked

theorem greets_load : Greets Hello.load ⟨0, [], 0⟩ :=
  ⟨.inl rfl, rfl, fun h ↦ absurd rfl h⟩

variable {d d' : Hello} {t : Readers} {e : HelloCall × Reply}

theorem Greets.step (ht : Greets d t) (h : d.Step e d') : Greets d' (t.track e) := by
  obtain ⟨c, r⟩ := e
  obtain ⟨hfile, h⟩ := h
  cases c with
  | openFile =>
    have hfits : (helloText d.counter).length < bufLen :=
      length_helloText_lt (ht.counter ▸ natAbs_bmod_lt _)
    rw [Hello.exec] at h
    split at h
    · cases h
      rw [Readers.track, if_neg (by decide)]
      exact ht
    · rename_i hclosed
      cases h
      rw [Readers.track, if_pos rfl]
      refine ⟨.inr ?_, ?_, fun _ ↦ ⟨0, rfl, ?_⟩⟩
      · dsimp only
        rw [not_not.mp hclosed]
        rfl
      · dsimp only
        rw [incrCounter, ht.counter, Nat.cast_succ, Int.bmod_add_bmod]
      · have hgreet : greeting (t.opens + 1) = helloText d.counter := by
          rw [greeting, Nat.cast_succ, add_sub_cancel_right, ht.counter]
        rw [hgreet]
        exact handed_start (cstring_append_zero (zero_notMem_helloText _) _)
  | release =>
    have hopen : d.deviceOpen ≠ 0 := hfile.resolve_left HelloCall.noConfusion
    cases h
    refine ⟨.inl ?_, ht.counter, fun _ ↦ ht.handed hopen⟩
    dsimp only
    rw [ht.opened.resolve_left hopen]
    rfl
  | read length =>
    have hopen : d.deviceOpen ≠ 0 := hfile.resolve_left HelloCall.noConfusion
    obtain ⟨ptr, hptr, hhanded⟩ := ht.handed hopen
    obtain ⟨ptr', hread, hhanded'⟩ := hhanded.read length
    rw [Hello.exec, hptr] at h
    dsimp only at h
    rw [hread] at h
    cases h
    exact ⟨ht.opened, ht.counter, fun _ ↦ ⟨ptr', rfl, hhanded'⟩⟩
  | write buffer =>
    cases h
    exact ht

theorem greets_of_run {es : List (HelloCall × Reply)} (ht : Greets d t)
    (hrun : Run Hello.Step d es d') : Greets d' (es.foldl Readers.track t) := by
  induction hrun generalizing t with
  | nil d => exact ht
  | cons hstep _ ih => exact ih (ht.step hstep)

/-- **Every reader is told its number.** In every run from the loading of the module, whoever opened
the device as the `n`-th has read the beginning of the message with the number `n - 1`, as many
bytes of it as were asked for; a read of any size succeeds, with what comes next; and nobody else
can open the device meanwhile. -/
theorem readers_are_greeted {es : List (HelloCall × Reply)} (hrun : Run Hello.Step Hello.load es d)
    (hopen : d.deviceOpen ≠ 0) :
    let t := es.foldl Readers.track ⟨0, [], 0⟩
    t.out = (greeting t.opens).take t.asked
      ∧ (∀ length, ∃ d', d.Step (.read length,
        ⟨(((greeting t.opens).drop t.asked).take length).length,
          ((greeting t.opens).drop t.asked).take length⟩) d')
      ∧ d.Step (.openFile, ⟨-ebusy, []⟩) d := by
  intro t
  obtain ⟨ptr, hptr, hhanded⟩ := (greets_of_run greets_load hrun).handed hopen
  refine ⟨hhanded.out_eq, fun length ↦ ?_, .inl rfl, if_pos hopen⟩
  obtain ⟨ptr', hread, -⟩ := hhanded.read length
  refine ⟨{ d with msgPtr := some ptr' }, .inr hopen, ?_⟩
  rw [Hello.exec, hptr]
  dsimp only
  rw [hread]
  rfl

/-- The device is opened twice, and the second reader reads three bytes. -/
def secondReader : List (HelloCall × Reply) :=
  [(.openFile, ⟨0, []⟩), (.release, ⟨0, []⟩), (.openFile, ⟨0, []⟩), (.read 3, ⟨3, [73, 32, 97]⟩)]

theorem readers_are_greeted_second : ∃ d : Hello,
    let t := secondReader.foldl Readers.track ⟨0, [], 0⟩
    t.out = (greeting t.opens).take t.asked
      ∧ (∀ length, ∃ d', d.Step (.read length,
        ⟨(((greeting t.opens).drop t.asked).take length).length,
          ((greeting t.opens).drop t.asked).take length⟩) d')
      ∧ d.Step (.openFile, ⟨-ebusy, []⟩) d := by
  have hrun : Run Hello.Step Hello.load secondReader _ := .cons ⟨.inl rfl, rfl⟩ <|
    .cons ⟨.inr (by decide), rfl⟩ <| .cons ⟨.inl rfl, rfl⟩ <| .cons ⟨.inr (by decide), rfl⟩ <|
    .nil _
  exact ⟨_, readers_are_greeted hrun (by decide)⟩

end AllProjects.CharDevice
