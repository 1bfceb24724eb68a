import AllProjects.CharDevice.Reader
import AllProjects.Transition.Run
import Mathlib.Data.List.Basic

/-!
# The character device with ioctls

The device has one buffer, which a process sets with `write` or `IOCTL_SET_MSG` and gets back with
`read`, `IOCTL_GET_MSG` or byte by byte. Nothing keeps a NUL in the buffer: that is up to what is
written, and everything the readers are promised depends on it.
-/

namespace AllProjects.CharDevice

/-- The static variables of the module. `messagePtr` is an offset into `message`. -/
structure Device where
  deviceOpen : ℤ
  message : List UInt8
  messagePtr : Option ℕ
  deriving DecidableEq

/-- The module when it is loaded. -/
def load : Device := ⟨0, List.replicate bufLen 0, none⟩

/-- What a process does with the device. A process passes a buffer of bytes to `write`, and a
pointer to bytes to `IOCTL_SET_MSG`. -/
inductive Call
  | openFile
  | release
  | read (length : ℕ)
  | write (buffer : List UInt8)
  | setMsg (user : List UInt8)
  | getMsg
  | getNthByte (n : ℕ)
  deriving DecidableEq

/-- The value returned, and the bytes put into the memory of the process. -/
structure Reply where
  ret : ℤ
  out : List UInt8
  deriving DecidableEq

/-- `get_user(ch, ptr)`. It sets `ch` to zero when the byte cannot be read. -/
def getUser (user : List UInt8) (i : ℕ) : UInt8 := user.getD i 0

/-- `for (i = 0; i < n; i++) get_user(Message[i], buffer + i)`. -/
def writeLoop (buffer : List UInt8) (n : ℕ) (message : List UInt8) : List UInt8 :=
  (List.range n).foldl (fun msg i ↦ msg.set i (getUser buffer i)) message

/-- `device_write`. -/
def deviceWrite (d : Device) (buffer : List UInt8) (length : ℕ) : ℕ × Device :=
  (min length bufLen,
    { d with message := writeLoop buffer (min length bufLen) d.message, messagePtr := some 0 })

/-- `for (i = 0; ch && i < BUF_LEN; i++, temp++) get_user(ch, temp)`, with `k` rounds left to
`BUF_LEN`. -/
def lengthLoop (user : List UInt8) : ℕ → ℕ → UInt8 → ℕ
  | 0, i, _ => i
  | k + 1, i, ch => if ch = 0 then i else lengthLoop user k (i + 1) (getUser user i)

/-- The length that `IOCTL_SET_MSG` finds. -/
def messageLength (user : List UInt8) : ℕ := lengthLoop user bufLen 0 (getUser user 0)

/-- A `char` returned as a `long`. -/
def signedChar (b : UInt8) : ℤ := if b < 128 then b.toNat else (b.toNat : ℤ) - 256

/-- `EBUSY`. -/
def ebusy : ℤ := 16

/-- The functions of `Fops`. -/
def Device.exec (d : Device) : Call → Except Fault (Reply × Device)
  | .openFile =>
    if d.deviceOpen ≠ 0 then .ok (⟨-ebusy, []⟩, d)
    else .ok (⟨0, []⟩, { d with deviceOpen := d.deviceOpen + 1, messagePtr := some 0 })
  | .release => .ok (⟨0, []⟩, { d with deviceOpen := d.deviceOpen - 1 })
  | .read length =>
    match d.messagePtr with
    | none => .error .segv
    | some ptr => (deviceRead d.message ptr length).map fun r ↦
      (⟨r.2.length, r.2⟩, { d with messagePtr := some r.1 })
  | .write buffer =>
    let r := deviceWrite d buffer buffer.length
    .ok (⟨r.1, []⟩, r.2)
  | .setMsg user => .ok (⟨0, []⟩, (deviceWrite d user (messageLength user)).2)
  | .getMsg =>
    match d.messagePtr with
    | none => .error .segv
    | some ptr => (deviceRead d.message ptr 99).map fun r ↦
      -- a NUL is put behind what was read
      (⟨0, r.2 ++ [0]⟩, { d with messagePtr := some r.1 })
  | .getNthByte n =>
    match d.message[n]? with
    | none => .error .segv
    | some b => .ok (⟨signedChar b, []⟩, d)

/-- A call and its reply. All but `open` go through a file that is open. -/
def Device.Step (d : Device) (e : Call × Reply) (d' : Device) : Prop :=
  (e.1 = .openFile ∨ d.deviceOpen ≠ 0) ∧ d.exec e.1 = .ok (e.2, d')

/-! ## Writing -/

variable {d d' : Device} {e : Call × Reply}

theorem length_writeLoop (buffer : List UInt8) (n : ℕ) (message : List UInt8) :
    (writeLoop buffer n message).length = message.length := by
  rw [writeLoop]
  induction n with
  | zero => rfl
  | succ n ih => rw [List.range_succ, List.foldl_append, List.foldl_cons, List.foldl_nil,
      List.length_set, ih]

theorem getElem?_writeLoop (buffer : List UInt8) {n : ℕ} {message : List UInt8}
    (hn : n ≤ message.length) (i : ℕ) : (writeLoop buffer n message)[i]?
      = if i < n then some (getUser buffer i) else message[i]? := by
  induction n with
  | zero => rw [if_neg (Nat.not_lt_zero i)]; rfl
  | succ n ih =>
    have hstep : writeLoop buffer (n + 1) message
        = (writeLoop buffer n message).set n (getUser buffer n) := by
      rw [writeLoop, List.range_succ, List.foldl_append]
      rfl
    rw [hstep, List.getElem?_set, length_writeLoop]
    rcases Nat.lt_trichotomy i n with hlt | rfl | hgt
    · rw [if_neg (Nat.ne_of_gt hlt), ih (Nat.le_of_succ_le hn), if_pos hlt,
        if_pos (Nat.lt_succ_of_lt hlt)]
    · rw [if_pos rfl, if_pos (Nat.lt_of_succ_le hn), if_pos (Nat.lt_succ_self i)]
    · rw [if_neg (Nat.ne_of_lt hgt), ih (Nat.le_of_succ_le hn), if_neg (Nat.lt_asymm hgt),
        if_neg (Nat.not_lt.mpr hgt)]

theorem zero_mem_writeLoop {buffer : List UInt8} {n : ℕ} {message : List UInt8}
    (hn : n ≤ message.length) : 0 ∈ writeLoop buffer n message
      ↔ (∃ i < n, getUser buffer i = 0) ∨ 0 ∈ message.drop n := by
  rw [List.mem_iff_getElem?, List.mem_iff_getElem?]
  constructor
  · rintro ⟨i, hi⟩
    rw [getElem?_writeLoop buffer hn] at hi
    by_cases hlt : i < n
    · rw [if_pos hlt] at hi
      exact .inl ⟨i, hlt, Option.some.inj hi⟩
    · rw [if_neg hlt] at hi
      refine .inr ⟨i - n, ?_⟩
      rw [List.getElem?_drop, Nat.add_sub_cancel' (Nat.not_lt.mp hlt), hi]
  · rintro (⟨i, hlt, hi⟩ | ⟨i, hi⟩)
    · refine ⟨i, ?_⟩
      rw [getElem?_writeLoop buffer hn, if_pos hlt, hi]
    · refine ⟨n + i, ?_⟩
      rw [getElem?_writeLoop buffer hn, if_neg (Nat.not_lt.mpr (Nat.le_add_right n i)),
        ← List.getElem?_drop, hi]

/-! ## The length of a message -/

theorem lengthLoop_of_ne {user : List UInt8} {k i : ℕ} {ch : UInt8} (hch : ch ≠ 0)
    (h : ∀ j < k, getUser user (i + j) ≠ 0) : lengthLoop user k i ch = i + k := by
  induction k generalizing i ch with
  | zero => rfl
  | succ k ih =>
    have hi : getUser user i ≠ 0 := h 0 (Nat.succ_pos k)
    rw [lengthLoop, if_neg hch, ih hi, Nat.add_right_comm, Nat.add_assoc]
    intro j hj
    have hne := h (j + 1) (Nat.succ_lt_succ hj)
    rwa [Nat.add_comm j 1, ← Nat.add_assoc] at hne

theorem lengthLoop_of_eq {user : List UInt8} {k i j : ℕ} {ch : UInt8} (hch : ch ≠ 0) (hj : j < k)
    (hzero : getUser user (i + j) = 0) (h : ∀ j' < j, getUser user (i + j') ≠ 0) :
    lengthLoop user k i ch = i + j + 1 := by
  induction k generalizing i j ch with
  | zero => exact absurd hj (Nat.not_lt_zero j)
  | succ k ih =>
    rw [lengthLoop, if_neg hch]
    cases j with
    | zero =>
      rw [Nat.add_zero] at hzero
      rw [hzero]
      cases k <;> rfl
    | succ j =>
      have hshift : ∀ n, i + 1 + n = i + (n + 1) := by omega
      have hi : getUser user i ≠ 0 := h 0 (Nat.succ_pos j)
      rw [ih hi (Nat.lt_of_succ_lt_succ hj) (by rw [hshift, hzero]), hshift]
      intro j' hj'
      rw [hshift]
      exact h (j' + 1) (Nat.succ_lt_succ hj')

theorem messageLength_eq {user : List UInt8} {k : ℕ} (hk : k < bufLen)
    (hzero : getUser user k = 0) (h : ∀ j < k, getUser user j ≠ 0) :
    messageLength user = if k = 0 then 0 else k + 1 := by
  rw [messageLength]
  split
  · rename_i hk0
    rw [hk0] at hzero
    rw [hzero]
    rfl
  · rename_i hk0
    have hloop := @lengthLoop_of_eq user bufLen 0 k _ (h 0 (Nat.pos_of_ne_zero hk0)) hk
    simp only [Nat.zero_add] at hloop
    exact hloop hzero h

theorem messageLength_of_ne {user : List UInt8} (h : ∀ j < bufLen, getUser user j ≠ 0) :
    messageLength user = bufLen := by
  rw [messageLength, lengthLoop_of_ne (h 0 (by decide)), Nat.zero_add]
  intro j hj
  rw [Nat.zero_add]
  exact h j hj

theorem messageLength_le (user : List UInt8) : messageLength user ≤ bufLen := by
  by_cases h : ∃ j < bufLen, getUser user j = 0
  · have hk := Nat.find_spec h
    rw [messageLength_eq hk.1 hk.2 fun j hj hzero ↦
      Nat.find_min h hj ⟨Nat.lt_trans hj hk.1, hzero⟩]
    split
    · exact Nat.zero_le _
    · exact hk.1
  · rw [messageLength_of_ne fun j hj hzero ↦ h ⟨j, hj, hzero⟩]

/-! ## What a call does -/

/-- A call opens or releases the file, reads from the pointer on, writes from the beginning on, or
looks at one byte. -/
inductive Effect (d : Device) (e : Call × Reply) (d' : Device) : Prop
  | busy : e.1 = .openFile → d.deviceOpen ≠ 0 → e.2.ret = -ebusy → d' = d → Effect d e d'
  | opened : e.1 = .openFile → d.deviceOpen = 0 → e.2.ret = 0 →
    d' = { d with deviceOpen := d.deviceOpen + 1, messagePtr := some 0 } → Effect d e d'
  | released : e.1 = .release → d.deviceOpen ≠ 0 →
    d' = { d with deviceOpen := d.deviceOpen - 1 } → Effect d e d'
  | read (length ptr ptr' : ℕ) (bs : List UInt8) :
    e.1 = .read length ∧ e.2.out = bs ∨ e.1 = .getMsg ∧ length = 99 ∧ e.2.out = bs ++ [0] →
    d.deviceOpen ≠ 0 → d.messagePtr = some ptr →
    deviceRead d.message ptr length = .ok (ptr', bs) →
    d' = { d with messagePtr := some ptr' } → Effect d e d'
  | written (user : List UInt8) (n : ℕ) :
    e.1 = .write user ∧ n = min user.length bufLen ∨ e.1 = .setMsg user ∧ n = messageLength user →
    d.deviceOpen ≠ 0 →
    d' = { d with message := writeLoop user n d.message, messagePtr := some 0 } → Effect d e d'
  | looked (n : ℕ) : e.1 = .getNthByte n → d' = d → Effect d e d'

theorem Device.Step.effect (h : d.Step e d') : Effect d e d' := by
  obtain ⟨c, r⟩ := e
  obtain ⟨hfile, h⟩ := h
  have hopen : c ≠ .openFile → d.deviceOpen ≠ 0 := fun hc ↦ hfile.resolve_left hc
  have ofRead : ∀ {length : ℕ} {f : ℕ × List UInt8 → Reply},
      (match d.messagePtr with
        | none => .error .segv
        | some ptr => (deviceRead d.message ptr length).map fun r ↦
          (f r, { d with messagePtr := some r.1 }) : Except Fault (Reply × Device)) = .ok (r, d') →
      ∃ ptr ptr' bs, d.messagePtr = some ptr ∧ deviceRead d.message ptr length = .ok (ptr', bs)
        ∧ r = f (ptr', bs) ∧ d' = { d with messagePtr := some ptr' } := by
    intro length f h
    split at h
    · cases h
    · rename_i ptr hptr
      obtain ⟨⟨ptr', bs⟩, hread, hres⟩ := Except.map_eq_ok_iff.mp h
      cases hres
      exact ⟨ptr, ptr', bs, hptr, hread, rfl, rfl⟩
  cases c with
  | openFile =>
    rw [exec] at h
    split at h
    · cases h
      exact .busy rfl ‹_› rfl rfl
    · cases h
      exact .opened rfl (not_not.mp ‹_›) rfl rfl
  | release =>
    cases h
    exact .released rfl (hopen Call.noConfusion) rfl
  | read length =>
    obtain ⟨ptr, ptr', bs, hptr, hread, rfl, rfl⟩ := ofRead h
    exact .read length ptr ptr' bs (.inl ⟨rfl, rfl⟩) (hopen Call.noConfusion) hptr hread rfl
  | write buffer =>
    cases h
    exact .written buffer _ (.inl ⟨rfl, rfl⟩) (hopen Call.noConfusion) rfl
  | setMsg user =>
    cases h
    refine .written user _ (.inr ⟨rfl, rfl⟩) (hopen Call.noConfusion) ?_
    rw [deviceWrite, Nat.min_eq_left (messageLength_le user)]
  | getMsg =>
    obtain ⟨ptr, ptr', bs, hptr, hread, rfl, rfl⟩ := ofRead h
    exact .read 99 ptr ptr' bs (.inr ⟨rfl, rfl, rfl⟩) (hopen Call.noConfusion) hptr hread rfl
  | getNthByte n =>
    rw [exec] at h
    split at h
    · cases h
    · cases h
      exact .looked n rfl rfl

/-- The shape of the device. -/
structure Shaped (d : Device) : Prop where
  length : d.message.length = bufLen
  opened : d.deviceOpen = 0 ∨ d.deviceOpen = 1
  ptr : d.deviceOpen ≠ 0 → d.messagePtr ≠ none

theorem shaped_load : Shaped load :=
  ⟨List.length_replicate, .inl rfl, fun h ↦ absurd rfl h⟩

theorem Shaped.step (hs : Shaped d) (h : d.Step e d') : Shaped d' := by
  cases h.effect with
  | busy _ _ _ hd => exact hd ▸ hs
  | opened _ hopen _ hd =>
    subst hd
    exact ⟨hs.length, .inr (by rw [hopen]; rfl), fun _ ↦ Option.some_ne_none 0⟩
  | released _ hopen hd =>
    subst hd
    have hone : d.deviceOpen = 1 := hs.opened.resolve_left hopen
    exact ⟨hs.length, .inl (by rw [hone]; rfl), fun _ ↦ hs.ptr hopen⟩
  | read _ _ ptr' _ _ _ _ _ hd =>
    subst hd
    exact ⟨hs.length, hs.opened, fun _ ↦ Option.some_ne_none ptr'⟩
  | written user n _ _ hd =>
    subst hd
    exact ⟨(length_writeLoop user n _).trans hs.length, hs.opened, fun _ ↦ Option.some_ne_none 0⟩
  | looked _ _ hd => exact hd ▸ hs

/-! ## What keeps the message a string -/

/-- A write leaves a NUL in the buffer, its own or one of the message before. -/
def Keeps (d : Device) (e : Call × Reply) : Prop :=
  match e.1 with
  | .write buffer => (∃ i < min buffer.length bufLen, getUser buffer i = 0)
    ∨ 0 ∈ d.message.drop (min buffer.length bufLen)
  | .setMsg user => ∃ i < bufLen, getUser user i = 0
  | _ => True

/-- `IOCTL_SET_MSG` writes a NUL or nothing, or else fills the buffer. -/
theorem zero_mem_setMsg {message : List UInt8} (hlen : message.length = bufLen)
    (hm : 0 ∈ message) (user : List UInt8) :
    0 ∈ writeLoop user (messageLength user) message ↔ ∃ i < bufLen, getUser user i = 0 := by
  rw [zero_mem_writeLoop (hlen ▸ messageLength_le user)]
  by_cases h : ∃ j < bufLen, getUser user j = 0
  · have hk := Nat.find_spec h
    rw [messageLength_eq hk.1 hk.2 fun j hj hzero ↦
      Nat.find_min h hj ⟨Nat.lt_trans hj hk.1, hzero⟩]
    refine ⟨fun _ ↦ h, fun _ ↦ ?_⟩
    split
    · exact .inr hm
    · exact .inl ⟨Nat.find h, Nat.lt_succ_self _, hk.2⟩
  · rw [messageLength_of_ne fun j hj hzero ↦ h ⟨j, hj, hzero⟩]
    refine ⟨fun hor ↦ hor.resolve_right ?_, .inl⟩
    rw [← hlen, List.drop_length]
    exact List.not_mem_nil

theorem Device.Step.string_iff (hs : Shaped d) (hm : 0 ∈ d.message) (h : d.Step e d') :
    0 ∈ d'.message ↔ Keeps d e := by
  obtain ⟨c, r⟩ := e
  cases h.effect with
  | busy hc _ _ hd =>
    obtain rfl : c = .openFile := hc
    exact iff_of_true (hd ▸ hm) trivial
  | opened hc _ _ hd =>
    obtain rfl : c = .openFile := hc
    exact iff_of_true (hd ▸ hm) trivial
  | released hc _ hd =>
    obtain rfl : c = .release := hc
    exact iff_of_true (hd ▸ hm) trivial
  | read length ptr ptr' bs hc _ _ _ hd =>
    obtain ⟨hc, -⟩ | ⟨hc, -⟩ := hc
    · obtain rfl : c = .read length := hc
      exact iff_of_true (hd ▸ hm) trivial
    · obtain rfl : c = .getMsg := hc
      exact iff_of_true (hd ▸ hm) trivial
  | written user n hc _ hd =>
    subst hd
    obtain ⟨hc, rfl⟩ | ⟨hc, rfl⟩ := hc
    · obtain rfl : c = .write user := hc
      exact zero_mem_writeLoop (hs.length ▸ Nat.min_le_right _ _)
    · obtain rfl : c = .setMsg user := hc
      exact zero_mem_setMsg hs.length hm user
  | looked n hc hd =>
    obtain rfl : c = .getNthByte n := hc
    exact iff_of_true (hd ▸ hm) trivial

/-- **The message stays a string.** From the time the module is loaded the buffer holds a NUL at
every moment exactly when every write leaves one there: no call but a write matters, and of those
with `IOCTL_SET_MSG` only the ones of 80 characters or more. -/
theorem message_string_iff {es : List (Call × Reply)} :
    Run (fun d e d' ↦ d.Step e d' ∧ 0 ∈ d'.message) load es d
      ↔ Run (fun d e d' ↦ d.Step e d' ∧ Keeps d e) load es d :=
  Run.always_iff_sound (fun _ _ _ hs h ↦ hs.step h) (fun _ _ _ hs hm h ↦ h.string_iff hs hm)
    shaped_load (List.mem_replicate.mpr ⟨by decide, rfl⟩)

/-! ## What the readers get -/

/-- What was read since the pointer was last set to the beginning, and how much was asked for. -/
def track (t : List UInt8 × ℕ) (e : Call × Reply) : List UInt8 × ℕ :=
  match e.1 with
  | .openFile => if e.2.ret = 0 then ([], 0) else t
  | .write _ => ([], 0)
  | .setMsg _ => ([], 0)
  | .read length => (t.1 ++ e.2.out, t.2 + length)
  | .getMsg => (t.1 ++ e.2.out.dropLast, t.2 + 99)
  | _ => t

/-- The message, and what the readers have of it. -/
structure Delivers (d : Device) (t : List UInt8 × ℕ) : Prop where
  shaped : Shaped d
  string : 0 ∈ d.message
  handed : ∀ m ptr, cstring d.message = some m → d.messagePtr = some ptr →
    Handed d.message m ptr t.1 t.2

theorem delivers_load : Delivers load ([], 0) :=
  ⟨shaped_load, List.mem_replicate.mpr ⟨by decide, rfl⟩, fun m ptr _ hptr ↦ by cases hptr⟩

variable {t : List UInt8 × ℕ}

theorem Delivers.step (ht : Delivers d t) (h : d.Step e d') (hkeep : Keeps d e) :
    Delivers d' (track t e) := by
  have hstring := (h.string_iff ht.shaped ht.string).mpr hkeep
  refine ⟨ht.shaped.step h, hstring, ?_⟩
  obtain ⟨c, r⟩ := e
  intro m ptr hm hptr
  have restart : ∀ {n : ℕ}, d'.messagePtr = some n → n = 0 → Handed d'.message m ptr [] 0 := by
    rintro n hn rfl
    rw [hn] at hptr
    cases hptr
    exact handed_start hm
  cases h.effect with
  | busy hc _ hret hd =>
    subst hd
    obtain rfl : c = .openFile := hc
    have hne : ¬ r.ret = 0 := by
      rw [show r.ret = -ebusy from hret]
      decide
    rw [track, if_neg hne]
    exact ht.handed m ptr hm hptr
  | opened hc _ hret hd =>
    subst hd
    obtain rfl : c = .openFile := hc
    rw [track, if_pos hret]
    exact restart rfl rfl
  | released hc _ hd =>
    subst hd
    obtain rfl : c = .release := hc
    exact ht.handed m ptr hm hptr
  | read length ptr₀ ptr' bs hc _ hptr₀ hread hd =>
    subst hd
    obtain ⟨ptr₁, hread', hhanded⟩ := (ht.handed m ptr₀ hm hptr₀).read length
    rw [hread] at hread'
    cases hread'
    cases hptr
    obtain ⟨hc, hout⟩ | ⟨hc, rfl, hout⟩ := hc
    · obtain rfl : c = .read length := hc
      rw [track]
      dsimp only at hout ⊢
      rw [hout]
      exact hhanded
    · obtain rfl : c = .getMsg := hc
      rw [track]
      dsimp only at hout ⊢
      rw [hout, List.dropLast_concat]
      exact hhanded
  | written user n hc _ hd =>
    subst hd
    obtain ⟨hc, -⟩ | ⟨hc, -⟩ := hc
    · obtain rfl : c = .write user := hc
      exact restart rfl rfl
    · obtain rfl : c = .setMsg user := hc
      exact restart rfl rfl
  | looked n hc hd =>
    subst hd
    obtain rfl : c = .getNthByte n := hc
    exact ht.handed m ptr hm hptr

theorem delivers_of_run {es : List (Call × Reply)} (ht : Delivers d t)
    (hrun : Run (fun d e d' ↦ d.Step e d' ∧ Keeps d e) d es d') :
    Delivers d' (es.foldl track t) := by
  induction hrun generalizing t with
  | nil d => exact ht
  | cons hstep _ ih => exact ih (ht.step hstep.1 hstep.2)

/-- **The readers get the message.** In every run from the loading of the module in which each
write leaves a NUL, what was read since the message was last set or the file opened, in pieces of
whatever sizes, is the beginning of the message, of as many bytes as were asked for; and while the
file is open a read of any size succeeds, with what comes next. -/
theorem reads_deliver_message {es : List (Call × Reply)}
    (hrun : Run (fun d e d' ↦ d.Step e d' ∧ Keeps d e) load es d) :
    ∃ m, cstring d.message = some m ∧ (d.deviceOpen ≠ 0 →
      (es.foldl track ([], 0)).1 = m.take (es.foldl track ([], 0)).2
      ∧ ∀ length, ∃ d', d.Step (.read length,
        ⟨((m.drop (es.foldl track ([], 0)).2).take length).length,
          (m.drop (es.foldl track ([], 0)).2).take length⟩) d') := by
  have ht := delivers_of_run delivers_load hrun
  obtain ⟨m, hm⟩ := exists_cstring_iff.mpr ht.string
  refine ⟨m, hm, fun hopen ↦ ?_⟩
  obtain ⟨ptr, hptr⟩ := Option.ne_none_iff_exists'.mp (ht.shaped.ptr hopen)
  have hhanded := ht.handed m ptr hm hptr
  refine ⟨hhanded.out_eq, fun length ↦ ?_⟩
  obtain ⟨ptr', hread, -⟩ := hhanded.read length
  refine ⟨{ d with messagePtr := some ptr' }, .inr hopen, ?_⟩
  rw [Device.exec, hptr]
  dsimp only
  rw [hread]
  rfl

/-- The message is set to `hey`, and read in two pieces. -/
def heyRead : List (Call × Reply) :=
  [(.openFile, ⟨0, []⟩), (.setMsg [104, 101, 121, 0], ⟨0, []⟩), (.read 2, ⟨2, [104, 101]⟩),
    (.openFile, ⟨-16, []⟩), (.getMsg, ⟨0, [121, 0]⟩)]

theorem reads_deliver_message_hey : ∃ (d : Device) (m : List UInt8),
    cstring d.message = some m ∧ (d.deviceOpen ≠ 0 →
    (heyRead.foldl track ([], 0)).1 = m.take (heyRead.foldl track ([], 0)).2
    ∧ ∀ length, ∃ d', d.Step (.read length,
      ⟨((m.drop (heyRead.foldl track ([], 0)).2).take length).length,
        (m.drop (heyRead.foldl track ([], 0)).2).take length⟩) d') := by
  have hrun : Run (fun d e d' ↦ d.Step e d' ∧ Keeps d e) load heyRead _ :=
    .cons ⟨⟨.inl rfl, rfl⟩, trivial⟩ <| .cons ⟨⟨.inr (by decide), rfl⟩, ⟨3, by decide, rfl⟩⟩ <|
    .cons ⟨⟨.inr (by decide), rfl⟩, trivial⟩ <| .cons ⟨⟨.inl rfl, rfl⟩, trivial⟩ <|
    .cons ⟨⟨.inr (by decide), rfl⟩, trivial⟩ <| .nil _
  obtain ⟨m, hall⟩ := reads_deliver_message hrun
  exact ⟨_, m, hall⟩

end AllProjects.CharDevice
