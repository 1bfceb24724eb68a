import AllProjects.CharDevice.Ioctl
import AllProjects.EchoServer.InputLoop
import AllProjects.Memory.Scan

/-!
# The process that uses the ioctls

In each round the client reads a line, sets it as the message of the device, and prints it twice:
byte by byte, and as a whole. The line keeps its newline, so that only an input that ends in `quit`
without one stops the client.
-/

namespace AllProjects.CharDevice

open Sctp (fgets)

/-- `%d` of a count. -/
def decimal (n : ℕ) : List UInt8 := (Nat.toDigits 10 n).map fun c ↦ c.toNat.toUInt8

/-- The client: its array `msg`, the device it has open, what is left on its input and what it has
printed. -/
structure Client where
  msg : List UInt8
  device : Device
  stdin : List UInt8
  stdout : List UInt8

/-- Whether the client goes on, exits with an error, or leaves its loop. -/
inductive Outcome
  | goesOn
  | failed
  | quit
  deriving DecidableEq

/-- `printf("ioctl_get_nth_byte failed at the %d'th byte:\n", i)`. -/
def failedAt (i : ℕ) : List UInt8 :=
  ascii "ioctl_get_nth_byte failed at the " ++ decimal i ++ ascii "'th byte:\n"

/-- The loop of `ioctl_get_nth_byte`: what it prints, and whether it gets to the end. A negative
byte is returned to the process as the error -1. -/
def nthLoop (d : Device) : ℕ → ℕ → Except Fault (List UInt8 × Bool)
  | 0, _ => .error .diverges
  | k + 1, i =>
    match d.exec (.getNthByte i) with
    | .error e => .error e
    | .ok (r, _) =>
      if r.ret < 0 then .ok (failedAt (i + 1), false)
      else if r.ret = 0 then .ok ([0], true)
      else (nthLoop d k (i + 1)).map fun p ↦ (r.ret.toNat.toUInt8 :: p.1, p.2)

/-- `ioctl_get_nth_byte`. The buffer of the device ends before the bound of the loop is reached. -/
def getNthBytes (d : Device) : Except Fault (List UInt8 × Bool) := nthLoop d (bufLen + 1) 0

/-- `ioctl_get_msg`: the message, as a string in the client's buffer, and the device after it. -/
def getMsg (d : Device) : Except Fault (List UInt8 × Device) :=
  match d.exec .getMsg with
  | .error e => .error e
  | .ok (r, d) =>
    match cstring r.out with
    | some m => .ok (m, d)
    | none => .error .segv

/-- `fgets(msg, 100, stdin)`, whose result is not looked at: at the end of the input the array stays
as it is. -/
def readMsg (c : Client) : Client :=
  match fgets 100 c.stdin with
  | none => c
  | some (line, rest) => { c with msg := line ++ 0 :: c.msg.drop (line.length + 1), stdin := rest }

/-- `printf` and `putchar`. -/
def Client.print (c : Client) (text : List UInt8) : Client := { c with stdout := c.stdout ++ text }

/-- One round of `main`. -/
def round (c : Client) : Except Fault (Outcome × Client) := do
  let c := readMsg (c.print (ascii "Input your message: "))
  let (_, d) ← c.device.exec (.setMsg c.msg)
  let c := { c with device := d }
  let (text, complete) ← getNthBytes d
  let c := c.print (ascii "get_nth_byte message:" ++ text)
  if complete = false then .ok (.failed, c)
  else do
    let (m, d) ← getMsg d
    let c := { c with device := d }
    let c := c.print (ascii "get_msg message:" ++ m ++ ascii "\n")
    let order ← strcmp c.msg (ascii "quit" ++ [0])
    .ok (if order ≠ 0 then .goesOn else .quit, c)

/-- At most so many rounds of `main`. -/
def main : ℕ → Client → Except Fault (Outcome × Client)
  | 0, c => .ok (.goesOn, c)
  | k + 1, c => do
    let (o, c) ← round c
    if o = .goesOn then main k c else .ok (o, c)

/-- What a round prints for a message. -/
def echo (m : List UInt8) : List UInt8 :=
  ascii "Input your message: " ++ (ascii "get_nth_byte message:" ++ (m ++ [0]))
    ++ (ascii "get_msg message:" ++ m ++ ascii "\n")

/-! ## Setting and getting the message -/

variable {d : Device} {user m old t : List UInt8}

theorem getUser_of_cstring (ht : cstring user = some t) : getUser user t.length = 0
    ∧ ∀ j < t.length, getUser user j ≠ 0 := by
  constructor
  · obtain ⟨b, hb, hzero, -⟩ := getElem?_of_cstring ht (Nat.le_refl t.length)
    rw [getUser, List.getD_eq_getElem?_getD, hb]
    exact hzero.mpr rfl
  · intro j hj
    obtain ⟨b, hb, hzero, -⟩ := getElem?_of_cstring ht (Nat.le_of_lt hj)
    rw [getUser, List.getD_eq_getElem?_getD, hb]
    exact fun h ↦ Nat.ne_of_lt hj (hzero.mp h)

theorem writeLoop_eq {n : ℕ} {message : List UInt8} (hn : n ≤ message.length)
    (hu : n ≤ user.length) : writeLoop user n message = user.take n ++ message.drop n := by
  apply List.ext_getElem?
  intro i
  rw [getElem?_writeLoop user hn]
  split
  · rename_i hi
    have hlt : i < (user.take n).length := by
      rw [List.length_take, Nat.min_eq_left hu]
      exact hi
    rw [List.getElem?_append_left hlt, List.getElem?_take_of_lt hi, getUser,
      List.getD_eq_getElem _ _ (Nat.lt_of_lt_of_le hi hu), List.getElem?_eq_getElem]
  · rename_i hi
    have hle : (user.take n).length ≤ i := by
      rw [List.length_take, Nat.min_eq_left hu]
      exact Nat.not_lt.mp hi
    rw [List.getElem?_append_right hle, List.length_take, Nat.min_eq_left hu, List.getElem?_drop,
      Nat.add_sub_cancel' (Nat.not_lt.mp hi)]

/-- **`IOCTL_SET_MSG` of a string.** It becomes the message when it fits with its NUL; the empty
string leaves the message as it is. -/
theorem setMsg_of_short (hlen : d.message.length = bufLen) (hold : cstring d.message = some old)
    (ht : cstring user = some t) (hshort : t.length < bufLen) :
    cstring (writeLoop user (messageLength user) d.message)
      = some (if t = [] then old else t) := by
  obtain ⟨hzero, hne⟩ := getUser_of_cstring ht
  rw [messageLength_eq hshort hzero hne]
  by_cases hnil : t = []
  · subst hnil
    exact hold
  · obtain ⟨h0, rest, rfl⟩ := cstring_eq_some_iff.mp ht
    have hpos : t.length ≠ 0 := fun h ↦ hnil (List.length_eq_zero_iff.mp h)
    have htake : (t ++ 0 :: rest).take (t.length + 1) = t ++ [0] := by
      rw [List.take_append, List.take_of_length_le (Nat.le_succ _), Nat.add_sub_cancel_left]
      rfl
    have hu : t.length + 1 ≤ (t ++ 0 :: rest).length := by
      rw [List.length_append, List.length_cons]
      omega
    rw [if_neg hpos, if_neg hnil, writeLoop_eq (hlen ▸ hshort) hu, htake, List.append_assoc]
    exact cstring_append_zero h0 _

theorem setMsg_of_long (hlen : d.message.length = bufLen) (ht : cstring user = some t)
    (hlong : bufLen ≤ t.length) : 0 ∉ writeLoop user (messageLength user) d.message := by
  obtain ⟨-, hne⟩ := getUser_of_cstring ht
  have hall : ∀ j < bufLen, getUser user j ≠ 0 := fun j hj ↦ hne j (Nat.lt_of_lt_of_le hj hlong)
  rw [messageLength_of_ne hall, zero_mem_writeLoop (Nat.le_of_eq hlen.symm)]
  rintro (⟨i, hi, hzero⟩ | hmem)
  · exact hall i hi hzero
  · rw [← hlen, List.drop_length] at hmem
    exact List.not_mem_nil hmem

theorem signedChar_neg_iff (b : UInt8) : signedChar b < 0 ↔ ¬ b < 128 := by
  have hb : b.toNat < 256 := b.toNat_lt
  rw [signedChar]
  split
  · rename_i h
    exact ⟨fun hneg ↦ absurd (Int.natCast_nonneg _) (Int.not_le.mpr hneg), fun hn ↦ absurd h hn⟩
  · rename_i h
    exact ⟨fun _ ↦ h, fun _ ↦ by omega⟩

theorem toUInt8_signedChar {b : UInt8} (hb : b < 128) : (signedChar b).toNat.toUInt8 = b := by
  rw [signedChar, if_pos hb, Int.toNat_natCast]
  exact UInt8.ofNat_toNat

theorem signedChar_eq_zero_iff {b : UInt8} (hb : b < 128) : signedChar b = 0 ↔ b = 0 := by
  rw [signedChar, if_pos hb, Int.natCast_eq_zero]
  exact ⟨fun h ↦ UInt8.toNat_inj.mp h, fun h ↦ by rw [h]; rfl⟩

theorem nthLoop_succ {k i : ℕ} {b : UInt8} (hb : d.message[i]? = some b) : nthLoop d (k + 1) i
      = if ¬ b < 128 then .ok (failedAt (i + 1), false)
        else if b = 0 then .ok ([0], true)
        else (nthLoop d k (i + 1)).map fun p ↦ (b :: p.1, p.2) := by
  have hexec : d.exec (.getNthByte i) = .ok (⟨signedChar b, []⟩, d) := by
    rw [Device.exec, hb]
  rw [nthLoop, hexec]
  dsimp only
  by_cases hlt : b < 128
  · have hneg : ¬ signedChar b < 0 := fun h ↦ (signedChar_neg_iff b).mp h hlt
    rw [if_neg hneg, if_neg (not_not.mpr hlt), toUInt8_signedChar hlt]
    simp only [signedChar_eq_zero_iff hlt]
  · rw [if_pos ((signedChar_neg_iff b).mpr hlt), if_pos hlt]

theorem nthLoop_of_cstring {k i : ℕ} (hm : cstring d.message = some m)
    (hascii : ∀ b ∈ m, b < 128) (hi : i ≤ m.length) (hk : m.length < k + i) :
    nthLoop d k i = .ok (m.drop i ++ [0], true) := by
  induction k generalizing i with
  | zero => omega
  | succ k ih =>
    obtain ⟨b, hb, hzero, hget⟩ := getElem?_of_cstring hm hi
    rw [nthLoop_succ hb]
    by_cases hend : i = m.length
    · have hb0 : b = 0 := hzero.mpr hend
      rw [hb0, if_neg (not_not.mpr (by decide)), if_pos rfl, hend, List.drop_length]
      rfl
    · have hlt : i < m.length := Nat.lt_of_le_of_ne hi hend
      have hne : b ≠ 0 := fun h ↦ hend (hzero.mp h)
      have hmb : m[i] = b := Option.some.inj ((List.getElem?_eq_getElem hlt).symm.trans (hget hne))
      have hb128 : b < 128 := hascii b (hmb ▸ List.getElem_mem hlt)
      rw [if_neg (not_not.mpr hb128), if_neg hne, ih hlt (by omega), List.drop_eq_getElem_cons hlt,
        hmb]
      rfl

theorem string_of_nthLoop {k i : ℕ} {text : List UInt8} (h : nthLoop d k i = .ok (text, true)) :
    ∃ w, cstring (d.message.drop i) = some w ∧ ∀ b ∈ w, b < 128 := by
  induction k generalizing i text with
  | zero => cases h
  | succ k ih =>
    cases hb : d.message[i]? with
    | none =>
      have hexec : d.exec (.getNthByte i) = .error .segv := by rw [Device.exec, hb]
      rw [nthLoop, hexec] at h
      cases h
    | some b =>
      obtain ⟨hi, hbi⟩ := List.getElem?_eq_some_iff.mp hb
      rw [nthLoop_succ hb] at h
      rw [List.drop_eq_getElem_cons hi, hbi]
      split at h
      · cases h
      · rename_i hb128
        split at h
        · rename_i hzero
          exact ⟨[], by rw [hzero]; rfl, fun c hc ↦ absurd hc List.not_mem_nil⟩
        · rename_i hne
          obtain ⟨⟨rest, complete⟩, hp, hres⟩ := Except.map_eq_ok_iff.mp h
          obtain ⟨-, rfl⟩ := Prod.mk.inj hres
          obtain ⟨w, hw, hascii⟩ := ih hp
          refine ⟨b :: w, (cstring_cons_eq_some hne).mpr ⟨w, hw, rfl⟩, ?_⟩
          intro c hc
          rcases List.mem_cons.mp hc with rfl | hc
          · exact not_not.mp hb128
          · exact hascii c hc

theorem getMsg_of_cstring (hm : cstring d.message = some m) (hlen : m.length < bufLen)
    (hptr : d.messagePtr = some 0) :
    getMsg d = .ok (m, { d with messagePtr := some (min 99 m.length) }) := by
  have h0 := zero_not_mem_of_cstring hm
  have hle : m.length ≤ 99 := Nat.le_of_lt (Nat.lt_trans hlen (by decide))
  have hexec : d.exec .getMsg
      = .ok (⟨0, m ++ [0]⟩, { d with messagePtr := some (min 99 m.length) }) := by
    rw [Device.exec, hptr]
    dsimp only
    rw [deviceRead_eq hm (Nat.zero_le _), List.drop_zero, List.take_of_length_le hle, Nat.zero_add,
      Nat.sub_zero]
    rfl
  rw [getMsg, hexec]
  dsimp only
  rw [cstring_append_zero h0]

/-! ## A round -/

/-- The client between two rounds: the buffer of its device holds a string. -/
structure Ready (c : Client) (old : List UInt8) : Prop where
  length : c.device.message.length = bufLen
  string : cstring c.device.message = some old

/-- What the device shows after the message was set to `t`. -/
def shown (old t : List UInt8) : List UInt8 := if t = [] then old else t

variable {c : Client}

/-- The device after `IOCTL_SET_MSG`. -/
def setDevice (c : Client) : Device :=
  { c.device with
    message := writeLoop c.msg (messageLength c.msg) c.device.message
    messagePtr := some 0 }

theorem exec_setMsg (c : Client) :
    c.device.exec (.setMsg c.msg) = .ok (⟨0, []⟩, setDevice c) := by
  rw [Device.exec, deviceWrite, Nat.min_eq_left (messageLength_le c.msg)]
  rfl

theorem round_eq (c : Client) : round c = (do
    let r := readMsg (c.print (ascii "Input your message: "))
    let (text, complete) ← getNthBytes (setDevice r)
    let r' := ({ r with device := setDevice r }).print (ascii "get_nth_byte message:" ++ text)
    if complete = false then .ok (.failed, r')
    else do
      let (m, d) ← getMsg (setDevice r)
      let r' := ({ r' with device := d }).print (ascii "get_msg message:" ++ m ++ ascii "\n")
      let order ← strcmp r.msg (ascii "quit" ++ [0])
      .ok (if order ≠ 0 then .goesOn else .quit, r')) := by
  rw [round]
  dsimp only
  rw [exec_setMsg, Except.ok_bind_eq]
  rfl

theorem strcmp_quit (ht : cstring user = some t) : ∃ order, strcmp user (ascii "quit" ++ [0])
    = .ok order ∧ (order = 0 ↔ t = ascii "quit") := by
  have hquit : cstring (ascii "quit" ++ [0]) = some (ascii "quit") := by decide
  refine ⟨_, strcmp_eq_ok ht hquit, ?_⟩
  have hiff := strcmp_eq_zero_iff ht hquit
  rw [strcmp_eq_ok ht hquit, Except.ok.injEq] at hiff
  exact hiff

theorem round_of_short {r : Client} (hread : readMsg (c.print (ascii "Input your message: ")) = r)
    (hr : Ready r old) (ht : cstring r.msg = some t) (hshort : t.length < bufLen)
    (hascii : ∀ b ∈ shown old t, b < 128) :
    ∃ c', round c = .ok (if t = ascii "quit" then .quit else .goesOn, c')
      ∧ c'.stdout = r.stdout ++ (ascii "get_nth_byte message:" ++ (shown old t ++ [0]))
        ++ (ascii "get_msg message:" ++ shown old t ++ ascii "\n")
      ∧ c'.msg = r.msg ∧ c'.stdin = r.stdin ∧ Ready c' (shown old t) := by
  have hset : cstring (setDevice r).message = some (shown old t) :=
    setMsg_of_short hr.length hr.string ht hshort
  have hlen : (setDevice r).message.length = bufLen := (length_writeLoop _ _ _).trans hr.length
  have hlt : (shown old t).length < bufLen := hlen ▸ length_lt_of_cstring hset
  have hnth : getNthBytes (setDevice r) = .ok (shown old t ++ [0], true) :=
    nthLoop_of_cstring hset hascii (Nat.zero_le _) (Nat.lt_succ_of_lt hlt)
  obtain ⟨order, horder, hzero⟩ := strcmp_quit ht
  have hsame : (if order ≠ 0 then Outcome.goesOn else .quit)
      = if t = ascii "quit" then .quit else .goesOn := by
    by_cases hq : t = ascii "quit"
    · rw [if_neg (not_not.mpr (hzero.mpr hq)), if_pos hq]
    · rw [if_pos fun h ↦ hq (hzero.mp h), if_neg hq]
  rw [round_eq, hread]
  dsimp only
  have htrue : ¬ true = false := Bool.noConfusion
  rw [hnth, Except.ok_bind_eq]
  dsimp only
  rw [if_neg htrue, getMsg_of_cstring hset hlt rfl, Except.ok_bind_eq, horder, Except.ok_bind_eq,
    hsame]
  exact ⟨_, rfl, rfl, rfl, rfl, hlen, hset⟩

theorem readMsg_print (c : Client) (text : List UInt8) :
    readMsg (c.print text) = (readMsg c).print text := by
  rw [readMsg, readMsg, Client.print]
  dsimp only
  cases fgets 100 c.stdin with
  | none => rfl
  | some p => rfl

theorem stdout_readMsg (c : Client) : (readMsg c).stdout = c.stdout := by
  rw [readMsg]
  cases fgets 100 c.stdin with
  | none => rfl
  | some p => rfl

theorem device_readMsg (c : Client) : (readMsg c).device = c.device := by
  rw [readMsg]
  cases fgets 100 c.stdin with
  | none => rfl
  | some p => rfl

/-- **Whether a round gives the message back.** The client that holds the string `t` after `fgets`
gets through the round, and prints the message of the device twice, exactly when `t` is shorter than
the buffer of the device and the message has no byte from 128 on. The message is `t`, or what it was
before when `t` is empty. -/
theorem round_echoes_iff (hr : Ready c old) (ht : cstring (readMsg c).msg = some t) :
    (∃ o c', round c = .ok (o, c') ∧ o ≠ .failed ∧ c'.stdout = c.stdout ++ echo (shown old t))
      ↔ t.length < bufLen ∧ ∀ b ∈ shown old t, b < 128 := by
  have hread := readMsg_print c (ascii "Input your message: ")
  have hr' : Ready ((readMsg c).print (ascii "Input your message: ")) old := by
    have hdev : ((readMsg c).print (ascii "Input your message: ")).device = c.device :=
      device_readMsg c
    exact ⟨hdev ▸ hr.length, hdev ▸ hr.string⟩
  constructor
  · rintro ⟨o, c', hround, hne, -⟩
    rw [round_eq, hread] at hround
    obtain ⟨⟨text, complete⟩, hnth, hround⟩ := Except.bind_eq_ok_iff.mp hround
    dsimp only at hround
    split at hround
    · cases hround
      exact absurd rfl hne
    · rename_i hcomplete
      rw [Bool.not_eq_false] at hcomplete
      subst hcomplete
      obtain ⟨w, hw, hascii⟩ := string_of_nthLoop hnth
      rw [List.drop_zero] at hw
      have hshort : t.length < bufLen := by
        by_contra hlong
        exact setMsg_of_long hr'.length ht (Nat.not_lt.mp hlong) (exists_cstring_iff.mp ⟨w, hw⟩)
      have hset := setMsg_of_short hr'.length hr'.string ht hshort
      have hshown : w = shown old t := Option.some.inj (hw.symm.trans hset)
      exact ⟨hshort, hshown ▸ hascii⟩
  · rintro ⟨hshort, hascii⟩
    obtain ⟨c', hround, hout, -⟩ := round_of_short hread hr' ht hshort hascii
    refine ⟨_, c', hround, ?_, ?_⟩
    · split <;> exact Outcome.noConfusion
    · rw [hout, Client.print, stdout_readMsg, echo]
      simp only [List.append_assoc]

/-- The client that has just opened the device of a module that has just been loaded. -/
def opened (stdin : List UInt8) : Client :=
  ⟨List.replicate 100 0, { load with deviceOpen := 1, messagePtr := some 0 }, stdin, []⟩

theorem ready_opened (stdin : List UInt8) : Ready (opened stdin) [] :=
  ⟨List.length_replicate, rfl⟩

theorem round_echoes_iff_hi : (∃ o c', round (opened [104, 105, 10]) = .ok (o, c') ∧ o ≠ .failed
      ∧ c'.stdout = (opened [104, 105, 10]).stdout ++ echo (shown [] [104, 105, 10]))
    ↔ [104, 105, 10].length < bufLen ∧ ∀ b ∈ shown [] [104, 105, 10], b < 128 :=
  round_echoes_iff (ready_opened _) (by decide)

/-! ## A session -/

/-- Characters that can be typed into a line: ASCII, neither NUL nor newline. -/
def Typed (l : List UInt8) : Prop := ∀ b ∈ l, b ≠ 0 ∧ b ≠ 10 ∧ b < 128

instance (l : List UInt8) : Decidable (Typed l) :=
  inferInstanceAs (Decidable (∀ b ∈ l, b ≠ 0 ∧ b ≠ 10 ∧ b < 128))

theorem readLine_last {l : List UInt8} (h : 10 ∉ l) {n : ℕ} (hn : l.length ≤ n) :
    Sctp.readLine n l = (l, []) := by
  induction l generalizing n with
  | nil => cases n <;> rfl
  | cons b l ih =>
    cases n with
    | zero => exact absurd hn (Nat.not_succ_le_zero _)
    | succ n =>
      rw [List.mem_cons, not_or] at h
      rw [Sctp.readLine, if_neg (Ne.symm h.1), ih h.2 (Nat.le_of_succ_le_succ hn)]

/-- The client holding `line`, with `rest` still to be read. -/
def Client.holding (c : Client) (line rest : List UInt8) : Client :=
  { c with msg := line ++ 0 :: c.msg.drop (line.length + 1), stdin := rest }

theorem readMsg_line {l rest : List UInt8} (hl : Typed l) (hlen : l.length < 98)
    (hin : c.stdin = l ++ 10 :: rest) : readMsg c = c.holding (l ++ [10]) rest := by
  have h10 : 10 ∉ l := fun h ↦ (hl 10 h).2.1 rfl
  rw [readMsg, hin, EchoServer.fgets_line (n := 98) h10 (Nat.le_of_lt hlen)]
  rfl

theorem readMsg_last {l : List UInt8} (hl : Typed l) (hne : l ≠ []) (hlen : l.length < 98)
    (hin : c.stdin = l) : readMsg c = c.holding l [] := by
  have h10 : 10 ∉ l := fun h ↦ (hl 10 h).2.1 rfl
  have hfgets : fgets 100 l = some (l, []) := by
    rw [fgets, if_neg hne, readLine_last h10 (by omega)]
  rw [readMsg, hin, hfgets]
  rfl

theorem readMsg_eof (hin : c.stdin = []) : readMsg c = c := by
  rw [readMsg, hin]
  rfl

theorem round_of_text {rest : List UInt8} (hr : Ready c old) (hne : t ≠ [])
    (hshort : t.length < bufLen) (hascii : ∀ b ∈ t, b < 128)
    (ht : cstring (readMsg c).msg = some t) (hrest : (readMsg c).stdin = rest) :
    ∃ c', round c = .ok (if t = ascii "quit" then .quit else .goesOn, c')
      ∧ c'.stdout = c.stdout ++ echo t ∧ cstring c'.msg = some t ∧ c'.stdin = rest
      ∧ Ready c' t := by
  have hread := readMsg_print c (ascii "Input your message: ")
  have hdev : ((readMsg c).print (ascii "Input your message: ")).device = c.device :=
    device_readMsg c
  have hr' : Ready ((readMsg c).print (ascii "Input your message: ")) old :=
    ⟨hdev ▸ hr.length, hdev ▸ hr.string⟩
  have hshown : shown old t = t := if_neg hne
  obtain ⟨c', hround, hout, hmsg, hin, hready⟩ :=
    round_of_short hread hr' ht hshort (hshown.symm ▸ hascii)
  rw [hshown] at hout hready
  refine ⟨c', hround, ?_, ?_, hin.trans hrest, hready⟩
  · rw [hout, Client.print, stdout_readMsg, echo]
    simp only [List.append_assoc]
  · rw [hmsg]
    exact ht

theorem main_eof (hr : Ready c old) (hin : c.stdin = []) (ht : cstring c.msg = some t)
    (hne : t ≠ []) (hshort : t.length < bufLen) (hascii : ∀ b ∈ t, b < 128)
    (hquit : t ≠ ascii "quit") (k : ℕ) :
    ∃ c', main k c = .ok (.goesOn, c')
      ∧ c'.stdout = c.stdout ++ (List.replicate k (echo t)).flatten := by
  induction k generalizing c old with
  | zero => exact ⟨c, rfl, (List.append_nil _).symm⟩
  | succ k ih =>
    have heof := readMsg_eof hin
    obtain ⟨c₁, hround, hout, hmsg, hin₁, hready⟩ :=
      round_of_text hr hne hshort hascii (heof.symm ▸ ht) (heof.symm ▸ hin)
    obtain ⟨c', hmain, hout'⟩ := ih hready hin₁ hmsg
    refine ⟨c', ?_, ?_⟩
    · rw [main, hround, Except.ok_bind_eq, if_neg hquit]
      exact hmain
    · rw [hout', hout, List.replicate_succ, List.flatten_cons, List.append_assoc]

/-- The lines of an input, each with its newline. -/
def typedLines (lines : List (List UInt8)) : List UInt8 :=
  (lines.map fun l ↦ l ++ [10]).flatten

/-- What the client prints for them. -/
def echoLines (lines : List (List UInt8)) : List UInt8 :=
  (lines.map fun l ↦ echo (l ++ [10])).flatten

theorem typed_line {l : List UInt8} (hl : Typed l) :
    (∀ b ∈ l ++ [10], b < 128) ∧ 0 ∉ l ++ [10] := by
  constructor
  · intro b hb
    rcases List.mem_append.mp hb with hb | hb
    · exact (hl b hb).2.2
    · rw [List.mem_singleton.mp hb]
      decide
  · intro h0
    rcases List.mem_append.mp h0 with h0 | h0
    · exact (hl 0 h0).1 rfl
    · exact absurd (List.mem_singleton.mp h0) (by decide)

theorem line_ne_quit (l : List UInt8) : l ++ [10] ≠ ascii "quit" := by
  intro h
  have hmem : (10 : UInt8) ∈ ascii "quit" := h ▸ List.mem_append_right l List.mem_cons_self
  exact absurd hmem (by decide)

/-- The rounds of the lines. The client is left with the last of them, if there was one. -/
theorem main_lines {lines : List (List UInt8)} {rest : List UInt8} (hr : Ready c old)
    (hlines : ∀ l ∈ lines, Typed l ∧ l.length + 1 < bufLen)
    (hin : c.stdin = typedLines lines ++ rest)
    (k : ℕ) : ∃ c' old', main (lines.length + k) c = main k c'
      ∧ c'.stdout = c.stdout ++ echoLines lines ∧ c'.stdin = rest ∧ Ready c' old'
      ∧ cstring c'.msg = (lines.getLast?.map fun l ↦ l ++ [10]).or (cstring c.msg) := by
  induction lines generalizing c old with
  | nil =>
    exact ⟨c, old, by rw [List.length_nil, Nat.zero_add], (List.append_nil _).symm, hin, hr, rfl⟩
  | cons l lines ih =>
    obtain ⟨hl, hlen⟩ := hlines l List.mem_cons_self
    obtain ⟨hascii, h0⟩ := typed_line hl
    have hin' : c.stdin = l ++ 10 :: (typedLines lines ++ rest) := by
      rw [hin, typedLines, List.map_cons, List.flatten_cons, List.append_assoc, List.append_assoc,
        List.singleton_append]
      rfl
    have hread := readMsg_line hl (Nat.lt_trans (Nat.lt_of_succ_lt hlen) (by decide)) hin'
    have hshort : (l ++ [10]).length < bufLen := by
      rw [List.length_append]
      exact hlen
    obtain ⟨c₁, hround, hout, hmsg, hin₁, hready⟩ := round_of_text hr (List.concat_ne_nil 10 l)
      hshort hascii (by rw [hread]; exact cstring_append_zero h0 _) (by rw [hread])
    obtain ⟨c', old', hmain, hout', hin₂, hready', hlast⟩ :=
      ih hready (fun l' hl' ↦ hlines l' (List.mem_cons_of_mem _ hl')) hin₁
    refine ⟨c', old', ?_, ?_, hin₂, hready', ?_⟩
    · rw [List.length_cons, Nat.add_right_comm, main, hround, Except.ok_bind_eq,
        if_neg (line_ne_quit l)]
      exact hmain
    · rw [hout', hout, echoLines, echoLines, List.map_cons, List.flatten_cons, List.append_assoc]
    · rw [hlast, hmsg, List.getLast?_cons]
      cases lines.getLast? <;> rfl

/-- The text that is in the array at the end of the input. -/
def lastText (lines : List (List UInt8)) (last : List UInt8) : List UInt8 :=
  if last = [] then lines.getLast?.getD [] ++ [10] else last

/-- **A session.** The input is made of lines and what stands behind the last newline, in characters
that can be typed and short enough. Every line is printed back twice, and the client stops exactly
when the input ends in `quit` without a newline. Otherwise it prints its last text again in all the
rounds that follow. -/
theorem session_echoes {lines : List (List UInt8)} {last : List UInt8} (hr : Ready c old)
    (hin : c.stdin = typedLines lines ++ last)
    (hlines : ∀ l ∈ lines, Typed l ∧ l.length + 1 < bufLen)
    (hlast : Typed last ∧ last.length < bufLen) (hne : lines ≠ [] ∨ last ≠ []) (k : ℕ) :
    ∃ c', main (lines.length + k) c
        = .ok (if last = ascii "quit" ∧ k ≠ 0 then .quit else .goesOn, c')
      ∧ c'.stdout = c.stdout ++ echoLines lines
        ++ (List.replicate (if last = ascii "quit" then min k 1 else k)
          (echo (lastText lines last))).flatten := by
  obtain ⟨c₁, old₁, hmain, hout, hin₁, hready, hmsg⟩ := main_lines hr hlines hin k
  rw [hmain, ← hout]
  by_cases hnil : last = []
  · -- the input ends with a newline
    subst hnil
    obtain ⟨l, hl⟩ : ∃ l, lines.getLast? = some l :=
      ⟨_, List.getLast?_eq_some_getLast (hne.resolve_right fun h ↦ h rfl)⟩
    obtain ⟨htyped, hlen⟩ := hlines l (List.mem_of_getLast? hl)
    have htext : lastText lines [] = l ++ [10] := by rw [lastText, if_pos rfl, hl]; rfl
    have hmsg₁ : cstring c₁.msg = some (l ++ [10]) := by rw [hmsg, hl]; rfl
    have hshort : (l ++ [10]).length < bufLen := by
      rw [List.length_append]
      exact hlen
    have hquit : ¬ [] = ascii "quit" := by decide
    rw [if_neg fun h ↦ hquit h.1, if_neg hquit, htext]
    exact main_eof hready hin₁ hmsg₁ (List.concat_ne_nil 10 l) hshort (typed_line htyped).1
      (line_ne_quit l) k
  · have htext : lastText lines last = last := if_neg hnil
    have h0 : 0 ∉ last := fun h ↦ (hlast.1 0 h).1 rfl
    have hascii : ∀ b ∈ last, b < 128 := fun b hb ↦ (hlast.1 b hb).2.2
    have hread := readMsg_last hlast.1 hnil (Nat.lt_trans hlast.2 (by decide)) hin₁
    obtain ⟨c₂, hround, hout₂, hmsg₂, hin₂, hready₂⟩ := round_of_text hready hnil hlast.2 hascii
      (by rw [hread]; exact cstring_append_zero h0 _) (by rw [hread])
    rw [htext]
    cases k with
    | zero =>
      refine ⟨c₁, ?_, ?_⟩
      · rw [if_neg fun h ↦ h.2 rfl]
        rfl
      · rw [Nat.zero_min, ite_self]
        exact (List.append_nil _).symm
    | succ k =>
      rw [main, hround, Except.ok_bind_eq]
      dsimp only
      by_cases hquit : last = ascii "quit"
      · refine ⟨c₂, ?_, ?_⟩
        · rw [if_pos hquit, if_neg Outcome.noConfusion, if_pos ⟨hquit, Nat.succ_ne_zero k⟩]
        · have hone : min (k + 1) 1 = 1 := Nat.min_eq_right (Nat.succ_le_succ (Nat.zero_le k))
          rw [if_pos hquit, hone, hout₂]
          exact congrArg (c₁.stdout ++ ·) (List.append_nil _).symm
      · obtain ⟨c', hmain', hout'⟩ := main_eof hready₂ hin₂ hmsg₂ hnil hlast.2 hascii hquit k
        refine ⟨c', ?_, ?_⟩
        · rw [if_neg hquit, if_pos rfl, if_neg fun h ↦ hquit h.1]
          exact hmain'
        · rw [if_neg hquit, hout', hout₂, List.replicate_succ, List.flatten_cons, List.append_assoc]

theorem session_echoes_quit : ∃ c', main 2 (opened ([104, 105, 10] ++ ascii "quit"))
      = .ok (.quit, c')
    ∧ c'.stdout = [] ++ echo [104, 105, 10] ++ echo (ascii "quit") := by
  have hin : (opened ([104, 105, 10] ++ ascii "quit")).stdin
      = typedLines [[104, 105]] ++ ascii "quit" := rfl
  obtain ⟨c', hmain, hout⟩ := session_echoes (ready_opened _) hin (by decide +kernel)
    (by decide +kernel) (.inl (List.cons_ne_nil _ _)) 1
  exact ⟨c', hmain, hout⟩

end AllProjects.CharDevice
