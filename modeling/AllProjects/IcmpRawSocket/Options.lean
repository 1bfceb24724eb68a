import AllProjects.IcmpRawSocket.Ping
import AllProjects.Memory.Scan

/-!
# The command line of ping

`parse_argvs` takes the options one by one, in the order in which `getopt` finds them. It keeps what
`getopt`, `sscanf`, `inet_pton` and `get_self_ip` return in variables of 8 bits, where -1 turns into
255. The comparison with 1 after `sscanf` does not mind; the comparisons with -1 never hold. So the
loop ends in the default case of its `switch`, with success, and what is rejected on the way is what
`sscanf` rejects: a count that does not start with a number, an address that has nothing before the
first colon. An address goes through a buffer of 16 bytes, which `sscanf` does not know.

The order of the options matters in one case. `-d` looks up the address of the own interface and
stores it as source, whether or not there was a `-s` before.
-/

namespace AllProjects.IcmpRawSocket.Ping

/-! ## The settings -/

/-- The part of `ping_sets_t` that the options set. Addresses are bytes in the order of the
network. -/
@[ext] structure PingSets where
  srcAddr : List UInt8
  dstAddr : List UInt8
  reqsCount : ℕ
  reqsTimeout : ℕ
  debugOpt : ℕ
  deriving DecidableEq, Repr

/-- What `getopt` finds: an option with its argument, or something that is not one. -/
inductive Opt
  | c (optarg : List UInt8)
  | t (optarg : List UInt8)
  | D
  | d (optarg : List UInt8)
  | s (optarg : List UInt8)
  | unknown
  deriving DecidableEq, Repr

/-- The settings so far, and how often `get_self_ip` was called. -/
structure Parsing where
  sets : PingSets
  calls : ℕ
  deriving DecidableEq, Repr

/-- Why the loop is left early. -/
inductive Leave
  | returned (ret : ℤ) (sets : PingSets)
  /-- `sscanf` writes behind `ipv4_addr`. -/
  | overflow
  deriving DecidableEq, Repr

/-- `INET_ADDRSTRLEN` -/
def inetAddrstrlen : ℕ := 16

/-- The value that a `uint8_t` keeps of a return value. -/
def narrow (ret : ℤ) : ℤ := ret % 2 ^ 8

/-! ## The loop

The machine answers the calls of `get_self_ip`, each with an address or with a failure of `socket`
or `ioctl`. -/

section

variable (selfIp : ℕ → Option (List UInt8))

/-- The case of an option whose argument `sscanf` reads. -/
def scanned {α : Type} (p : Parsing) (scan : Scan α) (next : α → Except Leave Parsing) :
    Except Leave Parsing :=
  if narrow scan.ret ≠ 1 then .error (.returned (-1) p.sets)
  else match scan with
    | .value a => next a
    | _ => .ok p

/-- `inet_pton`, which stores an address when it is given one. -/
def storeAddr (text old : List UInt8) : List UInt8 := (inetPton text).getD old

/-- What `get_self_ip` returns. -/
def getSelfIpRet (ip : Option (List UInt8)) : ℤ := if ip.isSome then 0 else -1

/-- One round of the loop in `parse_argvs`. -/
def parseOpt (p : Parsing) : Opt → Except Leave Parsing
  | .c optarg => scanned p (scanInt optarg) fun z ↦
      .ok { p with sets := { p.sets with reqsCount := (z % 2 ^ 32).toNat } }
  | .t optarg => scanned p (scanInt optarg) fun z ↦
      .ok { p with sets := { p.sets with reqsTimeout := (z % 2 ^ 32).toNat } }
  | .D => .ok { p with sets := { p.sets with debugOpt := 1 } }
  | .d optarg => scanned p (scanUntil 58 optarg) fun ipv4Addr ↦
      if inetAddrstrlen ≤ ipv4Addr.length then .error .overflow
      else
        let sets := { p.sets with dstAddr := storeAddr ipv4Addr p.sets.dstAddr }
        -- `res` is a `uint8_t` as well
        if narrow (inetPtonRet ipv4Addr) = -1 then .error (.returned (-1) sets)
        else
          let ip := selfIp p.calls
          let sets := { sets with srcAddr := ip.getD sets.srcAddr }
          if narrow (getSelfIpRet ip) = -1 then .error (.returned (-1) sets)
          else .ok { sets := sets, calls := p.calls + 1 }
  | .s optarg => scanned p (scanUntil 58 optarg) fun ipv4Addr ↦
      if inetAddrstrlen ≤ ipv4Addr.length then .error .overflow
      else
        let sets := { p.sets with srcAddr := storeAddr ipv4Addr p.sets.srcAddr }
        if narrow (inetPtonRet ipv4Addr) = -1 then .error (.returned (-1) sets)
        else .ok { p with sets := sets }
  | .unknown => .error (.returned (-1) p.sets)

/-- `parse_argvs`: what it returns and the settings it leaves, or `none` when it writes behind its
buffer. After the last option `getopt` returns -1; only if `opt` could keep that would the loop end
without a `return`. -/
def parseArgvs (opts : List Opt) (sets : PingSets) : Option (ℤ × PingSets) :=
  match opts.foldlM (parseOpt selfIp) { sets := sets, calls := 0 } with
  | .ok p => if narrow (-1) ≠ -1 then some (0, p.sets) else none
  | .error (.returned ret sets) => some (ret, sets)
  | .error .overflow => none

end

/-! ## What a command line is for -/

/-- Numbers where numbers belong and addresses where addresses belong. -/
def ValidOpt : Opt → Prop
  | .c optarg | .t optarg => IsNumber optarg
  | .D => True
  | .d optarg | .s optarg => IsDotted optarg
  | .unknown => False

def IsDestination : Opt → Prop
  | .d _ => True
  | _ => False

instance : DecidablePred ValidOpt
  | .c _ | .t _ => inferInstanceAs (Decidable (IsNumber _))
  | .d _ | .s _ => inferInstanceAs (Decidable (IsDotted _))
  | .D => .isTrue trivial
  | .unknown => .isFalse not_false

instance : DecidablePred IsDestination
  | .d _ => .isTrue trivial
  | .c _ | .t _ | .D | .s _ | .unknown => .isFalse not_false

/-- The options are valid, there is a destination, and `get_self_ip` finds an address each time it
is called. -/
structure Valid (selfIp : ℕ → Option (List UInt8)) (opts : List Opt) : Prop where
  valid : ∀ o ∈ opts, ValidOpt o
  destination : ∃ o ∈ opts, IsDestination o
  self : ∀ i, i < opts.countP (IsDestination ·) → (selfIp i).isSome = true

instance (selfIp : ℕ → Option (List UInt8)) (opts : List Opt) : Decidable (Valid selfIp opts) :=
  decidable_of_iff ((∀ o ∈ opts, ValidOpt o) ∧ (∃ o ∈ opts, IsDestination o)
      ∧ ∀ i, i < opts.countP (IsDestination ·) → (selfIp i).isSome = true)
    ⟨fun h ↦ ⟨h.1, h.2.1, h.2.2⟩, fun h ↦ ⟨h.valid, h.destination, h.self⟩⟩

/-- `parse_argvs` returns 0 for valid options and -1 for others. -/
def AcceptsValid (selfIp : ℕ → Option (List UInt8)) (opts : List Opt) (sets : PingSets) : Prop :=
  (parseArgvs selfIp opts sets).map Prod.fst = some (if Valid selfIp opts then 0 else -1)

instance (selfIp : ℕ → Option (List UInt8)) (opts : List Opt) (sets : PingSets) :
    Decidable (AcceptsValid selfIp opts sets) := inferInstanceAs (Decidable (_ = _))

/-- What is rejected: numbers that do not start with one, addresses that are empty up to the first
colon, and what is not an option. -/
def Rejected : Opt → Prop
  | .c optarg | .t optarg => (scanInt optarg).ret ≠ 1
  | .D => False
  | .d optarg | .s optarg => optarg.takeWhile (· ≠ 58) = []
  | .unknown => True

/-- An address that is longer than the buffer. -/
def TooLong : Opt → Prop
  | .d optarg | .s optarg => inetAddrstrlen ≤ (optarg.takeWhile (· ≠ 58)).length
  | _ => False

instance : DecidablePred Rejected
  | .c _ | .t _ => inferInstanceAs (Decidable (_ ≠ _))
  | .d _ | .s _ => inferInstanceAs (Decidable (_ = _))
  | .D => .isFalse not_false
  | .unknown => .isTrue trivial

instance : DecidablePred TooLong
  | .d _ | .s _ => inferInstanceAs (Decidable (_ ≤ _))
  | .c _ | .t _ | .D | .unknown => .isFalse not_false

/-- The first option that the loop does not get past is one that it rejects. -/
def RejectsFirst (opts : List Opt) : Prop :=
  ∃ o, opts.find? (fun o ↦ Rejected o ∨ TooLong o) = some o ∧ Rejected o

/-! ## One round -/

section

variable {selfIp : ℕ → Option (List UInt8)} {p : Parsing} {o : Opt} {opts : List Opt}
  {sets : PingSets}

@[simp] theorem narrow_ne_neg_one (ret : ℤ) : narrow ret ≠ -1 := by
  rw [narrow]
  omega

theorem scanned_of_value {α : Type} (a : α) (next : α → Except Leave Parsing) :
    scanned p (.value a) next = next a := rfl

theorem scanned_of_ret_ne {α : Type} {scan : Scan α} (h : scan.ret ≠ 1)
    (next : α → Except Leave Parsing) : scanned p scan next = .error (.returned (-1) p.sets) := by
  apply if_pos
  cases scan with
  | value a => exact absurd rfl h
  | eof => exact (show narrow (-1) ≠ 1 by decide)
  | mismatch => exact (show narrow 0 ≠ 1 by decide)

/-- What an option does that is neither rejected nor too long. -/
def effect (selfIp : ℕ → Option (List UInt8)) (p : Parsing) : Opt → Parsing
  | .c optarg => match scanInt optarg with
    | .value z => { p with sets := { p.sets with reqsCount := (z % 2 ^ 32).toNat } }
    | _ => p
  | .t optarg => match scanInt optarg with
    | .value z => { p with sets := { p.sets with reqsTimeout := (z % 2 ^ 32).toNat } }
    | _ => p
  | .D => { p with sets := { p.sets with debugOpt := 1 } }
  | .d optarg =>
    { sets := { p.sets with
        dstAddr := storeAddr (optarg.takeWhile (· ≠ 58)) p.sets.dstAddr
        srcAddr := (selfIp p.calls).getD p.sets.srcAddr }
      calls := p.calls + 1 }
  | .s optarg =>
    { p with sets := { p.sets with
        srcAddr := storeAddr (optarg.takeWhile (· ≠ 58)) p.sets.srcAddr } }
  | .unknown => p

/-- **What a round does**: it rejects the option, overflows the buffer, or has its effect. -/
theorem parseOpt_of_rejected (h : Rejected o) :
    parseOpt selfIp p o = .error (.returned (-1) p.sets) := by
  cases o with
  | c optarg | t optarg => exact scanned_of_ret_ne h _
  | D => exact h.elim
  | d optarg | s optarg => exact scanned_of_ret_ne (ret_scanUntil_ne_one h) _
  | unknown => rfl

theorem parseOpt_of_tooLong (h : TooLong o) : parseOpt selfIp p o = .error .overflow := by
  cases o with
  | d optarg | s optarg =>
    have hne : optarg.takeWhile (· ≠ 58) ≠ [] := by
      intro hnil
      rw [TooLong, hnil] at h
      exact absurd h (by decide)
    have hbuf : inetAddrstrlen ≤ (optarg.takeWhile (· ≠ 58)).length := h
    rw [parseOpt, scanUntil_eq_value hne, scanned_of_value, if_pos hbuf]
  | _ => exact h.elim

theorem exists_scan_value {α : Type} {scan : Scan α} (h : scan.ret = 1) : ∃ a, scan = .value a := by
  cases scan with
  | value a => exact ⟨a, rfl⟩
  | eof => exact absurd h (show (-1 : ℤ) ≠ 1 by decide)
  | mismatch => exact absurd h (show (0 : ℤ) ≠ 1 by decide)

theorem parseOpt_eq_effect (hrejected : ¬ Rejected o) (hlong : ¬ TooLong o) :
    parseOpt selfIp p o = .ok (effect selfIp p o) := by
  cases o with
  | c optarg | t optarg =>
    obtain ⟨z, hz⟩ := exists_scan_value (not_not.mp hrejected)
    rw [parseOpt, effect, hz]
    rfl
  | D => rfl
  | d optarg | s optarg =>
    have hbuf : ¬ inetAddrstrlen ≤ (optarg.takeWhile (· ≠ 58)).length := hlong
    rw [parseOpt, scanUntil_eq_value hrejected, scanned_of_value, if_neg hbuf]
    simp only [narrow_ne_neg_one, if_false]
    rfl
  | unknown => exact absurd trivial hrejected

/-! ## The loop -/

theorem parseArgvs_of_none (h : ∀ o ∈ opts, ¬ Rejected o ∧ ¬ TooLong o) :
    parseArgvs selfIp opts sets
      = some (0, (opts.foldl (effect selfIp) { sets := sets, calls := 0 }).sets) := by
  have hfold : ∀ p : Parsing,
      opts.foldlM (parseOpt selfIp) p = .ok (opts.foldl (effect selfIp) p) := by
    induction opts with
    | nil => exact fun _ ↦ rfl
    | cons o opts ih =>
      rw [List.forall_mem_cons] at h
      intro p
      rw [List.foldlM_cons, parseOpt_eq_effect h.1.1 h.1.2, List.foldl_cons]
      exact ih h.2 _
  rw [parseArgvs, hfold]
  exact if_pos (narrow_ne_neg_one _)

theorem foldlM_of_find (h : opts.find? (fun o ↦ Rejected o ∨ TooLong o) = some o) (p : Parsing) :
    ∃ p', opts.foldlM (parseOpt selfIp) p = parseOpt selfIp p' o
      ∧ (Rejected o ∨ TooLong o) := by
  induction opts generalizing p with
  | nil => cases h
  | cons a opts ih =>
    rw [List.find?_cons] at h
    split at h
    · rename_i hstop
      cases h
      rw [decide_eq_true_iff] at hstop
      refine ⟨p, ?_, hstop⟩
      rw [List.foldlM_cons]
      obtain hrejected | hlong := hstop
      · rw [parseOpt_of_rejected hrejected]
        rfl
      · rw [parseOpt_of_tooLong hlong]
        rfl
    · rename_i hgo
      rw [decide_eq_false_iff_not, not_or] at hgo
      obtain ⟨p', hp', hstop⟩ := ih h (effect selfIp p a)
      refine ⟨p', ?_, hstop⟩
      rw [List.foldlM_cons, parseOpt_eq_effect hgo.1 hgo.2, ← hp']
      rfl

/-- The address buffer is as long as an address can get. -/
theorem ValidOpt.not_tooLong (h : ValidOpt o) : ¬ TooLong o := by
  cases o with
  | d optarg | s optarg =>
    have hle := IsDotted.length_le h
    rw [TooLong, IsDotted.takeWhile_eq h rfl (by decide), inetAddrstrlen]
    omega
  | _ => exact not_false

theorem ValidOpt.not_rejected (h : ValidOpt o) : ¬ Rejected o := by
  cases o with
  | c optarg | t optarg => exact not_not.mpr h.1
  | D => exact not_false
  | d optarg | s optarg =>
    rw [Rejected, IsDotted.takeWhile_eq h rfl (by decide)]
    exact IsDotted.ne_nil h
  | unknown => exact h.elim

/-- **Which command lines are taken for what they are**: the valid ones, and those on which the loop
stops at an option that `sscanf` rejects. -/
theorem acceptsValid_iff (selfIp : ℕ → Option (List UInt8)) (opts : List Opt) (sets : PingSets) :
    AcceptsValid selfIp opts sets ↔ Valid selfIp opts ∨ RejectsFirst opts := by
  have hopts : Valid selfIp opts → ∀ o ∈ opts, ¬ Rejected o ∧ ¬ TooLong o :=
    fun h o ho ↦ ⟨(h.valid o ho).not_rejected, (h.valid o ho).not_tooLong⟩
  rw [AcceptsValid]
  cases hfind : opts.find? (fun o ↦ Rejected o ∨ TooLong o) with
  -- nothing stops the loop, and it returns 0
  | none =>
    have hgo : ∀ o ∈ opts, ¬ Rejected o ∧ ¬ TooLong o := by
      simpa only [List.find?_eq_none, decide_eq_true_iff, not_or] using hfind
    have hfirst : ¬ RejectsFirst opts := by
      rintro ⟨o, ho, -⟩
      rw [hfind] at ho
      cases ho
    rw [parseArgvs_of_none hgo, or_iff_left hfirst, Option.map_some, Option.some_inj]
    by_cases hvalid : Valid selfIp opts
    · rw [if_pos hvalid]
      exact iff_of_true rfl hvalid
    · rw [if_neg hvalid]
      exact iff_of_false (show (0 : ℤ) ≠ -1 by decide) hvalid
  -- the first option that stops it decides; a command line with such an option is not valid
  | some o =>
    obtain ⟨p, hp, hstop⟩ : ∃ p, opts.foldlM (parseOpt selfIp) { sets := sets, calls := 0 }
        = parseOpt selfIp p o ∧ (Rejected o ∨ TooLong o) := foldlM_of_find hfind _
    have hinvalid : ¬ Valid selfIp opts := by
      intro h
      obtain ⟨hrejected, hlong⟩ := hopts h o (List.mem_of_find?_eq_some hfind)
      exact hstop.elim hrejected hlong
    rw [parseArgvs, hp, if_neg hinvalid, or_iff_right hinvalid]
    by_cases hrejected : Rejected o
    · rw [parseOpt_of_rejected hrejected]
      exact iff_of_true rfl ⟨o, hfind, hrejected⟩
    · rw [parseOpt_of_tooLong (hstop.resolve_left hrejected)]
      refine iff_of_false (Option.some_ne_none _).symm ?_
      rintro ⟨o', ho', hrejected'⟩
      rw [hfind, Option.some_inj] at ho'
      exact hrejected (ho' ▸ hrejected')

/-- A machine with the address `192.168.0.2`, and one without an address. -/
def hasIp : ℕ → Option (List UInt8) := fun _ ↦ some [192, 168, 0, 2]

def noIp : ℕ → Option (List UInt8) := fun _ ↦ none

/-- The settings after `memset`. -/
def noSets : PingSets := ⟨[0, 0, 0, 0], [0, 0, 0, 0], 0, 0, 0⟩

/-- Nothing, an address with a part of 999, a count with letters behind it, a failure of
`get_self_ip` and an address of 16 bytes: the first four are accepted, the last one is written over
the end of the buffer. -/
theorem not_acceptsValid :
    (parseArgvs hasIp [] noSets = some (0, noSets) ∧ ¬ AcceptsValid hasIp [] noSets)
    ∧ ((parseArgvs hasIp [.d (ascii "999.1.1.1")] noSets).map Prod.fst = some 0
      ∧ ¬ AcceptsValid hasIp [.d (ascii "999.1.1.1")] noSets)
    ∧ ((parseArgvs hasIp [.c (ascii "12abc"), .d (ascii "10.0.0.1")] noSets).map Prod.fst = some 0
      ∧ ¬ AcceptsValid hasIp [.c (ascii "12abc"), .d (ascii "10.0.0.1")] noSets)
    ∧ ((parseArgvs noIp [.d (ascii "10.0.0.1")] noSets).map Prod.fst = some 0
      ∧ ¬ AcceptsValid noIp [.d (ascii "10.0.0.1")] noSets)
    ∧ (parseArgvs hasIp [.d (ascii "host.example.org")] noSets = none
      ∧ ¬ AcceptsValid hasIp [.d (ascii "host.example.org")] noSets) := by
  refine ⟨⟨?_, ?_⟩, ⟨?_, ?_⟩, ⟨?_, ?_⟩, ⟨?_, ?_⟩, ?_, ?_⟩ <;> decide +kernel

end

end AllProjects.IcmpRawSocket.Ping
