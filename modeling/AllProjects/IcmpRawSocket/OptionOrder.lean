import AllProjects.IcmpRawSocket.Options

/-!
# The order of the options of ping

Each option writes a field of its own, except that `-d` and `-s` both write the source address: the
one what `get_self_ip` finds, the other what the user says. When every option is there at most once,
a field that one option writes does not depend on the order. The source address does, as it holds
what was written last.
-/

namespace AllProjects.IcmpRawSocket.Ping

/-! ## Reorderings -/

/-- The letter of an option, as `getopt` returns it. -/
def Opt.letter : Opt → Char
  | .c _ => 'c'
  | .t _ => 't'
  | .D => 'D'
  | .d _ => 'd'
  | .s _ => 's'
  | .unknown => '?'

/-- The same valid options, each at most once, in another order. -/
structure Reordered (l₁ l₂ : List Opt) : Prop where
  perm : l₁.Perm l₂
  once : (l₁.map Opt.letter).Nodup
  valid : ∀ o ∈ l₁, ValidOpt o

/-- `parse_argvs` leaves the same settings. -/
def SameSets (selfIp : ℕ → Option (List UInt8)) (sets : PingSets) (l₁ l₂ : List Opt) : Prop :=
  ∃ sets', (parseArgvs selfIp l₁ sets).map Prod.snd = some sets'
    ∧ (parseArgvs selfIp l₂ sets).map Prod.snd = some sets'

/-- `-d` and `-s` are in the same order, or the interface has no address, or the one that the user
says. -/
def SourceKept (selfIp : ℕ → Option (List UInt8)) (l₁ l₂ : List Opt) : Prop :=
  ∀ a b, .d a ∈ l₁ → .s b ∈ l₁ → ([.d a, .s b].Sublist l₁ ↔ [.d a, .s b].Sublist l₂)
    ∨ selfIp 0 = none ∨ selfIp 0 = inetPton b

variable {selfIp : ℕ → Option (List UInt8)} {sets : PingSets} {l l₁ l₂ : List Opt} {x : Char}

theorem Reordered.symm (h : Reordered l₁ l₂) : Reordered l₂ l₁ where
  perm := h.perm.symm
  once := (h.perm.map Opt.letter).nodup_iff.mp h.once
  valid := fun o ho ↦ h.valid o (h.perm.mem_iff.mpr ho)

/-! ## What is written to the fields -/

theorem eq_of_letter (once : (l.map Opt.letter).Nodup) {o o' : Opt} (ho : o ∈ l) (ho' : o' ∈ l)
    (h : o.letter = o'.letter) : o = o' :=
  List.inj_on_of_nodup_map once ho ho' h

theorem length_filterMap_le_one {β : Type} {write : Opt → Option β}
    (once : (l.map Opt.letter).Nodup) (hwrite : ∀ o, write o ≠ none → o.letter = x) :
    (l.filterMap write).length ≤ 1 := by
  have hfilter : l.filterMap write = (l.filter (·.letter = x)).filterMap write := by
    rw [List.filterMap_filter]
    apply List.filterMap_congr
    intro o _
    by_cases ho : o.letter = x
    · rw [if_pos (decide_eq_true ho)]
    · rw [if_neg (by rw [decide_eq_true_iff]; exact ho)]
      exact not_not.mp (mt (hwrite o) ho)
  have hcount : (l.filter (·.letter = x)).length = (l.map Opt.letter).count x := by
    rw [← List.countP_eq_length_filter, List.count, List.countP_map]
    apply List.countP_congr
    intro o _
    simp
  rw [hfilter]
  calc ((l.filter (·.letter = x)).filterMap write).length
      ≤ (l.filter (·.letter = x)).length := List.length_filterMap_le _ _
    _ = (l.map Opt.letter).count x := hcount
    _ ≤ 1 := List.nodup_iff_count_le_one.mp once x

theorem eq_of_perm_of_length_le_one {β : Type} {xs ys : List β} (h : xs.Perm ys)
    (hlen : xs.length ≤ 1) : xs = ys := by
  match xs with
  | [] => rw [h.nil_eq]
  | [x] => rw [List.perm_singleton.mp h.symm]
  | _ :: _ :: _ => exact absurd hlen (by simp)

theorem Reordered.filterMap_eq {β : Type} {write : Opt → Option β} (h : Reordered l₁ l₂)
    (hwrite : ∀ o, write o ≠ none → o.letter = x) : l₁.filterMap write = l₂.filterMap write :=
  eq_of_perm_of_length_le_one (h.perm.filterMap write) (length_filterMap_le_one h.once hwrite)

/-- What an option writes to `reqs_count`. -/
def writesCount : Opt → Option ℕ
  | .c optarg => match scanInt optarg with
    | .value z => some (z % 2 ^ 32).toNat
    | _ => none
  | _ => none

/-- What an option writes to `reqs_timeout`. -/
def writesTimeout : Opt → Option ℕ
  | .t optarg => match scanInt optarg with
    | .value z => some (z % 2 ^ 32).toNat
    | _ => none
  | _ => none

/-- What an option writes to `debug_opt`. -/
def writesDebug : Opt → Option ℕ
  | .D => some 1
  | _ => none

/-- What an option writes to `dst_addr`. -/
def writesDst : Opt → Option (List UInt8)
  | .d optarg => inetPton (optarg.takeWhile (· ≠ 58))
  | _ => none

/-- What an option writes to `src_addr`, where `get_self_ip` always finds the same. -/
def writesSrc (ip : Option (List UInt8)) : Opt → Option (List UInt8)
  | .d _ => ip
  | .s optarg => inetPton (optarg.takeWhile (· ≠ 58))
  | _ => none

/-- What was written last, or what was there before. -/
def written {β : Type} (write : Opt → Option β) (l : List Opt) (old : β) : β :=
  (l.filterMap write).getLast?.getD old

theorem effect_sets (ip : Option (List UInt8)) (p : Parsing) (o : Opt) :
    (effect (fun _ ↦ ip) p o).sets =
      { srcAddr := (writesSrc ip o).getD p.sets.srcAddr
        dstAddr := (writesDst o).getD p.sets.dstAddr
        reqsCount := (writesCount o).getD p.sets.reqsCount
        reqsTimeout := (writesTimeout o).getD p.sets.reqsTimeout
        debugOpt := (writesDebug o).getD p.sets.debugOpt } := by
  cases o with
  | c optarg =>
    rw [effect, writesCount]
    cases scanInt optarg <;> rfl
  | t optarg =>
    rw [effect, writesTimeout]
    cases scanInt optarg <;> rfl
  | _ => rfl

theorem foldl_effect_sets (ip : Option (List UInt8)) (l : List Opt) (p : Parsing) :
    (l.foldl (effect fun _ ↦ ip) p).sets =
      { srcAddr := written (writesSrc ip) l p.sets.srcAddr
        dstAddr := written writesDst l p.sets.dstAddr
        reqsCount := written writesCount l p.sets.reqsCount
        reqsTimeout := written writesTimeout l p.sets.reqsTimeout
        debugOpt := written writesDebug l p.sets.debugOpt } := by
  ext1
  · exact foldl_field (·.sets.srcAddr)
      (fun p o ↦ congrArg PingSets.srcAddr (effect_sets ip p o)) p l
  · exact foldl_field (·.sets.dstAddr)
      (fun p o ↦ congrArg PingSets.dstAddr (effect_sets ip p o)) p l
  · exact foldl_field (·.sets.reqsCount)
      (fun p o ↦ congrArg PingSets.reqsCount (effect_sets ip p o)) p l
  · exact foldl_field (·.sets.reqsTimeout)
      (fun p o ↦ congrArg PingSets.reqsTimeout (effect_sets ip p o)) p l
  · exact foldl_field (·.sets.debugOpt)
      (fun p o ↦ congrArg PingSets.debugOpt (effect_sets ip p o)) p l

/-! ## One look at the interface -/

theorem effect_eq_of_not_isDestination {o : Opt} (h : ¬ IsDestination o)
    (selfIp selfIp' : ℕ → Option (List UInt8)) (p : Parsing) :
    effect selfIp p o = effect selfIp' p o := by
  cases o with
  | d optarg => exact absurd trivial h
  | _ => rfl

theorem effect_calls_of_not_isDestination {o : Opt} (h : ¬ IsDestination o) (p : Parsing) :
    (effect selfIp p o).calls = p.calls := by
  cases o with
  | d optarg => exact absurd trivial h
  | c optarg | t optarg =>
    rw [effect]
    cases scanInt optarg <;> rfl
  | _ => rfl

/-- With one destination `get_self_ip` is called once. -/
theorem foldl_effect_const (hcount : l.countP (IsDestination ·) ≤ 1) {p : Parsing}
    (hcalls : p.calls = 0) :
    l.foldl (effect selfIp) p = l.foldl (effect fun _ ↦ selfIp 0) p := by
  induction l generalizing p with
  | nil => rfl
  | cons o l ih =>
    rw [List.foldl_cons, List.foldl_cons]
    by_cases ho : IsDestination o
    -- the one call is made here, and none behind it
    · rw [List.countP_cons, if_pos (decide_eq_true ho)] at hcount
      have hrest : ∀ o' ∈ l, ¬ IsDestination o' := by
        have hzero : l.countP (IsDestination ·) = 0 := by omega
        simpa only [List.countP_eq_zero, decide_eq_true_iff] using hzero
      have hfirst : effect selfIp p o = effect (fun _ ↦ selfIp 0) p o := by
        cases o with
        | d optarg => simp only [effect, hcalls]
        | _ => exact ho.elim
      rw [hfirst]
      apply List.foldl_ext
      intro q o' ho'
      exact effect_eq_of_not_isDestination (hrest o' ho') _ _ q
    · rw [List.countP_cons, if_neg (by rwa [decide_eq_true_iff])] at hcount
      rw [effect_eq_of_not_isDestination ho selfIp (fun _ ↦ selfIp 0) p]
      exact ih hcount ((effect_calls_of_not_isDestination ho p).trans hcalls)

theorem isDestination_iff (o : Opt) : IsDestination o ↔ o.letter = 'd' := by
  cases o <;> simp [IsDestination, Opt.letter]

theorem Reordered.countP_le (h : Reordered l₁ l₂) : l₁.countP (IsDestination ·) ≤ 1 := by
  have hcount : l₁.countP (IsDestination ·) = (l₁.map Opt.letter).count 'd' := by
    rw [List.count, List.countP_map]
    apply List.countP_congr
    intro o _
    rw [decide_eq_true_iff, isDestination_iff, Function.comp_apply, beq_iff_eq]
  rw [hcount]
  exact List.nodup_iff_count_le_one.mp h.once 'd'

/-- **The settings that valid options leave**, each at most once. -/
theorem Reordered.parseArgvs_eq (h : Reordered l₁ l₂) (sets : PingSets) :
    parseArgvs selfIp l₁ sets = some (0,
      { srcAddr := written (writesSrc (selfIp 0)) l₁ sets.srcAddr
        dstAddr := written writesDst l₁ sets.dstAddr
        reqsCount := written writesCount l₁ sets.reqsCount
        reqsTimeout := written writesTimeout l₁ sets.reqsTimeout
        debugOpt := written writesDebug l₁ sets.debugOpt }) := by
  have hgo : ∀ o ∈ l₁, ¬ Rejected o ∧ ¬ TooLong o :=
    fun o ho ↦ ⟨(h.valid o ho).not_rejected, (h.valid o ho).not_tooLong⟩
  rw [parseArgvs_of_none hgo, foldl_effect_const h.countP_le rfl, foldl_effect_sets]

theorem Reordered.sameSets_iff (h : Reordered l₁ l₂) :
    SameSets selfIp sets l₁ l₂ ↔ written (writesSrc (selfIp 0)) l₁ sets.srcAddr
      = written (writesSrc (selfIp 0)) l₂ sets.srcAddr := by
  -- each of these fields is written by the options of one letter, of which there is at most one
  have hcount : l₁.filterMap writesCount = l₂.filterMap writesCount := by
    apply h.filterMap_eq (x := 'c')
    intro o ho
    cases o <;> first | rfl | exact absurd rfl ho
  have htimeout : l₁.filterMap writesTimeout = l₂.filterMap writesTimeout := by
    apply h.filterMap_eq (x := 't')
    intro o ho
    cases o <;> first | rfl | exact absurd rfl ho
  have hdebug : l₁.filterMap writesDebug = l₂.filterMap writesDebug := by
    apply h.filterMap_eq (x := 'D')
    intro o ho
    cases o <;> first | rfl | exact absurd rfl ho
  have hdst : l₁.filterMap writesDst = l₂.filterMap writesDst := by
    apply h.filterMap_eq (x := 'd')
    intro o ho
    cases o <;> first | rfl | exact absurd rfl ho
  rw [SameSets, h.parseArgvs_eq, h.symm.parseArgvs_eq]
  simp only [written, hcount, htimeout, hdebug, hdst, Option.map_some, Option.some_inj]
  constructor
  · rintro ⟨sets', rfl, hsets⟩
    exact (congrArg PingSets.srcAddr hsets).symm
  · intro hsrc
    exact ⟨_, rfl, by rw [hsrc]⟩

/-! ## The source address -/

/-- The two options that write the source address. -/
def IsSource (o : Opt) : Prop := o.letter = 'd' ∨ o.letter = 's'

instance : DecidablePred IsSource := fun _ ↦ inferInstanceAs (Decidable (_ ∨ _))

theorem filterMap_writesSrc (ip : Option (List UInt8)) (l : List Opt) :
    l.filterMap (writesSrc ip) = (l.filter (IsSource ·)).filterMap (writesSrc ip) := by
  rw [List.filterMap_filter]
  apply List.filterMap_congr
  intro o _
  cases o <;> rfl

theorem Reordered.filterMap_of_no_destination (h : Reordered l₁ l₂) {ip : Option (List UInt8)}
    (hno : ∀ a, .d a ∈ l₁ → ip = none) :
    l₁.filterMap (writesSrc ip) = l₂.filterMap (writesSrc ip) := by
  have hnone : ∀ l : List Opt, (∀ a, .d a ∈ l → ip = none) →
      l.filterMap (writesSrc ip) = l.filterMap (writesSrc none) := by
    intro l hl
    apply List.filterMap_congr
    intro o ho
    cases o with
    | d optarg => exact hl optarg ho
    | _ => rfl
  rw [hnone l₁ hno, hnone l₂ fun a ha ↦ hno a (h.perm.mem_iff.mpr ha)]
  apply h.filterMap_eq (x := 's')
  intro o ho
  cases o <;> first | rfl | exact absurd rfl ho

theorem Reordered.filterMap_of_no_source (h : Reordered l₁ l₂) {ip : Option (List UInt8)}
    (hno : ∀ b, .s b ∉ l₁) : l₁.filterMap (writesSrc ip) = l₂.filterMap (writesSrc ip) := by
  have hdst : ∀ l : List Opt, (∀ b, .s b ∉ l) → l.filterMap (writesSrc ip)
      = l.filterMap fun o ↦ if o.letter = 'd' then ip else none := by
    intro l hl
    apply List.filterMap_congr
    intro o ho
    cases o with
    | s optarg => exact absurd ho (hl optarg)
    | _ => rfl
  rw [hdst l₁ hno, hdst l₂ fun b hb ↦ hno b (h.perm.mem_iff.mpr hb)]
  apply h.filterMap_eq (x := 'd')
  intro o ho
  by_contra hne
  exact ho (if_neg hne)

section Both

variable {a b : List UInt8}

/-- The two are there in one of the two orders. -/
theorem filter_isSource (once : (l.map Opt.letter).Nodup) (ha : .d a ∈ l) (hb : .s b ∈ l) :
    l.filter (IsSource ·) = [.d a, .s b] ∨ l.filter (IsSource ·) = [.s b, .d a] := by
  rw [← List.perm_pair]
  apply (List.perm_ext_iff_of_nodup (once.of_map.filter _) (by simp)).mpr
  intro o
  simp only [List.mem_filter, decide_eq_true_iff, List.mem_cons, List.not_mem_nil, or_false]
  constructor
  · rintro ⟨ho, hletter | hletter⟩
    · exact Or.inl (eq_of_letter once ho ha hletter)
    · exact Or.inr (eq_of_letter once ho hb hletter)
  · rintro (rfl | rfl)
    · exact ⟨ha, Or.inl rfl⟩
    · exact ⟨hb, Or.inr rfl⟩

theorem sublist_iff_filter (once : (l.map Opt.letter).Nodup) (ha : .d a ∈ l) (hb : .s b ∈ l) :
    [.d a, .s b].Sublist l ↔ l.filter (IsSource ·) = [.d a, .s b] := by
  constructor
  · intro hsub
    have hfilter : [Opt.d a, Opt.s b].Sublist (l.filter (IsSource ·)) := hsub.filter (IsSource ·)
    obtain heq | heq := filter_isSource once ha hb
    · exact heq
    · rw [heq] at hfilter
      exact absurd (hfilter.eq_of_length rfl) (by simp)
  · intro heq
    rw [← heq]
    exact List.filter_sublist

/-- The later of the two gives the source address. -/
theorem written_writesSrc (once : (l.map Opt.letter).Nodup) (ha : .d a ∈ l) (hb : .s b ∈ l)
    (hvalid : IsDotted b) {x y old : List UInt8} (hy : inetPton b = some y) :
    written (writesSrc (some x)) l old = if [.d a, .s b].Sublist l then y else x := by
  have hwrites : writesSrc (some x) (.s b) = some y := by
    rw [writesSrc, hvalid.takeWhile_eq rfl (by decide), hy]
  have hsub := sublist_iff_filter once ha hb
  rw [written, filterMap_writesSrc]
  obtain heq | heq := filter_isSource once ha hb
  · rw [if_pos (hsub.mpr heq), heq, List.filterMap_cons, List.filterMap_cons, hwrites]
    rfl
  · have hnot : ¬ [Opt.d a, Opt.s b].Sublist l := by
      rw [hsub, heq]
      simp
    rw [if_neg hnot, heq, List.filterMap_cons, List.filterMap_cons, hwrites]
    rfl

end Both

/-- **When the order does not matter.** -/
theorem sameSets_iff_sourceKept (h : Reordered l₁ l₂) :
    SameSets selfIp sets l₁ l₂ ↔ SourceKept selfIp l₁ l₂ := by
  rw [h.sameSets_iff]
  by_cases hboth : ∃ a b, .d a ∈ l₁ ∧ .s b ∈ l₁ ∧ selfIp 0 ≠ none
  · obtain ⟨a, b, ha, hb, hip⟩ := hboth
    obtain ⟨x, hx⟩ := Option.ne_none_iff_exists'.mp hip
    have hvalid : IsDotted b := h.valid _ hb
    obtain ⟨y, hy⟩ := exists_inetPton hvalid
    have hkept : SourceKept selfIp l₁ l₂
        ↔ ([.d a, .s b].Sublist l₁ ↔ [.d a, .s b].Sublist l₂) ∨ x = y := by
      have hthis : ∀ a' b', .d a' ∈ l₁ → .s b' ∈ l₁ → a' = a ∧ b' = b := by
        intro a' b' ha' hb'
        exact ⟨Opt.d.inj (eq_of_letter h.once ha' ha rfl),
          Opt.s.inj (eq_of_letter h.once hb' hb rfl)⟩
      constructor
      · intro hall
        have hab := hall a b ha hb
        rwa [hx, hy, or_iff_right (Option.some_ne_none x), Option.some_inj] at hab
      · intro hab a' b' ha' hb'
        obtain ⟨rfl, rfl⟩ := hthis a' b' ha' hb'
        rwa [hx, hy, or_iff_right (Option.some_ne_none x), Option.some_inj]
    have ha₂ := h.perm.mem_iff.mp ha
    have hb₂ := h.perm.mem_iff.mp hb
    rw [hkept, hx, written_writesSrc h.once ha hb hvalid hy,
      written_writesSrc h.symm.once ha₂ hb₂ hvalid hy]
    -- the same order gives the same, the other order what the other option says
    split <;> split <;> simp_all [eq_comm]
  -- one of the two does not write, so the other one decides in both orders
  · have hkept : SourceKept selfIp l₁ l₂ := by
      intro a b ha hb
      by_contra hnot
      rw [not_or, not_or] at hnot
      exact hboth ⟨a, b, ha, hb, hnot.2.1⟩
    refine iff_of_true ?_ hkept
    rw [written, written]
    by_cases hd : ∃ b, .s b ∈ l₁
    · obtain ⟨b, hb⟩ := hd
      rw [h.filterMap_of_no_destination]
      intro a ha
      by_contra hip
      exact hboth ⟨a, b, ha, hb, hip⟩
    · rw [h.filterMap_of_no_source fun b hb ↦ hd ⟨b, hb⟩]

/-- A count behind the destination or in front of it. -/
theorem sameSets_iff_sourceKept_count :
    Reordered [.d (ascii "10.0.0.1"), .c (ascii "5")] [.c (ascii "5"), .d (ascii "10.0.0.1")]
      ∧ SameSets hasIp noSets [.d (ascii "10.0.0.1"), .c (ascii "5")]
        [.c (ascii "5"), .d (ascii "10.0.0.1")] := by
  have h : Reordered [.d (ascii "10.0.0.1"), .c (ascii "5")]
      [.c (ascii "5"), .d (ascii "10.0.0.1")] :=
    ⟨List.Perm.swap _ _ _, by decide, by decide +kernel⟩
  refine ⟨h, (sameSets_iff_sourceKept h).mpr ?_⟩
  intro a b _ hb
  simp at hb

/-- The user's source address is kept behind the destination, and lost in front of it. -/
theorem not_sameSets :
    Reordered [.d (ascii "10.0.0.1"), .s (ascii "10.0.0.2")]
      [.s (ascii "10.0.0.2"), .d (ascii "10.0.0.1")]
    ∧ (parseArgvs hasIp [.d (ascii "10.0.0.1"), .s (ascii "10.0.0.2")] noSets).map
        (fun r ↦ r.2.srcAddr) = some [10, 0, 0, 2]
    ∧ (parseArgvs hasIp [.s (ascii "10.0.0.2"), .d (ascii "10.0.0.1")] noSets).map
        (fun r ↦ r.2.srcAddr) = some [192, 168, 0, 2]
    ∧ ¬ SameSets hasIp noSets [.d (ascii "10.0.0.1"), .s (ascii "10.0.0.2")]
        [.s (ascii "10.0.0.2"), .d (ascii "10.0.0.1")] := by
  have h : Reordered [.d (ascii "10.0.0.1"), .s (ascii "10.0.0.2")]
      [.s (ascii "10.0.0.2"), .d (ascii "10.0.0.1")] :=
    ⟨List.Perm.swap _ _ _, by decide, by decide +kernel⟩
  refine ⟨h, by decide +kernel, by decide +kernel, ?_⟩
  rw [h.sameSets_iff]
  decide +kernel

end AllProjects.IcmpRawSocket.Ping
