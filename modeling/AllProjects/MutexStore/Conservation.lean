import AllProjects.MutexStore.Store

/-!
# Goods are conserved

A customer that is between the two subtractions of its section has goods in its hands that have
left the store and do not count as bought yet. Counting these, every statement keeps the total;
outside the sections nobody has any.

The amount is clamped to the demand before the section and to the stock inside it. The demand
belongs to the customer alone, and the stock to whoever has the mutex, so both bounds still hold
when the goods are taken.
-/

namespace AllProjects

namespace MutexStore

variable {n : ℕ} {κ ι : Type}

/-! ## What the threads hold -/

namespace CstFunc

/-- The amount that a customer is about to take is one that it needs and, from the second clamp on,
one that the store has. -/
def Covered (stVal : Fin n → ℤ) (cstVal : ℤ) : CstFunc n → Prop
  | lock _ stfNum | clamp _ stfNum | takeDemand _ stfNum => 0 ≤ stfNum ∧ stfNum ≤ cstVal
  | takeStock stId stfNum => 0 ≤ stfNum ∧ stfNum ≤ cstVal ∧ stfNum ≤ stVal stId
  | test | unlock _ | exited => True

/-- The store whose mutex a customer has. -/
def holds : CstFunc n → Option (Fin n)
  | clamp stId _ | takeStock stId _ | takeDemand stId _ | unlock stId => some stId
  | test | lock _ _ | exited => none

/-- The goods that have left the store and do not count as bought yet. -/
def inHand : CstFunc n → ℤ
  | takeDemand _ stfNum => stfNum
  | test | lock _ _ | clamp _ _ | takeStock _ _ | unlock _ | exited => 0

/-- Only the customer that takes from a store relies on its stock. -/
theorem Covered.of_stVal {stVal stVal' : Fin n → ℤ} {cstVal : ℤ} {x : CstFunc n}
    (h : x.Covered stVal cstVal) (hsame : ∀ i stfNum, x = takeStock i stfNum → stVal' i = stVal i) :
    x.Covered stVal' cstVal := by
  cases x with
  | takeStock i stfNum =>
    obtain ⟨hnonneg, hdemand, hstock⟩ := h
    refine ⟨hnonneg, hdemand, ?_⟩
    rw [hsame i stfNum rfl]
    exact hstock
  | test | lock _ _ | clamp _ _ | takeDemand _ _ | unlock _ | exited => exact h

end CstFunc

namespace LdrFunc

/-- Loaders bring goods. -/
def Covered : LdrFunc n → Prop
  | lock _ stfNum | load _ stfNum => 0 ≤ stfNum
  | draw | unlock _ => True

/-- The store whose mutex a loader has. -/
def holds : LdrFunc n → Option (Fin n)
  | load stId _ | unlock stId => some stId
  | draw | lock _ _ => none

end LdrFunc

/-- What holds between any two statements. -/
structure State.Sound (s : State n κ ι) : Prop where
  stVal_nonneg : ∀ i, 0 ≤ s.stVal i
  cstVal_nonneg : ∀ c, 0 ≤ s.cstVal c
  customers : ∀ c, (s.customers c).Covered s.stVal (s.cstVal c)
  loaders : ∀ l, (s.loaders l).Covered
  cst_owner : ∀ c i, (s.customers c).holds = some i → s.stMtx i = some (.inl c)
  ldr_owner : ∀ l i, (s.loaders l).holds = some i → s.stMtx i = some (.inr l)

theorem sound_initial {stVal : Fin n → ℤ} {cstVal : κ → ℤ} (hst : ∀ i, 0 ≤ stVal i)
    (hcst : ∀ c, 0 ≤ cstVal c) : (State.initial stVal cstVal : State n κ ι).Sound where
  stVal_nonneg := hst
  cstVal_nonneg := hcst
  customers := fun _ ↦ trivial
  loaders := fun _ ↦ trivial
  cst_owner := fun _ _ h ↦ (by cases h)
  ldr_owner := fun _ _ h ↦ (by cases h)

theorem holds_update_ne {α β : Type*} [DecidableEq α] (holds : β → Option (Fin n)) {f : α → β}
    {a : α} {x : β} {i : Fin n} (hx : holds x ≠ some i) (hone : ∀ b, holds (f b) = some i → b = a)
    (b : α) : holds (Function.update f a x b) ≠ some i := by
  by_cases hne : b = a
  · rw [hne, Function.update_self]
    exact hx
  · rw [Function.update_of_ne hne]
    exact fun hi ↦ hne (hone b hi)

namespace State.Sound

variable {s : State n κ ι} (h : s.Sound)
include h

/-! ## One variable changes -/

theorem updateCustomer [DecidableEq κ] {cid : κ} {x : CstFunc n}
    (hcov : x.Covered s.stVal (s.cstVal cid))
    (howner : ∀ i, x.holds = some i → s.stMtx i = some (.inl cid)) :
    Sound { s with customers := Function.update s.customers cid x } :=
  { h with
    customers :=
      (Function.forall_update_iff s.customers
        (p := fun c (x : CstFunc n) ↦ x.Covered s.stVal (s.cstVal c))).mpr
          ⟨hcov, fun c _ ↦ h.customers c⟩
    cst_owner :=
      (Function.forall_update_iff s.customers
        (p := fun c (x : CstFunc n) ↦ ∀ i, x.holds = some i → s.stMtx i = some (.inl c))).mpr
          ⟨howner, fun c _ ↦ h.cst_owner c⟩ }

theorem updateLoader [DecidableEq ι] {lid : ι} {x : LdrFunc n} (hcov : x.Covered)
    (howner : ∀ i, x.holds = some i → s.stMtx i = some (.inr lid)) :
    Sound { s with loaders := Function.update s.loaders lid x } :=
  { h with
    loaders :=
      (Function.forall_update_iff s.loaders (p := fun _ (x : LdrFunc n) ↦ x.Covered)).mpr
        ⟨hcov, fun l _ ↦ h.loaders l⟩
    ldr_owner :=
      (Function.forall_update_iff s.loaders
        (p := fun l (x : LdrFunc n) ↦ ∀ i, x.holds = some i → s.stMtx i = some (.inr l))).mpr
          ⟨howner, fun l _ ↦ h.ldr_owner l⟩ }

/-- A mutex changes hands when nobody else counts on it. -/
theorem updateMtx {i : Fin n} {o : Option (κ ⊕ ι)}
    (hcst : ∀ c, (s.customers c).holds = some i → o = some (.inl c))
    (hldr : ∀ l, (s.loaders l).holds = some i → o = some (.inr l)) :
    Sound { s with stMtx := Function.update s.stMtx i o } :=
  { h with
    cst_owner := fun c ↦
      (Function.forall_update_iff s.stMtx
        (p := fun j o ↦ (s.customers c).holds = some j → o = some (.inl c))).mpr
          ⟨hcst c, fun j _ ↦ h.cst_owner c j⟩
    ldr_owner := fun l ↦
      (Function.forall_update_iff s.stMtx
        (p := fun j o ↦ (s.loaders l).holds = some j → o = some (.inr l))).mpr
          ⟨hldr l, fun j _ ↦ h.ldr_owner l j⟩ }

theorem lockMtx {i : Fin n} {o : Option (κ ⊕ ι)} (hfree : s.stMtx i = none) :
    Sound { s with stMtx := Function.update s.stMtx i o } := by
  apply h.updateMtx
  · intro c hi
    rw [h.cst_owner c i hi] at hfree
    cases hfree
  · intro l hi
    rw [h.ldr_owner l i hi] at hfree
    cases hfree

theorem updateStVal {i : Fin n} {v : ℤ} (hv : 0 ≤ v)
    (hfree : ∀ c stfNum, s.customers c ≠ .takeStock i stfNum) :
    Sound { s with stVal := Function.update s.stVal i v } where
  stVal_nonneg :=
    (Function.forall_update_iff s.stVal (p := fun _ v ↦ 0 ≤ v)).mpr
      ⟨hv, fun j _ ↦ h.stVal_nonneg j⟩
  cstVal_nonneg := h.cstVal_nonneg
  customers := by
    intro c
    apply (h.customers c).of_stVal
    intro j stfNum hc
    apply Function.update_of_ne
    rintro rfl
    exact hfree c stfNum hc
  loaders := h.loaders
  cst_owner := h.cst_owner
  ldr_owner := h.ldr_owner

theorem updateCstVal [DecidableEq κ] {cid : κ} {v : ℤ} (hv : 0 ≤ v)
    (hcov : (s.customers cid).Covered s.stVal v) :
    Sound { s with cstVal := Function.update s.cstVal cid v } :=
  { h with
    cstVal_nonneg :=
      (Function.forall_update_iff s.cstVal (p := fun _ v ↦ 0 ≤ v)).mpr
        ⟨hv, fun c _ ↦ h.cstVal_nonneg c⟩
    customers :=
      (Function.forall_update_iff s.cstVal
        (p := fun c v ↦ (s.customers c).Covered s.stVal v)).mpr
          ⟨hcov, fun c _ ↦ h.customers c⟩ }

/-! ## Mutual exclusion -/

/-- Whoever has the mutex of a store is the only one. -/
theorem eq_of_cst_holds {cid c : κ} {i : Fin n} (hcid : (s.customers cid).holds = some i)
    (hc : (s.customers c).holds = some i) : c = cid := by
  have howner := (h.cst_owner c i hc).symm.trans (h.cst_owner cid i hcid)
  exact Sum.inl.inj (Option.some.inj howner)

theorem eq_of_ldr_holds {lid l : ι} {i : Fin n} (hlid : (s.loaders lid).holds = some i)
    (hl : (s.loaders l).holds = some i) : l = lid := by
  have howner := (h.ldr_owner l i hl).symm.trans (h.ldr_owner lid i hlid)
  exact Sum.inr.inj (Option.some.inj howner)

theorem not_both_hold {c : κ} {l : ι} {i : Fin n} (hc : (s.customers c).holds = some i)
    (hl : (s.loaders l).holds = some i) : False := by
  have howner := (h.cst_owner c i hc).symm.trans (h.ldr_owner l i hl)
  cases howner

end State.Sound

/-! ## One step -/

variable [DecidableEq κ] [DecidableEq ι] {s t : State n κ ι}

/-- **Every statement keeps the bounds and the mutual exclusion.** -/
theorem Move.sound (hmove : Move s t) (h : s.Sound) : t.Sound := by
  cases hmove with
  | draw hc hpos hstf =>
    apply h.updateCustomer
    · exact ⟨clampTo_nonneg (h.cstVal_nonneg _) hstf, clampTo_le_limit _ _⟩
    · intro i hi
      cases hi
  | exit hc hpos => exact h.updateCustomer trivial fun i hi ↦ (by cases hi)
  | @lock cid stId stfNum hc hfree =>
    have hcov := h.customers cid
    rw [hc] at hcov
    -- the mutex first, so that the customer is its owner by the time it holds it
    have hmtx := h.lockMtx (o := some (.inl cid)) hfree
    apply hmtx.updateCustomer (x := .clamp stId stfNum) hcov
    intro i hi
    cases hi
    exact Function.update_self ..
  | @clamp cid stId stfNum hc =>
    have hcov := h.customers cid
    rw [hc] at hcov
    apply h.updateCustomer
    · refine ⟨clampTo_nonneg (h.stVal_nonneg _) hcov.1, ?_, clampTo_le_limit _ _⟩
      exact (clampTo_le _ _).trans hcov.2
    · intro i hi
      cases hi
      exact h.cst_owner cid stId (by rw [hc]; rfl)
  | @takeStock cid stId stfNum hc =>
    have hcov := h.customers cid
    rw [hc] at hcov
    have hholds : (s.customers cid).holds = some stId := by rw [hc]; rfl
    have hcid : State.Sound { s with
        customers := Function.update s.customers cid (.takeDemand stId stfNum) } := by
      apply h.updateCustomer (x := .takeDemand stId stfNum) ⟨hcov.1, hcov.2.1⟩
      intro i hi
      cases hi
      exact h.cst_owner cid stId hholds
    apply hcid.updateStVal (sub_nonneg.mpr hcov.2.2)
    -- nobody else holds the store whose value changes
    intro c x hx
    by_cases hne : c = cid
    · rw [hne] at hx
      simp only [Function.update_self] at hx
      cases hx
    · simp only [Function.update_of_ne hne] at hx
      exact hne (h.eq_of_cst_holds hholds (by rw [hx]; rfl))
  | @takeDemand cid stId stfNum hc =>
    have hcov := h.customers cid
    rw [hc] at hcov
    have hcid : State.Sound { s with
        customers := Function.update s.customers cid (.unlock stId) } := by
      apply h.updateCustomer (x := .unlock stId) trivial
      intro i hi
      cases hi
      exact h.cst_owner cid stId (by rw [hc]; rfl)
    apply hcid.updateCstVal (sub_nonneg.mpr hcov.2)
    simp only [Function.update_self]
    trivial
  | @unlock cid stId hc =>
    have hholds : (s.customers cid).holds = some stId := by rw [hc]; rfl
    have hcid : State.Sound { s with customers := Function.update s.customers cid .test } :=
      h.updateCustomer trivial fun i hi ↦ (by cases hi)
    apply hcid.updateMtx
    · intro c hi
      exact absurd hi (holds_update_ne CstFunc.holds (x := .test) nofun
        (fun _ ↦ h.eq_of_cst_holds hholds) c)
    · intro l hi
      exact (h.not_both_hold hholds hi).elim
  | ldrDraw hl hstf => exact h.updateLoader hstf fun i hi ↦ (by cases hi)
  | @ldrLock lid stId stfNum hl hfree =>
    have hcov := h.loaders lid
    rw [hl] at hcov
    have hmtx := h.lockMtx (o := some (.inr lid)) hfree
    apply hmtx.updateLoader (x := .load stId stfNum) hcov
    intro i hi
    cases hi
    exact Function.update_self ..
  | @load lid stId stfNum hl =>
    have hcov := h.loaders lid
    rw [hl] at hcov
    have hholds : (s.loaders lid).holds = some stId := by rw [hl]; rfl
    have hlid : State.Sound { s with
        loaders := Function.update s.loaders lid (.unlock stId), loaded := s.loaded + stfNum } := by
      have hplace : State.Sound { s with
          loaders := Function.update s.loaders lid (.unlock stId) } := by
        apply h.updateLoader (x := .unlock stId) trivial
        intro i hi
        cases hi
        exact h.ldr_owner lid stId hholds
      exact { hplace with }
    apply hlid.updateStVal (add_nonneg (h.stVal_nonneg stId) hcov)
    -- a customer that has seen this store would hold its mutex
    intro c x hx
    exact h.not_both_hold (by rw [hx]; rfl) hholds
  | @ldrUnlock lid stId hl =>
    have hholds : (s.loaders lid).holds = some stId := by rw [hl]; rfl
    have hlid : State.Sound { s with loaders := Function.update s.loaders lid .draw } :=
      h.updateLoader trivial fun i hi ↦ (by cases hi)
    apply hlid.updateMtx
    · intro c hi
      exact (h.not_both_hold hi hholds).elim
    · intro l hi
      exact absurd hi (holds_update_ne LdrFunc.holds (x := .draw) nofun
        (fun _ ↦ h.eq_of_ldr_holds hholds) l)

theorem sound_of_run {es : List (Event κ ι)} (hrun : Run Step s es t) (h : s.Sound) : t.Sound :=
  hrun.invariant (fun _ _ _ hs hstep ↦ hstep.move.sound hs) h

section Balance

variable [Fintype κ]

/-- The goods in the stores. -/
def State.stock (s : State n κ ι) : ℤ := ∑ i, s.stVal i

/-- The goods bought so far, by customers with these demands at the start. -/
def State.bought (demand : κ → ℤ) (s : State n κ ι) : ℤ := ∑ c, (demand c - s.cstVal c)

/-- The goods in the hands of customers. -/
def State.inHand (s : State n κ ι) : ℤ := ∑ c, (s.customers c).inHand

omit [DecidableEq ι] in
theorem sum_inHand_update {cid : κ} {x : CstFunc n} (hc : (s.customers cid).inHand = 0)
    (hx : x.inHand = 0) :
    ∑ c, (Function.update s.customers cid x c).inHand = ∑ c, (s.customers c).inHand := by
  have hsum := sum_threads_update (fun _ ↦ CstFunc.inHand) s.customers cid x
  linarith

/-- **Every statement keeps the total.** -/
theorem Move.balance (hmove : Move s t) (demand : κ → ℤ) :
    t.stock + t.bought demand + t.inHand - t.loaded
      = s.stock + s.bought demand + s.inHand - s.loaded := by
  have hplace := fun (c : κ) (x : CstFunc n) ↦
    sum_threads_update (fun _ ↦ CstFunc.inHand) s.customers c x
  have hstock := fun (i : Fin n) (v : ℤ) ↦ sum_threads_update (fun _ (v : ℤ) ↦ v) s.stVal i v
  have hdemand := fun (c : κ) (v : ℤ) ↦
    sum_threads_update (fun c (v : ℤ) ↦ demand c - v) s.cstVal c v
  simp only [State.stock, State.bought, State.inHand]
  cases hmove with
  | draw hc | exit hc | lock hc | clamp hc | unlock hc =>
    rw [sum_inHand_update (by rw [hc]; rfl) rfl]
  | @takeStock cid stId stfNum hc =>
    have hstock' := hstock stId (s.stVal stId - stfNum)
    have hplace' := hplace cid (.takeDemand stId stfNum)
    rw [hc] at hplace'
    simp only [CstFunc.inHand] at hplace' ⊢
    linarith
  | @takeDemand cid stId stfNum hc =>
    have hdemand' := hdemand cid (s.cstVal cid - stfNum)
    have hplace' := hplace cid (.unlock stId)
    rw [hc] at hplace'
    simp only [CstFunc.inHand] at hplace' ⊢
    linarith
  | ldrDraw _ _ | ldrLock _ _ | ldrUnlock _ => rfl
  | @load lid stId stfNum hl =>
    have hstock' := hstock stId (s.stVal stId + stfNum)
    linarith

theorem balance_of_run {es : List (Event κ ι)} (hrun : Run Step s es t) (demand : κ → ℤ) :
    t.stock + t.bought demand + t.inHand - t.loaded
      = s.stock + s.bought demand + s.inHand - s.loaded :=
  hrun.invariant
    (I := fun u ↦ u.stock + u.bought demand + u.inHand - u.loaded
      = s.stock + s.bought demand + s.inHand - s.loaded)
    (fun _ _ _ hs hstep ↦ (hstep.move.balance demand).trans hs) rfl

/-- **Goods are conserved.** Wherever the threads are: no stock and no demand is negative, what a
customer is about to take is in the store and needed, and the goods in the stores, those bought and
those in the hands of customers add up. Outside the sections nobody has any in hand. -/
theorem goods_conserved {stVal : Fin n → ℤ} {cstVal : κ → ℤ} (hst : ∀ i, 0 ≤ stVal i)
    (hcst : ∀ c, 0 ≤ cstVal c) {es : List (Event κ ι)}
    (hrun : Run Step (State.initial stVal cstVal) es s) :
    (∀ i, 0 ≤ s.stVal i) ∧ (∀ c, 0 ≤ s.cstVal c)
      ∧ (∀ c i stfNum, s.customers c = .takeStock i stfNum →
          0 ≤ stfNum ∧ stfNum ≤ s.cstVal c ∧ stfNum ≤ s.stVal i)
      ∧ (∑ i, s.stVal i) + (∑ c, (cstVal c - s.cstVal c)) + ∑ c, (s.customers c).inHand
          = (∑ i, stVal i) + s.loaded
      ∧ ((∀ c i stfNum, s.customers c ≠ .takeDemand i stfNum) →
          (∑ i, s.stVal i) + ∑ c, (cstVal c - s.cstVal c) = (∑ i, stVal i) + s.loaded) := by
  have hsound := sound_of_run hrun (sound_initial hst hcst)
  have htotal := balance_of_run hrun cstVal
  have hstart : (State.initial stVal cstVal : State n κ ι).bought cstVal = 0
      ∧ (State.initial stVal cstVal : State n κ ι).inHand = 0 :=
    ⟨Finset.sum_eq_zero fun c _ ↦ sub_self _, Finset.sum_eq_zero fun c _ ↦ rfl⟩
  rw [hstart.1, hstart.2] at htotal
  have hbalance : (∑ i, s.stVal i) + (∑ c, (cstVal c - s.cstVal c)) + ∑ c, (s.customers c).inHand
      = (∑ i, stVal i) + s.loaded := by
    simp only [State.stock, State.bought, State.inHand, State.initial] at htotal
    linarith
  refine ⟨hsound.stVal_nonneg, hsound.cstVal_nonneg, ?_, hbalance, ?_⟩
  · intro c i stfNum hc
    have hcov := hsound.customers c
    rwa [hc] at hcov
  · intro hrest
    have hhand : ∑ c, (s.customers c).inHand = 0 := by
      apply Finset.sum_eq_zero
      intro c _
      cases hc : s.customers c with
      | takeDemand i stfNum => exact absurd hc (hrest c i stfNum)
      | test | lock _ _ | clamp _ _ | takeStock _ _ | unlock _ | exited => rfl
    rwa [hhand, add_zero] at hbalance

end Balance

/-- Two customers in the sections of two stores at once, then a loader. -/
theorem goods_conserved_overlapping : ∃ s : State 2 Bool Unit,
    Run Step (State.initial (fun _ ↦ 100) fun _ ↦ 700)
      [.cst true 0 50, .cst false 1 500, .cst true 0 0, .cst false 0 0, .cst true 0 0,
        .cst false 0 0, .cst true 0 0, .cst false 0 0, .cst true 0 0, .cst false 0 0,
        .cst true 0 0, .ldr () 0 12, .ldr () 0 0, .ldr () 0 0] s
      ∧ s.loaded = 12
      ∧ (∑ i, s.stVal i) + (∑ c, (700 - s.cstVal c)) + ∑ c, (s.customers c).inHand
          = (∑ _ : Fin 2, 100) + s.loaded := by
  have hsome : (List.foldlM exec (State.initial (fun _ ↦ 100) fun _ ↦ 700 : State 2 Bool Unit)
      [.cst true 0 50, .cst false 1 500, .cst true 0 0, .cst false 0 0, .cst true 0 0,
        .cst false 0 0, .cst true 0 0, .cst false 0 0, .cst true 0 0, .cst false 0 0,
        .cst true 0 0, .ldr () 0 12, .ldr () 0 0, .ldr () 0 0]).isSome = true := by decide
  obtain ⟨s, hs, hrun⟩ := exists_run_of_isSome exec hsome
  have hconserved := goods_conserved (fun _ ↦ by decide) (fun _ ↦ by decide) hrun
  refine ⟨s, hrun, ?_, hconserved.2.2.2.1⟩
  cases hs
  rfl

end MutexStore

end AllProjects
