import AllProjects.Transition.Run

/-!
# Customers, stores and loaders

`cst_func` buys until the demand of its customer is met: it draws a store and an amount, clamps the
amount to the demand, and under the mutex of the store clamps it once more, to the stock, before it
subtracts it from both. `ldr_func` adds random amounts to random stores, forever.

Each statement between `pthread_mutex_lock` and `pthread_mutex_unlock` is a step of its own. The
mutexes keep two threads from being inside for the same store, but sections for different stores
interleave freely.
-/

namespace AllProjects

namespace MutexStore

/-- `get_rand_int` on the value `rand` that `rand()` returned. On invalid arguments the process
exits. -/
def getRandInt (rangeMin rangeMax : ℤ) (rand : ℕ) : Option ℤ :=
  if rangeMin > rangeMax then none
  else some (rangeMin + (rand : ℤ).tmod (rangeMax - rangeMin + 1))

theorem getRandInt_mem {rangeMin rangeMax k : ℤ} {rand : ℕ}
    (h : getRandInt rangeMin rangeMax rand = some k) : rangeMin ≤ k ∧ k ≤ rangeMax := by
  rw [getRandInt] at h
  split_ifs at h with hlt
  obtain rfl := Option.some.inj h
  have hpos : 0 < rangeMax - rangeMin + 1 := by omega
  rw [Int.tmod_eq_emod_of_nonneg (Int.natCast_nonneg rand)]
  have hnonneg := Int.emod_nonneg (rand : ℤ) hpos.ne'
  have hlt := Int.emod_lt_of_pos (rand : ℤ) hpos
  omega

/-- `st_id = get_rand_int(0, STORE_NUM - 1)`, as an index of `st_val`. -/
def storeId (n rand : ℕ) : Option (Fin n) :=
  (getRandInt 0 (n - 1) rand).bind fun k ↦ if h : k.toNat < n then some ⟨k.toNat, h⟩ else none

theorem storeId_isSome {n : ℕ} (hn : 0 < n) (rand : ℕ) : (storeId n rand).isSome := by
  have hle : ¬(0 : ℤ) > n - 1 := by omega
  rw [storeId]
  cases hk : getRandInt 0 (n - 1) rand with
  | none =>
    rw [getRandInt, if_neg hle] at hk
    cases hk
  | some k =>
    have hmem := getRandInt_mem hk
    have hlt : k.toNat < n := by omega
    rw [Option.bind_some, dif_pos hlt]
    rfl

/-- `stf_num = (limit - stf_num >= 0) ? stf_num : limit`. -/
def clampTo (limit stfNum : ℤ) : ℤ := if limit - stfNum ≥ 0 then stfNum else limit

theorem clampTo_le_limit (limit stfNum : ℤ) : clampTo limit stfNum ≤ limit := by
  rw [clampTo]
  split_ifs <;> omega

theorem clampTo_le (limit stfNum : ℤ) : clampTo limit stfNum ≤ stfNum := by
  rw [clampTo]
  split_ifs <;> omega

theorem clampTo_nonneg {limit stfNum : ℤ} (hl : 0 ≤ limit) (hs : 0 ≤ stfNum) :
    0 ≤ clampTo limit stfNum := by
  rw [clampTo]
  split_ifs <;> assumption

/-! ## Threads -/

/-- Where a `cst_func` is, by the statement that comes next. -/
inductive CstFunc (n : ℕ)
  | test
  | lock (stId : Fin n) (stfNum : ℤ)
  | clamp (stId : Fin n) (stfNum : ℤ)
  | takeStock (stId : Fin n) (stfNum : ℤ)
  | takeDemand (stId : Fin n) (stfNum : ℤ)
  | unlock (stId : Fin n)
  | exited
  deriving DecidableEq

/-- Where an `ldr_func` is. -/
inductive LdrFunc (n : ℕ)
  | draw
  | lock (stId : Fin n) (stfNum : ℤ)
  | load (stId : Fin n) (stfNum : ℤ)
  | unlock (stId : Fin n)
  deriving DecidableEq

/-- `n` stores, the customers `κ` and the loaders `ι`. What was loaded so far is kept beside what
the program stores. -/
structure State (n : ℕ) (κ ι : Type) where
  stVal : Fin n → ℤ
  cstVal : κ → ℤ
  stMtx : Fin n → Option (κ ⊕ ι)
  customers : κ → CstFunc n
  loaders : ι → LdrFunc n
  loaded : ℤ

/-- A thread moves; the two values are what `rand()` returns in case it draws. -/
inductive Event (κ ι : Type)
  | cst (cid : κ) (rand rand' : ℕ)
  | ldr (lid : ι) (rand rand' : ℕ)

variable {n : ℕ} {κ ι : Type}

/-- The state in which `main` starts the threads. -/
def State.initial (stVal : Fin n → ℤ) (cstVal : κ → ℤ) : State n κ ι :=
  ⟨stVal, cstVal, fun _ ↦ none, fun _ ↦ .test, fun _ ↦ .draw, 0⟩

variable [DecidableEq κ] [DecidableEq ι]

/-- The next statement of `cst_func`. The loop test, the draws and the first clamp read nothing that
another thread writes, so they are one step. -/
def cstFunc (s : State n κ ι) (cid : κ) (rand rand' : ℕ) : Option (State n κ ι) :=
  match s.customers cid with
  | .test =>
    if 0 < s.cstVal cid then
      (storeId n rand).bind fun stId ↦ (getRandInt 0 512 rand').map fun stfNum ↦
        { s with
          customers :=
            Function.update s.customers cid (.lock stId (clampTo (s.cstVal cid) stfNum)) }
    else some { s with customers := Function.update s.customers cid .exited }
  | .lock stId stfNum =>
    if s.stMtx stId = none then
      some { s with
        stMtx := Function.update s.stMtx stId (some (.inl cid))
        customers := Function.update s.customers cid (.clamp stId stfNum) }
    else none
  | .clamp stId stfNum =>
    some { s with
      customers :=
        Function.update s.customers cid (.takeStock stId (clampTo (s.stVal stId) stfNum)) }
  | .takeStock stId stfNum =>
    some { s with
      stVal := Function.update s.stVal stId (s.stVal stId - stfNum)
      customers := Function.update s.customers cid (.takeDemand stId stfNum) }
  | .takeDemand stId stfNum =>
    some { s with
      cstVal := Function.update s.cstVal cid (s.cstVal cid - stfNum)
      customers := Function.update s.customers cid (.unlock stId) }
  | .unlock stId =>
    some { s with
      stMtx := Function.update s.stMtx stId none
      customers := Function.update s.customers cid .test }
  | .exited => none

/-- The next statement of `ldr_func`. -/
def ldrFunc (s : State n κ ι) (lid : ι) (rand rand' : ℕ) : Option (State n κ ι) :=
  match s.loaders lid with
  | .draw =>
    (storeId n rand).bind fun stId ↦ (getRandInt 0 512 rand').map fun stfNum ↦
      { s with loaders := Function.update s.loaders lid (.lock stId stfNum) }
  | .lock stId stfNum =>
    if s.stMtx stId = none then
      some { s with
        stMtx := Function.update s.stMtx stId (some (.inr lid))
        loaders := Function.update s.loaders lid (.load stId stfNum) }
    else none
  | .load stId stfNum =>
    some { s with
      stVal := Function.update s.stVal stId (s.stVal stId + stfNum)
      loaders := Function.update s.loaders lid (.unlock stId)
      loaded := s.loaded + stfNum }
  | .unlock stId =>
    some { s with
      stMtx := Function.update s.stMtx stId none
      loaders := Function.update s.loaders lid .draw }

/-- One statement of any thread. -/
def exec (s : State n κ ι) : Event κ ι → Option (State n κ ι)
  | .cst cid rand rand' => cstFunc s cid rand rand'
  | .ldr lid rand rand' => ldrFunc s lid rand rand'

/-- One step. -/
def Step (s : State n κ ι) (e : Event κ ι) (t : State n κ ι) : Prop := exec s e = some t

/-! ## What a step can do -/

/-- The steps of the threads, one by one. -/
inductive Move (s : State n κ ι) : State n κ ι → Prop
  | draw {cid : κ} {stId : Fin n} {stfNum : ℤ} : s.customers cid = .test → 0 < s.cstVal cid →
      0 ≤ stfNum → Move s { s with
        customers := Function.update s.customers cid (.lock stId (clampTo (s.cstVal cid) stfNum)) }
  | exit {cid : κ} : s.customers cid = .test → ¬0 < s.cstVal cid →
      Move s { s with customers := Function.update s.customers cid .exited }
  | lock {cid : κ} {stId : Fin n} {stfNum : ℤ} : s.customers cid = .lock stId stfNum →
      s.stMtx stId = none → Move s { s with
        stMtx := Function.update s.stMtx stId (some (.inl cid))
        customers := Function.update s.customers cid (.clamp stId stfNum) }
  | clamp {cid : κ} {stId : Fin n} {stfNum : ℤ} : s.customers cid = .clamp stId stfNum →
      Move s { s with
        customers :=
          Function.update s.customers cid (.takeStock stId (clampTo (s.stVal stId) stfNum)) }
  | takeStock {cid : κ} {stId : Fin n} {stfNum : ℤ} : s.customers cid = .takeStock stId stfNum →
      Move s { s with
        stVal := Function.update s.stVal stId (s.stVal stId - stfNum)
        customers := Function.update s.customers cid (.takeDemand stId stfNum) }
  | takeDemand {cid : κ} {stId : Fin n} {stfNum : ℤ} : s.customers cid = .takeDemand stId stfNum →
      Move s { s with
        cstVal := Function.update s.cstVal cid (s.cstVal cid - stfNum)
        customers := Function.update s.customers cid (.unlock stId) }
  | unlock {cid : κ} {stId : Fin n} : s.customers cid = .unlock stId → Move s { s with
        stMtx := Function.update s.stMtx stId none
        customers := Function.update s.customers cid .test }
  | ldrDraw {lid : ι} {stId : Fin n} {stfNum : ℤ} : s.loaders lid = .draw → 0 ≤ stfNum →
      Move s { s with loaders := Function.update s.loaders lid (.lock stId stfNum) }
  | ldrLock {lid : ι} {stId : Fin n} {stfNum : ℤ} : s.loaders lid = .lock stId stfNum →
      s.stMtx stId = none → Move s { s with
        stMtx := Function.update s.stMtx stId (some (.inr lid))
        loaders := Function.update s.loaders lid (.load stId stfNum) }
  | load {lid : ι} {stId : Fin n} {stfNum : ℤ} : s.loaders lid = .load stId stfNum →
      Move s { s with
        stVal := Function.update s.stVal stId (s.stVal stId + stfNum)
        loaders := Function.update s.loaders lid (.unlock stId)
        loaded := s.loaded + stfNum }
  | ldrUnlock {lid : ι} {stId : Fin n} : s.loaders lid = .unlock stId → Move s { s with
        stMtx := Function.update s.stMtx stId none
        loaders := Function.update s.loaders lid .draw }

theorem move_of_cstFunc {s t : State n κ ι} {cid : κ} {rand rand' : ℕ}
    (h : cstFunc s cid rand rand' = some t) : Move s t := by
  simp only [cstFunc] at h
  split at h
  · split_ifs at h with hpos
    · obtain ⟨stId, -, hmap⟩ := Option.bind_eq_some_iff.mp h
      obtain ⟨stfNum, hrand, rfl⟩ := Option.map_eq_some_iff.mp hmap
      exact .draw ‹_› hpos (getRandInt_mem hrand).1
    · cases h
      exact .exit ‹_› hpos
  · split_ifs at h with hfree
    cases h
    exact .lock ‹_› hfree
  · cases h
    exact .clamp ‹_›
  · cases h
    exact .takeStock ‹_›
  · cases h
    exact .takeDemand ‹_›
  · cases h
    exact .unlock ‹_›
  · cases h

theorem move_of_ldrFunc {s t : State n κ ι} {lid : ι} {rand rand' : ℕ}
    (h : ldrFunc s lid rand rand' = some t) : Move s t := by
  simp only [ldrFunc] at h
  split at h
  · obtain ⟨stId, -, hmap⟩ := Option.bind_eq_some_iff.mp h
    obtain ⟨stfNum, hrand, rfl⟩ := Option.map_eq_some_iff.mp hmap
    exact .ldrDraw ‹_› (getRandInt_mem hrand).1
  · split_ifs at h with hfree
    cases h
    exact .ldrLock ‹_› hfree
  · cases h
    exact .load ‹_›
  · cases h
    exact .ldrUnlock ‹_›

theorem Step.move {s t : State n κ ι} {e : Event κ ι} (h : Step s e t) : Move s t := by
  cases e with
  | cst cid rand rand' => exact move_of_cstFunc h
  | ldr lid rand rand' => exact move_of_ldrFunc h

end MutexStore

end AllProjects
