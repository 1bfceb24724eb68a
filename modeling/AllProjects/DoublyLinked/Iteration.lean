import AllProjects.DoublyLinked.Accounts

/-!
# Iterating over a list that changes

The client may push, pop and remove while an iterator is on its way, as long as the node that the
iterator is going to return next is not taken out. Then the iterator returns every node that stays
in the list once and in order, whatever happens to the others.
-/

namespace AllProjects.DoublyLinked

variable {V : Type} {s : State V} {d d' : Deque V} {e : Command V × Option ℕ} {i : ℕ}
  {it : Iterator} {stay : ℕ → Bool}

/-- What a command returns from the iterator `i`. -/
def returned (i : ℕ) : Command V × Option ℕ → Option ℕ
  | (.iteratorNext (some j), r) => if j = i then r else none
  | _ => none

/-- The nodes that stay are not taken out, nor is the one the iterator `i` is about to return, and
the iterator itself is kept. -/
structure Spares (i : ℕ) (stay : ℕ → Bool) (d : Deque V) (e : Command V × Option ℕ) : Prop where
  stay : ∀ a, takenOut e = some a → stay a = false
  pending : ∀ a it, takenOut e = some a → d.iterators.lookup i = some it → it.next ≠ some a
  iterator : e.1 ≠ .iteratorDestroy (some i)

/-- The nodes that stay among those the iterator is still to return. -/
def ahead (stay : ℕ → Bool) (d : Deque V) (it : Iterator) : List ℕ :=
  ((d.rest it).map Prod.fst).filter stay

theorem Spares.of_stays {d : Deque V} (hout : takenOut e = none)
    (hiter : e.1 ≠ .iteratorDestroy (some i)) : Spares i stay d e where
  stay := fun a ha ↦ by rw [hout] at ha; cases ha
  pending := fun a it ha _ ↦ by rw [hout] at ha; cases ha
  iterator := hiter

/-! ## One node more or less -/

theorem dropWhile_ne {x : ℕ × V} {a : ℕ} (hxa : x.1 ≠ a) (l : List (ℕ × V)) :
    (x :: l).dropWhile (fun y ↦ decide (y.1 ≠ a)) = l.dropWhile fun y ↦ decide (y.1 ≠ a) :=
  List.dropWhile_cons_of_pos (decide_eq_true hxa)

/-- A node that does not stay and is not the next one makes no difference. -/
theorem filter_dropWhile_middle {x : ℕ × V} {a : ℕ} (hx : stay x.1 = false) (hxa : x.1 ≠ a)
    (l₁ l₂ : List (ℕ × V)) :
    (((l₁ ++ x :: l₂).dropWhile fun y ↦ decide (y.1 ≠ a)).map Prod.fst).filter stay
      = (((l₁ ++ l₂).dropWhile fun y ↦ decide (y.1 ≠ a)).map Prod.fst).filter stay := by
  induction l₁ with
  | nil => rw [List.nil_append, dropWhile_ne hxa, List.nil_append]
  | cons y l₁ ih =>
    rw [List.cons_append, List.cons_append]
    by_cases hya : y.1 = a
    · obtain rfl := hya
      have hstop : ∀ l : List (ℕ × V), (y :: l).dropWhile (fun z ↦ decide (z.1 ≠ y.1)) = y :: l :=
        fun l ↦ @dropWhile_addr V [] l y List.not_mem_nil
      have hout : ¬ stay x.1 = true := by rw [hx]; exact Bool.false_ne_true
      rw [hstop, hstop, List.map_cons, List.map_cons, List.map_append, List.map_append,
        List.map_cons, List.filter_cons, List.filter_cons, List.filter_append, List.filter_append,
        List.filter_cons_of_neg hout]
    · rw [dropWhile_ne hya, dropWhile_ne hya, ih]

theorem ahead_middle {x : ℕ × V} {l₁ l₂ : List (ℕ × V)} (hd : d.list = l₁ ++ l₂)
    (hd' : d'.list = l₁ ++ x :: l₂) (hx : stay x.1 = false) (hnext : it.next ≠ some x.1) :
    ahead stay d' it = ahead stay d it := by
  obtain ⟨next, dir⟩ := it
  cases next with
  | none => rfl
  | some a =>
    have hxa : x.1 ≠ a := fun heq ↦ hnext (congrArg some heq.symm)
    rw [ahead, ahead, Deque.rest, Deque.rest]
    cases dir with
    | head =>
      rw [Deque.oriented, Deque.oriented, hd, hd']
      exact filter_dropWhile_middle hx hxa l₁ l₂
    | tail =>
      rw [Deque.oriented, Deque.oriented, hd, hd', List.reverse_append, List.reverse_append,
        List.reverse_cons, List.append_assoc, List.singleton_append]
      exact filter_dropWhile_middle hx hxa l₂.reverse l₁.reverse

theorem rest_congr (hl : d'.list = d.list) (it : Iterator) : d'.rest it = d.rest it := by
  have horiented : d'.oriented it.direction = d.oriented it.direction := by
    cases it.direction with
    | head => exact hl
    | tail => exact congrArg List.reverse hl
  rw [Deque.rest, Deque.rest, horiented]

/-- Stepping the iterator takes one node off what is ahead. -/
theorem Represents.advance_ahead (hr : Represents s d) {r : Option ℕ}
    (hadv : d.advance i it = some (r, d')) (hi : d.iterators.lookup i = some it)
    (hnext : ∀ a, it.next = some a → a ∈ d.addresses) :
    ∃ it', d'.iterators.lookup i = some it' ∧ d'.list = d.list
      ∧ (∀ a, it'.next = some a → a ∈ d.addresses)
      ∧ r.toList.filter stay ++ ahead stay d' it' = ahead stay d it := by
  obtain ⟨rfl, ⟨hnone, rfl⟩ | rfl⟩ := Deque.advance_eq_some hadv
  · refine ⟨it, hi, rfl, hnext, ?_⟩
    rw [hnone, Option.toList_none, List.filter_nil, List.nil_append]
  obtain ⟨next, dir⟩ := it
  refine ⟨_, Finmap.lookup_insert _, rfl, ?_⟩
  cases next with
  | none =>
    refine ⟨?_, rfl⟩
    intro a ha
    cases ha
  | some a =>
    obtain ⟨x, hx, rfl⟩ := List.mem_map.mp ((d.mem_oriented_addr dir).mpr (hnext a rfl))
    obtain ⟨l₁, l₂, ho⟩ := List.append_of_mem hx
    rw [hr.rest_eq ho, List.tail_cons]
    constructor
    · intro b hb
      obtain ⟨v, hv⟩ := firstPtr_eq_some hb
      rw [← d.mem_oriented_addr dir, ho, List.map_append, List.mem_append]
      exact .inr (List.mem_cons_of_mem _ (List.mem_map.mpr ⟨(b, v), hv, rfl⟩))
    · have hrest : d.rest ⟨firstPtr l₂ none, dir⟩ = l₂ := by
        cases l₂ with
        | nil => rfl
        | cons y l₂ =>
          have ho' : d.oriented dir = (l₁ ++ [x]) ++ y :: l₂ := by
            rw [ho, List.append_assoc, List.singleton_append]
          exact hr.rest_eq ho'
      have hahead := congrArg (fun l ↦ (l.map Prod.fst).filter stay) hrest
      have hbefore : ahead stay d ⟨some x.1, dir⟩ = ((x :: l₂).map Prod.fst).filter stay :=
        congrArg (fun l ↦ (l.map Prod.fst).filter stay) (hr.rest_eq ho)
      rw [hbefore, List.map_cons, ← List.singleton_append, List.filter_append]
      exact congrArg ([x.1].filter stay ++ ·) hahead

/-! ## One command -/

variable [DecidableEq V]

theorem Deque.Step.iterator (h : d.Step e d') (hi : d.iterators.lookup i = some it)
    (hkeep : e.1 ≠ .iteratorDestroy (some i)) :
    d'.iterators.lookup i = some it ∧ returned i e = none
    ∨ e.1 = .iteratorNext (some i) ∧ d.advance i it = some (e.2, d') := by
  obtain ⟨c, r⟩ := e
  have h : d.step c = some (r, d') := h
  have hmem : i ∈ d.iterators := Finmap.mem_of_lookup_eq_some hi
  have ofIter : ∀ {it₁ : Iterator} {malloc : Option ℕ}, returned i (c, r) = none →
      d.newIterator it₁ malloc = some (r, d') →
      d'.iterators.lookup i = some it ∧ returned i (c, r) = none := by
    intro it₁ malloc hret hd
    obtain rfl | ⟨j, hj, rfl⟩ := Deque.newIterator_eq_some hd
    · exact ⟨hi, hret⟩
    · have hne : i ≠ j := by
        rintro rfl
        exact hj hmem
      exact ⟨(Finmap.lookup_insert_of_ne _ hne).trans hi, hret⟩
  cases c with
  | iteratorNew malloc dir => exact .inl (ofIter rfl h)
  | iteratorNewFromNode malloc node dir => exact .inl (ofIter rfl h)
  | iteratorNext ptr =>
    cases ptr with
    | none => cases h
    | some j =>
      obtain ⟨it₁, hj, hadv⟩ := Option.bind_eq_some_iff.mp h
      rcases eq_or_ne i j with rfl | hne
      · rw [hi] at hj
        obtain rfl := Option.some.inj hj
        exact .inr ⟨rfl, hadv⟩
      · refine .inl ⟨?_, if_neg hne.symm⟩
        obtain ⟨-, ⟨-, rfl⟩ | rfl⟩ := Deque.advance_eq_some hadv
        · exact hi
        · exact (Finmap.lookup_insert_of_ne _ hne).trans hi
  | iteratorDestroy ptr =>
    cases ptr with
    | none => cases h; exact .inl ⟨hi, rfl⟩
    | some j =>
      have hne : i ≠ j := by
        rintro rfl
        exact hkeep rfl
      rw [Deque.step] at h
      split at h
      · cases h
        exact .inl ⟨(Finmap.lookup_erase_ne hne).trans hi, rfl⟩
      · cases h
  | find malloc v =>
    obtain ⟨j, -, -, -, rfl⟩ := Deque.lookAt_eq_some h
    exact .inl ⟨hi, rfl⟩
  | atIndex malloc index =>
    rw [Deque.step] at h
    split at h
    · cases h; exact .inl ⟨hi, rfl⟩
    · obtain ⟨j, -, -, -, rfl⟩ := Deque.lookAt_eq_some h
      exact .inl ⟨hi, rfl⟩
  | nodeNew malloc v =>
    cases malloc with
    | none => cases h; exact .inl ⟨hi, rfl⟩
    | some a =>
      rw [Deque.step] at h
      split at h
      · cases h
      · cases h; exact .inl ⟨hi, rfl⟩
  | rpush node =>
    cases node with
    | none => cases h; exact .inl ⟨hi, rfl⟩
    | some a =>
      obtain ⟨v, -, hres⟩ := Option.map_eq_some_iff.mp h
      cases hres
      exact .inl ⟨hi, rfl⟩
  | lpush node =>
    cases node with
    | none => cases h; exact .inl ⟨hi, rfl⟩
    | some a =>
      obtain ⟨v, -, hres⟩ := Option.map_eq_some_iff.mp h
      cases hres
      exact .inl ⟨hi, rfl⟩
  | rpop =>
    rw [Deque.step] at h
    split at h <;> cases h <;> exact .inl ⟨hi, rfl⟩
  | lpop =>
    rw [Deque.step] at h
    split at h <;> cases h <;> exact .inl ⟨hi, rfl⟩
  | remove node =>
    cases node with
    | none => cases h
    | some a =>
      obtain ⟨x, -, hres⟩ := Option.map_eq_some_iff.mp h
      cases hres
      exact .inl ⟨hi, rfl⟩
  | setFree free => cases h; exact .inl ⟨hi, rfl⟩
  | setMatch m => cases h; exact .inl ⟨hi, rfl⟩
  | freeNode node =>
    cases node with
    | none => cases h; exact .inl ⟨hi, rfl⟩
    | some a =>
      rw [Deque.step] at h
      split at h
      · cases h; exact .inl ⟨hi, rfl⟩
      · cases h

/-- **One command.** What the iterator `i` returns from it and what is ahead afterwards make up what
was ahead before. -/
theorem Represents.returned_append_ahead (hr : Represents s d) (h : d.Step e d')
    (hspare : Spares i stay d e) (hi : d.iterators.lookup i = some it)
    (hnext : ∀ a, it.next = some a → a ∈ d.addresses)
    (hstay : ∀ a, stay a = true → a ∈ d.addresses) :
    ∃ it', d'.iterators.lookup i = some it'
      ∧ (∀ a, it'.next = some a → a ∈ d'.addresses)
      ∧ (∀ a, stay a = true → a ∈ d'.addresses)
      ∧ (returned i e).toList.filter stay ++ ahead stay d' it' = ahead stay d it := by
  obtain ⟨hi', hret⟩ | ⟨hcmd, hadv⟩ := h.iterator hi hspare.iterator
  · rw [hret, Option.toList_none, List.filter_nil]
    simp only [List.nil_append]
    -- a node is taken out that neither stays nor is the next one
    have hcut : ∀ l₁ x l₂, d.list = l₁ ++ x :: l₂ → takenOut e = some x.1 →
        d'.list = l₁ ++ l₂ → ∃ it', d'.iterators.lookup i = some it'
          ∧ (∀ a, it'.next = some a → a ∈ d'.addresses)
          ∧ (∀ a, stay a = true → a ∈ d'.addresses)
          ∧ ahead stay d' it' = ahead stay d it := by
      intro l₁ x l₂ hl hout hl'
      have hx := hspare.stay x.1 hout
      have hpend := hspare.pending x.1 it hout hi
      have hkeep : ∀ a ∈ d.addresses, a ≠ x.1 → a ∈ d'.addresses := by
        intro a ha hne
        rw [Deque.addresses, hl, List.map_append, List.mem_append, List.map_cons,
          List.mem_cons] at ha
        rw [Deque.addresses, hl', List.map_append, List.mem_append]
        exact ha.imp_right fun h ↦ h.resolve_left hne
      refine ⟨it, hi', ?_, ?_, (ahead_middle hl' hl hx hpend).symm⟩
      · intro a ha
        apply hkeep a (hnext a ha)
        rintro rfl
        exact hpend ha
      · intro a ha
        apply hkeep a (hstay a ha)
        rintro rfl
        rw [hx] at ha
        cases ha
    cases h.effect with
    | still hlist _ _ _ _ _ =>
      refine ⟨it, hi', ?_, ?_, ?_⟩
      · rw [Deque.addresses, hlist]
        exact hnext
      · rw [Deque.addresses, hlist]
        exact hstay
      · rw [ahead, ahead, rest_congr hlist]
    | make a v _ _ hd =>
      subst hd
      exact ⟨it, hi', hnext, hstay, rfl⟩
    | release a _ _ hd =>
      subst hd
      exact ⟨it, hi', hnext, hstay, rfl⟩
    | push l₁ x l₂ hl hx _ _ hd =>
      have hfresh : x.1 ∉ d.addresses := hr.not_mem_addresses hx
      have hl' : d'.list = l₁ ++ x :: l₂ := by rw [hd]
      have hkeep : ∀ a ∈ d.addresses, a ∈ d'.addresses := by
        intro a ha
        rw [Deque.addresses, hl, List.map_append, List.mem_append] at ha
        rw [Deque.addresses, hl', List.map_append, List.mem_append, List.map_cons]
        exact ha.imp_right (List.mem_cons_of_mem _)
      have hx' : stay x.1 = false := by
        rw [← Bool.not_eq_true]
        exact fun h ↦ hfresh (hstay x.1 h)
      exact ⟨it, hi', fun a ha ↦ hkeep a (hnext a ha), fun a ha ↦ hkeep a (hstay a ha),
        ahead_middle hl hl' hx' fun h ↦ hfresh (hnext x.1 h)⟩
    | pop l₁ x l₂ hl _ hout hd => exact hcut l₁ x l₂ hl hout (by rw [hd])
    | remove l₁ x l₂ hl _ hout hd => exact hcut l₁ x l₂ hl hout (by rw [hd])
  · obtain ⟨c, r⟩ := e
    obtain rfl : c = .iteratorNext (some i) := hcmd
    obtain ⟨it', hi', hlist, hnext', happ⟩ := hr.advance_ahead hadv hi hnext
    refine ⟨it', hi', ?_, ?_, ?_⟩
    · rw [Deque.addresses, hlist]
      exact hnext'
    · rw [Deque.addresses, hlist]
      exact hstay
    · rw [returned, if_pos rfl, happ]

theorem Represents.run_returned_append_ahead (hr : Represents s d)
    {es : List (Command V × Option ℕ)}
    (hrun : Run (fun d e d' ↦ d.Step e d' ∧ Spares i stay d e) d es d')
    (hi : d.iterators.lookup i = some it) (hnext : ∀ a, it.next = some a → a ∈ d.addresses)
    (hstay : ∀ a, stay a = true → a ∈ d.addresses) :
    ∃ t it', Run State.Step s es t ∧ t.iterators.lookup i = some it'
      ∧ (es.filterMap (returned i)).filter stay ++ ahead stay d' it' = ahead stay d it := by
  induction hrun generalizing s it with
  | nil d => exact ⟨s, it, Run.nil s, by rw [hr.iterators, hi], rfl⟩
  | @cons d d₁ d' e es hstep _ ih =>
    obtain ⟨it₁, hi₁, hnext₁, hstay₁, happ⟩ :=
      hr.returned_append_ahead hstep.1 hstep.2 hi hnext hstay
    obtain ⟨t₁, hst, hr₁⟩ := hr.exec hstep.1
    obtain ⟨t, it', hrest, hi', happ'⟩ := ih hr₁ hi₁ hnext₁ hstay₁
    refine ⟨t, it', Run.cons hst hrest, hi', ?_⟩
    rw [← happ, ← happ', ← List.append_assoc, ← List.filter_append, List.filterMap_cons]
    cases returned i e <;> rfl

/-- **Iterating over a list that changes.** From any list that was built, an iterator is made and
used, in either direction, while the client goes on pushing, popping and removing. The nodes that
stay are returned in the order of the list, each once: what was returned of them and what is still
to be returned make up all of them. -/
theorem iterator_returns_all_that_stay {es₀ : List (Command V × Option ℕ)}
    (es : List (Command V × Option ℕ)) (dir : Direction)
    (hrun₀ : Run Deque.Step Deque.empty es₀ d) (hi : i ∉ d.iterators)
    (hstay : ∀ a, stay a = true → a ∈ d.addresses)
    (hrun : Run (fun d e d' ↦ d.Step e d' ∧ Spares i stay d e)
      { d with iterators := d.iterators.insert i ⟨firstPtr (d.oriented dir) none, dir⟩ } es d') :
    ∃ t it, Run State.Step listNew (es₀ ++ (.iteratorNew (some i) dir, some i) :: es) t
      ∧ t.iterators.lookup i = some it
      ∧ (es.filterMap (returned i)).filter stay ++ ahead stay d' it
        = ((d.oriented dir).map Prod.fst).filter stay := by
  obtain ⟨s₀, hs₀, hr₀⟩ := represents_empty.run hrun₀
  have hnew : d.Step (.iteratorNew (some i) dir, some i)
      { d with iterators := d.iterators.insert i ⟨firstPtr (d.oriented dir) none, dir⟩ } :=
    if_neg hi
  obtain ⟨s₁, hs₁, hr₁⟩ := hr₀.exec hnew
  have hfirst : ∀ a, firstPtr (d.oriented dir) none = some a → a ∈ d.addresses := by
    intro a ha
    obtain ⟨v, hv⟩ := firstPtr_eq_some ha
    exact (d.mem_oriented_addr dir).mp (List.mem_map.mpr ⟨(a, v), hv, rfl⟩)
  obtain ⟨t, it, ht, hit, happ⟩ :=
    hr₁.run_returned_append_ahead hrun (Finmap.lookup_insert _) hfirst hstay
  refine ⟨t, it, hs₀.append (Run.cons hs₁ ht), hit, ?_⟩
  rw [happ]
  cases ho : d.oriented dir with
  | nil => rfl
  | cons x l =>
    have hnil : d.oriented dir = [] ++ x :: l := ho
    exact congrArg (fun l ↦ (l.map Prod.fst).filter stay) (hr₀.rest_eq hnil)

/-- Three nodes. -/
def pushThree : List (Command ℕ × Option ℕ) :=
  [(.nodeNew (some 1) 10, some 1), (.rpush (some 1), some 1), (.nodeNew (some 2) 20, some 2),
    (.rpush (some 2), some 2), (.nodeNew (some 3) 30, some 3), (.rpush (some 3), some 3)]

/-- An iterator returns them, and the client removes the second one on the way. -/
def iterateRemove : List (Command ℕ × Option ℕ) :=
  [(.iteratorNext (some 7), some 1), (.iteratorNext (some 7), some 2), (.remove (some 2), none),
    (.iteratorNext (some 7), some 3), (.iteratorNext (some 7), none)]

theorem iterator_returns_all_that_stay_three : ∃ (d : Deque ℕ) (t : State ℕ) (it : Iterator),
    Run State.Step listNew (pushThree ++ (.iteratorNew (some 7) .head, some 7) :: iterateRemove) t
    ∧ t.iterators.lookup 7 = some it
    ∧ (iterateRemove.filterMap (returned 7)).filter (fun a ↦ decide (a ∈ [1, 3]))
      ++ ahead (fun a ↦ decide (a ∈ [1, 3])) d it = [1, 3] := by
  have hrun₀ : Run Deque.Step Deque.empty pushThree _ := .cons rfl <| .cons rfl <| .cons rfl <|
    .cons rfl <| .cons rfl <| .cons rfl <| .nil _
  have hnext : ∀ (d : Deque ℕ) r, Spares 7 (fun a ↦ decide (a ∈ [1, 3])) d
      (.iteratorNext (some 7), r) := fun d r ↦ .of_stays rfl (by intro h; cases h)
  have hin : ∀ a ∈ [1, 3], a ∈ [1, 2, 3] := by decide
  have hremove : ∀ d : Deque ℕ, d.iterators.lookup 7 = some ⟨some 3, .head⟩ →
      Spares 7 (fun a ↦ decide (a ∈ [1, 3])) d (.remove (some 2), none) := by
    intro d hd
    refine ⟨?_, ?_, by intro h; cases h⟩
    · intro a ha
      obtain rfl := Option.some.inj ha
      decide
    · intro a it ha hit
      obtain rfl := Option.some.inj ha
      rw [hd] at hit
      obtain rfl := Option.some.inj hit
      decide
  obtain ⟨t, it, hall⟩ := iterator_returns_all_that_stay (i := 7) iterateRemove .head hrun₀
    (by decide) (fun a ha ↦ hin a (of_decide_eq_true ha)) (.cons ⟨rfl, hnext _ _⟩ <|
      .cons ⟨rfl, hnext _ _⟩ <| .cons ⟨rfl, hremove _ rfl⟩ <| .cons ⟨rfl, hnext _ _⟩ <|
      .cons ⟨rfl, hnext _ _⟩ <| .nil _)
  exact ⟨_, t, it, hall⟩

end AllProjects.DoublyLinked
