import AllProjects.DnsProxy.Cache

/-!
# Allocated records and records in the tree

Nothing frees a record, so a record that is not in the tree is lost. `dns_reply_hook` allocates only
after the search has failed, and puts the record into the tree. `dns_request_hook` allocates before
the search, for every query, and does nothing with what it gets.

The reply hook has a leak of its own, though a narrower one. It searches for the whole name of the
reply and inserts a record with the first 256 bytes of it. When the name is longer, the search can
fail and the insertion still meet an equal record.
-/

namespace AllProjects

namespace DnsProxy

open SkBuff

/-- How many records are in the tree. -/
def State.nodes (st : State) : ℕ := st.drTree.inorder.length

/-- How many records are lost. -/
def State.lost (st : State) : ℤ := st.allocated - st.nodes

/-- The packet does not make the hook lose a record: it is not a query, or the record that is made
of it is not in the tree under the name that the record holds. Nothing is lost either when nothing
is allocated. -/
def KeepsRecords (st : State) : Event → Prop
  | .outgoing kmalloc _ skb => kmalloc = true → skb.queryName = none
  | .incoming kmalloc skb => kmalloc = true → ∀ n, skb.replyName = some n →
      searchDr st.drTree (skb.bytesFrom skb.nameOffset) = .ok none →
        ∀ r ∈ st.drTree.inorder, r.key ≠ (skb.carried n).key

variable {k : Kernel} {kmalloc : Bool} {copy : Option (Tailroom 16)} {st : State} {skb : SkBuff}

theorem state_of_dnsRequestHook {n : List UInt8} (h : skb.queryName = some n)
    {result : ℕ × State × Option SkBuff}
    (hok : dnsRequestHook k kmalloc copy st skb = .ok result) :
    result.2.1 = if kmalloc = true then st.alloc else st := by
  rw [dnsRequestHook_of_queryName h] at hok
  cases kmalloc with
  | false =>
    rw [if_pos rfl] at hok
    rw [← Except.ok.inj hok]
    rfl
  | true =>
    rw [if_neg Bool.noConfusion] at hok
    obtain ⟨found, -, hok⟩ := Except.bind_eq_ok_iff.mp hok
    cases found with
    | none =>
      rw [← Except.ok.inj hok]
      rfl
    | some r =>
      obtain ⟨reply, -, hok⟩ := Except.bind_eq_ok_iff.mp hok
      rw [← Except.ok.inj hok]
      rfl

theorem lost_alloc (st : State) : st.alloc.lost = st.lost + 1 := by
  change ((st.allocated + 1 : ℕ) : ℤ) - st.nodes = st.allocated - st.nodes + 1
  rw [Nat.cast_add, Nat.cast_one]
  ring

theorem lost_of_outgoing (hordered : Ordered st.drTree) {st' : State}
    (h : exec k st (.outgoing kmalloc copy skb) = .ok st') :
    Ordered st'.drTree ∧ st.lost ≤ st'.lost ∧
      (st'.lost = st.lost ↔ KeepsRecords st (.outgoing kmalloc copy skb)) := by
  obtain ⟨result, hresult, rfl⟩ := Except.map_eq_ok_iff.mp h
  refine ⟨by rw [dnsRequestHook_drTree hresult]; exact hordered, ?_⟩
  cases hname : skb.queryName with
  | none =>
    rw [dnsRequestHook_of_queryName_eq_none hname hresult]
    exact ⟨le_rfl, iff_of_true rfl fun _ ↦ hname⟩
  | some n =>
    rw [state_of_dnsRequestHook hname hresult]
    cases kmalloc with
    | false =>
      rw [if_neg Bool.noConfusion]
      exact ⟨le_rfl, iff_of_true rfl fun hk ↦ absurd hk Bool.noConfusion⟩
    | true =>
      rw [if_pos rfl, lost_alloc]
      refine ⟨by omega, iff_of_false (by omega) ?_⟩
      intro hkeeps
      rw [hkeeps rfl] at hname
      cases hname

/-- An insertion after an allocation: the record is in the tree, or it is lost. -/
theorem lost_of_insertDr (hordered : Ordered st.drTree) {data : DnsRecord} {m : List UInt8}
    (hm : data.Named m) {result : ℕ × RbTree DnsRecord}
    (h : insertDr k st.drTree data = .ok result) :
    Ordered result.2 ∧ st.lost ≤ { st.alloc with drTree := result.2 }.lost ∧
      ({ st.alloc with drTree := result.2 }.lost = st.lost ↔
        ∀ r ∈ st.drTree.inorder, r.key ≠ data.key) := by
  have hkey : ∀ r ∈ st.drTree.inorder, r.key = data.key ↔ r.Named m := fun r hr ↦ by
    rw [DnsRecord.key_of_named hm, hordered.key_eq_iff hr]
  by_cases hnew : ∀ r ∈ st.drTree.inorder, ¬r.Named m
  · obtain ⟨root', pre, post, hins, hordered', hsplit, hinorder, -⟩ :=
      hordered.insertDr_of_not_mem k hm hnew
    obtain rfl := Except.ok.inj (hins.symm.trans h)
    have hlost : ({ st.alloc with drTree := root' } : State).lost = st.lost := by
      change ((st.allocated + 1 : ℕ) : ℤ) - root'.inorder.length
        = st.allocated - st.drTree.inorder.length
      rw [hinorder, hsplit, List.length_append, List.length_cons, List.length_append]
      push_cast
      ring
    exact ⟨hordered', hlost.ge, iff_of_true hlost fun r hr ↦ mt (hkey r hr).mp (hnew r hr)⟩
  · simp only [not_forall, not_not] at hnew
    obtain ⟨r, hr, hn⟩ := hnew
    obtain rfl := Except.ok.inj ((hordered.insertDr_of_mem k hm hr hn).symm.trans h)
    change Ordered st.drTree ∧ st.lost ≤ st.alloc.lost ∧ (st.alloc.lost = st.lost ↔ _)
    rw [lost_alloc]
    refine ⟨hordered, by omega, iff_of_false (by omega) fun hnone ↦ ?_⟩
    exact hnone r hr ((hkey r hr).mpr hn)

theorem lost_of_incoming (hordered : Ordered st.drTree) {st' : State}
    (h : exec k st (.incoming kmalloc skb) = .ok st') :
    Ordered st'.drTree ∧ st.lost ≤ st'.lost ∧
      (st'.lost = st.lost ↔ KeepsRecords st (.incoming kmalloc skb)) := by
  obtain ⟨result, hresult, rfl⟩ := Except.map_eq_ok_iff.mp h
  cases hname : skb.replyName with
  | none =>
    rw [dnsReplyHook_of_replyName_eq_none hname hresult]
    refine ⟨hordered, le_rfl, iff_of_true rfl ?_⟩
    intro _ n hn
    rw [hname] at hn
    cases hn
  | some n =>
    rw [dnsReplyHook_of_replyName hname (answer_le_of_dnsReplyHook hname hresult)] at hresult
    obtain ⟨found, hfound, hresult⟩ := Except.bind_eq_ok_iff.mp hresult
    cases found with
    | some r =>
      rw [← Except.ok.inj hresult]
      refine ⟨hordered, le_rfl, iff_of_true rfl ?_⟩
      intro _ n _ hnone
      rw [hfound] at hnone
      cases hnone
    | none =>
      cases kmalloc with
      | false =>
        rw [← Except.ok.inj hresult]
        exact ⟨hordered, le_rfl, iff_of_true rfl fun hk ↦ absurd hk Bool.noConfusion⟩
      | true =>
        -- the record is printed before it is inserted, so it holds a string
        obtain ⟨len, hlen, hresult⟩ := Except.bind_eq_ok_iff.mp hresult
        obtain ⟨p, hp, hresult⟩ := Except.bind_eq_ok_iff.mp hresult
        obtain ⟨m, hm, -⟩ := exists_cstring_of_strlen hlen
        obtain ⟨hordered', hle, hiff⟩ := lost_of_insertDr hordered hm hp
        rw [← Except.ok.inj hresult]
        refine ⟨hordered', hle, hiff.trans ⟨?_, ?_⟩⟩
        · intro hkeys _ n' hn' _
          rw [hname, Option.some_inj] at hn'
          rw [← hn']
          exact hkeys
        · intro hkeeps
          exact hkeeps rfl n hname hfound

theorem lost_of_exec (hordered : Ordered st.drTree) {e : Event} {st' : State}
    (h : exec k st e = .ok st') :
    Ordered st'.drTree ∧ st.lost ≤ st'.lost ∧ (st'.lost = st.lost ↔ KeepsRecords st e) := by
  cases e with
  | incoming kmalloc skb => exact lost_of_incoming hordered h
  | outgoing kmalloc copy skb => exact lost_of_outgoing hordered h

/-- **No record is lost as long as no packet makes a hook lose one.** After a run from the empty
cache there are as many allocated records as nodes exactly when every packet of the run kept its
records. -/
theorem allocated_eq_nodes_iff (k : Kernel) {es : List Event} {st : State}
    (hrun : Run (fun s e t ↦ exec k s e = .ok t) State.initial es st) :
    st.allocated = st.nodes ↔
      Run (fun s e t ↦ exec k s e = .ok t ∧ KeepsRecords s e) State.initial es st := by
  have hlost : st.allocated = st.nodes ↔ st.lost = State.initial.lost := by
    change _ ↔ (st.allocated : ℤ) - st.nodes = 0
    omega
  rw [hlost]
  have hordered : ∀ s e t, Ordered s.drTree → exec k s e = .ok t → Ordered t.drTree :=
    fun s e t hs h ↦ (lost_of_exec hs h).1
  exact Run.eq_iff_sound hordered (fun s e t hs h ↦ (lost_of_exec hs h).2) hrun ordered_nil

theorem allocated_eq_nodes_iff_reply :
    ∃ st, Run (fun s e t ↦ exec Kernel.small s e = .ok t) State.initial
        [.incoming true (replyFor [1, 97])] st ∧
      (st.allocated = st.nodes ↔ Run (fun s e t ↦ exec Kernel.small s e = .ok t ∧
        KeepsRecords s e) State.initial [.incoming true (replyFor [1, 97])] st) := by
  obtain ⟨st, hexec⟩ := Except.exists_eq_ok_of_isOk (x := execAll (exec Kernel.small) State.initial
    [.incoming true (replyFor [1, 97])]) (by decide)
  exact ⟨st, run_of_execAll hexec, allocated_eq_nodes_iff Kernel.small (run_of_execAll hexec)⟩

/-- One query is enough: its record is allocated and never used. -/
theorem allocated_ne_nodes_query :
    ∃ st, Run (fun s e t ↦ exec Kernel.small s e = .ok t) State.initial
      [.outgoing true none (queryFor [1, 97])] st ∧ st.allocated = 1 ∧ st.nodes = 0 := by
  refine ⟨⟨.nil, 1⟩, Run.single ?_, rfl, rfl⟩
  rw [exec, dnsRequestHook_of_queryName (queryName_queryFor (by decide))]
  rfl

end DnsProxy

end AllProjects
