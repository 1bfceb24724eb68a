import AllProjects.DnsProxy.Cache

/-!
# The cache does not forget

No hook removes a record or changes one, and `ttl` is only passed on. So a lookup that has found a
record finds the same one after any further packets, also when allocations fail or names are too
long for their field, and a query that was answered is answered by the same packet for ever.
-/

namespace AllProjects

namespace DnsProxy

variable {k : Kernel} {st st' : State} {e : Event}

/-- A record that is found stays where it is found. -/
def Keeps (st st' : State) : Prop :=
  ∀ m r, st.drTree.inorder.find? (fun r ↦ r.Named m) = some r →
    st'.drTree.inorder.find? (fun r ↦ r.Named m) = some r

theorem keeps_of_exec (hordered : Ordered st.drTree) (h : exec k st e = .ok st') :
    Ordered st'.drTree ∧ Keeps st st' := by
  cases e with
  | outgoing kmalloc copy skb =>
    obtain ⟨result, hresult, rfl⟩ := Except.map_eq_ok_iff.mp h
    have htree := dnsRequestHook_drTree hresult
    rw [Keeps, htree]
    exact ⟨hordered, fun m r hr ↦ hr⟩
  | incoming kmalloc skb =>
    obtain ⟨result, hresult, rfl⟩ := Except.map_eq_ok_iff.mp h
    cases hname : skb.replyName with
    | none =>
      rw [dnsReplyHook_of_replyName_eq_none hname hresult]
      exact ⟨hordered, fun m r hr ↦ hr⟩
    | some n =>
      rw [dnsReplyHook_of_replyName hname (answer_le_of_dnsReplyHook hname hresult)] at hresult
      obtain ⟨found, -, hresult⟩ := Except.bind_eq_ok_iff.mp hresult
      cases found with
      | some r =>
        cases hresult
        exact ⟨hordered, fun m r hr ↦ hr⟩
      | none =>
        cases kmalloc with
        | false =>
          cases hresult
          exact ⟨hordered, fun m r hr ↦ hr⟩
        | true =>
          -- the record is printed before it is inserted, so it holds a string
          obtain ⟨len, hlen, hresult⟩ := Except.bind_eq_ok_iff.mp hresult
          obtain ⟨p, hp, hresult⟩ := Except.bind_eq_ok_iff.mp hresult
          obtain ⟨m, hm, -⟩ := exists_cstring_of_strlen hlen
          obtain ⟨root, hroot, hordered', -, hfind⟩ := hordered.exists_insertStep k hm
          have htree : root = p.2 := by
            rw [insertStep, hp] at hroot
            exact (Except.ok.inj hroot).symm
          cases hresult
          rw [← htree]
          refine ⟨hordered', fun m r hr ↦ ?_⟩
          dsimp only
          rw [hfind m, hr]
          rfl

theorem keeps_of_run {es : List Event} (hordered : Ordered st.drTree)
    (hrun : Run (fun s e t ↦ exec k s e = .ok t) st es st') :
    Ordered st'.drTree ∧ Keeps st st' := by
  refine hrun.invariant (I := fun t ↦ Ordered t.drTree ∧ Keeps st t) ?_
    ⟨hordered, fun m r hr ↦ hr⟩
  rintro s e t ⟨hordered, hkeeps⟩ hstep
  obtain ⟨hordered', hkeeps'⟩ := keeps_of_exec hordered hstep
  exact ⟨hordered', fun m r hr ↦ hkeeps' m r (hkeeps m r hr)⟩

/-- **The same answer for ever.** A query that was answered at some time is answered by the same
packet after any further packets, as long as there is memory for the record that the hook allocates
for it, and `skb_copy_expand` returns the same copy. -/
theorem same_answer_for_ever (k : Kernel) {es fs : List Event} (copy : Option (Tailroom 16))
    {query reply : SkBuff} {verdict : ℕ} {st₁ : State}
    (hrun : Run (fun s e t ↦ exec k s e = .ok t) State.initial es st)
    (hmore : Run (fun s e t ↦ exec k s e = .ok t) st fs st')
    (hreply : dnsRequestHook k true copy st query = .ok (verdict, st₁, some reply)) :
    dnsRequestHook k true copy st' query = .ok (nfDrop, st'.alloc, some reply) := by
  have hordered := (keeps_of_run ordered_nil hrun).1
  obtain ⟨hordered', hkeeps⟩ := keeps_of_run hordered hmore
  cases hname : query.queryName with
  | none => cases dnsRequestHook_of_queryName_eq_none hname hreply
  | some n =>
    have hbytes := (SkBuff.queryName_eq_some.mp hname).2
    rw [dnsRequestHook_of_queryName hname, if_neg Bool.noConfusion] at hreply ⊢
    rw [hordered.searchDr_eq hbytes, Except.ok_bind_eq] at hreply
    cases hfound : st.drTree.inorder.find? fun r ↦ r.Named n with
    | none =>
      rw [hfound] at hreply
      cases hreply
    | some r =>
      rw [hfound] at hreply
      obtain ⟨reply', hsend, hreply⟩ := Except.bind_eq_ok_iff.mp hreply
      cases hreply
      rw [hordered'.searchDr_eq hbytes, hkeeps n r hfound, Except.ok_bind_eq]
      dsimp only
      rw [hsend]
      rfl

theorem same_answer_for_ever_two : ∃ st st' reply,
    Run (fun s e t ↦ exec Kernel.small s e = .ok t) State.initial
      [.incoming true (replyFor [1, 97])] st ∧
    Run (fun s e t ↦ exec Kernel.small s e = .ok t) st
      [.incoming false (replyFor [1, 98]), .incoming true (replyFor [1, 97])] st' ∧
    dnsRequestHook Kernel.small true (some (Tailroom.exact 16)) st' (queryFor [1, 97])
      = .ok (nfDrop, st'.alloc, some reply) := by
  obtain ⟨st, hst⟩ := Except.exists_eq_ok_of_isOk (x := execAll (exec Kernel.small) State.initial
    [.incoming true (replyFor [1, 97])]) (by decide)
  obtain ⟨st', hst'⟩ := Except.exists_eq_ok_of_isOk (x := execAll (exec Kernel.small) State.initial
    [.incoming true (replyFor [1, 97])] >>= fun st ↦ execAll (exec Kernel.small) st
    [.incoming false (replyFor [1, 98]), .incoming true (replyFor [1, 97])]) (by decide)
  rw [hst, Except.ok_bind_eq] at hst'
  have hout : (match (execAll (exec Kernel.small) State.initial
      [.incoming true (replyFor [1, 97])] >>= fun st ↦ dnsRequestHook Kernel.small true
        (some (Tailroom.exact 16)) st (queryFor [1, 97])) with
      | .ok (_, _, some _) => true
      | _ => false) = true := by
    decide +kernel
  rw [hst, Except.ok_bind_eq] at hout
  split at hout
  · rename_i hreply
    exact ⟨st, st', _, run_of_execAll hst, run_of_execAll hst', same_answer_for_ever Kernel.small _
      (run_of_execAll hst) (run_of_execAll hst') hreply⟩
  · cases hout

end DnsProxy

end AllProjects
