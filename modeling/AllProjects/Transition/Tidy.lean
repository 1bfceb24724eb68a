import AllProjects.Transition.Processes

/-!
# Tidy programs

A program is tidy when every process waits once for every `fork` before it exits, or turns into
another program. Then no child outlives its parent, and at the end no process is left but the first.

Every process but the first is the child of one that was born before it. So the last born has no
children, and the first process that is still alive has only zombies.
-/

namespace AllProjects

namespace Processes

/-! ## Families -/

/-- The numbers of processes and their parents, where each process but the first is the child of
one that was born before it. -/
inductive Family (busy : List ℕ) (root shell : ℕ) : List (ℕ × ℕ) → Prop
  | root : root ∉ busy → shell ∈ busy → Family busy root shell [(root, shell)]
  | born {p q : ℕ} {l : List (ℕ × ℕ)} : Family busy root shell l → p ∈ l.map Prod.fst →
      q ∉ busy → q ∉ l.map Prod.fst → Family busy root shell ((q, p) :: l)

namespace Family

variable {busy : List ℕ} {root shell p q : ℕ} {l : List (ℕ × ℕ)}

theorem nodup (h : Family busy root shell l) : (l.map Prod.fst).Nodup := by
  induction h with
  | root _ _ => exact List.nodup_singleton root
  | born _ _ _ hfresh ih => exact List.nodup_cons.mpr ⟨hfresh, ih⟩

theorem notMem_busy (h : Family busy root shell l) (hp : p ∈ l.map Prod.fst) : p ∉ busy := by
  induction h with
  | root hroot _ =>
    obtain rfl := List.mem_singleton.mp hp
    exact hroot
  | born _ _ hq _ ih =>
    rcases List.mem_cons.mp hp with rfl | hp
    · exact hq
    · exact ih hp

theorem shell_mem (h : Family busy root shell l) : shell ∈ busy := by
  induction h with
  | root _ hshell => exact hshell
  | born _ _ _ _ ih => exact ih

theorem root_mem (h : Family busy root shell l) : (root, shell) ∈ l := by
  induction h with
  | root _ _ => exact List.mem_singleton_self _
  | born _ _ _ _ ih => exact List.mem_cons_of_mem _ ih

theorem parent_mem (h : Family busy root shell l) {x : ℕ × ℕ} (hx : x ∈ l) :
    x.2 ∈ l.map Prod.fst ∨ x.2 = shell := by
  induction h with
  | root _ _ =>
    obtain rfl := List.mem_singleton.mp hx
    exact .inr rfl
  | born _ hp _ _ ih =>
    rcases List.mem_cons.mp hx with rfl | hx
    · exact .inl (List.mem_cons_of_mem _ hp)
    · exact (ih hx).imp_left (List.mem_cons_of_mem _)

theorem parent_ne (h : Family busy root shell l) (hq : q ∉ busy) (hfresh : q ∉ l.map Prod.fst)
    {x : ℕ × ℕ} (hx : x ∈ l) : x.2 ≠ q := by
  rintro rfl
  rcases h.parent_mem hx with hmem | heq
  · exact hfresh hmem
  · exact hq (heq ▸ h.shell_mem)

theorem ne_root_of_parent (h : Family busy root shell l) (hx : (q, p) ∈ l)
    (hp : p ∈ l.map Prod.fst) : q ≠ root := by
  rintro rfl
  have heq : (q, p) = (q, shell) :=
    List.inj_on_of_nodup_map h.nodup hx h.root_mem rfl
  rw [Prod.mk.injEq] at heq
  exact h.notMem_busy hp (heq.2 ▸ h.shell_mem)

theorem suffix {l' : List (ℕ × ℕ)} {x : ℕ × ℕ} (h : Family busy root shell (l' ++ x :: l)) :
    Family busy root shell (x :: l) := by
  induction l' with
  | nil => exact h
  | cons y l' ih =>
    rw [List.cons_append] at h
    generalize hl : l' ++ x :: l = m at h
    cases h with
    | root _ _ => exact absurd hl (by simp)
    | born h _ _ _ => exact ih (hl ▸ h)

theorem head_childless {x : ℕ × ℕ} (h : Family busy root shell (x :: l)) :
    ∀ y ∈ x :: l, y.2 ≠ x.1 := by
  intro y hy
  cases h with
  | root hroot hshell =>
    obtain rfl := List.mem_singleton.mp hy
    exact fun heq : shell = root ↦ hroot (heq ▸ hshell)
  | @born p q _ h hp hq hfresh =>
    rcases List.mem_cons.mp hy with rfl | hy
    · exact fun heq : p = q ↦ hfresh (heq ▸ hp)
    · exact h.parent_ne hq hfresh hy

theorem remove (h : Family busy root shell l) (hq : q ≠ root) (hchildless : ∀ x ∈ l, x.2 ≠ q) :
    Family busy root shell (l.filter fun x ↦ x.1 ≠ q) := by
  induction h with
  | root hroot hshell =>
    rw [List.filter_cons_of_pos (by simpa using hq.symm), List.filter_nil]
    exact .root hroot hshell
  | @born p q' l h hp hbusy hfresh ih =>
    have hrest := ih fun x hx ↦ hchildless x (List.mem_cons_of_mem _ hx)
    rcases eq_or_ne q' q with rfl | hne
    · rw [List.filter_cons_of_neg (by simp), List.filter_eq_self.mpr]
      · exact h
      · intro x hx
        rw [decide_eq_true_iff]
        rintro rfl
        exact hfresh (List.mem_map_of_mem hx)
    · rw [List.filter_cons_of_pos (by simpa using hne)]
      refine .born hrest ?_ hbusy fun hmem ↦ hfresh ?_
      · obtain ⟨x, hx, rfl⟩ := List.mem_map.mp hp
        refine List.mem_map_of_mem (List.mem_filter.mpr ⟨hx, ?_⟩)
        rw [decide_eq_true_iff]
        exact hchildless _ List.mem_cons_self
      · obtain ⟨x, hx, rfl⟩ := List.mem_map.mp hmem
        exact List.mem_map_of_mem (List.mem_of_mem_filter hx)

theorem eq_root (h : Family busy root shell l) (hchildless : ∀ x ∈ l, x.2 ≠ root) :
    l = [(root, shell)] := by
  induction h with
  | root _ _ => rfl
  | born h hp _ _ ih =>
    obtain rfl := ih fun x hx ↦ hchildless x (List.mem_cons_of_mem _ hx)
    obtain rfl := List.mem_singleton.mp hp
    exact absurd rfl (hchildless _ List.mem_cons_self)

end Family

end Processes

/-! ## Tidy programs -/

namespace Script

variable {L : Type*}

/-- With `k` children that have not been waited for, the program waits as often as it forks, and its
children do. -/
def Tidy : ℕ → Script L → Prop
  | k, exit => k = 0
  | k, print _ r => r.Tidy k
  | k, fork child r => child.Tidy 0 ∧ r.Tidy (k + 1)
  | 0, wait _ => False
  | k + 1, wait r => r.Tidy k
  | k, exec r => k = 0 ∧ r.Tidy 0

/-- How many statements there are, with those of the children. -/
def size : Script L → ℕ
  | exit => 1
  | print _ r => r.size + 1
  | fork child r => child.size + r.size + 1
  | wait r => r.size + 1
  | exec r => r.size + 1

theorem size_pos (r : Script L) : 0 < r.size := by
  cases r with
  | exit => exact Nat.one_pos
  | print | fork | wait | exec => exact Nat.succ_pos _

/-- The lines that come out, when every `fork` and `exec` succeeds, of a process with the lines
`buf` in its buffer. -/
def due (tty : Bool) : List L → Script L → Multiset L
  | buf, exit => buf
  | buf, print line r => if tty then line ::ₘ r.due tty buf else r.due tty (buf ++ [line])
  | buf, fork child r => child.due tty buf + r.due tty buf
  | buf, wait r => r.due tty buf
  | _, exec _ => 0

end Script

namespace Process

variable {L : Type*}

/-- It has `k` children, which are not more than it waits for. -/
def Owes (k : ℕ) (P : Process L) : Prop :=
  match P.prog with
  | some r => ∃ n, k ≤ n ∧ r.Tidy n
  | none => k = 0

theorem Owes.mono {k k' : ℕ} {P : Process L} (h : P.Owes k) (hle : k' ≤ k) : P.Owes k' := by
  rw [Owes] at h ⊢
  split at h
  · obtain ⟨n, hn, htidy⟩ := h
    exact ⟨n, hle.trans hn, htidy⟩
  · exact Nat.le_zero.mp (h ▸ hle)

/-- The lines that this process still puts out. -/
def due (tty : Bool) (P : Process L) : Multiset L :=
  match P.prog with
  | some r => r.due tty (P.buf.map Entry.line)
  | none => 0

/-- The statements that this process has before it. -/
def size (P : Process L) : ℕ :=
  match P.prog with
  | some r => r.size
  | none => 0

end Process

namespace Processes

variable {L : Type*} {tty : Bool} {busy : List ℕ} {s t : Processes L} {e : ℕ × Choice}

/-! ## What holds between any two steps -/

/-- How many children a process has. -/
def kids (procs : List (Process L)) (p : ℕ) : ℕ := procs.countP fun P ↦ P.ppid = p

/-- What holds of a tidy program. -/
structure Inv (busy : List ℕ) (root shell : ℕ) (s : Processes L) : Prop where
  family : Family busy root shell (s.procs.map Process.link)
  owes : ∀ P ∈ s.procs, P.Owes (kids s.procs P.pid)
  maker : ∀ P ∈ s.procs, P.ppid = P.maker ∧ ∀ x ∈ P.buf, x.ppid = x.maker
  out : ∀ x ∈ s.out, x.ppid = x.maker

theorem kids_update {p : ℕ} {f : Process L → Process L} {procs : List (Process L)}
    (hf : ∀ P, (f P).link = P.link) (q : ℕ) : kids (update p f procs) q = kids procs q := by
  rw [kids, update, List.countP_map, kids]
  apply List.countP_congr
  intro P _
  rw [Function.comp_apply, decide_eq_true_iff, decide_eq_true_iff]
  split
  · rw [show (f P).ppid = P.ppid from congrArg Prod.snd (hf P)]
  · rfl

theorem kids_eq_zero {procs : List (Process L)} {p : ℕ} :
    kids procs p = 0 ↔ ∀ P ∈ procs, P.ppid ≠ p := by
  rw [kids, List.countP_eq_zero]
  simp only [decide_eq_true_iff]

namespace Inv

variable {root shell : ℕ}

theorem pids_nodup (h : Inv busy root shell s) : (s.procs.map Process.pid).Nodup := by
  have hnodup := h.family.nodup
  rwa [List.map_map] at hnodup

theorem eq_of_pid (h : Inv busy root shell s) {P Q : Process L} (hP : P ∈ s.procs)
    (hQ : Q ∈ s.procs) (heq : P.pid = Q.pid) : P = Q :=
  List.inj_on_of_nodup_map h.pids_nodup hP hQ heq

theorem update (h : Inv busy root shell s) {P : Process L} (hP : P ∈ s.procs)
    {f : Process L → Process L} {out : List (Entry L)} (hlink : ∀ P, (f P).link = P.link)
    (howes : (f P).Owes (kids s.procs P.pid)) (hmaker : (f P).maker = P.maker)
    (hbuf : ∀ x ∈ (f P).buf, x ∈ P.buf ∨ x.ppid = x.maker) (hout : ∀ x ∈ out, x.ppid = x.maker) :
    Inv busy root shell ⟨Processes.update P.pid f s.procs, out⟩ where
  family := by
    rw [links_update hlink]
    exact h.family
  owes := by
    intro Q hQ
    rw [kids_update hlink]
    obtain ⟨R, hR, ⟨heq, rfl⟩ | ⟨-, rfl⟩⟩ := mem_update hQ
    · obtain rfl := h.eq_of_pid hR hP heq
      rwa [show (f R).pid = R.pid from congrArg Prod.fst (hlink R)]
    · exact h.owes Q hR
  maker := by
    intro Q hQ
    obtain ⟨R, hR, ⟨heq, rfl⟩ | ⟨-, rfl⟩⟩ := mem_update hQ
    · obtain rfl := h.eq_of_pid hR hP heq
      have hR' := h.maker R hR
      rw [show (f R).ppid = R.ppid from congrArg Prod.snd (hlink R), hmaker]
      exact ⟨hR'.1, fun x hx ↦ (hbuf x hx).elim (hR'.2 x) id⟩
    · exact h.maker Q hR
  out := hout

theorem born (h : Inv busy root shell s) {P : Process L} (hP : P ∈ s.procs) {q : ℕ}
    {buf : List (Entry L)} {child : Script L} (howes : P.Owes (kids s.procs P.pid + 1))
    (hbusy : q ∉ busy) (hfresh : q ∉ s.procs.map Process.pid) (htidy : child.Tidy 0)
    (hbuf : ∀ x ∈ buf, x.ppid = x.maker) :
    Inv busy root shell ⟨⟨q, P.pid, P.pid, buf, some child⟩ :: s.procs, s.out⟩ := by
  have hlinks : q ∉ (s.procs.map Process.link).map Prod.fst := by
    rw [List.map_map]
    exact hfresh
  have hchildless : ∀ Q ∈ s.procs, Q.ppid ≠ q := fun Q hQ ↦
    h.family.parent_ne hbusy hlinks (x := Q.link) (List.mem_map_of_mem hQ)
  have hne : P.pid ≠ q := fun heq ↦ hfresh (heq ▸ List.mem_map_of_mem hP)
  have hkids : ∀ p, kids (⟨q, P.pid, P.pid, buf, some child⟩ :: s.procs) p
      = kids s.procs p + if P.pid = p then 1 else 0 := by
    intro p
    rw [kids, List.countP_cons, kids]
    simp only [decide_eq_true_iff]
  refine ⟨?_, ?_, ?_, h.out⟩
  · refine .born h.family ?_ hbusy hlinks
    rw [List.map_map]
    exact List.mem_map_of_mem hP
  · intro Q hQ
    rw [hkids]
    rcases List.mem_cons.mp hQ with rfl | hQ
    · rw [if_neg hne, kids_eq_zero.mpr hchildless]
      exact ⟨0, le_rfl, htidy⟩
    · by_cases heq : P.pid = Q.pid
      · obtain rfl := h.eq_of_pid hP hQ heq
        rwa [if_pos rfl]
      · rw [if_neg heq]
        exact h.owes Q hQ
  · intro Q hQ
    rcases List.mem_cons.mp hQ with rfl | hQ
    · exact ⟨rfl, hbuf⟩
    · exact h.maker Q hQ

theorem remove (h : Inv busy root shell s) {P Q : Process L} (hP : P ∈ s.procs) (hQ : Q ∈ s.procs)
    (hparent : Q.ppid = P.pid) (hprog : Q.prog = none) :
    Inv busy root shell ⟨s.procs.filter fun R ↦ R.pid ≠ Q.pid, s.out⟩ ∧
      kids (s.procs.filter fun R ↦ R.pid ≠ Q.pid) P.pid < kids s.procs P.pid := by
  have hchildless : kids s.procs Q.pid = 0 := by
    have howes := h.owes Q hQ
    rwa [Process.Owes, hprog] at howes
  have hsplit : ∀ p, kids s.procs p = kids (s.procs.filter fun R ↦ R.pid ≠ Q.pid) p
      + kids (s.procs.filter fun R ↦ !decide (R.pid ≠ Q.pid)) p := fun p ↦
    List.countP_eq_countP_filter_add _ _ _
  refine ⟨⟨?_, ?_, ?_, h.out⟩, ?_⟩
  · have hroot : Q.pid ≠ root := by
      refine h.family.ne_root_of_parent (List.mem_map_of_mem hQ) ?_
      rw [hparent, List.map_map]
      exact List.mem_map_of_mem hP
    have hfamily := h.family.remove hroot fun x hx ↦ by
      obtain ⟨R, hR, rfl⟩ := List.mem_map.mp hx
      exact kids_eq_zero.mp hchildless R hR
    rwa [List.filter_map] at hfamily
  · intro R hR
    refine (h.owes R (List.mem_of_mem_filter hR)).mono ?_
    rw [hsplit R.pid]
    exact Nat.le_add_right _ _
  · intro R hR
    exact h.maker R (List.mem_of_mem_filter hR)
  · rw [hsplit P.pid]
    apply Nat.lt_add_of_pos_right
    apply List.countP_pos_iff.mpr
    exact ⟨Q, List.mem_filter.mpr ⟨hQ, by simp⟩, by simpa using hparent⟩

theorem kids_of_exit (h : Inv busy root shell s) {P : Process L} (hP : P ∈ s.procs)
    (hprog : P.prog = some .exit) : kids s.procs P.pid = 0 := by
  have howes := h.owes P hP
  rw [Process.Owes, hprog] at howes
  obtain ⟨n, hle, rfl⟩ := howes
  exact Nat.le_zero.mp hle

theorem disown_of_exit (h : Inv busy root shell s) {P : Process L} (hP : P ∈ s.procs)
    (hprog : P.prog = some .exit) :
    disown P.pid (Processes.update P.pid Process.die s.procs)
      = Processes.update P.pid Process.die s.procs := by
  apply disown_eq
  rw [← kids_eq_zero, kids_update (f := Process.die) fun _ ↦ rfl]
  exact h.kids_of_exit hP hprog

theorem move (h : Inv busy root shell s) {P : Process L} {c : Choice} (hP : P ∈ s.procs)
    (hmove : Move tty busy s P c t) : Inv busy root shell t := by
  have howes := h.owes P hP
  have hmaker := h.maker P hP
  rw [Process.Owes] at howes
  cases hmove with
  | exit hprog =>
    rw [h.disown_of_exit hP hprog]
    refine h.update hP (fun _ ↦ rfl) (h.kids_of_exit hP hprog) rfl
      (fun x hx ↦ absurd hx List.not_mem_nil) ?_
    intro x hx
    exact (List.mem_append.mp hx).elim (h.out x) (hmaker.2 x)
  | shown hprog _ =>
    rw [hprog] at howes
    refine h.update hP (fun _ ↦ rfl) howes rfl (fun x hx ↦ .inl hx) ?_
    intro x hx
    rcases List.mem_append.mp hx with hx | hx
    · exact h.out x hx
    · obtain rfl := List.mem_singleton.mp hx
      exact hmaker.1
  | kept hprog _ =>
    rw [hprog] at howes
    refine h.update hP (fun _ ↦ rfl) howes rfl ?_ h.out
    intro x hx
    refine (List.mem_append.mp hx).imp_right fun hx ↦ ?_
    obtain rfl := List.mem_singleton.mp hx
    exact hmaker.1
  | @born q child r hprog hbusy hfresh =>
    rw [hprog] at howes
    obtain ⟨n, hle, hchild, hrest⟩ := howes
    have hgoes : (P.goOn r).Owes (kids s.procs P.pid + 1) := ⟨n + 1, Nat.succ_le_succ hle, hrest⟩
    have h' : Inv busy root shell ⟨Processes.update P.pid (Process.goOn r) s.procs, s.out⟩ :=
      h.update hP (fun _ ↦ rfl) (hgoes.mono (Nat.le_succ _)) rfl (fun x hx ↦ .inl hx) h.out
    have hP' : P.goOn r ∈ Processes.update P.pid (Process.goOn r) s.procs :=
      List.mem_map.mpr ⟨P, hP, if_pos rfl⟩
    refine h'.born hP' ?_ hbusy ?_ hchild hmaker.2
    · dsimp only
      rw [kids_update (f := Process.goOn r) fun _ ↦ rfl]
      exact hgoes
    · have hpids := congrArg (List.map Prod.fst)
        (@links_update _ P.pid (Process.goOn r) s.procs fun _ ↦ rfl)
      rw [List.map_map, List.map_map] at hpids
      exact hpids ▸ hfresh
  | unborn hprog =>
    rw [hprog] at howes
    obtain ⟨n, hle, -, hrest⟩ := howes
    exact h.update hP (fun _ ↦ rfl) ⟨n + 1, Nat.le_succ_of_le hle, hrest⟩ rfl (fun x hx ↦ .inl hx)
      h.out
  | @reaped Q r hprog hQ hparent hzombie =>
    rw [hprog] at howes
    obtain ⟨n, hle, hrest⟩ := howes
    obtain ⟨h', hlt⟩ := h.remove hP hQ hparent hzombie
    have hne : P.pid ≠ Q.pid := by
      intro heq
      obtain rfl := h.eq_of_pid hP hQ heq
      rw [hprog] at hzombie
      cases hzombie
    have hcomm : (Processes.update P.pid (Process.goOn r) s.procs).filter (fun R ↦ R.pid ≠ Q.pid)
        = Processes.update P.pid (Process.goOn r) (s.procs.filter fun R ↦ R.pid ≠ Q.pid) := by
      rw [Processes.update, List.filter_map, Processes.update]
      congr 2
      funext R
      rw [Function.comp_apply]
      split <;> rfl
    rw [hcomm]
    cases n with
    | zero => exact hrest.elim
    | succ n =>
      exact h'.update (List.mem_filter.mpr ⟨hP, decide_eq_true hne⟩) (fun _ ↦ rfl)
        ⟨n, Nat.le_of_lt_succ (hlt.trans_le hle), hrest⟩ rfl (fun x hx ↦ .inl hx) h.out
  | childless hprog hnone =>
    rw [hprog] at howes
    obtain ⟨n, -, hrest⟩ := howes
    cases n with
    | zero => exact hrest.elim
    | succ n =>
      refine h.update hP (fun _ ↦ rfl) ⟨n, ?_, hrest⟩ rfl (fun x hx ↦ .inl hx) h.out
      rw [kids_eq_zero.mpr hnone]
      exact Nat.zero_le n
  | replaced hprog =>
    rw [hprog] at howes
    obtain ⟨n, hle, rfl, -⟩ := howes
    exact h.update hP (fun _ ↦ rfl) ⟨0, hle, rfl⟩ rfl (fun x hx ↦ absurd hx List.not_mem_nil) h.out
  | unreplaced hprog =>
    rw [hprog] at howes
    obtain ⟨n, hle, rfl, hrest⟩ := howes
    exact h.update hP (fun _ ↦ rfl) ⟨0, hle, hrest⟩ rfl (fun x hx ↦ .inl hx) h.out

theorem step (h : Inv busy root shell s) (hstep : Step tty busy s e t) : Inv busy root shell t := by
  obtain ⟨P, hP, -, hmove⟩ := hstep.move
  exact h.move hP hmove

/-! ## The end -/

theorem sum_reaped {M : Type*} [AddCommMonoid M] (h : Inv busy root shell s) {P Q : Process L}
    {r r' : Script L} (w : Process L → M) (hP : P ∈ s.procs) (hQ : Q ∈ s.procs)
    (hprog : P.prog = some r') (hzombie : Q.prog = none) (hw : w Q = 0) :
    (((Processes.update P.pid (Process.goOn r) s.procs).filter fun R ↦ R.pid ≠ Q.pid).map w).sum
      = ((Processes.update P.pid (Process.goOn r) s.procs).map w).sum := by
  apply sum_filter
  intro R hR hkeep
  have hpid : R.pid = Q.pid := by simpa using hkeep
  obtain ⟨R', hR', ⟨heq, rfl⟩ | ⟨-, rfl⟩⟩ := mem_update hR
  · have hPQ : P = Q := h.eq_of_pid hP hQ (heq.symm.trans hpid)
    rw [hPQ, hzombie] at hprog
    cases hprog
  · rw [h.eq_of_pid hR' hQ hpid, hw]

theorem size_lt (h : Inv busy root shell s) {P : Process L} {c : Choice} (hP : P ∈ s.procs)
    (hmove : Move tty busy s P c t) :
    (t.procs.map Process.size).sum < (s.procs.map Process.size).sum := by
  have hsum : ∀ f : Process L → Process L, ((Processes.update P.pid f s.procs).map
      Process.size).sum + P.size = (s.procs.map Process.size).sum + (f P).size := fun f ↦
    sum_update Process.size h.pids_nodup hP
  have hsize : ∀ {r}, P.prog = some r → P.size = r.size := fun hprog ↦ by rw [Process.size, hprog]
  cases hmove with
  | exit hprog =>
    have hdie := hsum Process.die
    rw [hsize hprog, Process.die, Process.size, Script.size] at hdie
    dsimp only at hdie ⊢
    rw [h.disown_of_exit hP hprog]
    omega
  | @shown _ r hprog _ | @unborn _ r hprog | @childless r hprog _ | @unreplaced r hprog =>
    have hgo := hsum (Process.goOn r)
    rw [hsize hprog, Process.goOn, Process.size, Script.size] at hgo
    dsimp only at hgo ⊢
    omega
  | @kept line r hprog _ =>
    have hkeep := hsum (Process.keep line r)
    rw [hsize hprog, Process.keep, Process.size, Script.size] at hkeep
    dsimp only at hkeep ⊢
    omega
  | @born _ child r hprog _ _ =>
    have hgo := hsum (Process.goOn r)
    rw [hsize hprog, Process.goOn, Process.size, Script.size] at hgo
    rw [List.map_cons, List.sum_cons, Process.size]
    dsimp only at hgo ⊢
    omega
  | @reaped Q r hprog hQ _ hzombie =>
    have hgo := hsum (Process.goOn r)
    rw [hsize hprog, Process.goOn, Process.size, Script.size] at hgo
    dsimp only at hgo ⊢
    rw [h.sum_reaped Process.size hP hQ hprog hzombie (by rw [Process.size, hzombie])]
    omega
  | @replaced r hprog =>
    have hreplaced := hsum Process.replaced
    have hpos := r.size_pos
    rw [hsize hprog, Process.replaced, Process.size, Script.size] at hreplaced
    dsimp only [Script.size] at hreplaced ⊢
    omega

/-- **Lines are neither lost nor added** where nothing fails. -/
theorem due_eq (h : Inv busy root shell s) {P : Process L} {c : Choice} (hP : P ∈ s.procs)
    (hmove : Move tty busy s P c t) (hc : c ≠ .failed) :
    (t.out.map Entry.line : Multiset L) + (t.procs.map (Process.due tty)).sum
      = (s.out.map Entry.line : Multiset L) + (s.procs.map (Process.due tty)).sum := by
  have hsum : ∀ (f : Process L → Process L) (d : Multiset L), P.due tty = d + (f P).due tty →
      d + ((Processes.update P.pid f s.procs).map (Process.due tty)).sum
        = (s.procs.map (Process.due tty)).sum := by
    intro f d hd
    have hw := sum_update (f := f) (Process.due tty) h.pids_nodup hP
    rw [hd, ← add_assoc] at hw
    rw [add_comm]
    exact add_right_cancel hw
  have hdue : ∀ {r}, P.prog = some r → P.due tty = r.due tty (P.buf.map Entry.line) :=
    fun hprog ↦ by rw [Process.due, hprog]
  cases hmove with
  | exit hprog =>
    have hdie := hsum Process.die (P.buf.map Entry.line) ((hdue hprog).trans (add_zero _).symm)
    dsimp only
    rw [h.disown_of_exit hP hprog, List.map_append, ← Multiset.coe_add, add_assoc, hdie]
  | @shown line r hprog htty =>
    have hgo := hsum (Process.goOn r) {line} (by
      rw [hdue hprog, Script.due, if_pos htty]
      rfl)
    dsimp only
    rw [List.map_append, ← Multiset.coe_add, add_assoc]
    exact congrArg _ hgo
  | @kept line r hprog htty =>
    have hkeep := hsum (Process.keep line r) 0 (by
      rw [hdue hprog, Script.due, if_neg (by rw [htty]; exact Bool.noConfusion), zero_add]
      rw [Process.keep, Process.due, List.map_append]
      rfl)
    rw [zero_add] at hkeep
    exact congrArg _ hkeep
  | @born q child r hprog _ _ =>
    have hgo := hsum (Process.goOn r) (child.due tty (P.buf.map Entry.line)) (hdue hprog)
    dsimp only
    rw [List.map_cons, List.sum_cons]
    exact congrArg _ hgo
  | unborn _ | unreplaced _ => exact absurd rfl hc
  | @reaped Q r hprog hQ _ hzombie =>
    have hgo := hsum (Process.goOn r) 0 ((hdue hprog).trans (zero_add _).symm)
    rw [zero_add] at hgo
    dsimp only
    rw [h.sum_reaped (Process.due tty) hP hQ hprog hzombie (by rw [Process.due, hzombie]), hgo]
  | @childless r hprog _ =>
    have hgo := hsum (Process.goOn r) 0 ((hdue hprog).trans (zero_add _).symm)
    rw [zero_add] at hgo
    exact congrArg _ hgo
  | @replaced r hprog =>
    have hreplaced := hsum Process.replaced 0 ((hdue hprog).trans (zero_add _).symm)
    rw [zero_add] at hreplaced
    exact congrArg _ hreplaced

/-- When the first process has exited, no other is left. -/
theorem alone (h : Inv busy root shell s) {P : Process L} (hP : P ∈ s.procs)
    (hpid : P.pid = root) (hprog : P.prog = none) : s.procs = [P] := by
  have howes := h.owes P hP
  rw [Process.Owes, hprog] at howes
  have hlinks : s.procs.map Process.link = [(root, shell)] := by
    refine h.family.eq_root fun x hx ↦ ?_
    obtain ⟨Q, hQ, rfl⟩ := List.mem_map.mp hx
    rw [← hpid]
    exact kids_eq_zero.mp howes Q hQ
  have hlen : s.procs.length = 1 := by
    have hmap := congrArg List.length hlinks
    rwa [List.length_map] at hmap
  obtain ⟨Q, hQ⟩ := List.length_eq_one_iff.mp hlen
  rw [hQ] at hP ⊢
  rw [List.mem_singleton.mp hP]

/-- **Somebody goes on** until all processes have exited: a process whose children are all
zombies. -/
theorem goes_on (tty : Bool) (h : Inv busy root shell s) {P : Process L} (hP : P ∈ s.procs)
    (hlive : P.prog ≠ none) : ∃ e t, Step tty busy s e t := by
  cases hfirst : s.procs.find? fun P ↦ P.prog.isSome with
  | none =>
    have hnone := List.find?_eq_none.mp hfirst P hP
    exact absurd (Option.isSome_iff_ne_none.mpr hlive) hnone
  | some Q =>
    obtain ⟨hsome, l₁, l₂, hsplit, hzombies⟩ := List.find?_eq_some_iff_append.mp hfirst
    obtain ⟨r, hr⟩ := Option.isSome_iff_exists.mp hsome
    have hQ : Q ∈ s.procs := List.mem_of_find?_eq_some hfirst
    have hfind : (s.procs.find? fun P ↦ P.pid = Q.pid) = some Q := by
      cases hfound : s.procs.find? fun P ↦ P.pid = Q.pid with
      | none =>
        have hne := List.find?_eq_none.mp hfound Q hQ
        exact absurd (decide_eq_true rfl) hne
      | some R =>
        have hpid : R.pid = Q.pid := by simpa using List.find?_some hfound
        rw [h.eq_of_pid (List.mem_of_find?_eq_some hfound) hQ hpid]
    -- the children were born after it, and they are zombies
    have hchildren : ∀ R ∈ s.procs, R.ppid = Q.pid → R.prog = none := by
      intro R hR hparent
      rw [hsplit] at hR
      rcases List.mem_append.mp hR with hR | hR
      · have hnot := hzombies R hR
        cases hprog : R.prog with
        | none => rfl
        | some r =>
          rw [hprog] at hnot
          cases hnot
      · have hfamily := h.family
        rw [hsplit, List.map_append, List.map_cons] at hfamily
        exact absurd hparent (hfamily.suffix.head_childless R.link (List.mem_map_of_mem hR))
    have hgo : ∀ c, (∃ t, s.go tty busy Q c = some t) → ∃ e t, Step tty busy s e t := by
      rintro c ⟨t, ht⟩
      refine ⟨(Q.pid, c), t, ?_⟩
      rw [Step, Processes.exec, hfind]
      exact ht
    cases r with
    | exit => exact hgo .go ⟨_, by rw [go.eq_def, hr]⟩
    | print line r =>
      cases tty with
      | true => exact hgo .go ⟨_, by rw [go.eq_def, hr]; rfl⟩
      | false => exact hgo .go ⟨_, by rw [go.eq_def, hr]; rfl⟩
    | fork child r => exact hgo .failed ⟨_, by rw [go.eq_def, hr]⟩
    | exec r => exact hgo .failed ⟨_, by rw [go.eq_def, hr]⟩
    | wait r =>
      by_cases hchild : ∃ R ∈ s.procs, R.ppid = Q.pid
      · obtain ⟨R, hR, hparent⟩ := hchild
        refine hgo (.reaped R.pid) ⟨_, by
          rw [go.eq_def, hr]
          exact if_pos ⟨R, hR, rfl, hparent, Option.isNone_iff_eq_none.mpr
            (hchildren R hR hparent)⟩⟩
      · refine hgo .go ⟨_, by
          rw [go.eq_def, hr]
          exact if_pos fun R hR hparent ↦ hchild ⟨R, hR, hparent⟩⟩

end Inv

/-! ## Every run -/

section Run

variable {root shell : ℕ} {prog : Script L} {es : List (ℕ × Choice)}

theorem inv_start (hroot : root ∉ busy) (hshell : shell ∈ busy) (htidy : prog.Tidy 0) :
    Inv busy root shell (start root shell prog) where
  family := .root hroot hshell
  owes := by
    intro P hP
    obtain rfl := List.mem_singleton.mp hP
    have hne : shell ≠ root := fun heq ↦ hroot (heq ▸ hshell)
    refine ⟨0, Nat.le_zero.mpr (kids_eq_zero.mpr fun Q hQ ↦ ?_), htidy⟩
    obtain rfl := List.mem_singleton.mp hQ
    exact hne
  maker := by
    intro P hP
    obtain rfl := List.mem_singleton.mp hP
    exact ⟨rfl, fun x hx ↦ absurd hx List.not_mem_nil⟩
  out := fun x hx ↦ absurd hx List.not_mem_nil

theorem inv_of_run (hroot : root ∉ busy) (hshell : shell ∈ busy) (htidy : prog.Tidy 0)
    (hrun : Run (Step tty busy) (start root shell prog) es s) : Inv busy root shell s :=
  hrun.invariant (fun _ _ _ h hstep ↦ h.step hstep) (inv_start hroot hshell htidy)

theorem length_le_of_run (hroot : root ∉ busy) (hshell : shell ∈ busy) (htidy : prog.Tidy 0)
    (hrun : Run (Step tty busy) (start root shell prog) es s) : es.length ≤ prog.size := by
  refine hrun.length_le_of_invariant (d := fun s ↦ (s.procs.map Process.size).sum) ?_
    (inv_start hroot hshell htidy)
  intro s e t h hstep
  obtain ⟨P, hP, -, hmove⟩ := hstep.move
  exact ⟨h.step hstep, h.size_lt hP hmove⟩

/-- Where nothing fails, what has been printed and what is still to come are together the lines of
the program. -/
theorem lines_of_run (hroot : root ∉ busy) (hshell : shell ∈ busy) (htidy : prog.Tidy 0)
    (hrun : Run (Step tty busy) (start root shell prog) es s) (hes : ∀ e ∈ es, e.2 ≠ .failed) :
    (s.out.map Entry.line : Multiset L) + (s.procs.map (Process.due tty)).sum
      = prog.due tty [] := by
  have hstart : Inv busy root shell (start root shell prog) := inv_start hroot hshell htidy
  refine (hrun.preserves (P := fun e ↦ e.2 ≠ .failed) (I := fun t ↦ Inv busy root shell t ∧
    (t.out.map Entry.line : Multiset L) + (t.procs.map (Process.due tty)).sum
      = prog.due tty []) ?_ hes ⟨hstart, ?_⟩).2
  · rintro s e t ⟨h, hlines⟩ he hstep
    obtain ⟨P, hP, -, hmove⟩ := hstep.move
    exact ⟨h.step hstep, (h.due_eq hP hmove he).trans hlines⟩
  · exact (zero_add _).trans (add_zero _)

theorem not_step_of_zombies (hzombies : ∀ P ∈ s.procs, P.prog = none) : ¬Step tty busy s e t := by
  intro hstep
  obtain ⟨P, hP, -, hmove⟩ := hstep.move
  have hprog := hzombies P hP
  generalize e.2 = c at hmove
  cases hmove with
  | exit h | shown h _ | kept h _ | born h _ _ | unborn h | reaped h _ _ _ | childless h _
  | replaced h | unreplaced h =>
    rw [hprog] at h
    cases h

/-- **The end of a run.** When nobody goes on, only the first process is left, as a zombie of the
shell's, and where nothing failed the lines of the program have been printed. -/
theorem end_of_run (hroot : root ∉ busy) (hshell : shell ∈ busy) (htidy : prog.Tidy 0)
    (hrun : Run (Step tty busy) (start root shell prog) es s)
    (hend : ∀ e t, ¬Step tty busy s e t) :
    (∃ P, s.procs = [P] ∧ P.pid = root ∧ P.prog = none) ∧
      ((∀ e ∈ es, e.2 ≠ .failed) →
        (s.out.map Entry.line : Multiset L) = prog.due tty []) := by
  have h := inv_of_run hroot hshell htidy hrun
  have hzombies : ∀ P ∈ s.procs, P.prog = none := by
    intro P hP
    by_contra hlive
    obtain ⟨e, t, hstep⟩ := h.goes_on tty hP hlive
    exact hend e t hstep
  obtain ⟨P, hP, hlink⟩ := List.mem_map.mp h.family.root_mem
  have hpid : P.pid = root := congrArg Prod.fst hlink
  refine ⟨⟨P, h.alone hP hpid (hzombies P hP), hpid, hzombies P hP⟩, fun hes ↦ ?_⟩
  have hlines := lines_of_run hroot hshell htidy hrun hes
  rwa [h.alone hP hpid (hzombies P hP), List.map_singleton, List.sum_singleton, Process.due,
    hzombies P hP, add_zero] at hlines

end Run

end Processes

end AllProjects
