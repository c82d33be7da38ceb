/-
The descriptors of the acceptors: whatever the other threads do between two
system calls, an acceptor closes nothing but its own descriptor and loses none,
and every client that came is accounted for.
-/
import Jerry.Acceptor

namespace Jerry

/-- `reserved_fd` has not been closed, or not yet. -/
def Acceptor.Holding (a : Acceptor) : Prop :=
  a.point ≠ .closed ∧ a.point ≠ .reopening

/-- Between its first `close` and its `open` an acceptor has nothing in reserve. -/
def Acceptor.Recovering (a : Acceptor) : Prop :=
  a.point ≠ .idle ∧ a.point ≠ .exhausted

instance (a : Acceptor) : Decidable a.Recovering :=
  inferInstanceAs (Decidable (_ ∧ _))

/-- A client that was accepted only to be turned away. -/
def Acceptor.inHand (a : Acceptor) : Nat :=
  if a.point = .accepted ∧ a.reservedFd.isSome = true then 1 else 0

/-- Every client that came waits or has been dealt with. -/
def Acceptor.Counts (a : Acceptor) : Prop :=
  a.came = a.backlog + a.served + a.refused + a.gone + a.inHand

namespace AcceptorGroup

open FdTable

variable {s : AcceptorGroup} {i j : Nat} {a b : Acceptor} {table : FdTable FdOwner}
  {op : Op} {outcome : AcceptOutcome}

/-- What an acceptor has in `reserved_fd` is its own, and nothing else is. -/
def Own (table : FdTable FdOwner) (i : Nat) (a : Acceptor) : Prop :=
  ∀ fd, table.owner? fd = some (.reserved i) ↔ a.Holding ∧ a.reservedFd = some fd

structure Inv (s : AcceptorGroup) : Prop where
  own : ∀ i a, s.acceptor? i = some a → Own s.table i a
  unborn : ∀ i, s.acceptor? i = none → ∀ fd, s.table.owner? fd ≠ some (.reserved i)
  counts : ∀ i a, s.acceptor? i = some a → a.Counts

theorem start_inv (limit : Nat) : (start limit).Inv where
  own _ _ h := by cases h
  unborn i _ fd h := by
    have hslot := List.mem_of_getElem? (Option.join_eq_some_iff.mp h)
    cases List.eq_of_mem_replicate hslot
  counts _ _ h := by cases h

/-- What other threads and other acceptors do. -/
theorem Own.congr (h : Own s.table i a) {p : FdOwner → Prop}
    (hagree : Agree p s.table table) (hp : p (.reserved i))
    (hholding : b.Holding ↔ a.Holding) (hfd : b.reservedFd = a.reservedFd) :
    Own table i b := by
  intro fd
  rw [hagree fd _ hp, h fd, hholding, hfd]

theorem put_acceptor? (ha : s.acceptor? i = some a) :
    (s.put i b).acceptor? j = if j = i then some b else s.acceptor? j := by
  have hlt := (List.getElem?_eq_some_iff.mp ha).1
  rw [acceptor?, put, List.getElem?_set]
  by_cases hij : i = j
  · rw [if_pos hij, if_pos hlt, if_pos hij.symm]
  · rw [if_neg hij, if_neg (Ne.symm hij)]
    rfl

/-- The descriptors of the other acceptors. -/
def OfOthers (i : Nat) (o : FdOwner) : Prop :=
  ∃ j, j ≠ i ∧ o = .reserved j

theorem not_ofOthers (i : Nat) : ¬ OfOthers i (.reserved i) := by
  rintro ⟨j, hne, heq⟩
  exact hne (FdOwner.reserved.inj heq).symm

/-- A step of one acceptor. -/
theorem Inv.put (h : s.Inv) (ha : s.acceptor? i = some a)
    (hagree : Agree (OfOthers i) s.table table) (hown : Own table i b)
    (hcounts : b.Counts) : ({ s with table := table }.put i b).Inv := by
  have hget (j : Nat) : ({ s with table := table }.put i b).acceptor? j =
      if j = i then some b else s.acceptor? j := put_acceptor? ha
  have hother {j : Nat} (hne : j ≠ i) : OfOthers i (.reserved j) := ⟨j, hne, rfl⟩
  constructor
  · intro j c hj
    rw [hget] at hj
    split at hj
    · rename_i heq
      cases hj
      exact heq ▸ hown
    · rename_i hne
      exact (h.own j c hj).congr hagree (hother hne) Iff.rfl rfl
  · intro j hj fd
    rw [hget] at hj
    split at hj
    · cases hj
    · rename_i hne
      intro howner
      exact h.unborn j hj fd ((hagree fd _ (hother hne)).mp howner)
  · intro j c hj
    rw [hget] at hj
    split at hj
    · cases hj
      exact hcounts
    · exact h.counts j c hj

/-- A step of a thread that is no acceptor. -/
theorem Inv.aside (h : s.Inv) {p : FdOwner → Prop} (hagree : Agree p s.table table)
    (hp : ∀ i, p (.reserved i)) : ({ s with table := table } : AcceptorGroup).Inv where
  own i a ha := (h.own i a ha).congr hagree (hp i) Iff.rfl rfl
  unborn i hi fd := by
    intro howner
    exact h.unborn i hi fd ((hagree fd _ (hp i)).mp howner)
  counts := h.counts

/-- What `accept4` can do: nothing, drop a client that is gone, or take one. -/
theorem accept_cases {o : FdOwner} {fd : Option Nat}
    (h : s.accept a o outcome = some (fd, table, b)) :
    (fd = none ∧ table = s.table ∧ b = a) ∨
    ∃ n, a.backlog = n + 1 ∧
      ((fd = none ∧ table = s.table ∧ b = { a with backlog := n, gone := a.gone + 1 }) ∨
        ∃ k, s.table.free? = some k ∧ fd = some k ∧ table = s.table.give k o ∧
          b = { a with backlog := n }) := by
  obtain ⟨k, hfree, heq⟩ := Option.map_eq_some_iff.mp h
  split at heq
  · cases heq
    exact Or.inl ⟨rfl, rfl, rfl⟩
  · cases heq
    exact Or.inl ⟨rfl, rfl, rfl⟩
  · rename_i n hbacklog
    cases heq
    exact Or.inr ⟨n, hbacklog, Or.inl ⟨rfl, rfl, rfl⟩⟩
  · rename_i n hbacklog
    cases heq
    exact Or.inr ⟨n, hbacklog, Or.inr ⟨_, hfree, rfl, rfl, rfl⟩⟩

/-- Elsewhere there is no client in hand. -/
theorem counts_iff (p : AcceptPoint) (hpoint : a.point = p) (h : p ≠ .accepted) :
    a.Counts ↔ a.came = a.backlog + a.served + a.refused + a.gone := by
  have hnone : a.inHand = 0 := if_neg fun haccepted => h (hpoint.symm.trans haccepted.1)
  rw [Acceptor.Counts, hnone, Nat.add_zero]

section Own

theorem Acceptor.holding_of (p : AcceptPoint) (hpoint : a.point = p)
    (hp : p ≠ .closed ∧ p ≠ .reopening) : a.Holding := by
  rw [Acceptor.Holding, hpoint]
  exact hp

theorem Own.not_reserved (h : Own table i a) (hnot : ¬ a.Holding) (fd : Nat) :
    table.owner? fd ≠ some (.reserved i) :=
  fun howner => hnot ((h fd).mp howner).1

theorem own_of_not_reserved (hnone : ∀ fd, table.owner? fd ≠ some (.reserved i))
    (hb : ¬ b.Holding ∨ b.reservedFd = none) : Own table i b := by
  intro fd
  refine iff_of_false (hnone fd) ?_
  rintro ⟨hholding, hfd⟩
  rcases hb with hnot | hnil
  · exact hnot hholding
  · rw [hnil] at hfd
    cases hfd

theorem own_give {fd : Nat} (hnone : ∀ fd, table.owner? fd ≠ some (.reserved i))
    (hfree : table.free? = some fd) (hb : b.Holding) (hfd : b.reservedFd = some fd) :
    Own (table.give fd (.reserved i)) i b := by
  intro k
  rw [owner?_give hfree, hfd]
  by_cases hk : k = fd
  · rw [if_pos hk, hk]
    exact iff_of_true rfl ⟨hb, rfl⟩
  · rw [if_neg hk]
    refine iff_of_false (hnone k) fun hsome => hk ?_
    exact (Option.some_inj.mp hsome.2).symm

/-- `close(reserved_fd)` closes what is the acceptor's own. -/
theorem closeReserved_spec (h : Own s.table i a) (hholding : a.Holding) :
    Agree (OfOthers i) s.table (s.closeReserved a) ∧
      ∀ fd, (s.closeReserved a).owner? fd ≠ some (.reserved i) := by
  rw [closeReserved]
  split
  · rename_i hnil
    refine ⟨.refl s.table, fun fd howner => ?_⟩
    have hfd := ((h fd).mp howner).2
    rw [hnil] at hfd
    cases hfd
  · rename_i fd hfd
    have howner := (h fd).mpr ⟨hholding, hfd⟩
    refine ⟨agree_close fun o ho hother => ?_, fun k hk => ?_⟩
    · obtain ⟨j, hne, rfl⟩ := hother
      exact hne (FdOwner.reserved.inj (Option.some_inj.mp (ho.symm.trans howner)))
    · rw [owner?_close] at hk
      split at hk
      · cases hk
      · rename_i hne
        have hsame := hfd.symm.trans ((h k).mp hk).2
        exact hne (Option.some_inj.mp hsame).symm

end Own

theorem Inv.onPeerConnect (h : s.Inv) (ha : s.acceptor? i = some a)
    (hpoint : a.point = .idle) (outcome : AcceptOutcome) :
    (s.onPeerConnect i a outcome).Inv := by
  have hown := h.own i a ha
  have hcounts := (counts_iff .idle hpoint (by decide)).mp (h.counts i a ha)
  have hholding := Acceptor.holding_of .idle hpoint (by decide)
  rw [AcceptorGroup.onPeerConnect]
  split
  · refine h.put ha (.refl s.table) (fun fd => ?_)
      ((counts_iff .exhausted rfl (by decide)).mpr hcounts)
    rw [hown fd]
    exact and_congr_left fun _ =>
      iff_of_true hholding (Acceptor.holding_of .exhausted rfl (by decide))
  · rename_i haccept
    rcases accept_cases haccept with ⟨-, rfl, rfl⟩ | ⟨n, hn, ⟨-, rfl, rfl⟩ | ⟨k, -, hk, -⟩⟩
    · exact h.put ha (.refl _) hown (h.counts i _ ha)
    · refine h.put ha (.refl s.table) hown
        ((counts_iff .idle (by exact hpoint) (by decide)).mpr ?_)
      simp only
      omega
    · cases hk
  · rename_i haccept
    rcases accept_cases haccept with ⟨hk, -⟩ | ⟨n, hn, ⟨hk, -⟩ | ⟨k, hfree, -, rfl, rfl⟩⟩
    · cases hk
    · cases hk
    · have hagree : Agree (· ≠ .connection) s.table (s.table.give k .connection) :=
        agree_give hfree fun hne => hne rfl
      refine h.put ha (agree_give hfree (by rintro ⟨j, -, hj⟩; cases hj))
        (hown.congr hagree (by simp) Iff.rfl rfl)
        ((counts_iff .idle (by exact hpoint) (by decide)).mpr ?_)
      simp only
      omega

theorem Inv.next (h : s.Inv) (ha : s.acceptor? i = some a) (outcome : AcceptOutcome) :
    (s.next i a outcome).Inv := by
  have hown := h.own i a ha
  have hcounts := h.counts i a ha
  rw [AcceptorGroup.next]
  split
  · exact h
  · rename_i hpoint
    obtain ⟨hagree, hnone⟩ :=
      closeReserved_spec hown (Acceptor.holding_of .exhausted hpoint (by decide))
    refine h.put ha hagree (own_of_not_reserved hnone (Or.inl fun hnot => hnot.1 rfl)) ?_
    exact (counts_iff .closed rfl (by decide)).mpr
      ((counts_iff .exhausted hpoint (by decide)).mp hcounts)
  · rename_i hpoint
    have hsum := (counts_iff .closed hpoint (by decide)).mp hcounts
    have hnone := hown.not_reserved fun hnot => hnot.1 hpoint
    split
    · refine h.put ha (.refl s.table) (own_of_not_reserved hnone (Or.inr rfl)) ?_
      rw [Acceptor.Counts, Acceptor.inHand, if_neg (by simp)]
      exact hsum
    · rename_i haccept
      rcases accept_cases haccept with
        ⟨rfl, rfl, rfl⟩ | ⟨n, hn, ⟨rfl, rfl, rfl⟩ | ⟨k, hfree, rfl, rfl, rfl⟩⟩
      · refine h.put ha (.refl s.table) (own_of_not_reserved hnone (Or.inr rfl)) ?_
        rw [Acceptor.Counts, Acceptor.inHand, if_neg (by simp)]
        exact hsum
      · refine h.put ha (.refl s.table) (own_of_not_reserved hnone (Or.inr rfl)) ?_
        rw [Acceptor.Counts, Acceptor.inHand, if_neg (by simp)]
        simp only
        omega
      · refine h.put ha (agree_give hfree (not_ofOthers i))
          (own_give hnone hfree (Acceptor.holding_of .accepted rfl (by decide)) rfl) ?_
        rw [Acceptor.Counts, Acceptor.inHand, if_pos ⟨rfl, rfl⟩]
        simp only
        omega
  · rename_i hpoint
    obtain ⟨hagree, hnone⟩ :=
      closeReserved_spec hown (Acceptor.holding_of .accepted hpoint (by decide))
    refine h.put ha hagree (own_of_not_reserved hnone (Or.inl fun hnot => hnot.2 rfl))
      ((counts_iff .reopening rfl (by decide)).mpr ?_)
    -- the client in hand is the one that is turned away
    rw [Acceptor.Counts, Acceptor.inHand] at hcounts
    simp only [hpoint, true_and] at hcounts
    simp only
    split at hcounts
    · rename_i hsome
      rw [if_pos hsome]
      omega
    · rename_i hnil
      rw [if_neg hnil]
      omega
  · rename_i hpoint
    have hsum := (counts_iff .reopening hpoint (by decide)).mp hcounts
    have hnone := hown.not_reserved fun hnot => hnot.2 hpoint
    split
    · exact h.put ha (.refl s.table) (own_of_not_reserved hnone (Or.inr rfl))
        ((counts_iff .idle rfl (by decide)).mpr hsum)
    · rename_i fd hfree
      exact h.put ha (agree_give hfree (not_ofOthers i))
        (own_give hnone hfree (Acceptor.holding_of .idle rfl (by decide)) rfl)
        ((counts_iff .idle rfl (by decide)).mpr hsum)

theorem Inv.create {fd : Nat} (h : s.Inv) (hfree : s.table.free? = some fd) :
    ({ table := s.table.give fd (.reserved s.acceptors.length)
       acceptors := s.acceptors ++ [⟨some fd, .idle, 0, 0, 0, 0, 0⟩] } :
      AcceptorGroup).Inv := by
  have hnew : s.acceptor? s.acceptors.length = none := List.getElem?_eq_none (Nat.le_refl _)
  have hagree : Agree (OfOthers s.acceptors.length) s.table
      (s.table.give fd (.reserved s.acceptors.length)) :=
    agree_give hfree (not_ofOthers _)
  have hcases {j : Nat} {c : Acceptor}
      (hj : (s.acceptors ++ [⟨some fd, .idle, 0, 0, 0, 0, 0⟩])[j]? = some c) :
      (j ≠ s.acceptors.length ∧ s.acceptor? j = some c) ∨
        (j = s.acceptors.length ∧ c = ⟨some fd, .idle, 0, 0, 0, 0, 0⟩) := by
    rcases Nat.lt_trichotomy j s.acceptors.length with hlt | heq | hgt
    · rw [List.getElem?_append_left hlt] at hj
      exact Or.inl ⟨Nat.ne_of_lt hlt, hj⟩
    · rw [heq, List.getElem?_concat_length] at hj
      exact Or.inr ⟨heq, (Option.some_inj.mp hj).symm⟩
    · rw [List.getElem?_eq_none (by rw [List.length_append]; exact hgt)] at hj
      cases hj
  constructor
  · intro j c hj
    rcases hcases hj with ⟨hne, hold⟩ | ⟨rfl, rfl⟩
    · exact (h.own j c hold).congr hagree ⟨j, hne, rfl⟩ Iff.rfl rfl
    · exact own_give (h.unborn _ hnew) hfree (Acceptor.holding_of .idle rfl (by decide)) rfl
  · intro j hj k howner
    have hgt : s.acceptors.length < j := by
      have hle := List.getElem?_eq_none_iff.mp hj
      rw [List.length_append, List.length_singleton] at hle
      exact hle
    refine h.unborn j (List.getElem?_eq_none (Nat.le_of_lt hgt)) k ?_
    exact (hagree k _ ⟨j, Nat.ne_of_gt hgt, rfl⟩).mp howner
  · intro j c hj
    rcases hcases hj with ⟨-, hold⟩ | ⟨-, rfl⟩
    · exact h.counts j c hold
    · exact (counts_iff .idle rfl (by decide)).mpr rfl

theorem Inv.connect (h : s.Inv) (i : Nat) : ((Op.connect i).exec s).Inv := by
  have hget {j : Nat} {c : Acceptor} (hj : ((Op.connect i).exec s).acceptor? j = some c) :
      ∃ d, s.acceptor? j = some d ∧ (c = d ∨
        c = { d with backlog := d.backlog + 1, came := d.came + 1 }) := by
    rw [acceptor?, Op.exec, List.getElem?_modify] at hj
    obtain ⟨d, hd, heq⟩ := Option.map_eq_some_iff.mp hj
    refine ⟨d, hd, ?_⟩
    by_cases hij : i = j
    · rw [if_pos hij] at heq
      exact Or.inr heq.symm
    · rw [if_neg hij] at heq
      exact Or.inl heq.symm
  constructor
  · intro j c hj
    obtain ⟨d, hd, rfl | rfl⟩ := hget hj
    · exact h.own j _ hd
    · exact h.own j d hd
  · intro j hj
    refine h.unborn j (List.getElem?_eq_none ?_)
    have hle := List.getElem?_eq_none_iff.mp hj
    rwa [Op.exec, List.length_modify] at hle
  · intro j c hj
    obtain ⟨d, hd, rfl | rfl⟩ := hget hj
    · exact h.counts j _ hd
    · have hcounts := h.counts j d hd
      rw [Acceptor.Counts] at hcounts ⊢
      simp only [Acceptor.inHand] at hcounts ⊢
      omega

/-- The step lemma. -/
theorem Inv.exec (h : s.Inv) (henabled : op.Enabled s) : (op.exec s).Inv := by
  cases op with
  | create =>
      rw [Op.exec]
      split
      · exact h
      · rename_i hfree
        exact h.create hfree
  | connect i => exact h.connect i
  | onPeerConnect i outcome =>
      obtain ⟨a, ha, hpoint⟩ := henabled
      rw [Op.exec, ha]
      exact h.onPeerConnect ha hpoint outcome
  | next i outcome =>
      obtain ⟨a, ha, -⟩ := henabled
      rw [Op.exec, ha]
      exact h.next ha outcome
  | openOther o =>
      rw [Op.exec]
      split
      · exact h
      · rename_i fd hfree
        refine h.aside (p := fun o => ∃ i, o = .reserved i) (agree_give hfree ?_)
          fun i => ⟨i, rfl⟩
        rintro ⟨i, rfl⟩
        rcases henabled with heq | heq <;> cases heq
  | closeOther fd =>
      refine h.aside (p := fun o => ∃ i, o = .reserved i) (agree_close fun o ho hp => ?_)
        fun i => ⟨i, rfl⟩
      obtain ⟨i, rfl⟩ := hp
      rcases henabled with heq | heq <;> cases ho.symm.trans heq

/-- Whatever other threads open and close between two system calls of an acceptor,
what it closes is its own, no descriptor of its own is ever forgotten, and every
client that came waits, was given a connection, was turned away, is about to be,
or has gone. -/
theorem own_always {limit : Nat} {ops : List Op}
    (hrun : acceptorMachine.Run (start limit) ops s) (ha : s.acceptor? i = some a) :
    (∀ fd, s.table.owner? fd = some (.reserved i) ↔ a.Holding ∧ a.reservedFd = some fd) ∧
      a.came = a.backlog + a.served + a.refused + a.gone + a.inHand := by
  have h : s.Inv := hrun.invariant (start_inv limit) fun _ _ h henabled => h.exec henabled
  exact ⟨h.own i a ha, h.counts i a ha⟩

/-- Another thread takes the descriptor that has just been closed. -/
theorem own_always_taken :
    let ops : List Op := [.openOther .other, .create, .openOther .connection, .connect 0,
      .onPeerConnect 0 .taken, .next 0 .taken, .openOther .other, .next 0 .taken]
    let s := ops.foldl acceptorMachine.next (start 3)
    ∃ a, s.acceptor? 0 = some a ∧ a.reservedFd = none ∧ a.backlog = 1 ∧
      ∀ fd, s.table.owner? fd = some (.reserved 0) ↔ a.Holding ∧ none = some fd := by
  intro ops s
  have hrun : acceptorMachine.Run (start 3) ops s :=
    Machine.run_iff.mpr ⟨by decide +kernel, rfl⟩
  exact ⟨_, rfl, rfl, rfl, (own_always hrun rfl).1⟩

section Kept

/-- While an acceptor is recovering, no other thread takes a descriptor. -/
def Undisturbed (s : AcceptorGroup) : Op → Prop
  | .create | .openOther _ | .onPeerConnect _ _ => ∀ a ∈ s.acceptors, ¬ a.Recovering
  | .next i _ => ∀ j < s.acceptors.length, j ≠ i → ∀ a ∈ s.acceptor? j, ¬ a.Recovering
  | .connect _ | .closeOther _ => True

instance (s : AcceptorGroup) : ∀ op : Op, Decidable (s.Undisturbed op)
  | .create | .openOther _ | .onPeerConnect _ _ =>
      inferInstanceAs (Decidable (∀ a ∈ s.acceptors, ¬ a.Recovering))
  | .next i _ => inferInstanceAs (Decidable
      (∀ j < s.acceptors.length, j ≠ i → ∀ a ∈ s.acceptor? j, ¬ a.Recovering))
  | .connect _ | .closeOther _ => inferInstanceAs (Decidable True)

instance (s : AcceptorGroup) (op : Op) :
    Decidable ((acceptorMachine.guard Undisturbed).enabled s op) :=
  inferInstanceAs (Decidable (op.Enabled s ∧ s.Undisturbed op))

/-- An acceptor has its reserve, or can get it back. -/
structure Kept (s : AcceptorGroup) : Prop where
  inv : s.Inv
  held : ∀ i a, s.acceptor? i = some a → ¬ a.Recovering → a.reservedFd.isSome = true
  free : ∀ i a, s.acceptor? i = some a → a.Recovering →
    (a.point = .accepted ∧ a.reservedFd.isSome = true) ∨ s.table.free?.isSome = true

theorem start_kept (limit : Nat) : (start limit).Kept where
  inv := start_inv limit
  held _ _ h := by cases h
  free _ _ h := by cases h

/-- A step of an acceptor while no other one is recovering. -/
theorem Kept.put (h : s.Kept) (ha : s.acceptor? i = some a)
    (hinv : ({ s with table := table }.put i b).Inv)
    (halone : ∀ j c, j ≠ i → s.acceptor? j = some c → ¬ c.Recovering)
    (hheld : ¬ b.Recovering → b.reservedFd.isSome = true)
    (hfree : b.Recovering → (b.point = .accepted ∧ b.reservedFd.isSome = true) ∨
      table.free?.isSome = true) : ({ s with table := table }.put i b).Kept := by
  have hget (j : Nat) : ({ s with table := table }.put i b).acceptor? j =
      if j = i then some b else s.acceptor? j := put_acceptor? ha
  refine ⟨hinv, fun j c hj => ?_, fun j c hj => ?_⟩
  · rw [hget] at hj
    split at hj
    · cases hj
      exact hheld
    · exact h.held j c hj
  · rw [hget] at hj
    split at hj
    · cases hj
      exact hfree
    · rename_i hne
      exact fun hrecovering => absurd hrecovering (halone j c hne hj)

theorem not_recovering_of (p : AcceptPoint) (hpoint : a.point = p)
    (hp : p = .idle ∨ p = .exhausted) : ¬ a.Recovering := by
  rintro ⟨hidle, hexhausted⟩
  rcases hp with rfl | rfl
  · exact hidle hpoint
  · exact hexhausted hpoint

theorem accept_same {o : FdOwner} {fd : Option Nat}
    (h : s.accept a o outcome = some (fd, table, b)) :
    b.reservedFd = a.reservedFd ∧ b.point = a.point ∧ (fd = none → table = s.table) := by
  rcases accept_cases h with
    ⟨-, rfl, rfl⟩ | ⟨n, -, ⟨-, rfl, rfl⟩ | ⟨k, -, rfl, rfl, rfl⟩⟩
  · exact ⟨rfl, rfl, fun _ => rfl⟩
  · exact ⟨rfl, rfl, fun _ => rfl⟩
  · exact ⟨rfl, rfl, nofun⟩

theorem Kept.onPeerConnect (h : s.Kept) (ha : s.acceptor? i = some a)
    (hpoint : a.point = .idle) (halone : ∀ c ∈ s.acceptors, ¬ c.Recovering)
    (outcome : AcceptOutcome) : (s.onPeerConnect i a outcome).Kept := by
  have hinv := h.inv.onPeerConnect ha hpoint outcome
  have hheld := h.held i a ha (not_recovering_of .idle hpoint (Or.inl rfl))
  have hothers (j : Nat) (c : Acceptor) (_ : j ≠ i) (hj : s.acceptor? j = some c) :
      ¬ c.Recovering := halone c (List.mem_of_getElem? hj)
  rw [AcceptorGroup.onPeerConnect] at hinv ⊢
  cases haccept : s.accept a .connection outcome with
  | none =>
      rw [haccept] at hinv
      exact h.put ha hinv hothers (fun _ => hheld)
        fun hrecovering => absurd rfl hrecovering.2
  | some result =>
      obtain ⟨fd, table, b⟩ := result
      obtain ⟨hfd, hsame, -⟩ := accept_same haccept
      rw [haccept] at hinv
      cases fd with
      | none =>
          exact h.put ha hinv hothers (fun _ => by rw [hfd]; exact hheld)
            fun hrecovering => absurd (hsame.trans hpoint) hrecovering.1
      | some fd =>
          refine h.put ha hinv hothers (fun _ => ?_)
            fun hrecovering => absurd (hsame.trans hpoint) hrecovering.1
          change b.reservedFd.isSome = true
          rw [hfd]
          exact hheld

theorem Kept.next (h : s.Kept) (ha : s.acceptor? i = some a)
    (halone : ∀ j c, j ≠ i → s.acceptor? j = some c → ¬ c.Recovering)
    (outcome : AcceptOutcome) : (s.next i a outcome).Kept := by
  have hinv := h.inv.next ha outcome
  have hown := h.inv.own i a ha
  -- what is closed here is free afterwards
  have hclose (hholding : a.Holding)
      (hfree : a.reservedFd.isSome = true ∨ s.table.free?.isSome = true) :
      (s.closeReserved a).free?.isSome = true := by
    rw [closeReserved]
    split
    · rename_i hnil
      rw [hnil] at hfree
      exact hfree.resolve_left nofun
    · rename_i fd hfd
      exact free?_close ((hown fd).mpr ⟨hholding, hfd⟩)
  have hrecover (hpoint : a.point ≠ .idle ∧ a.point ≠ .exhausted) := h.free i a ha hpoint
  rw [AcceptorGroup.next] at hinv ⊢
  cases hpoint : a.point with
  | idle => exact h
  | exhausted =>
      rw [hpoint] at hinv
      have hheld := h.held i a ha (not_recovering_of .exhausted hpoint (Or.inr rfl))
      exact h.put ha hinv halone (fun hnot => absurd ⟨nofun, nofun⟩ hnot) fun _ =>
        Or.inr (hclose (Acceptor.holding_of .exhausted hpoint (by decide)) (Or.inl hheld))
  | closed =>
      rw [hpoint] at hinv hrecover
      have hfree := (hrecover (by decide)).resolve_left fun hnot => nomatch hnot.1
      cases haccept : s.accept a (.reserved i) outcome with
      | none =>
          rw [accept, Option.map_eq_none_iff] at haccept
          rw [haccept] at hfree
          cases hfree
      | some result =>
          obtain ⟨fd, table, b⟩ := result
          rw [haccept] at hinv
          refine h.put ha hinv halone (fun hnot => absurd ⟨nofun, nofun⟩ hnot) fun _ => ?_
          cases fd with
          | none => exact Or.inr ((accept_same haccept).2.2 rfl ▸ hfree)
          | some fd => exact Or.inl ⟨rfl, rfl⟩
  | accepted =>
      rw [hpoint] at hinv hrecover
      refine h.put ha hinv halone (fun hnot => absurd ⟨nofun, nofun⟩ hnot) fun _ => Or.inr ?_
      exact hclose (Acceptor.holding_of .accepted hpoint (by decide))
        ((hrecover (by decide)).imp And.right id)
  | reopening =>
      rw [hpoint] at hinv hrecover
      have hfree := (hrecover (by decide)).resolve_left fun hnot => nomatch hnot.1
      obtain ⟨fd, hfd⟩ := Option.isSome_iff_exists.mp hfree
      simp only [hfd] at hinv ⊢
      exact h.put ha hinv halone (fun _ => rfl) fun hrecovering => absurd rfl hrecovering.1

theorem Kept.exec (h : s.Kept) (henabled : op.Enabled s) (halone : s.Undisturbed op) :
    (op.exec s).Kept := by
  have hinv := h.inv.exec henabled
  cases op with
  | create =>
      rw [Op.exec] at hinv ⊢
      split
      · exact h
      · rename_i fd hfree
        rw [hfree] at hinv
        have hall : ∀ (j : Nat) (c : Acceptor),
            (s.acceptors ++ [⟨some fd, .idle, 0, 0, 0, 0, 0⟩])[j]? = some c →
            ¬ c.Recovering ∧ c.reservedFd.isSome = true := by
          intro j c hj
          rcases List.mem_append.mp (List.mem_of_getElem? hj) with hmem | hmem
          · obtain ⟨k, hk⟩ := List.getElem?_of_mem hmem
            exact ⟨halone c hmem, h.held k c hk (halone c hmem)⟩
          · cases List.mem_singleton.mp hmem
            exact ⟨fun hrecovering => hrecovering.1 rfl, rfl⟩
        exact ⟨hinv, fun j c hj _ => (hall j c hj).2,
          fun j c hj hrecovering => absurd hrecovering (hall j c hj).1⟩
  | connect i =>
      have hget {j : Nat} {c : Acceptor}
          (hj : ((Op.connect i).exec s).acceptor? j = some c) :
          ∃ d, s.acceptor? j = some d ∧ c.reservedFd = d.reservedFd ∧ c.point = d.point := by
        rw [acceptor?, Op.exec, List.getElem?_modify] at hj
        obtain ⟨d, hd, heq⟩ := Option.map_eq_some_iff.mp hj
        refine ⟨d, hd, ?_⟩
        split at heq <;> cases heq <;> exact ⟨rfl, rfl⟩
      refine ⟨hinv, fun j c hj hnot => ?_, fun j c hj hrecovering => ?_⟩
      · obtain ⟨d, hd, hfd, hpoint⟩ := hget hj
        rw [Acceptor.Recovering, hpoint] at hnot
        rw [hfd]
        exact h.held j d hd hnot
      · obtain ⟨d, hd, hfd, hpoint⟩ := hget hj
        rw [Acceptor.Recovering, hpoint] at hrecovering
        rw [hfd, hpoint]
        exact h.free j d hd hrecovering
  | onPeerConnect i outcome =>
      obtain ⟨a, ha, hpoint⟩ := henabled
      rw [Op.exec, ha]
      exact h.onPeerConnect ha hpoint halone outcome
  | next i outcome =>
      obtain ⟨a, ha, -⟩ := henabled
      rw [Op.exec, ha]
      refine h.next ha (fun j c hne hj => ?_) outcome
      exact halone j (List.getElem?_eq_some_iff.mp hj).1 hne c hj
  | openOther o =>
      rw [Op.exec] at hinv ⊢
      split
      · exact h
      · rename_i fd hfree
        rw [hfree] at hinv
        exact ⟨hinv, h.held, fun j c hj hrecovering =>
          absurd hrecovering (halone c (List.mem_of_getElem? hj))⟩
  | closeOther fd =>
      exact ⟨hinv, h.held, fun j c hj hrecovering =>
        (h.free j c hj hrecovering).imp id (free?_close_mono fd)⟩

end Kept

section Event

/-- The five steps of an event that finds no descriptor. -/
def event (i : Nat) (outcome : AcceptOutcome) : List Op :=
  .onPeerConnect i outcome :: List.replicate 4 (.next i outcome)

/-- A step of the recovery, when only the table and the acceptor have changed. -/
theorem exec_next_put (ha : s.acceptor? i = some a) (b : Acceptor)
    (table : FdTable FdOwner) (outcome : AcceptOutcome) :
    (Op.next i outcome).exec ({ s with table := table }.put i b) =
      ({ s with table := table }.put i b).next i b outcome := by
  have hb : ({ s with table := table }.put i b).acceptor? i = some b :=
    (put_acceptor? ha).trans (if_pos rfl)
  rw [Op.exec, hb]

theorem put_table_put (s : AcceptorGroup) (i : Nat) (b c : Acceptor)
    (table table' : FdTable FdOwner) :
    ({ { s with table := table }.put i b with table := table' } : AcceptorGroup).put i c =
      { s with table := table' }.put i c := by
  simp only [put, List.set_set]

theorem put_table (s : AcceptorGroup) (i : Nat) (b : Acceptor) (table : FdTable FdOwner) :
    ({ s with table := table }.put i b : AcceptorGroup).table = table := rfl

/-- With a reserve, an event that finds no descriptor turns one client away and
leaves everything else as it was. -/
theorem event_refuses (h : s.Inv) (ha : s.acceptor? i = some a) (hpoint : a.point = .idle)
    {fd n : Nat} (hfd : a.reservedFd = some fd) (hfull : s.table.free? = none)
    (hbacklog : a.backlog = n + 1) :
    (event i .taken).foldl acceptorMachine.next s =
      s.put i { a with backlog := n, refused := a.refused + 1 } := by
  have howner := (h.own i a ha fd).mpr
    ⟨Acceptor.holding_of .idle hpoint (by decide), hfd⟩
  obtain ⟨hfree, hgive⟩ := free?_close_of_full hfull howner
  have hexhausted : (Op.onPeerConnect i .taken).exec s =
      { s with table := s.table }.put i { a with point := .exhausted } := by
    rw [Op.exec, ha]
    simp only [AcceptorGroup.onPeerConnect, accept, hfull, Option.map_none]
  have hclosed (b : Acceptor) (hb : b.reservedFd = some fd) (hp : b.point = .exhausted) :
      (Op.next i .taken).exec ({ s with table := s.table }.put i b) =
        { s with table := s.table.close fd }.put i { b with point := .closed } := by
    rw [exec_next_put ha, AcceptorGroup.next, hp]
    simp only [closeReserved, hb, put_table_put]
    rfl
  have haccepted (b : Acceptor) (hb : b.backlog = n + 1) (hp : b.point = .closed) :
      (Op.next i .taken).exec ({ s with table := s.table.close fd }.put i b) =
        { s with table := s.table }.put i
          { b with reservedFd := some fd, point := .accepted, backlog := n } := by
    have htaken : ({ s with table := s.table.close fd }.put i b).accept b
        (.reserved i) .taken = some (some fd, s.table, { b with backlog := n }) := by
      change (s.table.close fd).free?.map _ = _
      rw [hfree, Option.map_some, hb]
      simp only [put_table]
      rw [hgive]
    rw [exec_next_put ha, AcceptorGroup.next, hp]
    simp only [htaken, put_table_put]
  have hreopening (b : Acceptor) (hb : b.reservedFd = some fd) (hp : b.point = .accepted) :
      (Op.next i .taken).exec ({ s with table := s.table }.put i b) =
        { s with table := s.table.close fd }.put i
          { b with point := .reopening, refused := b.refused + 1 } := by
    rw [exec_next_put ha, AcceptorGroup.next, hp]
    simp only [closeReserved, hb, put_table_put, Option.isSome_some, if_true]
    rfl
  have hidle (b : Acceptor) (hp : b.point = .reopening) :
      (Op.next i .taken).exec ({ s with table := s.table.close fd }.put i b) =
        { s with table := s.table }.put i
          { b with reservedFd := some fd, point := .idle } := by
    rw [exec_next_put ha, AcceptorGroup.next, hp]
    simp only [put_table, hfree, hgive, put_table_put]
  change (Op.next i .taken).exec ((Op.next i .taken).exec ((Op.next i .taken).exec
    ((Op.next i .taken).exec ((Op.onPeerConnect i .taken).exec s)))) = _
  rw [hexhausted, hclosed { a with point := .exhausted } hfd rfl,
    haccepted { a with point := .closed } hbacklog rfl,
    hreopening { a with reservedFd := some fd, point := .accepted, backlog := n } rfl rfl,
    hidle ⟨some fd, .reopening, n, a.came, a.served, a.refused + 1, a.gone⟩ rfl]
  simp only [← hfd, ← hpoint]

/-- As long as no other thread takes a descriptor in the middle of a recovery,
every acceptor has its reserve between its events, and with it an event that finds
no descriptor turns one client away and leaves everything else as it was. -/
theorem reserve_kept {limit : Nat} {ops : List Op}
    (hrun : (acceptorMachine.guard Undisturbed).Run (start limit) ops s)
    (ha : s.acceptor? i = some a) (hpoint : a.point = .idle) :
    (∃ fd, a.reservedFd = some fd ∧ s.table.owner? fd = some (.reserved i)) ∧
      (s.table.free? = none → ∀ n, a.backlog = n + 1 →
        (event i .taken).foldl acceptorMachine.next s =
          s.put i { a with backlog := n, refused := a.refused + 1 }) := by
  have h : s.Kept := hrun.invariant (start_kept limit)
    fun _ _ h henabled => h.exec henabled.1 henabled.2
  obtain ⟨fd, hfd⟩ := Option.isSome_iff_exists.mp
    (h.held i a ha (not_recovering_of .idle hpoint (Or.inl rfl)))
  refine ⟨⟨fd, hfd, ?_⟩, fun hfull n hbacklog =>
    event_refuses h.inv ha hpoint hfd hfull hbacklog⟩
  exact (h.inv.own i a ha fd).mpr ⟨Acceptor.holding_of .idle hpoint (by decide), hfd⟩

/-- Two clients come when the table is full. -/
theorem reserve_kept_full :
    let ops : List Op := [.openOther .other, .create, .openOther .connection, .connect 0,
      .connect 0]
    let s := ops.foldl acceptorMachine.next (start 3)
    (event 0 .taken).foldl acceptorMachine.next s =
      s.put 0 ⟨some 1, .idle, 1, 2, 0, 1, 0⟩ := by
  intro ops s
  have hrun : (acceptorMachine.guard Undisturbed).Run (start 3) ops s :=
    Machine.run_iff.mpr ⟨by decide +kernel, rfl⟩
  exact (reserve_kept hrun (a := ⟨some 1, .idle, 2, 2, 0, 0, 0⟩) rfl rfl).2 rfl 1 rfl

end Event

end AcceptorGroup

end Jerry
