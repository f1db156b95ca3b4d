import BoltBet.Wallet.Atomic

/-!
# The audit trail, in the order of its timestamps

Ledger rows are written in the order in which their transactions get the wallet lock. `createdAt` is
the start of the transaction, before it asks for the lock, and `getTransactions` sorts by it.

* `CommitsSorted`: the rows of each user were committed in the order of their `createdAt`.
* `CommitsSorted.readsBack`, `commitsSorted_of_readsBack`: the trail reads back in all states of a
  run iff it ends with sorted commits.
* `audit_trail_iff`: that is, iff no transaction commits a row of a user after one that started
  later did.
-/

namespace BoltBet

open Async

/-- The rows are in the order of their `createdAt`, no two of which are equal. -/
def ByCreatedAt (rows : List WalletTransaction) : Prop :=
  rows.Pairwise fun tx tx' => tx.createdAt < tx'.createdAt

/-- **The audit trail of a user reads back**: in the order of `createdAt` each balance is the one
before it, moved by the row's own amount, and the newest is the balance of the wallet. -/
structure ReadsBack (db : WalletDb) (u : Uuid) : Prop where
  running : ∀ rows, rows.Perm (db.rowsOf u) → ByCreatedAt rows →
    Ledger.Running walletReading 0 rows
  newest : ∀ tx ∈ db.rowsOf u, (∀ tx' ∈ db.rowsOf u, tx' ≠ tx → tx'.createdAt < tx.createdAt) →
    tx.balanceAfterCents = db.balanceOf u

namespace WalletDb

/-- The rows of each user have distinct times. -/
def DistinctTimes (db : WalletDb) : Prop :=
  ∀ u, ((db.rowsOf u).map WalletTransaction.createdAt).Nodup

/-- The rows of each user were committed in the order of their `createdAt`. -/
def CommitsSorted (db : WalletDb) : Prop := ∀ u, ByCreatedAt (db.rowsOf u)

variable {db db' : WalletDb}

theorem CommitsSorted.distinctTimes (h : db.CommitsSorted) : db.DistinctTimes := by
  intro u
  rw [List.nodup_iff_pairwise_ne, List.pairwise_map]
  exact (h u).imp fun hlt => hlt.ne

/-- The last row of a user has recorded the balance. -/
theorem Ledger.after_last (h : db.Ledger) {u : Uuid} {rows : List WalletTransaction}
    {tx : WalletTransaction} (hrows : db.rowsOf u = rows ++ [tx]) :
    tx.balanceAfterCents = db.balanceOf u := by
  rw [h.after_eq hrows, h.balance_eq u, hrows]

/-- **Sorted commits read back.** -/
theorem CommitsSorted.readsBack (hsorted : db.CommitsSorted) (h : db.Ledger) (u : Uuid) :
    ReadsBack db u := by
  refine ⟨fun rows hperm hrows => ?_, fun tx htx hmax => ?_⟩
  · have heq : rows = db.rowsOf u := hperm.eq_of_pairwise
      (fun a b _ _ hab hba => absurd (hab.trans hba) (lt_irrefl _)) hrows (hsorted u)
    rw [heq]
    exact h.running u
  · -- nothing comes after the newest row
    obtain ⟨earlier, later, hrows⟩ := List.append_of_mem htx
    cases later with
    | nil => exact h.after_last hrows
    | cons tx' later =>
      have hpair := hsorted u
      unfold ByCreatedAt at hpair
      rw [hrows, List.pairwise_append] at hpair
      have hlt := (List.pairwise_cons.mp hpair.2.1).1 tx' List.mem_cons_self
      have hne : tx' ≠ tx := by
        rintro rfl
        exact lt_irrefl _ hlt
      have hlt' := hmax tx' (by rw [hrows]; simp) hne
      omega

section Append

variable {tx : WalletTransaction}
  (hrows : db'.walletTransactions = db.walletTransactions ++ [tx])
include hrows

/-- The rows of the user whose row was appended. -/
theorem rowsOf_append_self : db'.rowsOf tx.userId = db.rowsOf tx.userId ++ [tx] := by
  unfold rowsOf
  rw [hrows, List.filter_append, List.filter_cons_of_pos (by simp), List.filter_nil]

theorem rowsOf_append_ne {u : Uuid} (h : u ≠ tx.userId) : db'.rowsOf u = db.rowsOf u := by
  unfold rowsOf
  rw [hrows, List.filter_append, List.filter_cons_of_neg (by simpa using h.symm), List.filter_nil,
    List.append_nil]

/-- Sorted commits stay sorted when the appended row is the newest of its user. -/
theorem commitsSorted_append : db'.CommitsSorted ↔
    db.CommitsSorted ∧ ∀ tx' ∈ db.rowsOf tx.userId, tx'.createdAt < tx.createdAt := by
  have hself : ByCreatedAt (db'.rowsOf tx.userId) ↔ ByCreatedAt (db.rowsOf tx.userId) ∧
      ∀ tx' ∈ db.rowsOf tx.userId, tx'.createdAt < tx.createdAt := by
    unfold ByCreatedAt
    rw [rowsOf_append_self hrows, List.pairwise_append]
    simp
  constructor
  · intro h
    refine ⟨fun u => ?_, (hself.mp (h tx.userId)).2⟩
    by_cases hu : u = tx.userId
    · rw [hu]
      exact (hself.mp (h tx.userId)).1
    · rw [← rowsOf_append_ne hrows hu]
      exact h u
  · rintro ⟨h, hnewest⟩ u
    by_cases hu : u = tx.userId
    · rw [hu]
      exact hself.mpr ⟨h tx.userId, hnewest⟩
    · rw [rowsOf_append_ne hrows hu]
      exact h u

/-- **A row that is committed out of order does not read back.** -/
theorem commitsSorted_of_readsBack (hsorted : db.CommitsSorted) (h : db.Ledger) (h' : db'.Ledger)
    (hpos : 0 < tx.amountCents) (hdistinct : db'.DistinctTimes)
    (hreads : ReadsBack db' tx.userId) : db'.CommitsSorted := by
  refine (commitsSorted_append hrows).mpr ⟨hsorted, fun tx' htx' => ?_⟩
  by_contra hle
  have hself := rowsOf_append_self hrows
  -- the row that was the newest before is the newest still, and has the old balance
  obtain ⟨earlier, last, hlast⟩ : ∃ earlier last, db.rowsOf tx.userId = earlier ++ [last] := by
    rcases List.eq_nil_or_concat (db.rowsOf tx.userId) with hnil | ⟨l, a, hl⟩
    · exact absurd htx' (by simp [hnil])
    · exact ⟨l, a, by simpa using hl⟩
  have hpair := hsorted tx.userId
  unfold ByCreatedAt at hpair
  rw [hlast, List.pairwise_append] at hpair
  have hmax : ∀ a ∈ earlier, a.createdAt < last.createdAt :=
    fun a ha => hpair.2.2 a ha last (List.mem_singleton_self last)
  have hmem : last ∈ db'.rowsOf tx.userId := by
    rw [hself, hlast]
    simp
  have hafter : tx.createdAt < last.createdAt := by
    have hne : last.createdAt ≠ tx.createdAt := by
      have hnodup := hdistinct tx.userId
      rw [hself, hlast, List.map_append, List.nodup_append] at hnodup
      exact hnodup.2.2 _ (by simp) _ (by simp)
    have hle' : tx'.createdAt ≤ last.createdAt := by
      rw [hlast, List.mem_append, List.mem_singleton] at htx'
      rcases htx' with htx' | rfl
      · exact (hmax tx' htx').le
      · exact le_refl _
    omega
  have hnewest : ∀ a ∈ db'.rowsOf tx.userId, a ≠ last → a.createdAt < last.createdAt := by
    intro a ha hne
    rw [hself, hlast, List.mem_append, List.mem_append, List.mem_singleton,
      List.mem_singleton] at ha
    rcases ha with (ha | rfl) | rfl
    · exact hmax a ha
    · exact absurd rfl hne
    · exact hafter
  have hstill := hreads.newest last hmem hnewest
  have hold := Ledger.after_last h hlast
  have hmoved : db'.balanceOf tx.userId = db.balanceOf tx.userId + tx.delta := by
    rw [h'.total_eq, h.total_eq]
    show Ledger.total walletReading (db'.rowsOf tx.userId) =
      Ledger.total walletReading (db.rowsOf tx.userId) + tx.delta
    rw [hself, Ledger.total_append, Ledger.total_singleton]
    rfl
  have hdelta : tx.delta ≠ 0 := by
    unfold WalletTransaction.delta
    split <;> omega
  omega

end Append

/-- An operation appends at most one row, of a positive amount. -/
theorem Linear.rows (h : Linear db db') : db'.walletTransactions = db.walletTransactions ∨
    ∃ tx, 0 < tx.amountCents ∧ db'.walletTransactions = db.walletTransactions ++ [tx] := by
  rcases h with rfl | ⟨ch, o, a, ho, hx⟩
  · exact .inl rfl
  · rcases exec_rows hx with ⟨hrows, -⟩ | ⟨u, t, a, ref, d, tx, rfl, -, -, -, rfl, -, hrows⟩
    · exact .inl hrows
    · exact .inr ⟨tx, ho, hrows⟩

theorem rowsOf_grows (h : db.walletTransactions <+: db'.walletTransactions) (u : Uuid) :
    db.rowsOf u <+: db'.rowsOf u := h.filter _

theorem CommitsSorted.earlier (hsorted : db'.CommitsSorted)
    (h : db.walletTransactions <+: db'.walletTransactions) : db.CommitsSorted :=
  fun u => (hsorted u).sublist (rowsOf_grows h u).sublist

theorem DistinctTimes.of_nodup
    (h : (db.walletTransactions.map WalletTransaction.createdAt).Nodup) : db.DistinctTimes :=
  fun _ => h.sublist (List.filter_sublist.map _)

theorem DistinctTimes.earlier (hdistinct : db'.DistinctTimes)
    (h : db.walletTransactions <+: db'.walletTransactions) : db.DistinctTimes :=
  fun u => (hdistinct u).sublist ((rowsOf_grows h u).sublist.map _)

theorem rowsOf_congr (h : db'.walletTransactions = db.walletTransactions) (u : Uuid) :
    db'.rowsOf u = db.rowsOf u := by
  unfold rowsOf
  rw [h]

end WalletDb

/-! ## The statements -/

/-- The transaction that the step commits, where the commit takes effect. -/
def committing (c : Config walletSql) : Event walletSql → Option Session
  | .run i m =>
    match c.waiting i, m.choice? with
    | some (_, .commitTransaction), some _ => c.state.sessions i
    | _, _ => none
  | _ => none

/-- **A transaction that commits a row of a user started after all that have.** -/
def CommitsInOrder (c : Config walletSql) (e : Event walletSql) : Prop :=
  ∀ x ∈ committing c e, ∀ tx ∈ x.txs, ∀ tx' ∈ c.state.committed.rowsOf tx.userId,
    tx'.createdAt < x.startedAt

instance : ∀ c e, Decidable (CommitsInOrder c e) := fun c e =>
  inferInstanceAs (Decidable (∀ x ∈ committing c e, ∀ tx ∈ x.txs,
    ∀ tx' ∈ c.state.committed.rowsOf tx.userId, tx'.createdAt < x.startedAt))

theorem committing_session {c : Config walletSql} {e : Event walletSql} {x : Session}
    (h : committing c e = some x) : ∃ i, c.state.sessions i = some x := by
  unfold committing at h
  split at h
  · split at h
    · exact ⟨_, h⟩
    · exact absurd h (by simp)
  · exact absurd h (by simp)

namespace SqlState

/-- Only a commit appends rows. -/
theorem Effect.rows_eq {i : Nat} {s s' : SqlState} {o : SqlOp} (h : Effect i s o s')
    (hc : o ≠ .commitTransaction) :
    s'.committed.walletTransactions = s.committed.walletTransactions := by
  cases h with
  | commit x hx => exact absurd rfl hc
  | none | create | start | lock | insert | update | txInsert | rollback => rfl

/-- Uncommitted rows are created at the start of their transaction. -/
def Stamped (s : SqlState) : Prop :=
  ∀ j x, s.sessions j = some x → ∀ tx ∈ x.txs, tx.createdAt = x.startedAt

theorem Stamped.setSession {s : SqlState} (h : s.Stamped) {i : Nat} {x : Session}
    (hx : ∀ tx ∈ x.txs, tx.createdAt = x.startedAt) : (s.setSession i x).Stamped := by
  intro j y hy
  by_cases hj : j = i
  · subst hj
    obtain rfl := Option.some.inj ((setSession_self s j x).symm.trans hy)
    exact hx
  · exact h j y ((Function.update_of_ne hj _ _).symm.trans hy)

theorem Stamped.close {s : SqlState} (h : s.Stamped) (i : Nat) : (s.close i).Stamped := by
  intro j x hx
  by_cases hj : j = i
  · subst hj
    exact absurd hx (by simp [SqlState.close])
  · exact h j x ((Function.update_of_ne hj _ _).symm.trans hx)

theorem exec_stamped {i : Nat} {ch : WalletChoice} {o : SqlOp} {s s' : SqlState}
    {r : Except Err o.Res} (h : exec i ch o s = some (r, s')) (hs : s.Stamped) : s'.Stamped := by
  by_cases ho : ∃ d, o = .txInsert d
  · obtain ⟨d, rfl⟩ := ho
    rcases inSession_some h with h | ⟨x, hx, h⟩
    · exact (Prod.mk.inj h).2 ▸ hs
    · split at h
      · obtain ⟨-, rfl⟩ := Prod.mk.inj (Option.some.inj h)
        refine hs.setSession fun tx htx => ?_
        rcases List.mem_append.mp htx with htx | htx
        · exact hs i x hx tx htx
        · rw [List.mem_singleton.mp htx]
      · exact (Prod.mk.inj (Option.some.inj h)).2 ▸ hs
  · cases exec_effect h with
    | none | create | lock => exact hs
    | start => exact hs.setSession (by simp)
    | insert u x w hx hf => exact Stamped.setSession (s := s.lock i u) hs (hs i x hx)
    | update u x w hx hf => exact Stamped.setSession (s := s.lock i u) hs (hs i x hx)
    | txInsert d => exact absurd ⟨d, rfl⟩ ho
    | commit x hx => exact Stamped.close (s := s.publish x) hs i
    | rollback => exact hs.close i

end SqlState

/-- The rows of a transaction carry its start. -/
theorem walletSql_stamped {c : Config walletSql}
    (h : walletSql.Reachable (walletSql.init .empty) c) : c.state.Stamped := by
  refine h.follow (J := fun w : World walletSql => w.state.Stamped) ?_ ?_ ?_ ?_
  · exact fun j x hx => absurd hx (by simp [Machine.init, SqlState.empty])
  · intro call s s' l hs hst
    exact Option.some.inj hs ▸ hst
  · intro v s s' l hv hst
    exact Option.some.inj hv ▸ hst.close v
  · intro c c' i m call o r _ _ _ _ hx hst
    rcases hx.cases with ⟨ch, r₀, s, hs, -, hw⟩ | ⟨e, -, hw⟩
    · rw [hw]
      exact SqlState.exec_stamped hs hst
    · rw [hw]
      exact hst

/-- A commit appends the rows of its transaction, if it takes effect. -/
theorem commit_rows {i : Nat} {m : Mode WalletChoice Err} {r : Except Err Unit} {s s' : SqlState}
    {took : Bool} (h : walletSql.answer i m .commitTransaction s = some (r, s', took)) :
    s'.committed.walletTransactions = s.committed.walletTransactions ++
      ((m.choice?.bind fun _ => s.sessions i).map Session.txs).getD [] := by
  have hnone : ∀ ch, s.sessions i = none →
      SqlState.exec i ch .commitTransaction s = some (.error .ConnectionError, s) := by
    intro ch hx
    simp only [SqlState.exec, SqlState.inSession, hx]
  have hsome : ∀ ch x, s.sessions i = some x →
      SqlState.exec i ch .commitTransaction s = some (.ok (), (s.publish x).close i) := by
    intro ch x hx
    simp only [SqlState.exec, SqlState.inSession, hx]
  cases m with
  | fail e =>
    obtain ⟨-, rfl, -⟩ : _ ∧ s = s' ∧ _ := by simpa [Machine.answer] using h
    exact (List.append_nil _).symm
  | ok ch | lost ch e =>
    simp only [Machine.answer] at h
    cases hx : s.sessions i with
    | none =>
      rw [hnone ch hx] at h
      obtain ⟨-, rfl, -⟩ : _ ∧ s = s' ∧ _ := by simpa using h
      simp [Mode.choice?]
    | some x =>
      rw [hsome ch x hx] at h
      obtain ⟨-, rfl, -⟩ : _ ∧ (s.publish x).close i = s' ∧ _ := by simpa using h
      simp [Mode.choice?, SqlState.close, SqlState.publish]

/-- **The rows after a step**: those of the transaction it commits are appended. -/
theorem rows_step {c c' : Config walletSql} {e : Event walletSql}
    (hs : walletSql.step c e = some c') :
    c'.state.committed.walletTransactions = c.state.committed.walletTransactions ++
      ((committing c e).map Session.txs).getD [] := by
  rcases walletSql.step_cases hs with ⟨i, call, s, rfl, -, hst, rfl⟩ |
    ⟨i, m, call, o, k, -, -, rfl, hi, -, -⟩ | ⟨i, call, o, k, rfl, -, rfl⟩ |
    ⟨v, s, rfl, hv, rfl⟩
  · obtain rfl : c.state = s := Option.some.inj hst
    exact (List.append_nil _).symm
  · obtain ⟨r, w', ⟨m', s, b, hm, ha, rfl⟩, rfl⟩ := walletSql.step_run hs hi
    rw [hm] at ha
    have hwait : c.waiting i = some (call, o) := Config.Waits.waiting ⟨k, hi⟩
    by_cases ho : o = .commitTransaction
    · subst ho
      have hcommit : committing c (.run i m) = m.choice?.bind fun _ => c.state.sessions i := by
        simp only [committing, hwait]
        cases m.choice? <;> rfl
      rw [hcommit]
      exact commit_rows ha
    · have hnone : committing c (.run i m) = none := by
        simp only [committing, hwait]
        split
        · rename_i heq _
          exact absurd (Prod.mk.inj (Option.some.inj heq)).2 ho
        · rfl
      rw [hnone]
      refine Eq.trans ?_ (List.append_nil _).symm
      rcases walletSql.answer_cases ha with ⟨ch, r₀, hx, -, -⟩ | ⟨e, -, rfl, -⟩
      · exact (SqlState.exec_effect hx).rows_eq ho
      · rfl
  · exact (List.append_nil _).symm
  · obtain rfl : c.state.close v = s := Option.some.inj hv
    exact (List.append_nil _).symm

/-! ## Every run -/

section Step

variable {c c' : Config walletSql} {e : Event walletSql}

/-- **A step keeps the commits sorted iff it commits in order.** -/
theorem commitsSorted_step (h : walletSql.Reachable (walletSql.init .empty) c)
    (hsorted : c.state.committed.CommitsSorted) (hs : walletSql.step c e = some c') :
    c'.state.committed.CommitsSorted ↔ CommitsInOrder c e := by
  have hrows := rows_step hs
  rcases (walletSql_linear h hs).rows with hsame | ⟨tx, -, happend⟩
  · -- nothing is committed
    have hnone : ((committing c e).map Session.txs).getD [] = [] :=
      List.append_right_eq_self.mp (hrows.symm.trans hsame)
    have hsorted' : c'.state.committed.CommitsSorted := by
      intro u
      rw [WalletDb.rowsOf_congr hsame]
      exact hsorted u
    refine iff_of_true hsorted' fun x hx tx htx => ?_
    rw [Option.mem_def.mp hx] at hnone
    exact absurd htx (by simp [show x.txs = [] from hnone])
  · have hnew : ((committing c e).map Session.txs).getD [] = [tx] :=
      List.append_cancel_left (hrows.symm.trans happend)
    cases hx : committing c e with
    | none => exact absurd hnew (by simp [hx])
    | some x =>
      obtain ⟨j, hj⟩ := committing_session hx
      have htxs : x.txs = [tx] := by simpa [hx] using hnew
      have hstamp := walletSql_stamped h j x hj tx (by simp [htxs])
      rw [WalletDb.commitsSorted_append happend]
      unfold CommitsInOrder
      simp only [hx, Option.mem_some_iff, forall_eq', htxs, List.mem_singleton, forall_eq, ← hstamp]
      exact and_iff_right hsorted

/-- Rows stay where they are. -/
theorem rows_grow (hs : walletSql.step c e = some c') :
    c.state.committed.walletTransactions <+: c'.state.committed.walletTransactions := by
  rw [rows_step hs]
  exact List.prefix_append ..

theorem rows_grow_reach (h : walletSql.Reachable c c') :
    c.state.committed.walletTransactions <+: c'.state.committed.walletTransactions := by
  induction h with
  | init => exact List.prefix_rfl
  | step e _ _ hs ih => exact ih.trans (rows_grow hs)

/-- The trail reads back in all states of the run. -/
def AlwaysReadsBack (c : Config walletSql) : Prop :=
  ∀ s ∈ c.history, ∀ u, ReadsBack s.committed u

/-- What the trail did, it did earlier. -/
theorem AlwaysReadsBack.before (h : AlwaysReadsBack c') (hs : walletSql.step c e = some c') :
    AlwaysReadsBack c := by
  have hlast : ∀ {s s' : SqlState} {l : List SqlState}, s.committed = s'.committed →
      (∀ s₁ ∈ s' :: l, ∀ u, ReadsBack s₁.committed u) →
      ∀ s₁ ∈ s :: l, ∀ u, ReadsBack s₁.committed u := by
    intro s s' l hsame hall s₁ hs₁ u
    rcases List.mem_cons.mp hs₁ with rfl | hs₁
    · rw [hsame]
      exact hall s' List.mem_cons_self u
    · exact hall s₁ (List.mem_cons_of_mem _ hs₁) u
  rcases walletSql.step_cases hs with ⟨i, call, s, rfl, -, hst, rfl⟩ |
    ⟨i, m, call, o, k, r, w', rfl, -, ⟨m', s, b, -, rfl⟩, rfl⟩ | ⟨i, call, o, k, rfl, -, rfl⟩ |
    ⟨v, s, rfl, hv, rfl⟩
  · exact hlast (congrArg SqlState.committed (Option.some.inj hst)) h
  · exact fun s₁ hs₁ => h s₁ (List.mem_cons_of_mem _ hs₁)
  · exact h
  · obtain rfl : c.state.close v = s := Option.some.inj hv
    exact hlast (show c.state.committed = (c.state.close v).committed from rfl) h

end Step

/-- **The trail reads back in all states of a run iff it ends with sorted commits.** -/
theorem always_readsBack_iff {c : Config walletSql}
    (h : walletSql.Reachable (walletSql.init .empty) c)
    (hdistinct : c.state.committed.DistinctTimes) :
    AlwaysReadsBack c ↔ c.state.committed.CommitsSorted := by
  have hledger : ∀ {c}, walletSql.Reachable (walletSql.init .empty) c → c.state.committed.Ledger :=
    fun h => (walletRules_sound.reach ⟨WalletDb.ledger_empty, SqlState.empty_locked⟩ h).1.1
  constructor
  · -- the first row that is out of order does not read back
    intro hall
    induction h with
    | init => exact fun u => List.Pairwise.nil
    | step e hc _ hs ih =>
      have hsorted := ih (hdistinct.earlier (rows_grow hs)) (hall.before hs)
      rcases (walletSql_linear hc hs).rows with hsame | ⟨tx, hpos, happend⟩
      · intro u
        rw [WalletDb.rowsOf_congr hsame]
        exact hsorted u
      · exact WalletDb.commitsSorted_of_readsBack happend hsorted (hledger hc)
          (hledger (hc.step e trivial hs)) hpos hdistinct (hall _ List.mem_cons_self _)
  · intro hsorted s hs u
    rcases List.mem_cons.mp hs with rfl | hs
    · exact hsorted.readsBack (hledger h) u
    · obtain ⟨x, hx, rfl⟩ := List.mem_map.mp hs
      obtain ⟨c₁, hc₁, -, hstate, hlater⟩ := walletSql.waited_of_trace h hx
      rw [← hstate]
      exact (hsorted.earlier (rows_grow_reach hlater)).readsBack (hledger hc₁) u

/-- **When the audit trail reads back in order**: rows of a user have distinct times, and each
transaction that commits one started after all that have. -/
theorem audit_trail_iff {c : Config walletSql} {es : List (Event walletSql)}
    (hr : walletSql.replay (walletSql.init .empty) es = some c)
    (hdistinct : c.state.committed.DistinctTimes) :
    AlwaysReadsBack c ↔ walletSql.Meets CommitsInOrder (walletSql.init .empty) es := by
  rw [always_readsBack_iff (.of_replay .init hr) hdistinct]
  exact Machine.iff_meets (P := fun c : Config walletSql => c.state.committed.CommitsSorted)
    (fun h hsorted hs => commitsSorted_step h hsorted hs)
    (fun hs hsorted => hsorted.earlier (rows_grow hs)) .init (fun u => List.Pairwise.nil) hr

/-- Two deposits of user 7, who has a wallet; `first` is the first to get its lock. Transaction 1
starts at time 10, transaction 2 at time 20. -/
def twoDeposits (first second : Nat) : List (Event walletSql) :=
  [.spawn 0 (.getBalance 7), .run 0 (.ok {}), .run 0 (.ok { freshWallet := 70 }),
   .spawn 1 (.deposit 7 ⟨650, 1, by decide, by decide⟩),
   .spawn 2 (.deposit 7 ⟨250, 2, by decide, by decide⟩),
   .run 1 (.ok {}), .run 2 (.ok {}), .run 1 (.ok { now := 10 }), .run 2 (.ok { now := 20 })] ++
  List.replicate 4 (.run first (.ok {})) ++ List.replicate 4 (.run second (.ok {}))

/-- In the order of their starts they read back. -/
theorem audit_trail_in_order : ∃ c,
    walletSql.replay (walletSql.init .empty) (twoDeposits 1 2) = some c ∧
    c.state.committed.balanceOf 7 = 900 ∧ AlwaysReadsBack c := by
  obtain ⟨c, hr, hbalance, htimes⟩ : ∃ c,
      walletSql.replay (walletSql.init .empty) (twoDeposits 1 2) = some c ∧
      c.state.committed.balanceOf 7 = 900 ∧
      c.state.committed.walletTransactions.map WalletTransaction.createdAt = [10, 20] :=
    ⟨_, rfl, rfl, rfl⟩
  have hmeets : walletSql.Meets CommitsInOrder (walletSql.init .empty) (twoDeposits 1 2) := by
    decide
  exact ⟨c, hr, hbalance, (audit_trail_iff hr (.of_nodup (htimes ▸ by decide))).mpr hmeets⟩

/-- The other way round: the newest row says 250 cents, the wallet holds 900. -/
theorem audit_trail_out_of_order : ∃ c,
    walletSql.replay (walletSql.init .empty) (twoDeposits 2 1) = some c ∧
    c.state.committed.DistinctTimes ∧ ¬ AlwaysReadsBack c := by
  obtain ⟨c, hr, htimes, hrows⟩ : ∃ c,
      walletSql.replay (walletSql.init .empty) (twoDeposits 2 1) = some c ∧
      c.state.committed.walletTransactions.map WalletTransaction.createdAt = [20, 10] ∧
      (c.state.committed.rowsOf 7).map WalletTransaction.createdAt = [20, 10] :=
    ⟨_, rfl, rfl, rfl⟩
  have hdistinct : c.state.committed.DistinctTimes := .of_nodup (htimes ▸ by decide)
  refine ⟨c, hr, hdistinct, fun hall => ?_⟩
  have hsorted := (always_readsBack_iff (.of_replay .init hr) hdistinct).mp hall 7
  have hpair : ((c.state.committed.rowsOf 7).map WalletTransaction.createdAt).Pairwise (· < ·) :=
    List.pairwise_map.mpr hsorted
  rw [hrows] at hpair
  exact absurd hpair (by decide)

end BoltBet
