import BoltBet.Async.Rely
import BoltBet.Wallet.Statements

/-!
# Row locks: what a statement does to other transactions

`Effect` says once what a statement can do to the database (`exec_effect`). From it:

* `Locked`: every uncommitted wallet row is covered by a lock of its own transaction;
* `Effect.keeps`: a statement of one connection keeps the open transactions of the others, their
  locks, and the committed rows under those locks (`Keeps`).
-/

namespace BoltBet

open Async

namespace SqlState

/-! ## What a statement can do -/

/-- **The effects of a statement** of connection `i`. -/
inductive Effect (i : Nat) (s : SqlState) : SqlOp → SqlState → Prop
  | none (o : SqlOp) : Effect i s o s
  | create (u id : Uuid) (hw : s.committed.wallets u = none) (hl : s.locks u = none) :
      Effect i s (.query (.walletCreate u))
        { s with committed := s.committed.setWallet u ⟨id, 0⟩ }
  | start (t : Nat) : Effect i s .startTransaction (s.setSession i ⟨t, fun _ => .none, []⟩)
  | lock (u : Uuid) (hf : s.Free i u) : Effect i s (.walletSelectForUpdate u) (s.lock i u)
  | insert (u : Uuid) (x : Session) (w : Wallet) (hx : s.sessions i = some x)
      (hf : s.Free i u) : Effect i s (.walletInsert u) (s.writeWallet i x u w)
  | update (u : Uuid) (x : Session) (w : Wallet) (hx : s.sessions i = some x)
      (hf : s.Free i u) : Effect i s (.walletUpdate u w) (s.writeWallet i x u w)
  | txInsert (d : TransactionDraft) (x : Session) (tx : WalletTransaction)
      (hx : s.sessions i = some x) :
      Effect i s (.txInsert d) (s.setSession i { x with txs := x.txs ++ [tx] })
  | commit (x : Session) (hx : s.sessions i = some x) :
      Effect i s .commitTransaction ((s.publish x).close i)
  | rollback : Effect i s .rollbackTransaction (s.close i)

theorem inSession_some {α : Type} {s : SqlState} {i : Nat}
    {f : Session → Option (Except Err α × SqlState)} {y : Except Err α × SqlState}
    (h : s.inSession i f = some y) :
    y = (.error .ConnectionError, s) ∨ ∃ x, s.sessions i = some x ∧ f x = some y := by
  unfold inSession at h
  split at h
  · exact .inl (Option.some.inj h).symm
  · rename_i x hx
    exact .inr ⟨x, hx, h⟩

/-- In the open transaction of `i`, an answered statement ran there. -/
theorem inSession_ok {α : Type} {s s' : SqlState} {i : Nat} {a : α}
    {f : Session → Option (Except Err α × SqlState)} (h : s.inSession i f = some (.ok a, s')) :
    ∃ x, s.sessions i = some x ∧ f x = some (.ok a, s') := by
  rcases inSession_some h with h | h
  · exact absurd (congrArg Prod.fst h) (by simp)
  · exact h

/-- A statement of a transaction has the effect it has in the open one. -/
theorem inSession_effect {α : Type} {i : Nat} {o : SqlOp} {s s' : SqlState} {r : Except Err α}
    {f : Session → Option (Except Err α × SqlState)} (h : s.inSession i f = some (r, s'))
    (hf : ∀ x, s.sessions i = some x → f x = some (r, s') → Effect i s o s') :
    Effect i s o s' := by
  rcases inSession_some h with h | ⟨x, hx, h⟩
  · exact (Prod.mk.inj h).2 ▸ .none _
  · exact hf x hx h

theorem exec_effect {i : Nat} {ch : WalletChoice} {o : SqlOp} {s s' : SqlState}
    {r : Except Err o.Res} (h : exec i ch o s = some (r, s')) : Effect i s o s' := by
  cases o with
  | query q =>
    simp only [exec] at h
    split at h
    · exact absurd h (by simp)
    · rename_i hw
      obtain ⟨-, rfl⟩ := Prod.mk.inj (Option.some.inj h)
      cases q with
      | txFindOne u ref t => exact .none _
      | walletReplicaFindOne u => exact .none _
      | walletCreate u =>
        simp only [WalletDb.execQuery]
        split
        · exact .none _
        · rename_i hn
          exact .create u _ hn (by_contra fun hl => hw ⟨hn, hl⟩)
  | startTransaction =>
    obtain ⟨-, rfl⟩ := Prod.mk.inj (Option.some.inj h)
    exact .start _
  | walletSelectForUpdate u =>
    refine inSession_effect h fun x hx h => ?_
    split at h
    · exact (Prod.mk.inj (Option.some.inj h)).2 ▸ .none _
    · obtain ⟨hf, h⟩ := Option.ite_none_right_eq_some.mp h
      exact (Prod.mk.inj (Option.some.inj h)).2 ▸ .lock u hf
  | walletInsert u =>
    refine inSession_effect h fun x hx h => ?_
    split at h
    · exact (Prod.mk.inj (Option.some.inj h)).2 ▸ .none _
    · obtain ⟨hf, h⟩ := Option.ite_none_right_eq_some.mp h
      exact (Prod.mk.inj (Option.some.inj h)).2 ▸ .insert u x _ hx hf
  | walletUpdate u w =>
    refine inSession_effect h fun x hx h => ?_
    split at h
    · exact (Prod.mk.inj (Option.some.inj h)).2 ▸ .none _
    · obtain ⟨hf, h⟩ := Option.ite_none_right_eq_some.mp h
      split_ifs at h
      · exact (Prod.mk.inj (Option.some.inj h)).2 ▸ .update u x w hx hf
      · exact (Prod.mk.inj (Option.some.inj h)).2 ▸ .none _
      · exact (Prod.mk.inj (Option.some.inj h)).2 ▸ .none _
  | txInsert d =>
    refine inSession_effect h fun x hx h => ?_
    split at h
    · exact (Prod.mk.inj (Option.some.inj h)).2 ▸ .txInsert d x _ hx
    · exact (Prod.mk.inj (Option.some.inj h)).2 ▸ .none _
  | commitTransaction =>
    exact inSession_effect h fun x hx h => (Prod.mk.inj (Option.some.inj h)).2 ▸ .commit x hx
  | rollbackTransaction =>
    exact inSession_effect h fun x hx h => (Prod.mk.inj (Option.some.inj h)).2 ▸ .rollback

/-! ## Locks cover uncommitted rows -/

/-- Every uncommitted wallet row is covered by a lock of its own transaction. -/
def Locked (s : SqlState) : Prop :=
  ∀ j x, s.sessions j = some x → ∀ u w, x.wallets u = some w → s.locks u = some j

theorem lock_self (s : SqlState) (i : Nat) (u : Uuid) : (s.lock i u).locks u = some i := by
  simp [lock]

/-- Locking a free row takes no lock from anybody. -/
theorem lock_of_holds {s : SqlState} {i j : Nat} {u v : Uuid} (hf : s.Free i u)
    (h : s.locks v = some j) : (s.lock i u).locks v = some j := by
  unfold lock
  by_cases hv : v = u
  · subst hv
    rcases hf with hf | hf
    · exact absurd (h.symm.trans hf) (by simp)
    · rw [show i = j from Option.some.inj (hf.symm.trans h)]
      exact Function.update_self ..
  · exact (Function.update_of_ne hv ..).trans h

theorem Locked.lock {s : SqlState} (h : s.Locked) {i : Nat} {u : Uuid} (hf : s.Free i u) :
    (s.lock i u).Locked :=
  fun j x hx v w hw => lock_of_holds hf (h j x hx v w hw)

theorem Locked.setSession {s : SqlState} (h : s.Locked) {i : Nat} {x : Session}
    (hw : ∀ u w, x.wallets u = some w → s.locks u = some i) : (s.setSession i x).Locked := by
  intro j y hy u w hyw
  by_cases hj : j = i
  · subst hj
    obtain rfl : x = y := by simpa [SqlState.setSession] using hy
    exact hw u w hyw
  · exact h j y ((Function.update_of_ne hj _ _).symm.trans hy) u w hyw

theorem Locked.writeWallet {s : SqlState} (h : s.Locked) {i : Nat} {x : Session} {u : Uuid}
    {w : Wallet} (hx : s.sessions i = some x) (hf : s.Free i u) :
    (s.writeWallet i x u w).Locked := by
  refine (h.lock hf).setSession fun v w' hv => ?_
  by_cases huv : v = u
  · subst huv
    exact lock_self s i v
  · simp only [Function.update_of_ne huv] at hv
    exact lock_of_holds hf (h i x hx v w' hv)

/-- Closing the transaction of `i` keeps the locks of the others. -/
theorem close_locks {s : SqlState} {i j : Nat} {u : Uuid} (hj : j ≠ i)
    (h : s.locks u = some j) : (s.close i).locks u = some j := by
  have hne : ¬ some j = some i := fun e => hj (Option.some.inj e)
  simp [SqlState.close, h, hne]

theorem Locked.close {s : SqlState} (h : s.Locked) (i : Nat) : (s.close i).Locked := by
  intro j x hx u w hw
  by_cases hj : j = i
  · subst hj
    exact absurd hx (by simp [SqlState.close])
  · exact close_locks hj (h j x ((Function.update_of_ne hj _ _).symm.trans hx) u w hw)

/-- **A statement leaves every uncommitted row under its lock.** -/
theorem Effect.locked {i : Nat} {s s' : SqlState} {o : SqlOp} (h : Effect i s o s')
    (hL : s.Locked) : s'.Locked := by
  cases h with
  | none => exact hL
  | create u id hw hl => exact hL
  | start t => exact hL.setSession fun _ _ hw => absurd hw (by simp)
  | lock u hf => exact hL.lock hf
  | insert u x w hx hf => exact hL.writeWallet hx hf
  | update u x w hx hf => exact hL.writeWallet hx hf
  | txInsert d x tx hx => exact hL.setSession (hL i x hx)
  | commit x hx => exact Locked.close (s := s.publish x) hL i
  | rollback => exact hL.close i

/-! ## What the other transactions keep -/

/-- From `s` to `s'` the transaction of `i` stayed as it was or was aborted, and while it is open
its locks held, and so did the committed rows under them. -/
structure Keeps (i : Nat) (s s' : SqlState) : Prop where
  session : s'.sessions i = s.sessions i ∨ s'.sessions i = none
  rows : ∀ x, s'.sessions i = some x → ∀ u, s.locks u = some i →
    s'.locks u = some i ∧ s'.committed.wallets u = s.committed.wallets u

theorem Keeps.refl (i : Nat) (s : SqlState) : Keeps i s s :=
  ⟨.inl rfl, fun _ _ _ hu => ⟨hu, rfl⟩⟩

theorem Keeps.trans {i : Nat} {s s₁ s₂ : SqlState} (h : Keeps i s s₁) (h' : Keeps i s₁ s₂) :
    Keeps i s s₂ := by
  have hopen : ∀ x, s₂.sessions i = some x → s₁.sessions i = some x := by
    intro x hx
    rcases h'.session with e | e
    · exact e ▸ hx
    · exact absurd (e.symm.trans hx) (by simp)
  refine ⟨?_, fun x hx u hu => ?_⟩
  · rcases h'.session with e | e
    · exact e ▸ h.session
    · exact .inr e
  · obtain ⟨hl, hw⟩ := h.rows x (hopen x hx) u hu
    obtain ⟨hl', hw'⟩ := h'.rows x hx u hl
    exact ⟨hl', hw'.trans hw⟩

/-- Aborting transactions keeps every other one. -/
theorem close_keeps (s : SqlState) (i j : Nat) : Keeps j s (s.close i) := by
  by_cases hj : j = i
  · subst hj
    exact ⟨.inr (by simp [SqlState.close]), fun x hx =>
      absurd hx (by simp [SqlState.close])⟩
  · exact ⟨.inl (Function.update_of_ne hj ..), fun _ _ _ hu => ⟨close_locks hj hu, rfl⟩⟩

/-- **A statement of `i` keeps every other transaction.** -/
theorem Effect.keeps {i j : Nat} {s s' : SqlState} {o : SqlOp} (h : Effect i s o s')
    (hL : s.Locked) (hj : j ≠ i) : Keeps j s s' := by
  cases h with
  | none => exact .refl j s
  | create u id hw hl =>
    refine ⟨.inl rfl, fun _ _ v hv => ⟨hv, ?_⟩⟩
    have hvu : v ≠ u := by
      rintro rfl
      exact absurd (hv.symm.trans hl) (by simp)
    exact Function.update_of_ne hvu ..
  | start t => exact ⟨.inl (Function.update_of_ne hj ..), fun _ _ _ hu => ⟨hu, rfl⟩⟩
  | lock u hf => exact ⟨.inl rfl, fun _ _ _ hv => ⟨lock_of_holds hf hv, rfl⟩⟩
  | insert u x w hx hf =>
    exact ⟨.inl (Function.update_of_ne hj ..), fun _ _ _ hv => ⟨lock_of_holds hf hv, rfl⟩⟩
  | update u x w hx hf =>
    exact ⟨.inl (Function.update_of_ne hj ..), fun _ _ _ hv => ⟨lock_of_holds hf hv, rfl⟩⟩
  | txInsert d x tx hx =>
    exact ⟨.inl (Function.update_of_ne hj ..), fun _ _ _ hv => ⟨hv, rfl⟩⟩
  | commit x hx =>
    refine ⟨.inl (Function.update_of_ne hj ..), fun _ _ v hv => ⟨close_locks hj hv, ?_⟩⟩
    -- the rows the commit publishes are locked by `i`, so `v` is none of them
    have hxv : x.wallets v = .none := by
      cases hw : x.wallets v with
      | none => rfl
      | some w => exact absurd (Option.some.inj (hv.symm.trans (hL i x hx v w hw))) hj
    simp [SqlState.close, publish, visible, hxv]
  | rollback => exact close_keeps s i j

end SqlState

end BoltBet
