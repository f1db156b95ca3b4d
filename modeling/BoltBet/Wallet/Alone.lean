import BoltBet.Async.Alone
import BoltBet.Wallet.Ledger
import BoltBet.Wallet.Locking

/-!
# `applyTransaction` in the only open session

When no other session is open, nothing waits, and `applyTransaction` does in one piece what
`WalletDb.applyAtomic` does. Stopped anywhere before its `COMMIT`, it has done nothing that the
loss of its connection does not undo.

* `InTransaction`: what the session of the transaction has written so far, over which tables.
* `applyTransaction_alone`: the transaction as a whole, by the statements one after the other.
-/

namespace BoltBet

open Async

/-- The operation is not made to fail. -/
def IsOk {χ : Type} (m : Mode χ Err) : Prop := ∃ ch, m = .ok ch

namespace SqlState

/-- Only connection `i` may have a session and hold locks. -/
structure Owned (i : Nat) (s : SqlState) : Prop where
  sessions : ∀ j, j ≠ i → s.sessions j = none
  locks : ∀ u j, s.locks u = some j → j = i

/-- There is no session and no lock. -/
structure Idle (s : SqlState) : Prop where
  sessions : ∀ j, s.sessions j = none
  locks : ∀ u, s.locks u = none

/-- Connection `i` has the only session `x`, over the committed tables `db`. -/
structure InTransaction (i : Nat) (db : WalletDb) (x : Session) (s : SqlState) : Prop
    extends Owned i s where
  committed : s.committed = db
  session : s.sessions i = some x

variable {i : Nat} {s : SqlState} {db : WalletDb} {x : Session} {u : Uuid}

theorem Idle.owned (h : s.Idle) (i : Nat) : s.Owned i :=
  ⟨fun j _ => h.sessions j, fun u j hj => absurd ((h.locks u).symm.trans hj) (by simp)⟩

theorem Owned.free (h : s.Owned i) (u : Uuid) : s.Free i u := by
  cases hl : s.locks u with
  | none => exact .inl hl
  | some j => exact .inr (by rw [hl, h.locks u j hl])

theorem Owned.lock (h : s.Owned i) (u : Uuid) : (s.lock i u).Owned i := by
  refine ⟨h.sessions, fun v j hj => ?_⟩
  by_cases hv : v = u
  · subst hv
    exact (Option.some.inj ((lock_self s i v).symm.trans hj)).symm
  · exact h.locks v j ((Function.update_of_ne hv _ _).symm.trans hj)

theorem Owned.setSession (h : s.Owned i) (x : Session) : (s.setSession i x).Owned i :=
  ⟨fun j hj => (Function.update_of_ne hj _ _).trans (h.sessions j hj), h.locks⟩

/-- A lost connection leaves nothing behind. -/
theorem Owned.close (h : s.Owned i) : (s.close i).Idle := by
  refine ⟨fun j => ?_, fun u => ?_⟩
  · by_cases hj : j = i
    · subst hj
      exact Function.update_self ..
    · exact (Function.update_of_ne hj _ _).trans (h.sessions j hj)
  · simp only [SqlState.close]
    split
    · rfl
    · rename_i hne
      rcases h.free u with hl | hl
      · exact hl
      · exact absurd hl hne

/-! ## The statements -/

namespace InTransaction

variable (h : InTransaction i db x s)
include h

theorem visible (u : Uuid) : s.visible x u = (x.wallets u <|> db.wallets u) := by
  unfold SqlState.visible
  rw [h.committed]

theorem lock (u : Uuid) : InTransaction i db x (s.lock i u) :=
  ⟨h.toOwned.lock u, h.committed, h.session⟩

theorem write (u : Uuid) (w : Wallet) :
    InTransaction i db { x with wallets := Function.update x.wallets u (some w) }
      (s.writeWallet i x u w) :=
  ⟨(h.toOwned.lock u).setSession _, h.committed, Function.update_self ..⟩

theorem select (ch : WalletChoice) (u : Uuid) :
    ∃ s', exec i ch (.walletSelectForUpdate u) s =
      some (.ok (x.wallets u <|> db.wallets u), s') ∧ InTransaction i db x s' := by
  simp only [exec, inSession, h.session, h.visible]
  cases x.wallets u <|> db.wallets u with
  | none => exact ⟨s, rfl, h⟩
  | some w => exact ⟨s.lock i u, by simp only [h.free u, if_true], h.lock u⟩

theorem insert (ch : WalletChoice) (hu : (x.wallets u <|> db.wallets u) = none) :
    exec i ch (.walletInsert u) s = some (.ok ⟨ch.freshWallet, 0⟩,
      s.writeWallet i x u ⟨ch.freshWallet, 0⟩) := by
  simp only [exec, inSession, h.session, h.visible, hu, h.free u, if_true]

theorem update (ch : WalletChoice) {w : Wallet} (w' : Wallet)
    (hu : (x.wallets u <|> db.wallets u) = some w) (hid : w.id = w'.id) :
    exec i ch (.walletUpdate u w') s =
      if fitsInteger w'.balanceCents then some (.ok (), s.writeWallet i x u w')
      else some (.error (.QueryFailedError "integer out of range"), s) := by
  simp only [exec, inSession, h.session, h.visible, hu, h.free u, if_true, hid]

theorem commit (ch : WalletChoice) : ∃ s', exec i ch .commitTransaction s = some (.ok (), s') ∧
    s'.Idle ∧ s'.committed =
      ⟨fun u => x.wallets u <|> db.wallets u, db.walletTransactions ++ x.txs⟩ := by
  refine ⟨(s.publish x).close i, ?_, ?_, ?_⟩
  · simp only [exec, inSession, h.session]
  · exact Owned.close (s := s.publish x) ⟨h.sessions, h.locks⟩
  · have hwallets : (fun u => s.visible x u) = fun u => x.wallets u <|> db.wallets u :=
      funext h.visible
    show (s.publish x).committed = _
    unfold publish
    rw [h.committed, hwallets]

theorem insertTx (ch : WalletChoice) (d : TransactionDraft) :
    exec i ch (.txInsert d) s =
      if fitsInteger d.balanceAfterCents && fitsInteger d.amountCents then
        some (.ok ⟨ch.fresh, d.walletId, d.userId, d.type, d.amountCents, d.balanceAfterCents,
            d.referenceId, some d.description, x.startedAt⟩,
          s.setSession i { x with txs := x.txs ++ [⟨ch.fresh, d.walletId, d.userId, d.type,
            d.amountCents, d.balanceAfterCents, d.referenceId, some d.description, x.startedAt⟩] })
      else some (.error (.QueryFailedError "integer out of range"), s) := by
  simp only [exec, inSession, h.session]

theorem setTxs (txs : List WalletTransaction) :
    InTransaction i db { x with txs } (s.setSession i { x with txs }) :=
  ⟨h.toOwned.setSession _, h.committed, Function.update_self ..⟩

theorem rollback (ch : WalletChoice) : exec i ch .rollbackTransaction s =
    some (.ok (), s.close i) := by
  simp only [exec, inSession, h.session]

end InTransaction

end SqlState

open SqlState

/-- One statement that nothing makes fail. -/
theorem always_statement {i : Nat} {o : SqlOp} {s : SqlState}
    {Q : Option (Except Err o.Res) → SqlState → Prop} (hstop : Q none s)
    (h : ∀ ch, ∃ r s', SqlState.exec i ch o s = some (r, s') ∧ Q (some r) s') :
    walletSql.Always i IsOk Q (Prog.perform (S := SqlSig) o) s := by
  refine Machine.always_perform hstop ?_
  rintro m r s₁ took ⟨ch, rfl⟩ ha
  obtain ⟨r', s', hx, hQ⟩ := h ch
  have ha' : some (r', s', r'.toBool) = some (r, s₁, took) := by
    rw [← ha]
    simp [Machine.answer, hx]
  obtain ⟨rfl, rfl, -⟩ : r' = r ∧ s' = s₁ ∧ _ := by simpa using ha'
  exact hQ

namespace WalletAlone

variable {i : Nat} {s : SqlState} {db : WalletDb} {u : Uuid} {type : TransactionType} {a : Int}
  {ref : Option Uuid} {desc : String}

/-- The transaction is still open. -/
def Open (i : Nat) (db : WalletDb) (s : SqlState) : Prop := ∃ x, InTransaction i db x s

/-- What the `try` block leaves: everything committed, or the transaction open to be rolled back. -/
def Tried (i : Nat) (db : WalletDb) (u : Uuid) (type : TransactionType) (a : Int)
    (ref : Option Uuid) (desc : String) (x : Option (Except Err TransactionResponseDto))
    (s : SqlState) : Prop :=
  match x with
  | some (.ok dto) => s.Idle ∧ ∃ ch, db.applyAtomic ch u type a ref desc = (.ok dto, s.committed)
  | some (.error e) => Open i db s ∧ ∃ ch, db.applyAtomic ch u type a ref desc = (.error e, db)
  | none => Open i db s

/-- One uncommitted row over the committed ones. -/
theorem overlay_eq (db : WalletDb) (u : Uuid) (w : Wallet) :
    (fun v => Function.update (fun _ => none) u (some w) v <|> db.wallets v) =
      (db.setWallet u w).wallets := by
  funext v
  unfold WalletDb.setWallet
  by_cases hv : v = u
  · subst hv
    simp
  · simp [hv]

/-- The wallet row that is locked: the committed one, or a new one with balance 0. -/
theorem lockedWallet_alone (now : Nat) (h : InTransaction i db ⟨now, fun _ => none, []⟩ s) :
    walletSql.Always i IsOk (fun x s' => match x with
      | some (.ok w) => ∃ id overlay, w = (db.wallets u).getD ⟨id, 0⟩ ∧
          (∀ w', Function.update overlay u w' = Function.update (fun _ => none) u w') ∧
          (overlay u <|> db.wallets u) = some w ∧ InTransaction i db ⟨now, overlay, []⟩ s'
      | some (.error _) => False
      | none => Open i db s') (Statements.lockedWallet u) s := by
  unfold Statements.lockedWallet
  refine Machine.always_seq (Q := fun x (s' : SqlState) => match x with
    | some (.ok w) => w = db.wallets u ∧ InTransaction i db ⟨now, fun _ => none, []⟩ s'
    | some (.error _) => False
    | none => Open i db s') ?_ ?_ (fun _ _ h => h) fun _ h => h
  · refine always_statement (o := SqlOp.walletSelectForUpdate u) ?_ fun ch => ?_
    · exact ⟨_, h⟩
    obtain ⟨s', hx, h'⟩ := h.select ch u
    exact ⟨_, s', hx, rfl, h'⟩
  · rintro w s' ⟨rfl, h⟩
    cases hu : db.wallets u with
    | some w => exact Machine.always_ret ⟨0, fun _ => none, rfl, fun _ => rfl, rfl, h⟩
    | none =>
      refine always_statement (o := SqlOp.walletInsert u) ?_ fun ch => ?_
      · exact ⟨_, h⟩
      refine ⟨_, _, h.insert ch hu, ch.freshWallet, _, rfl, fun w' => ?_, ?_, h.write u _⟩
      · exact Function.update_idem ..
      · simp

/-- **The `try` block of `applyTransaction`.** -/
theorem transaction_alone (now : Nat) (h : InTransaction i db ⟨now, fun _ => none, []⟩ s) :
    walletSql.Always i IsOk (Tried i db u type a ref desc)
      (Statements.transaction u type a ref desc) s := by
  unfold Statements.transaction
  refine Machine.always_seq (lockedWallet_alone now h) ?_ (fun _ _ h => h.elim) fun _ h => h
  rintro w s₁ ⟨idw, overlay, hw, hoverlay, hvis, h₁⟩
  -- the balance check, and the row to write
  rw [Statements.moveBalance_eq]
  cases hb : WalletDb.newBalance type w.balanceCents a with
  | error e =>
    refine Machine.always_throw ⟨⟨_, h₁⟩, ⟨0, idw, now, 0, none⟩, ?_⟩
    exact WalletDb.applyAtomic_throws hw hb
  | ok b =>
    -- what the whole transaction does with this row
    have hatomic : ∀ fresh, db.applyAtomic ⟨fresh, idw, now, 0, none⟩ u type a ref desc =
        if fitsInteger b && fitsInteger a then
          (.ok (toTransactionDto ⟨fresh, w.id, u, type, a, b, ref, some desc, now⟩),
            (db.setWallet u { w with balanceCents := b }).addTx
              ⟨fresh, w.id, u, type, a, b, ref, some desc, now⟩)
        else (.error (.QueryFailedError "integer out of range"), db) :=
      fun _ => WalletDb.applyAtomic_moves hw hb
    rw [Prog.ret_bind]
    -- `UPDATE`
    refine Machine.always_seq (Q := fun x (s' : SqlState) => match x with
      | some (.ok _) => fitsInteger b = true ∧ InTransaction i db
          ⟨now, Function.update overlay u (some { w with balanceCents := b }), []⟩ s'
      | some (.error e) => Open i db s' ∧
          ∃ ch, db.applyAtomic ch u type a ref desc = (.error e, db)
      | none => Open i db s') ?_ ?_ (fun _ _ h => h) fun _ h => h
    · refine always_statement (o := SqlOp.walletUpdate u { w with balanceCents := b }) ?_
        fun ch => ?_
      · exact ⟨_, h₁⟩
      have hexec := h₁.update ch { w with balanceCents := b } hvis rfl
      by_cases hfit : fitsInteger b = true
      · exact ⟨_, _, hexec.trans (if_pos hfit), hfit, h₁.write u _⟩
      · refine ⟨_, _, hexec.trans (if_neg hfit), ⟨_, h₁⟩, ⟨0, idw, now, 0, none⟩, ?_⟩
        rw [hatomic, if_neg (by simp [hfit])]
    rintro - s₂ ⟨hfit, h₂⟩
    -- `INSERT`
    refine Machine.always_seq (Q := fun x (s' : SqlState) => match x with
      | some (.ok tx) => fitsInteger a = true ∧ ∃ fresh,
          tx = ⟨fresh, w.id, u, type, a, b, ref, some desc, now⟩ ∧ InTransaction i db
          ⟨now, Function.update overlay u (some { w with balanceCents := b }), [tx]⟩ s'
      | some (.error e) => Open i db s' ∧
          ∃ ch, db.applyAtomic ch u type a ref desc = (.error e, db)
      | none => Open i db s') ?_ ?_ (fun _ _ h => h) fun _ h => h
    · refine always_statement (o := SqlOp.txInsert ⟨w.id, u, type, a, b, ref, desc⟩) ?_ fun ch => ?_
      · exact ⟨_, h₂⟩
      have hexec := h₂.insertTx ch ⟨w.id, u, type, a, b, ref, desc⟩
      by_cases hfita : fitsInteger a = true
      · refine ⟨_, _, hexec.trans (if_pos (by simp [hfit, hfita])), hfita, ch.fresh, rfl, ?_⟩
        exact h₂.setTxs _
      · refine ⟨_, _, hexec.trans (if_neg (by simp [hfita])), ⟨_, h₂⟩, ⟨0, idw, now, 0, none⟩, ?_⟩
        rw [hatomic, if_neg (by simp [hfita])]
    rintro tx s₃ ⟨hfita, fresh, rfl, h₃⟩
    -- `COMMIT`
    refine Machine.always_seq (Q := fun x (s' : SqlState) => match x with
      | some (.ok _) => s'.Idle ∧ db.applyAtomic ⟨fresh, idw, now, 0, none⟩ u type a ref desc =
          (.ok (toTransactionDto ⟨fresh, w.id, u, type, a, b, ref, some desc, now⟩), s'.committed)
      | some (.error _) => False
      | none => Open i db s') ?_ ?_ (fun _ _ h => h.elim) fun _ h => h
    · refine always_statement (o := SqlOp.commitTransaction) ?_ fun ch => ?_
      · exact ⟨_, h₃⟩
      obtain ⟨s', hx, hidle, hcommitted⟩ := h₃.commit ch
      refine ⟨_, s', hx, hidle, ?_⟩
      rw [hatomic, if_pos (by simp [hfit, hfita]), hcommitted]
      simp only [hoverlay, overlay_eq]
      rfl
    · rintro - s₄ ⟨hidle, hx⟩
      exact Machine.always_ret ⟨hidle, _, hx⟩

/-- **`applyTransaction` in the only session**: all of it, or nothing. -/
theorem applyTransaction_alone (hs : s.Idle) : walletSql.Always i IsOk (fun x s' => match x with
      | some r => s'.Idle ∧ ∃ ch, s.committed.applyAtomic ch u type a ref desc = (r, s'.committed)
      | none => s'.Owned i ∧ s'.committed = s.committed)
      (Statements.applyTransaction u type a ref desc) s := by
  have hopen : ∀ {s'}, Open i s.committed s' → s'.Owned i ∧ s'.committed = s.committed :=
    fun ⟨_, h⟩ => ⟨h.toOwned, h.committed⟩
  unfold Statements.applyTransaction
  refine Machine.always_seq (Q := fun x (s' : SqlState) => match x with
    | some (.ok _) => ∃ now, InTransaction i s.committed ⟨now, fun _ => none, []⟩ s'
    | some (.error _) => False
    | none => s'.Owned i ∧ s'.committed = s.committed) ?_ ?_ (fun _ _ h => h.elim) fun _ h => h
  · refine always_statement (o := SqlOp.startTransaction) ?_ fun ch => ?_
    · exact ⟨hs.owned i, rfl⟩
    exact ⟨_, _, rfl, ch.now, (hs.owned i).setSession _, rfl, Function.update_self ..⟩
  rintro - s₁ ⟨now, h⟩
  refine Machine.always_try (transaction_alone now h) (fun _ _ h => h) ?_ fun _ h => hopen h
  rintro e s₂ ⟨⟨x, h₂⟩, hx⟩
  -- `ROLLBACK`, and the error again
  refine Machine.always_seq (Q := fun x (s' : SqlState) => match x with
    | some (.ok _) => s'.Idle ∧ s'.committed = s.committed
    | some (.error _) => False
    | none => s'.Owned i ∧ s'.committed = s.committed) ?_ ?_ (fun _ _ h => h.elim) fun _ h => h
  · refine always_statement (o := SqlOp.rollbackTransaction) ?_ fun ch => ?_
    · exact hopen ⟨x, h₂⟩
    exact ⟨_, _, h₂.rollback ch, h₂.toOwned.close, h₂.committed⟩
  · rintro - s₃ ⟨hidle, hcommitted⟩
    exact Machine.always_throw ⟨hidle, hcommitted.symm ▸ hx⟩

end WalletAlone

end BoltBet
