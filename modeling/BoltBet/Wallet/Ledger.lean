import BoltBet.Wallet.Service

/-!
# The ledger of the wallet tables

`WalletDb.Ledger`: each balance is the total of its owner's rows, is never negative, and each row
records the balance right after it.

* `exec_ledger`: one operation of the wallet service keeps the ledger.
* `Linear db db'`: between the two at most one operation took place, so the ledger is kept.
* `Ledger.balance_eq`, `Ledger.after_eq`: the ledger as sums of deposits, credits and debits.
-/

namespace BoltBet

open Async

/-! ## One operation -/

/-- The amounts of an operation are positive. -/
def WalletOp.Positive : WalletOp → Prop
  | .query _ => True
  | .applyTransaction _ _ amountCents _ _ => 0 < amountCents

namespace WalletDb

/-- The ledger of the wallet tables. -/
def Ledger (db : WalletDb) : Prop :=
  Ledger.Consistent walletReading db.balanceOf db.walletTransactions

theorem ledger_empty : Ledger empty := Ledger.consistent_empty

/-- The rows of an idempotency key. -/
def rowsFor (db : WalletDb) (u : Uuid) (t : TransactionType) (ref : Uuid) :
    List WalletTransaction :=
  db.walletTransactions.filter (·.Matches u ref (some t))

/-- The balance moves by what the row says, and not below 0. -/
theorem newBalance_ok {type : TransactionType} {b a b' : Int}
    (h : newBalance type b a = .ok b') (hb : 0 ≤ b) (ha : 0 < a) :
    b' = b + (if type = .DEBIT then -a else a) ∧ 0 ≤ b' := by
  cases type with
  | DEBIT =>
    simp only [newBalance] at h
    split at h
    · exact absurd h (by simp)
    · have := Except.ok.inj h
      simp only [if_true]
      omega
  | DEPOSIT | CREDIT =>
    have := Except.ok.inj h
    simp only [reduceCtorEq, if_false]
    omega

theorem balanceOf_getD (db : WalletDb) (u id : Uuid) :
    ((db.wallets u).getD ⟨id, 0⟩).balanceCents = db.balanceOf u := by
  unfold balanceOf
  cases db.wallets u <;> rfl

section Row

variable {ch : WalletChoice} {db : WalletDb} {u : Uuid} {t : TransactionType} {a : Int}
  {ref : Option Uuid} {desc : String} {w : Wallet}

/-- A balance check that throws ends the operation. -/
theorem applyAtomic_throws {e : Err} (hw : w = (db.wallets u).getD ⟨ch.freshWallet, 0⟩)
    (hb : newBalance t w.balanceCents a = .error e) :
    db.applyAtomic ch u t a ref desc = (.error e, db) := by
  simp only [applyAtomic, ← hw, hb]

/-- After the balance check the columns decide. -/
theorem applyAtomic_moves {b : Int} (hw : w = (db.wallets u).getD ⟨ch.freshWallet, 0⟩)
    (hb : newBalance t w.balanceCents a = .ok b) :
    db.applyAtomic ch u t a ref desc =
      if fitsInteger b && fitsInteger a then
        (.ok (toTransactionDto ⟨ch.fresh, w.id, u, t, a, b, ref, some desc, ch.now⟩),
          (db.setWallet u { w with balanceCents := b }).addTx
            ⟨ch.fresh, w.id, u, t, a, b, ref, some desc, ch.now⟩)
      else (.error (.QueryFailedError "integer out of range"), db) := by
  simp only [applyAtomic, ← hw, hb]

end Row

/-- An answered `applyTransaction` appended one row and wrote its wallet. -/
theorem applyAtomic_ok {ch : WalletChoice} {db db' : WalletDb} {u : Uuid} {t : TransactionType}
    {a : Int} {ref : Option Uuid} {desc : String} {dto : TransactionResponseDto}
    (h : db.applyAtomic ch u t a ref desc = (.ok dto, db')) :
    ∃ b tx w, newBalance t (db.balanceOf u) a = .ok b ∧ fitsInteger b ∧ fitsInteger a ∧
      w.balanceCents = b ∧
      tx = ⟨ch.fresh, w.id, u, t, a, b, ref, some desc, ch.now⟩ ∧
      dto = toTransactionDto tx ∧ db' = (db.setWallet u w).addTx tx := by
  simp only [applyAtomic, balanceOf_getD] at h
  split at h
  · exact absurd (congrArg Prod.fst h) (by simp)
  · rename_i b hb
    split at h
    · rename_i hfit
      obtain ⟨hdto, rfl⟩ := Prod.mk.inj h
      rw [Bool.and_eq_true] at hfit
      exact ⟨b, _, ⟨_, b⟩, hb, hfit.1, hfit.2, rfl, rfl, (Except.ok.inj hdto).symm, rfl⟩
    · exact absurd (congrArg Prod.fst h) (by simp)

/-- A credit commits when its amount and the new balance fit in their columns. -/
theorem applyAtomic_credit {db : WalletDb} {u : Uuid} {a : Int} (ch : WalletChoice)
    (ref : Option Uuid) (desc : String) (hamount : fitsInteger a = true)
    (hbalance : fitsInteger (db.balanceOf u + a) = true) :
    ∃ dto db', db.applyAtomic ch u .CREDIT a ref desc = (.ok dto, db') := by
  simp [applyAtomic, newBalance, balanceOf_getD, hamount, hbalance]

/-- A failed `applyTransaction` changed nothing. -/
theorem applyAtomic_error {ch : WalletChoice} {db db' : WalletDb} {u : Uuid}
    {t : TransactionType} {a : Int} {ref : Option Uuid} {desc : String} {e : Err}
    (h : db.applyAtomic ch u t a ref desc = (.error e, db')) : db' = db := by
  simp only [applyAtomic] at h
  split at h
  · exact (Prod.mk.inj h).2.symm
  · split at h
    · exact absurd (congrArg Prod.fst h) (by simp)
    · exact (Prod.mk.inj h).2.symm

/-- A new wallet has the balance its user had without one. -/
theorem balanceOf_create {db : WalletDb} {u : Uuid} (id : Uuid) (h : db.wallets u = none)
    (v : Uuid) : (db.setWallet u ⟨id, 0⟩).balanceOf v = db.balanceOf v := by
  by_cases hv : v = u
  · subst hv
    rw [balanceOf_setWallet_self]
    simp [balanceOf, h]
  · exact balanceOf_setWallet_ne db hv

/-- A query changes the tables only by creating a wallet. -/
theorem execQuery_cases {ch : WalletChoice} {q : WalletQuery} {db db' : WalletDb}
    {r : Except Err q.Res} (h : db.execQuery ch q = (r, db')) :
    db' = db ∨ ∃ u, db.wallets u = none ∧ db' = db.setWallet u ⟨ch.freshWallet, 0⟩ := by
  cases q with
  | txFindOne u ref t => exact .inl (Prod.mk.inj h).2.symm
  | walletReplicaFindOne u => exact .inl (Prod.mk.inj h).2.symm
  | walletCreate u =>
    simp only [execQuery] at h
    split at h
    · exact .inl (Prod.mk.inj h).2.symm
    · rename_i hn
      exact .inr ⟨u, hn, (Prod.mk.inj h).2.symm⟩

/-- The rows after one operation: as before, or one more. -/
theorem exec_rows {ch : WalletChoice} {o : WalletOp} {db db' : WalletDb} {r : Except Err o.Res}
    (h : exec ch o db = (r, db')) :
    (db'.walletTransactions = db.walletTransactions ∧
      ∀ u t a ref d, o = .applyTransaction u t a ref d → r.toBool = false) ∨
    ∃ u t a ref d tx, o = .applyTransaction u t a ref d ∧ r.toBool = true ∧
      tx.userId = u ∧ tx.type = t ∧ tx.amountCents = a ∧ tx.referenceId = ref ∧
      db'.walletTransactions = db.walletTransactions ++ [tx] := by
  cases o with
  | query q =>
    refine .inl ⟨?_, fun _ _ _ _ _ ho => absurd ho (by simp)⟩
    rcases execQuery_cases h with rfl | ⟨u, -, rfl⟩ <;> rfl
  | applyTransaction u t a ref d =>
    cases r with
    | error e =>
      rw [applyAtomic_error h]
      exact .inl ⟨rfl, fun _ _ _ _ _ _ => rfl⟩
    | ok dto =>
      obtain ⟨b, tx, w, -, -, -, -, rfl, -, rfl⟩ := applyAtomic_ok h
      exact .inr ⟨u, t, a, ref, d, _, rfl, rfl, rfl, rfl, rfl, rfl, rfl⟩

/-- **One operation keeps the ledger.** -/
theorem exec_ledger {ch : WalletChoice} {o : WalletOp} {db db' : WalletDb}
    {r : Except Err o.Res} (hdb : db.Ledger) (ho : o.Positive)
    (h : exec ch o db = (r, db')) : db'.Ledger := by
  cases o with
  | query q =>
    rcases execQuery_cases h with rfl | ⟨u, hu, rfl⟩
    · exact hdb
    · exact Ledger.Consistent.congr hdb (balanceOf_create ch.freshWallet hu)
  | applyTransaction u t a ref desc =>
    simp only [exec] at h
    cases r with
    | error e => rwa [applyAtomic_error h]
    | ok dto =>
      obtain ⟨b, tx, w, hb, -, -, hw, rfl, -, rfl⟩ := applyAtomic_ok h
      obtain ⟨hafter, hpos⟩ := newBalance_ok hb (hdb.nonneg u) ho
      refine Ledger.Consistent.post hdb (e := ⟨ch.fresh, w.id, u, t, a, b, ref, some desc, ch.now⟩)
        hafter hpos ?_ fun v hv => ?_
      · rw [balanceOf_addTx]
        exact (balanceOf_setWallet_self db u w).trans hw
      · rw [balanceOf_addTx]
        exact balanceOf_setWallet_ne db hv

/-- From `db` to `db'` at most one operation took place. -/
def Linear (db db' : WalletDb) : Prop :=
  db' = db ∨ ∃ (ch : WalletChoice) (o : WalletOp) (a : o.Res),
    o.Positive ∧ exec ch o db = (.ok a, db')

theorem Linear.ledger {db db' : WalletDb} (h : Linear db db') (hdb : db.Ledger) :
    db'.Ledger := by
  rcases h with rfl | ⟨ch, o, a, ho, hx⟩
  · exact hdb
  · exact exec_ledger hdb ho hx

/-! ## The ledger as sums -/

/-- The rows of a user, in commit order. -/
def rowsOf (db : WalletDb) (userId : Uuid) : List WalletTransaction :=
  db.walletTransactions.filter (·.userId = userId)

end WalletDb

/-- The sum of the amounts of one type. -/
def sumOf (type : TransactionType) (rows : List WalletTransaction) : Int :=
  ((rows.filter (·.type = type)).map WalletTransaction.amountCents).sum

/-- Deposits and credits minus debits. -/
def netOf (rows : List WalletTransaction) : Int :=
  sumOf .DEPOSIT rows + sumOf .CREDIT rows - sumOf .DEBIT rows

theorem sumOf_cons (type : TransactionType) (tx : WalletTransaction)
    (rows : List WalletTransaction) :
    sumOf type (tx :: rows) = (if tx.type = type then tx.amountCents else 0) + sumOf type rows := by
  unfold sumOf
  by_cases h : tx.type = type <;> simp [h]

theorem total_eq_netOf (rows : List WalletTransaction) :
    Ledger.total walletReading rows = netOf rows := by
  induction rows with
  | nil => rfl
  | cons tx rows ih =>
    rw [Ledger.total_cons, ih]
    unfold netOf
    rw [sumOf_cons, sumOf_cons, sumOf_cons]
    simp only [walletReading, WalletTransaction.delta]
    cases tx.type <;> simp only [reduceCtorEq, if_true, if_false] <;> omega

theorem netOf_append (rows rows' : List WalletTransaction) :
    netOf (rows ++ rows') = netOf rows + netOf rows' := by
  rw [← total_eq_netOf, ← total_eq_netOf, ← total_eq_netOf, Ledger.total_append]

theorem netOf_singleton (tx : WalletTransaction) : netOf [tx] = tx.delta := by
  rw [← total_eq_netOf, Ledger.total_singleton]
  rfl

namespace WalletDb

theorem Ledger.balance_eq {db : WalletDb} (h : db.Ledger) (u : Uuid) :
    db.balanceOf u = netOf (db.rowsOf u) := by
  rw [h.total_eq u, total_eq_netOf]
  rfl

theorem Ledger.after_eq {db : WalletDb} (h : db.Ledger) {u : Uuid}
    {earlier later : List WalletTransaction} {tx : WalletTransaction}
    (hrows : db.rowsOf u = earlier ++ tx :: later) :
    tx.balanceAfterCents = netOf (earlier ++ [tx]) := by
  have := Ledger.running_iff.mp (h.running u) earlier tx later hrows
  rwa [zero_add, total_eq_netOf] at this

end WalletDb

end BoltBet
