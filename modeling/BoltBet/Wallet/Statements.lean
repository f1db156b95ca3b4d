import BoltBet.Wallet.Service

/-!
# `applyTransaction`, statement by statement

The transaction of `WalletService.ts` as its single statements, for any number of connections.

Postgres READ COMMITTED, as far as these statements need it:
* a statement sees the committed rows and the writes of its own transaction;
* `SELECT ... FOR UPDATE` and `UPDATE` lock the row they find and wait while another transaction
  holds it; `FOR UPDATE` on a missing row locks nothing;
* the unique index on `wallets.userId`: an `INSERT` waits for an uncommitted one of the same user
  and fails once a row is committed;
* `COMMIT` publishes all writes at once, `ROLLBACK` drops them, both release the locks;
* a lost connection aborts its transaction (`disconnect`), at any moment.

A failed statement has no effect (`Mode.fail`). `connect` and `release` touch no row, so they are
left out: a failing `connect` is a failing `BEGIN`.
-/

namespace BoltBet

open Async

/-- `qr.manager.create(WalletTransaction, …)`: the row without its generated columns. -/
structure TransactionDraft where
  walletId : Uuid
  userId : Uuid
  type : TransactionType
  amountCents : Int
  balanceAfterCents : Int
  referenceId : Option Uuid
  description : String

/-- The statements of the wallet service. -/
inductive SqlOp where
  | query (q : WalletQuery)
  | startTransaction
  | walletSelectForUpdate (userId : Uuid)
  | walletInsert (userId : Uuid)
  | walletUpdate (userId : Uuid) (wallet : Wallet)
  | txInsert (tx : TransactionDraft)
  | commitTransaction
  | rollbackTransaction

/-- What a statement answers. -/
abbrev SqlOp.Res : SqlOp → Type
  | .query q => q.Res
  | .walletSelectForUpdate _ => Option Wallet
  | .walletInsert _ => Wallet
  | .txInsert _ => WalletTransaction
  | _ => Unit

/-- The signature of the statements. -/
abbrev SqlSig : Sig Err := ⟨SqlOp, SqlOp.Res⟩

namespace Statements

def startTransaction : Prog SqlSig Unit := .perform (S := SqlSig) .startTransaction

def walletSelectForUpdate (userId : Uuid) : Prog SqlSig (Option Wallet) :=
  .perform (S := SqlSig) (.walletSelectForUpdate userId)

def walletInsert (userId : Uuid) : Prog SqlSig Wallet :=
  .perform (S := SqlSig) (.walletInsert userId)

def walletUpdate (userId : Uuid) (wallet : Wallet) : Prog SqlSig Unit :=
  .perform (S := SqlSig) (.walletUpdate userId wallet)

def txInsert (tx : TransactionDraft) : Prog SqlSig WalletTransaction :=
  .perform (S := SqlSig) (.txInsert tx)

def commitTransaction : Prog SqlSig Unit := .perform (S := SqlSig) .commitTransaction

def rollbackTransaction : Prog SqlSig Unit := .perform (S := SqlSig) .rollbackTransaction

/-- The wallet row to work on: the locked one, or a new one with balance 0. -/
def lockedWallet (userId : Uuid) : Prog SqlSig Wallet := do
  match ← walletSelectForUpdate userId with
  | some wallet => return wallet
  | none => walletInsert userId

/-- The balance check of `applyTransaction`, and the new balance. -/
def moveBalance (type : TransactionType) (walletRow : Wallet) (amountCents : Int) :
    Prog SqlSig Wallet :=
  match type with
  | .DEBIT =>
    if walletRow.balanceCents < amountCents then
      .throw (WalletDb.insufficientBalance walletRow.balanceCents amountCents)
    else .ret { walletRow with balanceCents := walletRow.balanceCents - amountCents }
  | _ => .ret { walletRow with balanceCents := walletRow.balanceCents + amountCents }

/-- The balance check, as `newBalance`. -/
theorem moveBalance_eq (type : TransactionType) (row : Wallet) (a : Int) :
    moveBalance type row a =
      match WalletDb.newBalance type row.balanceCents a with
      | .ok b => .ret { row with balanceCents := b }
      | .error e => .throw e := by
  cases type with
  | DEBIT =>
    simp only [moveBalance, WalletDb.newBalance]
    split <;> rfl
  | DEPOSIT | CREDIT => rfl

/-- The `try` block of `applyTransaction`. -/
def transaction (userId : Uuid) (type : TransactionType) (amountCents : Int)
    (referenceId : Option Uuid) (description : String) : Prog SqlSig TransactionResponseDto := do
  let walletRow ← lockedWallet userId
  let walletRow ← moveBalance type walletRow amountCents
  walletUpdate userId walletRow
  let savedTx ← txInsert {
    walletId := walletRow.id, userId, type, amountCents,
    balanceAfterCents := walletRow.balanceCents, referenceId, description }
  commitTransaction
  return toTransactionDto savedTx

/-- `applyTransaction`. -/
def applyTransaction (userId : Uuid) (type : TransactionType) (amountCents : Int)
    (referenceId : Option Uuid) (description : String) : Prog SqlSig TransactionResponseDto := do
  startTransaction
  (transaction userId type amountCents referenceId description).tryCatch fun err => do
    rollbackTransaction
    .throw err

/-- The operations of the wallet service as statements. -/
def statements : (o : WalletOp) → Prog SqlSig o.Res
  | .query q => .perform (S := SqlSig) (.query q)
  | .applyTransaction userId type amountCents referenceId description =>
    applyTransaction userId type amountCents referenceId description

end Statements

/-! ## The database -/

/-- An open transaction: when it started, and its uncommitted writes. -/
structure Session where
  startedAt : Nat
  wallets : Uuid → Option Wallet
  txs : List WalletTransaction

/-- Committed tables, open transactions by connection, and the holder of each user's wallet row
lock (taken on an existing row, or by an uncommitted insert). -/
structure SqlState where
  committed : WalletDb
  sessions : Nat → Option Session
  locks : Uuid → Option Nat

namespace SqlState

def empty : SqlState := ⟨.empty, fun _ => none, fun _ => none⟩

/-- The row of a user as the transaction `x` sees it. -/
def visible (s : SqlState) (x : Session) (userId : Uuid) : Option Wallet :=
  x.wallets userId <|> s.committed.wallets userId

/-- No transaction other than `i`'s holds the wallet row of the user. -/
def Free (s : SqlState) (i : Nat) (userId : Uuid) : Prop :=
  s.locks userId = none ∨ s.locks userId = some i

instance (s : SqlState) (i : Nat) (userId : Uuid) : Decidable (s.Free i userId) :=
  inferInstanceAs (Decidable (_ ∨ _))

/-- Lock the wallet row of a user for `i`. -/
def lock (s : SqlState) (i : Nat) (userId : Uuid) : SqlState :=
  { s with locks := Function.update s.locks userId (some i) }

/-- Replace the open transaction of `i`. -/
def setSession (s : SqlState) (i : Nat) (x : Session) : SqlState :=
  { s with sessions := Function.update s.sessions i (some x) }

/-- Lock and write the wallet row of a user in the open transaction `x` of `i`. -/
def writeWallet (s : SqlState) (i : Nat) (x : Session) (userId : Uuid) (w : Wallet) : SqlState :=
  (s.lock i userId).setSession i { x with wallets := Function.update x.wallets userId (some w) }

/-- End the transaction of `i` and release its locks. -/
def close (s : SqlState) (i : Nat) : SqlState :=
  { s with
    sessions := Function.update s.sessions i none
    locks := fun u => if s.locks u = some i then none else s.locks u }

/-- Publish the writes of a transaction. -/
def publish (s : SqlState) (x : Session) : SqlState :=
  { s with committed :=
    ⟨fun u => s.visible x u, s.committed.walletTransactions ++ x.txs⟩ }

/-- A query waits when it would insert a wallet next to an uncommitted insert of the same user. -/
def Waits (s : SqlState) : WalletQuery → Prop
  | .walletCreate userId => s.committed.wallets userId = none ∧ s.locks userId ≠ none
  | _ => False

instance (s : SqlState) (q : WalletQuery) : Decidable (s.Waits q) := by
  cases q <;> unfold Waits <;> infer_instance

/-- Run a statement in the open transaction of `i`; without one it fails. -/
def inSession {α : Type} (s : SqlState) (i : Nat)
    (f : Session → Option (Except Err α × SqlState)) : Option (Except Err α × SqlState) :=
  match s.sessions i with
  | none => some (.error .ConnectionError, s)
  | some x => f x

/-- **One statement** of connection `i`; `none` while it has to wait. -/
def exec (i : Nat) (ch : WalletChoice) (o : SqlOp) (s : SqlState) :
    Option (Except Err o.Res × SqlState) :=
  match o with
  | .query q =>
    if s.Waits q then none
    else
      let x := s.committed.execQuery ch q
      some (x.1, { s with committed := x.2 })
  | .startTransaction => some (.ok (), s.setSession i ⟨ch.now, fun _ => none, []⟩)
  | .walletSelectForUpdate userId => s.inSession i fun x =>
    match s.visible x userId with
    | none => some (.ok none, s)
    | some w => if s.Free i userId then some (.ok (some w), s.lock i userId) else none
  | .walletInsert userId => s.inSession i fun x =>
    match s.visible x userId with
    | some _ => some (.error (.QueryFailedError "duplicate key value: wallets.userId"), s)
    | none =>
      if s.Free i userId then
        some (.ok ⟨ch.freshWallet, 0⟩, s.writeWallet i x userId ⟨ch.freshWallet, 0⟩)
      else none
  | .walletUpdate userId wallet => s.inSession i fun x =>
    match s.visible x userId with
    | none => some (.ok (), s)
    | some w =>
      if s.Free i userId then
        if w.id = wallet.id then
          if fitsInteger wallet.balanceCents then
            some (.ok (), s.writeWallet i x userId wallet)
          else some (.error (.QueryFailedError "integer out of range"), s)
        else some (.ok (), s)
      else none
  | .txInsert d => s.inSession i fun x =>
    if fitsInteger d.balanceAfterCents && fitsInteger d.amountCents then
      let tx : WalletTransaction := {
        id := ch.fresh, walletId := d.walletId, userId := d.userId, type := d.type,
        amountCents := d.amountCents, balanceAfterCents := d.balanceAfterCents,
        referenceId := d.referenceId, description := some d.description,
        createdAt := x.startedAt }
      some (.ok tx, s.setSession i { x with txs := x.txs ++ [tx] })
    else some (.error (.QueryFailedError "integer out of range"), s)
  | .commitTransaction => s.inSession i fun x => some (.ok (), (s.publish x).close i)
  | .rollbackTransaction => s.inSession i fun _ => some (.ok (), s.close i)

end SqlState

/-- Any number of wallet calls, statement by statement; a connection may be lost at any time. -/
abbrev walletSql : Machine SqlSig where
  Call := WalletCall
  Out := WalletReply
  State := SqlState
  Choice := WalletChoice
  Env := Nat
  body call := call.body.expand Statements.statements
  start _ s := some s
  exec := SqlState.exec
  env i s := some (s.close i)

end BoltBet
