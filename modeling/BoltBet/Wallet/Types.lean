import BoltBet.Format
import BoltBet.Ledger.Book

/-!
# Wallet rows, requests and responses

The tables `wallets` and `walletTransactions` (`WalletEntity.ts`, `WalletTransactionEntity.ts`),
the request and response classes of the wallet endpoints, and the errors the services throw.

* Ids are UUIDs; only their equality matters, so they are numbers. Client-chosen mutation ids, bet
  ids and user ids share one type, as they share the `referenceId` column.
* A request class carries the checks of its decorators as fields: the validation pipe (`main.ts`)
  lets no other value reach a service.
* The unique index on `wallets.userId` makes the table a partial function of the user. The table
  `walletTransactions` is the list of its rows in commit order.
-/

namespace BoltBet

/-- A UUID. -/
abbrev Uuid := Nat

/-- What a service call or a statement throws. -/
inductive Err where
  | ForbiddenException (message : String)
  | NotFoundException (message : String)
  | UnprocessableEntityException (message : String)
  | Error (message : String)
  /-- Postgres rejected the statement: a unique index, or a value out of its column's range. -/
  | QueryFailedError (message : String)
  /-- The statement never reached Postgres, Redis or RabbitMQ, or its answer got lost. -/
  | ConnectionError
  deriving DecidableEq, Repr

instance : Inhabited Err := ⟨.ConnectionError⟩

/-- The range of an `integer` column. -/
def fitsInteger (n : Int) : Bool := -2147483648 ≤ n && n ≤ 2147483647

/-- `TransactionType`. -/
inductive TransactionType where
  | DEPOSIT
  | DEBIT
  | CREDIT
  deriving DecidableEq, Repr

/-- A row of `wallets`; its `userId` is the key it is stored under. -/
structure Wallet where
  id : Uuid
  balanceCents : Int
  deriving DecidableEq, Repr

/-- A row of `walletTransactions`: never updated or deleted. -/
structure WalletTransaction where
  id : Uuid
  walletId : Uuid
  userId : Uuid
  type : TransactionType
  amountCents : Int
  balanceAfterCents : Int
  referenceId : Option Uuid
  description : Option String
  createdAt : Nat
  deriving DecidableEq, Repr

/-- `DepositDto`. -/
structure DepositDto where
  amountCents : Int
  clientMutationId : Uuid
  min : 100 ≤ amountCents
  max : amountCents ≤ 1000000
  deriving DecidableEq

/-- `BalanceResponseDto`. -/
structure BalanceResponseDto where
  balanceCents : Int
  balanceDisplay : String
  deriving DecidableEq, Repr

/-- `TransactionResponseDto`. -/
structure TransactionResponseDto where
  id : Uuid
  type : TransactionType
  amountCents : Int
  amountDisplay : String
  balanceAfterCents : Int
  balanceAfterDisplay : String
  referenceId : Option Uuid
  description : Option String
  createdAt : Nat
  deriving DecidableEq, Repr

/-- `toTransactionDto`. -/
def toTransactionDto (tx : WalletTransaction) : TransactionResponseDto where
  id := tx.id
  type := tx.type
  amountCents := tx.amountCents
  amountDisplay := formatCents tx.amountCents
  balanceAfterCents := tx.balanceAfterCents
  balanceAfterDisplay := formatCents tx.balanceAfterCents
  referenceId := tx.referenceId
  description := tx.description
  createdAt := tx.createdAt

/-- The two wallet tables. -/
structure WalletDb where
  wallets : Uuid → Option Wallet
  walletTransactions : List WalletTransaction

namespace WalletDb

def empty : WalletDb := ⟨fun _ => none, []⟩

/-- The balance of a user, 0 without a wallet. -/
def balanceOf (db : WalletDb) (userId : Uuid) : Int :=
  ((db.wallets userId).map Wallet.balanceCents).getD 0

/-- Write the wallet row of a user. -/
def setWallet (db : WalletDb) (userId : Uuid) (w : Wallet) : WalletDb :=
  { db with wallets := Function.update db.wallets userId (some w) }

/-- Append one transaction row. -/
def addTx (db : WalletDb) (tx : WalletTransaction) : WalletDb :=
  { db with walletTransactions := db.walletTransactions ++ [tx] }

@[simp] theorem setWallet_txs (db : WalletDb) (u : Uuid) (w : Wallet) :
    (db.setWallet u w).walletTransactions = db.walletTransactions := rfl

@[simp] theorem addTx_wallets (db : WalletDb) (tx : WalletTransaction) :
    (db.addTx tx).wallets = db.wallets := rfl

@[simp] theorem addTx_txs (db : WalletDb) (tx : WalletTransaction) :
    (db.addTx tx).walletTransactions = db.walletTransactions ++ [tx] := rfl

@[simp] theorem balanceOf_addTx (db : WalletDb) (tx : WalletTransaction) (u : Uuid) :
    (db.addTx tx).balanceOf u = db.balanceOf u := rfl

theorem balanceOf_setWallet_self (db : WalletDb) (u : Uuid) (w : Wallet) :
    (db.setWallet u w).balanceOf u = w.balanceCents := by
  simp [balanceOf, setWallet]

theorem balanceOf_setWallet_ne (db : WalletDb) {w : Wallet} {u v : Uuid} (h : v ≠ u) :
    (db.setWallet u w).balanceOf v = db.balanceOf v := by
  simp [balanceOf, setWallet, Function.update_of_ne h]

end WalletDb

/-- What a transaction row moves: a debit takes its amount, the others add it. -/
def WalletTransaction.delta (tx : WalletTransaction) : Int :=
  if tx.type = .DEBIT then -tx.amountCents else tx.amountCents

/-- A transaction row as a journal entry. -/
def walletReading : Ledger.Reading WalletTransaction Uuid where
  owner := WalletTransaction.userId
  delta := WalletTransaction.delta
  after := WalletTransaction.balanceAfterCents

end BoltBet
