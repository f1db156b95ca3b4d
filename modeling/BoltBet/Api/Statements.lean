import BoltBet.Api.Tables
import BoltBet.Wallet.Alone

/-!
# The API, statement by statement

The operations of the services with every `applyTransaction` cut into its statements. A crash closes
the connections of the process (`StatementStore.disconnect`).

* `statementsOf_alone`: an operation that runs alone does what `Store.exec` says, or was stopped
  before it did anything that a crash does not undo.
* `always_statements`: so what holds of every run of a program alone holds of every run of its
  statements.
-/

namespace BoltBet

open Async

/-- A statement of the services. -/
inductive StatementOp where
  | store (o : ApiOp)
  | sql (o : SqlOp)

/-- What a statement answers. -/
abbrev StatementOp.Res : StatementOp → Type
  | .store o => o.Res
  | .sql o => o.Res

/-- The signature of the statements. -/
abbrev StatementSig : Sig Err := ⟨StatementOp, StatementOp.Res⟩

/-- One statement of the wallet service. -/
def sqlStatement (o : SqlOp) : Prog StatementSig o.Res := .perform (S := StatementSig) (.sql o)

/-- The statements of an operation. -/
def statementsOf (o : ApiOp) : Prog StatementSig o.Res :=
  match o with
  | .wallet o => (Statements.statements o).expand sqlStatement
  | o => .perform (S := StatementSig) (.store o)

/-- The store, and the open transactions over its wallet tables. -/
structure StatementStore where
  store : Store
  sessions : Nat → Option Session
  locks : Uuid → Option Nat

namespace StatementStore

/-- No transaction is open. -/
def ofStore (s : Store) : StatementStore := ⟨s, fun _ => none, fun _ => none⟩

/-- The database of the wallet service. -/
def sql (t : StatementStore) : SqlState := ⟨t.store.wallet, t.sessions, t.locks⟩

/-- Replace the database of the wallet service. -/
def setSql (t : StatementStore) (q : SqlState) : StatementStore :=
  ⟨{ t.store with wallet := q.committed }, q.sessions, q.locks⟩

/-- The process of connection `i` crashed. -/
def disconnect (t : StatementStore) (i : Nat) : StatementStore := t.setSql (t.sql.close i)

/-- One statement. -/
def exec (i : Nat) (ch : ApiChoice) (o : StatementOp) (t : StatementStore) :
    Option (Except Err o.Res × StatementStore) :=
  match o with
  | .store o =>
    let x := t.store.exec ch o
    some (x.1, { t with store := x.2 })
  | .sql o => (SqlState.exec i ch.toWalletChoice o t.sql).map fun x => (x.1, t.setSql x.2)

end StatementStore

/-- The API, statement by statement. -/
abbrev apiSql : Machine StatementSig where
  Call := ApiCall
  Out := ApiReply
  State := StatementStore
  Choice := ApiChoice
  Env := Nat
  body call := call.body.expand statementsOf
  start call t := (call.start t.store).map fun s => { t with store := s }
  exec := StatementStore.exec
  env i t := some (t.disconnect i)

/-! ## One operation alone -/

variable {i : Nat} {t t' : StatementStore}

/-- The wallet statements of `apiSql` are those of `walletSql`; nothing else of the store
changes. -/
theorem sql_answer {o : SqlOp} {m : Mode ApiChoice Err} {r : Except Err o.Res} {took : Bool}
    (hm : IsOk m) (h : apiSql.answer i m (.sql o) t = some (r, t', took)) :
    ∃ m', IsOk m' ∧ walletSql.answer i m' o t.sql = some (r, t'.sql, took) ∧
      t' = t.setSql t'.sql := by
  obtain ⟨ch, rfl⟩ := hm
  obtain ⟨⟨r₀, t₀⟩, hx, he⟩ := Option.map_eq_some_iff.mp h
  obtain ⟨⟨r₁, q⟩, hq, hx⟩ := Option.map_eq_some_iff.mp hx
  obtain ⟨rfl, rfl⟩ : r₁ = r₀ ∧ t.setSql q = t₀ := by simpa using hx
  obtain ⟨rfl, rfl, rfl⟩ : r₁ = r ∧ t.setSql q = t' ∧ r₁.toBool = took := by simpa using he
  refine ⟨.ok ch.toWalletChoice, ⟨_, rfl⟩, ?_, rfl⟩
  show Option.map _ (SqlState.exec i _ o t.sql) = _
  rw [hq]
  rfl

/-- One statement that nothing makes fail. -/
theorem always_op {o : StatementOp} {Q : Option (Except Err o.Res) → StatementStore → Prop}
    (hstop : Q none t) (h : ∀ m r t₁ took, IsOk m →
      apiSql.answer i m o t = some (r, t₁, took) → Q (some r) t₁) :
    apiSql.Always i IsOk Q (Prog.perform (S := StatementSig) o) t :=
  Machine.always_perform hstop h

/-- What holds of every run of a wallet program alone holds of it among the other tables. -/
theorem always_sql {α : Type} {p : Prog SqlSig α} {Q : Option (Except Err α) → SqlState → Prop}
    (h : walletSql.Always i IsOk Q p t.sql) :
    apiSql.Always i IsOk (fun x t' => Q x t'.sql ∧ t' = t.setSql t'.sql)
      (p.expand sqlStatement) t := by
  have hop : ∀ o : SqlOp, True → ∀ t₁ : StatementStore, t₁ = t.setSql t₁.sql →
      apiSql.Always i IsOk (fun x t₂ => match x with
        | some r => t₂ = t.setSql t₂.sql ∧
            ∃ m took, IsOk m ∧ walletSql.answer i m o t₁.sql = some (r, t₂.sql, took)
        | none => t₂ = t.setSql t₂.sql ∧ t₂.sql = t₁.sql) (sqlStatement o) t₁ := by
    intro o _ t₁ ht₁
    refine always_op (o := StatementOp.sql o) ?_ fun m r t₂ took hm ha => ?_
    · exact ⟨ht₁, rfl⟩
    · obtain ⟨m', hm', ha', ht₂⟩ := sql_answer hm ha
      refine ⟨?_, m', took, hm', ha'⟩
      rw [ht₂, ht₁]
      rfl
  refine (Machine.always_expand (M := walletSql) (N := apiSql) StatementStore.sql
    (fun t₁ => t₁ = t.setSql t₁.sql) (fun t₁ => t₁ = t.setSql t₁.sql)
    (fun o ho t₁ ht₁ => (hop o ho t₁ ht₁).mono ?_) p.all_true rfl h).mono ?_
  · rintro (_ | r) t₂ hx <;> exact hx
  · rintro (_ | r) t₂ hx <;> exact hx

/-- A single statement outside every transaction. -/
theorem store_alone {o : ApiOp} (ht : t.sql.Idle) :
    apiSql.Always i IsOk (fun x t' => match x with
      | some r => t'.sql.Idle ∧
          ∃ m took, IsOk m ∧ api.answer i m o t.store = some (r, t'.store, took)
      | none => t'.sql.Owned i ∧ t'.store = t.store)
      (.perform (S := StatementSig) (.store o)) t := by
  refine always_op (o := StatementOp.store o) ?_ ?_
  · exact ⟨ht.owned i, rfl⟩
  · rintro m r t' took ⟨ch, rfl⟩ ha
    obtain ⟨rfl, rfl, rfl⟩ : (t.store.exec ch o).1 = r ∧
        { t with store := (t.store.exec ch o).2 } = t' ∧
        (t.store.exec ch o).1.toBool = took := by
      simpa [Machine.answer, StatementStore.exec] using ha
    exact ⟨⟨ht.sessions, ht.locks⟩, .ok ch, _, ⟨ch, rfl⟩, rfl⟩

/-- **An operation that runs alone**: it did what `Store.exec` says, or it was stopped and left at
most its own open transaction. -/
theorem statementsOf_alone (o : ApiOp) (ht : t.sql.Idle) :
    apiSql.Always i IsOk (fun x t' => match x with
      | some r => t'.sql.Idle ∧
          ∃ m took, IsOk m ∧ api.answer i m o t.store = some (r, t'.store, took)
      | none => t'.sql.Owned i ∧ t'.store = t.store) (statementsOf o) t := by
  cases o with
  | wallet o =>
    -- what the wallet statements do to `t.sql`, they do to the store
    have hsql : walletSql.Always i IsOk (fun x s => match x with
        | some r => s.Idle ∧ ∃ ch, WalletDb.exec ch o t.sql.committed = (r, s.committed)
        | none => s.Owned i ∧ s.committed = t.sql.committed) (Statements.statements o) t.sql := by
      cases o with
      | query q =>
        refine always_statement (o := SqlOp.query q) ?_ fun ch => ?_
        · exact ⟨ht.owned i, rfl⟩
        · have hwaits : ¬ t.sql.Waits q := by
            cases q with
            | walletCreate u => exact fun h => h.2 (ht.locks u)
            | _ => exact id
          refine ⟨_, _, if_neg hwaits, ⟨ht.sessions, ht.locks⟩, ch, rfl⟩
      | applyTransaction u type a ref desc =>
        refine (WalletAlone.applyTransaction_alone ht).mono ?_
        rintro (_ | r) s hx <;> exact hx
    refine (always_sql hsql).mono ?_
    rintro (_ | r) t' ⟨hx, ht'⟩
    · refine ⟨hx.1, ?_⟩
      rw [ht']
      show { t.store with wallet := t'.sql.committed } = t.store
      rw [hx.2]
      rfl
    · obtain ⟨hidle, ch, hx⟩ := hx
      refine ⟨hidle, .ok { ch with rows := [] }, r.toBool, ⟨_, rfl⟩, ?_⟩
      rw [ht']
      show some ((WalletDb.exec ch o t.sql.committed).1,
        { t.store with wallet := (WalletDb.exec ch o t.sql.committed).2 },
        (WalletDb.exec ch o t.sql.committed).1.toBool) = _
      rw [hx]
      rfl
  | _ => exact store_alone ht

/-- **What holds of every run of a program alone** holds of every run of its statements, also when
it is stopped in the middle of a transaction. -/
theorem always_statements {α : Type} {p : Prog ApiSig α} {Q : Option (Except Err α) → Store → Prop}
    (ht : t.sql.Idle) (h : api.Always i IsOk Q p t.store) :
    apiSql.Always i IsOk (fun x t' => Q x t'.store ∧ match x with
      | some _ => t'.sql.Idle
      | none => t'.sql.Owned i) (p.expand statementsOf) t := by
  refine (Machine.always_expand (M := api) (N := apiSql) StatementStore.store
    (fun t => t.sql.Idle) (fun t => t.sql.Owned i)
    (fun o _ t₁ ht₁ => (statementsOf_alone o ht₁).mono ?_) p.all_true ht h).mono ?_
  · rintro (_ | r) t₂ hx <;> exact hx
  · rintro (_ | r) t₂ hx <;> exact hx

end BoltBet
