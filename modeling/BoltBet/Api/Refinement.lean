import BoltBet.Api.Statements
import BoltBet.Async.Refinement
import BoltBet.Wallet.Atomic

/-!
# The API over its database refines the API

`apiOverSql` runs any number of calls with every `applyTransaction` cut into its statements, which
other calls, failures, crashes and lost connections may come between. Redis and RabbitMQ step as in
`api`.

* `carries_applyTransaction`: the commit does what the operation `applyTransaction` does; whatever
  else happens to the statements, the call throws and nothing is left.
* **`apiOverSql_refines`**: every run of the statements comes to what a run of `api` comes to, so
  whatever holds of the states and answers of `api` holds of them.
-/

namespace BoltBet

open Async

/-- The API, with its operations as statements. -/
abbrev apiOverSql : Impl api StatementSig where
  State := StatementStore
  Choice := ApiChoice
  Env := ApiEnv ⊕ Nat
  abs := StatementStore.store
  program := statementsOf
  start call t := (call.start t.store).map fun s => { t with store := s }
  exec := StatementStore.exec
  env v t :=
    match v with
    | .inl v => (v.step t.store).map fun s => { t with store := s }
    | .inr i => some (t.disconnect i)
  awaits o := by
    cases o with
    | wallet o => cases o <;> exact ⟨_, _, rfl⟩
    | _ => exact ⟨_, _, rfl⟩
  start_abs := by
    intro call t t' h
    obtain ⟨s, hs, rfl⟩ := Option.map_eq_some_iff.mp h
    exact hs
  env_abs := by
    rintro (v | i) t t' h
    · obtain ⟨s, hs, rfl⟩ := Option.map_eq_some_iff.mp h
      exact .inr ⟨v, hs⟩
    · obtain rfl := Option.some.inj h
      exact .inl rfl

/-- A statement that the services run: they do not touch the wallet tables in one piece. -/
def StatementOp.Served : StatementOp → Prop
  | .store (.wallet _) => False
  | _ => True

/-- The discipline of the statements: transactions rely on their row locks. -/
def overSqlRules : Rules apiOverSql.machine where
  inv w := w.state.sql.Locked
  guar _ _ o _ _ := o.Served
  rely i _ _ w w' := SqlState.Keeps i w.state.sql w'.state.sql
  cond _ _ _ _ _ _ := True
  rely_refl i _ _ w := .refl i w.state.sql
  rely_trans := .trans

/-! ## Single statements -/

section Statements

variable {i : Nat} {call : ApiCall} {o : ApiOp}

/-- How a wallet statement ended. -/
theorem exec_sql {o' : SqlOp} {w w' : World apiOverSql.machine} {r : Except Err o'.Res}
    (h : apiOverSql.machine.Exec i call (.sql o') w r w') :
    (∃ ch q r₀, SqlState.exec i ch o' w.state.sql = some (r₀, q) ∧ w'.state = w.state.setSql q ∧
      (r = r₀ ∨ ∃ e, r = .error e)) ∨ (∃ e, r = .error e) ∧ w'.state = w.state := by
  rcases h.cases with ⟨ch, r₀, t, hx, hr, rfl⟩ | ⟨e, rfl, rfl⟩
  · obtain ⟨⟨r₁, q⟩, hq, he⟩ := Option.map_eq_some_iff.mp hx
    obtain ⟨rfl, rfl⟩ := Prod.mk.inj he
    exact .inl ⟨_, q, r₁, hq, rfl, hr⟩
  · exact .inr ⟨⟨e, rfl⟩, rfl⟩

/-- A wallet statement, from what its transaction knows before it, and what it does to the
operation. -/
theorem carries_sql {o' : SqlOp} {J : SqlState → Prop} {ph : Phase ApiSig o}
    {Q : Phase ApiSig o → Except Err o'.Res → World apiOverSql.machine → Prop}
    {w : World apiOverSql.machine} (hJ : ∀ {s s'}, SqlState.Keeps i s s' → J s → J s')
    (hrun : ∀ {t : StatementStore} {ch q r₀}, J t.sql →
      SqlState.exec i ch o' t.sql = some (r₀, q) →
      ∃ ph', Moves api i o t.store ph ph' (t.setSql q).store ∧ (∀ e w', Q ph' (.error e) w') ∧
        ∀ w' : World apiOverSql.machine, w'.state.sql = q → Q ph' r₀ w')
    (herr : ∀ e w', Q ph (.error e) w') (hw : J w.state.sql) :
    apiOverSql.Carries overSqlRules i call o Q (sqlStatement o') ph w := by
  refine Impl.carries_perform fun w₁ hrel hinv r w₂ _ hx => ?_
  have h₁ : J w₁.state.sql := hJ hrel hw
  rcases exec_sql hx.exec with ⟨ch, q, r₀, hq, hw₂, hr⟩ | ⟨⟨e, rfl⟩, hw₂⟩
  · obtain ⟨ph', hm, hfail, hok⟩ := hrun h₁ hq
    have hsql : w₂.state.sql = q := by
      rw [hw₂]
      rfl
    refine ⟨?_, trivial, ph', hw₂ ▸ hm, ?_⟩
    · show w₂.state.sql.Locked
      rw [hsql]
      exact (SqlState.exec_effect hq).locked hinv
    · rcases hr with rfl | ⟨e, rfl⟩
      · exact hok w₂ hsql
      · exact hfail e w₂
  · have hinv₂ : w₂.state.sql.Locked := hw₂ ▸ hinv
    exact ⟨hinv₂, trivial, ph, hw₂ ▸ .stay ph, herr e w₂⟩

/-- A statement inside a transaction, before its commit. -/
theorem carries_inside {o' : SqlOp} (hc : o' ≠ .commitTransaction)
    (hcreate : ∀ u, o' ≠ .query (.walletCreate u)) {J : SqlState → Prop} {ph : Phase ApiSig o}
    {Q : Phase ApiSig o → Except Err o'.Res → World apiOverSql.machine → Prop}
    {w : World apiOverSql.machine} (hJ : ∀ {s s'}, SqlState.Keeps i s s' → J s → J s')
    (hok : ∀ {s ch a} {w' : World apiOverSql.machine}, J s →
      SqlState.exec i ch o' s = some (.ok a, w'.state.sql) → Q ph (.ok a) w')
    (herr : ∀ e w', Q ph (.error e) w') (hw : J w.state.sql) :
    apiOverSql.Carries overSqlRules i call o Q (sqlStatement o') ph w := by
  refine carries_sql hJ (fun {t ch q r₀} hs hx => ⟨ph, ?_, herr, fun w' hw' => ?_⟩) herr hw
  · have hstore : (t.setSql q).store = t.store := by
      show { t.store with wallet := q.committed } = t.store
      rw [(SqlState.exec_effect hx).committed_eq hc hcreate]
      rfl
    rw [hstore]
    exact .stay ph
  · cases r₀ with
    | error e => exact herr e w'
    | ok a => exact hok hs (hw' ▸ hx)

/-! ## The transaction -/

open SqlState in
/-- **The commit does what the operation does**, and answers the row that was inserted. -/
theorem commit_exec {s : SqlState} {ch : WalletChoice} {u : Uuid} {type : TransactionType} {a : Int}
    {ref : Option Uuid} {desc : String} {was : Wallet} {b : Int} {tx : WalletTransaction}
    {r : Except Err Unit} {q : SqlState}
    (hs : InTx i (Holding i u was { was with balanceCents := b } [tx]) s)
    (hb : WalletDb.newBalance type was.balanceCents a = .ok b)
    (hfit : fitsInteger b && fitsInteger a)
    (htx : tx = ⟨tx.id, was.id, u, type, a, b, ref, some desc, tx.createdAt⟩)
    (h : SqlState.exec i ch .commitTransaction s = some (r, q)) :
    (∃ e, r = .error e) ∧ q.committed = s.committed ∨
    r = .ok () ∧ WalletDb.exec { fresh := tx.id, freshWallet := was.id, now := tx.createdAt }
      (.applyTransaction u type a ref desc) s.committed =
        (.ok (toTransactionDto tx), q.committed) := by
  rcases inSession_some h with h | ⟨x, hx, h⟩
  · obtain ⟨rfl, rfl⟩ := Prod.mk.inj h
    exact .inl ⟨⟨_, rfl⟩, rfl⟩
  · obtain ⟨rfl, rfl⟩ := Prod.mk.inj (Option.some.inj h)
    have hh := hs x hx
    refine .inr ⟨rfl, ?_⟩
    simp only [WalletDb.exec, WalletDb.applyAtomic, hh.was, hb, hfit, if_true, ← htx]
    refine Prod.ext rfl ?_
    show WalletDb.mk _ _ = WalletDb.mk _ _
    rw [hh.txs]
    congr 1
    -- the transaction wrote the row of `u` and no other
    funext v
    by_cases hv : v = u
    · subst hv
      exact (Function.update_self ..).trans hh.now.symm
    · unfold visible
      rw [hh.others v hv]
      exact Function.update_of_ne hv ..

open SqlState in
theorem carries_lockedWallet (u : Uuid) {ph : Phase ApiSig o} {w : World apiOverSql.machine}
    (hw : InTx i Unwritten w.state.sql) :
    apiOverSql.Carries overSqlRules i call o (fun ph' r w' => ph' = ph ∧ ∀ was, r = .ok was →
      InTx i (Holding i u was was []) w'.state.sql)
      ((Statements.lockedWallet u).expand sqlStatement) ph w := by
  unfold Statements.lockedWallet
  rw [Prog.expand_bind]
  refine Impl.carries_bind (Q := fun ph' r (w' : World apiOverSql.machine) => ph' = ph ∧
    ∀ row, r = .ok row →
      (∀ was, row = some was → InTx i (Holding i u was was []) w'.state.sql) ∧
        (row = none → InTx i Unwritten w'.state.sql)) ?_ ?_ ?_
  · rw [Statements.walletSelectForUpdate, Prog.expand_perform]
    refine carries_inside (J := InTx i Unwritten) (by simp) (by simp) Keeps.unwritten ?_
      (fun _ _ => ⟨rfl, fun _ h => absurd h (by simp)⟩) hw
    rintro s ch row w' hs hx
    refine ⟨rfl, ?_⟩
    rintro _ ⟨⟩
    cases row with
    | some was => exact ⟨fun _ hwas => Option.some.inj hwas ▸ select_some hs hx, by simp⟩
    | none => exact ⟨by simp, fun _ => select_none hs hx⟩
  · rintro ph' row w' ⟨rfl, hrow⟩
    cases row with
    | some was =>
      refine ⟨rfl, ?_⟩
      rintro _ ⟨⟩
      exact (hrow _ rfl).1 _ rfl
    | none =>
      rw [Statements.walletInsert, Prog.expand_perform]
      refine carries_inside (J := InTx i Unwritten) (by simp) (by simp) Keeps.unwritten ?_
        (fun _ _ => ⟨rfl, fun _ h => absurd h (by simp)⟩) ((hrow _ rfl).2 rfl)
      rintro s ch was w' hs hx
      refine ⟨rfl, ?_⟩
      rintro _ ⟨⟩
      exact insert_ok hs hx
  · rintro ph' e w' ⟨rfl, -⟩
    exact ⟨rfl, fun _ h => absurd h (by simp)⟩

/-- An operation may always throw. -/
theorem ends_error {o : ApiOp} (ph : Phase ApiSig o) (e : Err) : ph.Ends (.error e) := by
  cases ph with
  | none => exact ⟨e, rfl⟩
  | some r => exact .inr ⟨e, rfl⟩

open SqlState in
theorem carries_transaction (u : Uuid) (type : TransactionType) (a : Int) (ref : Option Uuid)
    (desc : String) {w : World apiOverSql.machine} (hw : InTx i Unwritten w.state.sql) :
    apiOverSql.Carries overSqlRules i call (.wallet (.applyTransaction u type a ref desc))
      (fun ph r _ => ph.Ends r) ((Statements.transaction u type a ref desc).expand sqlStatement)
      none w := by
  unfold Statements.transaction
  rw [Prog.expand_bind]
  refine Impl.carries_bind (carries_lockedWallet u hw) ?_ fun ph e _ _ => ends_error ph e
  rintro ph was w ⟨rfl, hw⟩
  replace hw := hw was rfl
  rw [Statements.moveBalance_eq]
  cases hb : WalletDb.newBalance type was.balanceCents a with
  | error e =>
    simp only [Prog.throw_bind, Prog.expand_throw]
    show Phase.Ends (S := ApiSig) (o := .wallet (.applyTransaction u type a ref desc)) none
      (.error e)
    exact ends_error none e
  | ok b =>
    rw [Prog.expand_bind]
    simp only [Prog.expand_ret, Prog.ret_bind]
    rw [Prog.expand_bind, Statements.walletUpdate, Prog.expand_perform]
    refine Impl.carries_bind (Q := fun ph r (w' : World apiOverSql.machine) => ph = none ∧
      ∀ x, r = .ok x → InTx i (Holding i u was { was with balanceCents := b } []) w'.state.sql ∧
      fitsInteger b)
      (carries_inside (by simp) (by simp) (fun hk => hk.holding) ?_
        (fun _ _ => ⟨rfl, fun _ h => absurd h (by simp)⟩) hw) ?_ fun ph e _ _ => ends_error ph e
    · intro s ch x w' hs hx
      exact ⟨rfl, fun _ _ => update_ok (w := { was with balanceCents := b }) hs rfl hx⟩
    rintro ph x w ⟨rfl, hw⟩
    obtain ⟨hw, hfitb⟩ := hw x rfl
    rw [Prog.expand_bind, Statements.txInsert, Prog.expand_perform]
    refine Impl.carries_bind (Q := fun ph r (w' : World apiOverSql.machine) => ph = none ∧
      ∀ tx, r = .ok tx → InTx i (Holding i u was { was with balanceCents := b } [tx]) w'.state.sql ∧
      fitsInteger a ∧ tx = ⟨tx.id, was.id, u, type, a, b, ref, some desc, tx.createdAt⟩)
      (carries_inside (by simp) (by simp) (fun hk => hk.holding) ?_
        (fun _ _ => ⟨rfl, fun _ h => absurd h (by simp)⟩) hw) ?_ fun ph e _ _ => ends_error ph e
    · intro s ch tx w' hs hx
      obtain ⟨hw, -, hfita, htx⟩ := txInsert_ok hs hx
      refine ⟨rfl, ?_⟩
      rintro _ ⟨⟩
      exact ⟨hw, hfita, htx⟩
    rintro ph tx w ⟨rfl, hw⟩
    obtain ⟨hw, hfita, htx⟩ := hw tx rfl
    rw [Prog.expand_bind, Statements.commitTransaction, Prog.expand_perform]
    refine Impl.carries_bind (Q := fun ph r _ =>
      (∃ e, r = .error e) ∨ ph = some (.ok (toTransactionDto tx)))
      (carries_sql (fun hk => hk.holding) ?_ (fun e _ => .inl ⟨e, rfl⟩) hw) ?_
      fun ph e _ _ => ends_error ph e
    · intro t ch q r₀ hs hx
      rcases commit_exec hs hb (by rw [hfitb, hfita]; rfl) htx hx with ⟨⟨e, rfl⟩, hq⟩ | ⟨rfl, hq⟩
      · refine ⟨none, ?_, fun e _ => .inl ⟨e, rfl⟩, fun _ _ => .inl ⟨e, rfl⟩⟩
        have hstore : (t.setSql q).store = t.store := by
          show { t.store with wallet := q.committed } = t.store
          rw [hq]
          rfl
        rw [hstore]
        exact .stay none
      · have hexec : api.exec i ⟨⟨tx.id, was.id, tx.createdAt, 0, none⟩, []⟩
            (.wallet (.applyTransaction u type a ref desc)) t.store =
            some (.ok (toTransactionDto tx), (t.setSql q).store) :=
          congrArg (fun x => some (x.1, { t.store with wallet := x.2 })) hq
        exact ⟨_, .effect hexec, fun e _ => .inl ⟨e, rfl⟩, fun _ _ => .inr rfl⟩
    · rintro ph x w (⟨e, he⟩ | rfl)
      · exact absurd he (by simp)
      · exact .inl rfl

open SqlState in
/-- **`applyTransaction`**: one statement does it all, or none does anything. -/
theorem carries_applyTransaction (u : Uuid) (type : TransactionType) (a : Int) (ref : Option Uuid)
    (desc : String) (w : World apiOverSql.machine) :
    apiOverSql.CarriesOut overSqlRules i call (.wallet (.applyTransaction u type a ref desc))
      w := by
  show apiOverSql.Carries _ _ _ _ _
    ((Statements.applyTransaction u type a ref desc).expand sqlStatement) _ _
  unfold Statements.applyTransaction
  rw [Prog.expand_bind, Statements.startTransaction, Prog.expand_perform]
  refine Impl.carries_bind (Q := fun ph r (w' : World apiOverSql.machine) => ph = none ∧
    ∀ x, r = .ok x → InTx i Unwritten w'.state.sql)
    (carries_inside (J := fun _ => True) (by simp) (by simp) (fun _ h => h) ?_
      (fun _ _ => ⟨rfl, fun _ h => absurd h (by simp)⟩) trivial) ?_ fun ph e _ _ => ends_error ph e
  · intro s ch x w' _ hx
    exact ⟨rfl, fun _ _ => start_ok hx⟩
  rintro ph x w ⟨rfl, hw⟩
  rw [Prog.expand_tryCatch]
  refine Impl.carries_tryCatch (carries_transaction u type a ref desc (hw x rfl))
    (fun _ _ _ h => h) fun ph e w _ => ?_
  -- the rollback changes nothing that was committed
  rw [Prog.expand_bind, Statements.rollbackTransaction, Prog.expand_perform]
  refine Impl.carries_bind (Q := fun _ _ _ => True) (carries_inside (J := fun _ => True) (by simp)
    (by simp) (fun _ h => h) (fun _ _ => trivial) (fun _ _ => trivial) trivial)
    (fun ph _ _ _ => ends_error ph e) fun ph e _ _ => ends_error ph e

/-! ## Every operation -/

/-- A query of the wallet service is one statement. -/
theorem carries_query (q : WalletQuery) (w : World apiOverSql.machine) :
    apiOverSql.CarriesOut overSqlRules i call (.wallet (.query q)) w := by
  show apiOverSql.Carries _ _ _ _ _
    ((Prog.perform (S := SqlSig) (.query q)).expand sqlStatement) _ _
  rw [Prog.expand_perform]
  refine carries_sql (J := fun _ => True) (fun _ h => h) ?_ (fun e _ => ends_error none e) trivial
  intro t ch s r₀ _ hx
  simp only [SqlState.exec] at hx
  split at hx
  · exact absurd hx (by simp)
  · have hexec : api.exec i ⟨ch, []⟩ (.wallet (.query q)) t.store =
        some (r₀, (t.setSql s).store) := by
      obtain ⟨rfl, rfl⟩ := Prod.mk.inj (Option.some.inj hx)
      rfl
    exact ⟨some r₀, .effect hexec, fun e _ => ends_error _ e, fun _ _ => .inl rfl⟩

/-- Any other operation is one statement outside every transaction. -/
theorem carries_store {o : ApiOp} (ho : ∀ o', o ≠ .wallet o') (w : World apiOverSql.machine) :
    apiOverSql.Carries overSqlRules i call o (fun ph r _ => ph.Ends r)
      (.perform (S := StatementSig) (.store o)) none w := by
  refine Impl.carries_perform fun w₁ _ hinv r w₂ _ hx => ?_
  have hserved : StatementOp.Served (.store o) := by
    cases o with
    | wallet o' => exact absurd rfl (ho o')
    | _ => trivial
  rcases hx.exec.cases with ⟨ch, r₀, t, ht, hr, rfl⟩ | ⟨e, rfl, rfl⟩
  · obtain ⟨rfl, rfl⟩ := Prod.mk.inj (Option.some.inj ht)
    have hwallet : (w₁.state.store.exec ch o).2.wallet = w₁.state.store.wallet := by
      rcases (Store.exec_effect (r := (w₁.state.store.exec ch o).1) rfl).wallet_cases with
        h | ⟨o', -, rfl, -⟩
      · exact h
      · exact absurd rfl (ho o')
    refine ⟨?_, hserved, some (w₁.state.store.exec ch o).1, .effect (M := api) rfl, ?_⟩
    · show SqlState.Locked ⟨(w₁.state.store.exec ch o).2.wallet, _, _⟩
      rw [hwallet]
      exact hinv
    · rcases hr with rfl | ⟨e, rfl⟩
      · exact .inl rfl
      · exact ends_error _ e
  · exact ⟨hinv, hserved, none, .stay none, ends_error none e⟩

/-- **Every operation** is carried out by its statements. -/
theorem carriesOut (i : Nat) (call : ApiCall) (o : ApiOp) (w : World apiOverSql.machine) :
    apiOverSql.CarriesOut overSqlRules i call o w := by
  cases o with
  | wallet o =>
    cases o with
    | query q => exact carries_query q w
    | applyTransaction u type a ref desc => exact carries_applyTransaction u type a ref desc w
  | _ => exact carries_store (fun _ h => absurd h (by simp)) w

end Statements

/-! ## Every run -/

/-- What leaves the wallet tables alone leaves the transactions alone. -/
theorem sql_store {t : StatementStore} {s : Store} (h : s.wallet = t.store.wallet) :
    ({ t with store := s } : StatementStore).sql = t.sql := by
  unfold StatementStore.sql
  rw [h]

theorem overSqlRules_sound : overSqlRules.Sound (fun _ _ => True) fun _ _ _ _ => True where
  start c i call t _ hinv _ hs := by
    obtain ⟨s, hst, rfl⟩ := Option.map_eq_some_iff.mp hs
    have hsql := sql_store (start_tables hst).wallet
    refine ⟨?_, ?_, fun j _ _ _ => ?_⟩
    · show SqlState.Locked (StatementStore.sql _)
      rw [hsql]
      exact hinv
    · exact Rules.safe_expand (Prog.all_true _) (fun o _ w => (carriesOut i call o w).safe)
        fun _ _ => trivial
    · show SqlState.Keeps j _ (StatementStore.sql _)
      rw [hsql]
      exact .refl j _
  env c v t _ hinv hs := by
    match v with
    | .inl v =>
      obtain ⟨s, hst, rfl⟩ := Option.map_eq_some_iff.mp hs
      have hsql := sql_store (env_tables hst).wallet
      refine ⟨?_, fun j _ _ _ => ?_⟩
      · show SqlState.Locked (StatementStore.sql _)
        rw [hsql]
        exact hinv
      · show SqlState.Keeps j _ (StatementStore.sql _)
        rw [hsql]
        exact .refl j _
    | .inr i =>
      obtain rfl := Option.some.inj hs
      have hinv : c.state.sql.Locked := hinv
      exact ⟨hinv.close i, fun j _ _ _ => SqlState.close_keeps c.state.sql i j⟩
  cond _ _ _ _ _ _ _ _ _ _ := trivial
  modes _ _ _ _ := trivial
  rely c i m call o r w' _ _ hx hinv _ hserved j call' o' hj _ := by
    show SqlState.Keeps j c.state.sql w'.state.sql
    cases o with
    | sql o =>
      rcases exec_sql hx.exec with ⟨ch, q, r₀, hq, hw', -⟩ | ⟨-, hw'⟩
      · rw [hw']
        exact (SqlState.exec_effect hq).keeps hinv hj
      · rw [hw']
        exact .refl j _
    | store o =>
      have hwallet : w'.state.sql = c.state.sql := by
        rcases hx.exec.cases with ⟨ch, r₀, t, ht, -, rfl⟩ | ⟨e, -, rfl⟩
        · obtain ⟨-, rfl⟩ := Prod.mk.inj (Option.some.inj ht)
          refine sql_store ?_
          rcases (Store.exec_effect (r := (c.state.store.exec ch o).1) rfl).wallet_cases with
            h | ⟨o', -, rfl, -⟩
          · exact h
          · exact hserved.elim
        · rfl
      rw [hwallet]
      exact .refl j _
  post_run _ _ _ _ _ _ _ _ _ _ _ _ _ _ := trivial
  post_start _ _ _ _ _ _ _ _ _ := trivial
  post_env _ _ _ _ _ _ _ _ _ := trivial

/-- **The API over its database refines the API.** Whatever run of the statements led to `c`, some
run of `api` leads to the same store, and every call that ended has ended alike there. -/
theorem apiOverSql_refines {s : Store} {c : Config apiOverSql.machine}
    (h : apiOverSql.machine.Reachable (apiOverSql.machine.init (.ofStore s)) c) :
    ∃ a, api.Reachable (api.init s) a ∧ apiOverSql.ComesTo c a :=
  Impl.refines overSqlRules_sound carriesOut (fun _ _ hx => absurd hx (by simp [StatementStore.sql,
    StatementStore.ofStore])) h

/-- Thread `i` runs its next `n` statements, none of which fails. -/
def proceedSql (i n : Nat) : List (Event apiOverSql.machine) := List.replicate n (.run i (.ok {}))

/-- Three deposits of user 7. The answer to the first one's commit is lost; the process of the
second crashes inside its transaction, which keeps the row locked until its connection is closed. -/
def tornDeposits : List (Event apiOverSql.machine) :=
  .spawn 0 (.deposit 7 ⟨640, 1, by decide, by decide⟩) :: proceedSql 0 6 ++
  [.run 0 (.lost {} .ConnectionError), .run 0 (.ok {}),
    .spawn 1 (.deposit 7 ⟨320, 2, by decide, by decide⟩)] ++
  proceedSql 1 4 ++ [.crash 1, .env (.inr 1),
    .spawn 2 (.deposit 7 ⟨160, 3, by decide, by decide⟩)] ++ proceedSql 2 6

/-- The first and the third deposit took effect, and the API could have come to the same. -/
theorem apiOverSql_refines_torn : ∃ c a,
    apiOverSql.machine.Reachable (apiOverSql.machine.init (.ofStore .empty)) c ∧
    c.state.store.wallet.balanceOf 7 = 800 ∧ api.Reachable (api.init .empty) a ∧
    apiOverSql.ComesTo c a := by
  obtain ⟨c, hc, hb⟩ : ∃ c, apiOverSql.machine.replay
      (apiOverSql.machine.init (.ofStore .empty)) tornDeposits = some c ∧
      c.state.store.wallet.balanceOf 7 = 800 := ⟨_, rfl, rfl⟩
  have hr := Machine.Reach.of_replay .init hc
  obtain ⟨a, ha, hcome⟩ := apiOverSql_refines hr
  exact ⟨c, a, hr, hb, ha, hcome⟩

end BoltBet
