import BoltBet.Wallet.Ledger
import BoltBet.Wallet.Locking

/-!
# `applyTransaction` is atomic

`walletRules` is the discipline of the wallet statements: the committed tables have the ledger,
every transaction relies on its locks (`Keeps`), and a statement changes the committed tables by
at most one whole operation (`Linear`).

`Holding` is what a transaction knows from its row lock on: the committed row it started from, the
row it sees, and its uncommitted writes. `commit_linear` reads the operation off it.

* `walletSql_linear`: every statement of every run is one operation on the committed tables, or
  nothing.
* `walletSql_ledger`: every reachable committed state has the ledger.
-/

namespace BoltBet

open Async

/-- The rules of the wallet statements. -/
def walletRules : Rules walletSql where
  inv w := w.state.committed.Ledger ∧ w.state.Locked
  guar _ _ _ w w' := WalletDb.Linear w.state.committed w'.state.committed
  rely i _ _ w w' := SqlState.Keeps i w.state w'.state
  cond _ _ _ _ _ _ := True
  rely_refl i _ _ w := .refl i w.state
  rely_trans := .trans

namespace SqlState

/-- Only a commit and the insert of a fresh wallet touch the committed tables. -/
theorem Effect.committed_eq {i : Nat} {s s' : SqlState} {o : SqlOp} (h : Effect i s o s')
    (hc : o ≠ .commitTransaction) (hq : ∀ u, o ≠ .query (.walletCreate u)) :
    s'.committed = s.committed := by
  cases h with
  | create u id hw hl => exact absurd rfl (hq u)
  | commit x hx => exact absurd rfl hc
  | none | start | lock | insert | update | txInsert | rollback => rfl

/-- A statement that is no commit is at most one operation. -/
theorem Effect.linear {i : Nat} {s s' : SqlState} {o : SqlOp} (h : Effect i s o s')
    (hc : o ≠ .commitTransaction) : WalletDb.Linear s.committed s'.committed := by
  by_cases hq : ∃ u, o = .query (.walletCreate u)
  · obtain ⟨u, rfl⟩ := hq
    cases h with
    | none => exact .inl rfl
    | create u id hw hl =>
      refine .inr ⟨{ freshWallet := id }, .query (.walletCreate u), ⟨id, 0⟩, trivial, ?_⟩
      simp only [WalletDb.exec, WalletDb.execQuery, hw]
  · exact .inl (h.committed_eq hc fun u hu => hq ⟨u, hu⟩)

/-! ## What a transaction knows -/

/-- The open transaction `x` of `i` holds the wallet row of `u`: it was `was` before (a new row has
balance 0), it is `now` in `x`, and `x` appended `txs`. -/
structure Holding (i : Nat) (u : Uuid) (was now : Wallet) (txs : List WalletTransaction)
    (s : SqlState) (x : Session) : Prop where
  lock : s.locks u = some i
  was : (s.committed.wallets u).getD ⟨was.id, 0⟩ = was
  now : s.visible x u = some now
  others : ∀ v, v ≠ u → x.wallets v = none
  txs : x.txs = txs

/-- Something holds of the transaction of `i`, unless the connection was lost. -/
def InTx (i : Nat) (P : SqlState → Session → Prop) (s : SqlState) : Prop :=
  ∀ x, s.sessions i = some x → P s x

/-- Nothing has been written yet. -/
def Unwritten (_ : SqlState) (x : Session) : Prop := x.wallets = (fun _ => none) ∧ x.txs = []

/-- Others cannot change what `i` knows of its transaction. -/
theorem Keeps.inTx {i : Nat} {s s' : SqlState} (hk : Keeps i s s') {P : SqlState → Session → Prop}
    (hP : ∀ x, s'.sessions i = some x → P s x → P s' x) (h : InTx i P s) : InTx i P s' := by
  intro x hx
  refine hP x hx (h x ?_)
  rcases hk.session with e | e
  · exact e ▸ hx
  · exact absurd (e.symm.trans hx) (by simp)

theorem Keeps.unwritten {i : Nat} {s s' : SqlState} (hk : Keeps i s s')
    (h : InTx i Unwritten s) : InTx i Unwritten s' :=
  hk.inTx (fun _ _ hx => hx) h

theorem Keeps.holding {i : Nat} {s s' : SqlState} (hk : Keeps i s s') {u : Uuid}
    {was now : Wallet} {txs : List WalletTransaction} (h : InTx i (Holding i u was now txs) s) :
    InTx i (Holding i u was now txs) s' := by
  refine hk.inTx (fun x hx hh => ?_) h
  obtain ⟨hl, hw⟩ := hk.rows x hx u hh.lock
  refine ⟨hl, ?_, ?_, hh.others, hh.txs⟩
  · rw [hw]
    exact hh.was
  · unfold visible
    rw [hw]
    exact hh.now

/-! ## What each statement of the transaction establishes -/

theorem setSession_self (s : SqlState) (i : Nat) (x : Session) :
    (s.setSession i x).sessions i = some x := Function.update_self ..

theorem writeWallet_self (s : SqlState) (i : Nat) (x : Session) (u : Uuid) (w : Wallet) :
    (s.writeWallet i x u w).sessions i =
      some { x with wallets := Function.update x.wallets u (some w) } := setSession_self ..

section Statements

variable {i : Nat} {ch : WalletChoice} {s s' : SqlState} {u : Uuid} {was now w : Wallet}

theorem start_ok (h : exec i ch .startTransaction s = some (.ok (), s')) :
    InTx i Unwritten s' := by
  obtain ⟨-, rfl⟩ := Prod.mk.inj (Option.some.inj h)
  intro x hx
  obtain rfl := Option.some.inj ((setSession_self s i _).symm.trans hx)
  exact ⟨rfl, rfl⟩

theorem select_some (hs : InTx i Unwritten s)
    (h : exec i ch (.walletSelectForUpdate u) s = some (.ok (some w), s')) :
    InTx i (Holding i u w w []) s' := by
  obtain ⟨x, hx, h⟩ := inSession_ok h
  obtain ⟨hw, ht⟩ := hs x hx
  split at h
  · cases h
  · rename_i w' hv
    split at h
    · obtain ⟨hww, rfl⟩ := Prod.mk.inj (Option.some.inj h)
      obtain rfl : w' = w := Option.some.inj (Except.ok.inj hww)
      intro y hy
      obtain rfl : x = y := Option.some.inj (hx.symm.trans hy)
      have hc : s.committed.wallets u = some w' := by simpa [visible, hw] using hv
      refine ⟨lock_self s i u, ?_, hv, fun v _ => by rw [hw], ht⟩
      show (s.committed.wallets u).getD _ = w'
      rw [hc]
      rfl
    · exact absurd h (by simp)

theorem select_none (hs : InTx i Unwritten s)
    (h : exec i ch (.walletSelectForUpdate u) s = some (.ok none, s')) :
    InTx i Unwritten s' := by
  obtain ⟨x, hx, h⟩ := inSession_ok h
  split at h
  · exact (Prod.mk.inj (Option.some.inj h)).2 ▸ hs
  · split at h <;> cases h

theorem insert_ok (hs : InTx i Unwritten s)
    (h : exec i ch (.walletInsert u) s = some (.ok w, s')) :
    InTx i (Holding i u w w []) s' := by
  obtain ⟨x, hx, h⟩ := inSession_ok h
  obtain ⟨hw, ht⟩ := hs x hx
  split at h
  · exact absurd h (by simp)
  · rename_i hv
    split at h
    · obtain ⟨hww, rfl⟩ := Prod.mk.inj (Option.some.inj h)
      obtain rfl : (⟨ch.freshWallet, 0⟩ : Wallet) = w := Except.ok.inj hww
      intro y hy
      obtain rfl := Option.some.inj ((writeWallet_self s i x u _).symm.trans hy)
      have hc : s.committed.wallets u = none := by simpa [visible, hw] using hv
      refine ⟨lock_self s i u, ?_, ?_, fun v hvu => ?_, ht⟩
      · show (s.committed.wallets u).getD _ = _
        rw [hc]
        rfl
      · simp [visible]
      · show Function.update x.wallets u _ v = none
        rw [Function.update_of_ne hvu, hw]
    · exact absurd h (by simp)

theorem update_ok (hs : InTx i (Holding i u was now []) s) (hid : now.id = w.id)
    (h : exec i ch (.walletUpdate u w) s = some (.ok (), s')) :
    InTx i (Holding i u was w []) s' ∧ fitsInteger w.balanceCents := by
  obtain ⟨x, hx, h⟩ := inSession_ok h
  have hh := hs x hx
  simp only [hh.now, hid, if_true] at h
  split at h
  · split at h
    · rename_i hfit
      refine ⟨?_, hfit⟩
      obtain ⟨-, rfl⟩ := Prod.mk.inj (Option.some.inj h)
      intro y hy
      obtain rfl := Option.some.inj ((writeWallet_self s i x u w).symm.trans hy)
      refine ⟨lock_self s i u, hh.was, ?_, fun v hvu => ?_, hh.txs⟩
      · simp [visible]
      · exact (Function.update_of_ne hvu ..).trans (hh.others v hvu)
    · exact absurd h (by simp)
  · exact absurd h (by simp)

theorem txInsert_ok {d : TransactionDraft} {tx : WalletTransaction}
    (hs : InTx i (Holding i u was now []) s)
    (h : exec i ch (.txInsert d) s = some (.ok tx, s')) :
    InTx i (Holding i u was now [tx]) s' ∧ fitsInteger d.balanceAfterCents ∧
      fitsInteger d.amountCents ∧
      tx = ⟨tx.id, d.walletId, d.userId, d.type, d.amountCents, d.balanceAfterCents,
        d.referenceId, some d.description, tx.createdAt⟩ := by
  obtain ⟨x, hx, h⟩ := inSession_ok h
  have hh := hs x hx
  split at h
  · rename_i hfit
    obtain ⟨htx, rfl⟩ := Prod.mk.inj (Option.some.inj h)
    have htx := (Except.ok.inj htx).symm
    rw [Bool.and_eq_true] at hfit
    refine ⟨fun y hy => ?_, hfit.1, hfit.2, ?_⟩
    · obtain rfl := Option.some.inj ((setSession_self s i _).symm.trans hy)
      refine ⟨hh.lock, hh.was, hh.now, hh.others, ?_⟩
      rw [htx]
      exact congrArg (· ++ _) hh.txs
    · rw [htx]
  · exact absurd h (by simp)

/-- **The commit performs the whole operation.** -/
theorem commit_linear {type : TransactionType} {a : Int} (ha : 0 < a) {ref : Option Uuid}
    {desc : String} {b : Int} {tx : WalletTransaction} {r : Except Err Unit}
    (hs : InTx i (Holding i u was { was with balanceCents := b } [tx]) s)
    (hb : WalletDb.newBalance type was.balanceCents a = .ok b)
    (hfit : fitsInteger b && fitsInteger a)
    (htx : tx = ⟨tx.id, was.id, u, type, a, b, ref, some desc, tx.createdAt⟩)
    (h : exec i ch .commitTransaction s = some (r, s')) :
    WalletDb.Linear s.committed s'.committed := by
  rcases inSession_some h with h | ⟨x, hx, h⟩
  · exact .inl (congrArg SqlState.committed (Prod.mk.inj h).2)
  · obtain ⟨-, rfl⟩ := Prod.mk.inj (Option.some.inj h)
    have hh := hs x hx
    refine .inr ⟨{ fresh := tx.id, freshWallet := was.id, now := tx.createdAt },
      .applyTransaction u type a ref desc, toTransactionDto tx, ha, ?_⟩
    simp only [WalletDb.exec, WalletDb.applyAtomic, hh.was, hb, hfit, if_true, ← htx]
    refine Prod.ext rfl ?_
    show WalletDb.mk _ _ = WalletDb.mk _ _
    rw [hh.txs]
    congr 1
    funext v
    by_cases hv : v = u
    · subst hv
      exact (Function.update_self ..).trans hh.now.symm
    · unfold visible
      rw [hh.others v hv]
      exact Function.update_of_ne hv ..

end Statements

end SqlState

/-! ## The programs -/

/-- Calls with positive amounts run operations with positive amounts. -/
theorem WalletCall.body_positive (call : WalletCall) : call.body.All WalletOp.Positive := by
  have hq : ∀ q, (Prog.perform (S := WalletSig) (.query q)).All WalletOp.Positive :=
    fun q => Prog.All.perform (S := WalletSig) trivial
  have happly : ∀ u t a ref desc, 0 < a →
      (WalletService.applyTransaction u t a ref desc).All WalletOp.Positive :=
    fun u t a ref desc ha => Prog.All.perform (S := WalletSig) ha
  cases call with
  | getBalance u =>
    refine Prog.All.map (.bind (.bind (hq _) fun w => ?_) fun w => ?_)
    · cases w with
      | some w => trivial
      | none => exact hq _
    · trivial
  | deposit u dto =>
    refine Prog.All.map (.bind (hq _) fun existing => ?_)
    cases existing with
    | some tx => trivial
    | none => exact happly _ _ _ _ _ (by have := dto.min; omega)
  | debit u a ha ref desc | credit u a ha ref desc =>
    refine Prog.All.map (.bind (hq _) fun existing => ?_)
    cases existing with
    | some tx => trivial
    | none => exact happly _ _ _ _ _ ha

section Programs

variable {i : Nat} {call : walletSql.Call}

/-- One statement of a transaction, from what the transaction knows before it. -/
theorem safe_statement {o : SqlOp} {J : SqlState → Prop}
    {Q : Except Err o.Res → World walletSql → Prop} {w : World walletSql}
    (hJ : ∀ {s s'}, SqlState.Keeps i s s' → J s → J s')
    (hlin : ∀ {s ch r s'}, J s → SqlState.exec i ch o s = some (r, s') →
      WalletDb.Linear s.committed s'.committed)
    (hok : ∀ {s ch a} {w' : World walletSql}, J s →
      SqlState.exec i ch o s = some (.ok a, w'.state) → Q (.ok a) w')
    (herr : ∀ e w', Q (.error e) w') (hw : J w.state) :
    walletRules.Safe i call Q (Prog.perform (S := SqlSig) o) w := by
  refine Rules.safe_perform fun w₁ hrel hinv r w₂ _ hx => ?_
  have h₁ : J w₁.state := hJ hrel hw
  have hlin' : WalletDb.Linear w₁.state.committed w₂.state.committed ∧ w₂.state.Locked := by
    rcases hx.exec.cases with ⟨ch, r₀, s, hs, -, rfl⟩ | ⟨e, -, rfl⟩
    · exact ⟨hlin h₁ hs, (SqlState.exec_effect hs).locked hinv.2⟩
    · exact ⟨.inl rfl, hinv.2⟩
  refine ⟨⟨hlin'.1.ledger hinv.1, hlin'.2⟩, hlin'.1, ?_⟩
  cases r with
  | error e => exact herr e w₂
  | ok a =>
    obtain ⟨ch, s, hs, rfl⟩ := hx.exec.ok_cases
    exact hok h₁ hs

/-- A statement that is no commit, as `safe_statement`. -/
theorem safe_statement' {o : SqlOp} (ho : o ≠ .commitTransaction) {J : SqlState → Prop}
    {Q : Except Err o.Res → World walletSql → Prop} {w : World walletSql}
    (hJ : ∀ {s s'}, SqlState.Keeps i s s' → J s → J s')
    (hok : ∀ {s ch a} {w' : World walletSql}, J s →
      SqlState.exec i ch o s = some (.ok a, w'.state) → Q (.ok a) w')
    (herr : ∀ e w', Q (.error e) w') (hw : J w.state) :
    walletRules.Safe i call Q (Prog.perform (S := SqlSig) o) w :=
  safe_statement hJ (fun _ hs => (SqlState.exec_effect hs).linear ho) hok herr hw

open SqlState in
theorem safe_lockedWallet (u : Uuid) {w : World walletSql} (hw : InTx i Unwritten w.state) :
    walletRules.Safe i call (fun r w' => ∀ was, r = .ok was →
      InTx i (Holding i u was was []) w'.state) (Statements.lockedWallet u) w := by
  unfold Statements.lockedWallet
  refine Rules.safe_bind.mpr (safe_statement' (J := InTx i Unwritten) (by simp) Keeps.unwritten
    ?_ (fun _ _ was h => absurd h (by simp)) hw)
  intro s ch row w' hs hx
  cases row with
  | some was =>
    rintro _ ⟨⟩
    exact select_some hs hx
  | none =>
    refine safe_statement' (J := InTx i Unwritten) (by simp) Keeps.unwritten ?_
      (fun _ _ was h => absurd h (by simp)) (select_none hs hx)
    rintro s ch was w' hs hx _ ⟨⟩
    exact insert_ok hs hx

open SqlState in
theorem safe_transaction (u : Uuid) (type : TransactionType) {a : Int} (ha : 0 < a)
    (ref : Option Uuid) (desc : String) {w : World walletSql} (hw : InTx i Unwritten w.state) :
    walletRules.Safe i call (fun _ _ => True)
      (Statements.transaction u type a ref desc) w := by
  unfold Statements.transaction
  refine Rules.safe_seq (safe_lockedWallet u hw) (fun was w hw => ?_) fun _ _ _ => trivial
  replace hw := hw was rfl
  rw [Statements.moveBalance_eq]
  cases hb : WalletDb.newBalance type was.balanceCents a with
  | error e => trivial
  | ok b =>
    simp only [Prog.ret_bind]
    refine Rules.safe_bind.mpr (safe_statement' (by simp) (fun hk => hk.holding) ?_
      (fun _ _ => trivial) hw)
    intro s ch _ w hs hx
    obtain ⟨hw, hfitb⟩ := update_ok (w := { was with balanceCents := b }) hs rfl hx
    refine Rules.safe_bind.mpr (safe_statement' (by simp) (fun hk => hk.holding) ?_
      (fun _ _ => trivial) hw)
    intro s ch tx w hs hx
    obtain ⟨hw, -, hfita, htx⟩ := txInsert_ok hs hx
    refine Rules.safe_bind.mpr (safe_statement (fun hk => hk.holding) (fun hs hx => ?_)
      (fun _ _ => trivial) (fun _ _ => trivial) hw)
    exact commit_linear ha hs hb (by rw [hfitb, hfita]; rfl) htx hx

theorem safe_applyTransaction (u : Uuid) (type : TransactionType) {a : Int} (ha : 0 < a)
    (ref : Option Uuid) (desc : String) (w : World walletSql) :
    walletRules.Safe i call (fun _ _ => True)
      (Statements.applyTransaction u type a ref desc) w := by
  unfold Statements.applyTransaction
  refine Rules.safe_bind.mpr (safe_statement' (J := fun _ => True) (by simp) (fun _ h => h) ?_
    (fun _ _ => trivial) trivial)
  intro s ch _ w _ hx
  refine Rules.safe_try (safe_transaction u type ha ref desc (SqlState.start_ok hx))
    (fun _ _ _ => trivial) fun e w _ => Rules.safe_bind.mpr ?_
  exact safe_statement' (J := fun _ => True) (by simp) (fun _ h => h) (fun _ _ => trivial)
    (fun _ _ => trivial) trivial

/-- A query is at most one operation. -/
theorem safe_query (q : WalletQuery) (w : World walletSql) :
    walletRules.Safe i call (fun _ _ => True) (Statements.statements (.query q)) w :=
  safe_statement' (J := fun _ => True) (by simp) (fun _ h => h) (fun _ _ => trivial)
    (fun _ _ => trivial) trivial

theorem safe_statements (o : WalletOp) (ho : o.Positive) (w : World walletSql) :
    walletRules.Safe i call (fun _ _ => True) (Statements.statements o) w := by
  cases o with
  | query q => exact safe_query q w
  | applyTransaction u type a ref desc => exact safe_applyTransaction u type ho ref desc w

end Programs

/-! ## Every run -/

theorem walletRules_sound :
    walletRules.Sound (fun _ _ => True) (fun _ _ _ _ => True) where
  start c i call s _ hinv _ hs := by
    obtain rfl : c.state = s := Option.some.inj hs
    exact ⟨hinv, Rules.safe_expand call.body_positive safe_statements fun _ _ => trivial,
      fun j _ _ _ => .refl j c.state⟩
  env c v s _ hinv hs := by
    obtain rfl : c.state.close v = s := Option.some.inj hs
    exact ⟨⟨hinv.1, hinv.2.close v⟩, fun j _ _ _ => SqlState.close_keeps c.state v j⟩
  cond _ _ _ _ _ _ _ _ _ _ := trivial
  modes _ _ _ _ := trivial
  rely c i m call o r w' _ _ hx hinv _ _ j call' o' hj _ := by
    rcases hx.exec.cases with ⟨ch, r₀, s, hs, -, rfl⟩ | ⟨e, -, rfl⟩
    · exact (SqlState.exec_effect hs).keeps hinv.2 hj
    · exact .refl j c.state
  post_run _ _ _ _ _ _ _ _ _ _ _ _ _ _ := trivial
  post_start _ _ _ _ _ _ _ _ _ := trivial
  post_env _ _ _ _ _ _ _ _ _ := trivial

theorem SqlState.empty_locked : empty.Locked := fun _ _ h => absurd h (by simp [empty])

/-- **Every statement is one operation on the committed tables, or nothing.** -/
theorem walletSql_linear {c c' : Config walletSql} {e : Event walletSql}
    (h : walletSql.Reachable (walletSql.init .empty) c) (hs : walletSql.step c e = some c') :
    WalletDb.Linear c.state.committed c'.state.committed := by
  have hgood := walletRules_sound.reach ⟨WalletDb.ledger_empty, SqlState.empty_locked⟩ h
  rcases walletSql.step_cases hs with ⟨i, call, s, rfl, -, hst, rfl⟩ |
    ⟨i, m, call, o, k, -, -, rfl, hi, -, -⟩ | ⟨i, call, o, k, rfl, -, rfl⟩ |
    ⟨v, s, rfl, hv, rfl⟩
  · exact .inl (congrArg SqlState.committed (Option.some.inj hst).symm)
  · obtain ⟨r, w', hx, rfl⟩ := walletSql.step_run hs hi
    exact walletRules_sound.guar_step hgood trivial ⟨k, hi⟩ hx
  · exact .inl rfl
  · obtain rfl : c.state.close v = s := Option.some.inj hv
    exact .inl rfl

/-- **The ledger of every reachable committed state.** -/
theorem walletSql_ledger {c : Config walletSql}
    (h : walletSql.Reachable (walletSql.init .empty) c) (u : Uuid) :
    c.state.committed.balanceOf u = netOf (c.state.committed.rowsOf u) ∧
    0 ≤ c.state.committed.balanceOf u ∧
    ∀ earlier tx later, c.state.committed.rowsOf u = earlier ++ tx :: later →
      tx.balanceAfterCents = netOf (earlier ++ [tx]) := by
  have hl := (walletRules_sound.reach ⟨WalletDb.ledger_empty, SqlState.empty_locked⟩ h).1.1
  exact ⟨hl.balance_eq u, hl.nonneg u, fun _ _ _ => hl.after_eq⟩

/-- Two first deposits of user 7 race for the new wallet: both find no row to lock, one inserts it
and commits, the insert of the other fails and it rolls back. -/
def firstWalletRace : List (Event walletSql) :=
  [.spawn 0 (.deposit 7 ⟨600, 1, by decide, by decide⟩),
   .spawn 1 (.deposit 7 ⟨300, 2, by decide, by decide⟩),
   .run 0 (.ok {}), .run 1 (.ok {}), .run 0 (.ok {}), .run 1 (.ok {}), .run 0 (.ok {}),
   .run 1 (.ok {}), .run 0 (.ok { freshWallet := 70 }), .run 0 (.ok {}),
   .run 0 (.ok { fresh := 71 }), .run 0 (.ok {}), .run 1 (.ok {}), .run 1 (.ok {})]

/-- The race ends with one deposit, and with a ledger. -/
theorem walletSql_ledger_race : ∃ c, walletSql.Reachable (walletSql.init .empty) c ∧
    c.state.committed.balanceOf 7 = 600 ∧
    c.state.committed.balanceOf 7 = netOf (c.state.committed.rowsOf 7) := by
  obtain ⟨c, hc, hb⟩ : ∃ c, walletSql.replay (walletSql.init .empty) firstWalletRace = some c ∧
      c.state.committed.balanceOf 7 = 600 := ⟨_, rfl, rfl⟩
  have hr := Machine.Reach.of_replay .init hc
  exact ⟨c, hr, hb, (walletSql_ledger hr 7).1⟩

end BoltBet
