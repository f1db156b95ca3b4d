import BoltBet.Api.Rules
import BoltBet.Async.Alone
import BoltBet.Async.Sequential
import BoltBet.Wallet.Ledger

/-!
# The keys of deposits

`deposit` looks for a row of its user and mutation id before it books, and takes a row of any type
for its own. `debit` and `credit` ask for their type.

* `oneDeposit`: calls that run one after the other leave one deposit of a key at most.
* `deposit_keyed_iff`: so a deposit books once, as its key says, iff no row of another type has
  that key.
-/

namespace BoltBet

open Async

/-- The deposit books a row of its amount; one that the balance column cannot take throws. -/
def Books (u : Uuid) (dto : DepositDto) (s : Store) (r : Except Err ApiReply) (s' : Store) : Prop :=
  if fitsInteger (s.wallet.balanceOf u + dto.amountCents) then
    ∃ tx : WalletTransaction, tx.Matches u dto.clientMutationId (some .DEPOSIT) ∧
      tx.amountCents = dto.amountCents ∧ r = .ok (.transaction (toTransactionDto tx)) ∧
      s'.wallet.walletTransactions = s.wallet.walletTransactions ++ [tx] ∧
      s'.wallet.balanceOf u = s.wallet.balanceOf u + dto.amountCents ∧
      (∀ v ≠ u, s'.wallet.balanceOf v = s.wallet.balanceOf v) ∧
      s' = { s with wallet := s'.wallet }
  else r.toBool = false ∧ s' = s

/-- **Deposits are keyed among deposits**: without a deposit of its key the call books one,
otherwise it answers with that one and changes nothing. -/
def DepositKeyed (s : Store) (u : Uuid) (dto : DepositDto) : Prop :=
  ∀ i (φ : Nat → ApiChoice), ∃ r s',
    api.finish i (ApiCall.deposit u dto).body s (fun n => .ok (φ n)) = some (r, s') ∧
    ((∀ tx ∈ s.wallet.walletTransactions,
        ¬ tx.Matches u dto.clientMutationId (some .DEPOSIT)) → Books u dto s r s') ∧
    ∀ tx ∈ s.wallet.walletTransactions, tx.Matches u dto.clientMutationId (some .DEPOSIT) →
      r = .ok (.transaction (toTransactionDto tx)) ∧ s' = s

/-! ## One call -/

variable {s : Store} {u : Uuid} {dto : DepositDto} {i : Nat} {φ : Nat → ApiChoice}

/-- `deposit` as operations of the store. -/
theorem deposit_body (u : Uuid) (dto : DepositDto) :
    (ApiCall.deposit u dto).body = (do
      match ← Prog.perform (S := ApiSig)
          (.wallet (.query (.txFindOne u dto.clientMutationId none))) with
      | some existing => return .transaction (toTransactionDto existing)
      | none =>
        let tx ← Prog.perform (S := ApiSig) (.wallet (.applyTransaction u .DEPOSIT
          dto.amountCents (some dto.clientMutationId) "Deposit"))
        return .transaction tx) := by
  show ApiReply.transaction <$> Api.wallet (WalletService.deposit u dto) = _
  unfold WalletService.deposit WalletService.txFindOne
  rw [map_eq_pure_bind, Api.wallet_bind, Api.wallet_perform, LawfulMonad.bind_assoc]
  refine bind_congr fun existing => ?_
  cases existing with
  | some tx => rfl
  | none => exact congrArg (· >>= _) (Api.wallet_perform _)

/-- The answer of the lookup. -/
theorem lookup_answer {found : Option WalletTransaction} (h : pickOne (φ 0).pick
    (s.wallet.walletTransactions.filter (·.Matches u dto.clientMutationId none)) = found) :
    api.answer i (.ok (φ 0)) (.wallet (.query (.txFindOne u dto.clientMutationId none))) s =
      some (.ok found, s, true) := by
  subst h
  rfl

/-- A row that is found is the answer. -/
theorem finish_found {tx : WalletTransaction} (h : pickOne (φ 0).pick
    (s.wallet.walletTransactions.filter (·.Matches u dto.clientMutationId none)) = some tx) :
    api.finish i (ApiCall.deposit u dto).body s (fun n => .ok (φ n)) =
      some (.ok (.transaction (toTransactionDto tx)), s) := by
  rw [deposit_body, Machine.finish_perform (lookup_answer h)]
  rfl

/-- Without a row of its key the call books. -/
theorem finish_books (h : ∀ tx ∈ s.wallet.walletTransactions,
    ¬ tx.Matches u dto.clientMutationId none) : ∃ r s',
    api.finish i (ApiCall.deposit u dto).body s (fun n => .ok (φ n)) = some (r, s') ∧
      Books u dto s r s' := by
  have hnone : s.wallet.walletTransactions.filter (·.Matches u dto.clientMutationId none) = [] :=
    List.filter_eq_nil_iff.mpr fun tx htx => by simpa using h tx htx
  have hfound : pickOne (φ 0).pick (s.wallet.walletTransactions.filter
      (·.Matches u dto.clientMutationId none)) = none := by
    rw [hnone]
    rfl
  have hamount : fitsInteger dto.amountCents = true := by
    have hmin := dto.min
    have hmax := dto.max
    simp only [fitsInteger, Bool.and_eq_true, decide_eq_true_eq]
    omega
  -- the booking, as one operation of the store
  have hmoves : s.wallet.applyAtomic (φ 1).toWalletChoice u .DEPOSIT dto.amountCents
      (some dto.clientMutationId) "Deposit" = _ := WalletDb.applyAtomic_moves rfl rfl
  have hanswer : ∀ {r db}, s.wallet.applyAtomic (φ 1).toWalletChoice u .DEPOSIT dto.amountCents
      (some dto.clientMutationId) "Deposit" = (r, db) →
      api.answer i (.ok (φ 1)) (.wallet (.applyTransaction u .DEPOSIT dto.amountCents
        (some dto.clientMutationId) "Deposit")) s =
        some (r, { s with wallet := db }, r.toBool) := by
    intro r db hx
    show some ((WalletDb.exec _ _ _).1, { s with wallet := (WalletDb.exec _ _ _).2 },
      (WalletDb.exec _ _ _).1.toBool) = _
    simp only [WalletDb.exec, hx]
  rw [WalletDb.balanceOf_getD, hamount, Bool.and_true] at hmoves
  rw [deposit_body, Machine.finish_perform (lookup_answer hfound)]
  by_cases hfits : fitsInteger (s.wallet.balanceOf u + dto.amountCents) = true
  · rw [if_pos hfits] at hmoves
    refine ⟨_, _, (Machine.finish_perform (hanswer hmoves)).trans rfl, ?_⟩
    unfold Books
    rw [if_pos hfits]
    refine ⟨_, ⟨rfl, rfl, by simp⟩, rfl, rfl, rfl, ?_, fun v hv => ?_, rfl⟩
    · exact WalletDb.balanceOf_setWallet_self ..
    · exact WalletDb.balanceOf_setWallet_ne _ hv
  · rw [if_neg hfits] at hmoves
    refine ⟨_, _, (Machine.finish_perform (hanswer hmoves)).trans rfl, ?_⟩
    unfold Books
    rw [if_neg hfits]
    exact ⟨rfl, rfl⟩

/-! ## Calls one after the other -/

/-- A user has one deposit of a reference at most. -/
def OneDeposit (db : WalletDb) : Prop := ∀ u ref, (db.rowsFor u .DEPOSIT ref).length ≤ 1

/-- Only a deposit books a deposit. -/
theorem oneDeposit_exec {ch : WalletChoice} {o : WalletOp} {db db' : WalletDb}
    {r : Except Err o.Res} (h : WalletDb.exec ch o db = (r, db')) (hdb : OneDeposit db)
    (hnew : ∀ u a ref desc, o = .applyTransaction u .DEPOSIT a ref desc →
      ∀ m ∈ ref, db.rowsFor u .DEPOSIT m = []) : OneDeposit db' := by
  intro u m
  rcases WalletDb.exec_rows h with ⟨hrows, -⟩ |
    ⟨u', t, a, ref, desc, tx, rfl, -, rfl, rfl, -, rfl, hrows⟩
  · unfold WalletDb.rowsFor
    rw [hrows]
    exact hdb u m
  · have happend : db'.rowsFor u .DEPOSIT m = db.rowsFor u .DEPOSIT m ++
        [tx].filter (·.Matches u m (some .DEPOSIT)) := by
      unfold WalletDb.rowsFor
      rw [hrows, List.filter_append]
    rw [happend]
    by_cases hm : tx.Matches u m (some .DEPOSIT)
    · obtain ⟨rfl, href, htype⟩ := hm
      have hold := hnew tx.userId a tx.referenceId desc (by rw [htype _ rfl]) m href
      rw [hold]
      simpa using List.length_filter_le _ [tx]
    · rw [List.filter_cons_of_neg (by simpa using hm), List.filter_nil, List.append_nil]
      exact hdb u m

/-- Nobody disturbs a call that waits. -/
def depositRules : Rules api where
  inv w := OneDeposit w.state.wallet
  guar _ _ _ _ _ := True
  rely _ _ _ w w' := w'.state.wallet = w.state.wallet
  cond _ _ _ _ _ _ := True
  rely_refl _ _ _ _ := rfl
  rely_trans h h' := h'.trans h

section Calls

variable {call : ApiCall} {w : World api}

/-- An operation keeps the deposits, when a booking has looked for its key. -/
theorem oneDeposit_op {o : ApiOp} {r : Except Err o.Res} {w' : World api}
    (hx : api.Exec i call o w r w') (hw : OneDeposit w.state.wallet)
    (hnew : ∀ u a ref desc, o = .wallet (.applyTransaction u .DEPOSIT a ref desc) →
      ∀ m ∈ ref, w.state.wallet.rowsFor u .DEPOSIT m = []) : OneDeposit w'.state.wallet := by
  obtain ⟨ch, he⟩ := api_exec_effect hx
  rcases he.wallet_cases with hsame | ⟨o', r', rfl, hs⟩
  · rwa [hsame]
  · refine oneDeposit_exec hs hw fun u a ref desc ho => hnew u a ref desc ?_
    rw [ho]

/-- A key without rows has none of a type. -/
theorem rowsFor_eq_nil {db : WalletDb} {u ref : Uuid} (t : TransactionType)
    (h : db.walletTransactions.filter (·.Matches u ref none) = []) : db.rowsFor u t ref = [] := by
  unfold WalletDb.rowsFor
  rw [List.filter_eq_nil_iff] at h ⊢
  intro tx htx hm
  have hmatch : tx.Matches u ref (some t) := by simpa using hm
  exact h tx htx (by simpa using ⟨hmatch.1, hmatch.2.1, by simp⟩)

/-- `deposit` books when it found no row of its key, and nobody books one in between. -/
theorem deposit_safe (u : Uuid) (dto : DepositDto) (w : World api) :
    depositRules.Safe i call (fun _ _ => True) (ApiCall.deposit u dto).body w := by
  rw [deposit_body]
  refine Rules.safe_bind.mpr (Rules.safe_perform fun w₁ _ hinv r w₂ _ hx => ?_)
  refine ⟨oneDeposit_op hx.exec hinv (by simp), trivial, ?_⟩
  rcases r with e | _ | tx
  · trivial
  · obtain ⟨ch, hs, -⟩ := api_exec_ok hx.exec
    obtain ⟨hfound, hsame⟩ := Prod.mk.inj hs
    have hnone := pickOne_eq_none (Except.ok.inj hfound)
    refine Rules.safe_bind.mpr (Rules.safe_perform fun w₃ hrely hinv₃ r w₄ _ hx₄ => ?_)
    refine ⟨oneDeposit_op hx₄.exec hinv₃ ?_, trivial, ?_⟩
    · intro u' a ref desc ho m hm
      obtain ⟨rfl, -, -, rfl, -⟩ := WalletOp.applyTransaction.inj (ApiOp.wallet.inj ho)
      obtain rfl := Option.some.inj hm
      refine rowsFor_eq_nil .DEPOSIT ?_
      rw [hrely, ← hsame]
      exact hnone
    · cases r <;> trivial
  · trivial

/-- The other calls book no deposit. -/
theorem call_safe (call : ApiCall) (w : World api) :
    depositRules.Safe i call (fun _ _ => True) call.body w := by
  by_cases hcall : ∃ u dto, call = .deposit u dto
  · obtain ⟨u, dto, rfl⟩ := hcall
    exact deposit_safe u dto w
  · refine Rules.safe_of_all (body_footprint call) (fun o ho w r w' hinv _ hx => ?_)
      fun _ _ => trivial
    refine ⟨oneDeposit_op hx hinv fun u a ref desc hop => ?_, trivial⟩
    subst hop
    cases ho with
    | deposit u dto => exact absurd ⟨u, dto, rfl⟩ hcall

end Calls

/-- **Calls one after the other leave one deposit of a key at most.** -/
theorem oneDeposit {c : Config api} (h : api.Reach Config.Sequential (api.init .empty) c) :
    OneDeposit c.state.wallet := by
  have hsound := Rules.sound_sequential (D := depositRules) (s := Store.empty)
    (fun _ _ _ _ _ _ => trivial) (fun _ => trivial)
    (fun call s s' l hs hinv => by
      have hwallet := (start_tables hs).wallet
      exact ⟨by simpa only [depositRules, hwallet] using hinv, fun _ _ _ => hwallet⟩)
    (fun v s s' l hv hinv => by
      have hwallet := (env_tables hv).wallet
      exact ⟨by simpa only [depositRules, hwallet] using hinv, fun _ _ _ => hwallet⟩)
    fun i call w _ => call_safe call w
  exact (hsound.reach (fun _ _ => by simp [Store.empty, WalletDb.empty, WalletDb.rowsFor])
    h.reached).1

/-- The lookup of `deposit` may answer with any row of the key. -/
theorem exists_pick {tx : WalletTransaction} (h : tx ∈ s.wallet.walletTransactions)
    (hmatch : tx.Matches u dto.clientMutationId none) : ∃ φ : Nat → ApiChoice, ∀ i,
      api.finish i (ApiCall.deposit u dto).body s (fun n => .ok (φ n)) =
        some (.ok (.transaction (toTransactionDto tx)), s) := by
  have hmem : tx ∈ s.wallet.walletTransactions.filter (·.Matches u dto.clientMutationId none) :=
    List.mem_filter.mpr ⟨h, by simpa using hmatch⟩
  obtain ⟨n, hn⟩ := List.mem_iff_getElem?.mp hmem
  refine ⟨fun _ => { pick := n }, fun i => finish_found ?_⟩
  unfold pickOne
  rw [hn]
  rfl

/-- The only row there is, is found. -/
theorem pickOne_singleton {α : Type} (pick : Nat) (a : α) : pickOne pick [a] = some a := by
  unfold pickOne
  cases pick <;> rfl

/-- A deposit that is keyed among deposits shares its key with deposits only. -/
theorem DepositKeyed.types (hkeyed : DepositKeyed s u dto) {tx : WalletTransaction}
    (htx : tx ∈ s.wallet.walletTransactions) (hu : tx.userId = u)
    (href : tx.referenceId = some dto.clientMutationId) : tx.type = .DEPOSIT := by
  by_contra htype
  obtain ⟨φ, hfound⟩ := exists_pick htx ⟨hu, href, by simp⟩
  obtain ⟨r, s', hfin, hnew, hold⟩ := hkeyed 0 φ
  obtain ⟨rfl, rfl⟩ := Prod.mk.inj (Option.some.inj ((hfound 0).symm.trans hfin))
  by_cases hdeposit : ∃ tx' ∈ s.wallet.walletTransactions,
      tx'.Matches u dto.clientMutationId (some .DEPOSIT)
  · obtain ⟨tx', htx', hmatch⟩ := hdeposit
    have hanswer := ApiReply.transaction.inj (Except.ok.inj (hold tx' htx' hmatch).1)
    have htype' : tx.type = tx'.type := congrArg TransactionResponseDto.type hanswer
    exact htype (htype'.trans (hmatch.2.2 _ rfl))
  · have hbooks := hnew fun tx' htx' hmatch => hdeposit ⟨tx', htx', hmatch⟩
    unfold Books at hbooks
    split at hbooks
    · obtain ⟨tx', -, -, -, hrows, -⟩ := hbooks
      exact absurd (congrArg List.length hrows) (by simp)
    · exact absurd hbooks.1 (by simp [Except.toBool])

/-- **When a further deposit is keyed among deposits**, after any calls one after the other. -/
theorem deposit_keyed_iff {c : Config api} (h : api.Reach Config.Sequential (api.init .empty) c)
    (u : Uuid) (dto : DepositDto) :
    DepositKeyed c.state u dto ↔ ∀ tx ∈ c.state.wallet.walletTransactions, tx.userId = u →
      tx.referenceId = some dto.clientMutationId → tx.type = .DEPOSIT := by
  constructor
  · exact fun hkeyed tx htx hu href => hkeyed.types htx hu href
  · intro htypes i φ
    -- among the rows of the key, every row is a deposit
    have hdeposits : ∀ tx ∈ c.state.wallet.walletTransactions,
        (tx.Matches u dto.clientMutationId none ↔
          tx.Matches u dto.clientMutationId (some .DEPOSIT)) := by
      intro tx htx
      constructor
      · rintro ⟨hu, href, -⟩
        exact ⟨hu, href, by simpa using htypes tx htx hu href⟩
      · rintro ⟨hu, href, -⟩
        exact ⟨hu, href, by simp⟩
    by_cases hexists : ∃ tx ∈ c.state.wallet.walletTransactions,
        tx.Matches u dto.clientMutationId (some .DEPOSIT)
    · obtain ⟨tx, htx, hmatch⟩ := hexists
      have hmem : ∀ {tx'}, tx' ∈ c.state.wallet.walletTransactions →
          tx'.Matches u dto.clientMutationId (some .DEPOSIT) →
          tx' ∈ c.state.wallet.rowsFor u .DEPOSIT dto.clientMutationId :=
        fun htx' hmatch' => List.mem_filter.mpr ⟨htx', by simpa using hmatch'⟩
      have hrows : c.state.wallet.rowsFor u .DEPOSIT dto.clientMutationId = [tx] := by
        obtain ⟨tx₀, hrows⟩ := List.length_eq_one_iff.mp (le_antisymm
          (oneDeposit h u dto.clientMutationId) (List.length_pos_of_mem (hmem htx hmatch)))
        obtain rfl := List.mem_singleton.mp (hrows ▸ hmem htx hmatch)
        exact hrows
      have hfilter : c.state.wallet.walletTransactions.filter
          (·.Matches u dto.clientMutationId none) = [tx] := by
        rw [← hrows]
        exact List.filter_congr fun tx' htx' => decide_eq_decide.mpr (hdeposits tx' htx')
      refine ⟨_, _, finish_found (by rw [hfilter, pickOne_singleton]), fun hnone => ?_, ?_⟩
      · exact absurd hmatch (hnone tx htx)
      · intro tx' htx' hmatch'
        obtain rfl := List.mem_singleton.mp (hrows ▸ hmem htx' hmatch')
        exact ⟨rfl, rfl⟩
    · obtain ⟨r, s', hfin, hbooks⟩ := finish_books (s := c.state) (i := i) (φ := φ)
        fun tx htx hmatch => hexists ⟨tx, htx, (hdeposits tx htx).mp hmatch⟩
      exact ⟨r, s', hfin, fun _ => hbooks, fun tx htx hmatch => absurd ⟨tx, htx, hmatch⟩ hexists⟩

/-- User 7 deposits ten dollars with mutation id 1, and bets one with mutation id 2. -/
def depositThenBet : List (Event api) := openMarket ++ .spawn 2 (bet100 2) :: proceed 2 8

/-- A deposit of 8 dollars. -/
def eightDollars (clientMutationId : Uuid) : DepositDto :=
  ⟨800, clientMutationId, by decide, by decide⟩

/-- What a row is for. -/
def purpose (tx : WalletTransaction) : Uuid × Option Uuid × TransactionType :=
  (tx.userId, tx.referenceId, tx.type)

theorem depositThenBet_rows : ∃ c, api.Reach Config.Sequential (api.init .empty) c ∧
    c.state.wallet.walletTransactions.map purpose =
      [(7, some 1, .DEPOSIT), (7, some 2, .DEBIT)] := by
  obtain ⟨c, hr, hrows⟩ : ∃ c, api.replay (api.init .empty) depositThenBet = some c ∧
      c.state.wallet.walletTransactions.map purpose =
        [(7, some 1, .DEPOSIT), (7, some 2, .DEBIT)] := ⟨_, rfl, rfl⟩
  have hmeets : api.Meets (Config.Among [0, 1, 2]) (api.init .empty) depositThenBet := by decide
  exact ⟨c, (Machine.Reach.of_meets .init hr hmeets).sequential, hrows⟩

/-- After them, a deposit with mutation id 3 is keyed among deposits. -/
theorem deposit_keyed_fresh : ∃ c, api.Reach Config.Sequential (api.init .empty) c ∧
    DepositKeyed c.state 7 (eightDollars 3) := by
  obtain ⟨c, h, hrows⟩ := depositThenBet_rows
  refine ⟨c, h, (deposit_keyed_iff h 7 (eightDollars 3)).mpr fun tx htx hu href => ?_⟩
  have hmem : purpose tx ∈ c.state.wallet.walletTransactions.map purpose := List.mem_map_of_mem htx
  rw [hrows, purpose, href] at hmem
  exact absurd hmem (by simp [eightDollars])

/-- One with mutation id 2 answers with the debit of the bet, and books nothing. -/
theorem deposit_swallowed : ∃ c, api.Reach Config.Sequential (api.init .empty) c ∧
    ¬ DepositKeyed c.state 7 (eightDollars 2) := by
  obtain ⟨c, h, hrows⟩ := depositThenBet_rows
  refine ⟨c, h, fun hkeyed => ?_⟩
  have hmem : (7, some 2, .DEBIT) ∈ c.state.wallet.walletTransactions.map purpose := by
    rw [hrows]
    exact List.mem_cons_of_mem _ List.mem_cons_self
  obtain ⟨tx, htx, hpurpose⟩ := List.mem_map.mp hmem
  obtain ⟨hu, hrest⟩ := Prod.mk.inj hpurpose
  obtain ⟨href, htype⟩ := Prod.mk.inj hrest
  exact absurd (htype.symm.trans (hkeyed.types htx hu href)) (by simp)

end BoltBet
