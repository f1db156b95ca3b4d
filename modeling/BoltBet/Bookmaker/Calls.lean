import BoltBet.Async.Serial
import BoltBet.Betting.Retries
import BoltBet.Market.Recovery

/-!
# What a whole call does

Each call of the API, run alone and with nothing failing, as one change of the tables.

* `Posts`: one row of the ledger, and the balance it moves.
* `deposit_completes`, `placeBet_completes`, `createMarket_completes`, `updateStatus_completes`,
  `settle_completes`, `delivery_completes`, `getBalance_completes`.
-/

namespace BoltBet

open Async

variable {s s' : Store} {i : Nat} {α : Type}

/-! ## Operations -/

section Operations

variable {Q : Except Err α → Store → Prop} {o : ApiOp} {f : o.Res → Prog ApiSig α}

/-- One operation, then the rest. -/
theorem completes_op (hok : ∀ ch a s', s.exec ch o = (.ok a, s') →
      api.Always i IsOk (Completes Q) (f a) s')
    (herr : ∀ ch e s', s.exec ch o = (.error e, s') → Q (.error e) s') :
    api.Always i IsOk (Completes Q) (Prog.perform (S := ApiSig) o >>= f) s := by
  refine Machine.completes_bind (Q := fun r s' => ∃ ch, s.exec ch o = (r, s')) ?_ ?_ ?_
  · exact Recovery.always_op completes_none fun ch => completes_some.mpr ⟨ch, rfl⟩
  · rintro a s' ⟨ch, h⟩
    exact hok ch a s' h
  · rintro e s' ⟨ch, h⟩
    exact herr ch e s' h

/-- One operation that always answers, and leaves what it leaves. -/
theorem completes_answer {a : ApiChoice → o.Res} {t : ApiChoice → Store}
    (h : ∀ ch, s.exec ch o = (.ok (a ch), t ch))
    (hf : ∀ ch, api.Always i IsOk (Completes Q) (f (a ch)) (t ch)) :
    api.Always i IsOk (Completes Q) (Prog.perform (S := ApiSig) o >>= f) s := by
  refine completes_op (fun ch b s' hx => ?_) fun ch e s' hx => ?_
  · obtain ⟨ha, rfl⟩ := Prod.mk.inj ((h ch).symm.trans hx)
    exact Except.ok.inj ha ▸ hf ch
  · exact absurd (Prod.mk.inj ((h ch).symm.trans hx)).1 (by simp)

end Operations

/-! ## The ledger -/

/-- Only the ledger differs, by one row and the balance it moves. -/
structure Posts (s : Store) (u : Uuid) (t : TransactionType) (a : Int) (ref : Uuid)
    (tx : WalletTransaction) (s' : Store) : Prop where
  userId : tx.userId = u
  type : tx.type = t
  amountCents : tx.amountCents = a
  referenceId : tx.referenceId = some ref
  rows : s'.wallet.walletTransactions = s.wallet.walletTransactions ++ [tx]
  balances : s'.wallet.balanceOf =
    Function.update s.wallet.balanceOf u (s.wallet.balanceOf u + if t = .DEBIT then -a else a)
  covered : t = .DEBIT → a ≤ s.wallet.balanceOf u
  frame : s' = { s with wallet := s'.wallet }

/-- `applyTransaction` posts a row or throws. -/
theorem posts_of_apply {ch : ApiChoice} {u : Uuid} {t : TransactionType} {a : Int} {ref : Uuid}
    {desc : String} {dto : TransactionResponseDto}
    (h : s.exec ch (.wallet (.applyTransaction u t a (some ref) desc)) = (.ok dto, s')) :
    ∃ tx, Posts s u t a ref tx s' ∧ dto = toTransactionDto tx := by
  obtain ⟨hdto, rfl⟩ := Prod.mk.inj h
  have hx : s.wallet.applyAtomic ch.toWalletChoice u t a (some ref) desc =
      (.ok dto, (WalletDb.exec ch.toWalletChoice (.applyTransaction u t a (some ref) desc)
        s.wallet).2) := Prod.ext hdto rfl
  obtain ⟨b, tx, w, hb, -, -, hw, rfl, rfl, hdb⟩ := WalletDb.applyAtomic_ok hx
  have hnew : b = s.wallet.balanceOf u + (if t = .DEBIT then -a else a) ∧
      (t = .DEBIT → a ≤ s.wallet.balanceOf u) := by
    cases t with
    | DEBIT =>
      simp only [WalletDb.newBalance] at hb
      split at hb
      · exact absurd hb (by simp)
      · have := Except.ok.inj hb
        simp only [if_true]
        exact ⟨by omega, fun _ => by omega⟩
    | DEPOSIT | CREDIT => exact ⟨(Except.ok.inj hb).symm, fun h => absurd h (by decide)⟩
  refine ⟨_, ⟨rfl, rfl, rfl, rfl, ?_, ?_, hnew.2, rfl⟩, rfl⟩
  · show (WalletDb.exec _ _ _).2.walletTransactions = _
    rw [hdb]
    rfl
  · show (WalletDb.exec _ _ _).2.balanceOf = _
    rw [hdb]
    funext v
    rw [WalletDb.balanceOf_addTx]
    by_cases hv : v = u
    · subst hv
      rw [WalletDb.balanceOf_setWallet_self, Function.update_self, hw, hnew.1]
    · rw [WalletDb.balanceOf_setWallet_ne _ hv, Function.update_of_ne hv]

/-- A row that a lookup finds. -/
theorem found_row {ch : ApiChoice} {u ref : Uuid} {t : Option TransactionType}
    {found : Option WalletTransaction}
    (h : s.exec ch (.wallet (.query (.txFindOne u ref t))) = (.ok found, s')) :
    s' = s ∧ (∀ tx ∈ found, tx ∈ s.wallet.walletTransactions ∧ tx.Matches u ref t) ∧
      (found = none → ∀ tx ∈ s.wallet.walletTransactions, ¬ tx.Matches u ref t) := by
  obtain ⟨hf, rfl⟩ := Prod.mk.inj h
  have hf : pickOne ch.pick (s.wallet.walletTransactions.filter (·.Matches u ref t)) = found :=
    Except.ok.inj hf
  refine ⟨rfl, fun tx htx => ?_, fun hnone tx htx hm => ?_⟩
  · rw [Option.mem_def.mp htx] at hf
    simpa using pickOne_mem hf
  · rw [hnone] at hf
    exact List.filter_eq_nil_iff.mp (pickOne_eq_none hf) tx htx (decide_eq_true hm)

/-! ## The wallet -/

/-- **`deposit`**: it answers with a row of its key, or there is none and it posts one. -/
theorem deposit_completes (u : Uuid) (dto : DepositDto) :
    api.Always i IsOk (Completes fun r s' =>
      (s' = s ∧ ∀ a, r = .ok a → ∃ tx ∈ s.wallet.walletTransactions,
        tx.Matches u dto.clientMutationId none ∧ a = toTransactionDto tx) ∨
      (∀ tx ∈ s.wallet.walletTransactions, ¬ tx.Matches u dto.clientMutationId none) ∧
        ∃ tx, Posts s u .DEPOSIT dto.amountCents dto.clientMutationId tx s' ∧
          r = .ok (toTransactionDto tx))
      (Api.wallet (WalletService.deposit u dto)) s := by
  unfold WalletService.deposit WalletService.txFindOne WalletService.applyTransaction
  rw [Api.wallet_bind, Api.wallet_perform]
  refine completes_op (fun ch found s₁ hx => ?_) fun ch e s₁ hx => ?_
  · obtain ⟨rfl, hsome, hnone⟩ := found_row hx
    cases found with
    | some tx =>
      obtain ⟨htx, hm⟩ := hsome tx rfl
      exact Machine.completes_ret (.inl ⟨rfl, fun a ha => ⟨tx, htx, hm, (Except.ok.inj ha).symm⟩⟩)
    | none =>
      rw [Api.wallet_perform]
      refine Recovery.always_op (o := .wallet (.applyTransaction u .DEPOSIT dto.amountCents
        (some dto.clientMutationId) "Deposit")) completes_none fun ch => completes_some.mpr ?_
      generalize hx : s₁.exec ch (.wallet (.applyTransaction u .DEPOSIT dto.amountCents
        (some dto.clientMutationId) "Deposit")) = x
      obtain ⟨r, s₂⟩ := x
      cases r with
      | error e => exact .inl ⟨Store.exec_error hx, fun a ha => absurd ha (by simp)⟩
      | ok a =>
        obtain ⟨tx, hpost, rfl⟩ := posts_of_apply hx
        exact .inr ⟨hnone rfl, tx, hpost, rfl⟩
  · exact .inl ⟨Store.exec_error hx, fun a ha => absurd ha (by simp)⟩

/-- Nothing a bookmaker writes down is different. -/
structure SameBooks (s s' : Store) : Prop where
  rows : s'.wallet.walletTransactions = s.wallet.walletTransactions
  balances : s'.wallet.balanceOf = s.wallet.balanceOf
  markets : s'.markets = s.markets
  bets : s'.bets = s.bets

theorem SameBooks.refl (s : Store) : SameBooks s s := ⟨rfl, rfl, rfl, rfl⟩

/-- **`getBalance`** creates an empty wallet at most. -/
theorem getBalance_completes (u : Uuid) :
    api.Always i IsOk (Completes fun _ s' => SameBooks s s')
      (Api.wallet (WalletService.getBalance u)) s := by
  have hquery : ∀ {ch : ApiChoice} {q : WalletQuery} {r : Except Err q.Res} {s₁ : Store},
      s.exec ch (.wallet (.query q)) = (r, s₁) → SameBooks s s₁ := by
    intro ch q r s₁ hx
    obtain ⟨-, rfl⟩ := Prod.mk.inj hx
    have hexec : s.wallet.execQuery ch.toWalletChoice q =
        ((s.wallet.execQuery ch.toWalletChoice q).1, _) := rfl
    rcases WalletDb.execQuery_cases hexec with hsame | ⟨v, hv, hnew⟩
    · have hdb : (WalletDb.exec ch.toWalletChoice (.query q) s.wallet).2 = s.wallet := hsame
      exact ⟨by rw [hdb], by rw [hdb], rfl, rfl⟩
    · have hdb : (WalletDb.exec ch.toWalletChoice (.query q) s.wallet).2 =
          s.wallet.setWallet v ⟨ch.freshWallet, 0⟩ := hnew
      refine ⟨by rw [hdb]; rfl, ?_, rfl, rfl⟩
      rw [hdb]
      funext w
      exact WalletDb.balanceOf_create ch.freshWallet hv w
  unfold WalletService.getBalance WalletService.getOrCreateWallet
  unfold WalletService.walletReplicaFindOne WalletService.walletCreate
  rw [Api.wallet_bind, Api.wallet_bind, Api.wallet_perform, LawfulMonad.bind_assoc]
  refine completes_answer (a := fun ch => ch.replica) (t := fun _ => s) (fun _ => rfl)
    fun ch => ?_
  cases ch.replica with
  | some w => exact Machine.completes_ret (.refl s)
  | none =>
    rw [Api.wallet_perform]
    exact completes_op (fun ch w s₁ hx => Machine.completes_ret (hquery hx)) fun ch e s₁ hx =>
      hquery hx

/-! ## Markets -/

/-- A market row is written, nothing else a bookmaker writes down. -/
structure WritesMarket (s : Store) (market : Market) (s' : Store) : Prop where
  rows : s'.wallet = s.wallet
  markets : s'.markets = Function.update s.markets market.id (some market)
  bets : s'.bets = s.bets

/-- **`createMarket`** adds a market that trades, or throws. -/
theorem createMarket_completes (dto : CreateMarketDto) :
    api.Always i IsOk (Completes fun r s' =>
      (s' = s ∧ ∃ e, r = .error e) ∨
      ∃ market, r = .ok market.toDto ∧ s.markets market.id = none ∧
        market.oddsInt = dto.oddsInt ∧ market.status = .OPEN ∧ WritesMarket s market s')
      (MarketService.createMarket dto) s := by
  unfold MarketService.createMarket
  refine completes_op (fun ch saved s₁ hx => ?_) fun ch e s₁ hx => ?_
  · obtain ⟨hnew, hsaved, hs₁⟩ : s.markets ch.fresh = none ∧
        saved = (MarketDraft.mk dto.eventId dto.name dto.oddsInt .OPEN).row ch.fresh ch.now ∧
        s₁ = s.setMarket saved := by
      simp only [Store.exec] at hx
      split at hx
      · exact absurd (Prod.mk.inj hx).1 (by simp)
      · split at hx
        · exact absurd (Prod.mk.inj hx).1 (by simp)
        · rename_i hnew
          obtain ⟨hsaved, rfl⟩ := Prod.mk.inj hx
          obtain rfl := Except.ok.inj hsaved
          exact ⟨by simpa using hnew, rfl, rfl⟩
    refine completes_answer (a := fun _ => ())
      (t := fun _ => { s₁ with notifications := s₁.notifications ++
        [.MARKET_CREATED saved.id saved.name saved.oddsInt] }) (fun _ => rfl) fun _ => ?_
    refine Machine.completes_ret (.inr ⟨saved, rfl, ?_, ?_, ?_, ?_⟩)
    · rw [hsaved]
      exact hnew
    · rw [hsaved]
      rfl
    · rw [hsaved]
      rfl
    · rw [hs₁]
      exact ⟨rfl, rfl, rfl⟩
  · exact .inl ⟨Store.exec_error hx, e, rfl⟩

/-- `getMarketById`, then the rest. -/
theorem completes_getMarketById {Q : Except Err α → Store → Prop} {id : Uuid}
    {f : Market → Prog ApiSig α}
    (hf : ∀ market, s.markets id = some market → api.Always i IsOk (Completes Q) (f market) s)
    (hnone : s.markets id = none → ∀ e, Q (.error e) s) :
    api.Always i IsOk (Completes Q) (MarketService.getMarketById id >>= f) s := by
  unfold MarketService.getMarketById
  rw [LawfulMonad.bind_assoc]
  refine completes_answer (a := fun _ => s.markets id) (t := fun _ => s) (fun _ => rfl)
    fun _ => ?_
  cases hm : s.markets id with
  | none => exact Machine.completes_throw (hnone hm _)
  | some market => exact hf market hm

/-- **`updateStatus`** moves a market that is not settled, or throws. -/
theorem updateStatus_completes (id : Uuid) (status : MarketStatus) (hs : s.MarketIds) :
    api.Always i IsOk (Completes fun r s' =>
      (s' = s ∧ ∃ e, r = .error e) ∨
      ∃ market market', s.markets id = some market ∧ market.status ≠ .SETTLED ∧
        market'.id = id ∧ market'.oddsInt = market.oddsInt ∧ market'.status = status ∧
        (∃ dto, r = .ok dto) ∧ WritesMarket s market' s')
      (MarketService.updateStatus id status) s := by
  unfold MarketService.updateStatus
  refine completes_getMarketById (fun market hm => ?_) fun _ e => .inl ⟨rfl, e, rfl⟩
  by_cases hsettled : market.status = .SETTLED
  · rw [if_pos hsettled]
    exact Machine.completes_throw (.inl ⟨rfl, _, rfl⟩)
  rw [if_neg hsettled]
  obtain rfl := hs id market hm
  refine completes_answer (a := fun ch => s.savedMarket ch.now { market with status })
    (t := fun ch => s.setMarket (s.savedMarket ch.now { market with status })) (fun _ => rfl)
    fun ch => ?_
  generalize hsaved : s.savedMarket ch.now { market with status } = saved
  have hrow : saved = Market.save ch.now market { market with status } := by
    rw [← hsaved]
    unfold Store.savedMarket
    rw [hm]
  refine completes_answer (a := fun _ => ())
    (t := fun _ => { s.setMarket saved with notifications := (s.setMarket saved).notifications ++
      [.MARKET_UPDATED saved.id saved.name saved.status saved.oddsInt] }) (fun _ => rfl) fun _ => ?_
  refine Machine.completes_ret (.inr ⟨market, saved, hm, hsettled, ?_, ?_, ?_, ⟨_, rfl⟩, ?_⟩)
  · rw [hrow, Market.save_id]
  · rw [hrow, Market.save_oddsInt]
  · rw [hrow, Market.save_status]
  · exact ⟨rfl, rfl, rfl⟩

/-! ## Bets -/

/-- A bet is placed: its stake is debited, then its row is written. -/
structure Places (s : Store) (u : Uuid) (dto : PlaceBetDto) (bet : Bet) (s' : Store) : Prop where
  market : ∃ market id now, s.markets dto.marketId = some market ∧ market.status = .OPEN ∧
    bet = (BettingService.newBet u dto market).row id now
  ids : ∀ b ∈ s.bets, b.id ≠ bet.id
  references : ∀ b ∈ s.bets, b.referenceId ≠ dto.clientMutationId
  posts : ∃ tx s₁, Posts s u .DEBIT dto.stakeCents dto.clientMutationId tx s₁ ∧
    s'.wallet = s₁.wallet
  markets : s'.markets = s.markets
  bets : s'.bets = s.bets ++ [bet]

/-- How `placeBet` ends. -/
inductive PlaceEnds (s : Store) (u : Uuid) (dto : PlaceBetDto) :
    Except Err BetResponseDto → Store → Prop
  /-- Postgres rejected a row. -/
  | rejected {m : String} {s' : Store} : PlaceEnds s u dto (.error (.QueryFailedError m)) s'
  | refused {e : Err} : PlaceEnds s u dto (.error e) s
  | found {b : Bet} (hb : b ∈ s.bets) (hu : b.userId = u)
      (href : b.referenceId = dto.clientMutationId) : PlaceEnds s u dto (.ok b.toDto) s
  | placed {b : Bet} {s' : Store} (h : Places s u dto b s') : PlaceEnds s u dto (.ok b.toDto) s'

/-- A row that is not inserted was rejected. -/
theorem rejectsBet_query {id : Uuid} {d : BetDraft} {e : Err} (h : s.rejectsBet id d = some e) :
    ∃ m, e = .QueryFailedError m := by
  unfold Store.rejectsBet at h
  split at h
  · exact ⟨_, (Option.some.inj h).symm⟩
  · split at h
    · exact ⟨_, (Option.some.inj h).symm⟩
    · split at h
      · exact ⟨_, (Option.some.inj h).symm⟩
      · exact absurd h (by simp)

/-- Steps 2 to 7 of `placeBet`, where no debit of the key is there. -/
theorem placeNewBet_completes (u : Uuid) (dto : PlaceBetDto)
    (hnone : ∀ tx ∈ s.wallet.walletTransactions,
      ¬ tx.Matches u dto.clientMutationId (some .DEBIT)) :
    api.Always i IsOk (Completes (PlaceEnds s u dto)) (BettingService.placeNewBet u dto) s := by
  unfold BettingService.placeNewBet MarketService.assertMarketOpen
  rw [LawfulMonad.bind_assoc]
  refine completes_getMarketById (fun market hm => ?_) fun _ e => .refused
  by_cases hopen : market.status ≠ .OPEN
  · rw [if_pos hopen]
    exact Machine.completes_throw .refused
  rw [if_neg hopen]
  show api.Always i IsOk _ (Api.wallet (WalletService.debit u dto.stakeCents
    dto.clientMutationId (some s!"Bet on market {market.name}")) >>= _) s
  rw [Api.wallet_debit, LawfulMonad.bind_assoc]
  refine completes_op (fun ch found s₁ hx => ?_) fun ch e s₁ hx => ?_
  swap
  · obtain rfl := Store.exec_error hx
    exact .refused
  obtain ⟨rfl, hsome, -⟩ := found_row hx
  cases found with
  | some tx =>
    obtain ⟨htx, hm'⟩ := hsome tx rfl
    exact absurd hm' (hnone tx htx)
  | none =>
    refine completes_op (fun ch a s₂ hx => ?_) fun ch e s₂ hx => ?_
    swap
    · obtain rfl := Store.exec_error hx
      exact .refused
    obtain ⟨tx, hpost, -⟩ := posts_of_apply hx
    -- the stake is debited
    have hframe := hpost.frame
    refine completes_op (fun ch bet s₃ hx => ?_) fun ch e s₃ hx => ?_
    swap
    · simp only [Store.exec] at hx
      split at hx
      · rename_i e' hrej
        obtain ⟨he, rfl⟩ := Prod.mk.inj hx
        obtain rfl := Except.error.inj he
        obtain ⟨m, rfl⟩ := rejectsBet_query hrej
        exact .rejected
      · exact absurd (Prod.mk.inj hx).1 (by simp)
    obtain ⟨hrej, rfl, rfl⟩ : s₂.rejectsBet ch.fresh (BettingService.newBet u dto market) = none ∧
        bet = (BettingService.newBet u dto market).row ch.fresh ch.now ∧ s₃ = s₂.addBet bet := by
      simp only [Store.exec] at hx
      split at hx
      · exact absurd (Prod.mk.inj hx).1 (by simp)
      · rename_i hrej
        obtain ⟨hb, rfl⟩ := Prod.mk.inj hx
        obtain rfl := Except.ok.inj hb
        exact ⟨hrej, rfl, rfl⟩
    have hbets : s₂.bets = s₁.bets := by rw [hframe]
    refine completes_answer (a := fun _ => ()) (t := fun _ => _) (fun _ => rfl) fun _ => ?_
    refine completes_answer (a := fun _ => ()) (t := fun _ => _) (fun _ => rfl) fun _ => ?_
    refine Machine.completes_ret (.placed ⟨⟨market, ch.fresh, ch.now, hm, not_not.mp hopen, rfl⟩,
      fun b hb => ?_, fun b hb => ?_, ⟨tx, s₂, hpost, rfl⟩, ?_, ?_⟩)
    · exact Store.rejectsBet_id hrej b (hbets ▸ hb)
    · exact Store.rejectsBet_reference hrej b (hbets ▸ hb)
    · show s₂.markets = s₁.markets
      rw [hframe]
    · show s₂.bets ++ _ = s₁.bets ++ _
      rw [hbets]

/-- **`placeBet`**, where every debit is the stake of a bet. -/
theorem placeBet_completes (u : Uuid) (role : Role) (dto : PlaceBetDto) (hinv : Retries.Inv s)
    (hstaked : ∀ tx ∈ s.wallet.walletTransactions, tx.type = .DEBIT →
      ∃ b ∈ s.bets, b.userId = tx.userId ∧ tx.referenceId = some b.referenceId) :
    api.Always i IsOk (Completes (PlaceEnds s u dto)) (BettingService.placeBet u role dto) s := by
  have hlookup : api.Always i IsOk (Completes (PlaceEnds s u dto))
      (BettingService.lookupOrPlace u dto) s := by
    unfold BettingService.lookupOrPlace
    refine completes_answer (a := fun _ => s.betOf u dto.clientMutationId) (t := fun _ => s)
      (fun _ => rfl) fun _ => ?_
    cases hb : s.betOf u dto.clientMutationId with
    | some b =>
      obtain ⟨hmem, hu, href⟩ := Store.betOf_some hb
      exact Machine.completes_ret (.found hmem hu href)
    | none =>
      refine placeNewBet_completes u dto fun tx htx hm => ?_
      obtain ⟨b, hmem, hu, href⟩ := hstaked tx htx (hm.2.2 _ rfl)
      have hno := List.find?_eq_none.mp hb b hmem
      refine hno (decide_eq_true ⟨hu.trans hm.1, ?_⟩)
      exact Option.some.inj (href.symm.trans hm.2.1)
  unfold BettingService.placeBet
  by_cases hrole : role = .ADMIN
  · rw [if_pos hrole]
    exact Machine.completes_throw .refused
  rw [if_neg hrole]
  refine completes_answer (a := fun _ => s.idempotency u dto.clientMutationId) (t := fun _ => s)
    (fun _ => rfl) fun _ => ?_
  cases hkey : s.idempotency u dto.clientMutationId with
  | none => exact hlookup
  | some id =>
    refine completes_answer (a := fun _ => s.bet id) (t := fun _ => s) (fun _ => rfl) fun _ => ?_
    cases hb : s.bet id with
    | none => exact hlookup
    | some b =>
      obtain ⟨hu, href⟩ := (hinv.keys _ _ _ hkey).of_bet hinv.betIds hb
      exact Machine.completes_ret (.found (Store.bet_mem hb) hu href)

/-- A bet was accepted if it was pending, and nothing else a bookmaker writes down is different. -/
def Accepts (s : Store) (betId : Uuid) (s' : Store) : Prop :=
  (SameBooks s s' ∧ ∀ b, s.bet betId = some b → b.status ≠ .PENDING) ∨
  ∃ b now, s.bet betId = some b ∧ b.status = .PENDING ∧ s'.wallet = s.wallet ∧
    s'.markets = s.markets ∧ s'.bets = (s.setStatus now betId .ACCEPTED).bets

theorem Accepts.queues {s₁ s₂ : Store} {betId : Uuid} (h : Accepts s betId s₁)
    (hs : s₂.wallet = s₁.wallet ∧ s₂.markets = s₁.markets ∧ s₂.bets = s₁.bets) :
    Accepts s betId s₂ := by
  obtain ⟨hwallet, hmarkets, hbets⟩ := hs
  rcases h with ⟨hsame, hpast⟩ | ⟨b, now, hb, hst, hw, hm, hbs⟩
  · exact .inl ⟨⟨by rw [hwallet, hsame.rows], by rw [hwallet, hsame.balances],
      hmarkets.trans hsame.markets, hbets.trans hsame.bets⟩, hpast⟩
  · exact .inr ⟨b, now, hb, hst, hwallet.trans hw, hmarkets.trans hm, hbets.trans hbs⟩

theorem completes_ack {betId : Uuid} {tag : Nat} (h : Accepts s' betId s) :
    api.Always i IsOk (Completes fun _ s₁ => Accepts s' betId s₁) (Api.ack tag) s :=
  Recovery.always_op (o := .ack tag) completes_none fun _ =>
    completes_some.mpr (h.queues ⟨rfl, rfl, rfl⟩)

theorem completes_nack {betId : Uuid} {tag : Nat} (h : Accepts s' betId s) :
    api.Always i IsOk (Completes fun _ s₁ => Accepts s' betId s₁) (Api.nack tag) s :=
  Recovery.always_op (o := .nack tag) completes_none fun _ =>
    completes_some.mpr (h.queues ⟨rfl, rfl, rfl⟩)

/-- `transitionStatus(betId, ACCEPTED)` accepts a pending bet, or throws. -/
theorem transitionStatus_completes (betId : Uuid) :
    api.Always i IsOk (Completes fun _ s' => Accepts s betId s')
      (BettingService.transitionStatus betId .ACCEPTED) s := by
  unfold BettingService.transitionStatus
  refine completes_answer (a := fun _ => s.bet betId) (t := fun _ => s) (fun _ => rfl) fun _ => ?_
  cases hb : s.bet betId with
  | none =>
    exact Machine.completes_throw (.inl ⟨.refl s, fun b hb' => absurd (hb.symm.trans hb') (by simp)⟩)
  | some b =>
    by_cases hst : BetStatus.ACCEPTED ∈ ALLOWED_TRANSITIONS b.status
    · have hpending : b.status = .PENDING := by
        revert hst
        cases b.status <;> decide
      show api.Always i IsOk _ (if _ then _ else _) s
      rw [if_pos hst]
      exact Recovery.always_op (o := .betUpdate betId .ACCEPTED) completes_none fun ch =>
        completes_some.mpr (.inr ⟨b, ch.now, hb, hpending, rfl, rfl, rfl⟩)
    · show api.Always i IsOk _ (if _ then _ else _) s
      rw [if_neg hst]
      refine Machine.completes_throw (.inl ⟨.refl s, fun b' hb' hpending => ?_⟩)
      obtain rfl := Option.some.inj (hb.symm.trans hb')
      exact hst (hpending ▸ by decide)

/-- **A delivery** accepts the bet of its message, if it is pending. -/
theorem delivery_completes (tag : Nat) (payload : BetPlacementPayload) :
    api.Always i IsOk (Completes fun _ s' => Accepts s payload.betId s')
      (SettlementWorker.consume tag payload) s := by
  have haccept : api.Always i IsOk (Completes fun _ s' => Accepts s payload.betId s')
      (SettlementWorker.accept tag payload.betId) s := by
    unfold SettlementWorker.accept
    refine Machine.completes_try (Q := fun _ s' => Accepts s payload.betId s') ?_ (fun _ _ h => h)
      fun _ s₁ h => ?_
    · exact Machine.completes_bind (transitionStatus_completes payload.betId)
        (fun _ _ h => Machine.completes_ret h) fun _ _ h => h
    · unfold BettingService.isTerminalState
      rw [LawfulMonad.bind_assoc]
      refine completes_answer (a := fun _ => s₁.bet payload.betId) (t := fun _ => s₁)
        (fun _ => rfl) fun _ => ?_
      cases s₁.bet payload.betId with
      | none => exact Machine.completes_throw h
      | some b =>
        show api.Always i IsOk _ (if _ then _ else _) s₁
        split
        · exact Machine.completes_bind (completes_ack h) (fun _ _ h => Machine.completes_ret h)
            fun _ _ h => h
        · exact Machine.completes_throw h
  unfold SettlementWorker.consume SettlementWorker.handleMessage
  refine Machine.completes_try (Q := fun _ s' => Accepts s payload.betId s')
    (Machine.completes_try (Q := fun _ s' => Accepts s payload.betId s') ?_ (fun _ _ h => h)
      fun _ _ h => completes_nack h) (fun _ _ h => h) fun _ _ h => completes_nack h
  refine Machine.completes_bind haccept (fun acked s₁ h => ?_) fun _ _ h => h
  cases acked with
  | true => exact Machine.completes_ret h
  | false => exact completes_ack h

/-! ## Settlement -/

/-- `settle` of a market that is not settled returns. -/
theorem settle_returns {id : Uuid} {result : MarketResult} {market : Market}
    (hm : s.markets id = some market) (hopen : market.status ≠ .SETTLED) :
    api.Always i IsOk (Completes fun r _ => ∃ dto, r = .ok dto)
      (MarketService.settle id result) s := by
  unfold MarketService.settle
  refine completes_getMarketById (fun market' hm' => ?_) fun hnone => ?_
  swap
  · exact absurd (hm.symm.trans hnone) (by simp)
  obtain rfl := Option.some.inj (hm.symm.trans hm')
  rw [if_neg hopen]
  refine completes_op (fun ch bets s₁ _ => ?_) fun ch e s₁ hx => absurd (Prod.mk.inj hx).1 (by simp)
  have hbet : ∀ (b : Bet) s, api.Always i IsOk (Returns (fun _ _ => True) fun _ => True)
      (MarketService.settleBet market result b) s := fun b s =>
    Machine.always_try (Q := fun _ _ => True) (fun _ _ _ _ _ => trivial) (fun _ _ _ => trivial)
      (fun _ _ _ => Machine.always_ret trivial) fun _ _ => trivial
  refine Machine.always_then (Machine.always_forM (J := fun _ _ => True) (R := fun _ => True)
    (fun b _ s _ => hbet b s) trivial) (fun _ s₂ _ => ?_) fun _ _ => completes_none
  refine completes_op (fun ch saved s₃ _ => ?_) fun ch e s₃ hx =>
    absurd (Prod.mk.inj hx).1 (by simp)
  exact completes_op (fun ch _ s₄ _ => Machine.completes_ret ⟨_, rfl⟩) fun ch e s₄ hx =>
    absurd (Prod.mk.inj hx).1 (by simp)

/-- **`settle`** does all that it is for, or throws at once. -/
theorem settle_completes (id : Uuid) (result : MarketResult)
    (hs : ∀ market, s.markets id = some market → market.status ≠ .SETTLED → s.Settleable id) :
    api.Always i IsOk (Completes fun r s' =>
      (s' = s ∧ ∃ e, r = .error e) ∨
      ∃ market dto, s.markets id = some market ∧ market.status ≠ .SETTLED ∧ r = .ok dto ∧
        s.SettledAs id result s')
      (MarketService.settle id result) s := by
  by_cases hopen : ∃ market, s.markets id = some market ∧ market.status ≠ .SETTLED
  · obtain ⟨market, hm, hst⟩ := hopen
    have hsettle := hs market hm hst
    intro ms x s' hms hrun r hr
    obtain ⟨dto, rfl⟩ := settle_returns hm hst ms x s' hms hrun r hr
    have hfin := (Recovery.settle_always hsettle (Recovery.between_self s id result) ms x s' hms
      hrun).2 (by simp [hr])
    exact .inr ⟨market, dto, hm, hst, rfl, hfin.settledAs hsettle⟩
  · unfold MarketService.settle
    refine completes_getMarketById (fun market hm => ?_) fun _ e => .inl ⟨rfl, e, rfl⟩
    have hst : market.status = .SETTLED := by
      by_contra hst
      exact hopen ⟨market, hm, hst⟩
    rw [if_pos hst]
    exact Machine.completes_throw (.inl ⟨rfl, _, rfl⟩)

end BoltBet
