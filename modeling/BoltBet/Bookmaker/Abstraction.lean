import BoltBet.Bookmaker.Books
import BoltBet.Bookmaker.Calls

/-!
# The books behind the tables

`booksOf`: what the Postgres tables say in the words of a bookmaker, and what each change of the
tables that a call makes does to it.
-/

namespace BoltBet

open Async Bookmaker

/-- The books of users, mutation ids, markets and bets. -/
abbrev BetBooks := House Uuid Uuid Uuid Uuid

/-- What happens in them. -/
abbrev BetAct := Act Uuid Uuid Uuid Uuid

def MarketStatus.trading : MarketStatus → Trading
  | .OPEN => .trading
  | .SUSPENDED => .suspended
  | .SETTLED => .closed

def BetStatus.phase : BetStatus → WagerPhase
  | .PENDING => .offered
  | .ACCEPTED => .accepted
  | .SETTLED | .VOID | .CANCELLED => .closed

/-- A `DEPOSIT` row. -/
def WalletTransaction.deposit? (tx : WalletTransaction) : Option (Deposit Uuid Uuid) :=
  if tx.type = .DEPOSIT then tx.referenceId.map fun key => ⟨tx.userId, key, tx.amountCents⟩
  else none

/-- A bet, with what its `CREDIT` rows paid. -/
def Bet.wager (db : WalletDb) (b : Bet) : Wager Uuid Uuid Uuid Uuid where
  id := b.id
  key := b.referenceId
  user := b.userId
  market := b.marketId
  stake := b.stakeCents
  payout := b.payoutCents
  phase := b.status.phase
  paid := ((db.rowsFor b.userId .CREDIT b.id).map WalletTransaction.amountCents).sum

/-- **The books behind the tables.** -/
def booksOf (s : Store) : BetBooks where
  balance := s.wallet.balanceOf
  market id := (s.markets id).map fun m => (m.oddsInt, m.status.trading)
  deposits := s.wallet.walletTransactions.filterMap WalletTransaction.deposit?
  wagers := s.bets.map (Bet.wager s.wallet)

theorem booksOf_empty : booksOf .empty = .empty := rfl

variable {s s' : Store} {u ref : Uuid} {tx : WalletTransaction}

theorem MarketStatus.trading_closed {st : MarketStatus} : st.trading = .closed ↔ st = .SETTLED := by
  cases st <;> decide

theorem BetStatus.phase_accepted {st : BetStatus} : st.phase = .accepted ↔ st = .ACCEPTED := by
  cases st <;> decide

theorem BetStatus.phase_offered {st : BetStatus} : st.phase = .offered ↔ st = .PENDING := by
  cases st <;> decide

theorem deposit?_eq_some {d : Deposit Uuid Uuid} : tx.deposit? = some d ↔
    tx.type = .DEPOSIT ∧ tx.referenceId = some d.key ∧ tx.userId = d.user ∧
      tx.amountCents = d.amount := by
  unfold WalletTransaction.deposit?
  by_cases ht : tx.type = .DEPOSIT
  · rw [if_pos ht, Option.map_eq_some_iff]
    constructor
    · rintro ⟨key, hkey, rfl⟩
      exact ⟨ht, hkey, rfl, rfl⟩
    · rintro ⟨-, hkey, hu, ha⟩
      exact ⟨d.key, hkey, by rw [hu, ha]⟩
  · rw [if_neg ht]
    simp [ht]

theorem mem_deposits {d : Deposit Uuid Uuid} : d ∈ (booksOf s).deposits ↔
    ∃ tx ∈ s.wallet.walletTransactions, tx.type = .DEPOSIT ∧ tx.referenceId = some d.key ∧
      tx.userId = d.user ∧ tx.amountCents = d.amount := by
  show d ∈ List.filterMap _ _ ↔ _
  simp only [List.mem_filterMap, deposit?_eq_some]

theorem booksOf_congr (h : SameBooks s s') : booksOf s' = booksOf s := by
  have hrowsFor : s'.wallet.rowsFor = s.wallet.rowsFor := by
    funext u t ref
    unfold WalletDb.rowsFor
    rw [h.rows]
  have hwager : Bet.wager s'.wallet = Bet.wager s.wallet := by
    funext b
    unfold Bet.wager
    rw [hrowsFor]
  unfold booksOf
  rw [h.balances, h.markets, h.rows, h.bets, hwager]

/-- The tables are the same. -/
theorem sameBooks_of_tables (h : s.SameTables s') : SameBooks s s' :=
  ⟨by rw [h.wallet], by rw [h.wallet], h.markets, h.bets⟩

/-! ## Rows -/

theorem rowsFor_append {db db' : WalletDb} {txs : List WalletTransaction}
    (h : db'.walletTransactions = db.walletTransactions ++ txs) (u : Uuid) (t : TransactionType)
    (ref : Uuid) :
    db'.rowsFor u t ref = db.rowsFor u t ref ++ txs.filter (·.Matches u ref (some t)) := by
  unfold WalletDb.rowsFor
  rw [h, List.filter_append]

/-- A row that pays nothing changes no wager. -/
theorem wager_of_post {t : TransactionType} {a : Int} (h : Posts s u t a ref tx s')
    (ht : t ≠ .CREDIT) : Bet.wager s'.wallet = Bet.wager s.wallet := by
  have hno : ∀ v id, ¬ tx.Matches v id (some .CREDIT) := fun v id hm =>
    ht (h.type.symm.trans (hm.2.2 _ rfl))
  funext b
  unfold Bet.wager
  rw [rowsFor_append h.rows, List.filter_cons_of_neg (by simpa using hno b.userId b.id),
    List.filter_nil, List.append_nil]

theorem deposits_of_post {t : TransactionType} {a : Int} (h : Posts s u t a ref tx s') :
    s'.wallet.walletTransactions.filterMap WalletTransaction.deposit? =
      (booksOf s).deposits ++ if t = .DEPOSIT then [⟨u, ref, a⟩] else [] := by
  have hlast : [tx].filterMap WalletTransaction.deposit? =
      if t = .DEPOSIT then [⟨u, ref, a⟩] else [] := by
    by_cases ht : t = .DEPOSIT
    · have hdep : tx.deposit? = some ⟨u, ref, a⟩ :=
        deposit?_eq_some.mpr ⟨h.type.trans ht, h.referenceId, h.userId, h.amountCents⟩
      simp [ht, hdep]
    · have hdep : tx.deposit? = none := by
        unfold WalletTransaction.deposit?
        rw [if_neg (h.type ▸ ht)]
      simp [ht, hdep]
  rw [h.rows, List.filterMap_append, hlast]
  rfl

/-! ## The changes -/

theorem booksOf_deposit {a : Int} (h : Posts s u .DEPOSIT a ref tx s') :
    booksOf s' = { booksOf s with
      balance := Function.update (booksOf s).balance u ((booksOf s).balance u + a)
      deposits := (booksOf s).deposits ++ [⟨u, ref, a⟩] } := by
  have hbets : s'.bets = s.bets := by rw [h.frame]
  have hmarkets : s'.markets = s.markets := by rw [h.frame]
  have hdeposits := deposits_of_post h
  unfold booksOf at hdeposits ⊢
  rw [hdeposits, h.balances, hbets, hmarkets, wager_of_post h (by decide)]
  rfl

/-- The wager of a new bet. -/
theorem booksOf_place {dto : PlaceBetDto} {b : Bet} (h : Places s u dto b s')
    (hcredits : ∀ tx ∈ s.wallet.walletTransactions, tx.type = .CREDIT →
      ∃ b' ∈ s.bets, tx.referenceId = some b'.id) :
    ∃ w, booksOf s' = { booksOf s with
        balance := Function.update (booksOf s).balance w.user ((booksOf s).balance w.user - w.stake)
        wagers := (booksOf s).wagers ++ [w] } ∧
      w.id = b.id ∧ w.key = dto.clientMutationId ∧ w.user = u ∧ w.market = dto.marketId ∧
      w.stake = dto.stakeCents ∧ w.phase = .offered ∧ w.paid = 0 ∧
      w.stake ≤ (booksOf s).balance u ∧ ∃ odds,
        (booksOf s).market dto.marketId = some (odds, .trading) ∧ w.payout = w.stake * odds / 100 := by
  obtain ⟨market, id, now, hm, hopen, hb⟩ := h.market
  obtain ⟨tx, s₁, hpost, hwallet⟩ := h.posts
  have hwager := wager_of_post hpost (by decide)
  have hdeposits := deposits_of_post hpost
  have hnone : s.wallet.rowsFor b.userId .CREDIT b.id = [] := by
    refine List.filter_eq_nil_iff.mpr fun tx htx hmatch => ?_
    have hmatch : tx.Matches b.userId b.id (some .CREDIT) := by simpa using hmatch
    obtain ⟨b', hb', href⟩ := hcredits tx htx (hmatch.2.2 _ rfl)
    exact h.ids b' hb' (Option.some.inj (href.symm.trans hmatch.2.1))
  refine ⟨b.wager s.wallet, ?_, rfl, ?_, ?_, ?_, ?_, ?_, ?_, ?_, market.oddsInt, ?_, ?_⟩
  · unfold booksOf at hdeposits ⊢
    rw [hwallet, hdeposits, hpost.balances, h.bets, h.markets, hwager, List.map_append]
    subst hb
    simp [Bet.wager, BettingService.newBet, BetDraft.row, Int.sub_eq_add_neg]
  · subst hb
    rfl
  · subst hb
    rfl
  · subst hb
    rfl
  · subst hb
    rfl
  · subst hb
    rfl
  · show (List.map _ _).sum = 0
    rw [hnone]
    rfl
  · subst hb
    exact hpost.covered rfl
  · show Option.map _ _ = _
    rw [hm, Option.map_some, hopen]
    rfl
  · subst hb
    rfl

theorem booksOf_market {market : Market} (h : WritesMarket s market s') :
    booksOf s' = { booksOf s with
      market := Function.update (booksOf s).market market.id
        (some (market.oddsInt, market.status.trading)) } := by
  have hmarket : (fun id => (s'.markets id).map fun m => (m.oddsInt, m.status.trading)) =
      Function.update (booksOf s).market market.id
        (some (market.oddsInt, market.status.trading)) := by
    funext id
    rw [h.markets]
    by_cases hid : id = market.id
    · subst hid
      simp
    · simp [hid, booksOf]
  unfold booksOf at hmarket ⊢
  rw [h.rows, h.bets, hmarket]

/-- A bet that is accepted, if it waits. -/
theorem booksOf_accept {betId : Uuid} (h : Accepts s betId s') (hids : s.BetIds) :
    booksOf s' = { booksOf s with wagers := (booksOf s).wagers.map (Wager.accept betId) } := by
  rcases h with ⟨hsame, hpast⟩ | ⟨b, now, hb, hst, hwallet, hmarkets, hbets⟩
  · -- no wager with this id waits
    have hwagers : (booksOf s).wagers.map (Wager.accept betId) = (booksOf s).wagers := by
      refine (List.map_congr_left fun w hw => ?_).trans (List.map_id _)
      obtain ⟨b, hb, rfl⟩ := List.mem_map.mp hw
      refine if_neg fun hw => ?_
      exact hpast b (hw.1 ▸ hids.bet_of_mem hb) (BetStatus.phase_offered.mp hw.2)
    rw [booksOf_congr hsame, hwagers]
  have hwagers : s'.bets.map (Bet.wager s.wallet) =
      (booksOf s).wagers.map (Wager.accept betId) := by
    show _ = (s.bets.map (Bet.wager s.wallet)).map _
    rw [hbets]
    show (s.bets.map _).map _ = _
    rw [List.map_map, List.map_map]
    refine List.map_congr_left fun b' hb' => ?_
    show Bet.wager _ (if b'.id = betId then _ else b') = Wager.accept betId (Bet.wager _ b')
    unfold Wager.accept
    by_cases hid : b'.id = betId
    · obtain rfl : b' = b := Option.some.inj ((hids.bet_of_mem hb').symm.trans (hid ▸ hb))
      rw [if_pos hid, if_pos ⟨hid, by rw [Bet.wager, hst]; rfl⟩]
      rfl
    · rw [if_neg hid, if_neg fun hc => hid hc.1]
  unfold booksOf at hwagers ⊢
  rw [hwallet, hmarkets, hwagers]

/-! ## Settlement -/

/-- What the bookmaker owes is what `settle` pays. -/
theorem dueTo_eq (id : Uuid) (result : MarketResult) (u : Uuid) :
    House.dueTo id (decide (result = .WIN)) u (booksOf s).wagers =
      payoutSum u (s.payable id result) := by
  cases result with
  | LOSS =>
    show House.dueTo id false u _ = 0
    refine List.sum_eq_zero fun x hx => ?_
    obtain ⟨w, -, rfl⟩ := List.mem_map.mp hx
    exact if_neg fun hc => absurd hc.2.2 (by decide)
  | WIN =>
    show House.dueTo id true u (s.bets.map (Bet.wager s.wallet)) =
      payoutSum u (s.bets.filter fun b => b.marketId = id ∧ b.status = .ACCEPTED)
    induction s.bets with
    | nil => rfl
    | cons b bets ih =>
      have hdue : (Bet.wager s.wallet b).due id true =
          if b.marketId = id ∧ b.status = .ACCEPTED then b.payoutCents else 0 := by
        unfold Wager.due
        simp only [Bet.wager, BetStatus.phase_accepted, and_true]
      rw [List.map_cons, House.dueTo_cons, ih, hdue]
      show (if b.userId = u then _ else _) + _ = _
      by_cases hb : b.marketId = id ∧ b.status = .ACCEPTED
      · rw [if_pos hb, List.filter_cons_of_pos (by simpa using hb), ← payoutSum_singleton,
          ← payoutSum_append]
        rfl
      · rw [if_neg hb, List.filter_cons_of_neg (by simpa using hb), ite_self, zero_add]

/-- The rows of a bet that is not paid are as before. -/
theorem rowsFor_settled {id : Uuid} {result : MarketResult} (h : s.SettledAs id result s')
    (hids : s.BetIds) {b : Bet} (hb : b ∈ s.bets) (hnot : b ∉ s.payable id result) :
    s'.wallet.rowsFor b.userId .CREDIT b.id = s.wallet.rowsFor b.userId .CREDIT b.id := by
  obtain ⟨paid, txs, hperm, htxs, hrows⟩ := h.rows
  have hnone : txs.filter (·.Matches b.userId b.id (some .CREDIT)) = [] := by
    refine List.filter_eq_nil_iff.mpr fun tx htx hmatch => ?_
    have hmatch : tx.Matches b.userId b.id (some .CREDIT) := by simpa using hmatch
    obtain ⟨n, hn, rfl⟩ := List.mem_iff_getElem.mp htx
    have hn' : n < paid.length := htxs.length_eq ▸ hn
    have hrow : CreditRow paid[n] txs[n] := htxs.get hn' hn
    have hpaid : paid[n] ∈ s.payable id result := hperm.mem_iff.mp (List.getElem_mem hn')
    have hbid : paid[n].id = b.id := Option.some.inj (hrow.referenceId.symm.trans hmatch.2.1)
    have hmem := (Recovery.mem_betsIn.mp (Recovery.payable_subset hpaid)).1
    exact hnot (Recovery.eq_of_id hids hb hmem hbid ▸ hpaid)
  rw [rowsFor_append hrows, hnone, List.append_nil]

/-- **What `settle` leaves, in the books.** -/
theorem booksOf_settle {id : Uuid} {result : MarketResult} (h : s.SettledAs id result s')
    (hs : s.Settleable id) : ∃ odds t, (booksOf s).market id = some (odds, t) ∧ t ≠ .closed ∧
    booksOf s' = { booksOf s with
      balance := fun u => (booksOf s).balance u +
        House.dueTo id (decide (result = .WIN)) u (booksOf s).wagers
      market := Function.update (booksOf s).market id (some (odds, .closed))
      wagers := (booksOf s).wagers.map (Wager.settle id (decide (result = .WIN))) } := by
  obtain ⟨market, now, hm, hmarkets⟩ := h.market
  obtain ⟨market', hm', hopen⟩ := hs.market
  obtain rfl := Option.some.inj (hm.symm.trans hm')
  refine ⟨market.oddsInt, market.status.trading, ?_, fun hc => hopen ?_, ?_⟩
  · show Option.map _ _ = _
    rw [hm]
    rfl
  · exact MarketStatus.trading_closed.mp hc
  have hbalance : s'.wallet.balanceOf = fun u => (booksOf s).balance u +
      House.dueTo id (decide (result = .WIN)) u (booksOf s).wagers := by
    funext u
    rw [h.balances u, dueTo_eq]
    rfl
  have hmarket : (fun id => (s'.markets id).map fun m => (m.oddsInt, m.status.trading)) =
      Function.update (booksOf s).market id (some (market.oddsInt, .closed)) := by
    funext id'
    rw [hmarkets]
    by_cases hid : id' = id
    · subst hid
      simp [MarketStatus.trading]
    · simp [hid, booksOf]
  have hdeposits : s'.wallet.walletTransactions.filterMap WalletTransaction.deposit? =
      (booksOf s).deposits := by
    obtain ⟨paid, txs, -, htxs, hrows⟩ := h.rows
    have hnone : txs.filterMap WalletTransaction.deposit? = [] := by
      refine List.filterMap_eq_nil_iff.mpr fun tx htx => ?_
      obtain ⟨n, hn, rfl⟩ := List.mem_iff_getElem.mp htx
      have hn' : n < paid.length := htxs.length_eq ▸ hn
      have hrow : CreditRow paid[n] txs[n] := htxs.get hn' hn
      unfold WalletTransaction.deposit?
      rw [if_neg (by rw [hrow.type]; decide)]
    rw [hrows, List.filterMap_append, hnone, List.append_nil]
    rfl
  have hwagers : s'.bets.map (Bet.wager s'.wallet) =
      (booksOf s).wagers.map (Wager.settle id (decide (result = .WIN))) := by
    show _ = (s.bets.map (Bet.wager s.wallet)).map _
    have hone : ∀ b ∈ s.bets, ∀ b', Store.Settles id b b' →
        (b.wager s.wallet).settle id (decide (result = .WIN)) = b'.wager s'.wallet := by
      intro b hb b' hsettles
      unfold Store.Settles at hsettles
      unfold Wager.settle
      by_cases hacc : b.marketId = id ∧ b.status = .ACCEPTED
      · rw [if_pos hacc] at hsettles
        obtain ⟨hsame, hst⟩ := hsettles
        have hmem : b ∈ s.betsIn id .ACCEPTED := Recovery.mem_betsIn.mpr ⟨hb, hacc⟩
        have hpaid : ((s'.wallet.rowsFor b.userId .CREDIT b.id).map
            WalletTransaction.amountCents).sum =
            if decide (result = .WIN) = true then b.payoutCents else 0 := by
          cases result with
          | WIN =>
            obtain ⟨tx, hrow, hcredit⟩ := h.credit b hmem
            rw [hrow]
            simpa using hcredit.amountCents
          | LOSS =>
            rw [rowsFor_settled h hs.betIds hb (by simp [Store.payable]), hs.uncredited b hmem]
            rfl
        have hphase : (b.wager s.wallet).market = id ∧ (b.wager s.wallet).phase = .accepted :=
          ⟨hacc.1, BetStatus.phase_accepted.mpr hacc.2⟩
        rw [if_pos hphase]
        unfold Bet.Same at hsame
        rw [hsame, hst]
        unfold Bet.wager
        simp only [hpaid]
        rfl
      · rw [if_neg hacc] at hsettles
        rw [hsettles]
        have hphase : ¬ ((b.wager s.wallet).market = id ∧
            (b.wager s.wallet).phase = .accepted) := fun hc =>
          hacc ⟨hc.1, BetStatus.phase_accepted.mp hc.2⟩
        have hnot : b ∉ s.payable id result := fun hp =>
          hacc (Recovery.mem_betsIn.mp (Recovery.payable_subset hp)).2
        rw [if_neg hphase]
        unfold Bet.wager
        rw [rowsFor_settled h hs.betIds hb hnot]
    have hall := (List.forall₂_and_left _ _).mpr ⟨fun b (hb : b ∈ s.bets) => hb, h.bets⟩
    have heq := List.forall₂_map_left_iff.mpr (List.forall₂_map_right_iff.mpr
      (hall.imp fun b b' hb => hone b hb.1 b' hb.2))
    rw [List.forall₂_eq_eq_eq] at heq
    rw [List.map_map]
    exact heq.symm
  unfold booksOf at hbalance hmarket hdeposits hwagers ⊢
  rw [hbalance, hmarket, hdeposits, hwagers]

end BoltBet
