import BoltBet.Api.Rules
import Mathlib.Data.Rat.Floor

/-!
# No unjustified payout

The payout of a bet is computed when it is placed, stored, read back in the list `settle` selects,
and credited later by the wallet service. What ties these together in every interleaving:

* a stored bet was inserted with the odds its market had then (`PlacedAt`); odds never change;
* a bet `settle` works on was `ACCEPTED` when it was selected, and is still the bet of its id;
* a `CREDIT` row belongs to such a bet, so a row found by `credit` has the amount it would credit.

`api_payouts_justified`: in every run, every `CREDIT` row and every notification of a win is
justified.
-/

namespace BoltBet

open Async

/-- The payout is the exact one, rounded down. -/
theorem BettingService.payout_eq_floor (stakeCents oddsInt : Int) :
    payout stakeCents oddsInt = ⌊((stakeCents * oddsInt : Int) : ℚ) / 100⌋ := by
  have h := Rat.floor_intCast_div_natCast (stakeCents * oddsInt) 100
  unfold payout
  exact_mod_cast h.symm

/-- The bet was accepted at some time before. -/
def WasAccepted (w : World api) (betId : Uuid) : Prop :=
  ∃ x ∈ w.trace, x.before.betStatus betId = some .ACCEPTED

/-- `settle` was called with WIN on the market. -/
def WinCalled (w : World api) (marketId : Uuid) : Prop :=
  ∃ x ∈ w.trace, x.call = .settle marketId .WIN

/-- The bet was inserted, and its market had these odds then. -/
def PlacedAt (w : World api) (b : Bet) (odds : Int) : Prop :=
  ∃ x ∈ w.trace, ∃ d m, x.op = .betSave d ∧ x.took = true ∧ (d.row b.id b.createdAt).Same b ∧
    x.before.markets b.marketId = some m ∧ m.oddsInt = odds

/-- **A payout to a user for a bet is justified.** -/
def PayoutJustified (w : World api) (userId betId : Uuid) (amountCents : Int) : Prop :=
  ∃ b ∈ w.state.bets, b.id = betId ∧ b.userId = userId ∧ WasAccepted w betId ∧
    WinCalled w b.marketId ∧ ∃ odds, PlacedAt w b odds ∧
      amountCents = ⌊((b.stakeCents * odds : Int) : ℚ) / 100⌋

namespace Store

/-- The market exists and has these odds. -/
def HasOdds (s : Store) (marketId : Uuid) (odds : Int) : Prop :=
  ∃ m, s.markets marketId = some m ∧ m.oddsInt = odds

/-- A `CREDIT` row of this amount. -/
def Credited (s : Store) (userId betId : Uuid) (amountCents : Int) : Prop :=
  ∃ tx ∈ s.wallet.walletTransactions, tx.type = .CREDIT ∧ tx.userId = userId ∧
    tx.referenceId = some betId ∧ tx.amountCents = amountCents

/-- Odds stay, when only entities with the odds of their row are saved. -/
theorem Effect.hasOdds {ch : ApiChoice} {o : ApiOp} {s s' : Store} (h : Effect ch s o s')
    (ho : ∀ m, o = .marketSave m → s.HasOdds m.id m.oddsInt) {id : Uuid} {odds : Int}
    (hs : s.HasOdds id odds) : s'.HasOdds id odds := by
  obtain ⟨m₀, hm₀, rfl⟩ := hs
  rcases h.markets_cases with he | ⟨d, -, hn, he⟩ | ⟨m, rfl, he⟩
  · exact ⟨m₀, he ▸ hm₀, rfl⟩
  · have hne : id ≠ ch.fresh := fun hid => by simp [hid ▸ hm₀] at hn
    refine ⟨m₀, ?_, rfl⟩
    rw [he]
    exact (Function.update_of_ne hne _ _).trans hm₀
  · by_cases hid : id = m.id
    · subst hid
      obtain ⟨m₁, hm₁, hodds⟩ := ho m rfl
      obtain rfl := Option.some.inj (hm₀.symm.trans hm₁)
      refine ⟨s.savedMarket ch.now m, ?_, ?_⟩
      · rw [he]
        unfold setMarket
        rw [savedMarket_id]
        exact Function.update_self ..
      · unfold savedMarket
        rw [hm₀, hodds]
        exact Market.save_oddsInt ..
    · refine ⟨m₀, ?_, rfl⟩
      rw [he]
      unfold setMarket
      rw [savedMarket_id]
      exact (Function.update_of_ne hid _ _).trans hm₀

end Store

namespace Payout

/-- What holds in every state. -/
structure Inv (w : World api) : Prop where
  betIds : w.state.BetIds
  marketIds : w.state.MarketIds
  /-- Bets were placed with the odds of their market. -/
  priced : ∀ b ∈ w.state.bets, ∃ odds, PlacedAt w b odds ∧
    b.payoutCents = BettingService.payout b.stakeCents odds
  /-- Credits pay accepted bets of a market settled as won. -/
  credits : ∀ tx ∈ w.state.wallet.walletTransactions, tx.type = .CREDIT →
    ∃ b ∈ w.state.bets, tx.userId = b.userId ∧ tx.referenceId = some b.id ∧
      tx.amountCents = b.payoutCents ∧ WasAccepted w b.id ∧ WinCalled w b.marketId
  /-- Notifications of a win come after the credit. -/
  notices : ∀ u id name p, .BET_SETTLED u id name .WIN p ∈ w.state.notifications →
    w.state.Credited u id p

/-- What no step destroys. -/
structure Le (w w' : World api) : Prop extends Later w w' where
  odds : ∀ id odds, w.state.HasOdds id odds → w'.state.HasOdds id odds

/-- What a call knows before an operation. -/
structure Known (call : ApiCall) (o : ApiOp) (w : World api) : Prop where
  insert : ∀ d, o = .betSave d → ∃ odds, w.state.HasOdds d.marketId odds ∧
    d.payoutCents = BettingService.payout d.stakeCents odds
  save : ∀ m, o = .marketSave m → w.state.HasOdds m.id m.oddsInt
  credit : ∀ u a ref desc, o = .wallet (.applyTransaction u .CREDIT a ref desc) →
    ∃ b ∈ w.state.bets, u = b.userId ∧ ref = some b.id ∧ a = b.payoutCents ∧
      WasAccepted w b.id ∧ call = .settle b.marketId .WIN
  notify : ∀ u id name p, o = .publishNotification (.BET_SETTLED u id name .WIN p) →
    w.state.Credited u id p

namespace Le

variable {w w' : World api} (h : Le w w')
include h

theorem wasAccepted {id : Uuid} (ha : WasAccepted w id) : WasAccepted w' id := by
  exact h.past ha

theorem winCalled {id : Uuid} (hw : WinCalled w id) : WinCalled w' id := by
  exact h.past hw

theorem credited {u id : Uuid} {p : Int} (hc : w.state.Credited u id p) :
    w'.state.Credited u id p := by
  obtain ⟨tx, htx, hrest⟩ := hc
  exact ⟨tx, h.txs htx, hrest⟩

theorem placedAt {b b' : Bet} (hsame : b.Same b') {odds : Int} (hp : PlacedAt w b odds) :
    PlacedAt w' b' odds := by
  obtain ⟨x, hx, d, m, hop, ht, hd, hm, ho⟩ := hp
  refine ⟨x, h.trace.subset hx, d, m, hop, ht, ?_, hsame.marketId ▸ hm, ho⟩
  rw [hsame.id, hsame.createdAt]
  exact hd.trans hsame

/-- The bet a credit pays is still there. -/
theorem paid {u : Uuid} {a : Int} {ref : Option Uuid} {P : Bet → Prop}
    (hP : ∀ b b', b.Same b' → P b → P b')
    (hb : ∃ b ∈ w.state.bets, u = b.userId ∧ ref = some b.id ∧ a = b.payoutCents ∧
      WasAccepted w b.id ∧ P b) :
    ∃ b ∈ w'.state.bets, u = b.userId ∧ ref = some b.id ∧ a = b.payoutCents ∧
      WasAccepted w' b.id ∧ P b := by
  obtain ⟨b, hb, rfl, rfl, rfl, hacc, hp⟩ := hb
  obtain ⟨b', hb', hsame⟩ := h.bets b hb
  refine ⟨b', hb', hsame.userId.symm, congrArg some hsame.id.symm, hsame.payoutCents.symm, ?_,
    hP b b' hsame hp⟩
  rw [hsame.id]
  exact h.wasAccepted hacc

theorem known {call : ApiCall} {o : ApiOp} (hk : Known call o w) : Known call o w' where
  insert d ho := by
    obtain ⟨odds, hodds, hp⟩ := hk.insert d ho
    exact ⟨odds, h.odds _ _ hodds, hp⟩
  save m ho := h.odds _ _ (hk.save m ho)
  credit u a ref desc ho := by
    refine h.paid (P := fun b => call = .settle b.marketId .WIN) ?_ (hk.credit u a ref desc ho)
    intro b b' hsame hcall
    rw [hcall, hsame.marketId]
  notify u id name p ho := h.credited (hk.notify u id name p ho)

end Le

theorem Le.refl (w : World api) : Le w w := ⟨.refl w, fun _ _ h => h⟩

theorem Le.trans {w w₁ w₂ : World api} (h : Le w w₁) (h' : Le w₁ w₂) : Le w w₂ :=
  ⟨h.toLater.trans h'.toLater, fun id odds ho => h'.odds id odds (h.odds id odds ho)⟩

/-! ## One operation -/

section Step

variable {i : Nat} {call : ApiCall} {o : ApiOp} {w w' : World api} {r : Except Err o.Res}

theorem le_exec (hx : api.Exec i call o w r w') (hk : Known call o w) : Le w w' := by
  obtain ⟨ch, he⟩ := api_exec_effect hx
  exact ⟨.exec hx, fun _ _ => he.hasOdds hk.save⟩

/-- A bet there is was there before, or the operation inserted it at the odds of its market. -/
theorem priced_exec (hx : api.Exec i call o w r w') (hinv : Inv w) (hk : Known call o w)
    {b : Bet} (hb : b ∈ w'.state.bets) : ∃ odds, PlacedAt w' b odds ∧
      b.payoutCents = BettingService.payout b.stakeCents odds := by
  have hle := le_exec hx hk
  obtain ⟨took, htr, ⟨rfl, ch, a, hs⟩ | ⟨-, hs⟩⟩ := api_exec_cases hx
  · rcases (Store.exec_effect hs).bet_before hb with ⟨b₀, hb₀, hsame⟩ | ⟨d, rfl, -, rfl⟩
    · obtain ⟨odds, hp, hpay⟩ := hinv.priced b₀ hb₀
      refine ⟨odds, hle.placedAt hsame hp, ?_⟩
      rw [hsame.payoutCents, hsame.stakeCents, hpay]
    · obtain ⟨odds, ⟨m, hm, hodds⟩, hpay⟩ := hk.insert d rfl
      refine ⟨odds, ⟨_, htr ▸ List.mem_cons_self, d, m, rfl, rfl, ?_, hm, hodds⟩, hpay⟩
      exact .refl _
  · obtain ⟨odds, hp, hpay⟩ := hinv.priced b (hs ▸ hb)
    exact ⟨odds, hle.placedAt (.refl b) hp, hpay⟩

/-- A `CREDIT` row there is was there before, or the operation credited a bet it knows of. -/
theorem credits_exec (hx : api.Exec i call o w r w') (hinv : Inv w) (hk : Known call o w)
    {tx : WalletTransaction} (htx : tx ∈ w'.state.wallet.walletTransactions)
    (ht : tx.type = .CREDIT) : ∃ b ∈ w'.state.bets, tx.userId = b.userId ∧
      tx.referenceId = some b.id ∧ tx.amountCents = b.payoutCents ∧ WasAccepted w' b.id ∧
      WinCalled w' b.marketId := by
  have hle := le_exec hx hk
  have hold : tx ∈ w.state.wallet.walletTransactions → ∃ b ∈ w'.state.bets,
      tx.userId = b.userId ∧ tx.referenceId = some b.id ∧ tx.amountCents = b.payoutCents ∧
      WasAccepted w' b.id ∧ WinCalled w' b.marketId := fun h =>
    hle.paid (P := fun b => WinCalled w' b.marketId) (fun b b' hsame hw => hsame.marketId ▸ hw)
      (by
        obtain ⟨b, hb, hu, href, ha, hacc, hwin⟩ := hinv.credits tx h ht
        exact ⟨b, hb, hu, href, ha, hacc, hle.winCalled hwin⟩)
  obtain ⟨ch, he⟩ := api_exec_effect hx
  rcases he.wallet_cases with hsame | ⟨o', r', rfl, hs⟩
  · exact hold (hsame ▸ htx)
  rcases WalletDb.exec_rows hs with ⟨hrows, -⟩ |
    ⟨u, t, a, ref, d, tx', rfl, -, rfl, rfl, rfl, rfl, hrows⟩
  · exact hold (hrows ▸ htx)
  rw [hrows, List.mem_append, List.mem_singleton] at htx
  rcases htx with htx | rfl
  · exact hold htx
  · obtain ⟨took, htr⟩ := hx.entry
    refine hle.paid (P := fun b => WinCalled w' b.marketId)
      (fun b b' hsame hw => hsame.marketId ▸ hw) ?_
    obtain ⟨b, hb, hu, href, ha, hacc, hcall⟩ := hk.credit _ _ _ _ (by rw [ht])
    exact ⟨b, hb, hu, href, ha, hacc, ⟨_, htr ▸ List.mem_cons_self, hcall⟩⟩

/-- **One operation keeps payouts justified.** -/
theorem inv_exec (hx : api.Exec i call o w r w') (hinv : Inv w) (hk : Known call o w) :
    Inv w' := by
  obtain ⟨ch, he⟩ := api_exec_effect hx
  refine ⟨he.betIds hinv.betIds, hinv.marketIds.effect he,
    fun b hb => priced_exec hx hinv hk hb, fun tx htx ht => credits_exec hx hinv hk htx ht,
    fun u id name p hn => ?_⟩
  have hle := le_exec hx hk
  rcases he.notifications_cases with hsame | ⟨n, rfl, hpub⟩
  · exact hle.credited (hinv.notices u id name p (hsame ▸ hn))
  · rw [hpub, List.mem_append, List.mem_singleton] at hn
    rcases hn with hn | rfl
    · exact hle.credited (hinv.notices u id name p hn)
    · exact hle.credited (hk.notify u id name p rfl)

end Step

/-- Starting a call, Redis and RabbitMQ change nothing of it. -/
theorem same_tables {s s' : Store} {l : List (Entry api)} (h : s.SameTables s')
    (hinv : Inv ⟨s, l⟩) : Inv ⟨s', l⟩ ∧ Le ⟨s, l⟩ ⟨s', l⟩ := by
  have hle : Le ⟨s, l⟩ ⟨s', l⟩ := by
    refine ⟨.same h, ?_⟩
    rintro id odds ⟨m, hm, ho⟩
    exact ⟨m, h.markets.symm ▸ hm, ho⟩
  refine ⟨⟨?_, ?_, fun b hb => ?_, fun tx htx ht => ?_, fun u id name p hn => ?_⟩, hle⟩
  · exact h.betIds hinv.betIds
  · exact h.marketIds hinv.marketIds
  · obtain ⟨odds, hp, hpay⟩ := hinv.priced b (h.bets ▸ hb)
    exact ⟨odds, hle.placedAt (.refl b) hp, hpay⟩
  · obtain ⟨b, hb, hrest⟩ := hinv.credits tx (h.wallet ▸ htx) ht
    exact ⟨b, h.bets.symm ▸ hb, hrest⟩
  · exact hle.credited (hinv.notices u id name p (h.notifications ▸ hn))

/-- Payouts are justified, and every call knows what it needs for the next one. -/
def knowledge : Knowledge api :=
  apiKnowledge Inv Le (fun _ => Known) (fun _ _ _ _ _ _ => True) Le.refl Le.trans
    (fun hinv hK _ hx =>
      ⟨inv_exec hx hinv hK, le_exec hx hK, fun _ _ _ _ hk => (le_exec hx hK).known hk⟩)
    fun hsame hinv =>
      ⟨(same_tables hsame hinv).1, (same_tables hsame hinv).2,
        fun _ _ _ hk => (same_tables hsame hinv).2.known hk⟩

/-! ## The calls -/

/-- Operations that need no knowledge. -/
structure Harmless (o : ApiOp) : Prop where
  insert : ∀ d, o ≠ .betSave d
  save : ∀ m, o ≠ .marketSave m
  credit : ∀ u a ref desc, o ≠ .wallet (.applyTransaction u .CREDIT a ref desc)
  notify : ∀ u id name p, o ≠ .publishNotification (.BET_SETTLED u id name .WIN p)

variable {i : Nat} {call : ApiCall}

theorem Harmless.known {o : ApiOp} (h : Harmless o) (w : World api) : knowledge.K i call o w :=
  ⟨fun d ho => absurd ho (h.insert d), fun m ho => absurd ho (h.save m),
    fun u a ref desc ho => absurd ho (h.credit u a ref desc),
    fun u id name p ho => absurd ho (h.notify u id name p)⟩

theorem harmless_find (id : Uuid) : Harmless (.marketFindOne id) := by constructor <;> simp

/-- The odds that were read stay the odds of the market. -/
theorem safe_getMarketById (id : Uuid) (w : World api) :
    knowledge.rules.Safe i call (fun r w' => ∀ m, r = .ok m → m.id = id ∧
      w'.state.HasOdds id m.oddsInt) (MarketService.getMarketById id) w := by
  refine ApiRules.safe_getMarketById ((harmless_find id).known w) ?_ fun e w m h => by simp at h
  rintro m w₁ w₂ hinv hx - m' h
  obtain rfl := Except.ok.inj h
  obtain ⟨hm, hs⟩ := api_marketFindOne_ok hx
  exact ⟨hinv.marketIds id m hm.symm, ⟨m, by rw [hs]; exact hm.symm, rfl⟩⟩

theorem safe_assertMarketOpen (id : Uuid) (w : World api) :
    knowledge.rules.Safe i call (fun r w' => ∀ m, r = .ok m → w'.state.HasOdds id m.oddsInt)
      (MarketService.assertMarketOpen id) w := by
  refine Rules.safe_seq (safe_getMarketById id w) (fun m w h => ?_) fun e w _ m h => by simp at h
  split
  · exact fun m h => absurd h (by simp)
  · rintro m' h'
    obtain rfl := Except.ok.inj h'
    exact (h m rfl).2

theorem odds_last (id : Uuid) (odds : Int) :
    knowledge.Lasts fun w : World api => w.state.HasOdds id odds := fun hle h => hle.odds id odds h

/-- **`placeBet` stores the payout at the odds of the market.** -/
theorem safe_placeNewBet (u : Uuid) (dto : PlaceBetDto) (w : World api) :
    knowledge.rules.Safe i call (fun _ _ => True) (BettingService.placeNewBet u dto) w := by
  unfold BettingService.placeNewBet
  refine Rules.safe_seq (safe_assertMarketOpen dto.marketId w) (fun m w hm => ?_)
    fun _ _ _ => trivial
  -- the odds that were read last until the insert
  have hdebit : ∀ desc, (Api.wallet (WalletService.debit u dto.stakeCents dto.clientMutationId
      desc)).All Harmless := fun desc => Api.all_wallet (Api.all_lookup_then
    (by constructor <;> simp) (by constructor <;> simp))
  refine Rules.safe_seq (Knowledge.safe_of_all (hdebit _) (fun _ => Harmless.known)
    (odds_last dto.marketId m.oddsInt) (hm m rfl)) (fun _ w hodds => ?_) fun _ _ _ => trivial
  have hknown : Known call (.betSave (BettingService.newBet u dto m)) w := by
    refine ⟨fun d h => ?_, by simp, by simp, by simp⟩
    obtain rfl := ApiOp.betSave.inj h
    exact ⟨m.oddsInt, hodds, rfl⟩
  refine Rules.safe_bind.mpr (Knowledge.safe_op' hknown fun {w₁ r w₂} _ _ _ _ => ?_)
  cases r with
  | error e => trivial
  | ok bet =>
    refine ApiRules.safe_then (fun _ => Harmless.known)
      (Api.all_op (by constructor <;> simp)) (fun _ w => ?_) fun _ _ => trivial
    exact ApiRules.safe_then (fun _ => Harmless.known) (Api.all_op (by constructor <;> simp))
      (fun _ _ => trivial) fun _ _ => trivial

/-- Saving a market that was read keeps its odds. -/
theorem safe_save {m : Market} {st : MarketStatus} {w : World api}
    (hodds : w.state.HasOdds m.id m.oddsInt) :
    knowledge.rules.Safe i call (fun _ _ => True) (do
      let saved ← Api.marketSave { m with status := st }
      Api.publishNotification
        (.MARKET_UPDATED saved.id saved.name saved.status saved.oddsInt)
      return saved.toDto) w := by
  have hknown : Known call (.marketSave { m with status := st }) w := by
    refine ⟨by simp, fun m' h => ?_, by simp, by simp⟩
    obtain rfl := ApiOp.marketSave.inj h
    exact hodds
  refine Rules.safe_bind.mpr (Knowledge.safe_op' hknown fun {w₁ r w₂} _ _ _ _ => ?_)
  cases r with
  | error e => trivial
  | ok saved =>
    exact ApiRules.safe_then (fun _ => Harmless.known) (Api.all_op (by constructor <;> simp))
      (fun _ _ => trivial) fun _ _ => trivial

theorem safe_updateStatus (id : Uuid) (st : MarketStatus) (w : World api) :
    knowledge.rules.Safe i call (fun _ _ => True) (MarketService.updateStatus id st) w := by
  unfold MarketService.updateStatus
  refine Rules.safe_seq (safe_getMarketById id w) (fun m w hm => ?_) fun _ _ _ => trivial
  split
  · trivial
  · obtain ⟨hid, hodds⟩ := hm m rfl
    exact safe_save (hid ▸ hodds)

/-- What `settle` knows of the bets it works on. -/
def Selected (m : Market) (id : Uuid) (bets : List Bet) (w : World api) : Prop :=
  w.state.HasOdds m.id m.oddsInt ∧
  ∀ b ∈ bets, b.marketId = id ∧ WasAccepted w b.id ∧ ∃ b' ∈ w.state.bets, b.Same b'

theorem selected_lasts (m : Market) (id : Uuid) (bets : List Bet) :
    knowledge.Lasts (Selected m id bets) := by
  rintro w w' hle ⟨hodds, hbets⟩
  refine ⟨hle.odds _ _ hodds, fun b hb => ?_⟩
  obtain ⟨hid, hacc, b', hb', hsame⟩ := hbets b hb
  obtain ⟨b'', hb'', hsame'⟩ := hle.bets b' hb'
  exact ⟨hid, hle.wasAccepted hacc, b'', hb'', hsame.trans hsame'⟩

theorem selected_of_betFind {m : Market} {id : Uuid} {w w' : World api} {bets : List Bet}
    (hinv : Inv w) (hodds : w'.state.HasOdds m.id m.oddsInt)
    (hx : api.Exec i call (.betFind id .ACCEPTED) w (.ok bets) w') : Selected m id bets w' := by
  obtain ⟨hperm, hs⟩ := api_betFind_ok hx
  obtain ⟨took, htr⟩ := hx.entry
  refine ⟨hodds, fun b hb => ?_⟩
  obtain ⟨hmem, hsel⟩ := List.mem_filter.mp (hperm.subset hb)
  obtain ⟨hid, hst⟩ : b.marketId = id ∧ b.status = .ACCEPTED := by simpa using hsel
  refine ⟨hid, ⟨_, htr ▸ List.mem_cons_self, ?_⟩, b, hs ▸ hmem, .refl b⟩
  show w.state.betStatus b.id = _
  rw [Store.betStatus, hinv.betIds.bet_of_mem hmem, ← hst]
  rfl

/-- **An answered payout left its `CREDIT` row.** -/
theorem safe_creditPayout {m market : Market} {id : Uuid} {bets : List Bet} {b : Bet}
    (hb : b ∈ bets) {w : World api} (hw : Selected m id bets w) :
    knowledge.rules.Safe i (.settle id .WIN) (fun r w' => Selected m id bets w' ∧
      ∀ x, r = .ok x → w'.state.Credited b.userId b.id b.payoutCents)
      (MarketService.creditPayout market .WIN b) w := by
  unfold MarketService.creditPayout
  rw [Api.wallet_credit]
  refine Rules.safe_seq (Q := fun r w' => Selected m id bets w' ∧
    ∀ x, r = .ok x → w'.state.Credited b.userId b.id b.payoutCents) ?_
    (fun x _ h => ⟨h.1, fun _ _ => h.2 x rfl⟩) fun _ _ h => ⟨h.1, fun x hx => by simp at hx⟩
  refine Rules.safe_bind.mpr (Knowledge.safe_op (selected_lasts m id bets) hw
    (Harmless.known (by constructor <;> simp) w) fun {w₁ r w₂} hinv _ _ hx _ hw₂ => ?_)
  rcases r with e | _ | tx
  · exact ⟨hw₂, fun x h => by simp at h⟩
  · -- no row yet: the credit is of a bet this call knows of
    obtain ⟨hid, hacc, b', hb', hsame⟩ := hw₂.2 b hb
    have hknown : Known (.settle id .WIN) (.wallet (.applyTransaction b.userId .CREDIT
        b.payoutCents (some b.id) ((some (MarketService.payoutDescription market.name)).getD
        "Bet settlement payout"))) w₂ := by
      refine ⟨by simp, by simp, fun u a ref desc h => ?_, by simp⟩
      obtain ⟨rfl, -, rfl, rfl, -⟩ := WalletOp.applyTransaction.inj (ApiOp.wallet.inj h)
      refine ⟨b', hb', hsame.userId.symm, congrArg some hsame.id.symm, hsame.payoutCents.symm,
        hsame.id ▸ hacc, ?_⟩
      rw [hsame.marketId, hid]
    refine Knowledge.safe_op (selected_lasts m id bets) hw₂ hknown
      fun {w₃ r w₄} _ _ _ hx _ hw₄ => ⟨hw₄, ?_⟩
    rintro x rfl
    obtain ⟨tx, hrows, hu, ht, ha, href⟩ := api_apply_ok hx
    refine ⟨tx, ?_, ht, hu, href, ha⟩
    rw [hrows]
    exact List.mem_append_right _ (List.mem_singleton_self tx)
  · -- a row of this bet: it pays what this call would pay
    refine ⟨hw₂, fun _ _ => ?_⟩
    obtain ⟨htx, hs⟩ := api_lookup_some hx
    obtain ⟨hmem, hmatch⟩ := List.mem_filter.mp htx
    obtain ⟨hu, href, ht⟩ := of_decide_eq_true hmatch
    have ht := ht .CREDIT rfl
    obtain ⟨b₁, hb₁, -, href₁, ha₁, -⟩ := hinv.credits tx hmem ht
    obtain ⟨-, -, b', hb', hsame⟩ := hw₂.2 b hb
    have hid : b₁.id = b'.id := by
      rw [hsame.id]
      exact Option.some.inj (href₁.symm.trans href)
    have heq : b₁ = b' := by
      have h₁ := hinv.betIds.bet_of_mem hb₁
      have h₂ := hinv.betIds.bet_of_mem (hs ▸ hb')
      rw [hid] at h₁
      exact Option.some.inj (h₁.symm.trans h₂)
    refine ⟨tx, hs ▸ hmem, ht, hu, href, ?_⟩
    rw [ha₁, heq, hsame.payoutCents]

/-- **One round of the loop of `settle`.** -/
theorem safe_settleBet {m market : Market} {id : Uuid} {result : MarketResult} {bets : List Bet}
    {b : Bet} (hb : b ∈ bets) {w : World api} (hw : Selected m id bets w) :
    knowledge.rules.Safe i (.settle id result) (fun _ => Selected m id bets)
      (MarketService.settleBet market result b) w := by
  have hlasts := @selected_lasts m id bets
  -- what the notification of a win needs
  have hpaid : knowledge.rules.Safe i (.settle id result) (fun r w' => Selected m id bets w' ∧
      ∀ x, r = .ok x → result = .WIN → w'.state.Credited b.userId b.id b.payoutCents)
      (MarketService.creditPayout market result b) w := by
    cases result with
    | WIN => exact (safe_creditPayout hb hw).mono fun r w h => ⟨h.1, fun x hx _ => h.2 x hx⟩
    | LOSS => exact ⟨hw, fun _ _ h => absurd h (by simp)⟩
  refine Rules.safe_try (Q := fun _ => Selected m id bets) (Rules.safe_seq hpaid
    (fun x w h => ?_) fun _ _ h => h.1) (fun _ _ h => h) fun _ _ h => h
  have hsettled : knowledge.Lasts fun w : World api => Selected m id bets w ∧
      (result = .WIN → w.state.Credited b.userId b.id b.payoutCents) :=
    fun hle h => ⟨hlasts hle h.1, fun hwin => hle.credited (h.2 hwin)⟩
  refine Rules.safe_bind.mpr (Knowledge.safe_op hsettled ⟨h.1, h.2 x rfl⟩
    (Harmless.known (by constructor <;> simp) w) fun {_ r w₂} _ _ _ _ _ hw₂ => ?_)
  cases r with
  | error e => exact hw₂.1
  | ok _ =>
    have hknown : Known (.settle id result) (.publishNotification (.BET_SETTLED b.userId b.id
        market.name result (if result = .WIN then b.payoutCents else 0))) w₂ := by
      refine ⟨by simp, by simp, by simp, fun u id' name p h => ?_⟩
      obtain ⟨rfl, rfl, -, rfl, rfl⟩ :=
        NotificationPayload.BET_SETTLED.inj (ApiOp.publishNotification.inj h)
      exact hw₂.2 rfl
    exact Knowledge.safe_op hlasts hw₂.1 hknown fun _ _ _ _ _ h => h

theorem safe_settle (id : Uuid) (result : MarketResult) (w : World api) :
    knowledge.rules.Safe i (.settle id result) (fun _ _ => True)
      (MarketService.settle id result) w := by
  unfold MarketService.settle
  refine Rules.safe_seq (safe_getMarketById id w) (fun m w hm => ?_) fun _ _ _ => trivial
  split
  · trivial
  obtain ⟨hid, hodds⟩ := hm m rfl
  refine Rules.safe_bind.mpr (Knowledge.safe_op (odds_last id m.oddsInt) hodds
    (Harmless.known (by constructor <;> simp) w) fun {w₁ r w₂} hinv _ _ hx _ hw₂ => ?_)
  cases r with
  | error e => trivial
  | ok bets =>
    refine Rules.safe_seq (Q := fun _ => Selected m id bets) (Rules.safe_forM
      (fun b hb w hw => (safe_settleBet hb hw).mono ?_) (fun _ h => h)
      (selected_of_betFind hinv (hid.symm ▸ hw₂) hx)) (fun _ w hw => safe_save hw.1)
      fun _ _ _ => trivial
    rintro (e | _) w h <;> exact h

/-- Every call is safe. -/
theorem safe_body (call : ApiCall) (w : World api) :
    knowledge.rules.Safe i call (fun _ _ => True) call.body w := by
  cases call with
  | placeBet u role dto =>
    exact ApiRules.safe_map (ApiRules.safe_placeBet (fun _ => Harmless.known)
      (fun _ _ => by constructor <;> simp) (fun _ => by constructor <;> simp)
      (fun _ _ => by constructor <;> simp) (safe_placeNewBet u dto) w)
  | suspend id | reopen id => exact ApiRules.safe_map (safe_updateStatus id _ w)
  | settle id r => exact ApiRules.safe_map (safe_settle id r w)
  | _ =>
    refine Knowledge.safe_of_known (fun _ => Harmless.known)
      ((body_footprint _).mono fun o ho => ?_) w
    cases ho <;> constructor <;> simp

/-- Payouts are justified in every run. -/
theorem reachable_inv {c : Config api} (h : api.Reachable (api.init .empty) c) :
    Inv c.toWorld :=
  Knowledge.reach_inv (D := knowledge) (fun _ _ _ _ => trivial) (fun _ _ _ _ _ _ _ _ _ _ => trivial)
    (fun _ call w _ => safe_body call w)
    ⟨by simp [Store.BetIds, Store.empty], by simp [Store.MarketIds, Store.empty],
      by simp [Store.empty], by simp [Store.empty, WalletDb.empty], by simp [Store.empty]⟩ h

end Payout

/-- **No unjustified payout.** In every run, every `CREDIT` row pays a bet of its user that was
accepted, on a market that `settle` was called on with WIN, its stake at the odds its market had
when it was placed, rounded down; every notification of a win names such a bet, its owner and a
committed `CREDIT` row of the same amount. -/
theorem api_payouts_justified {c : Config api} (h : api.Reachable (api.init .empty) c) :
    (∀ tx ∈ c.state.wallet.walletTransactions, tx.type = .CREDIT → ∃ betId,
      tx.referenceId = some betId ∧
      PayoutJustified c.toWorld tx.userId betId tx.amountCents) ∧
    ∀ userId betId name payoutCents,
      .BET_SETTLED userId betId name .WIN payoutCents ∈ c.state.notifications →
      PayoutJustified c.toWorld userId betId payoutCents ∧
      c.state.Credited userId betId payoutCents := by
  have hinv := Payout.reachable_inv h
  have hcredits : ∀ tx ∈ c.state.wallet.walletTransactions, tx.type = .CREDIT → ∃ betId,
      tx.referenceId = some betId ∧
      PayoutJustified c.toWorld tx.userId betId tx.amountCents := by
    intro tx htx ht
    obtain ⟨b, hb, hu, href, ha, hacc, hwin⟩ := hinv.credits tx htx ht
    obtain ⟨odds, hplaced, hpay⟩ := hinv.priced b hb
    refine ⟨b.id, href, b, hb, rfl, hu.symm, hacc, hwin, odds, hplaced, ?_⟩
    rw [ha, hpay, BettingService.payout_eq_floor]
  refine ⟨hcredits, fun u id name p hn => ?_⟩
  obtain ⟨tx, htx, ht, rfl, href, rfl⟩ := hinv.notices u id name p hn
  obtain ⟨betId, href', hj⟩ := hcredits tx htx ht
  obtain rfl := Option.some.inj (href.symm.trans href')
  exact ⟨hj, tx, htx, ht, rfl, href, rfl⟩

/-- A bet of 100 cents at 2.40 is accepted and won: 240 cents are credited. -/
def acceptThenWin : List (Event api) :=
  openMarket ++ .spawn 2 (bet100 2) :: proceed 2 8 ++
  .spawn 3 (.delivery 0 ⟨0, 7, 50, 240, 100, 240⟩) :: proceed 3 3 ++
  .spawn 4 (.settle 50 .WIN) :: proceed 4 8

/-- The credit and its notification are justified. -/
theorem api_payouts_justified_one : ∃ c, api.Reachable (api.init .empty) c ∧
    PayoutJustified c.toWorld 7 0 240 ∧ c.state.Credited 7 0 240 := by
  obtain ⟨c, hr, hn⟩ : ∃ c, api.replay (api.init .empty) acceptThenWin = some c ∧
      .BET_SETTLED 7 0 "Man City to win" .WIN 240 ∈ c.state.notifications := ⟨_, rfl, by decide⟩
  have h : api.Reachable (api.init .empty) c := .of_replay .init hr
  exact ⟨c, h, (api_payouts_justified h).2 7 0 "Man City to win" 240 hn⟩

end BoltBet
