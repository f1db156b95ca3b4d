import BoltBet.Market.Payout
import BoltBet.Market.Recovery

/-!
# Settlement when bets fail

`settle` catches the error of every bet, goes on with the next one, and then writes `SETTLED` to the
market whatever happened. So a bet whose payout or update failed stays `ACCEPTED` on a settled
market, and `settle` refuses the call that would complete it.

* `Lands`: the payout and the update of a bet come through. The notification does not matter.
* `settleBet_run`, `rounds_run`: a bet is `SETTLED` after the loop exactly when it landed.
* `settle_refused`: a settled market is never settled again.
* `settle_recoverable_iff`: failures stay recoverable exactly when there are none, in every
  reachable state and for every pattern of failures.
-/

namespace BoltBet

open Async

namespace Store

/-- The bet is settled and, of a win, paid. -/
def Completed (s : Store) (result : MarketResult) (b : Bet) : Prop :=
  s.betStatus b.id = some .SETTLED ∧
    (result = .WIN → ∃ tx ∈ s.wallet.walletTransactions, CreditRow b tx)

/-- The market is settled. -/
def MarketSettled (s : Store) (marketId : Uuid) : Prop :=
  ∃ market, s.markets marketId = some market ∧ market.status = .SETTLED

end Store

namespace PartialFailure

/-- How each operation of a run ends: no two of the operations of one `settle` are the same. -/
abbrev Faults := ApiOp → Mode ApiChoice Err

/-- The lookup of the payout of a bet. -/
def payoutLookup (b : Bet) : ApiOp := .wallet (.query (.txFindOne b.userId b.id (some .CREDIT)))

/-- The payout of a bet. -/
def payoutCredit (market : Market) (b : Bet) : ApiOp :=
  .wallet (.applyTransaction b.userId .CREDIT b.payoutCents (some b.id)
    (MarketService.payoutDescription market.name))

/-- The bets `settle` selects, in the order of the answer. -/
def Selects (f : Faults) (s : Store) (marketId : Uuid) (bets : List Bet) : Prop :=
  ∃ ch, f (.betFind marketId .ACCEPTED) = .ok ch ∧
    (s.exec ch (.betFind marketId .ACCEPTED)).1 = .ok bets

/-- The bets without a payout. -/
def unpaid (db : WalletDb) (bets : List Bet) : List Bet :=
  bets.filter fun b => db.rowsFor b.userId .CREDIT b.id = []

/-- **A bet lands**, after those of `before`: its payout was made earlier or is made now, which
needs two answers and a balance in its column, and the update takes effect. -/
structure Lands (f : Faults) (db : WalletDb) (market : Market) (result : MarketResult)
    (before : List Bet) (b : Bet) : Prop where
  lookup : result = .WIN → IsOk (f (payoutLookup b))
  credit : result = .WIN → db.rowsFor b.userId .CREDIT b.id = [] → IsOk (f (payoutCredit market b))
  fits : result = .WIN → db.rowsFor b.userId .CREDIT b.id = [] →
    fitsInteger (db.balanceOf b.userId + payoutSum b.userId (unpaid db (before ++ [b]))) = true
  update : ∀ e, f (.betUpdate b.id .SETTLED) ≠ .fail e

/-- Every bet lands, after those of `before`. -/
def AllLand (f : Faults) (db : WalletDb) (market : Market) (result : MarketResult)
    (before bets : List Bet) : Prop :=
  ∀ earlier b later, bets = earlier ++ b :: later →
    Lands f db market result (before ++ earlier) b

/-- On a settled market every bet is completed. -/
def CompletedWhenSettled (s : Store) (marketId : Uuid) (result : MarketResult)
    (bets : List Bet) : Prop :=
  s.MarketSettled marketId → ∀ b ∈ bets, s.Completed result b

/-- A bet that is not completed is left to a further call, which completes it. -/
def Retryable (s : Store) (marketId : Uuid) (result : MarketResult) (bets : List Bet) : Prop :=
  ∀ b ∈ bets, ¬ s.Completed result b → ¬ s.MarketSettled marketId ∧
    ∀ i f dto s', api.finishBy i f (MarketService.settle marketId result) s = some (.ok dto, s') →
      s'.Completed result b

variable {i : Nat} {f : Faults} {market : Market} {result : MarketResult} {b : Bet}
  {s s' : Store}

/-! ## One bet -/

/-- The payout goes through on these tables. -/
def Pays (f : Faults) (market : Market) (b : Bet) (db : WalletDb) : Prop :=
  IsOk (f (payoutLookup b)) ∧ (db.rowsFor b.userId .CREDIT b.id = [] →
    IsOk (f (payoutCredit market b)) ∧ fitsInteger (db.balanceOf b.userId + b.payoutCents) = true)

/-- The tables after a payout. -/
def PaidTo (b : Bet) (db db' : WalletDb) : Prop :=
  (db.rowsFor b.userId .CREDIT b.id ≠ [] ∧ db' = db) ∨
    db.rowsFor b.userId .CREDIT b.id = [] ∧
      ∃ ch desc dto, db.applyAtomic ch b.userId .CREDIT b.payoutCents (some b.id) desc =
        (.ok dto, db')

/-- What a payout does, whichever of its operations fail. -/
structure PayoutRun (f : Faults) (market : Market) (b : Bet) (s : Store) {α : Type}
    (r : Except Err α) (s' : Store) : Prop where
  bets : s'.bets = s.bets
  markets : s'.markets = s.markets
  outcome : (∃ e, r = .error e ∧ ¬ Pays f market b s.wallet) ∨
    ∃ a, r = .ok a ∧ Pays f market b s.wallet ∧ PaidTo b s.wallet s'.wallet

/-- One operation: it was answered, or it failed, perhaps after it took effect. -/
theorem op_run {o : ApiOp} {r : Except Err o.Res}
    (h : api.finishBy i f (Prog.perform (S := ApiSig) o) s = some (r, s')) :
    (IsOk (f o) ∧ ∃ ch, f o = .ok ch ∧ s.exec ch o = (r, s')) ∨
      ¬ IsOk (f o) ∧ (∃ e, r = .error e) ∧
        ((∃ e, f o = .fail e ∧ s' = s) ∨ ∃ ch e, f o = .lost ch e ∧ s' = (s.exec ch o).2) := by
  obtain ⟨took, ha⟩ := Machine.finishBy_perform.mp h
  rcases api_answer_cases ha with ⟨ch, hf, hx⟩ | ⟨e, hf, rfl, rfl⟩ | ⟨ch, e, hf, rfl, rfl⟩
  · exact .inl ⟨⟨ch, hf⟩, ch, hf, hx⟩
  · refine .inr ⟨?_, ⟨e, rfl⟩, .inl ⟨e, hf, rfl⟩⟩
    rintro ⟨ch, hok⟩
    exact absurd (hf.symm.trans hok) (by simp)
  · refine .inr ⟨?_, ⟨e, rfl⟩, .inr ⟨ch, e, hf, rfl⟩⟩
    rintro ⟨ch', hok⟩
    exact absurd (hf.symm.trans hok) (by simp)

/-- The lookup of a payout. -/
theorem lookup_run {r : Except Err (Option WalletTransaction)}
    (h : api.finishBy i f (Prog.perform (S := ApiSig) (payoutLookup b)) s = some (r, s')) :
    s' = s ∧ ((∃ e, r = .error e ∧ ¬ IsOk (f (payoutLookup b))) ∨
      ∃ tx, r = .ok tx ∧ IsOk (f (payoutLookup b)) ∧
        (tx = none ↔ s.wallet.rowsFor b.userId .CREDIT b.id = [])) := by
  rcases op_run h with ⟨hok, ch, -, hx⟩ | ⟨hnot, ⟨e, rfl⟩, ⟨-, -, rfl⟩ | ⟨ch, -, -, rfl⟩⟩
  · obtain ⟨rfl, rfl⟩ := Prod.mk.inj hx
    refine ⟨rfl, .inr ⟨_, rfl, hok, fun hnone => pickOne_eq_none hnone, fun hnone => ?_⟩⟩
    show pickOne _ (s.wallet.rowsFor b.userId .CREDIT b.id) = none
    rw [hnone]
    rfl
  · exact ⟨rfl, .inl ⟨e, rfl, hnot⟩⟩
  · exact ⟨rfl, .inl ⟨e, rfl, hnot⟩⟩

/-- A payout that no row was found for. -/
theorem apply_run (hpayout : fitsInteger b.payoutCents = true)
    (hlookup : IsOk (f (payoutLookup b))) (hnone : s.wallet.rowsFor b.userId .CREDIT b.id = [])
    {r : Except Err TransactionResponseDto}
    (h : api.finishBy i f (Prog.perform (S := ApiSig) (payoutCredit market b)) s = some (r, s')) :
    PayoutRun f market b s r s' := by
  rcases op_run h with ⟨hok, ch, -, hx⟩ | ⟨hnot, ⟨e, rfl⟩, ⟨-, -, rfl⟩ | ⟨ch, -, -, rfl⟩⟩
  · obtain ⟨hr, rfl⟩ := Prod.mk.inj hx
    have hx : s.wallet.applyAtomic ch.toWalletChoice b.userId .CREDIT b.payoutCents (some b.id)
        (MarketService.payoutDescription market.name) = (r, _) := Prod.ext hr rfl
    refine ⟨rfl, rfl, ?_⟩
    cases r with
    | error e =>
      refine .inl ⟨e, rfl, fun hpays => ?_⟩
      obtain ⟨dto, db', hdto⟩ := WalletDb.applyAtomic_credit ch.toWalletChoice (some b.id)
        (MarketService.payoutDescription market.name) hpayout (hpays.2 hnone).2
      exact absurd (hx.symm.trans hdto) (by simp)
    | ok dto =>
      obtain ⟨balance, _, _, hbalance, hfits, -⟩ := WalletDb.applyAtomic_ok hx
      obtain rfl : s.wallet.balanceOf b.userId + b.payoutCents = balance :=
        Except.ok.inj hbalance
      exact .inr ⟨dto, rfl, ⟨hlookup, fun _ => ⟨hok, hfits⟩⟩, .inr ⟨hnone, _, _, dto, hx⟩⟩
  · exact ⟨rfl, rfl, .inl ⟨e, rfl, fun hpays => hnot (hpays.2 hnone).1⟩⟩
  · exact ⟨rfl, rfl, .inl ⟨e, rfl, fun hpays => hnot (hpays.2 hnone).1⟩⟩

/-- The payout of a won bet. -/
theorem creditPayout_run (hpayout : fitsInteger b.payoutCents = true) {r : Except Err Unit}
    (h : api.finishBy i f (MarketService.creditPayout market .WIN b) s = some (r, s')) :
    PayoutRun f market b s r s' := by
  have hcredit : ∀ {r s'}, api.finishBy i f (Api.wallet (WalletService.credit b.userId
      b.payoutCents b.id (some (MarketService.payoutDescription market.name)))) s = some (r, s') →
      PayoutRun f market b s r s' := by
    intro r s' h
    rw [Api.wallet_credit] at h
    rcases Machine.finishBy_bind.mp h with ⟨tx, s₁, hl, hrest⟩ | ⟨e, hl, rfl⟩
    · obtain ⟨rfl, ⟨e, he, -⟩ | ⟨tx', htx, hok, hiff⟩⟩ := lookup_run hl
      · exact absurd he (by simp)
      obtain rfl := Except.ok.inj htx
      cases tx with
      | none => exact apply_run hpayout hok (hiff.mp rfl) hrest
      | some tx =>
        obtain ⟨rfl, rfl⟩ := Prod.mk.inj (Option.some.inj hrest)
        have hfound : s₁.wallet.rowsFor b.userId .CREDIT b.id ≠ [] := fun hnone =>
          absurd (hiff.mpr hnone) (by simp)
        exact ⟨rfl, rfl, .inr ⟨_, rfl, ⟨hok, fun hnone => absurd hnone hfound⟩,
          .inl ⟨hfound, rfl⟩⟩⟩
    · obtain ⟨rfl, ⟨e', -, hnot⟩ | ⟨tx, htx, -⟩⟩ := lookup_run hl
      · exact ⟨rfl, rfl, .inl ⟨e, rfl, fun hpays => hnot hpays.1⟩⟩
      · exact absurd htx (by simp)
  unfold MarketService.creditPayout at h
  rcases Machine.finishBy_bind.mp h with ⟨dto, s₁, hc, hret⟩ | ⟨e, hc, rfl⟩
  · obtain ⟨rfl, rfl⟩ := Prod.mk.inj (Option.some.inj hret)
    obtain ⟨hbets, hmarkets, ⟨e, he, -⟩ | ⟨a, -, hpays⟩⟩ := hcredit hc
    · exact absurd he (by simp)
    · exact ⟨hbets, hmarkets, .inr ⟨(), rfl, hpays⟩⟩
  · obtain ⟨hbets, hmarkets, ⟨e', -, hnot⟩ | ⟨a, ha, -⟩⟩ := hcredit hc
    · exact ⟨hbets, hmarkets, .inl ⟨e, rfl, hnot⟩⟩
    · exact absurd ha (by simp)

/-- The round of a bet comes through on these tables. -/
def Through (f : Faults) (market : Market) (result : MarketResult) (b : Bet) (db : WalletDb) :
    Prop :=
  (result = .WIN → Pays f market b db) ∧ ∀ e, f (.betUpdate b.id .SETTLED) ≠ .fail e

/-- What a round of the loop does. -/
structure RoundRun (f : Faults) (market : Market) (result : MarketResult) (b : Bet)
    (s s' : Store) : Prop where
  markets : s'.markets = s.markets
  others : ∀ id ≠ b.id, s'.betStatus id = s.betStatus id
  outcome : (Through f market result b s.wallet ∧
      s'.betStatus b.id = (s.betStatus b.id).map (fun _ => .SETTLED) ∧
      (result = .WIN → PaidTo b s.wallet s'.wallet)) ∨
    ¬ Through f market result b s.wallet ∧ s'.betStatus b.id = s.betStatus b.id

theorem betStatus_congr (h : s'.bets = s.bets) (id : Uuid) : s'.betStatus id = s.betStatus id := by
  unfold Store.betStatus Store.bet
  rw [h]

/-- The update of a bet and its notification, after its payout. -/
theorem update_run {s₁ : Store} {r : Except Err Unit} {n : NotificationPayload}
    (hpays : result = .WIN → Pays f market b s.wallet ∧ PaidTo b s.wallet s₁.wallet)
    (hbets : s₁.bets = s.bets) (hmarkets : s₁.markets = s.markets)
    (h : api.finishBy i f (do
      Api.betUpdate b.id .SETTLED
      Api.publishNotification n) s₁ = some (r, s')) : RoundRun f market result b s s' := by
  -- the status is written
  have hwritten : ∀ (now : Nat) (s₂ : Store), s₂ = s₁.setStatus now b.id .SETTLED →
      (∀ e, f (.betUpdate b.id .SETTLED) ≠ .fail e) → s'.markets = s₂.markets →
      s'.bets = s₂.bets → s'.wallet = s₂.wallet → RoundRun f market result b s s' := by
    rintro now s₂ rfl hf hm hb hw
    have hst : ∀ id, s'.betStatus id =
        if id = b.id then (s.betStatus id).map fun _ => .SETTLED else s.betStatus id := by
      intro id
      rw [betStatus_congr hb, Store.betStatus_setStatus, betStatus_congr hbets]
    refine ⟨hm.trans hmarkets, fun id hid => ?_, .inl ⟨⟨fun hr => (hpays hr).1, hf⟩, ?_, ?_⟩⟩
    · rw [hst, if_neg hid]
    · rw [hst, if_pos rfl]
    · intro hr
      rw [hw]
      exact (hpays hr).2
  rcases Machine.finishBy_bind.mp h with ⟨_, s₂, hu, hn⟩ | ⟨e, hu, -⟩
  · rcases op_run hu with ⟨⟨ch, hf⟩, ch', -, hx⟩ | ⟨-, ⟨e, he⟩, -⟩
    · have hs₂ : s₂ = s₁.setStatus ch'.now b.id .SETTLED := (Prod.mk.inj hx).2.symm
      have hne : ∀ e, f (.betUpdate b.id .SETTLED) ≠ .fail e := fun e he =>
        absurd (hf.symm.trans he) (by simp)
      rcases op_run hn with ⟨-, ch', -, hx⟩ | ⟨-, -, ⟨-, -, rfl⟩ | ⟨ch, -, -, rfl⟩⟩
      · obtain rfl := (Prod.mk.inj hx).2
        exact hwritten _ s₂ hs₂ hne rfl rfl rfl
      · exact hwritten _ _ hs₂ hne rfl rfl rfl
      · exact hwritten _ s₂ hs₂ hne rfl rfl rfl
    · exact absurd he (by simp)
  · rcases op_run hu with ⟨-, ch, -, hx⟩ | ⟨-, -, ⟨e, hf, rfl⟩ | ⟨ch, e, hf, rfl⟩⟩
    · exact absurd (Prod.mk.inj hx).1 (by simp)
    · exact ⟨hmarkets, fun id _ => betStatus_congr hbets id,
        .inr ⟨fun hthrough => hthrough.2 e hf, betStatus_congr hbets b.id⟩⟩
    · refine hwritten ch.now _ rfl (fun e' he => ?_) rfl rfl rfl
      exact absurd (hf.symm.trans he) (by simp)

/-- **One bet**: `SETTLED` after its round exactly when the round came through. -/
theorem settleBet_run (hpayout : fitsInteger b.payoutCents = true) {r : Except Err Unit}
    (h : api.finishBy i f (MarketService.settleBet market result b) s = some (r, s')) :
    r = .ok () ∧ RoundRun f market result b s s' := by
  -- whatever the body does, the error is caught
  obtain ⟨rfl, x, hbody⟩ : r = .ok () ∧ ∃ x, api.finishBy i f (do
      MarketService.creditPayout market result b
      Api.betUpdate b.id .SETTLED
      Api.publishNotification (.BET_SETTLED b.userId b.id market.name result
        (if result = .WIN then b.payoutCents else 0))) s = some (x, s') := by
    rcases Machine.finishBy_tryCatch.mp h with ⟨a, hp, rfl⟩ | ⟨e, s₁, hp, hret⟩
    · exact ⟨rfl, _, hp⟩
    · obtain ⟨rfl, rfl⟩ := Prod.mk.inj (Option.some.inj hret)
      exact ⟨rfl, _, hp⟩
  refine ⟨rfl, ?_⟩
  cases result with
  | LOSS => exact update_run (fun hr => absurd hr (by simp)) rfl rfl hbody
  | WIN =>
    rcases Machine.finishBy_bind.mp hbody with ⟨_, s₁, hc, hrest⟩ | ⟨e, hc, -⟩
    · obtain ⟨hbets, hmarkets, ⟨e, he, -⟩ | ⟨a, -, hpays⟩⟩ := creditPayout_run hpayout hc
      · exact absurd he (by simp)
      · exact update_run (fun _ => hpays) hbets hmarkets hrest
    · obtain ⟨hbets, hmarkets, ⟨e', -, hnot⟩ | ⟨a, ha, -⟩⟩ := creditPayout_run hpayout hc
      · exact ⟨hmarkets, fun id _ => betStatus_congr hbets id,
          .inr ⟨fun hthrough => hnot (hthrough.1 rfl), betStatus_congr hbets b.id⟩⟩
      · exact absurd ha (by simp)

/-! ## The loop -/

variable {db₀ db db' : WalletDb} {before rest : List Bet}

theorem unpaid_append (db : WalletDb) (l l' : List Bet) :
    unpaid db (l ++ l') = unpaid db l ++ unpaid db l' := List.filter_append ..

/-- A bet with another id than those of `before` is paid exactly when it was at the start. -/
theorem rowsFor_iff (hpaid : db₀.Paid (unpaid db₀ before) db)
    (hids : ((before ++ [b]).map Bet.id).Nodup) :
    db.rowsFor b.userId .CREDIT b.id = [] ↔ db₀.rowsFor b.userId .CREDIT b.id = [] := by
  rw [List.map_append, List.nodup_append] at hids
  obtain ⟨hbefore, -, hdisjoint⟩ := hids
  have hne : ∀ b' ∈ before, b'.id ≠ b.id := fun b' hb' =>
    hdisjoint b'.id (List.mem_map_of_mem hb') b.id (by simp)
  have hsub : (unpaid db₀ before).Sublist before := List.filter_sublist
  constructor
  · intro hnone
    obtain ⟨txs, -, hrows⟩ := hpaid.rows
    unfold WalletDb.rowsFor at hnone ⊢
    rw [hrows, List.filter_append] at hnone
    exact (List.append_eq_nil_iff.mp hnone).1
  · intro hnone
    have hnodup : (unpaid db₀ before).Nodup := (List.Nodup.of_map Bet.id hbefore).sublist hsub
    rcases hpaid.rowsFor_cases hnone hnodup fun b' hb' hid =>
      absurd hid (hne b' (hsub.subset hb')) with ⟨hmem, -⟩ | ⟨-, hrow⟩
    · exact absurd rfl (hne b (hsub.subset hmem))
    · exact hrow

/-- After the payouts of `before`, a round comes through exactly when its bet lands. -/
theorem through_iff (hpaid : result = .WIN → db₀.Paid (unpaid db₀ before) db)
    (hids : ((before ++ [b]).map Bet.id).Nodup) :
    Through f market result b db ↔ Lands f db₀ market result before b := by
  have hbalance : result = .WIN → db₀.rowsFor b.userId .CREDIT b.id = [] →
      db.balanceOf b.userId + b.payoutCents =
        db₀.balanceOf b.userId + payoutSum b.userId (unpaid db₀ (before ++ [b])) := by
    intro hr hnone
    have hb : unpaid db₀ [b] = [b] := by simp [unpaid, hnone]
    rw [(hpaid hr).balances, unpaid_append, hb, payoutSum_append, payoutSum_singleton, if_pos rfl,
      Int.add_assoc]
  constructor
  · rintro ⟨hpays, hupdate⟩
    refine ⟨fun hr => (hpays hr).1, fun hr hnone => ?_, fun hr hnone => ?_, hupdate⟩
    · exact ((hpays hr).2 ((rowsFor_iff (hpaid hr) hids).mpr hnone)).1
    · rw [← hbalance hr hnone]
      exact ((hpays hr).2 ((rowsFor_iff (hpaid hr) hids).mpr hnone)).2
  · intro h
    refine ⟨fun hr => ⟨h.lookup hr, fun hnone => ?_⟩, h.update⟩
    have hnone := (rowsFor_iff (hpaid hr) hids).mp hnone
    exact ⟨h.credit hr hnone, hbalance hr hnone ▸ h.fits hr hnone⟩

/-- The payouts after one more round. -/
theorem paid_step (hpayout : fitsInteger b.payoutCents = true)
    (hpaid : db₀.Paid (unpaid db₀ before) db) (hids : ((before ++ [b]).map Bet.id).Nodup)
    (h : PaidTo b db db') : db₀.Paid (unpaid db₀ (before ++ [b])) db' := by
  rw [unpaid_append]
  rcases h with ⟨hfound, rfl⟩ | ⟨hnone, ch, desc, dto, hx⟩
  · have hfound₀ := mt (rowsFor_iff hpaid hids).mpr hfound
    have hb : unpaid db₀ [b] = [] := by simp [unpaid, hfound₀]
    rwa [hb, List.append_nil]
  · have hnone₀ := (rowsFor_iff hpaid hids).mp hnone
    have hb : unpaid db₀ [b] = [b] := by simp [unpaid, hnone₀]
    obtain ⟨balance, _, _, hbalance, hfits, -⟩ := WalletDb.applyAtomic_ok hx
    obtain rfl : db.balanceOf b.userId + b.payoutCents = balance := Except.ok.inj hbalance
    rw [hpaid.balances, Int.add_assoc] at hfits
    obtain ⟨dto', db'', hx', hpaid'⟩ := hpaid.credit ch desc hpayout (by
      rwa [payoutSum_append, payoutSum_singleton, if_pos rfl])
    obtain ⟨-, rfl⟩ := Prod.mk.inj (hx.symm.trans hx')
    rwa [hb]

theorem allLand_cons : AllLand f db₀ market result before (b :: rest) ↔
    Lands f db₀ market result before b ∧ AllLand f db₀ market result (before ++ [b]) rest := by
  constructor
  · intro h
    refine ⟨?_, fun earlier b' later he => ?_⟩
    · have hb := h [] b rest rfl
      rwa [List.append_nil] at hb
    · have hb := h (b :: earlier) b' later (by rw [he, List.cons_append])
      rwa [List.append_cons] at hb
  · rintro ⟨hb, hrest⟩ earlier b' later he
    cases earlier with
    | nil =>
      obtain ⟨rfl, -⟩ := List.cons.inj he
      rwa [List.append_nil]
    | cons b₁ earlier =>
      obtain ⟨rfl, htail⟩ := List.cons.inj he
      rw [List.append_cons]
      exact hrest earlier b' later htail

/-- The loop touches no market and no other bet, and it never throws. -/
theorem rounds_frame (hpayouts : ∀ b ∈ rest, fitsInteger b.payoutCents = true)
    {r : Except Err PUnit}
    (h : api.finishBy i f (rest.forM (MarketService.settleBet market result)) s = some (r, s')) :
    r = .ok ⟨⟩ ∧ s'.markets = s.markets ∧
      ∀ id, (∀ b ∈ rest, b.id ≠ id) → s'.betStatus id = s.betStatus id := by
  induction rest generalizing s with
  | nil =>
    obtain ⟨rfl, rfl⟩ := Prod.mk.inj (Option.some.inj h)
    exact ⟨rfl, rfl, fun _ _ => rfl⟩
  | cons b rest ih =>
    rw [Prog.forM_cons] at h
    have hb := hpayouts b List.mem_cons_self
    rcases Machine.finishBy_bind.mp h with ⟨_, s₁, hround, hloop⟩ | ⟨e, hround, -⟩
    · obtain ⟨-, hround⟩ := settleBet_run hb hround
      obtain ⟨hr, hm, hst⟩ := ih (fun b' hb' => hpayouts b' (List.mem_cons_of_mem b hb')) hloop
      refine ⟨hr, hm.trans hround.markets, fun id hid => ?_⟩
      rw [hst id fun b' hb' => hid b' (List.mem_cons_of_mem b hb')]
      exact hround.others id (hid b List.mem_cons_self).symm
    · exact absurd (settleBet_run hb hround).1 (by simp)

/-- **The loop**: its bets are all `SETTLED` exactly when all of them land. -/
theorem rounds_run (hpayouts : ∀ b ∈ rest, fitsInteger b.payoutCents = true)
    (hids : ((before ++ rest).map Bet.id).Nodup)
    (haccepted : ∀ b ∈ rest, s.betStatus b.id = some .ACCEPTED)
    (hpaid : result = .WIN → db₀.Paid (unpaid db₀ before) s.wallet) {r : Except Err PUnit}
    (h : api.finishBy i f (rest.forM (MarketService.settleBet market result)) s = some (r, s')) :
    ((∀ b ∈ rest, s'.betStatus b.id = some .SETTLED) ↔
        AllLand f db₀ market result before rest) ∧
      (AllLand f db₀ market result before rest → result = .WIN →
        db₀.Paid (unpaid db₀ (before ++ rest)) s'.wallet) := by
  induction rest generalizing s before with
  | nil =>
    obtain ⟨rfl, rfl⟩ := Prod.mk.inj (Option.some.inj h)
    refine ⟨iff_of_true (by simp) fun earlier b later he => ?_, fun _ hr => ?_⟩
    · exact absurd he (by simp)
    · rw [List.append_nil]
      exact hpaid hr
  | cons b rest ih =>
    rw [List.append_cons] at hids
    have hb := hpayouts b List.mem_cons_self
    have hrest := fun b' hb' => hpayouts b' (List.mem_cons_of_mem b hb')
    have hone : ((before ++ [b]).map Bet.id).Nodup :=
      hids.sublist ((List.sublist_append_left ..).map _)
    have hne : ∀ b' ∈ rest, b'.id ≠ b.id := by
      intro b' hb'
      rw [List.map_append, List.nodup_append] at hids
      exact (hids.2.2 b.id (by simp) b'.id (List.mem_map_of_mem hb')).symm
    rw [Prog.forM_cons] at h
    obtain ⟨s₁, hround, hloop⟩ : ∃ s₁, RoundRun f market result b s s₁ ∧
        api.finishBy i f (rest.forM (MarketService.settleBet market result)) s₁ = some (r, s') := by
      rcases Machine.finishBy_bind.mp h with ⟨_, s₁, hround, hloop⟩ | ⟨e, hround, -⟩
      · exact ⟨s₁, (settleBet_run hb hround).2, hloop⟩
      · exact absurd (settleBet_run hb hround).1 (by simp)
    have hlast : s'.betStatus b.id = s₁.betStatus b.id := (rounds_frame hrest hloop).2.2 b.id hne
    have hthrough : Through f market result b s.wallet ↔ _ := through_iff hpaid hone
    have hst := haccepted b List.mem_cons_self
    rw [allLand_cons, List.forall_mem_cons, hlast, ← hthrough]
    rcases hround.outcome with ⟨hok, hsettled, hwallet⟩ | ⟨hnot, hsame⟩
    · have hpaid₁ : result = .WIN → db₀.Paid (unpaid db₀ (before ++ [b])) s₁.wallet :=
        fun hr => paid_step hb (hpaid hr) hone (hwallet hr)
      have hsettled : s₁.betStatus b.id = some .SETTLED := by rw [hsettled, hst, Option.map_some]
      obtain ⟨hiff, hpaid'⟩ := ih hrest hids (fun b' hb' => by
        rw [hround.others b'.id (hne b' hb')]
        exact haccepted b' (List.mem_cons_of_mem b hb')) hpaid₁ hloop
      refine ⟨and_congr (iff_of_true hsettled hok) hiff, fun hall hr => ?_⟩
      rw [List.append_cons]
      exact hpaid' hall.2 hr
    · -- the round failed, so its bet stays as it was
      refine ⟨iff_of_false (fun hall => ?_) fun hall => hnot hall.1, fun hall => ?_⟩
      · exact absurd ((hst.symm.trans hsame.symm).trans hall.1) (by decide)
      · exact absurd hall.1 hnot

/-! ## The whole call -/

/-- A call that returned got past its first operation. -/
theorem step_ok {α : Type} {a : α} {o : ApiOp} {g : o.Res → Prog ApiSig α}
    (h : api.finishBy i f (Prog.perform (S := ApiSig) o >>= g) s = some (.ok a, s')) :
    ∃ ch x s₁, f o = .ok ch ∧ s.exec ch o = (.ok x, s₁) ∧
      api.finishBy i f (g x) s₁ = some (.ok a, s') := by
  rcases Machine.finishBy_bind.mp h with ⟨x, s₁, hp, hg⟩ | ⟨e, -, he⟩
  · rcases op_run hp with ⟨-, ch, hf, hx⟩ | ⟨-, ⟨e, he⟩, -⟩
    · exact ⟨ch, x, s₁, hf, hx, hg⟩
    · exact absurd he (by simp)
  · exact absurd he (by simp)

/-- The market is found exactly when the lookup is answered and the market is there. -/
theorem getMarketById_run {id : Uuid} {r : Except Err Market}
    (h : api.finishBy i f (MarketService.getMarketById id) s = some (r, s')) :
    s' = s ∧ ∀ m, r = .ok m ↔ IsOk (f (.marketFindOne id)) ∧ s.markets id = some m := by
  rcases Machine.finishBy_bind.mp h with ⟨found, s₁, hp, hret⟩ | ⟨e, hp, rfl⟩
  · rcases op_run hp with ⟨hok, ch, -, hx⟩ | ⟨-, ⟨e, he⟩, -⟩
    · obtain ⟨hfound, rfl⟩ := Prod.mk.inj hx
      obtain rfl := Except.ok.inj hfound
      cases hm : s.markets id with
      | none =>
        rw [hm] at hret
        obtain ⟨rfl, rfl⟩ := Prod.mk.inj (Option.some.inj hret)
        exact ⟨rfl, fun m => iff_of_false (by simp) (by simp)⟩
      | some market =>
        rw [hm] at hret
        obtain ⟨rfl, rfl⟩ := Prod.mk.inj (Option.some.inj hret)
        refine ⟨rfl, fun m => ⟨fun he => ⟨hok, congrArg some (Except.ok.inj he)⟩, fun hm' => ?_⟩⟩
        exact congrArg Except.ok (Option.some.inj hm'.2)
    · exact absurd he (by simp)
  · rcases op_run hp with ⟨-, ch, -, hx⟩ | ⟨hnot, -, ⟨-, -, rfl⟩ | ⟨ch, -, -, rfl⟩⟩
    · exact absurd (Prod.mk.inj hx).1 (by simp)
    · exact ⟨rfl, fun m => iff_of_false (by simp) fun hm => hnot hm.1⟩
    · exact ⟨rfl, fun m => iff_of_false (by simp) fun hm => hnot hm.1⟩

/-- A settled market is not settled again: the call throws and changes nothing. -/
theorem settle_refused {id : Uuid} {r : Except Err MarketResponseDto} (hs : s.MarketSettled id)
    (h : api.finishBy i f (MarketService.settle id result) s = some (r, s')) :
    s' = s ∧ ∃ e, r = .error e := by
  obtain ⟨market, hm, hst⟩ := hs
  unfold MarketService.settle at h
  rcases Machine.finishBy_bind.mp h with ⟨m, s₁, hp, hrest⟩ | ⟨e, hp, rfl⟩
  · obtain ⟨rfl, hfound⟩ := getMarketById_run hp
    obtain rfl := Option.some.inj (hm.symm.trans ((hfound m).mp rfl).2)
    rw [if_pos hst] at hrest
    obtain ⟨rfl, rfl⟩ := Prod.mk.inj (Option.some.inj hrest)
    exact ⟨rfl, _, rfl⟩
  · exact ⟨(getMarketById_run hp).1, e, rfl⟩

/-- A `settle` that returned: the loop over the bets it selected, and the save of the market. -/
theorem settle_run {id : Uuid} {bets : List Bet} {dto : MarketResponseDto}
    (hm : s.markets id = some market) (hbets : Selects f s id bets)
    (h : api.finishBy i f (MarketService.settle id result) s = some (.ok dto, s')) :
    market.status ≠ .SETTLED ∧ ∃ r s₁ now,
      api.finishBy i f (bets.forM (MarketService.settleBet market result)) s = some (r, s₁) ∧
      s'.wallet = s₁.wallet ∧ s'.bets = s₁.bets ∧ s'.markets =
        (s₁.setMarket (s₁.savedMarket now { market with status := .SETTLED })).markets := by
  have hopen : market.status ≠ .SETTLED := fun hst =>
    absurd (settle_refused ⟨market, hm, hst⟩ h).2 (by simp)
  refine ⟨hopen, ?_⟩
  unfold MarketService.settle at h
  rcases Machine.finishBy_bind.mp h with ⟨m, s₁, hp, hrest⟩ | ⟨e, -, he⟩
  · obtain ⟨rfl, hfound⟩ := getMarketById_run hp
    obtain rfl := Option.some.inj (hm.symm.trans ((hfound m).mp rfl).2)
    rw [if_neg hopen] at hrest
    obtain ⟨ch, found, s₂, hf, hx, hrest⟩ := step_ok hrest
    obtain ⟨ch', hf', hx'⟩ := hbets
    obtain rfl := Mode.ok.inj (hf.symm.trans hf')
    obtain ⟨hfound, rfl⟩ := Prod.mk.inj hx
    obtain rfl := Except.ok.inj (hfound.symm.trans hx')
    rcases Machine.finishBy_bind.mp hrest with ⟨u, s₂, hloop, hsave⟩ | ⟨e, -, he⟩
    · obtain ⟨ch₁, saved, s₃, -, hx₁, hpublish⟩ := step_ok hsave
      obtain ⟨ch₂, u', s₄, -, hx₂, hret⟩ := step_ok hpublish
      obtain ⟨-, rfl⟩ := Prod.mk.inj hx₁
      obtain ⟨-, rfl⟩ := Prod.mk.inj hx₂
      obtain ⟨-, rfl⟩ := Prod.mk.inj (Option.some.inj hret)
      exact ⟨_, s₂, ch₁.now, hloop, rfl, rfl, rfl⟩
    · exact absurd he (by simp)
  · exact absurd he (by simp)

/-! ## Reachable states -/

/-- A stored payout fits in its column. -/
theorem reachable_payouts {c : Config api} (hc : api.Reachable (api.init .empty) c) :
    ∀ b ∈ c.state.bets, fitsInteger b.payoutCents = true := by
  refine hc.follow (J := fun w : World api => ∀ b ∈ w.state.bets,
    fitsInteger b.payoutCents = true) ?_ ?_ ?_ ?_
  · exact fun b hb => absurd hb (by simp [Machine.init, Store.empty])
  · exact fun call s s' l hs h b hb => h b ((start_tables hs).bets ▸ hb)
  · exact fun v s s' l hs h b hb => h b ((env_tables hs).bets ▸ hb)
  · intro c c' i m call o r _ _ _ _ hx h b hb
    obtain ⟨ch, he⟩ := api_exec_effect hx
    rcases he.bet_before hb with ⟨b₀, hb₀, hsame⟩ | ⟨d, -, hinsert, rfl⟩
    · rw [hsame.payoutCents]
      exact h b₀ hb₀
    · exact Store.rejectsBet_payout hinsert

/-- A `CREDIT` row that is found for a bet is its payout. -/
theorem creditRow_of_found {w : World api} (hinv : Payout.Inv w) (hb : b ∈ w.state.bets)
    (hfound : w.state.wallet.rowsFor b.userId .CREDIT b.id ≠ []) :
    ∃ tx ∈ w.state.wallet.walletTransactions, CreditRow b tx := by
  obtain ⟨tx, htx⟩ := List.exists_mem_of_ne_nil _ hfound
  obtain ⟨hmem, hmatch⟩ := List.mem_filter.mp htx
  obtain ⟨hu, href, ht⟩ : tx.Matches b.userId b.id (some .CREDIT) := by simpa using hmatch
  have ht : tx.type = .CREDIT := ht _ rfl
  obtain ⟨b', hb', -, href', hamount, -⟩ := hinv.credits tx hmem ht
  have hid : b'.id = b.id := Option.some.inj (href'.symm.trans href)
  obtain rfl := Recovery.eq_of_id hinv.betIds hb hb' hid
  exact ⟨tx, hmem, ht, hu, href, hamount⟩

/-- The row of a payout that was made. -/
theorem creditRow_of_paid {credited : List Bet} (h : db.Paid credited db') (hb : b ∈ credited) :
    ∃ tx ∈ db'.walletTransactions, CreditRow b tx := by
  obtain ⟨txs, htxs, hrows⟩ := h.rows
  obtain ⟨n, hn, rfl⟩ := List.mem_iff_getElem.mp hb
  have hn' : n < txs.length := htxs.length_eq ▸ hn
  exact ⟨txs[n], hrows ▸ List.mem_append_right _ (List.getElem_mem hn'), htxs.get hn hn'⟩

/-- What a returned `settle` left: the market is settled, and its bets are completed exactly when
all of them landed. -/
theorem settle_outcome {c : Config api} (hc : api.Reachable (api.init .empty) c) {id : Uuid}
    {bets : List Bet} {dto : MarketResponseDto} (hm : c.state.markets id = some market)
    (hbets : Selects f c.state id bets)
    (hrun : api.finishBy i f (MarketService.settle id result) c.state = some (.ok dto, s')) :
    s'.MarketSettled id ∧ ((∀ b ∈ bets, s'.Completed result b) ↔
      AllLand f c.state.wallet market result [] bets) := by
  have hinv := Payout.reachable_inv hc
  obtain ⟨hopen, r, s₁, now, hloop, hwallet, hsbets, hmarkets⟩ := settle_run hm hbets hrun
  have hperm : bets.Perm (c.state.betsIn id .ACCEPTED) := by
    obtain ⟨ch, -, hx⟩ := hbets
    obtain rfl := Except.ok.inj hx
    by_cases hrows : ch.rows.Perm (c.state.betsIn id .ACCEPTED)
    · rwa [if_pos hrows]
    · rw [if_neg hrows]
  have hmem : ∀ b ∈ bets, b ∈ c.state.bets ∧ b.status = .ACCEPTED := by
    intro b hb
    obtain ⟨hb, -, hst⟩ := Recovery.mem_betsIn.mp (hperm.mem_iff.mp hb)
    exact ⟨hb, hst⟩
  have hids : (([] ++ bets).map Bet.id).Nodup := by
    refine (hperm.map Bet.id).nodup_iff.mpr (List.Nodup.sublist ?_ hinv.betIds)
    exact List.filter_sublist.map _
  have hpayouts : ∀ b ∈ bets, fitsInteger b.payoutCents = true := fun b hb =>
    reachable_payouts hc b (hmem b hb).1
  have haccepted : ∀ b ∈ bets, c.state.betStatus b.id = some .ACCEPTED := by
    intro b hb
    unfold Store.betStatus
    rw [hinv.betIds.bet_of_mem (hmem b hb).1, Option.map_some, (hmem b hb).2]
  obtain ⟨-, hsame, -⟩ := rounds_frame hpayouts hloop
  obtain ⟨hiff, hpaid⟩ := rounds_run hpayouts hids haccepted
    (fun _ => WalletDb.Paid.refl c.state.wallet) hloop
  refine ⟨?_, ⟨fun hall => hiff.mp fun b hb => ?_, fun hall b hb => ⟨?_, fun hr => ?_⟩⟩⟩
  · have hrow : s₁.markets market.id = some market := by
      rw [hsame, hinv.marketIds id market hm, hm]
    refine ⟨{ market with status := .SETTLED, updatedAt := now }, ?_, rfl⟩
    rw [hmarkets, Recovery.savedMarket_status_change hrow hopen.symm]
    have hid := hinv.marketIds id market hm
    subst hid
    exact Function.update_self ..
  · rw [← betStatus_congr hsbets]
    exact (hall b hb).1
  · rw [betStatus_congr hsbets]
    exact hiff.mpr hall b hb
  · rw [hwallet]
    by_cases hfound : c.state.wallet.rowsFor b.userId .CREDIT b.id = []
    · refine creditRow_of_paid (hpaid hall hr) (List.mem_filter.mpr ⟨hb, ?_⟩)
      simpa using hfound
    · obtain ⟨tx, htx, hrow⟩ := creditRow_of_found hinv (hmem b hb).1 hfound
      obtain ⟨txs, -, hrows⟩ := (hpaid hall hr).rows
      exact ⟨tx, hrows ▸ List.mem_append_left _ htx, hrow⟩

end PartialFailure

open PartialFailure

/-- **When failures inside the loop stay recoverable**: exactly when every bet lands. In either
reading, in every reachable state and for every pattern of failures under which `settle` returns. -/
theorem settle_recoverable_iff {c : Config api} (hc : api.Reachable (api.init .empty) c) {i : Nat}
    {f : Faults} {id : Uuid} {market : Market} {result : MarketResult} {bets : List Bet}
    {dto : MarketResponseDto} {s' : Store} (hm : c.state.markets id = some market)
    (hbets : Selects f c.state id bets)
    (hrun : api.finishBy i f (MarketService.settle id result) c.state = some (.ok dto, s')) :
    (CompletedWhenSettled s' id result bets ↔ AllLand f c.state.wallet market result [] bets) ∧
      (Retryable s' id result bets ↔ AllLand f c.state.wallet market result [] bets) := by
  obtain ⟨hsettled, hiff⟩ := settle_outcome hc hm hbets hrun
  constructor
  · rw [← hiff]
    exact ⟨fun h => h hsettled, fun h _ => h⟩
  · rw [← hiff]
    constructor
    · intro h b hb
      by_contra hnot
      exact (h b hb hnot).1 hsettled
    · exact fun h b hb hnot => absurd (h b hb) hnot

/-- User 7's bet of 100 cents at 2.40 is accepted. -/
def acceptBet : List (Event api) :=
  openMarket ++ .spawn 2 (bet100 2) :: proceed 2 8 ++
  .spawn 3 (.delivery 0 ⟨0, 7, 50, 240, 100, 240⟩) :: proceed 3 3

/-- The row of this bet. -/
def acceptedBet : Bet := ⟨0, 7, 50, "Man City to win", 240, 100, 240, .ACCEPTED, 2, 0, 0⟩

/-- Nothing fails, and the bet is settled and paid. -/
theorem settle_recoverable_one : ∃ c dto s',
    api.Reachable (api.init .empty) c ∧ c.state.betStatus 0 = some .ACCEPTED ∧
    api.finishBy 4 (fun _ => .ok {}) (MarketService.settle 50 .WIN) c.state = some (.ok dto, s') ∧
    s'.MarketSettled 50 ∧ CompletedWhenSettled s' 50 .WIN [acceptedBet] := by
  obtain ⟨c, hr, hm, hst, hsel, hrows, hbalance, dto, s', hrun, hmarket⟩ : ∃ c,
      api.replay (api.init .empty) acceptBet = some c ∧
      c.state.markets 50 = some ⟨50, 9, "Man City to win", 240, .OPEN, 0, 0⟩ ∧
      c.state.betStatus 0 = some .ACCEPTED ∧
      (c.state.exec {} (.betFind 50 .ACCEPTED)).1 = .ok [acceptedBet] ∧
      c.state.wallet.rowsFor 7 .CREDIT 0 = [] ∧ c.state.wallet.balanceOf 7 = 900 ∧
      ∃ dto s', api.finishBy 4 (fun _ => .ok {}) (MarketService.settle 50 .WIN) c.state =
        some (.ok dto, s') ∧ (s'.markets 50).map Market.status = some .SETTLED :=
    ⟨_, rfl, rfl, rfl, rfl, rfl, rfl, _, _, rfl, rfl⟩
  have hc : api.Reachable (api.init .empty) c := .of_replay .init hr
  have hland : AllLand (fun _ => .ok {}) c.state.wallet
      ⟨50, 9, "Man City to win", 240, .OPEN, 0, 0⟩ .WIN [] [acceptedBet] := by
    refine allLand_cons.mpr ⟨⟨fun _ => ⟨{}, rfl⟩, fun _ _ => ⟨{}, rfl⟩, fun _ hnone => ?_,
      nofun⟩, ?_⟩
    · have hunpaid : unpaid c.state.wallet ([] ++ [acceptedBet]) = [acceptedBet] := by
        simpa [unpaid] using hnone
      have hb : c.state.wallet.balanceOf acceptedBet.userId = 900 := hbalance
      rw [hunpaid, hb]
      decide
    · exact fun earlier b later he => absurd he (by simp)
  obtain ⟨market, hm', hst'⟩ := Option.map_eq_some_iff.mp hmarket
  exact ⟨c, dto, s', hc, hst, hrun, ⟨market, hm', hst'⟩,
    (settle_recoverable_iff hc hm ⟨{}, rfl, hsel⟩ hrun).1.mpr hland⟩

/-- The database is lost for the payout of the bet, and only for it. -/
def payoutFails : Faults
  | .wallet (.applyTransaction ..) => .fail (.QueryFailedError "connection terminated")
  | _ => .ok {}

/-- **The unpaid bet**: the market is settled, the bet is `ACCEPTED` and not paid, and whatever
happens to another call, it changes nothing. -/
theorem settle_leaves_unpaid : ∃ c dto s',
    api.Reachable (api.init .empty) c ∧ Selects payoutFails c.state 50 [acceptedBet] ∧
    api.finishBy 4 payoutFails (MarketService.settle 50 .WIN) c.state = some (.ok dto, s') ∧
    s'.betStatus 0 = some .ACCEPTED ∧ s'.wallet.rowsFor 7 .CREDIT 0 = [] ∧
    ¬ CompletedWhenSettled s' 50 .WIN [acceptedBet] ∧ ¬ Retryable s' 50 .WIN [acceptedBet] ∧
    ∀ i f r s'', api.finishBy i f (MarketService.settle 50 .WIN) s' = some (r, s'') →
      s'' = s' ∧ ∃ e, r = .error e := by
  obtain ⟨c, hr, hsel, dto, s', hrun, hmarket, hst, hrows⟩ : ∃ c,
      api.replay (api.init .empty) acceptBet = some c ∧
      (c.state.exec {} (.betFind 50 .ACCEPTED)).1 = .ok [acceptedBet] ∧
      ∃ dto s', api.finishBy 4 payoutFails (MarketService.settle 50 .WIN) c.state =
        some (.ok dto, s') ∧ (s'.markets 50).map Market.status = some .SETTLED ∧
        s'.betStatus 0 = some .ACCEPTED ∧ s'.wallet.rowsFor 7 .CREDIT 0 = [] :=
    ⟨_, rfl, rfl, _, _, rfl, rfl, rfl, rfl⟩
  obtain ⟨market, hm, hsettled⟩ := Option.map_eq_some_iff.mp hmarket
  have hmarket : s'.MarketSettled 50 := ⟨market, hm, hsettled⟩
  have hnot : ¬ s'.Completed .WIN acceptedBet := fun h =>
    absurd (hst.symm.trans h.1) (by decide)
  refine ⟨c, dto, s', .of_replay .init hr, ⟨{}, rfl, hsel⟩, hrun, hst, hrows, fun h => ?_,
    fun h => ?_, fun i f r s'' h => settle_refused hmarket h⟩
  · exact hnot (h hmarket acceptedBet List.mem_cons_self)
  · exact (h acceptedBet List.mem_cons_self hnot).1 hmarket

end BoltBet
