import BoltBet.Api.Statements
import Mathlib.Algebra.Order.BigOperators.Group.List
import Mathlib.Data.List.Forall2
import Mathlib.Data.List.Nodup
import Mathlib.Data.List.Perm.Subperm

/-!
# Settlement across crashes

`settle` may stop after any statement and run again. What each run leaves, wherever it stops, is
`Between`: some of the bets are credited, of these some are `SETTLED`, and the market stays as it
was until all of them are.

* `Paid`: the wallet tables after some payouts; `Paid.credit` adds one, `Paid.lookup` finds one.
* `settle_always`: every run of `settle` keeps `Between`, and ends in `Finished` when it completes.
* `settle_recovers`: so any number of stopped runs and one that completes settle the market.
-/

namespace BoltBet

open Async

/-- What a user gets for these bets. -/
def payoutSum (userId : Uuid) (bets : List Bet) : Int :=
  ((bets.filter (·.userId = userId)).map Bet.payoutCents).sum

/-- The `CREDIT` row of a bet. -/
structure CreditRow (bet : Bet) (tx : WalletTransaction) : Prop where
  type : tx.type = .CREDIT
  userId : tx.userId = bet.userId
  referenceId : tx.referenceId = some bet.id
  amountCents : tx.amountCents = bet.payoutCents

namespace Store

/-- The bets `settle` has to pay. -/
def payable (s : Store) (marketId : Uuid) : MarketResult → List Bet
  | .WIN => s.betsIn marketId .ACCEPTED
  | .LOSS => []

/-- The market is closed; its other columns are as before, as are the other markets. -/
def MarketClosed (s : Store) (marketId : Uuid) (s' : Store) : Prop :=
  ∃ market now, s.markets marketId = some market ∧
    s'.markets = Function.update s.markets marketId
      (some { market with status := .SETTLED, updatedAt := now })

/-- What settling the market leaves of a bet. -/
def Settles (marketId : Uuid) (bet bet' : Bet) : Prop :=
  if bet.marketId = marketId ∧ bet.status = .ACCEPTED then bet.Same bet' ∧ bet'.status = .SETTLED
  else bet' = bet

/-- **What `settle` is for**: pay the accepted bets of the market, each once, settle them, and close
the market. -/
structure SettledAs (s : Store) (marketId : Uuid) (result : MarketResult) (s' : Store) : Prop where
  balances : ∀ u, s'.wallet.balanceOf u =
    s.wallet.balanceOf u + payoutSum u (s.payable marketId result)
  rows : ∃ paid txs, paid.Perm (s.payable marketId result) ∧ List.Forall₂ CreditRow paid txs ∧
    s'.wallet.walletTransactions = s.wallet.walletTransactions ++ txs
  credit : ∀ b ∈ s.payable marketId result, ∃ tx, s'.wallet.rowsFor b.userId .CREDIT b.id = [tx] ∧
    CreditRow b tx
  wallets : ∀ u, (∀ b ∈ s.payable marketId result, b.userId ≠ u) →
    s'.wallet.wallets u = s.wallet.wallets u
  bets : List.Forall₂ (Settles marketId) s.bets s'.bets
  market : s.MarketClosed marketId s'

/-- The market can be settled: it is there and not settled, none of its accepted bets is credited,
and no balance leaves its column, whichever of them are paid. -/
structure Settleable (s : Store) (marketId : Uuid) : Prop where
  betIds : s.BetIds
  marketIds : s.MarketIds
  market : ∃ market, s.markets marketId = some market ∧ market.status ≠ .SETTLED
  payouts : ∀ b ∈ s.betsIn marketId .ACCEPTED, fitsInteger b.payoutCents = true
  uncredited : ∀ b ∈ s.betsIn marketId .ACCEPTED, s.wallet.rowsFor b.userId .CREDIT b.id = []
  balances : ∀ u bets, bets.Subperm (s.betsIn marketId .ACCEPTED) →
    fitsInteger (s.wallet.balanceOf u + payoutSum u bets) = true

end Store

/-! ## Payouts in the wallet tables -/

theorem payoutSum_append (u : Uuid) (l l' : List Bet) :
    payoutSum u (l ++ l') = payoutSum u l + payoutSum u l' := by
  simp [payoutSum]

theorem payoutSum_singleton (u : Uuid) (b : Bet) :
    payoutSum u [b] = if b.userId = u then b.payoutCents else 0 := by
  by_cases h : b.userId = u <;> simp [payoutSum, h]

theorem payoutSum_perm (u : Uuid) {l l' : List Bet} (h : l.Perm l') :
    payoutSum u l = payoutSum u l' := ((h.filter _).map _).sum_eq

namespace WalletDb

/-- The tables after the payouts of these bets. -/
structure Paid (db : WalletDb) (credited : List Bet) (db' : WalletDb) : Prop where
  rows : ∃ txs, List.Forall₂ CreditRow credited txs ∧
    db'.walletTransactions = db.walletTransactions ++ txs
  balances : ∀ u, db'.balanceOf u = db.balanceOf u + payoutSum u credited
  wallets : ∀ u, (∀ b ∈ credited, b.userId ≠ u) → db'.wallets u = db.wallets u

namespace Paid

variable {db db' : WalletDb} {credited : List Bet}

theorem refl (db : WalletDb) : db.Paid [] db :=
  ⟨⟨[], .nil, (List.append_nil _).symm⟩, fun _ => (Int.add_zero _).symm, fun _ _ => rfl⟩

/-- One more payout. -/
theorem credit (h : db.Paid credited db') {b : Bet} (ch : WalletChoice) (desc : String)
    (hpayout : fitsInteger b.payoutCents = true)
    (hbalance : fitsInteger (db.balanceOf b.userId + payoutSum b.userId (credited ++ [b])) = true) :
    ∃ dto db'', db'.applyAtomic ch b.userId .CREDIT b.payoutCents (some b.id) desc =
      (.ok dto, db'') ∧ db.Paid (credited ++ [b]) db'' := by
  rw [payoutSum_append, ← Int.add_assoc, ← h.balances, payoutSum_singleton, if_pos rfl] at hbalance
  obtain ⟨dto, db'', hx⟩ := applyAtomic_credit ch (some b.id) desc hpayout hbalance
  obtain ⟨_, tx, w, hb, -, -, rfl, htx, -, rfl⟩ := applyAtomic_ok hx
  have hw : w.balanceCents = db'.balanceOf b.userId + b.payoutCents := (Except.ok.inj hb).symm
  obtain ⟨txs, htxs, hrows⟩ := h.rows
  have hrow : CreditRow b tx := htx ▸ ⟨rfl, rfl, rfl, rfl⟩
  refine ⟨dto, _, hx, ⟨txs ++ [tx], ?_, ?_⟩, fun u => ?_, fun u hu => ?_⟩
  · exact List.rel_append htxs (.cons hrow .nil)
  · rw [addTx_txs, setWallet_txs, hrows, List.append_assoc]
  · rw [balanceOf_addTx, payoutSum_append, payoutSum_singleton, ← Int.add_assoc, ← h.balances]
    by_cases hu : u = b.userId
    · subst hu
      rw [balanceOf_setWallet_self, if_pos rfl, hw]
    · rw [balanceOf_setWallet_ne db' hu, if_neg (Ne.symm hu), Int.add_zero]
  · have hne : u ≠ b.userId := fun he => hu b (by simp) he.symm
    refine (Function.update_of_ne hne _ _).trans (h.wallets u fun b' hb' => ?_)
    exact hu b' (List.mem_append_left _ hb')

/-- The rows of a bet: one if it was credited, and none otherwise. -/
theorem rowsFor_cases (h : db.Paid credited db') {b : Bet}
    (hb : db.rowsFor b.userId .CREDIT b.id = []) (hnodup : credited.Nodup)
    (hids : ∀ b' ∈ credited, b'.id = b.id → b' = b) :
    (b ∈ credited ∧ ∃ tx, db'.rowsFor b.userId .CREDIT b.id = [tx] ∧ CreditRow b tx) ∨
      (b ∉ credited ∧ db'.rowsFor b.userId .CREDIT b.id = []) := by
  obtain ⟨txs, htxs, hrows⟩ := h.rows
  have hrowsFor : db'.rowsFor b.userId .CREDIT b.id =
      txs.filter (·.Matches b.userId b.id (some .CREDIT)) := by
    unfold rowsFor at hb ⊢
    rw [hrows, List.filter_append, hb, List.nil_append]
  rw [hrowsFor]
  clear hrowsFor hrows h
  induction htxs with
  | nil => exact .inr ⟨by simp, rfl⟩
  | @cons b₁ tx l l' hrow hl ih =>
    have hmatch : tx.Matches b.userId b.id (some .CREDIT) ↔ b₁ = b := by
      constructor
      · intro hm
        refine hids b₁ List.mem_cons_self (Option.some.inj ?_)
        rw [← hrow.referenceId, hm.2.1]
      · rintro rfl
        exact ⟨hrow.userId, hrow.referenceId, by simp [hrow.type]⟩
    obtain ⟨hnot, hnodup⟩ := List.nodup_cons.mp hnodup
    have ih := ih hnodup fun b' hb' => hids b' (List.mem_cons_of_mem _ hb')
    by_cases hb₁ : b₁ = b
    · subst hb₁
      rw [List.filter_cons_of_pos (by simpa using hmatch.mpr rfl)]
      obtain ⟨hin, -⟩ | ⟨-, hnone⟩ := ih
      · exact absurd hin hnot
      · exact .inl ⟨List.mem_cons_self, tx, by rw [hnone], hrow⟩
    · rw [List.filter_cons_of_neg (by simpa using mt hmatch.mp hb₁)]
      simpa [Ne.symm hb₁] using ih

end Paid

end WalletDb

/-! ## What a run leaves, wherever it stops -/

namespace Recovery

/-- A bet is as it was, or settled by a run of `settle`, after its payout. -/
def Advanced (id : Uuid) (result : MarketResult) (credited : List Bet) (b b' : Bet) : Prop :=
  b' = b ∨ (b.marketId = id ∧ b.status = .ACCEPTED) ∧ (b.Same b' ∧ b'.status = .SETTLED) ∧
    (result = .WIN → b ∈ credited)

/-- Some of the bets are credited, and of these some are `SETTLED`. -/
structure Progress (s₀ : Store) (id : Uuid) (result : MarketResult) (credited : List Bet)
    (s : Store) : Prop where
  paid : s₀.wallet.Paid credited s.wallet
  nodup : credited.Nodup
  payable : ∀ b ∈ credited, b ∈ s₀.payable id result
  bets : List.Forall₂ (Advanced id result credited) s₀.bets s.bets

/-- The market is settled. -/
def Finished (s₀ : Store) (id : Uuid) (result : MarketResult) (s : Store) : Prop :=
  ∃ credited, Progress s₀ id result credited s ∧ s.betsIn id .ACCEPTED = [] ∧
    s₀.MarketClosed id s

/-- The market is not settled yet. -/
def Unfinished (s₀ : Store) (id : Uuid) (result : MarketResult) (s : Store) : Prop :=
  (∃ credited, Progress s₀ id result credited s) ∧ s.markets = s₀.markets

/-- What any number of runs leave. -/
def Between (s₀ : Store) (id : Uuid) (result : MarketResult) (s : Store) : Prop :=
  Unfinished s₀ id result s ∨ Finished s₀ id result s

variable {s₀ s s' : Store} {id : Uuid} {result : MarketResult} {credited : List Bet} {b : Bet}

theorem Advanced.mono {credited' : List Bet} {b b' : Bet} (hsub : credited ⊆ credited')
    (h : Advanced id result credited b b') : Advanced id result credited' b b' := by
  rcases h with rfl | ⟨hb, hb', hc⟩
  · exact .inl rfl
  · exact .inr ⟨hb, hb', fun hr => hsub (hc hr)⟩

theorem between_self (s : Store) (id : Uuid) (result : MarketResult) :
    Between s id result s := by
  refine .inl ⟨⟨[], .refl s.wallet, .nil, by simp, ?_⟩, rfl⟩
  exact List.forall₂_same.mpr fun b _ => .inl rfl

theorem payable_subset {s : Store} {id : Uuid} {result : MarketResult} :
    s.payable id result ⊆ s.betsIn id .ACCEPTED := by
  cases result with
  | WIN => exact fun _ hb => hb
  | LOSS => exact fun _ hb => absurd hb (by simp [Store.payable])

theorem mem_betsIn {s : Store} {id : Uuid} {st : BetStatus} {b : Bet} :
    b ∈ s.betsIn id st ↔ b ∈ s.bets ∧ b.marketId = id ∧ b.status = st := by
  simp [Store.betsIn]

/-- Where a bet comes from. -/
theorem Progress.origin (h : Progress s₀ id result credited s) (hb : b ∈ s.bets) :
    ∃ b₀ ∈ s₀.bets, Advanced id result credited b₀ b := by
  obtain ⟨n, hn, rfl⟩ := List.mem_iff_getElem.mp hb
  have hn₀ : n < s₀.bets.length := h.bets.length_eq ▸ hn
  exact ⟨s₀.bets[n], List.getElem_mem hn₀, h.bets.get hn₀ hn⟩

/-- What became of a bet. -/
theorem Progress.outcome (h : Progress s₀ id result credited s) (hb : b ∈ s₀.bets) :
    ∃ b' ∈ s.bets, Advanced id result credited b b' := by
  obtain ⟨n, hn, rfl⟩ := List.mem_iff_getElem.mp hb
  have hn' : n < s.bets.length := h.bets.length_eq ▸ hn
  exact ⟨s.bets[n], List.getElem_mem hn', h.bets.get hn hn'⟩

/-- An accepted bet is as it was at the start. -/
theorem Progress.accepted (h : Progress s₀ id result credited s)
    (hb : b ∈ s.betsIn id .ACCEPTED) : b ∈ s₀.betsIn id .ACCEPTED := by
  obtain ⟨hb, hm, hst⟩ := mem_betsIn.mp hb
  obtain ⟨b₀, hb₀, rfl | ⟨-, ⟨-, hst'⟩, -⟩⟩ := h.origin hb
  · exact mem_betsIn.mpr ⟨hb₀, hm, hst⟩
  · exact absurd (hst.symm.trans hst') (by decide)

/-- The ids are those of the start. -/
theorem Progress.ids (h : Progress s₀ id result credited s) :
    s.bets.map Bet.id = s₀.bets.map Bet.id := by
  have hids : List.Forall₂ (fun b b' => Bet.id b = Bet.id b') s₀.bets s.bets := by
    refine h.bets.imp fun b b' hadv => ?_
    rcases hadv with rfl | ⟨-, ⟨hsame, -⟩, -⟩
    · rfl
    · exact hsame.id.symm
  have heq := List.forall₂_map_left_iff.mpr (List.forall₂_map_right_iff.mpr hids)
  rw [List.forall₂_eq_eq_eq] at heq
  exact heq.symm

/-- Two bets of one id are one bet. -/
theorem eq_of_id (hs : s.BetIds) {b b' : Bet} (hb : b ∈ s.bets) (hb' : b' ∈ s.bets)
    (h : b'.id = b.id) : b' = b :=
  Option.some.inj ((hs.bet_of_mem hb').symm.trans (h ▸ hs.bet_of_mem hb))

/-- Settling an accepted bet, once it is paid. -/
theorem Progress.setStatus (hs : s₀.BetIds) (h : Progress s₀ id result credited s)
    (hb : b ∈ s.betsIn id .ACCEPTED) (hpaid : result = .WIN → b ∈ credited) (now : Nat) :
    Progress s₀ id result credited (s.setStatus now b.id .SETTLED) := by
  refine ⟨h.paid, h.nodup, h.payable, ?_⟩
  obtain ⟨hb₀, hmarket, hst⟩ := mem_betsIn.mp (h.accepted hb)
  have hmem := (List.forall₂_and_left _ _).mpr ⟨fun b₁ (hb₁ : b₁ ∈ s₀.bets) => hb₁, h.bets⟩
  refine List.forall₂_map_right_iff.mpr (hmem.imp fun b₁ b₂ hadv => ?_)
  obtain ⟨hb₁, hadv⟩ := hadv
  by_cases hid : b₂.id = b.id
  · rw [if_pos hid]
    rcases hadv with rfl | ⟨hacc, ⟨hsame, -⟩, hc⟩
    · obtain rfl := eq_of_id hs hb₀ hb₁ hid
      exact .inr ⟨⟨hmarket, hst⟩, ⟨rfl, rfl⟩, hpaid⟩
    · exact .inr ⟨hacc, ⟨hsame.trans rfl, rfl⟩, hc⟩
  · rwa [if_neg hid]

/-- A settled bet is not selected again. -/
theorem betsIn_setStatus (s : Store) (now : Nat) (id betId : Uuid) :
    (s.setStatus now betId .SETTLED).betsIn id .ACCEPTED =
      (s.betsIn id .ACCEPTED).filter (·.id ≠ betId) := by
  unfold Store.betsIn Store.setStatus
  induction s.bets with
  | nil => rfl
  | cons b bs ih =>
    rw [List.map_cons, List.filter_cons, List.filter_cons, ih]
    by_cases hid : b.id = betId
    · by_cases hb : b.marketId = id ∧ b.status = .ACCEPTED
      · simp [hid, hb]
      · simp [hid, hb]
    · by_cases hb : b.marketId = id ∧ b.status = .ACCEPTED
      · simp [hid, hb]
      · simp [hid, hb]

/-- Paying an accepted bet that is not paid yet. -/
theorem Progress.credit (hs : s₀.Settleable id) (h : Progress s₀ id .WIN credited s)
    (hb : b ∈ s.betsIn id .ACCEPTED) (hnew : b ∉ credited) (ch : WalletChoice) (desc : String) :
    ∃ dto db, s.wallet.applyAtomic ch b.userId .CREDIT b.payoutCents (some b.id) desc =
      (.ok dto, db) ∧ Progress s₀ id .WIN (credited ++ [b]) { s with wallet := db } := by
  have hb₀ := h.accepted hb
  have hnodup : (credited ++ [b]).Nodup := by
    refine List.nodup_append.mpr ⟨h.nodup, List.nodup_singleton b, ?_⟩
    rintro b₁ hb₁ b₂ hb₂ rfl
    exact hnew (List.mem_singleton.mp hb₂ ▸ hb₁)
  have hpayable : ∀ b' ∈ credited ++ [b], b' ∈ s₀.betsIn id .ACCEPTED := by
    intro b' hb'
    rcases List.mem_append.mp hb' with hb' | hb'
    · exact h.payable b' hb'
    · exact List.mem_singleton.mp hb' ▸ hb₀
  obtain ⟨dto, db, hx, hpaid⟩ := h.paid.credit ch desc (hs.payouts b hb₀)
    (hs.balances b.userId _ (hnodup.subperm hpayable))
  refine ⟨dto, db, hx, hpaid, hnodup, hpayable, ?_⟩
  exact h.bets.imp fun _ _ => Advanced.mono (List.subset_append_left ..)

/-- A credited bet has a row, and no other bet has. -/
theorem Progress.rowsFor_cases (hs : s₀.Settleable id) (h : Progress s₀ id result credited s)
    (hb : b ∈ s₀.betsIn id .ACCEPTED) :
    (b ∈ credited ∧ ∃ tx, s.wallet.rowsFor b.userId .CREDIT b.id = [tx] ∧ CreditRow b tx) ∨
      (b ∉ credited ∧ s.wallet.rowsFor b.userId .CREDIT b.id = []) := by
  refine h.paid.rowsFor_cases (hs.uncredited b hb) h.nodup fun b' hb' hid => ?_
  have hb' := mem_betsIn.mp (payable_subset (h.payable b' hb'))
  exact eq_of_id hs.betIds (mem_betsIn.mp hb).1 hb'.1 hid

/-! ## One run -/

/-- One operation that nothing makes fail. -/
theorem always_op {i : Nat} {o : ApiOp} {Q : Option (Except Err o.Res) → Store → Prop}
    (hstop : Q none s) (h : ∀ ch, Q (some (s.exec ch o).1) (s.exec ch o).2) :
    api.Always i IsOk Q (Prog.perform (S := ApiSig) o) s := by
  refine Machine.always_perform hstop ?_
  rintro m r s₁ took ⟨ch, rfl⟩ ha
  obtain ⟨rfl, rfl, -⟩ : (s.exec ch o).1 = r ∧ (s.exec ch o).2 = s₁ ∧ _ := by
    simpa [Machine.answer] using ha
  exact h ch

variable {i : Nat} {market : Market} {rest : List Bet}

/-- Before the payouts of `rest` the others are settled. -/
def Loop (s₀ : Store) (id : Uuid) (result : MarketResult) (rest : List Bet) (s : Store) : Prop :=
  Unfinished s₀ id result s ∧ (s.betsIn id .ACCEPTED).Perm rest

/-- The payout of an accepted bet is made, or was made before. -/
theorem creditPayout_always (hs : s₀.Settleable id) (h : Unfinished s₀ id result s)
    (hb : b ∈ s.betsIn id .ACCEPTED) :
    api.Always i IsOk (Returns (fun _ s' => s'.bets = s.bets ∧ s'.markets = s₀.markets ∧
      ∃ credited, Progress s₀ id result credited s' ∧ (result = .WIN → b ∈ credited))
      (Unfinished s₀ id result)) (MarketService.creditPayout market result b) s := by
  obtain ⟨⟨credited, hp⟩, hmarkets⟩ := h
  cases result with
  | LOSS => exact Machine.always_ret ⟨rfl, hmarkets, credited, hp, nofun⟩
  | WIN =>
    unfold MarketService.creditPayout
    rw [Api.wallet_credit]
    refine Machine.always_then (Q := fun _ (s' : Store) => s'.bets = s.bets ∧
      s'.markets = s₀.markets ∧ ∃ credited, Progress s₀ id .WIN credited s' ∧ b ∈ credited)
      (R := Unfinished s₀ id .WIN) ?_ ?_ fun _ h => h
    · refine Machine.always_then (Q := fun tx s' => s' = s ∧ (tx = none ↔ b ∉ credited))
        (R := Unfinished s₀ id .WIN) ?_ ?_ fun _ h => h
      · refine always_op (o := .wallet (.query (.txFindOne b.userId b.id (some .CREDIT)))) ?_ ?_
        · exact ⟨⟨credited, hp⟩, hmarkets⟩
        · intro ch
          refine ⟨rfl, ?_⟩
          rcases hp.rowsFor_cases hs (hp.accepted hb) with ⟨hmem, tx, hrow, -⟩ | ⟨hnot, hrow⟩
          · refine iff_of_false (fun hnone => ?_) (not_not_intro hmem)
            exact absurd (hrow.symm.trans (pickOne_eq_none hnone)) (by simp)
          · refine iff_of_true ?_ hnot
            show pickOne _ (s.wallet.rowsFor b.userId .CREDIT b.id) = none
            rw [hrow]
            rfl
      · rintro (_ | tx) s' ⟨rfl, htx⟩
        · refine always_op (o := .wallet (.applyTransaction b.userId .CREDIT b.payoutCents
            (some b.id) (MarketService.payoutDescription market.name))) ?_ fun ch => ?_
          · exact ⟨⟨credited, hp⟩, hmarkets⟩
          · obtain ⟨dto, db, hx, hp'⟩ := hp.credit hs hb (htx.mp rfl) ch.toWalletChoice
              (MarketService.payoutDescription market.name)
            simp only [Store.exec, WalletDb.exec, hx]
            exact ⟨rfl, hmarkets, _, hp', List.mem_append_right _ (List.mem_singleton_self b)⟩
        · exact Machine.always_ret ⟨rfl, hmarkets, credited, hp, by_contra fun hnot =>
            absurd (htx.mpr hnot) (by simp)⟩
    · rintro - s' ⟨hbets, hmarkets', credited', hp', hmem⟩
      exact Machine.always_ret ⟨hbets, hmarkets', credited', hp', fun _ => hmem⟩

/-- The notifications are not part of what `settle` has to leave. -/
theorem unfinished_congr (h : Unfinished s₀ id result s) (hwallet : s'.wallet = s.wallet)
    (hbets : s'.bets = s.bets) (hmarkets : s'.markets = s.markets) :
    Unfinished s₀ id result s' := by
  obtain ⟨⟨credited, hp⟩, hm⟩ := h
  exact ⟨⟨credited, hwallet ▸ hp.paid, hp.nodup, hp.payable, hbets ▸ hp.bets⟩, hmarkets.trans hm⟩

/-- The body of the loop. -/
theorem settleBet_always (hs : s₀.Settleable id) (h : Loop s₀ id result (b :: rest) s) :
    api.Always i IsOk (Returns (fun _ => Loop s₀ id result rest) (Unfinished s₀ id result))
      (MarketService.settleBet market result b) s := by
  obtain ⟨hun, hperm⟩ := h
  have hb : b ∈ s.betsIn id .ACCEPTED := hperm.mem_iff.mpr List.mem_cons_self
  unfold MarketService.settleBet
  refine Machine.always_try (Q := Returns (fun _ => Loop s₀ id result rest)
    (Unfinished s₀ id result)) ?_ (fun _ _ h => h) (fun _ _ h => h.elim) fun _ h => h
  refine Machine.always_then (creditPayout_always hs hun hb) ?_ fun _ h => h
  rintro - s₁ ⟨hbets, hmarkets, credited, hp, hpaid⟩
  have hbetsIn : s₁.betsIn id .ACCEPTED = s.betsIn id .ACCEPTED := by
    unfold Store.betsIn
    rw [hbets]
  -- the update of the status: `b` is not selected any more
  refine Machine.always_then (Q := fun _ => Loop s₀ id result rest)
    (R := Unfinished s₀ id result) ?_ ?_ fun _ h => h
  · refine always_op (o := .betUpdate b.id .SETTLED) ?_ fun ch => ?_
    · exact ⟨⟨credited, hp⟩, hmarkets⟩
    · refine ⟨⟨⟨credited, hp.setStatus hs.betIds (hbetsIn ▸ hb) hpaid ch.now⟩, hmarkets⟩, ?_⟩
      have hids : ((b :: rest).map Bet.id).Nodup := by
        have hall : (s.bets.map Bet.id).Nodup := by
          rw [← hbets, hp.ids]
          exact hs.betIds
        exact (hperm.map Bet.id).nodup_iff.mp (hall.sublist (List.filter_sublist.map _))
      have hrest : (b :: rest).filter (·.id ≠ b.id) = rest := by
        rw [List.filter_cons_of_neg (by simp)]
        refine List.filter_eq_self.mpr fun b' hb' => ?_
        have hne : b'.id ≠ b.id := fun he =>
          (List.nodup_cons.mp hids).1 (he ▸ List.mem_map_of_mem hb')
        simpa using hne
      show ((s₁.setStatus ch.now b.id .SETTLED).betsIn id .ACCEPTED).Perm rest
      rw [betsIn_setStatus, hbetsIn, ← hrest]
      exact hperm.filter _
  · rintro - s₂ hloop
    refine always_op (o := .publishNotification (.BET_SETTLED b.userId b.id market.name result
      (if result = .WIN then b.payoutCents else 0))) ?_ fun ch => ?_
    · exact hloop.1
    · exact ⟨unfinished_congr hloop.1 rfl rfl rfl, hloop.2⟩

/-- Saving the current row with another status. -/
theorem savedMarket_status_change {now : Nat} {st : MarketStatus}
    (h : s.markets market.id = some market) (hst : st ≠ market.status) :
    s.savedMarket now { market with status := st } =
      { market with status := st, updatedAt := now } := by
  have hne : ({ market with status := st } : Market) ≠ market := fun he =>
    hst (congrArg Market.status he)
  unfold Store.savedMarket
  rw [h]
  show Market.save now market { market with status := st } = _
  unfold Market.save
  rw [if_neg hne, if_pos rfl]

/-- What a run leaves when it completes. -/
theorem finished_of_loop (hs : s₀.Settleable id) (h : Loop s₀ id result [] s)
    (hmarket : s₀.markets id = some market) (ch : ApiChoice) :
    Finished s₀ id result
      (s.setMarket (s.savedMarket ch.now { market with status := .SETTLED })) := by
  obtain ⟨⟨⟨credited, hp⟩, hmarkets⟩, hperm⟩ := h
  obtain ⟨market', hmarket', hopen⟩ := hs.market
  obtain rfl := Option.some.inj (hmarket.symm.trans hmarket')
  obtain rfl := hs.marketIds id market hmarket
  have hrow : s.markets market.id = some market := by rw [hmarkets, hmarket]
  refine ⟨credited, ⟨hp.paid, hp.nodup, hp.payable, hp.bets⟩, hperm.eq_nil, market, ch.now,
    hmarket, ?_⟩
  rw [savedMarket_status_change hrow (Ne.symm hopen)]
  show Function.update s.markets market.id _ = _
  rw [hmarkets]

/-- What one run leaves: it may have stopped anywhere, or completed. -/
def Ran (s₀ : Store) (id : Uuid) (result : MarketResult) {α : Type}
    (x : Option (Except Err α)) (s : Store) : Prop :=
  Between s₀ id result s ∧ (x ≠ none → Finished s₀ id result s)

/-- A run that stopped. -/
theorem ran_none {α : Type} (h : Between s₀ id result s) :
    Ran s₀ id result (none : Option (Except Err α)) s := ⟨h, fun hx => absurd rfl hx⟩

/-- A run that completed. -/
theorem ran_some {α : Type} {r : Except Err α} (h : Finished s₀ id result s) :
    Ran s₀ id result (some r) s := ⟨.inr h, fun _ => h⟩

theorem finished_congr (h : Finished s₀ id result s) (hwallet : s'.wallet = s.wallet)
    (hbets : s'.bets = s.bets) (hmarkets : s'.markets = s.markets) :
    Finished s₀ id result s' := by
  obtain ⟨credited, hp, hnone, market, now, hm, hclosed⟩ := h
  refine ⟨credited, ⟨hwallet ▸ hp.paid, hp.nodup, hp.payable, hbets ▸ hp.bets⟩, ?_, market, now,
    hm, hmarkets.trans hclosed⟩
  unfold Store.betsIn at hnone ⊢
  rwa [hbets]

/-- **One run of `settle`**, wherever it stops. -/
theorem settle_always (hs : s₀.Settleable id) (h : Between s₀ id result s) :
    api.Always i IsOk (Ran s₀ id result) (MarketService.settle id result) s := by
  unfold MarketService.settle
  obtain ⟨market, hmarket⟩ : ∃ market, s.markets id = some market := by
    rcases h with ⟨-, hmarkets⟩ | ⟨-, -, -, market₀, now, -, hmarkets⟩
    · obtain ⟨market₀, hmarket₀, -⟩ := hs.market
      exact ⟨market₀, by rw [hmarkets, hmarket₀]⟩
    · exact ⟨_, by rw [hmarkets]; exact Function.update_self ..⟩
  refine Machine.always_then (Q := fun m s' => m = market ∧ s' = s)
    (R := Between s₀ id result) ?_ ?_ fun _ h => ran_none h
  · refine Machine.always_then (Q := fun m s' => m = some market ∧ s' = s)
      (R := Between s₀ id result) ?_ ?_ fun _ h => h
    · refine always_op (o := .marketFindOne id) ?_ fun ch => ?_
      · exact h
      · exact ⟨hmarket, rfl⟩
    · rintro - s' ⟨rfl, rfl⟩
      exact Machine.always_ret ⟨rfl, rfl⟩
  rintro market s' ⟨rfl, rfl⟩
  rcases h with hun | hfin
  · -- not settled yet
    obtain ⟨market₀, hmarket₀, hopen⟩ := hs.market
    have hmarket' : s₀.markets id = some market := hun.2 ▸ hmarket
    obtain rfl := Option.some.inj (hmarket'.symm.trans hmarket₀)
    rw [if_neg hopen]
    refine Machine.always_then (Q := fun bets s' => Loop s₀ id result bets s')
      (R := Unfinished s₀ id result) ?_ ?_ fun _ h => ran_none (.inl h)
    · refine always_op (o := .betFind id .ACCEPTED) ?_ fun ch => ?_
      · exact hun
      · refine ⟨hun, ?_⟩
        by_cases hrows : ch.rows.Perm (s'.betsIn id .ACCEPTED)
        · simp only [Store.exec, if_pos hrows]
          exact hrows.symm
        · simp only [Store.exec, if_neg hrows]
          exact .refl _
    rintro bets s₁ hloop
    refine Machine.always_then (Machine.always_forM (J := Loop s₀ id result)
      (R := Unfinished s₀ id result) (fun b bs s h => settleBet_always hs h) hloop) ?_
      fun _ h => ran_none (.inl h)
    rintro - s₂ hdone
    refine Machine.always_then (Q := fun _ => Finished s₀ id result)
      (R := Unfinished s₀ id result) ?_ ?_ fun _ h => ran_none (.inl h)
    · refine always_op (o := .marketSave { market with status := .SETTLED }) ?_ fun ch => ?_
      · exact hdone.1
      · exact finished_of_loop hs hdone hmarket' ch
    rintro saved s₃ hfin
    refine Machine.always_then (Q := fun _ => Finished s₀ id result)
      (R := Finished s₀ id result) ?_ ?_ fun _ h => ran_none (.inr h)
    · refine always_op (o := .publishNotification (.MARKET_UPDATED saved.id saved.name
        saved.status saved.oddsInt)) ?_ fun ch => ?_
      · exact hfin
      · exact finished_congr hfin rfl rfl rfl
    · exact fun _ _ hfin => Machine.always_ret (ran_some hfin)
  · -- a run before this one has settled it
    have hsettled : market.status = .SETTLED := by
      obtain ⟨-, -, -, market₀, now, -, hmarkets⟩ := hfin
      rw [hmarkets, Function.update_self] at hmarket
      rw [← Option.some.inj hmarket]
    rw [if_pos hsettled]
    exact Machine.always_throw (ran_some hfin)

/-- The call `settle`. -/
theorem call_always (hs : s₀.Settleable id) (h : Between s₀ id result s) :
    api.Always i IsOk (Ran s₀ id result) (ApiCall.settle id result).body s := by
  refine Machine.always_map ((settle_always hs h).mono fun x s' hx => ?_)
  cases x with
  | none => exact ran_none hx.1
  | some r => exact ran_some (hx.2 (by simp))

/-! ## The final state -/

/-- In the end all payable bets are credited. -/
theorem Progress.credited_perm (hs : s₀.BetIds) (h : Progress s₀ id result credited s)
    (hnone : s.betsIn id .ACCEPTED = []) : credited.Perm (s₀.payable id result) := by
  cases result with
  | LOSS =>
    have hnil : credited = [] := List.eq_nil_iff_forall_not_mem.mpr fun b hb =>
      absurd (h.payable b hb) (by simp [Store.payable])
    rw [hnil]
    exact .refl _
  | WIN =>
    have hnodup : (s₀.betsIn id .ACCEPTED).Nodup :=
      (List.Nodup.of_map Bet.id hs).sublist List.filter_sublist
    refine (List.perm_ext_iff_of_nodup h.nodup hnodup).mpr fun b => ⟨h.payable b, fun hb => ?_⟩
    obtain ⟨hb₀, hm, hst⟩ := mem_betsIn.mp hb
    obtain ⟨b', hb', rfl | ⟨-, -, hpaid⟩⟩ := h.outcome hb₀
    · exact absurd (mem_betsIn.mpr ⟨hb', hm, hst⟩) (by simp [hnone])
    · exact hpaid rfl

/-- In the end all accepted bets are settled. -/
theorem Progress.settles (h : Progress s₀ id result credited s)
    (hnone : s.betsIn id .ACCEPTED = []) : List.Forall₂ (Store.Settles id) s₀.bets s.bets := by
  have hmem : List.Forall₂ (fun b' b => b' ∈ s.bets ∧ Advanced id result credited b b')
      s.bets s₀.bets := (List.forall₂_and_left _ _).mpr ⟨fun _ hb => hb, h.bets.flip⟩
  refine (hmem.imp fun b' b hadv => ?_).flip
  obtain ⟨hb', hadv⟩ := hadv
  show Store.Settles id b b'
  unfold Store.Settles
  rcases hadv with rfl | ⟨hacc, hsettled, -⟩
  · refine (if_neg fun hacc => ?_).mpr rfl
    exact absurd (mem_betsIn.mpr ⟨hb', hacc⟩) (by simp [hnone])
  · exact (if_pos hacc).mpr hsettled

/-- What `settle` is for, done. -/
theorem Finished.settledAs (hs : s₀.Settleable id) (h : Finished s₀ id result s) :
    s₀.SettledAs id result s := by
  obtain ⟨credited, hp, hnone, hclosed⟩ := h
  have hperm := hp.credited_perm hs.betIds hnone
  refine ⟨fun u => ?_, ?_, fun b hb => ?_, fun u hu => ?_, hp.settles hnone, hclosed⟩
  · rw [hp.paid.balances u, payoutSum_perm u hperm]
  · obtain ⟨txs, htxs, hrows⟩ := hp.paid.rows
    exact ⟨credited, txs, hperm, htxs, hrows⟩
  · rcases hp.rowsFor_cases hs (payable_subset hb) with ⟨-, hrow⟩ | ⟨hnot, -⟩
    · exact hrow
    · exact absurd (hperm.mem_iff.mpr hb) hnot
  · exact hp.paid.wallets u fun b hb => hu b (hperm.mem_iff.mp hb)

end Recovery

open Recovery

/-- **Settlement across crashes**: any number of runs of `settle` that stop after any statement,
then one that completes. -/
theorem settle_recovers {s₀ : Store} {id : Uuid} {result : MarketResult} (hs : s₀.Settleable id)
    {t t' : StatementStore} {i : Nat} {ms : List (Mode ApiChoice Err)}
    {reply : Except Err ApiReply}
    (hcrashed : apiSql.Restarts IsOk (fun i t => t.disconnect i) (apiSql.body (.settle id result))
      (.ofStore s₀) t)
    (hms : ∀ m ∈ ms, IsOk m)
    (hrun : apiSql.Runs i (apiSql.body (.settle id result)) t ms (some reply) t') :
    s₀.SettledAs id result t'.store := by
  have hbetween : t.sql.Idle ∧ Between s₀ id result t.store := by
    refine hcrashed.keeps
      (J := fun (t : StatementStore) => t.sql.Idle ∧ Between s₀ id result t.store)
      (fun i t h => ?_) ⟨⟨fun _ => rfl, fun _ => rfl⟩, between_self s₀ id result⟩
    refine (always_statements h.1 (call_always hs h.2)).mono fun x t' hx hnone => ?_
    subst hnone
    exact ⟨hx.2.close, hx.1.1⟩
  have hran := always_statements hbetween.1 (call_always hs hbetween.2) ms _ t' hms hrun
  exact (hran.1.2 (by simp)).settledAs hs

/-! ## A small run -/

/-- When no payout is negative, it is enough that the balances fit in the end. -/
theorem balances_fit {bets : List Bet} {balance : Int} {u : Uuid}
    (hpos : ∀ b ∈ bets, 0 ≤ b.payoutCents) (hstart : fitsInteger balance = true)
    (hend : fitsInteger (balance + payoutSum u bets) = true) {l : List Bet}
    (hl : l.Subperm bets) : fitsInteger (balance + payoutSum u l) = true := by
  obtain ⟨l', hperm, hsub⟩ := hl
  have hsum : ((l'.filter (·.userId = u)).map Bet.payoutCents).Sublist
      ((bets.filter (·.userId = u)).map Bet.payoutCents) := (hsub.filter _).map _
  have hpos' : ∀ a ∈ (bets.filter (·.userId = u)).map Bet.payoutCents, 0 ≤ a := by
    intro a ha
    obtain ⟨b, hb, rfl⟩ := List.mem_map.mp ha
    exact hpos b (List.mem_of_mem_filter hb)
  have hle : payoutSum u l' ≤ payoutSum u bets := hsum.sum_le_sum hpos'
  have hnonneg : 0 ≤ payoutSum u l' := List.sum_nonneg fun a ha => hpos' a (hsum.subset ha)
  rw [← payoutSum_perm u hperm]
  simp only [fitsInteger, Bool.and_eq_true, decide_eq_true_eq] at *
  omega

/-- Market 50 with two accepted bets of user 7. -/
def acceptedMarket : Store where
  __ := Store.empty
  markets id := if id = 50 then some ⟨50, 9, "Man City to win", 240, .OPEN, 0, 0⟩ else none
  bets := [⟨60, 7, 50, "Man City to win", 240, 100, 240, .ACCEPTED, 1, 0, 0⟩,
    ⟨61, 7, 50, "Man City to win", 240, 200, 480, .ACCEPTED, 2, 0, 0⟩]

theorem acceptedMarket_settleable : acceptedMarket.Settleable 50 where
  betIds := by
    unfold Store.BetIds
    decide
  marketIds := by
    intro id m hm
    obtain ⟨rfl, rfl⟩ : id = 50 ∧ _ = m := by simpa [acceptedMarket] using hm
    rfl
  market := ⟨_, rfl, by decide⟩
  payouts := by decide
  uncredited := by decide
  balances := by
    intro u l hl
    refine balances_fit (by decide) (by rfl) ?_ hl
    by_cases hu : u = 7
    · subst hu
      decide
    · have hsum : payoutSum u (acceptedMarket.betsIn 50 .ACCEPTED) = 0 := by
        simp [payoutSum, acceptedMarket, Store.betsIn, Ne.symm hu]
      rw [hsum]
      rfl

/-- A run that crashes before the `COMMIT` of the first payout, one that crashes after it, and one
that completes. -/
theorem settle_recovers_twice : ∃ t t' reply,
    apiSql.Restarts IsOk (fun i t => t.disconnect i) (apiSql.body (.settle 50 .WIN))
      (.ofStore acceptedMarket) t ∧
    apiSql.Runs 2 (apiSql.body (.settle 50 .WIN)) t (List.replicate 15 (.ok {})) (some reply) t' ∧
    acceptedMarket.SettledAs 50 .WIN t'.store := by
  have hok : ∀ n, ∀ m ∈ List.replicate n (Mode.ok {}), IsOk (χ := ApiChoice) m :=
    fun n m hm => ⟨{}, List.eq_of_mem_replicate hm⟩
  obtain ⟨t₁, t₂, t₃, reply, h₁, h₂, h₃⟩ : ∃ t₁ t₂ t₃ reply,
      apiSql.evaluate 0 (apiSql.body (.settle 50 .WIN)) (.ofStore acceptedMarket)
        (List.replicate 8 (.ok {})) = some (none, t₁) ∧
      apiSql.evaluate 1 (apiSql.body (.settle 50 .WIN)) (t₁.disconnect 0)
        (List.replicate 9 (.ok {})) = some (none, t₂) ∧
      apiSql.evaluate 2 (apiSql.body (.settle 50 .WIN)) (t₂.disconnect 1)
        (List.replicate 15 (.ok {})) = some (some reply, t₃) := ⟨_, _, _, _, rfl, rfl, rfl⟩
  have hcrashed : apiSql.Restarts IsOk (fun i t => t.disconnect i)
      (apiSql.body (.settle 50 .WIN)) (.ofStore acceptedMarket) (t₂.disconnect 1) :=
    .again (.again .refl (hok 8) (.of_evaluate h₁)) (hok 9) (.of_evaluate h₂)
  have hrun := Machine.Runs.of_evaluate h₃
  exact ⟨_, t₃, reply, hcrashed, hrun,
    settle_recovers acceptedMarket_settleable hcrashed (hok 15) hrun⟩

end BoltBet
