import BoltBet.Api.Rules
import BoltBet.Number.Double

/-!
# The range of a payout

A stake is at most 1000000 cents, odds have a least value and no greatest one, and every integer
column has 32 bits. So the product of the two is exact as a double, and the payout is more than the
stake; but it does not always fit in its column.

* `jsPayout_eq`: the arithmetic of `placeBet`, in doubles, is that of `BettingService.payout`.
* `payout_in_range_iff`: stake and odds for which all is in range.
* `api_insert_in_range_iff`: in every run, the insert that follows the debit is rejected for its
  range exactly for the others.
-/

namespace BoltBet

open Async

/-- `Math.floor(dto.stakeCents * market.oddsInt / 100)`, in doubles. -/
def jsPayout (stakeCents oddsInt : Int) : ℤ :=
  ⌊Double.nearest (Double.nearest (stakeCents * oddsInt) / 100)⌋

/-- The odds of a market row: `CreateMarketDto` and the column let them through. -/
def OddsAdmitted (oddsInt : Int) : Prop := 101 ≤ oddsInt ∧ fitsInteger oddsInt = true

/-- What Postgres says of a value that does not fit. -/
def outOfRange : Err := .QueryFailedError "integer out of range"

/-- **The payout arithmetic of a stake and odds stays in range.** -/
structure PayoutInRange (stakeCents oddsInt : Int) : Prop where
  /-- The product is exact. -/
  product : stakeCents * oddsInt < 2 ^ 53 ∧
    Double.nearest (stakeCents * oddsInt) = stakeCents * oddsInt
  /-- So is the payout. -/
  payout : jsPayout stakeCents oddsInt = BettingService.payout stakeCents oddsInt
  exceeds : stakeCents < jsPayout stakeCents oddsInt
  stored : jsPayout stakeCents oddsInt ≤ 2 ^ 31 - 1
  /-- No insert of such a bet fails on range. -/
  inserted : ∀ (s : Store) (id userId : Uuid) (dto : PlaceBetDto) (market : Market),
    dto.stakeCents = stakeCents → market.oddsInt = oddsInt →
    s.rejectsBet id (BettingService.newBet userId dto market) ≠ some outOfRange

theorem fitsInteger_iff {n : Int} : fitsInteger n = true ↔ -2147483648 ≤ n ∧ n ≤ 2147483647 := by
  simp [fitsInteger]

section Arithmetic

variable (dto : PlaceBetDto) {oddsInt : Int}

/-- The product of a stake and odds. -/
theorem product_bounds (h : OddsAdmitted oddsInt) :
    0 ≤ dto.stakeCents * oddsInt ∧ dto.stakeCents * oddsInt < 2 ^ 53 := by
  obtain ⟨hodds, hfits⟩ := h
  have hmin := dto.min
  have hmax := dto.max
  have hle := (fitsInteger_iff.mp hfits).2
  constructor
  · exact Int.mul_nonneg (by omega) (by omega)
  · calc dto.stakeCents * oddsInt ≤ 1000000 * 2147483647 :=
        Int.mul_le_mul hmax hle (by omega) (by omega)
      _ < 2 ^ 53 := by norm_num

theorem nearest_product (h : OddsAdmitted oddsInt) :
    Double.nearest (dto.stakeCents * oddsInt) = dto.stakeCents * oddsInt := by
  obtain ⟨hnonneg, hlt⟩ := product_bounds dto h
  have hexact := Double.nearest_intCast (abs_lt.mpr ⟨by omega, hlt⟩)
  exact_mod_cast hexact

/-- **The doubles compute the exact payout.** -/
theorem jsPayout_eq (h : OddsAdmitted oddsInt) :
    jsPayout dto.stakeCents oddsInt = BettingService.payout dto.stakeCents oddsInt := by
  obtain ⟨hnonneg, hlt⟩ := product_bounds dto h
  have hfloor := Double.floor_nearest_div hnonneg hlt (d := 100) (by omega)
  unfold jsPayout BettingService.payout
  rw [nearest_product dto h]
  push_cast at hfloor
  exact hfloor

/-- The payout is more than the stake. -/
theorem stake_lt_payout (h : OddsAdmitted oddsInt) :
    dto.stakeCents < BettingService.payout dto.stakeCents oddsInt := by
  have hmin := dto.min
  have hprod : dto.stakeCents * 101 ≤ dto.stakeCents * oddsInt :=
    Int.mul_le_mul_of_nonneg_left h.1 (by omega)
  unfold BettingService.payout
  omega

/-- When the payout fits in its column. -/
theorem payout_fits_iff (h : OddsAdmitted oddsInt) :
    fitsInteger (BettingService.payout dto.stakeCents oddsInt) = true ↔
      dto.stakeCents * oddsInt < 100 * 2 ^ 31 := by
  have hnonneg := (product_bounds dto h).1
  rw [fitsInteger_iff]
  unfold BettingService.payout
  omega

/-- Postgres rejects a row for its range when a column does not fit, and then only. -/
theorem rejectsBet_eq_range {s : Store} {id : Uuid} {d : BetDraft} :
    s.rejectsBet id d = some outOfRange ↔
      (fitsInteger d.oddsInt && fitsInteger d.stakeCents && fitsInteger d.payoutCents) = false := by
  unfold Store.rejectsBet outOfRange
  cases hfits : fitsInteger d.oddsInt && fitsInteger d.stakeCents && fitsInteger d.payoutCents with
  | false => exact ⟨fun _ => rfl, fun _ => rfl⟩
  | true =>
    refine ⟨fun hrej => ?_, fun h => absurd h (by simp)⟩
    rw [if_neg (by simp)] at hrej
    split at hrej
    · exact absurd hrej (by decide)
    · split at hrej
      · exact absurd hrej (by decide)
      · exact absurd hrej (by simp)

/-- Only the payout of a new bet can be out of range. -/
theorem rejectsBet_newBet {s : Store} {id userId : Uuid} {market : Market}
    (h : OddsAdmitted market.oddsInt) :
    s.rejectsBet id (BettingService.newBet userId dto market) = some outOfRange ↔
      100 * 2 ^ 31 ≤ dto.stakeCents * market.oddsInt := by
  have hstake : fitsInteger dto.stakeCents = true := by
    have hmin := dto.min
    have hmax := dto.max
    rw [fitsInteger_iff]
    omega
  rw [rejectsBet_eq_range, BettingService.newBet, h.2, hstake, Bool.true_and, Bool.true_and,
    ← Bool.not_eq_true, payout_fits_iff dto h, not_lt]

end Arithmetic

/-- **When payout arithmetic stays in range.** -/
theorem payout_in_range_iff (dto : PlaceBetDto) (market : CreateMarketDto)
    (hstored : fitsInteger market.oddsInt = true) :
    PayoutInRange dto.stakeCents market.oddsInt ↔
      dto.stakeCents * market.oddsInt < 100 * 2 ^ 31 := by
  have hodds : OddsAdmitted market.oddsInt := ⟨market.min, hstored⟩
  have hjs := jsPayout_eq dto hodds
  rw [← payout_fits_iff dto hodds]
  constructor
  · intro h
    have hexceeds := h.exceeds
    have hle := h.stored
    have hmin := dto.min
    rw [← hjs, fitsInteger_iff]
    omega
  · intro hfits
    refine ⟨⟨(product_bounds dto hodds).2, nearest_product dto hodds⟩, hjs, ?_, ?_, ?_⟩
    · rw [hjs]
      exact stake_lt_payout dto hodds
    · rw [hjs]
      exact (fitsInteger_iff.mp hfits).2
    · intro s id userId dto' row hstake hrow hrej
      rw [rejectsBet_newBet dto' (hrow ▸ hodds), hstake, hrow] at hrej
      have hlt := (payout_fits_iff dto hodds).mp hfits
      omega

/-- Ten dollars at odds 2.40. -/
theorem payout_in_range_ordinary : fitsInteger 240 = true ∧
    (PayoutInRange 1000 240 ↔ (1000 : Int) * 240 < 100 * 2 ^ 31) :=
  ⟨by decide, payout_in_range_iff ⟨50, 1000, 2, by decide, by decide⟩
    ⟨9, "Man City to win", 240, by decide, by decide⟩ (by decide)⟩

/-- Ten dollars at odds 2147483.65: the payout is beyond its column. -/
theorem payout_out_of_range : ¬ PayoutInRange 1000 214748365 := by
  intro h
  have hstored := h.stored
  rw [h.payout] at hstored
  exact absurd hstored (by decide)

/-! ## In every run -/

namespace PayoutRange

/-- What a call knows of the odds it writes. -/
structure Known (o : ApiOp) : Prop where
  insert : ∀ d, o = .betSave d → OddsAdmitted d.oddsInt
  save : ∀ m, o = .marketSave m → OddsAdmitted m.oddsInt
  create : ∀ d, o = .marketCreate d → 101 ≤ d.oddsInt

/-- The odds of every market are admitted. -/
def Inv (s : Store) : Prop := ∀ id m, s.markets id = some m → OddsAdmitted m.oddsInt

theorem inv_exec {ch : ApiChoice} {o : ApiOp} {s s' : Store} {r : Except Err o.Res}
    (h : s.exec ch o = (r, s')) (hs : Inv s) (hk : Known o) : Inv s' := by
  have hset : ∀ {row : Market}, OddsAdmitted row.oddsInt → Inv (s.setMarket row) := by
    intro row hrow id m hm
    by_cases hid : id = row.id
    · subst hid
      obtain rfl : row = m := by simpa [Store.setMarket] using hm
      exact hrow
    · exact hs id m (by simpa [Store.setMarket, hid] using hm)
  cases o with
  | marketCreate d =>
    simp only [Store.exec] at h
    split at h
    · obtain ⟨-, rfl⟩ := Prod.mk.inj h
      exact hs
    · rename_i hfits
      split at h
      · obtain ⟨-, rfl⟩ := Prod.mk.inj h
        exact hs
      · obtain ⟨-, rfl⟩ := Prod.mk.inj h
        have hrow : fitsInteger d.oddsInt = true := by simpa using hfits
        exact hset ⟨hk.create d rfl, hrow⟩
  | marketSave m =>
    obtain ⟨-, rfl⟩ := Prod.mk.inj h
    refine hset ?_
    unfold Store.savedMarket
    split
    · rw [Market.save_oddsInt]
      exact hk.save m rfl
    · exact hk.save m rfl
  | _ =>
    rcases (Store.exec_effect h).markets_cases with he | ⟨d, ho, -, -⟩ | ⟨m, ho, -⟩
    · exact fun id m hm => hs id m (he ▸ hm)
    · exact absurd ho (by simp)
    · exact absurd ho (by simp)

/-- Every market has admitted odds, and every call writes such. -/
def knowledge : Knowledge api :=
  apiKnowledge (fun w => Inv w.state) (fun _ _ => True) (fun _ _ o _ => Known o)
    (fun _ _ _ _ _ _ => True) (fun _ => trivial) (fun _ _ => trivial)
    (fun hinv hK _ hx => by
      refine ⟨?_, trivial, fun _ _ _ _ hk => hk⟩
      obtain ⟨took, -, ⟨-, ch, a, hs⟩ | ⟨-, hs⟩⟩ := api_exec_cases hx
      · exact inv_exec hs hinv hK
      · exact fun id m hm => hinv id m (hs ▸ hm))
    fun hsame hinv => ⟨fun id m hm => hinv id m (hsame.markets ▸ hm), trivial, fun _ _ _ hk => hk⟩

/-! ### The calls -/

variable {i : Nat} {call : ApiCall}

/-- Operations that write no odds. -/
structure Harmless (o : ApiOp) : Prop where
  insert : ∀ d, o ≠ .betSave d
  save : ∀ m, o ≠ .marketSave m
  create : ∀ d, o ≠ .marketCreate d

theorem Harmless.known {o : ApiOp} (h : Harmless o) (w : World api) : knowledge.K i call o w :=
  ⟨fun d ho => absurd ho (h.insert d), fun m ho => absurd ho (h.save m),
    fun d ho => absurd ho (h.create d)⟩

theorem safe_getMarketById (id : Uuid) (w : World api) :
    knowledge.rules.Safe i call (fun r _ => ∀ m, r = .ok m → OddsAdmitted m.oddsInt)
      (MarketService.getMarketById id) w := by
  refine ApiRules.safe_getMarketById (Harmless.known (by constructor <;> simp) w) ?_
    fun e _ m h => absurd h (by simp)
  rintro m w₁ w₂ hinv hx - m' h
  obtain rfl := Except.ok.inj h
  exact hinv id m (api_marketFindOne_ok hx).1.symm

/-- A market row that was read, with another status, may be saved. -/
theorem known_save {m : Market} (h : OddsAdmitted m.oddsInt) (st : MarketStatus) :
    Known (.marketSave { m with status := st }) := by
  refine ⟨by simp, fun m' ho => ?_, by simp⟩
  obtain rfl := ApiOp.marketSave.inj ho
  exact h

theorem safe_placeNewBet (u : Uuid) (dto : PlaceBetDto) (w : World api) :
    knowledge.rules.Safe i call (fun _ _ => True) (BettingService.placeNewBet u dto) w := by
  unfold BettingService.placeNewBet MarketService.assertMarketOpen
  refine Rules.safe_bind.mpr (Rules.safe_seq (safe_getMarketById dto.marketId w) (fun m w hm => ?_)
    fun _ _ _ => trivial)
  split
  · trivial
  refine ApiRules.safe_then (P := Harmless) (fun _ => Harmless.known) (Api.all_wallet
    (Api.all_lookup_then (by constructor <;> simp) (by constructor <;> simp))) (fun _ w => ?_)
    fun _ _ => trivial
  have hknown : Known (.betSave (BettingService.newBet u dto m)) := by
    refine ⟨fun d ho => ?_, by simp, by simp⟩
    obtain rfl := ApiOp.betSave.inj ho
    exact hm m rfl
  refine ApiRules.safe_bind' (Knowledge.safe_op' hknown fun _ _ _ _ => trivial) fun bet w => ?_
  refine ApiRules.safe_then (P := Harmless) (fun _ => Harmless.known)
    (Api.all_op (by constructor <;> simp)) (fun _ w => ?_) fun _ _ => trivial
  exact ApiRules.safe_then (P := Harmless) (fun _ => Harmless.known)
    (Api.all_op (by constructor <;> simp)) (fun _ _ => trivial) fun _ _ => trivial

/-- `suspend` and `reopen` keep the odds. -/
theorem safe_updateStatus (id : Uuid) (st : MarketStatus) (w : World api) :
    knowledge.rules.Safe i call (fun _ _ => True) (MarketService.updateStatus id st) w := by
  refine Rules.safe_seq (safe_getMarketById id w) (fun m w hm => ?_) fun _ _ _ => trivial
  split
  · trivial
  refine ApiRules.safe_bind' (Knowledge.safe_op' (known_save (hm m rfl) st)
    fun _ _ _ _ => trivial) fun saved w => ?_
  exact ApiRules.safe_then (P := Harmless) (fun _ => Harmless.known)
    (Api.all_op (by constructor <;> simp)) (fun _ _ => trivial) fun _ _ => trivial

theorem harmless_settleBet (m : Market) (r : MarketResult) (b : Bet) :
    (MarketService.settleBet m r b).All Harmless := by
  exact all_settleBet (fun _ => by constructor <;> simp) (fun _ _ => by constructor <;> simp)
    (by constructor <;> simp) (by constructor <;> simp)

/-- So does `settle`. -/
theorem safe_settle (id : Uuid) (r : MarketResult) (w : World api) :
    knowledge.rules.Safe i call (fun _ _ => True) (MarketService.settle id r) w := by
  refine Rules.safe_seq (safe_getMarketById id w) (fun m w hm => ?_) fun _ _ _ => trivial
  split
  · trivial
  refine ApiRules.safe_then (P := Harmless) (fun _ => Harmless.known)
    (Api.all_op (by constructor <;> simp)) (fun bets w => ?_) fun _ _ => trivial
  refine ApiRules.safe_then (P := Harmless) (fun _ => Harmless.known)
    (Prog.All.forM fun b _ => harmless_settleBet m r b) (fun _ w => ?_) fun _ _ => trivial
  refine ApiRules.safe_bind' (Knowledge.safe_op' (known_save (hm m rfl) .SETTLED)
    fun _ _ _ _ => trivial) fun saved w => ?_
  exact ApiRules.safe_then (P := Harmless) (fun _ => Harmless.known)
    (Api.all_op (by constructor <;> simp)) (fun _ _ => trivial) fun _ _ => trivial

/-- Every call writes admitted odds only. -/
theorem safe_body (call : ApiCall) (w : World api) :
    knowledge.rules.Safe i call (fun _ _ => True) call.body w := by
  cases call with
  | placeBet u role dto =>
    refine ApiRules.safe_map (ApiRules.safe_placeBet (P := Harmless) (fun _ => Harmless.known)
      (fun _ _ => by constructor <;> simp) (fun _ => by constructor <;> simp)
      (fun _ _ => by constructor <;> simp) (safe_placeNewBet u dto) w)
  | createMarket dto =>
    have hknown : Known (.marketCreate ⟨dto.eventId, dto.name, dto.oddsInt, .OPEN⟩) := by
      refine ⟨by simp, by simp, fun d ho => ?_⟩
      obtain rfl := ApiOp.marketCreate.inj ho
      exact dto.min
    refine ApiRules.safe_map (ApiRules.safe_bind' (Knowledge.safe_op' hknown
      fun _ _ _ _ => trivial) fun saved w => ?_)
    exact ApiRules.safe_then (P := Harmless) (fun _ => Harmless.known)
      (Api.all_op (by constructor <;> simp)) (fun _ _ => trivial) fun _ _ => trivial
  | suspend id => exact ApiRules.safe_map (safe_updateStatus id .SUSPENDED w)
  | reopen id => exact ApiRules.safe_map (safe_updateStatus id .OPEN w)
  | settle id r => exact ApiRules.safe_map (safe_settle id r w)
  | getBalance u | deposit u dto | delivery tag p =>
    refine Knowledge.safe_of_known (fun _ => Harmless.known)
      ((body_footprint _).mono fun o ho => ?_) w
    cases ho <;> constructor <;> simp

/-- What holds in every run. -/
theorem reach {c : Config api} (hc : api.Reachable (api.init .empty) c) :
    Inv c.state ∧ ∀ i call o, c.Waits i call o → Known o := by
  have hgood := Knowledge.reach (D := knowledge) (fun _ => trivial) (fun _ _ _ _ => True)
    (fun _ _ _ _ _ _ _ _ _ _ => trivial) (fun _ _ _ _ _ _ h => h)
    (fun _ call w _ => safe_body call w)
    (fun _ _ h => absurd h (by simp [Store.empty])) hc
  exact ⟨hgood.1, fun i call o hw => hgood.2.1 i call o hw fun _ _ => trivial⟩

end PayoutRange

/-- **The insert after the debit** is rejected for its range exactly when stake times odds are too
much. -/
theorem api_insert_in_range_iff {c : Config api} (h : api.Reachable (api.init .empty) c) {i : Nat}
    {userId : Uuid} {role : Role} {dto : PlaceBetDto} {d : BetDraft} (id : Uuid)
    (hw : c.Waits i (.placeBet userId role dto) (.betSave d)) :
    c.state.rejectsBet id d ≠ some outOfRange ↔ dto.stakeCents * d.oddsInt < 100 * 2 ^ 31 := by
  have hknown := (PayoutRange.reach h).2 i _ _ hw
  have hfoot : Footprint (.placeBet userId role dto) (.betSave d) :=
    api.waits_all body_footprint h hw
  cases hfoot with
  | betSave _ _ _ m =>
    have hodds : OddsAdmitted m.oddsInt := hknown.insert _ rfl
    rw [Ne, rejectsBet_newBet dto hodds, not_le]
    rfl

end BoltBet
