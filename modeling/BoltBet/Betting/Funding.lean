import BoltBet.Api.Rules

/-!
# Funded bets

A bet is funded by a `DEBIT` row of its user and reference id with its stake. `placeBet` debits
before it inserts, but `debit` answers with any old row of the key and never compares amounts: a
call that debited and crashed can be retried with another stake (`api_unfunded_bet`).

* `safe_debit`: when the key's debits, if there are any, include the stake of the call, an
  answered `debit` leaves a row that funds it.
* `api_bets_funded`: in every run in which this holds at every lookup (`StakeMatches`), every bet
  is funded in every state.
-/

namespace BoltBet

open Async

namespace Store

/-- A `DEBIT` row of the user and reference id, with this amount. -/
def Debited (s : Store) (userId referenceId : Uuid) (amountCents : Int) : Prop :=
  ∃ tx ∈ s.wallet.rowsFor userId .DEBIT referenceId, tx.amountCents = amountCents

instance (s : Store) (u ref : Uuid) (a : Int) : Decidable (s.Debited u ref a) :=
  inferInstanceAs (Decidable (∃ tx ∈ _, _))

/-- Every bet is funded. -/
def BetsFunded (s : Store) : Prop :=
  ∀ b ∈ s.bets, s.Debited b.userId b.referenceId b.stakeCents

/-- Every ledger row of `s` is one of `s'`. -/
def TxsGrow (s s' : Store) : Prop :=
  s.wallet.walletTransactions ⊆ s'.wallet.walletTransactions

theorem Debited.grow {s s' : Store} (h : s.TxsGrow s') {u ref : Uuid} {a : Int}
    (hd : s.Debited u ref a) : s'.Debited u ref a := by
  obtain ⟨tx, htx, ha⟩ := hd
  obtain ⟨hmem, hm⟩ := List.mem_filter.mp htx
  exact ⟨tx, List.mem_filter.mpr ⟨h hmem, hm⟩, ha⟩

/-- One operation keeps the bets funded, if a bet it inserts is. -/
theorem Effect.betsFunded {ch : ApiChoice} {o : ApiOp} {s s' : Store} (h : Effect ch s o s')
    (hs : s.BetsFunded)
    (ho : ∀ d, o = .betSave d → s.Debited d.userId d.referenceId d.stakeCents) :
    s'.BetsFunded := by
  intro b' hb'
  have hgrow : s.TxsGrow s' := h.txs_grow.subset
  rcases h.bet_before hb' with ⟨b, hb, hsame⟩ | ⟨d, hd, -, rfl⟩
  · rw [hsame]
    exact (hs b hb).grow hgrow
  · exact (ho d hd).grow hgrow

end Store

/-- The key of the lookup of a `debit`. -/
def ApiOp.debitLookup? : ApiOp → Option (Uuid × Uuid)
  | .wallet (.query (.txFindOne u ref (some .DEBIT))) => some (u, ref)
  | _ => none

/-- The stake of a `placeBet` call. -/
def ApiCall.stake? : ApiCall → Option Int
  | .placeBet _ _ dto => some dto.stakeCents
  | _ => none

/-- When a `placeBet` looks for its debit: if its key has debits, one of them is of its stake. -/
def StakeMatches (s : Store) (call : ApiCall) (o : ApiOp) : Prop :=
  ∀ k ∈ o.debitLookup?, ∀ stake ∈ call.stake?,
    s.wallet.rowsFor k.1 .DEBIT k.2 = [] ∨ s.Debited k.1 k.2 stake

instance (s : Store) (call : ApiCall) (o : ApiOp) : Decidable (StakeMatches s call o) :=
  inferInstanceAs (Decidable (∀ k ∈ o.debitLookup?, ∀ stake ∈ call.stake?, _ ∨ _))

/-- **The condition**: every lookup of a debit that is answered matches the stake of its call. -/
def StakesMatch (c : Config api) : Event api → Prop
  | .run i (.ok _) => ∀ x ∈ c.waiting i, StakeMatches c.state x.1 x.2
  | _ => True

instance (c : Config api) : ∀ e, Decidable (StakesMatch c e)
  | .run i (.ok _) =>
    inferInstanceAs (Decidable (∀ x ∈ c.waiting i, StakeMatches c.state x.1 x.2))
  | .run _ (.fail _) => inferInstanceAs (Decidable True)
  | .run _ (.lost _ _) => inferInstanceAs (Decidable True)
  | .spawn _ _ => inferInstanceAs (Decidable True)
  | .crash _ => inferInstanceAs (Decidable True)
  | .env _ => inferInstanceAs (Decidable True)

namespace Funding

/-- What a thread knows before it inserts a bet: its debit is there. -/
def DebitDone (o : ApiOp) (w : World api) : Prop :=
  ∀ d, o = .betSave d → w.state.Debited d.userId d.referenceId d.stakeCents

/-- Bets are funded, and debits stay. -/
def knowledge : Knowledge api :=
  apiKnowledge (fun w => w.state.BetsFunded) (fun w w' => w.state.TxsGrow w'.state)
    (fun _ _ => DebitDone) (fun _ call o w r _ => (∃ a, r = .ok a) → StakeMatches w.state call o)
    (fun _ => List.Subset.refl _) List.Subset.trans
    (fun hinv hK _ hx => by
      obtain ⟨ch, he⟩ := api_exec_effect hx
      have hgrow := he.txs_grow.subset
      exact ⟨he.betsFunded hinv hK, hgrow, fun _ _ _ _ hd d ho => (hd d ho).grow hgrow⟩)
    fun {s s' l} hsame hinv => by
      have hgrow : s.TxsGrow s' := by
        unfold Store.TxsGrow
        rw [hsame.wallet]
        exact List.Subset.refl _
      refine ⟨fun b hb => ?_, hgrow, fun _ _ _ hd d ho => (hd d ho).grow hgrow⟩
      exact (hinv b (hsame.bets ▸ hb)).grow hgrow

/-- What does not insert a bet needs no knowledge. -/
def NoInsert (o : ApiOp) : Prop := ∀ d, o ≠ .betSave d

theorem NoInsert.known {o : ApiOp} (h : NoInsert o) (w : World api) : DebitDone o w :=
  fun d hd => absurd hd (h d)

variable {i : Nat}

/-- **An answered `debit` of a call whose stake matches leaves a row that funds its bet.** -/
theorem safe_debit {u : Uuid} {role : Role} {dto : PlaceBetDto} {d : Option String}
    (w : World api) : knowledge.rules.Safe i (.placeBet u role dto)
      (fun r w' => ∀ x, r = .ok x → w'.state.Debited u dto.clientMutationId dto.stakeCents)
      (Api.wallet (WalletService.debit u dto.stakeCents dto.clientMutationId d)) w := by
  rw [Api.wallet_debit]
  refine Rules.safe_bind.mpr (Knowledge.safe_op' (NoInsert.known (by simp [NoInsert]) w)
    fun {w₁ r w₂} _ hcond hx _ => ?_)
  rcases r with e | _ | tx
  · exact fun x h => absurd h (by simp)
  · refine Knowledge.safe_op' (NoInsert.known (by simp [NoInsert]) _)
      fun {w₃ r w₄} _ _ hx _ => ?_
    rintro x rfl
    obtain ⟨tx, hrows, hu, ht, ha, href⟩ := api_apply_ok hx
    refine ⟨tx, List.mem_filter.mpr ⟨?_, ?_⟩, ha⟩
    · rw [hrows]
      exact List.mem_append_right _ (List.mem_singleton_self tx)
    · simp [WalletTransaction.Matches, hu, ht, href]
  · rintro x -
    obtain ⟨htx, hs⟩ := api_lookup_some hx
    rw [hs]
    rcases hcond ⟨_, rfl⟩ _ rfl _ rfl with hnil | hd
    · exact absurd htx (by rw [hnil]; simp)
    · exact hd

theorem safe_placeNewBet {u : Uuid} {role : Role} {dto : PlaceBetDto} (w : World api) :
    knowledge.rules.Safe i (.placeBet u role dto) (fun _ _ => True)
      (BettingService.placeNewBet u dto) w := by
  unfold BettingService.placeNewBet
  refine ApiRules.safe_then (fun _ => NoInsert.known)
    (Api.all_assertMarketOpen (by simp [NoInsert])) (fun m w => ?_) fun _ _ => trivial
  refine Rules.safe_seq (safe_debit w) (fun x w hd => ?_) fun _ _ _ => trivial
  -- the debit is there by now, and stays until the insert
  have hdone : DebitDone (.betSave (BettingService.newBet u dto m)) w := by
    intro d h
    obtain rfl := ApiOp.betSave.inj h
    exact hd x rfl
  refine Rules.safe_bind.mpr (Knowledge.safe_op' hdone fun {w₁ r w₂} _ _ _ _ => ?_)
  cases r with
  | error e => trivial
  | ok bet =>
    refine ApiRules.safe_then (fun _ => NoInsert.known) (Api.all_op (by simp [NoInsert]))
      (fun _ w => ?_) fun _ _ => trivial
    exact ApiRules.safe_then (fun _ => NoInsert.known) (Api.all_op (by simp [NoInsert]))
      (fun _ _ => trivial) fun _ _ => trivial

/-- Every call is safe: only `placeBet` inserts bets. -/
theorem safe_body (call : ApiCall) (w : World api) :
    knowledge.rules.Safe i call (fun _ _ => True) call.body w := by
  by_cases h : ∃ u role dto, call = .placeBet u role dto
  · obtain ⟨u, role, dto, rfl⟩ := h
    exact ApiRules.safe_map (ApiRules.safe_placeBet (fun _ => NoInsert.known) (by simp [NoInsert])
      (by simp [NoInsert]) (by simp [NoInsert]) safe_placeNewBet w)
  · refine Knowledge.safe_of_known (fun _ => NoInsert.known) ((body_footprint call).mono ?_) w
    rintro o ho d rfl
    cases ho with
    | betSave u role dto m => exact h ⟨u, role, dto, rfl⟩

end Funding

/-- What the condition says of an operation that was answered. -/
theorem StakesMatch.answered {c : Config api} {i : Nat} {m : Mode ApiChoice Err} {call : ApiCall}
    {o : ApiOp} {r : Except Err o.Res} {w' : World api} (h : StakesMatch c (.run i m))
    (hw : c.Waits i call o) (hx : api.ExecIn (· = m) i call o c.toWorld r w')
    (hr : ∃ a, r = .ok a) : StakeMatches c.state call o := by
  obtain ⟨a, rfl⟩ := hr
  obtain ⟨ch, rfl⟩ := hx.ok_mode
  exact h (call, o) hw.waiting

/-- **Every bet is funded, in every run whose stakes match.** -/
theorem api_bets_funded {c : Config api} (h : api.Reach StakesMatch (api.init .empty) c) :
    c.state.BetsFunded :=
  (Knowledge.reach (D := Funding.knowledge) (fun _ => trivial) (fun _ _ _ _ => True)
    (fun _ _ _ _ _ _ _ hok hw hx => hok.answered hw hx) (fun _ _ _ _ _ _ h => h)
    (fun _ call w _ => Funding.safe_body call w)
    (fun _ hb => absurd hb (by simp [Store.empty])) h).1

/-- One bet, placed to the end: its stakes match. -/
theorem api_bets_funded_one : ∃ c, api.Reach StakesMatch (api.init .empty) c ∧
    c.state.bets.length = 1 ∧ c.state.BetsFunded := by
  obtain ⟨c, hr, hl⟩ : ∃ c, api.replay (api.init .empty) (openMarket ++
      .spawn 2 (bet100 2) :: proceed 2 8) = some c ∧
      c.state.bets.length = 1 := ⟨_, rfl, rfl⟩
  have h : api.Reach StakesMatch (api.init .empty) c := .of_meets .init hr (by decide)
  exact ⟨c, h, hl, api_bets_funded h⟩

/-- A call with stake 100 crashes after its debit; its retry with stake 900 finds that debit. -/
def retryWithOtherStake : List (Event api) :=
  openMarket ++ .spawn 2 (bet100 2) :: proceed 2 5 ++
  .crash 2 :: .spawn 3 (betOn50 900 2 (by decide) (by decide)) :: proceed 3 7

/-- A bet of 900 cents for a debit of 100 cents. -/
theorem api_unfunded_bet : ∃ c, api.Reachable (api.init .empty) c ∧ ¬ c.state.BetsFunded := by
  obtain ⟨c, hr, b, hb, hd⟩ : ∃ c, api.replay (api.init .empty) retryWithOtherStake = some c ∧
      ∃ b ∈ c.state.bets, ¬ c.state.Debited b.userId b.referenceId b.stakeCents :=
    ⟨_, rfl, by decide⟩
  exact ⟨c, .of_replay .init hr, fun h => hd (h b hb)⟩

end BoltBet
