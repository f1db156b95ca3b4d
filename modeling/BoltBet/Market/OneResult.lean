import BoltBet.Api.Rules

/-!
# Does a market have one result?

`settle` marks the market only after its loop over the bets, and the result is stored nowhere. Two
calls can both pass the guard and work on overlapping lists, or one can take over what another left
(`api_two_results`).

* `safe_settleBet`: a call works on bets of its market only, which it selected when no call of
  the other result had worked on the market.
* `api_one_result`: in every run in which `settle` calls of a market do not mix results
  (`SettlesAlone`), the market has one result.
-/

namespace BoltBet

open Async

/-- The market and the result of a `settle` call. -/
def ApiCall.settles? : ApiCall → Option (Uuid × MarketResult)
  | .settle marketId result => some (marketId, result)
  | _ => none

/-- Paying or settling a bet. -/
def ApiOp.works : ApiOp → Bool
  | .wallet (.applyTransaction _ .CREDIT _ _ _) => true
  | .betUpdate _ .SETTLED => true
  | _ => false

/-- Selecting the bets of a market. -/
def ApiOp.selects (marketId : Uuid) : ApiOp → Bool
  | .betFind id _ => id = marketId
  | _ => false

/-- The market an operation saves. -/
def ApiOp.saves? : ApiOp → Option Uuid
  | .marketSave m => some m.id
  | _ => none

/-- A bet of the market was paid or settled by a `settle` call of this result. -/
def WorkedOn (marketId : Uuid) (result : MarketResult) (x : Entry api) : Prop :=
  x.took = true ∧ x.op.works = true ∧ x.call.settles? = some (marketId, result)

/-- A bet of the market was paid or settled by a `settle` call of another result. -/
def WorkedAgainst (marketId : Uuid) (result : MarketResult) (x : Entry api) : Prop :=
  x.took = true ∧ x.op.works = true ∧ ∃ k ∈ x.call.settles?, k.1 = marketId ∧ k.2 ≠ result

instance (marketId : Uuid) (result : MarketResult) :
    DecidablePred (WorkedAgainst marketId result) :=
  fun _ => inferInstanceAs (Decidable (_ ∧ _ ∧ ∃ k ∈ _, _))

/-- Thread `i` selected the bets of the market. -/
def SelectedBy (i : Nat) (marketId : Uuid) (x : Entry api) : Bool :=
  x.tid = i && x.op.selects marketId

/-- A `settle` call selects bets of a market, pays them and settles them, while no call of another
result has done so: not before it selects them, and not since. Nobody saves a settled market. -/
def KeepsToOneResult (w : World api) (i : Nat) (call : ApiCall) (o : ApiOp) : Prop :=
  (∀ k ∈ call.settles?, o.selects k.1 = true → w.state.betsIn k.1 .ACCEPTED ≠ [] →
    ∀ x ∈ w.trace, ¬ WorkedAgainst k.1 k.2 x) ∧
  (∀ k ∈ call.settles?, o.works = true →
    ∀ x ∈ executedAfter (SelectedBy i k.1) w.trace, ¬ WorkedAgainst k.1 k.2 x) ∧
  ∀ id ∈ o.saves?, w.state.marketStatus id ≠ some .SETTLED

instance (w : World api) (i : Nat) (call : ApiCall) (o : ApiOp) :
    Decidable (KeepsToOneResult w i call o) :=
  inferInstanceAs (Decidable ((∀ k ∈ _, _ → _ → ∀ x ∈ _, _) ∧ (∀ k ∈ _, _ → ∀ x ∈ _, _) ∧
    ∀ id ∈ _, _))

/-- **The condition**, on the operations that take effect. -/
def SettlesAlone : Config api → Event api → Prop :=
  Config.WhenTook fun c i call o => KeepsToOneResult c.toWorld i call o

instance : ∀ c e, Decidable (SettlesAlone c e) :=
  fun c e => inferInstanceAs (Decidable (Config.WhenTook _ c e))

/-- The bet was moved to `SETTLED` under this result. -/
def SettledUnder (w : World api) (betId : Uuid) (result : MarketResult) : Prop :=
  ∃ x ∈ w.trace, x.took = true ∧ x.op = .betUpdate betId .SETTLED ∧
    x.before.betStatus betId ≠ some .SETTLED ∧ ∃ marketId, x.call = .settle marketId result

/-- **Every market has one result.** -/
structure OneResult (c : Config api) : Prop where
  /-- Two bets of a market are not settled under different results. -/
  settled : ∀ b ∈ c.state.bets, ∀ b' ∈ c.state.bets, b.marketId = b'.marketId → ∀ r r',
    SettledUnder c.toWorld b.id r → SettledUnder c.toWorld b'.id r' → r = r'
  /-- A bet reported as lost has no payout. -/
  reported : ∀ u betId name p, .BET_SETTLED u betId name .LOSS p ∈ c.state.notifications →
    ∀ tx ∈ c.state.wallet.walletTransactions, tx.type = .CREDIT → tx.referenceId ≠ some betId
  /-- At most one `settle` call of a market returns. -/
  returned : ∀ i j marketId r r' a a', c.Returned i (.settle marketId r) a →
    c.Returned j (.settle marketId r') a' → i = j

/-- The bet is one of the market. -/
def Store.BetOn (s : Store) (betId marketId : Uuid) : Prop :=
  ∃ b ∈ s.bets, b.id = betId ∧ b.marketId = marketId

/-- A bet is on one market. -/
theorem Store.BetIds.betOn_unique {s : Store} (h : s.BetIds) {betId m m' : Uuid}
    (hm : s.BetOn betId m) (hm' : s.BetOn betId m') : m = m' := by
  obtain ⟨b, hb, hid, rfl⟩ := hm
  obtain ⟨b', hb', hid', rfl⟩ := hm'
  have hbet := h.bet_of_mem hb
  have hbet' := h.bet_of_mem hb'
  rw [hid] at hbet
  rw [hid'] at hbet'
  rw [Option.some.inj (hbet.symm.trans hbet')]

/-- The market was saved as settled. -/
def SavedSettled (marketId : Uuid) (x : Entry api) : Prop :=
  x.took = true ∧ x.op.SavesMarket marketId (· = .SETTLED)

theorem WorkedOn.eq_of_not_against {m : Uuid} {r r' : MarketResult} {x : Entry api}
    (hx : WorkedOn m r' x) (hno : ¬ WorkedAgainst m r x) : r' = r := by
  by_contra hne
  exact hno ⟨hx.1, hx.2.1, (m, r'), hx.2.2, rfl, hne⟩

namespace OneResult

/-- What holds in every state. -/
structure Inv (w : World api) : Prop where
  betIds : w.state.BetIds
  marketIds : w.state.MarketIds
  one : ∀ x ∈ w.trace, ∀ y ∈ w.trace, ∀ m r r', WorkedOn m r x → WorkedOn m r' y → r = r'
  moved : ∀ x ∈ w.trace, ∀ id, x.took = true → x.op = .betUpdate id .SETTLED →
    ∃ m r, x.call = .settle m r ∧ w.state.BetOn id m
  lost : ∀ u id name p, .BET_SETTLED u id name .LOSS p ∈ w.state.notifications →
    ∃ m, w.state.BetOn id m ∧ ∃ x ∈ w.trace, WorkedOn m .LOSS x
  won : ∀ tx ∈ w.state.wallet.walletTransactions, tx.type = .CREDIT →
    ∃ id m, tx.referenceId = some id ∧ w.state.BetOn id m ∧ ∃ x ∈ w.trace, WorkedOn m .WIN x
  saved : ∀ x ∈ w.trace, ∀ m, SavedSettled m x → w.state.marketStatus m = some .SETTLED
  once : ∀ x ∈ w.trace, ∀ y ∈ w.trace, ∀ m, SavedSettled m x → SavedSettled m y → x.tid = y.tid

/-- Thread `i` selected bets of the market when no other result had been worked on. -/
def Clean (i : Nat) (m : Uuid) (r : MarketResult) (w : World api) : Prop :=
  ∃ l, l <:+ w.trace ∧ (∃ s ∈ l, SelectedBy i m s = true) ∧ ∀ x ∈ l, ¬ WorkedAgainst m r x

/-- What a call knows before an operation. -/
structure Known (i : Nat) (call : ApiCall) (o : ApiOp) (w : World api) : Prop where
  credit : ∀ u a ref desc, o = .wallet (.applyTransaction u .CREDIT a ref desc) →
    ∃ id m, call = .settle m .WIN ∧ ref = some id ∧ w.state.BetOn id m ∧ Clean i m .WIN w
  settle : ∀ id, o = .betUpdate id .SETTLED →
    ∃ m r, call = .settle m r ∧ w.state.BetOn id m ∧ Clean i m r w
  lost : ∀ u id name p, o = .publishNotification (.BET_SETTLED u id name .LOSS p) →
    ∃ m, w.state.BetOn id m ∧ ∃ x ∈ w.trace, WorkedOn m .LOSS x

section Later

variable {w w' : World api} (h : Later w w')
include h

theorem betOn_later {id m : Uuid} (hb : w.state.BetOn id m) : w'.state.BetOn id m := by
  obtain ⟨b, hb, rfl, rfl⟩ := hb
  obtain ⟨b', hb', hsame⟩ := h.bets b hb
  exact ⟨b', hb', hsame.id, hsame.marketId⟩

theorem clean_later {i : Nat} {m : Uuid} {r : MarketResult} (hc : Clean i m r w) :
    Clean i m r w' := by
  obtain ⟨l, hl, hrest⟩ := hc
  exact ⟨l, hl.trans h.trace, hrest⟩

theorem known_later {i : Nat} {call : ApiCall} {o : ApiOp} (hk : Known i call o w) :
    Known i call o w' where
  credit u a ref desc ho := by
    obtain ⟨id, m, hcall, href, hon, hclean⟩ := hk.credit u a ref desc ho
    exact ⟨id, m, hcall, href, betOn_later h hon, clean_later h hclean⟩
  settle id ho := by
    obtain ⟨m, r, hcall, hon, hclean⟩ := hk.settle id ho
    exact ⟨m, r, hcall, betOn_later h hon, clean_later h hclean⟩
  lost u id name p ho := by
    obtain ⟨m, hon, hx⟩ := hk.lost u id name p ho
    exact ⟨m, betOn_later h hon, h.past hx⟩

end Later

/-- Clean when it selected and since: clean. -/
theorem Clean.none_against {i : Nat} {m : Uuid} {r : MarketResult} {w : World api}
    (hc : Clean i m r w)
    (hsince : ∀ x ∈ executedAfter (SelectedBy i m) w.trace, ¬ WorkedAgainst m r x) :
    ∀ x ∈ w.trace, ¬ WorkedAgainst m r x := by
  obtain ⟨l, ⟨l', hl⟩, hsel, hno⟩ := hc
  rintro x hx
  rw [← hl] at hx hsince
  rcases List.mem_append.mp hx with hx | hx
  · exact hsince x (mem_executedAfter hsel hx)
  · exact hno x hx

/-! ## One operation -/

/-- The condition on an operation from `w` to `w'`. -/
def Kept (i : Nat) (call : ApiCall) (o : ApiOp) (w w' : World api) : Prop :=
  w'.trace = ⟨i, call, o, true, w.state⟩ :: w.trace → KeepsToOneResult w i call o

section Step

variable {i : Nat} {call : ApiCall} {o : ApiOp} {w w' : World api} {r : Except Err o.Res}

/-- Who works on a bet: a `settle` call against which nobody worked. -/
theorem known_works (hk : Known i call o w) (hcond : KeepsToOneResult w i call o)
    (ho : o.works = true) : ∃ m r, call = .settle m r ∧ ∀ x ∈ w.trace, ¬ WorkedAgainst m r x := by
  have hclean : ∃ m r, call = .settle m r ∧ Clean i m r w := by
    unfold ApiOp.works at ho
    split at ho
    · obtain ⟨id, m, hcall, -, -, hclean⟩ := hk.credit _ _ _ _ rfl
      exact ⟨m, .WIN, hcall, hclean⟩
    · obtain ⟨m, r, hcall, -, hclean⟩ := hk.settle _ rfl
      exact ⟨m, r, hcall, hclean⟩
    · exact absurd ho (by simp)
  obtain ⟨m, r, rfl, hclean⟩ := hclean
  exact ⟨m, r, rfl, hclean.none_against (hcond.2.1 (m, r) rfl ho)⟩

theorem one_exec (hx : api.Exec i call o w r w') (hinv : Inv w) (hk : Known i call o w)
    (hcond : Kept i call o w w') : ∀ x ∈ w'.trace, ∀ y ∈ w'.trace, ∀ m r r',
      WorkedOn m r x → WorkedOn m r' y → r = r' := by
  obtain ⟨took, htr⟩ := hx.entry
  -- the new entry agrees with every earlier one
  have hnew : ∀ m r r', WorkedOn m r (⟨i, call, o, took, w.state⟩ : Entry api) →
      ∀ y ∈ w.trace, WorkedOn m r' y → r' = r := by
    rintro m r r' ⟨htook, ho, hcall⟩ y hy hw
    obtain rfl : took = true := htook
    obtain ⟨m', r₀, rfl, hno⟩ := known_works hk (hcond htr) ho
    obtain ⟨rfl, rfl⟩ := Prod.mk.inj (Option.some.inj hcall)
    exact hw.eq_of_not_against (hno y hy)
  intro x hx y hy m r r' hwx hwy
  rw [htr] at hx hy
  rcases List.mem_cons.mp hx with rfl | hx
  · rcases List.mem_cons.mp hy with rfl | hy
    · exact congrArg Prod.snd (Option.some.inj (hwx.2.2.symm.trans hwy.2.2))
    · exact (hnew m r r' hwx y hy hwy).symm
  · rcases List.mem_cons.mp hy with rfl | hy
    · exact hnew m r' r hwy x hx hwx
    · exact hinv.one x hx y hy m r r' hwx hwy

theorem won_exec (hx : api.Exec i call o w r w') (hinv : Inv w) (hk : Known i call o w)
    {tx : WalletTransaction} (htx : tx ∈ w'.state.wallet.walletTransactions)
    (ht : tx.type = .CREDIT) : ∃ id m, tx.referenceId = some id ∧ w'.state.BetOn id m ∧
      ∃ x ∈ w'.trace, WorkedOn m .WIN x := by
  have hle := Later.exec hx
  have hold : tx ∈ w.state.wallet.walletTransactions → ∃ id m, tx.referenceId = some id ∧
      w'.state.BetOn id m ∧ ∃ x ∈ w'.trace, WorkedOn m .WIN x := by
    intro htx
    obtain ⟨id, m, href, hon, hw⟩ := hinv.won tx htx ht
    exact ⟨id, m, href, betOn_later hle hon, hle.past hw⟩
  obtain ⟨took, htr, ⟨rfl, ch, a, hs⟩ | ⟨-, hs⟩⟩ := api_exec_cases hx
  · rcases (Store.exec_effect hs).wallet_cases with hsame | ⟨o', r', rfl, hw⟩
    · exact hold (hsame ▸ htx)
    rcases WalletDb.exec_rows hw with ⟨hrows, -⟩ |
      ⟨u, t, a', ref, d, tx', rfl, -, rfl, rfl, rfl, rfl, hrows⟩
    · exact hold (hrows ▸ htx)
    rw [hrows, List.mem_append, List.mem_singleton] at htx
    rcases htx with htx | rfl
    · exact hold htx
    · obtain ⟨id, m, rfl, href, hon, -⟩ := hk.credit _ _ _ _ (by rw [ht])
      refine ⟨id, m, href, betOn_later hle hon, _, htr ▸ List.mem_cons_self, rfl, ?_, rfl⟩
      show ApiOp.works (.wallet (.applyTransaction _ tx.type _ _ _)) = true
      rw [ht]
      rfl
  · exact hold (hs ▸ htx)

/-- A save of a settled market is excluded, so settled markets stay settled. -/
theorem settled_exec (hx : api.Exec i call o w r w') (hcond : Kept i call o w w')
    {m : Uuid} (h : w.state.marketStatus m = some .SETTLED) :
    w'.state.marketStatus m = some .SETTLED := by
  obtain ⟨took, htr⟩ := hx.entry
  rcases api_status_cases hx htr m with he | ⟨d, -, hn, -⟩ | ⟨mk, rfl, rfl, rfl, -⟩
  · exact he.trans h
  · exact absurd (hn.symm.trans h) (by simp)
  · exact absurd h ((hcond htr).2.2 mk.id rfl)

theorem saved_exec (hx : api.Exec i call o w r w') (hinv : Inv w)
    (hcond : Kept i call o w w') : ∀ x ∈ w'.trace, ∀ m, SavedSettled m x →
      w'.state.marketStatus m = some .SETTLED := by
  obtain ⟨took, htr⟩ := hx.entry
  intro x hmem m hs
  rcases List.mem_cons.mp (htr ▸ hmem) with rfl | hmem
  · obtain ⟨st, hst, rfl⟩ := api_saved hx htr hs.1 hs.2
    exact hst
  · exact settled_exec hx hcond (hinv.saved x hmem m hs)

theorem once_exec (hx : api.Exec i call o w r w') (hinv : Inv w)
    (hcond : Kept i call o w w') : ∀ x ∈ w'.trace, ∀ y ∈ w'.trace, ∀ m,
      SavedSettled m x → SavedSettled m y → x.tid = y.tid := by
  obtain ⟨took, htr⟩ := hx.entry
  -- nobody saved the market before the new entry does
  have hnew : ∀ m, SavedSettled m (⟨i, call, o, took, w.state⟩ : Entry api) →
      ∀ y ∈ w.trace, ¬ SavedSettled m y := by
    rintro m ⟨htook, mk, rfl, rfl, -⟩ y hy hs
    obtain rfl : took = true := htook
    exact (hcond htr).2.2 mk.id rfl (hinv.saved y hy mk.id hs)
  intro x hx y hy m hsx hsy
  rw [htr] at hx hy
  rcases List.mem_cons.mp hx with rfl | hx
  · rcases List.mem_cons.mp hy with rfl | hy
    · rfl
    · exact absurd hsy (hnew m hsx y hy)
  · rcases List.mem_cons.mp hy with rfl | hy
    · exact absurd hsx (hnew m hsy x hx)
    · exact hinv.once x hx y hy m hsx hsy

/-- **One operation.** -/
theorem inv_exec (hx : api.Exec i call o w r w') (hinv : Inv w) (hk : Known i call o w)
    (hcond : Kept i call o w w') : Inv w' := by
  have hle := Later.exec hx
  obtain ⟨ch, he⟩ := api_exec_effect hx
  obtain ⟨took, htr⟩ := hx.entry
  refine ⟨he.betIds hinv.betIds, hinv.marketIds.effect he, one_exec hx hinv hk hcond, ?_, ?_,
    fun tx htx ht => won_exec hx hinv hk htx ht, saved_exec hx hinv hcond,
    once_exec hx hinv hcond⟩
  · intro x hmem id ht hop
    rcases List.mem_cons.mp (htr ▸ hmem) with rfl | hmem
    · obtain ⟨m, r, hcall, hon, -⟩ := hk.settle id hop
      exact ⟨m, r, hcall, betOn_later hle hon⟩
    · obtain ⟨m, r, hcall, hon⟩ := hinv.moved x hmem id ht hop
      exact ⟨m, r, hcall, betOn_later hle hon⟩
  · intro u id name p hn
    have hlost : ∃ m, w.state.BetOn id m ∧ ∃ x ∈ w.trace, WorkedOn m .LOSS x := by
      rcases he.notifications_cases with hsame | ⟨n, rfl, hpub⟩
      · exact hinv.lost u id name p (hsame ▸ hn)
      · rw [hpub, List.mem_append, List.mem_singleton] at hn
        rcases hn with hn | rfl
        · exact hinv.lost u id name p hn
        · exact hk.lost u id name p rfl
    obtain ⟨m, hon, hw⟩ := hlost
    exact ⟨m, betOn_later hle hon, hle.past hw⟩

end Step

/-- Starting a call, Redis and RabbitMQ change nothing of it. -/
theorem same_tables {s s' : Store} {l : List (Entry api)} (h : s.SameTables s')
    (hinv : Inv ⟨s, l⟩) : Inv ⟨s', l⟩ ∧ Later ⟨s, l⟩ ⟨s', l⟩ := by
  have hle : Later ⟨s, l⟩ ⟨s', l⟩ := .same h
  refine ⟨⟨?_, ?_, hinv.one, fun x hx id ht hop => ?_, fun u id name p hn => ?_,
    fun tx htx ht => ?_, fun x hx m hs => ?_, hinv.once⟩, hle⟩
  · exact h.betIds hinv.betIds
  · exact h.marketIds hinv.marketIds
  · obtain ⟨m, r, hcall, hon⟩ := hinv.moved x hx id ht hop
    exact ⟨m, r, hcall, betOn_later hle hon⟩
  · obtain ⟨m, hon, hw⟩ := hinv.lost u id name p (h.notifications ▸ hn)
    exact ⟨m, betOn_later hle hon, hw⟩
  · obtain ⟨id, m, href, hon, hw⟩ := hinv.won tx (h.wallet ▸ htx) ht
    exact ⟨id, m, href, betOn_later hle hon, hw⟩
  · exact (h.marketStatus m).trans (hinv.saved x hx m hs)

/-- Results do not mix, and every call knows what it needs for the next operation. -/
def knowledge : Knowledge api :=
  apiKnowledge Inv Later Known (fun i call o w _ w' => Kept i call o w w') .refl .trans
    (fun hinv hK hcond hx =>
      ⟨inv_exec hx hinv hK hcond, .exec hx, fun _ _ _ _ hk => known_later (.exec hx) hk⟩)
    fun hsame hinv =>
      ⟨(same_tables hsame hinv).1, (same_tables hsame hinv).2,
        fun _ _ _ hk => known_later (same_tables hsame hinv).2 hk⟩

/-! ## The calls -/

/-- Operations that need no knowledge. -/
structure Harmless (o : ApiOp) : Prop where
  works : o.works = false
  notify : ∀ u id name p, o ≠ .publishNotification (.BET_SETTLED u id name .LOSS p)

variable {i : Nat} {call : ApiCall} {market : Market} {id : Uuid} {result : MarketResult}
  {bets : List Bet} {b : Bet} {w : World api}

theorem Harmless.known {o : ApiOp} (h : Harmless o) (w : World api) : knowledge.K i call o w := by
  refine ⟨?_, ?_, fun u id name p ho => absurd ho (h.notify u id name p)⟩
  · rintro u a ref desc rfl
    exact absurd h.works (by simp [ApiOp.works])
  · rintro id rfl
    exact absurd h.works (by simp [ApiOp.works])

/-- What `settle` knows of the bets it works on. -/
def Selected (i : Nat) (id : Uuid) (result : MarketResult) (bets : List Bet) (w : World api) :
    Prop := ∀ b ∈ bets, w.state.BetOn b.id id ∧ Clean i id result w

theorem selected_lasts : knowledge.Lasts (Selected i id result bets) :=
  fun hle h b hb => ⟨betOn_later hle (h b hb).1, clean_later hle (h b hb).2⟩

theorem selected_of_betFind {w' : World api}
    (hcond : Kept i (.settle id result) (.betFind id .ACCEPTED) w w')
    (hx : api.Exec i (.settle id result) (.betFind id .ACCEPTED) w (.ok bets) w') :
    Selected i id result bets w' := by
  obtain ⟨hperm, hs⟩ := api_betFind_ok hx
  obtain ⟨-, -, htr⟩ := api_exec_ok hx
  intro b hb
  have hmem := hperm.subset hb
  obtain ⟨hbets, hsel⟩ := List.mem_filter.mp hmem
  obtain ⟨hid, -⟩ : b.marketId = id ∧ b.status = .ACCEPTED := by simpa using hsel
  refine ⟨⟨b, hs ▸ hbets, rfl, hid⟩, w'.trace, List.suffix_rfl,
    ⟨_, htr ▸ List.mem_cons_self, by simp [SelectedBy, ApiOp.selects]⟩, fun x hx => ?_⟩
  rcases List.mem_cons.mp (htr ▸ hx) with rfl | hx
  · exact fun h => absurd h.2.1 (by simp [ApiOp.works])
  · exact (hcond htr).1 (id, result) rfl (by simp [ApiOp.selects]) (List.ne_nil_of_mem hmem) x hx

theorem safe_creditPayout (hb : b ∈ bets) (hw : Selected i id result bets w) :
    knowledge.rules.Safe i (.settle id result) (fun _ => Selected i id result bets)
      (MarketService.creditPayout market result b) w := by
  cases result with
  | LOSS => exact hw
  | WIN =>
    unfold MarketService.creditPayout
    rw [Api.wallet_credit]
    refine Rules.safe_seq (Q := fun _ => Selected i id .WIN bets) ?_ (fun _ _ h => h)
      fun _ _ h => h
    refine Rules.safe_bind.mpr (Knowledge.safe_op selected_lasts hw
      (Harmless.known (by constructor <;> simp [ApiOp.works]) w) fun {w₁ r w₂} _ _ _ _ _ hw₂ => ?_)
    rcases r with e | _ | tx
    · exact hw₂
    · obtain ⟨hon, hclean⟩ := hw₂ b hb
      refine Knowledge.safe_op selected_lasts hw₂ ⟨fun u a ref desc h => ?_, by simp, by simp⟩
        fun _ _ _ _ _ h => h
      obtain ⟨-, -, -, href, -⟩ := WalletOp.applyTransaction.inj (ApiOp.wallet.inj h)
      exact ⟨b.id, id, rfl, href.symm, hon, hclean⟩
    · exact hw₂

/-- **One round of the loop of `settle`**: it works on a bet it selected, and reports what it
did. -/
theorem safe_settleBet (hb : b ∈ bets) (hw : Selected i id result bets w) :
    knowledge.rules.Safe i (.settle id result) (fun _ => Selected i id result bets)
      (MarketService.settleBet market result b) w := by
  refine Rules.safe_try (Q := fun _ => Selected i id result bets)
    (Rules.safe_seq (safe_creditPayout hb hw) (fun _ w hw => ?_) fun _ _ h => h)
    (fun _ _ h => h) fun _ _ h => h
  obtain ⟨hon, hclean⟩ := hw b hb
  have hknown : Known i (.settle id result) (.betUpdate b.id .SETTLED) w := by
    refine ⟨by simp, fun id' h => ?_, by simp⟩
    obtain rfl := (ApiOp.betUpdate.inj h).1
    exact ⟨id, result, rfl, hon, hclean⟩
  refine Rules.safe_bind.mpr (Knowledge.safe_op selected_lasts hw hknown
    fun {_ r w₂} _ _ _ hx _ hw₂ => ?_)
  cases r with
  | error e => exact hw₂
  | ok _ =>
    obtain ⟨-, -, htr⟩ := api_exec_ok hx
    refine Knowledge.safe_op selected_lasts hw₂ ⟨by simp, by simp, fun u id' name p h => ?_⟩
      fun _ _ _ _ _ h => h
    obtain ⟨rfl, rfl, -, rfl, -⟩ :=
      NotificationPayload.BET_SETTLED.inj (ApiOp.publishNotification.inj h)
    exact ⟨id, (hw₂ b hb).1, _, htr ▸ List.mem_cons_self, rfl, rfl, rfl⟩

/-- A call that returned saved its market. -/
def Post (i : Nat) (call : ApiCall) (r : Except Err ApiReply) (w : World api) : Prop :=
  ∀ m result a, call = .settle m result → r = .ok a → ∃ x ∈ w.trace, x.tid = i ∧ SavedSettled m x

theorem post_lasts (r : Except Err ApiReply) : knowledge.Lasts (Post i call r) :=
  fun hle h m result a hcall hr => hle.past (h m result a hcall hr)

/-- The result of a safe call is its program's, wrapped. -/
theorem safe_settle (id : Uuid) (result : MarketResult) (w : World api) :
    knowledge.rules.Safe i (.settle id result) (fun r w' => ∀ a, r = .ok a →
      ∃ x ∈ w'.trace, x.tid = i ∧ SavedSettled id x) (MarketService.settle id result) w := by
  have hthrow : ∀ (e : Err) (w' : World api) (a : MarketResponseDto),
      Except.error e = Except.ok a →
      ∃ x ∈ w'.trace, x.tid = i ∧ SavedSettled id x := fun _ _ _ h => absurd h (by simp)
  unfold MarketService.settle
  refine Rules.safe_bind.mpr (ApiRules.safe_getMarketById
    (Harmless.known (by constructor <;> simp [ApiOp.works]) w) (fun {m w₁ w₂} hinv hx _ => ?_)
    fun e w => hthrow e w)
  have hid : m.id = id := hinv.marketIds id m (api_marketFindOne_ok hx).1.symm
  dsimp only
  split
  · exact fun a h => absurd h (by simp)
  refine Rules.safe_bind.mpr (Knowledge.safe_op' (Harmless.known
    (by constructor <;> simp [ApiOp.works]) w₂) fun {w₁ r w₂} _ hcond hx _ => ?_)
  rcases r with e | bets
  · exact hthrow e w₂
  refine Rules.safe_seq (Q := fun _ _ => True) (Rules.safe_forM
    (J := Selected i id result bets) (fun b hb w hw => (safe_settleBet hb hw).mono ?_)
    (fun _ _ => trivial) (selected_of_betFind hcond hx)) (fun _ w _ => ?_) fun e w _ => hthrow e w
  · rintro (e | _) w h
    · trivial
    · exact h
  -- the save is the last but one operation, and its row stays in the past
  refine Rules.safe_bind.mpr (Knowledge.safe_op' (Harmless.known
    (by constructor <;> simp [ApiOp.works]) w) fun {_ r w₂} _ _ hx _ => ?_)
  cases r with
  | error e => exact hthrow e w₂
  | ok saved =>
    obtain ⟨-, -, htr⟩ := api_exec_ok hx
    have hsaved : ∃ x ∈ w₂.trace, x.tid = i ∧ SavedSettled id x :=
      ⟨_, htr ▸ List.mem_cons_self, rfl, rfl, { m with status := .SETTLED }, rfl, hid, rfl⟩
    have hlasts : knowledge.Lasts fun w : World api =>
        ∃ x ∈ w.trace, x.tid = i ∧ SavedSettled id x := fun hle h => hle.past h
    exact Rules.safe_seq (Knowledge.safe_of_all (P := Harmless)
      (Api.all_op (by constructor <;> simp [ApiOp.works])) (fun _ => Harmless.known) hlasts hsaved)
      (fun _ _ h _ _ => h) fun e w _ => hthrow e w

/-- Every call is safe: only `settle` pays, settles and reports bets. -/
theorem safe_body (call : ApiCall) (w : World api) :
    knowledge.rules.Safe i call (Post i call) call.body w := by
  by_cases hcall : ∃ id result, call = .settle id result
  · obtain ⟨id, result, rfl⟩ := hcall
    show knowledge.rules.Safe i _ _ (ApiReply.market <$> MarketService.settle id result) w
    rw [map_eq_pure_bind]
    refine Rules.safe_seq (safe_settle id result w) (fun a w h => ?_) fun e w _ => ?_
    · rintro m r _ hcall -
      obtain ⟨rfl, -⟩ := ApiCall.settle.inj hcall
      exact h a rfl
    · exact fun _ _ _ _ h => absurd h (by simp)
  · have hharmless : call.body.All Harmless := by
      refine (body_footprint call).mono fun o ho => ⟨?_, ?_⟩
      · cases ho <;> first | rfl | exact absurd ⟨_, _, rfl⟩ hcall
      · rintro u id name p rfl
        cases ho with
        | betSettled id r b name => exact hcall ⟨id, .LOSS, rfl⟩
    exact (Knowledge.safe_of_known (fun _ => Harmless.known) hharmless w).mono
      fun _ _ _ m result _ h => absurd ⟨m, result, h⟩ hcall

end OneResult

/-- **Every market has one result, in every run in which its settlements keep to one.** -/
theorem api_one_result {c : Config api} (h : api.Reach SettlesAlone (api.init .empty) c) :
    OneResult c := by
  obtain ⟨hinv, -, hpost⟩ := Knowledge.reach (D := OneResult.knowledge) (fun _ => trivial)
    OneResult.Post (fun _ _ _ _ _ _ _ hok hw hx => hok.run hw hx)
    (fun _ _ r => OneResult.post_lasts r) (fun _ call w _ => OneResult.safe_body call w)
    ⟨by simp [Store.BetIds, Store.empty], by simp [Store.MarketIds, Store.empty], by simp, by simp,
      by simp [Store.empty], by simp [Store.empty, WalletDb.empty], by simp, by simp⟩ h
  refine ⟨?_, ?_, ?_⟩
  · rintro b hb b' hb' hm r r' ⟨x, hx, ht, hop, -, m, hcall⟩ ⟨y, hy, ht', hop', -, m', hcall'⟩
    -- both calls are of the market of the bets
    have hmarket : ∀ {b : Bet} {x : Entry api} {m r}, b ∈ c.state.bets → x ∈ c.trace →
        x.took = true → x.op = .betUpdate b.id .SETTLED → x.call = .settle m r →
        WorkedOn b.marketId r x := by
      intro b x m r hb hx ht hop hcall
      obtain ⟨m₁, r₁, hcall₁, hon⟩ := hinv.moved x hx b.id ht hop
      obtain ⟨rfl, rfl⟩ := ApiCall.settle.inj (hcall.symm.trans hcall₁)
      obtain rfl := hinv.betIds.betOn_unique hon ⟨b, hb, rfl, rfl⟩
      exact ⟨ht, by rw [hop]; rfl, by rw [hcall]; rfl⟩
    exact hinv.one x hx y hy b.marketId r r' (hmarket hb hx ht hop hcall)
      (hm ▸ hmarket hb' hy ht' hop' hcall')
  · intro u betId name p hn tx htx ht href
    obtain ⟨m, hon, x, hx, hlost⟩ := hinv.lost u betId name p hn
    obtain ⟨id, m', href', hon', y, hy, hwon⟩ := hinv.won tx htx ht
    obtain rfl := Option.some.inj (href.symm.trans href')
    obtain rfl := hinv.betIds.betOn_unique hon hon'
    exact absurd (hinv.one x hx y hy m .LOSS .WIN hlost hwon) (by simp)
  · intro i j m r r' a a' hi hj
    obtain ⟨x, hx, rfl, hs⟩ := hpost i _ a hi m r a rfl rfl
    obtain ⟨y, hy, rfl, hs'⟩ := hpost j _ a' hj m r' a' rfl rfl
    exact hinv.once x hx y hy m hs hs'

/-- User 7 has two accepted bets on market 50, with the ids 100 and 101. -/
def twoAccepted : List (Event api) :=
  openMarket ++
  .spawn 2 (bet100 2) :: proceed 2 5 ++
  .run 2 (.ok { fresh := 100 }) :: proceed 2 2 ++
  .spawn 3 (bet100 3) :: proceed 3 5 ++
  .run 3 (.ok { fresh := 101 }) :: proceed 3 2 ++
  .spawn 4 (.delivery 0 ⟨100, 7, 50, 240, 100, 240⟩) :: proceed 4 3 ++
  .spawn 5 (.delivery 1 ⟨101, 7, 50, 240, 100, 240⟩) :: proceed 5 3

/-- The market is won. The call crashes after the first bet, and a second one of the same result
goes on with the other. -/
def settledOnce : List (Event api) :=
  twoAccepted ++ .spawn 6 (.settle 50 .WIN) :: proceed 6 6 ++
  .crash 6 :: .spawn 7 (.settle 50 .WIN) :: proceed 7 8

/-- Both bets are settled, and the second call returns. -/
theorem api_one_result_once : ∃ c, api.Reach SettlesAlone (api.init .empty) c ∧
    c.state.marketStatus 50 = some .SETTLED ∧ (c.result? 7).isSome ∧
    (∃ x ∈ c.trace, x.tid = 6 ∧ x.op = .betUpdate 100 .SETTLED) ∧
    (∃ x ∈ c.trace, x.tid = 7 ∧ x.op = .betUpdate 101 .SETTLED) ∧ OneResult c := by
  obtain ⟨c, hr, hst, hret, hfirst, hsecond⟩ : ∃ c,
      api.replay (api.init .empty) settledOnce = some c ∧
      c.state.marketStatus 50 = some .SETTLED ∧ (c.result? 7).isSome ∧
      (∃ x ∈ c.trace, x.tid = 6 ∧ x.op = .betUpdate 100 .SETTLED) ∧
      ∃ x ∈ c.trace, x.tid = 7 ∧ x.op = .betUpdate 101 .SETTLED :=
    ⟨_, rfl, rfl, rfl, by decide, by decide⟩
  have h : api.Reach SettlesAlone (api.init .empty) c := .of_meets .init hr (by decide)
  exact ⟨c, h, hst, hret, hfirst, hsecond, api_one_result h⟩

/-- A settlement as won selects both bets and settles the first; one as lost settles the second;
then the first goes on. -/
def settledTwice : List (Event api) :=
  twoAccepted ++ .spawn 6 (.settle 50 .WIN) :: proceed 6 6 ++
  .spawn 7 (.settle 50 .LOSS) :: proceed 7 6 ++ proceed 6 6

/-- The two bets are settled under different results, the lost one is paid, and both calls
return. -/
theorem api_two_results : ∃ c, api.Reachable (api.init .empty) c ∧
    SettledUnder c.toWorld 100 .WIN ∧ SettledUnder c.toWorld 101 .LOSS ∧
    (∃ a a', c.Returned 6 (.settle 50 .WIN) a ∧ c.Returned 7 (.settle 50 .LOSS) a') ∧
    ¬ OneResult c := by
  obtain ⟨c, hr, hwon, hlost, ⟨a, a', ha, ha'⟩⟩ : ∃ c,
      api.replay (api.init .empty) settledTwice = some c ∧
      (∃ x ∈ c.trace, x.took = true ∧ x.op = .betUpdate 100 .SETTLED ∧
        x.before.betStatus 100 ≠ some .SETTLED ∧ x.call = .settle 50 .WIN) ∧
      (∃ x ∈ c.trace, x.took = true ∧ x.op = .betUpdate 101 .SETTLED ∧
        x.before.betStatus 101 ≠ some .SETTLED ∧ x.call = .settle 50 .LOSS) ∧
      ∃ a a', c.Returned 6 (.settle 50 .WIN) a ∧ c.Returned 7 (.settle 50 .LOSS) a' := by
    exact ⟨_, rfl, by decide, by decide, _, _, rfl, rfl⟩
  obtain ⟨x, hx, ht, hop, hst, hcall⟩ := hwon
  obtain ⟨y, hy, ht', hop', hst', hcall'⟩ := hlost
  refine ⟨c, .of_replay .init hr, ⟨x, hx, ht, hop, hst, 50, hcall⟩,
    ⟨y, hy, ht', hop', hst', 50, hcall'⟩, ⟨a, a', ha, ha'⟩, fun h => ?_⟩
  exact absurd (h.returned 6 7 50 _ _ a a' ha ha') (by simp)

end BoltBet
