import BoltBet.Api.Footprint
import BoltBet.Api.Tables
import BoltBet.Async.Alone

/-!
# Does a failed placement take no money?

`placeBet` debits in a transaction of its own and inserts the bet afterwards. When the insert
does not happen, nothing gives the stake back (`api_stake_lost`).

* `insert_throws`, `debit_throws`, `placeBet_throws`: what a throwing run did, from the last step
  backwards.
* `api_failed_placement_iff`: a placement that throws took no money exactly when it did not lose its
  stake (`LosesStake`): a condition on the state before the call and on how its operations end.
-/

namespace BoltBet

open Async BettingService

/-- The range of a column, as a proposition. -/
abbrev FitsInteger (n : Int) : Prop := fitsInteger n = true

/-- The call gets as far as its debit, and the balance covers it. -/
structure WouldDebit (s : Store) (userId : Uuid) (userRole : Role) (dto : PlaceBetDto)
    (market : Market) : Prop where
  role : userRole ≠ .ADMIN
  uncached : ∀ id, s.idempotency userId dto.clientMutationId = some id → s.bet id = none
  unknown : s.betOf userId dto.clientMutationId = none
  found : s.markets dto.marketId = some market
  isOpen : market.status = .OPEN
  first : s.wallet.rowsFor userId .DEBIT dto.clientMutationId = []
  funds : dto.stakeCents ≤ s.wallet.balanceOf userId
  range : FitsInteger (s.wallet.balanceOf userId - dto.stakeCents)

/-- The operations before the debit: the cache, the cached bet, the lookup of the mutation id, the
market, the lookup of an old debit. -/
def readsBeforeDebit (s : Store) (userId : Uuid) (dto : PlaceBetDto) : Nat :=
  if (s.idempotency userId dto.clientMutationId).isSome then 5 else 4

/-- The insert does not happen: it does not reach Postgres, or Postgres rejects the row. -/
def InsertFails (s : Store) (userId : Uuid) (dto : PlaceBetDto) (market : Market) :
    Mode ApiChoice Err → Prop
  | .fail _ => True
  | .ok ch => (s.rejectsBet ch.fresh (newBet userId dto market)).isSome
  | .lost ch _ => (s.rejectsBet ch.fresh (newBet userId dto market)).isSome

/-- How the debit and what follows end: the debit commits and its answer is lost, or it answers
and the insert does not happen. -/
def CommitsThenFails (s : Store) (userId : Uuid) (dto : PlaceBetDto) (market : Market) :
    List (Mode ApiChoice Err) → Prop
  | [.lost _ _] => True
  | [.ok _, m] => InsertFails s userId dto market m
  | _ => False

/-- **The placement loses the stake.** -/
def LosesStake (s : Store) (userId : Uuid) (userRole : Role) (dto : PlaceBetDto)
    (ms : List (Mode ApiChoice Err)) : Prop :=
  ∃ market, WouldDebit s userId userRole dto market ∧
    CommitsThenFails s userId dto market (ms.drop (readsBeforeDebit s userId dto))

/-- **No money was taken**: the ledger and the balance of the user are as before, or there is a bet
of the mutation id, with the amount that left the balance as its stake. -/
def NothingTaken (s s' : Store) (userId : Uuid) (dto : PlaceBetDto) : Prop :=
  (s'.wallet.rowsOf userId = s.wallet.rowsOf userId ∧
    s'.wallet.balanceOf userId = s.wallet.balanceOf userId) ∨
  ∃ b ∈ s'.bets, b.userId = userId ∧ b.referenceId = dto.clientMutationId ∧
    b.stakeCents = s.wallet.balanceOf userId - s'.wallet.balanceOf userId

namespace FailedPlacement

variable {i : Nat} {s s' : Store} {ms : List (Mode ApiChoice Err)} {e : Err} {u : Uuid}
  {role : Role} {dto : PlaceBetDto} {market : Market} {α : Type}

/-- A read that is part of a throwing run: it ended the run, or it answered what it read. -/
theorem read_throws {o : ApiOp} (v : ApiChoice → o.Res)
    (hread : ∀ ch, s.exec ch o = (.ok (v ch), s))
    {f : o.Res → Prog ApiSig α}
    (h : api.Runs i (Prog.perform (S := ApiSig) o >>= f) s ms (some (.error e)) s') :
    (s' = s ∧ ∃ m, ms = [m]) ∨
    ∃ ch ms', ms = .ok ch :: ms' ∧ api.Runs i (f (v ch)) s ms' (some (.error e)) s' := by
  rcases h.throw_cases with ⟨m, took, rfl, ha⟩ | ⟨ch, a, s₁, ms', rfl, hx, hf⟩
  · refine .inl ⟨?_, m, rfl⟩
    rcases api_answer_cases ha with ⟨ch, -, hx⟩ | ⟨e', -, -, rfl⟩ | ⟨ch, e', -, -, rfl⟩
    · exact absurd (Prod.mk.inj ((hread ch).symm.trans hx)).1 (by simp)
    · rfl
    · exact congrArg Prod.snd (hread ch)
  · obtain ⟨rfl, rfl⟩ : v ch = a ∧ s = s₁ := by simpa [hread] using hx
    exact .inr ⟨ch, ms', rfl, hf⟩

/-! ## The insert -/

/-- Steps 5 to 7 of `placeBet`. -/
def insertBet (userId : Uuid) (dto : PlaceBetDto) (market : Market) :
    Prog ApiSig BetResponseDto := do
  let bet ← Api.betSave (newBet userId dto market)
  Api.redisSet userId dto.clientMutationId bet.id
  Api.publishBetPlacement (placementOf bet)
  return bet.toDto

/-- The bet of the call is there. -/
def Inserted (s : Store) (u : Uuid) (dto : PlaceBetDto) : Prop :=
  ∃ b ∈ s.bets, b.userId = u ∧ b.referenceId = dto.clientMutationId ∧ b.stakeCents = dto.stakeCents

/-- A bet that is inserted is the one of the call. -/
theorem inserted_addBet (s : Store) (u : Uuid) (dto : PlaceBetDto) (market : Market)
    (ch : ApiChoice) :
    Inserted (s.addBet ((newBet u dto market).row ch.fresh ch.now)) u dto :=
  ⟨_, List.mem_append_right _ (List.mem_singleton_self _), rfl, rfl, rfl⟩

/-- What follows the insert changes neither wallets nor bets. -/
theorem afterInsert_keeps {b : Bet} {x : Option (Except Err BetResponseDto)}
    (h : api.Runs i (do
      Api.redisSet u dto.clientMutationId b.id
      Api.publishBetPlacement (placementOf b)
      return b.toDto) s ms x s') : s'.wallet = s.wallet ∧ s'.bets = s.bets := by
  refine Machine.Runs.keeps (P := fun o : ApiOp => (∀ o', o ≠ .wallet o') ∧
    (∀ d, o ≠ .betSave d) ∧ ∀ id st, o ≠ .betUpdate id st)
    (J := fun s₁ : Store => s₁.wallet = s.wallet ∧ s₁.bets = s.bets) ?_ ?_ h ⟨rfl, rfl⟩
  · refine Prog.All.bind (Api.all_op (by simp)) fun _ => ?_
    exact Prog.All.bind (Api.all_op (by simp)) fun _ => trivial
  · rintro o m r s₁ s₂ took ⟨hwallet, hsave, hupdate⟩ ⟨hw, hb⟩ ha
    obtain ⟨ch, he⟩ := api_answer_effect ha
    constructor
    · rcases he.wallet_cases with hw' | ⟨o', -, ho, -⟩
      · exact hw'.trans hw
      · exact absurd ho (hwallet o')
    · rcases he.bets_cases with hb' | ⟨d, ho, -⟩ | ⟨id, st, ho, -⟩
      · exact hb'.trans hb
      · exact absurd ho (hsave d)
      · exact absurd ho (hupdate id st)

/-- **A throwing run from the insert on** leaves the wallets alone; it inserted the bet, or its
first operation failed to. -/
theorem insert_throws (h : api.Runs i (insertBet u dto market) s ms (some (.error e)) s') :
    s'.wallet = s.wallet ∧
    (s'.bets = s.bets ∧ (∃ m, ms = [m] ∧ InsertFails s u dto market m) ∨
      Inserted s' u dto ∧ ∀ m, ms = [m] → ¬ InsertFails s u dto market m) := by
  rcases h.throw_cases with ⟨m, took, rfl, ha⟩ | ⟨ch, a, s₁, ms', rfl, hx, hf⟩
  · rcases api_answer_cases ha with ⟨ch, rfl, hx⟩ | ⟨e', rfl, -, rfl⟩ | ⟨ch, e', rfl, -, rfl⟩
    · rcases s.exec_betSave ch (newBet u dto market) with ⟨err, hrej, hx'⟩ | ⟨hrej, hx'⟩
      · obtain ⟨-, rfl⟩ := Prod.mk.inj (hx'.symm.trans hx)
        exact ⟨rfl, .inl ⟨rfl, _, rfl, by simp [InsertFails, hrej]⟩⟩
      · exact absurd (Prod.mk.inj (hx'.symm.trans hx)).1 (by simp)
    · exact ⟨rfl, .inl ⟨rfl, _, rfl, trivial⟩⟩
    · rcases s.exec_betSave ch (newBet u dto market) with ⟨err, hrej, hx'⟩ | ⟨hrej, hx'⟩
      · rw [hx']
        exact ⟨rfl, .inl ⟨rfl, _, rfl, by simp [InsertFails, hrej]⟩⟩
      · rw [hx']
        refine ⟨rfl, .inr ⟨inserted_addBet s u dto market ch, fun m hm => ?_⟩⟩
        obtain rfl := List.singleton_inj.mp hm
        simp [InsertFails, hrej]
  · rcases s.exec_betSave ch (newBet u dto market) with ⟨err, hrej, hx'⟩ | ⟨hrej, hx'⟩
    · simp [hx'] at hx
    · obtain ⟨rfl, rfl⟩ : _ = a ∧ _ = s₁ := by simpa [hx'] using hx
      obtain ⟨hw, hb⟩ := afterInsert_keeps hf
      refine ⟨hw, .inr ⟨?_, fun m hm => ?_⟩⟩
      · obtain ⟨b, hmem, hrest⟩ := inserted_addBet s u dto market ch
        exact ⟨b, hb ▸ hmem, hrest⟩
      · obtain rfl := (List.cons.inj hm).1
        simp [InsertFails, hrej]

/-! ## The debit -/

/-- The debit itself, and what follows it. -/
def debitAndInsert (userId : Uuid) (dto : PlaceBetDto) (market : Market) :
    Prog ApiSig BetResponseDto := do
  let _ ← Prog.perform (S := ApiSig) (.wallet (.applyTransaction userId .DEBIT dto.stakeCents
    (some dto.clientMutationId) s!"Bet on market {market.name}"))
  insertBet userId dto market

/-- The balance covers the stake. -/
def Covers (s : Store) (u : Uuid) (dto : PlaceBetDto) : Prop :=
  dto.stakeCents ≤ s.wallet.balanceOf u ∧ FitsInteger (s.wallet.balanceOf u - dto.stakeCents)

/-- A debit commits exactly when the balance covers it. -/
theorem exec_debit (s : Store) (u : Uuid) (dto : PlaceBetDto) (ch : ApiChoice) (d : String) :
    (∃ err, ¬ Covers s u dto ∧ s.exec ch (.wallet (.applyTransaction u .DEBIT dto.stakeCents
        (some dto.clientMutationId) d)) = (.error err, s)) ∨
    ∃ x s₁, Covers s u dto ∧ s.exec ch (.wallet (.applyTransaction u .DEBIT dto.stakeCents
        (some dto.clientMutationId) d)) = (.ok x, s₁) ∧ s₁.bets = s.bets ∧
      s₁.wallet.balanceOf u = s.wallet.balanceOf u - dto.stakeCents := by
  have hstake : fitsInteger dto.stakeCents = true := by
    have hmin := dto.min
    have hmax := dto.max
    simp only [fitsInteger, Bool.and_eq_true, decide_eq_true_eq]
    omega
  simp only [Store.exec, WalletDb.exec, WalletDb.applyAtomic, WalletDb.balanceOf_getD,
    WalletDb.newBalance]
  by_cases hfunds : s.wallet.balanceOf u < dto.stakeCents
  · rw [if_pos hfunds]
    refine .inl ⟨_, fun h => ?_, rfl⟩
    have := h.1
    omega
  rw [if_neg hfunds]
  by_cases hfit : fitsInteger (s.wallet.balanceOf u - dto.stakeCents) = true
  · have hcovers : Covers s u dto := ⟨by omega, hfit⟩
    simp only [hfit, hstake, Bool.and_self, if_true]
    exact .inr ⟨_, _, hcovers, rfl, rfl, WalletDb.balanceOf_setWallet_self ..⟩
  · simp only [hfit, Bool.false_and]
    exact .inl ⟨_, fun h => hfit h.2, rfl⟩

/-- What a throwing run from the debit on left: nothing, a bet, or a debit without a bet. -/
inductive Left (s s' : Store) (u : Uuid) (dto : PlaceBetDto) (lost : Prop) : Prop
  | unpaid (wallet : s'.wallet = s.wallet) (h : ¬ lost)
  | placed (balance : s'.wallet.balanceOf u = s.wallet.balanceOf u - dto.stakeCents)
      (bet : Inserted s' u dto) (h : ¬ lost)
  | lost (balance : s'.wallet.balanceOf u = s.wallet.balanceOf u - dto.stakeCents)
      (bets : s'.bets = s.bets) (h : lost)

/-- After a debit that answered, only the insert is left to fail. -/
theorem commits_then {ch : ApiChoice} (h : CommitsThenFails s u dto market (.ok ch :: ms)) :
    ∃ m, ms = [m] ∧ InsertFails s u dto market m := by
  rcases ms with _ | ⟨m, _ | ⟨m', ms⟩⟩
  · exact h.elim
  · exact ⟨m, rfl, h⟩
  · exact h.elim

theorem debit_throws (h : api.Runs i (debitAndInsert u dto market) s ms (some (.error e)) s') :
    Left s s' u dto (Covers s u dto ∧ CommitsThenFails s u dto market ms) := by
  have hexec := exec_debit s u dto
  rcases h.throw_cases with ⟨m, took, rfl, ha⟩ | ⟨ch, a, s₁, ms', rfl, hx, hf⟩
  · rcases api_answer_cases ha with ⟨ch, rfl, hx⟩ | ⟨e', rfl, -, rfl⟩ | ⟨ch, e', rfl, -, rfl⟩
    · rcases hexec ch s!"Bet on market {market.name}" with ⟨err, hno, hx'⟩ | ⟨x, s₁, -, hx', -⟩
      · obtain ⟨-, rfl⟩ := Prod.mk.inj (hx'.symm.trans hx)
        exact .unpaid rfl fun h => hno h.1
      · exact absurd (Prod.mk.inj (hx'.symm.trans hx)).1 (by simp)
    · exact .unpaid rfl fun h => h.2
    · rcases hexec ch s!"Bet on market {market.name}" with
        ⟨err, hno, hx'⟩ | ⟨x, s₁, hcovers, hx', hbets, hbal⟩
      · rw [hx']
        exact .unpaid rfl fun h => hno h.1
      · rw [hx']
        exact .lost hbal hbets ⟨hcovers, trivial⟩
  · rcases hexec ch s!"Bet on market {market.name}" with
      ⟨err, -, hx'⟩ | ⟨x, s₂, hcovers, hx', hbets, hbal⟩
    · simp [hx'] at hx
    obtain ⟨-, rfl⟩ : _ ∧ s₂ = s₁ := by simpa [hx'] using hx
    -- the debit committed; from here the insert decides
    have hfails : ∀ m, InsertFails s₂ u dto market m ↔ InsertFails s u dto market m := by
      intro m
      cases m <;> simp [InsertFails, Store.rejectsBet, hbets]
    obtain ⟨hwallet, ⟨hb, m, rfl, hm⟩ | ⟨hins, hm⟩⟩ := insert_throws hf
    · refine .lost (hwallet ▸ hbal) (hb.trans hbets) ⟨hcovers, ?_⟩
      exact (hfails m).mp hm
    · refine .placed (hwallet ▸ hbal) hins fun h => ?_
      obtain ⟨m, rfl, hlost⟩ := commits_then h.2
      exact hm m rfl ((hfails m).mpr hlost)

/-! ## The whole placement -/

/-- `placeNewBet`, operation by operation. -/
theorem placeNewBet_eq (u : Uuid) (dto : PlaceBetDto) :
    placeNewBet u dto = (do
      match ← Prog.perform (S := ApiSig) (.marketFindOne dto.marketId) with
      | none => .throw (.NotFoundException s!"Market {dto.marketId} not found")
      | some market =>
        if market.status ≠ .OPEN then
          .throw (.UnprocessableEntityException
            s!"Market {dto.marketId} is {market.status} — bets are not accepted")
        else
          match ← Prog.perform (S := ApiSig)
              (.wallet (.query (.txFindOne u dto.clientMutationId (some .DEBIT)))) with
          | some _ => insertBet u dto market
          | none => debitAndInsert u dto market) := by
  unfold placeNewBet MarketService.assertMarketOpen MarketService.getMarketById
  rw [LawfulMonad.bind_assoc, LawfulMonad.bind_assoc]
  refine bind_congr fun found => ?_
  cases found with
  | none => rfl
  | some market =>
    simp only [Prog.pure_eq, Prog.ret_bind]
    split
    · rfl
    · rw [Prog.ret_bind, Api.wallet_debit, LawfulMonad.bind_assoc]
      refine bind_congr fun existing => ?_
      cases existing <;> rfl

theorem placeNewBet_throws (h : api.Runs i (placeNewBet u dto) s ms (some (.error e)) s') :
    Left s s' u dto (∃ market, s.markets dto.marketId = some market ∧ market.status = .OPEN ∧
      s.wallet.rowsFor u .DEBIT dto.clientMutationId = [] ∧ Covers s u dto ∧
      CommitsThenFails s u dto market (ms.drop 2)) := by
  rw [placeNewBet_eq] at h
  rcases read_throws (fun _ => s.markets dto.marketId) (fun _ => rfl) h with
    ⟨rfl, m, rfl⟩ | ⟨ch, ms', rfl, h₁⟩
  · exact .unpaid rfl fun ⟨_, _, _, _, _, hlost⟩ => hlost
  cases hfound : s.markets dto.marketId with
  | none =>
    rw [hfound] at h₁
    obtain ⟨-, -, rfl⟩ := Machine.runs_throw.mp h₁
    exact .unpaid rfl fun ⟨_, hm, _⟩ => by simp at hm
  | some market =>
    rw [hfound] at h₁
    dsimp only at h₁
    split at h₁
    · rename_i hopen
      obtain ⟨-, -, rfl⟩ := Machine.runs_throw.mp h₁
      refine .unpaid rfl fun ⟨m, hm, hst, _⟩ => hopen ?_
      rw [Option.some.inj hm]
      exact hst
    rename_i hopen
    rcases read_throws (fun ch => pickOne ch.pick (s.wallet.rowsFor u .DEBIT dto.clientMutationId))
      (fun _ => rfl) h₁ with ⟨rfl, m, rfl⟩ | ⟨ch', ms, rfl, h₂⟩
    · exact .unpaid rfl fun ⟨_, _, _, _, _, hlost⟩ => hlost
    cases hpick : pickOne ch'.pick (s.wallet.rowsFor u .DEBIT dto.clientMutationId) with
    | some tx =>
      rw [hpick] at h₂
      refine .unpaid (insert_throws h₂).1 fun ⟨_, _, _, hrows, _⟩ => ?_
      have hmem := pickOne_mem hpick
      rw [hrows] at hmem
      exact absurd hmem (by simp)
    | none =>
      rw [hpick] at h₂
      have hiff : (∃ m, some market = some m ∧ m.status = .OPEN ∧
          s.wallet.rowsFor u .DEBIT dto.clientMutationId = [] ∧ Covers s u dto ∧
          CommitsThenFails s u dto m ms) ↔
          Covers s u dto ∧ CommitsThenFails s u dto market ms := by
        constructor
        · rintro ⟨m, hm, -, -, hlost⟩
          obtain rfl := Option.some.inj hm
          exact hlost
        · exact fun hlost => ⟨market, rfl, not_not.mp hopen, pickOne_eq_none hpick, hlost⟩
      have hleft := debit_throws h₂
      rw [← hiff] at hleft
      exact hleft

/-- A placement that ends before its debit loses nothing. -/
theorem not_losesStake (hlen : ms.length ≤ readsBeforeDebit s u dto) :
    ¬ LosesStake s u role dto ms := by
  rintro ⟨market, -, hlost⟩
  rw [List.drop_eq_nil_of_le hlen] at hlost
  exact hlost

/-- The lookup of the mutation id and what follows, once the cache has been read. -/
theorem lookupOrPlace_throws {ms' : List (Mode ApiChoice Err)}
    (h : api.Runs i (lookupOrPlace u dto) s ms' (some (.error e)) s') (hrole : role ≠ .ADMIN)
    (hcached : ∀ id, s.idempotency u dto.clientMutationId = some id → s.bet id = none)
    (hdrop : ms.drop (readsBeforeDebit s u dto) = ms'.drop 3)
    (hlen : ms'.length ≤ 1 → ms.length ≤ readsBeforeDebit s u dto) :
    Left s s' u dto (LosesStake s u role dto ms) := by
  rcases read_throws (fun _ => s.betOf u dto.clientMutationId) (fun _ => rfl) h with
    ⟨rfl, m, rfl⟩ | ⟨ch, ms₁, rfl, h₁⟩
  · exact .unpaid rfl (not_losesStake (hlen (by simp)))
  cases hunknown : s.betOf u dto.clientMutationId with
  | some b =>
    rw [hunknown] at h₁
    exact absurd (Machine.runs_ret.mp h₁).2.1 (by simp)
  | none =>
    rw [hunknown] at h₁
    have hiff : LosesStake s u role dto ms ↔ ∃ market, s.markets dto.marketId = some market ∧
        market.status = .OPEN ∧ s.wallet.rowsFor u .DEBIT dto.clientMutationId = [] ∧
        Covers s u dto ∧ CommitsThenFails s u dto market (ms₁.drop 2) := by
      unfold LosesStake
      rw [hdrop]
      constructor
      · rintro ⟨market, hw, hlost⟩
        exact ⟨market, hw.found, hw.isOpen, hw.first, ⟨hw.funds, hw.range⟩, hlost⟩
      · rintro ⟨market, hfound, hopen, hfirst, hcovers, hlost⟩
        exact ⟨market, ⟨hrole, hcached, hunknown, hfound, hopen, hfirst, hcovers.1, hcovers.2⟩,
          hlost⟩
    rw [hiff]
    exact placeNewBet_throws h₁

/-- **What a placement that throws left**, and when it lost the stake. -/
theorem placeBet_throws (h : api.Runs i (placeBet u role dto) s ms (some (.error e)) s') :
    Left s s' u dto (LosesStake s u role dto ms) := by
  unfold placeBet at h
  split at h
  · rename_i hadmin
    obtain ⟨-, -, rfl⟩ := Machine.runs_throw.mp h
    exact .unpaid rfl fun ⟨_, hw, _⟩ => hw.role hadmin
  rename_i hrole
  rcases read_throws (fun _ => s.idempotency u dto.clientMutationId) (fun _ => rfl) h with
    ⟨rfl, m, rfl⟩ | ⟨ch, ms₁, rfl, h₁⟩
  · refine .unpaid rfl (not_losesStake ?_)
    unfold readsBeforeDebit
    split <;> simp
  cases hcache : s.idempotency u dto.clientMutationId with
  | none =>
    rw [hcache] at h₁
    have hreads : readsBeforeDebit s u dto = 4 := by simp [readsBeforeDebit, hcache]
    refine lookupOrPlace_throws h₁ hrole (by simp [hcache]) (by simp [hreads]) fun hlen => ?_
    rw [hreads, List.length_cons]
    omega
  | some id =>
    rw [hcache] at h₁
    have hreads : readsBeforeDebit s u dto = 5 := by simp [readsBeforeDebit, hcache]
    rcases read_throws (fun _ => s.bet id) (fun _ => rfl) h₁ with
      ⟨rfl, m, rfl⟩ | ⟨ch, ms₂, rfl, h₂⟩
    · exact .unpaid rfl (not_losesStake (by simp [hreads]))
    cases hbet : s.bet id with
    | some b =>
      rw [hbet] at h₂
      exact absurd (Machine.runs_ret.mp h₂).2.1 (by simp)
    | none =>
      rw [hbet] at h₂
      refine lookupOrPlace_throws h₂ hrole (fun id' hid => ?_) (by simp [hreads]) fun hlen => ?_
      · obtain rfl := Option.some.inj (hcache.symm.trans hid)
        exact hbet
      · rw [hreads, List.length_cons, List.length_cons]
        omega

/-- What is left is no loss, or it is one. -/
theorem Left.nothingTaken_iff {lost : Prop} (hs : s.betOf u dto.clientMutationId = none ∨ ¬ lost)
    (h : Left s s' u dto lost) : NothingTaken s s' u dto ↔ ¬ lost := by
  cases h with
  | unpaid hw hlost =>
    refine iff_of_true (.inl ?_) hlost
    rw [hw]
    exact ⟨rfl, rfl⟩
  | placed hbal hins hlost =>
    refine iff_of_true (.inr ?_) hlost
    obtain ⟨b, hb, hu, href, hstake⟩ := hins
    exact ⟨b, hb, hu, href, by omega⟩
  | lost hbal hbets hlost =>
    refine iff_of_false ?_ (not_not.mpr hlost)
    have hmin := dto.min
    rintro (⟨-, hsame⟩ | ⟨b, hb, hu, href, -⟩)
    · omega
    · rcases hs with hs | hs
      · rw [hbets] at hb
        have hnone := List.find?_eq_none.mp hs b hb
        simp [hu, href] at hnone
      · exact hs hlost

end FailedPlacement

/-- **A placement that throws took no money exactly when it did not lose its stake.** From any
configuration of any run, a new call runs alone and throws. -/
theorem api_failed_placement_iff {c c' : Config api} {i : Nat} {u : Uuid} {role : Role}
    {dto : PlaceBetDto} {ms : List (Mode ApiChoice Err)} {e : Err}
    (hr : api.replay c (.spawn i (.placeBet u role dto) :: ms.map (.run i)) = some c')
    (he : c'.threads i = some ⟨.placeBet u role dto, .throw e, false⟩) :
    NothingTaken c.state c'.state u dto ↔ ¬ LosesStake c.state u role dto ms := by
  obtain ⟨c₁, hspawn, hrest⟩ := Option.bind_eq_some_iff.mp hr
  obtain ⟨hstate, hthread⟩ : c₁.state = c.state ∧
      c₁.threads i = some ⟨.placeBet u role dto, (ApiCall.placeBet u role dto).body, false⟩ := by
    rcases api.step_cases hspawn with ⟨j, call, s, hev, -, hst, rfl⟩ |
      ⟨j, m, _, _, _, _, _, hev, _⟩ | ⟨j, _, _, _, hev, _⟩ | ⟨v, _, hev, _⟩
    · obtain ⟨rfl, rfl⟩ := Event.spawn.inj hev
      exact ⟨(Option.some.inj hst).symm, Function.update_self ..⟩
    · exact absurd hev (by simp)
    · exact absurd hev (by simp)
    · exact absurd hev (by simp)
  obtain ⟨p', hp', hruns⟩ := Machine.Runs.of_replay hthread hrest
  obtain rfl : Prog.throw e = p' := by simpa [he] using hp'
  rw [hstate] at hruns
  -- the call is the placement, its answer wrapped
  have hplace : api.Runs i (placeBet u role dto) c.state ms (some (.error e)) c'.state := by
    have hbody : (ApiCall.placeBet u role dto).body =
        placeBet u role dto >>= fun a => .ret (ApiReply.bet a) := map_eq_pure_bind ..
    rw [hbody] at hruns
    rcases Machine.runs_bind.mp hruns with ⟨a, s₁, ms₁, ms₂, -, -, hf⟩ | ⟨e', hp, he'⟩ | ⟨-, hx⟩
    · exact absurd (Machine.runs_ret.mp hf).2.1 (by simp [Prog.outcome])
    · obtain rfl := Except.error.inj (Option.some.inj he')
      exact hp
    · exact absurd hx (by simp [Prog.outcome])
  refine (FailedPlacement.placeBet_throws hplace).nothingTaken_iff ?_
  by_cases hlost : LosesStake c.state u role dto ms
  · obtain ⟨market, hw, -⟩ := hlost
    exact .inl hw.unknown
  · exact .inr hlost

/-- A bet of 2000 cents. -/
def tooLarge : PlaceBetDto := ⟨50, 2000, 2, by decide, by decide⟩

/-- User 7 has 1000 cents: the bet of 2000 cents throws, and nothing is taken. -/
theorem api_failed_placement_unfunded : ∃ c c' e,
    api.replay (api.init .empty) openMarket = some c ∧
    api.replay c (.spawn 2 (.placeBet 7 .USER tooLarge) ::
      (List.replicate 5 (Mode.ok {})).map (.run 2)) = some c' ∧
    c'.threads 2 = some ⟨.placeBet 7 .USER tooLarge, .throw e, false⟩ ∧
    NothingTaken c.state c'.state 7 tooLarge := by
  obtain ⟨c, c', hc, hr, he, hbal⟩ : ∃ c c', api.replay (api.init .empty) openMarket = some c ∧
      api.replay c (.spawn 2 (.placeBet 7 .USER tooLarge) ::
        (List.replicate 5 (Mode.ok {})).map (.run 2)) = some c' ∧
      c'.threads 2 = some ⟨.placeBet 7 .USER tooLarge,
        .throw (WalletDb.insufficientBalance 1000 2000), false⟩ ∧
      c.state.wallet.balanceOf 7 = 1000 := ⟨_, _, rfl, rfl, rfl, rfl⟩
  refine ⟨c, c', _, hc, hr, he, (api_failed_placement_iff hr he).mpr ?_⟩
  rintro ⟨market, hw, -⟩
  have hfunds := hw.funds
  rw [hbal] at hfunds
  exact absurd hfunds (by decide)

/-- User 7 has 1000 cents, and market 50 opens at odds of 3000000.00. -/
def openLongShot : List (Event api) := openAt 300000000 (by decide)

/-- A bet of the 1000 cents on it. -/
def longShot : PlaceBetDto := ⟨50, tenDollars.amountCents, 2, tenDollars.min, tenDollars.max⟩

/-- No step fails, but the payout of 3000000000 cents is beyond the column: the debit has
committed, the insert is rejected, and the stake is gone. -/
theorem api_stake_lost : ∃ c c' e, api.Reachable (api.init .empty) c ∧
    api.replay c (.spawn 2 (.placeBet 7 .USER longShot) ::
      (List.replicate 6 (Mode.ok {})).map (.run 2)) = some c' ∧
    c'.threads 2 = some ⟨.placeBet 7 .USER longShot, .throw e, false⟩ ∧
    c.state.wallet.balanceOf 7 = 1000 ∧ c'.state.wallet.balanceOf 7 = 0 ∧
    ¬ NothingTaken c.state c'.state 7 longShot := by
  obtain ⟨c, hr, c', e, hrun, he, hbefore, hafter, hbets⟩ : ∃ c,
      api.replay (api.init .empty) openLongShot = some c ∧ ∃ c' e,
      api.replay c (.spawn 2 (.placeBet 7 .USER longShot) ::
        (List.replicate 6 (Mode.ok {})).map (.run 2)) = some c' ∧
      c'.threads 2 = some ⟨.placeBet 7 .USER longShot, .throw e, false⟩ ∧
      c.state.wallet.balanceOf 7 = 1000 ∧ c'.state.wallet.balanceOf 7 = 0 ∧
      c'.state.bets = [] := ⟨_, rfl, _, _, rfl, rfl, rfl, rfl, rfl⟩
  refine ⟨c, c', e, .of_replay .init hr, hrun, he, hbefore, hafter, ?_⟩
  rintro (⟨-, hsame⟩ | ⟨b, hb, -⟩)
  · exact absurd (hafter.symm.trans (hsame.trans hbefore)) (by decide)
  · rw [hbets] at hb
    exact absurd hb (by simp)

end BoltBet
