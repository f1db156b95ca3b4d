import BoltBet.Betting.FailedPlacement
import BoltBet.Betting.Retries

/-!
# Are mutation ids scoped per user?

The key in Redis and the lookups of `placeBet` are per user, the lookup of `debit` is per user and
type, but the index on `referenceId` is on the mutation id alone. So a bet of one user blocks the
mutation id for everybody, after the stake of the second user is gone (`api_blocked_by_other`).

* `Store.Forgets A m s s'`: `s'` is `s` without some of what user `A` did under the mutation id.
* `SameEnd`: a program run from both states ends alike for a user. `read_iff` and `debit_iff` go
  through the operations of `placeBet`, and `insert_iff` decides.
* `api_scoped_iff`: the placements of another user end alike exactly when Postgres does not reject
  their insert for a bet that was forgotten (`Blocked`).
-/

namespace BoltBet

open Async BettingService FailedPlacement

/-- `l'` is `l` without some elements that satisfy `q`. -/
def Without {α : Type} (q : α → Prop) (l l' : List α) : Prop :=
  ∃ p : α → Bool, l' = l.filter p ∧ ∀ a ∈ l, ¬ q a → p a = true

namespace Without

variable {α : Type} {q : α → Prop} {l l' : List α} {r : α → Bool}

/-- A selection of other elements stays. -/
theorem filter (h : Without q l l') (hr : ∀ a ∈ l, r a = true → ¬ q a) :
    l'.filter r = l.filter r := by
  obtain ⟨p, rfl, hp⟩ := h
  rw [List.filter_filter]
  refine List.filter_congr fun a ha => ?_
  cases hra : r a with
  | false => rfl
  | true => simp [hp a ha (hr a ha hra)]

theorem find? (h : Without q l l') (hr : ∀ a ∈ l, r a = true → ¬ q a) :
    l'.find? r = l.find? r := by
  rw [← List.head?_filter, ← List.head?_filter, h.filter hr]

theorem any_of_any (h : Without q l l') (hr : l'.any r = true) : l.any r = true := by
  obtain ⟨p, rfl, -⟩ := h
  obtain ⟨a, ha, hra⟩ := List.any_eq_true.mp hr
  exact List.any_eq_true.mpr ⟨a, (List.mem_filter.mp ha).1, hra⟩

theorem mem_or (h : Without q l l') {a : α} (ha : a ∈ l) : a ∈ l' ∨ q a := by
  obtain ⟨p, rfl, hp⟩ := h
  by_cases hq : q a
  · exact .inr hq
  · exact .inl (List.mem_filter.mpr ⟨ha, hp a ha hq⟩)

end Without

namespace Store

/-- The bets of a user. -/
def betsOf (s : Store) (userId : Uuid) : List Bet := s.bets.filter (·.userId = userId)

/-- **What user `A` did under the mutation id `m` is forgotten**, all of it or some: bets, debits
and the key. The wallet row of `A` may differ. -/
structure Forgets (A m : Uuid) (s s' : Store) : Prop where
  bets : Without (fun b => b.userId = A ∧ b.referenceId = m) s.bets s'.bets
  debits : Without (fun tx => tx.userId = A ∧ tx.type = .DEBIT ∧ tx.referenceId = some m)
    s.wallet.walletTransactions s'.wallet.walletTransactions
  wallets : ∀ u, u ≠ A → s'.wallet.wallets u = s.wallet.wallets u
  keys : ∀ u k, (u, k) ≠ (A, m) → s'.idempotency u k = s.idempotency u k
  markets : s'.markets = s.markets

/-- All that user `A` did under the mutation id `m` is forgotten. -/
def forget (A m : Uuid) (s : Store) : Store where
  wallet := { s.wallet with walletTransactions := s.wallet.walletTransactions.filter fun tx =>
    ¬ (tx.userId = A ∧ tx.type = .DEBIT ∧ tx.referenceId = some m) }
  markets := s.markets
  bets := s.bets.filter fun b => ¬ (b.userId = A ∧ b.referenceId = m)
  idempotency := (s.setIdempotency A m none).idempotency
  betPlacement := s.betPlacement
  unacked := s.unacked
  deliveries := s.deliveries
  deadLetter := s.deadLetter
  notifications := s.notifications

theorem forgets_forget (A m : Uuid) (s : Store) : s.Forgets A m (s.forget A m) where
  bets := ⟨_, rfl, fun _ _ h => decide_eq_true h⟩
  debits := ⟨_, rfl, fun _ _ h => decide_eq_true h⟩
  wallets _ _ := rfl
  keys u k h := by
    have hkey : ¬ (u = A ∧ k = m) := fun ⟨hu, hk⟩ => h (by rw [hu, hk])
    simp [forget, setIdempotency, hkey]
  markets := rfl

/-- The wallet, the ledger and the bets of a user are the same. -/
structure SameFor (u : Uuid) (s t : Store) : Prop where
  wallet : t.wallet.wallets u = s.wallet.wallets u
  rows : t.wallet.rowsOf u = s.wallet.rowsOf u
  bets : t.betsOf u = s.betsOf u

theorem Forgets.sameFor {A B m : Uuid} {s s' : Store} (h : s.Forgets A m s') (hB : B ≠ A) :
    s.SameFor B s' := by
  refine ⟨h.wallets B hB, h.debits.filter fun tx _ htx hq => hB ?_,
    h.bets.filter fun b _ hb hq => hB ?_⟩
  · exact (of_decide_eq_true htx).symm.trans hq.1
  · exact (of_decide_eq_true hb).symm.trans hq.1

end Store

/-- The program ends alike from two states for a user: with one result or error, and with the same
wallet, ledger and bets. -/
def SameEnd {α : Type} (u : Uuid) (i : Nat) (p : Prog ApiSig α) (s t : Store)
    (ms : Nat → Mode ApiChoice Err) : Prop :=
  ∃ r s' t', api.finish i p s ms = some (r, s') ∧ api.finish i p t ms = some (r, t') ∧
    s'.SameFor u t'

/-- The first `n` operations answer. -/
def Answered (n : Nat) (ms : Nat → Mode ApiChoice Err) : Prop := ∀ j < n, ∃ ch, ms j = .ok ch

/-- `n` operations answer, and then one ends as `F` says. -/
def Blocks (F : Mode ApiChoice Err → Prop) (n : Nat) (ms : Nat → Mode ApiChoice Err) : Prop :=
  Answered n ms ∧ F (ms n)

/-- Postgres rejects the bet in `s` but not in `t`. -/
def RejectedBy (s t : Store) (d : BetDraft) : Mode ApiChoice Err → Prop
  | .fail _ => False
  | .ok ch => (s.rejectsBet ch.fresh d).isSome ∧ t.rejectsBet ch.fresh d = none
  | .lost ch _ => (s.rejectsBet ch.fresh d).isSome ∧ t.rejectsBet ch.fresh d = none

/-- The call gets as far as its insert, if the operations before it answer. -/
structure WouldInsert (s : Store) (userId : Uuid) (userRole : Role) (dto : PlaceBetDto)
    (market : Market) : Prop where
  role : userRole ≠ .ADMIN
  uncached : ∀ id, s.idempotency userId dto.clientMutationId = some id → s.bet id = none
  unknown : s.betOf userId dto.clientMutationId = none
  found : s.markets dto.marketId = some market
  isOpen : market.status = .OPEN
  funded : s.wallet.rowsFor userId .DEBIT dto.clientMutationId ≠ [] ∨ Covers s userId dto

/-- The operations before the insert: the reads, and the debit when there is no old one. -/
def opsBeforeInsert (s : Store) (userId : Uuid) (dto : PlaceBetDto) : Nat :=
  readsBeforeDebit s userId dto +
    if s.wallet.rowsFor userId .DEBIT dto.clientMutationId = [] then 1 else 0

/-- **The insert of the call is blocked** in `s` by a bet that `s'` does not have. -/
def Blocked (s s' : Store) (userId : Uuid) (userRole : Role) (dto : PlaceBetDto)
    (ms : Nat → Mode ApiChoice Err) : Prop :=
  Blocks (fun m => ∃ market, WouldInsert s userId userRole dto market ∧
    RejectedBy s s' (newBet userId dto market) m) (opsBeforeInsert s userId dto) ms

namespace Scoped

variable {i n : Nat} {s t s' : Store} {ms : Nat → Mode ApiChoice Err} {u A m : Uuid} {role : Role}
  {dto : PlaceBetDto} {market : Market} {α : Type} {F : Mode ApiChoice Err → Prop}

theorem blocks_succ {ch : ApiChoice} (h : ms 0 = .ok ch) :
    Blocks F (n + 1) ms ↔ Blocks F n fun j => ms (j + 1) := by
  refine and_congr_left fun _ => ⟨fun ha j hj => ha (j + 1) (by omega), fun ha j hj => ?_⟩
  cases j with
  | zero => exact ⟨ch, h⟩
  | succ j => exact ha j (by omega)

theorem blocks_congr {G : Mode ApiChoice Err → Prop} (h : ∀ m, F m ↔ G m) :
    Blocks F n ms ↔ Blocks G n ms := and_congr_right fun _ => h _

theorem not_blocks (h : ∀ ch, ms 0 ≠ .ok ch) : ¬ Blocks F (n + 1) ms := by
  rintro ⟨ha, -⟩
  obtain ⟨ch, hch⟩ := ha 0 (by omega)
  exact h ch hch

theorem sameEnd_ret {a : α} (h : s.SameFor u t) : SameEnd u i (.ret a) s t ms :=
  ⟨_, s, t, rfl, rfl, h⟩

theorem sameEnd_throw {e : Err} (h : s.SameFor u t) :
    SameEnd u i (.throw e : Prog ApiSig α) s t ms := ⟨_, s, t, rfl, rfl, h⟩

section First

variable {o : ApiOp} {f : o.Res → Prog ApiSig α} {ch : ApiChoice} {e : Err} {s₁ t₁ : Store}

/-- Both runs end in the same error. -/
theorem sameEnd_thrown {b d : Bool} (hs : api.answer i (ms 0) o s = some (.error e, s₁, b))
    (ht : api.answer i (ms 0) o t = some (.error e, t₁, d)) (h : s₁.SameFor u t₁) :
    SameEnd u i (Prog.perform (S := ApiSig) o >>= f) s t ms :=
  ⟨.error e, s₁, t₁, Machine.finish_perform hs, Machine.finish_perform ht, h⟩

/-- The first operation fails. -/
theorem sameEnd_fail (hm : ms 0 = .fail e) (h : s.SameFor u t) :
    SameEnd u i (Prog.perform (S := ApiSig) o >>= f) s t ms := by
  have hfail : ∀ s, api.answer i (ms 0) o s = some (.error e, s, false) := by
    intro s
    rw [hm]
    rfl
  exact sameEnd_thrown (hfail s) (hfail t) h

/-- What the first operation answers. -/
theorem answer_first {r : Except Err o.Res} (hm : ms 0 = .ok ch) (hs : s.exec ch o = (r, s₁)) :
    api.answer i (ms 0) o s = some (r, s₁, r.toBool) := by
  rw [hm]
  exact Machine.answer_ok (congrArg some hs)

/-- Its answer is lost. -/
theorem lose_first {r : Except Err o.Res} (hm : ms 0 = .lost ch e) (hs : s.exec ch o = (r, s₁)) :
    api.answer i (ms 0) o s = some (.error e, s₁, r.toBool) := by
  rw [hm]
  exact Machine.answer_lost (congrArg some hs)

/-- Both answers are lost. -/
theorem sameEnd_lost {r r' : Except Err o.Res} (hm : ms 0 = .lost ch e)
    (hs : s.exec ch o = (r, s₁)) (ht : t.exec ch o = (r', t₁)) (h : s₁.SameFor u t₁) :
    SameEnd u i (Prog.perform (S := ApiSig) o >>= f) s t ms :=
  sameEnd_thrown (lose_first hm hs) (lose_first hm ht) h

/-- Both runs are answered with the same error. -/
theorem sameEnd_error (hm : ms 0 = .ok ch) (hs : s.exec ch o = (.error e, s₁))
    (ht : t.exec ch o = (.error e, t₁)) (h : s₁.SameFor u t₁) :
    SameEnd u i (Prog.perform (S := ApiSig) o >>= f) s t ms :=
  sameEnd_thrown (answer_first hm hs) (answer_first hm ht) h

/-- Both runs go on. -/
theorem sameEnd_ok {a : o.Res} (hm : ms 0 = .ok ch) (hs : s.exec ch o = (.ok a, s₁))
    (ht : t.exec ch o = (.ok a, t₁)) :
    SameEnd u i (Prog.perform (S := ApiSig) o >>= f) s t ms ↔
      SameEnd u i (f a) s₁ t₁ fun j => ms (j + 1) := by
  unfold SameEnd
  rw [Machine.finish_perform (answer_first hm hs), Machine.finish_perform (answer_first hm ht)]
  rfl

end First

/-- **A read that answers the same in both states.** -/
theorem read_iff {o : ApiOp} (v : ApiChoice → o.Res) (hs : ∀ ch, s.exec ch o = (.ok (v ch), s))
    (ht : ∀ ch, t.exec ch o = (.ok (v ch), t)) (hsame : s.SameFor u t)
    {f : o.Res → Prog ApiSig α}
    (hf : ∀ ch, SameEnd u i (f (v ch)) s t (fun j => ms (j + 1)) ↔
      ¬ Blocks F n fun j => ms (j + 1)) :
    SameEnd u i (Prog.perform (S := ApiSig) o >>= f) s t ms ↔ ¬ Blocks F (n + 1) ms := by
  cases hm : ms 0 with
  | ok ch =>
    rw [blocks_succ hm, ← hf ch]
    exact sameEnd_ok hm (hs ch) (ht ch)
  | fail e => exact iff_of_true (sameEnd_fail hm hsame) (not_blocks (by simp [hm]))
  | lost ch e =>
    exact iff_of_true (sameEnd_lost hm (hs ch) (ht ch) hsame) (not_blocks (by simp [hm]))

/-! ## The insert -/

/-- What follows the insert cannot tell the two states apart. -/
theorem afterInsert_sameEnd (b : Bet) (h : s.SameFor u t) :
    SameEnd u i (do
      Api.redisSet u dto.clientMutationId b.id
      Api.publishBetPlacement (placementOf b)
      return b.toDto) s t ms := by
  refine Machine.finish_related (P := fun o : ApiOp => (∃ u m id, o = .redisSet u m id) ∨
    ∃ p, o = .publishBetPlacement p) ?_ ?_ h
  · refine Prog.All.bind (Api.all_op (.inl ⟨_, _, _, rfl⟩)) fun _ => ?_
    exact Prog.All.bind (Api.all_op (.inr ⟨_, rfl⟩)) fun _ => trivial
  · rintro o m s t (⟨u', m', id, rfl⟩ | ⟨p, rfl⟩) h
    · cases m with
      | fail e => exact ⟨_, s, t, _, rfl, rfl, h⟩
      | ok ch | lost ch e => exact ⟨_, _, _, _, rfl, rfl, h.wallet, h.rows, h.bets⟩
    · cases m with
      | fail e => exact ⟨_, s, t, _, rfl, rfl, h⟩
      | ok ch | lost ch e => exact ⟨_, _, _, _, rfl, rfl, h.wallet, h.rows, h.bets⟩

/-- Forgotten bets can only turn a rejection into an insert. -/
theorem rejectsBet_forgets (hs : s.BetReferences) (h : s.Forgets A m s') (id : Uuid)
    (d : BetDraft) (hd : d.referenceId = m) :
    s'.rejectsBet id d = s.rejectsBet id d ∨
      (s.rejectsBet id d).isSome ∧ s'.rejectsBet id d = none := by
  have hid : s'.bets.any (·.id = id) = true → s.bets.any (·.id = id) = true := h.bets.any_of_any
  have href : s'.bets.any (·.referenceId = d.referenceId) = true →
      s.bets.any (·.referenceId = d.referenceId) = true := h.bets.any_of_any
  -- a bet that was forgotten is the only one of its mutation id
  have hgone : s.bets.any (·.id = id) = true → s'.bets.any (·.id = id) = false →
      s'.bets.any (·.referenceId = d.referenceId) = false := by
    intro hb hno
    rw [Bool.eq_false_iff]
    intro hb'
    obtain ⟨b, hmem, hbid⟩ := List.any_eq_true.mp hb
    obtain ⟨b', hmem', hbref⟩ := List.any_eq_true.mp hb'
    obtain ⟨p, hp, -⟩ := h.bets
    rcases h.bets.mem_or hmem with hmem | ⟨-, hm⟩
    · exact absurd (hno.symm.trans (List.any_eq_true.mpr ⟨b, hmem, hbid⟩)) (by simp)
    · have hold : b' ∈ s.bets := (List.mem_filter.mp (hp ▸ hmem')).1
      have hb'm : b'.referenceId = m := (of_decide_eq_true hbref).trans hd
      obtain rfl := List.inj_on_of_nodup_map hs hold hmem (hb'm.trans hm.symm)
      exact absurd (hno.symm.trans (List.any_eq_true.mpr ⟨b', hmem', hbid⟩)) (by simp)
  unfold Store.rejectsBet
  cases hfits : fitsInteger d.oddsInt && fitsInteger d.stakeCents && fitsInteger d.payoutCents with
  | false => exact .inl rfl
  | true =>
    cases hb : s.bets.any (·.id = id) with
    | true =>
      cases hb' : s'.bets.any (·.id = id) with
      | true => exact .inl rfl
      | false => exact .inr ⟨rfl, by simp [hgone hb hb']⟩
    | false =>
      have hb' : s'.bets.any (·.id = id) = false := by
        rw [Bool.eq_false_iff]
        exact fun h' => absurd (hid h') (by simp [hb])
      cases hr : s.bets.any (·.referenceId = d.referenceId) with
      | true =>
        cases hr' : s'.bets.any (·.referenceId = d.referenceId) with
        | true => exact .inl (by simp [hb'])
        | false => exact .inr ⟨rfl, by simp [hb']⟩
      | false =>
        have hr' : s'.bets.any (·.referenceId = d.referenceId) = false := by
          rw [Bool.eq_false_iff]
          exact fun h' => absurd (href h') (by simp [hr])
        exact .inl (by simp [hb', hr'])

/-- The bets after an insert that took effect. -/
theorem sameFor_addBet {b : Bet} (h : s.SameFor u t) : (s.addBet b).SameFor u (t.addBet b) := by
  refine ⟨h.wallet, h.rows, ?_⟩
  show (t.bets ++ [b]).filter _ = (s.bets ++ [b]).filter _
  rw [List.filter_append, List.filter_append]
  exact congrArg (· ++ _) h.bets

/-- One bet more makes a difference. -/
theorem not_sameFor_addBet {b : Bet} (h : s.SameFor b.userId t) :
    ¬ s.SameFor b.userId (t.addBet b) := by
  intro h'
  have hbets : (t.addBet b).betsOf b.userId = t.betsOf b.userId := h'.bets.trans h.bets.symm
  have hnew : (t.addBet b).betsOf b.userId = t.betsOf b.userId ++ [b] := by
    show (t.bets ++ [b]).filter _ = _
    rw [List.filter_append]
    simp [Store.betsOf]
  rw [hnew] at hbets
  simp at hbets

/-- The user of a run that inserted has one bet more. -/
theorem not_sameEnd_inserted {d : BetDraft} {ch : ApiChoice} {e : Err}
    (hsame : s.SameFor d.userId t) {f : Bet → Prog ApiSig α} (hm : ms 0 = .ok ch)
    (hs : s.exec ch (.betSave d) = (.error e, s))
    (ht : t.exec ch (.betSave d) = (.ok (d.row ch.fresh ch.now), t.addBet (d.row ch.fresh ch.now)))
    (hkeeps : ∀ {x t₁ t'} {ms : List (Mode ApiChoice Err)}, api.Runs i (f (d.row ch.fresh ch.now))
      t₁ ms x t' → t'.wallet = t₁.wallet ∧ t'.bets = t₁.bets) :
    ¬ SameEnd d.userId i (Api.betSave d >>= f) s t ms := by
  rintro ⟨r, s', t', hfs, hft, hsame'⟩
  have hends := Machine.finish_perform (f := f) (answer_first (i := i) hm hs)
  have hgoes := Machine.finish_perform (f := f) (answer_first (i := i) hm ht)
  obtain ⟨-, rfl⟩ := Prod.mk.inj (Option.some.inj (hends.symm.trans hfs))
  obtain ⟨n, hruns⟩ := Machine.Runs.of_finish (hgoes.symm.trans hft)
  obtain ⟨hw, hb⟩ := hkeeps hruns
  refine not_sameFor_addBet (b := d.row ch.fresh ch.now) hsame ⟨?_, ?_, ?_⟩
  · show t.wallet.wallets _ = _
    exact (congrArg (·.wallets d.userId) hw).symm.trans hsame'.wallet
  · show t.wallet.rowsOf _ = _
    exact (congrArg (·.rowsOf d.userId) hw).symm.trans hsame'.rows
  · show (t.addBet _).bets.filter _ = _
    rw [← hb]
    exact hsame'.bets

/-- So it has when the answer to the insert was lost. -/
theorem not_sameEnd_lost {d : BetDraft} {ch : ApiChoice} {e e' : Err}
    (hsame : s.SameFor d.userId t) {f : Bet → Prog ApiSig α} (hm : ms 0 = .lost ch e)
    (hs : s.exec ch (.betSave d) = (.error e', s))
    (ht : t.exec ch (.betSave d) =
      (.ok (d.row ch.fresh ch.now), t.addBet (d.row ch.fresh ch.now))) :
    ¬ SameEnd d.userId i (Api.betSave d >>= f) s t ms := by
  rintro ⟨r, s', t', hfs, hft, hsame'⟩
  have hends := Machine.finish_perform (f := f) (lose_first (i := i) hm hs)
  have hends' := Machine.finish_perform (f := f) (lose_first (i := i) hm ht)
  obtain ⟨-, rfl⟩ := Prod.mk.inj (Option.some.inj (hends.symm.trans hfs))
  obtain ⟨-, rfl⟩ := Prod.mk.inj (Option.some.inj (hends'.symm.trans hft))
  exact not_sameFor_addBet (b := d.row ch.fresh ch.now) hsame hsame'

/-- **The insert decides.** -/
theorem insert_iff (hsame : s.SameFor u t)
    (hrej : ∀ id, t.rejectsBet id (newBet u dto market) = s.rejectsBet id (newBet u dto market) ∨
      (s.rejectsBet id (newBet u dto market)).isSome ∧
        t.rejectsBet id (newBet u dto market) = none) :
    SameEnd u i (insertBet u dto market) s t ms ↔
      ¬ Blocks (RejectedBy s t (newBet u dto market)) 0 ms := by
  have hblocks : Blocks (RejectedBy s t (newBet u dto market)) 0 ms ↔
      RejectedBy s t (newBet u dto market) (ms 0) := and_iff_right fun j hj => absurd hj (by omega)
  -- an insert that `s` takes, `t` takes too
  have htakes : ∀ {ch : ApiChoice}, s.rejectsBet ch.fresh (newBet u dto market) = none →
      t.exec ch (.betSave (newBet u dto market)) = (.ok ((newBet u dto market).row ch.fresh ch.now),
        t.addBet ((newBet u dto market).row ch.fresh ch.now)) := by
    intro ch hs
    have ht : t.rejectsBet ch.fresh (newBet u dto market) = none := by
      rcases hrej ch.fresh with heq | ⟨hsome, -⟩
      · exact heq.trans hs
      · exact absurd hsome (by simp [hs])
    rcases t.exec_betSave ch (newBet u dto market) with ⟨e, ht', -⟩ | ⟨-, hxt⟩
    · exact absurd (ht'.symm.trans ht) (by simp)
    · exact hxt
  rw [hblocks]
  unfold insertBet
  cases hm : ms 0 with
  | fail e => exact iff_of_true (sameEnd_fail hm hsame) id
  | ok ch =>
    rcases s.exec_betSave ch (newBet u dto market) with ⟨e, hs, hxs⟩ | ⟨hs, hxs⟩
    · rcases t.exec_betSave ch (newBet u dto market) with ⟨e', ht, hxt⟩ | ⟨ht, hxt⟩
      · obtain rfl : e' = e := by
          rcases hrej ch.fresh with heq | ⟨-, hnone⟩
          · exact Option.some.inj (ht.symm.trans (heq.trans hs))
          · exact absurd (ht.symm.trans hnone) (by simp)
        exact iff_of_true (sameEnd_error hm hxs hxt hsame) (by simp [RejectedBy, ht])
      · refine iff_of_false (not_sameEnd_inserted hsame hm hxs hxt afterInsert_keeps) ?_
        simp [RejectedBy, hs, ht]
    · refine iff_of_true ((sameEnd_ok hm hxs (htakes hs)).mpr ?_) (by simp [RejectedBy, hs])
      exact afterInsert_sameEnd _ (sameFor_addBet hsame)
  | lost ch e =>
    rcases s.exec_betSave ch (newBet u dto market) with ⟨e₁, hs, hxs⟩ | ⟨hs, hxs⟩
    · rcases t.exec_betSave ch (newBet u dto market) with ⟨e₂, ht, hxt⟩ | ⟨ht, hxt⟩
      · exact iff_of_true (sameEnd_lost hm hxs hxt hsame) (by simp [RejectedBy, ht])
      · refine iff_of_false (not_sameEnd_lost hsame hm hxs hxt) ?_
        simp [RejectedBy, hs, ht]
    · exact iff_of_true (sameEnd_lost hm hxs (htakes hs) (sameFor_addBet hsame))
        (by simp [RejectedBy, hs])

/-! ## The debit -/

/-- `applyTransaction` of a user cannot tell the two states apart. -/
theorem applyAtomic_same {db db' : WalletDb} (hw : db'.wallets u = db.wallets u)
    (hrows : db'.rowsOf u = db.rowsOf u) (ch : WalletChoice) (type : TransactionType) (a : Int)
    (ref : Option Uuid) (desc : String) :
    ∃ r db₁ db₂, db.applyAtomic ch u type a ref desc = (r, db₁) ∧
      db'.applyAtomic ch u type a ref desc = (r, db₂) ∧ db₂.wallets u = db₁.wallets u ∧
      db₂.rowsOf u = db₁.rowsOf u := by
  unfold WalletDb.applyAtomic
  rw [hw]
  dsimp only
  split
  · exact ⟨_, db, db', rfl, rfl, hw, hrows⟩
  · split
    · refine ⟨_, _, _, rfl, rfl, ?_, ?_⟩
      · simp [WalletDb.setWallet]
      · show (db'.walletTransactions ++ [_]).filter _ = (db.walletTransactions ++ [_]).filter _
        rw [List.filter_append, List.filter_append]
        exact congrArg (· ++ _) hrows
    · exact ⟨_, db, db', rfl, rfl, hw, hrows⟩

/-- A debit cannot tell the two states apart, and leaves the bets alone. -/
theorem exec_debit_same (h : s.SameFor u t) (dto : PlaceBetDto) (ch : ApiChoice)
    (desc : String) :
    ∃ r s₁ t₁,
      s.exec ch (.wallet (.applyTransaction u .DEBIT dto.stakeCents
        (some dto.clientMutationId) desc)) = (r, s₁) ∧
      t.exec ch (.wallet (.applyTransaction u .DEBIT dto.stakeCents
        (some dto.clientMutationId) desc)) = (r, t₁) ∧
      s₁.SameFor u t₁ ∧ s₁.bets = s.bets ∧ t₁.bets = t.bets := by
  obtain ⟨r, db₁, db₂, h₁, h₂, hw, hrows⟩ := applyAtomic_same h.wallet h.rows ch.toWalletChoice
    .DEBIT dto.stakeCents (some dto.clientMutationId) desc
  refine ⟨r, { s with wallet := db₁ }, { t with wallet := db₂ }, ?_, ?_, ⟨hw, hrows, h.bets⟩, rfl,
    rfl⟩
  · simp only [Store.exec, WalletDb.exec, h₁]
  · simp only [Store.exec, WalletDb.exec, h₂]

/-- What the insert needs of the two states. -/
structure Compared (u : Uuid) (dto : PlaceBetDto) (market : Market) (s t : Store) : Prop where
  same : s.SameFor u t
  rejects : ∀ id, t.rejectsBet id (newBet u dto market) = s.rejectsBet id (newBet u dto market) ∨
    (s.rejectsBet id (newBet u dto market)).isSome ∧ t.rejectsBet id (newBet u dto market) = none

/-- A debit that answers leads to the insert, one that does not ends both runs. -/
theorem debit_iff (h : Compared u dto market s t) :
    SameEnd u i (debitAndInsert u dto market) s t ms ↔
      ¬ Blocks (fun m => Covers s u dto ∧ RejectedBy s t (newBet u dto market) m) 1 ms := by
  unfold debitAndInsert
  cases hm : ms 0 with
  | fail e => exact iff_of_true (sameEnd_fail hm h.same) (not_blocks (by simp [hm]))
  | lost ch e =>
    obtain ⟨r, s₁, t₁, hs, ht, hsame, -⟩ := exec_debit_same h.same dto ch
      s!"Bet on market {market.name}"
    exact iff_of_true (sameEnd_lost hm hs ht hsame) (not_blocks (by simp [hm]))
  | ok ch =>
    rw [blocks_succ hm]
    obtain ⟨r, s₁, t₁, hs, ht, hsame, hbs, hbt⟩ := exec_debit_same h.same dto ch
      s!"Bet on market {market.name}"
    rcases exec_debit s u dto ch s!"Bet on market {market.name}" with
      ⟨e, hno, hx⟩ | ⟨x, s₂, hcovers, hx, -, -⟩
    · obtain ⟨rfl, rfl⟩ := Prod.mk.inj (hs.symm.trans hx)
      exact iff_of_true (sameEnd_error hm hs ht hsame) fun hb => hno hb.2.1
    · obtain ⟨rfl, rfl⟩ := Prod.mk.inj (hs.symm.trans hx)
      -- the debit answered in both; the bets are as before
      have hrejects : ∀ id, s₁.rejectsBet id (newBet u dto market) =
          s.rejectsBet id (newBet u dto market) := fun id => by simp only [Store.rejectsBet, hbs]
      have hrejectt : ∀ id, t₁.rejectsBet id (newBet u dto market) =
          t.rejectsBet id (newBet u dto market) := fun id => by simp only [Store.rejectsBet, hbt]
      have hgo : SameEnd u i (do
          let _ ← Prog.perform (S := ApiSig) (.wallet (.applyTransaction u .DEBIT dto.stakeCents
            (some dto.clientMutationId) s!"Bet on market {market.name}"))
          insertBet u dto market) s t ms ↔
          SameEnd u i (insertBet u dto market) s₁ t₁ fun j => ms (j + 1) := sameEnd_ok hm hs ht
      rw [hgo, insert_iff hsame fun id => by rw [hrejects, hrejectt]; exact h.rejects id]
      refine not_congr (blocks_congr fun m => ?_)
      rw [and_iff_right hcovers]
      cases m <;> simp [RejectedBy, hrejects, hrejectt]

/-! ## The whole placement -/

/-- The states of `placeBet` before its first write. -/
structure Reading (B : Uuid) (dto : PlaceBetDto) (s t : Store) : Prop where
  same : s.SameFor B t
  compared : ∀ market, Compared B dto market s t
  key : t.idempotency B dto.clientMutationId = s.idempotency B dto.clientMutationId
  cached : ∀ id, s.idempotency B dto.clientMutationId = some id → t.bet id = s.bet id
  bet : t.betOf B dto.clientMutationId = s.betOf B dto.clientMutationId
  market : t.markets = s.markets
  debits : t.wallet.rowsFor B .DEBIT dto.clientMutationId =
    s.wallet.rowsFor B .DEBIT dto.clientMutationId

/-- What user `A` did is not read for another user. -/
theorem reading_of_forgets {B : Uuid} (hs : Retries.Inv s) (hB : B ≠ A)
    (h : s.Forgets A dto.clientMutationId s') : Reading B dto s s' := by
  refine ⟨h.sameFor hB, fun market => ⟨h.sameFor hB, fun id => ?_⟩, h.keys B _ (by simp [hB]),
    fun id hid => ?_, h.bets.find? fun b _ hb hq => hB ?_, h.markets,
    h.debits.filter fun tx _ htx hq => hB ?_⟩
  · exact rejectsBet_forgets hs.references h id _ rfl
  · -- the key of `B` leads to a bet of `B`
    refine h.bets.find? fun b hb hbid hq => hB ?_
    have hbet : s.bet id = some b := of_decide_eq_true hbid ▸ hs.betIds.bet_of_mem hb
    exact ((hs.keys B _ id hid).of_bet hs.betIds hbet).1.symm.trans hq.1
  · exact (of_decide_eq_true hb).1.symm.trans hq.1
  · exact (of_decide_eq_true htx).1.symm.trans hq.1

/-- From the market on. -/
theorem placeNewBet_iff (h : Reading u dto s t) :
    SameEnd u i (placeNewBet u dto) s t ms ↔ ¬ Blocks (fun m => ∃ market,
      s.markets dto.marketId = some market ∧ market.status = .OPEN ∧
      (s.wallet.rowsFor u .DEBIT dto.clientMutationId ≠ [] ∨ Covers s u dto) ∧
      RejectedBy s t (newBet u dto market) m)
      ((if s.wallet.rowsFor u .DEBIT dto.clientMutationId = [] then 1 else 0) + 1 + 1) ms := by
  have hsame := h.same
  rw [placeNewBet_eq]
  refine read_iff (fun _ => s.markets dto.marketId) (fun _ => rfl)
    (fun _ => by rw [← h.market]; rfl) hsame fun _ => ?_
  cases hfound : s.markets dto.marketId with
  | none =>
    refine iff_of_true (sameEnd_throw hsame) ?_
    rintro ⟨-, market, hm, -⟩
    exact absurd hm (by simp)
  | some market =>
    dsimp only
    split
    · rename_i hopen
      refine iff_of_true (sameEnd_throw hsame) ?_
      rintro ⟨-, market', hm, hst, -⟩
      obtain rfl := Option.some.inj hm
      exact hopen hst
    rename_i hopen
    have hF : ∀ m, (∃ market', some market = some market' ∧ market'.status = .OPEN ∧
        (s.wallet.rowsFor u .DEBIT dto.clientMutationId ≠ [] ∨ Covers s u dto) ∧
        RejectedBy s t (newBet u dto market') m) ↔
        (s.wallet.rowsFor u .DEBIT dto.clientMutationId ≠ [] ∨ Covers s u dto) ∧
          RejectedBy s t (newBet u dto market) m := by
      intro m
      constructor
      · rintro ⟨market', hm, -, hrest⟩
        obtain rfl := Option.some.inj hm
        exact hrest
      · exact fun hrest => ⟨market, rfl, not_not.mp hopen, hrest⟩
    refine read_iff (fun ch => pickOne ch.pick (s.wallet.rowsFor u .DEBIT dto.clientMutationId))
      (fun _ => rfl) (fun _ => by rw [← h.debits]; rfl) hsame fun ch => ?_
    rw [blocks_congr hF]
    cases hpick : pickOne ch.pick (s.wallet.rowsFor u .DEBIT dto.clientMutationId) with
    | none =>
      have hnil := pickOne_eq_none hpick
      rw [if_pos hnil]
      refine (debit_iff (h.compared market)).trans (not_congr (blocks_congr fun m => ?_))
      simp [hnil]
    | some tx =>
      have hne : s.wallet.rowsFor u .DEBIT dto.clientMutationId ≠ [] :=
        List.ne_nil_of_mem (pickOne_mem hpick)
      rw [if_neg hne]
      refine (insert_iff hsame (h.compared market).rejects).trans
        (not_congr (blocks_congr fun m => ?_))
      simp [hne]

/-- From the lookup by mutation id on. -/
theorem lookupOrPlace_iff (h : Reading u dto s t) (hrole : role ≠ .ADMIN)
    (hcached : ∀ id, s.idempotency u dto.clientMutationId = some id → s.bet id = none) :
    SameEnd u i (lookupOrPlace u dto) s t ms ↔ ¬ Blocks (fun m => ∃ market,
      WouldInsert s u role dto market ∧ RejectedBy s t (newBet u dto market) m)
      ((if s.wallet.rowsFor u .DEBIT dto.clientMutationId = [] then 1 else 0) + 1 + 1 + 1) ms := by
  have hsame := h.same
  unfold lookupOrPlace
  refine read_iff (fun _ => s.betOf u dto.clientMutationId) (fun _ => rfl)
    (fun _ => by rw [← h.bet]; rfl) hsame fun _ => ?_
  cases hbet : s.betOf u dto.clientMutationId with
  | some b =>
    refine iff_of_true (sameEnd_ret hsame) ?_
    rintro ⟨-, market, hw, -⟩
    exact absurd (hbet.symm.trans hw.unknown) (by simp)
  | none =>
    refine (placeNewBet_iff h).trans (not_congr (blocks_congr fun m => ?_))
    constructor
    · rintro ⟨market, hfound, hopen, hfunded, hrej⟩
      exact ⟨market, ⟨hrole, hcached, hbet, hfound, hopen, hfunded⟩, hrej⟩
    · rintro ⟨market, hw, hrej⟩
      exact ⟨market, hw.found, hw.isOpen, hw.funded, hrej⟩

/-- **The whole placement.** -/
theorem placeBet_iff (h : Reading u dto s t) :
    SameEnd u i (placeBet u role dto) s t ms ↔ ¬ Blocked s t u role dto ms := by
  have hsame := h.same
  unfold placeBet Blocked opsBeforeInsert readsBeforeDebit
  split
  · rename_i hadmin
    refine iff_of_true (sameEnd_throw hsame) ?_
    rintro ⟨-, market, hw, -⟩
    exact hw.role hadmin
  rename_i hrole
  cases hkey : s.idempotency u dto.clientMutationId with
  | none =>
    have hn : ∀ n : Nat, 4 + n = n + 1 + 1 + 1 + 1 := by omega
    simp only [Option.isSome_none, Bool.false_eq_true, if_false]
    rw [hn]
    refine read_iff (fun _ => none) (fun _ => ?_) (fun _ => ?_) hsame fun _ => ?_
    · simp [Store.exec, hkey]
    · simp [Store.exec, h.key, hkey]
    · exact lookupOrPlace_iff h hrole (by simp [hkey])
  | some id =>
    have hn : ∀ n : Nat, 5 + n = n + 1 + 1 + 1 + 1 + 1 := by omega
    simp only [Option.isSome_some, if_true]
    rw [hn]
    refine read_iff (fun _ => some id) (fun _ => ?_) (fun _ => ?_) hsame fun _ => ?_
    · simp [Store.exec, hkey]
    · simp [Store.exec, h.key, hkey]
    refine read_iff (fun _ => s.bet id) (fun _ => rfl)
      (fun _ => by rw [← h.cached id hkey]; rfl) hsame fun _ => ?_
    cases hbet : s.bet id with
    | some b =>
      refine iff_of_true (sameEnd_ret hsame) ?_
      rintro ⟨-, market, hw, -⟩
      exact absurd (hbet.symm.trans (hw.uncached id hkey)) (by simp)
    | none =>
      refine lookupOrPlace_iff h hrole fun id' hid => ?_
      obtain rfl := Option.some.inj (hkey.symm.trans hid)
      exact hbet

end Scoped

/-- **Another user's placements end alike, whatever user `A` did under their mutation id, exactly
when no insert is blocked by it.** From any state of any run, a placement of user `B` runs to its
end. -/
theorem api_scoped_iff {c : Config api} (hc : api.Reachable (api.init .empty) c) {A B : Uuid}
    (hAB : A ≠ B) {role : Role} {dto : PlaceBetDto} {s' : Store}
    (hs' : c.state.Forgets A dto.clientMutationId s') {i : Nat} {ms : Nat → Mode ApiChoice Err} :
    SameEnd B i (placeBet B role dto) c.state s' ms ↔ ¬ Blocked c.state s' B role dto ms :=
  Scoped.placeBet_iff (Scoped.reading_of_forgets (Retries.reach hc).1 hAB.symm hs')

/-- User 8 deposits 10 dollars, too. -/
def otherDeposit : List (Event api) := .spawn 4 (.deposit 8 tenDollars) :: proceed 4 2

/-- User 8 bets 200 cents on market 50. -/
def otherBet : PlaceBetDto := ⟨50, 200, 2, by decide, by decide⟩

/-- A placement of user 7 crashed after its debit: user 8 can use the same mutation id. -/
theorem api_scoped_debit : ∃ c, api.replay (api.init .empty) (openMarket ++
      .spawn 2 (bet100 2) :: proceed 2 5 ++ .crash 2 :: otherDeposit) = some c ∧
    (c.state.wallet.rowsFor 7 .DEBIT 2).length = 1 ∧
    SameEnd 8 5 (placeBet 8 .USER otherBet) c.state (c.state.forget 7 2) fun _ => .ok {} := by
  obtain ⟨c, hr, hrows, hbets⟩ : ∃ c, api.replay (api.init .empty) (openMarket ++
      .spawn 2 (bet100 2) :: proceed 2 5 ++ .crash 2 :: otherDeposit) = some c ∧
      (c.state.wallet.rowsFor 7 .DEBIT 2).length = 1 ∧ c.state.bets = [] := ⟨_, rfl, rfl, rfl⟩
  refine ⟨c, hr, hrows, (api_scoped_iff (.of_replay .init hr) (by decide)
    (c.state.forgets_forget 7 2)).mpr ?_⟩
  rintro ⟨-, market, -, hsome, hnone⟩
  have hsame : ∀ d, (c.state.forget 7 2).rejectsBet 0 d = c.state.rejectsBet 0 d := fun d => by
    simp [Store.rejectsBet, Store.forget, hbets]
  rw [hsame] at hnone
  simp [hnone] at hsome

/-- User 7 has a bet of the mutation id: the same placement of user 8 throws, after its stake is
gone; without the bet of user 7 it succeeds. -/
theorem api_blocked_by_other : ∃ c, api.Reachable (api.init .empty) c ∧
    (∃ e s', api.finish 5 (placeBet 8 .USER otherBet) c.state (fun _ => .ok { fresh := 9 }) =
      some (.error e, s') ∧ c.state.wallet.balanceOf 8 = 1000 ∧ s'.wallet.balanceOf 8 = 800) ∧
    (∃ a t', api.finish 5 (placeBet 8 .USER otherBet) (c.state.forget 7 2)
      (fun _ => .ok { fresh := 9 }) = some (.ok a, t')) ∧
    ¬ SameEnd 8 5 (placeBet 8 .USER otherBet) c.state (c.state.forget 7 2)
      fun _ => .ok { fresh := 9 } := by
  obtain ⟨c, hr, ⟨e, s', hs, hbefore, hafter⟩, a, t', ht⟩ : ∃ c,
      api.replay (api.init .empty) (openMarket ++ .spawn 2 (bet100 2) :: proceed 2 8 ++
        otherDeposit) = some c ∧
      (∃ e s', api.finish 5 (placeBet 8 .USER otherBet) c.state (fun _ => .ok { fresh := 9 }) =
        some (.error e, s') ∧ c.state.wallet.balanceOf 8 = 1000 ∧ s'.wallet.balanceOf 8 = 800) ∧
      ∃ a t', api.finish 5 (placeBet 8 .USER otherBet) (c.state.forget 7 2)
        (fun _ => .ok { fresh := 9 }) = some (.ok a, t') :=
    ⟨_, rfl, ⟨_, _, rfl, rfl, rfl⟩, _, _, rfl⟩
  refine ⟨c, .of_replay .init hr, ⟨e, s', hs, hbefore, hafter⟩, ⟨a, t', ht⟩, ?_⟩
  rintro ⟨r, s₁, t₁, hs₁, ht₁, -⟩
  obtain ⟨rfl, -⟩ := Prod.mk.inj (Option.some.inj (hs.symm.trans hs₁))
  exact absurd (Prod.mk.inj (Option.some.inj (ht.symm.trans ht₁))).1 (by simp)

end BoltBet
