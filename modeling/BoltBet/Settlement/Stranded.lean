import BoltBet.Betting.Messages
import BoltBet.Betting.StatusMachine
import BoltBet.Market.OneResult
import BoltBet.Market.Payout
import BoltBet.Wallet.Alone

/-!
# Are bets stranded on settled markets?

`settle` works on the bets that are `ACCEPTED` when it selects them. A bet that is still `PENDING`
then, or is inserted later, is accepted after the market is closed and stays so: nothing settles
it any more, and its stake is gone (`api_bet_stranded`, without any failure).

* `Closing`: while `settle` works, each bet of its market is settled, on its list, or was inserted
  since the list was read.
* `safe_settle`: so when no bet is missed, all bets of the market are settled when it is saved.
* `api_none_stranded`: in every run without failures in which no bet is missed (`NoneMissed`), the
  bets of settled markets are settled, and paid if the market was won.
-/

namespace BoltBet

open Async

/-- The market of an inserted bet. -/
def ApiOp.inserts? : ApiOp → Option Uuid
  | .betSave d => some d.marketId
  | _ => none

/-- The user and the amount of a credit. -/
def ApiOp.credits? : ApiOp → Option (Uuid × Int)
  | .wallet (.applyTransaction u .CREDIT a _ _) => some (u, a)
  | _ => none

/-- A bet of the market was inserted. -/
def InsertedOn (marketId : Uuid) (x : Entry api) : Prop :=
  x.took = true ∧ x.op.inserts? = some marketId

instance (marketId : Uuid) : DecidablePred (InsertedOn marketId) :=
  fun _ => inferInstanceAs (Decidable (_ ∧ _))

instance : DecidablePred fun m : Mode ApiChoice Err => IsOk m
  | .ok ch => .isTrue ⟨ch, rfl⟩
  | .fail _ => .isFalse fun ⟨_, h⟩ => nomatch h
  | .lost _ _ => .isFalse fun ⟨_, h⟩ => nomatch h

/-- One thread settles the market of the call. -/
def SettlesOnly (w : World api) (i : Nat) (call : ApiCall) : Prop :=
  ∀ k ∈ call.settles?, ∀ x ∈ w.trace, ∀ k' ∈ x.call.settles?, k'.1 = k.1 → x.tid = i

/-- **No component fails, and a market is settled by one call**: no operation fails, nobody
crashes, RabbitMQ keeps its messages. Idempotency keys may expire. -/
def Regular (c : Config api) : Event api → Prop
  | .run i m => IsOk m ∧ ∀ x ∈ c.waiting i, SettlesOnly c.toWorld i x.1
  | .crash _ => False
  | e => KeepsMessages c e

/-- **No bet is missed.** When a `settle` call selects its bets, none of the market is `PENDING`;
when it saves the market, none was inserted since; and the balances that payouts leave fit in their
column. -/
def NoneMissed (w : World api) (i : Nat) (call : ApiCall) (o : ApiOp) : Prop :=
  (∀ k ∈ call.settles?, o.selects k.1 = true → w.state.betsIn k.1 .PENDING = []) ∧
  (∀ k ∈ call.settles?, o.saves?.isSome = true →
    ∀ x ∈ executedAfter (SelectedBy i k.1) w.trace, ¬ InsertedOn k.1 x) ∧
  ∀ x ∈ o.credits?, fitsInteger (w.state.wallet.balanceOf x.1 + x.2) = true

/-- No bet is inserted on a settled market. -/
def InsertsInTime (s : Store) (o : ApiOp) : Prop :=
  ∀ m ∈ o.inserts?, s.marketStatus m ≠ some .SETTLED

instance (w : World api) (i : Nat) (call : ApiCall) : Decidable (SettlesOnly w i call) :=
  inferInstanceAs (Decidable (∀ k ∈ _, ∀ x ∈ _, ∀ k' ∈ _, _))

instance (w : World api) (i : Nat) (call : ApiCall) (o : ApiOp) :
    Decidable (NoneMissed w i call o) :=
  inferInstanceAs (Decidable ((∀ k ∈ _, _ → _) ∧ (∀ k ∈ _, _ → ∀ x ∈ _, _) ∧ ∀ x ∈ _, _))

instance (s : Store) (o : ApiOp) : Decidable (InsertsInTime s o) :=
  inferInstanceAs (Decidable (∀ m ∈ _, _))

instance : ∀ c e, Decidable (Regular c e)
  | c, .run i m => inferInstanceAs (Decidable (IsOk m ∧ ∀ x ∈ c.waiting i, _))
  | _, .crash _ => inferInstanceAs (Decidable False)
  | c, .spawn i call => inferInstanceAs (Decidable (KeepsMessages c (.spawn i call)))
  | c, .env v => inferInstanceAs (Decidable (KeepsMessages c (.env v)))

/-- **The condition**, in regular runs. -/
def SettlesAll (c : Config api) (e : Event api) : Prop :=
  Regular c e ∧ c.When (fun c i call o => NoneMissed c.toWorld i call o) e ∧
    c.WhenTook (fun c _ _ o => InsertsInTime c.state o) e

instance : ∀ c e, Decidable (SettlesAll c e) :=
  fun _ _ => inferInstanceAs (Decidable (_ ∧ _ ∧ _))

/-- **No bet is stranded**: a bet of a settled market is in a terminal state, and paid if the
market was won. -/
def NoneStranded (w : World api) : Prop :=
  ∀ b ∈ w.state.bets, w.state.marketStatus b.marketId = some .SETTLED →
    b.status ∈ TERMINAL_STATES ∧
    (WinCalled w b.marketId → w.state.Credited b.userId b.id b.payoutCents)

namespace Stranded

/-- What holds in every state. -/
structure Inv (w : World api) : Prop where
  betIds : w.state.BetIds
  marketIds : w.state.MarketIds
  noVoid : w.state.NoVoid
  fits : ∀ b ∈ w.state.bets, fitsInteger b.payoutCents = true
  /-- The bets of a settled market are settled. -/
  closed : ∀ b ∈ w.state.bets, w.state.marketStatus b.marketId = some .SETTLED →
    b.status = .SETTLED
  /-- A settled bet was settled by a call of its market, after its payout. -/
  paid : ∀ b ∈ w.state.bets, b.status = .SETTLED → ∃ x ∈ w.trace, ∃ r,
    x.call = .settle b.marketId r ∧ (r = .WIN → ∃ a, w.state.Credited b.userId b.id a)
  /-- The calls that settle a market have one result. -/
  one : ∀ x ∈ w.trace, ∀ y ∈ w.trace, ∀ m r r', x.call = .settle m r → y.call = .settle m r' →
    r = r'

/-- What no step destroys. -/
structure Le (w w' : World api) : Prop extends Later w w' where
  settled : ∀ id, w.state.betStatus id = some .SETTLED → w'.state.betStatus id = some .SETTLED
  pastPending : ∀ id, w.state.PastPending id → w'.state.PastPending id
  /-- A bet was there before, or was inserted in between. -/
  born : ∀ b' ∈ w'.state.bets, (∃ b ∈ w.state.bets, b.Same b') ∨
    ∃ l, w'.trace = l ++ w.trace ∧ ∃ x ∈ l, InsertedOn b'.marketId x

/-- While thread `i` settles the market: where its bets are. -/
structure Closing (i : Nat) (id : Uuid) (rest : List Bet) (w : World api) : Prop where
  selected : ∃ x ∈ w.trace, SelectedBy i id x = true
  covered : ∀ b ∈ w.state.bets, b.marketId = id → w.state.betStatus b.id = some .SETTLED ∨
    (∃ b₀ ∈ rest, b₀.id = b.id) ∨ ∃ x ∈ executedAfter (SelectedBy i id) w.trace, InsertedOn id x
  members : ∀ b₀ ∈ rest, b₀.marketId = id ∧ w.state.PastPending b₀.id ∧
    ∃ b ∈ w.state.bets, b₀.Same b

/-- The bet of a settlement: past `PENDING`, on the market, paid if it won. -/
def Payable (id betId : Uuid) (r : MarketResult) (w : World api) : Prop :=
  w.state.PastPending betId ∧ ∃ b ∈ w.state.bets, b.id = betId ∧ b.marketId = id ∧
    (r = .WIN → ∃ a, w.state.Credited b.userId b.id a)

/-- What a call knows before an operation. -/
structure Known (i : Nat) (call : ApiCall) (o : ApiOp) (w : World api) : Prop where
  pending : ∀ d, o = .betSave d → d.status = .PENDING
  created : ∀ d, o = .marketCreate d → d.status = .OPEN
  /-- A delivery accepts a pending bet; `settle` settles a bet it has paid. -/
  update : ∀ id st, o = .betUpdate id st →
    (st = .ACCEPTED ∧ w.state.betStatus id = some .PENDING ∧
      (∃ tag p, call = .delivery tag p ∧ p.betId = id) ∧
      ∃ x ∈ w.trace, x.tid = i ∧ x.call = call) ∨
    st = .SETTLED ∧ ∃ m r, call = .settle m r ∧ Payable m id r w
  /-- `settle` closes a market whose bets are settled, but for those inserted since. -/
  close : ∀ m, o = .marketSave m → m.status = .SETTLED →
    (∃ r, call = .settle m.id r) ∧ Closing i m.id [] w

/-- One thread delivers the message of the bet, and the calls that settle the market have one
result. -/
structure Cond (i : Nat) (call : ApiCall) (o : ApiOp) (w w' : World api) : Prop where
  result : ∀ x ∈ w.trace, ∀ m r r', call = .settle m r → x.call = .settle m r' → r = r'
  delivery : ∀ x ∈ w.trace, ∀ tag p tag' p', call = .delivery tag p →
    x.call = .delivery tag' p' → p'.betId = p.betId → x.tid = i
  missed : NoneMissed w i call o
  inTime : w'.trace = ⟨i, call, o, true, w.state⟩ :: w.trace → InsertsInTime w.state o

variable {i j : Nat} {call : ApiCall} {o : ApiOp} {w w' w₁ w₂ : World api}
  {r : Except Err o.Res} {id m : Uuid} {rest bets : List Bet} {b : Bet}

/-! ## What lasts -/

theorem Le.refl (w : World api) : Le w w :=
  ⟨.refl w, fun _ h => h, fun _ h => h, fun b hb => .inl ⟨b, hb, .refl b⟩⟩

theorem Le.trans (h : Le w w₁) (h' : Le w₁ w₂) : Le w w₂ := by
  refine ⟨h.toLater.trans h'.toLater, fun id hs => h'.settled id (h.settled id hs),
    fun id hp => h'.pastPending id (h.pastPending id hp), fun b₂ hb₂ => ?_⟩
  obtain ⟨t, ht⟩ := h.trace
  obtain ⟨t', ht'⟩ := h'.trace
  have htrace : w₂.trace = (t' ++ t) ++ w.trace := by rw [← ht', ← ht, List.append_assoc]
  rcases h'.born b₂ hb₂ with ⟨b₁, hb₁, hsame⟩ | ⟨l, hl, x, hx, hins⟩
  · rcases h.born b₁ hb₁ with ⟨b, hb, hsame'⟩ | ⟨l, hl, x, hx, hins⟩
    · exact .inl ⟨b, hb, hsame'.trans hsame⟩
    · obtain rfl : t = l := List.append_cancel_right (ht.trans hl)
      refine .inr ⟨t' ++ t, htrace, x, List.mem_append_right _ hx, ?_⟩
      rw [hsame.marketId]
      exact hins
  · obtain rfl : t' = l := List.append_cancel_right (ht'.trans hl)
    exact .inr ⟨t' ++ t, htrace, x, List.mem_append_left _ hx, hins⟩

section Lasts

variable (h : Le w w')
include h

theorem credited_le {u betId : Uuid} (hc : ∃ a, w.state.Credited u betId a) :
    ∃ a, w'.state.Credited u betId a := by
  obtain ⟨a, tx, htx, hrest⟩ := hc
  exact ⟨a, tx, h.txs htx, hrest⟩

theorem payable_le {r : MarketResult} (hp : Payable m id r w) : Payable m id r w' := by
  obtain ⟨hpast, b, hb, rfl, rfl, hpaid⟩ := hp
  obtain ⟨b', hb', hsame⟩ := h.bets b hb
  refine ⟨h.pastPending _ hpast, b', hb', hsame.id, hsame.marketId, fun hr => ?_⟩
  rw [hsame.userId, hsame.id]
  exact credited_le h (hpaid hr)

theorem closing_le (hc : Closing i id rest w) : Closing i id rest w' := by
  have hsuffix := executedAfter_suffix (p := SelectedBy i id) h.trace
  refine ⟨h.past hc.selected, fun b' hb' hm => ?_, fun b₀ hb₀ => ?_⟩
  · rcases h.born b' hb' with ⟨b, hb, hsame⟩ | ⟨l, hl, x, hx, hins⟩
    · rw [hsame.id]
      rcases hc.covered b hb (hsame.marketId ▸ hm) with hs | hr | ⟨x, hx, hins⟩
      · exact .inl (h.settled _ hs)
      · exact .inr (.inl hr)
      · exact .inr (.inr ⟨x, hsuffix hx, hins⟩)
    · refine .inr (.inr ⟨x, ?_, hm ▸ hins⟩)
      rw [hl]
      exact mem_executedAfter hc.selected hx
  · obtain ⟨hm, hpast, b, hb, hsame⟩ := hc.members b₀ hb₀
    obtain ⟨b', hb', hsame'⟩ := h.bets b hb
    exact ⟨hm, h.pastPending _ hpast, b', hb', hsame.trans hsame'⟩

end Lasts

/-! ## One operation -/

theorem Known.mayRun (hk : Known i call o w) : w.state.MayRun o := by
  refine ⟨hk.pending, fun id st ho hnone => ?_, fun id st ho => ?_⟩
  · rcases hk.update id st ho with ⟨-, hp, -⟩ | ⟨-, m, r, -, ⟨st', hst', -⟩, -⟩
    · exact absurd (hnone.symm.trans hp) (by simp)
    · exact absurd (hnone.symm.trans hst') (by simp)
  · rcases hk.update id st ho with ⟨hst, -⟩ | ⟨hst, m, r, -, ⟨st', hst', hne⟩, -⟩
    · exact .inl hst
    · exact .inr ⟨hst, fun hp => hne (Option.some.inj (hst'.symm.trans hp))⟩

/-- A settled bet is not updated but to settle it again. -/
theorem settled_exec (hx : api.Exec i call o w r w') (hk : Known i call o w)
    (h : w.state.betStatus id = some .SETTLED) : w'.state.betStatus id = some .SETTLED := by
  obtain ⟨took, htr⟩ := hx.entry
  rcases api_betStatus_cases hx htr id with he | ⟨d, -, hn, -⟩ | ⟨st, st', -, rfl, -, he⟩
  · exact he.trans h
  · exact absurd (hn.symm.trans h) (by simp)
  · rcases hk.update id st rfl with ⟨-, hp, -⟩ | ⟨rfl, -⟩
    · exact absurd (hp.symm.trans h) (by simp)
    · exact he

/-- A bet there is was there before, or the operation inserted it. -/
theorem bet_before (hx : api.Exec i call o w r w') {b' : Bet} (hb : b' ∈ w'.state.bets) :
    (∃ b ∈ w.state.bets, b.Same b') ∨
    ∃ (ch : ApiChoice) (d : BetDraft), o = .betSave d ∧ b' = d.row ch.fresh ch.now ∧
      w.state.rejectsBet ch.fresh d = none ∧ w'.trace = ⟨i, call, o, true, w.state⟩ :: w.trace := by
  obtain ⟨took, htr, ⟨rfl, ch, a, hs⟩ | ⟨-, hs⟩⟩ := api_exec_cases hx
  · rcases (Store.exec_effect hs).bet_before hb with hold | ⟨d, hd, hrej, hrow⟩
    · exact .inl hold
    · exact .inr ⟨ch, d, hd, hrow, hrej, htr⟩
  · exact .inl ⟨b', hs ▸ hb, .refl b'⟩

theorem le_exec (hx : api.Exec i call o w r w') (hk : Known i call o w) : Le w w' := by
  refine ⟨.exec hx, fun id => settled_exec hx hk, fun id => pastPending_exec hx hk.mayRun,
    fun b' hb' => ?_⟩
  rcases bet_before hx hb' with hold | ⟨ch, d, rfl, rfl, -, htr⟩
  · exact .inl hold
  · exact .inr ⟨[_], htr, _, List.mem_singleton_self _, rfl, rfl⟩

/-- The status of a bet, and the one its id has. -/
theorem betStatus_of_mem (h : w.state.BetIds) (hb : b ∈ w.state.bets) :
    w.state.betStatus b.id = some b.status := by
  unfold Store.betStatus
  rw [h.bet_of_mem hb]
  rfl

/-- A bet that was settled is. -/
theorem settled_of_same (h : Le w w') (hw : w.state.BetIds) (hw' : w'.state.BetIds) {b' : Bet}
    (hb : b ∈ w.state.bets) (hb' : b' ∈ w'.state.bets) (hsame : b.Same b')
    (hs : b.status = .SETTLED) : b'.status = .SETTLED := by
  have hst := h.settled b.id (hs ▸ betStatus_of_mem hw hb)
  rw [← hsame.id, betStatus_of_mem hw' hb'] at hst
  exact Option.some.inj hst

theorem closed_exec (hx : api.Exec i call o w r w') (hinv : Inv w) (hk : Known i call o w)
    (hcond : Cond i call o w w') (hids : w'.state.BetIds) {b' : Bet} (hb' : b' ∈ w'.state.bets)
    (hm : w'.state.marketStatus b'.marketId = some .SETTLED) : b'.status = .SETTLED := by
  have hle := le_exec hx hk
  obtain ⟨took, htr⟩ := hx.entry
  rcases bet_before hx hb' with ⟨b, hb, hsame⟩ | ⟨ch, d, rfl, rfl, -, htrue⟩
  · refine settled_of_same hle hinv.betIds hids hb hb' hsame ?_
    rw [hsame.marketId] at hm
    rcases api_status_cases hx htr b.marketId with he | ⟨d, rfl, -, he⟩ | ⟨mk, -, rfl, hid, he⟩
    · exact hinv.closed b hb (he.symm.trans hm)
    · exact absurd (Option.some.inj (he.symm.trans hm)) (by simp [hk.created d rfl])
    · -- the market is closed: none of its bets was inserted since they were selected
      have hst : mk.status = .SETTLED := Option.some.inj (he.symm.trans hm)
      obtain ⟨⟨res, rfl⟩, hclosing⟩ := hk.close mk rfl hst
      rcases hclosing.covered b hb hid.symm with hs | ⟨b₀, hb₀, -⟩ | ⟨x, hx, hins⟩
      · exact Option.some.inj ((betStatus_of_mem hinv.betIds hb).symm.trans hs)
      · exact absurd hb₀ (by simp)
      · exact absurd hins (hcond.missed.2.1 (mk.id, res) rfl rfl x hx)
  · -- a bet that is inserted: its market is open
    have hopen := hcond.inTime htrue d.marketId rfl
    rcases api_status_cases hx htr d.marketId with he | ⟨_, ho, -⟩ | ⟨_, -, ho, -⟩
    · exact absurd (he.symm.trans hm) hopen
    · exact absurd ho (by simp)
    · exact absurd ho (by simp)

theorem paid_exec (hx : api.Exec i call o w r w') (hinv : Inv w) (hk : Known i call o w)
    (hids : w'.state.BetIds) {b' : Bet} (hb' : b' ∈ w'.state.bets) (hs : b'.status = .SETTLED) :
    ∃ x ∈ w'.trace, ∃ res, x.call = .settle b'.marketId res ∧
      (res = .WIN → ∃ a, w'.state.Credited b'.userId b'.id a) := by
  have hle := le_exec hx hk
  obtain ⟨took, htr⟩ := hx.entry
  rcases bet_before hx hb' with ⟨b, hb, hsame⟩ | ⟨ch, d, rfl, rfl, -, -⟩
  · have hst := betStatus_of_mem hids hb'
    rw [hs, hsame.id] at hst
    rw [hsame.marketId, hsame.userId, hsame.id]
    rcases api_betStatus_cases hx htr b.id with he | ⟨d, -, hn, -⟩ | ⟨st, st', -, rfl, -, he⟩
    · have hs₀ := Option.some.inj ((betStatus_of_mem hinv.betIds hb).symm.trans (he.symm.trans hst))
      obtain ⟨x, hx, res, hcall, hpaid⟩ := hinv.paid b hb hs₀
      exact ⟨x, hle.trace.subset hx, res, hcall, fun hr => credited_le hle (hpaid hr)⟩
    · exact absurd (hn.symm.trans (betStatus_of_mem hinv.betIds hb)) (by simp)
    · -- the operation settles it
      obtain rfl := Option.some.inj (he.symm.trans hst)
      rcases hk.update b.id _ rfl with ⟨hst, -⟩ | ⟨-, m, res, rfl, -, b₀, hb₀, hid, rfl, hpaid⟩
      · exact absurd hst (by simp)
      · have heq : b₀ = b := by
          have h₀ := hinv.betIds.bet_of_mem hb₀
          rw [hid, hinv.betIds.bet_of_mem hb] at h₀
          exact (Option.some.inj h₀).symm
        subst heq
        exact ⟨_, htr ▸ List.mem_cons_self, res, rfl, fun hr => credited_le hle (hpaid hr)⟩
  · exact absurd ((hk.pending d rfl).symm.trans hs) (by simp)

/-- **One operation.** -/
theorem inv_exec (hx : api.Exec i call o w r w') (hinv : Inv w) (hk : Known i call o w)
    (hcond : Cond i call o w w') : Inv w' := by
  obtain ⟨ch, he⟩ := api_exec_effect hx
  have hids := he.betIds hinv.betIds
  obtain ⟨took, htr⟩ := hx.entry
  refine ⟨hids, hinv.marketIds.effect he, noVoid_exec hx hk.mayRun hinv.noVoid, fun b hb => ?_,
    fun b hb => closed_exec hx hinv hk hcond hids hb, fun b hb => paid_exec hx hinv hk hids hb,
    fun x hx y hy m res res' hcall hcall' => ?_⟩
  · rcases bet_before hx hb with ⟨b₀, hb₀, hsame⟩ | ⟨ch, d, -, rfl, hrej, -⟩
    · rw [hsame.payoutCents]
      exact hinv.fits b₀ hb₀
    · exact Store.rejectsBet_payout hrej
  · rw [htr] at hx hy
    rcases List.mem_cons.mp hx with rfl | hx
    · rcases List.mem_cons.mp hy with rfl | hy
      · exact (ApiCall.settle.inj (hcall.symm.trans hcall')).2
      · exact hcond.result y hy m res res' hcall hcall'
    · rcases List.mem_cons.mp hy with rfl | hy
      · exact (hcond.result x hx m res' res hcall' hcall).symm
      · exact hinv.one x hx y hy m res res' hcall hcall'

/-- What a thread knows survives the operations of the others: nobody else delivers a message of
its bet. -/
theorem known_exec (hx : api.Exec i call o w r w') (hk : Known i call o w)
    (hcond : Cond i call o w w') (hj : j ≠ i) {call' : ApiCall} {o' : ApiOp}
    (hk' : Known j call' o' w) : Known j call' o' w' := by
  have hle := le_exec hx hk
  refine ⟨hk'.pending, hk'.created, fun id st ho => ?_, fun m ho hst => ?_⟩
  · rcases hk'.update id st ho with ⟨hst, hp, ⟨tag, p, rfl, hid⟩, x, hxm, htid, hcall⟩ |
      ⟨hst, m, res, hcall, hp⟩
    · refine .inl ⟨hst, ?_, ⟨tag, p, rfl, hid⟩, x, hle.trace.subset hxm, htid, hcall⟩
      obtain ⟨took, htr⟩ := hx.entry
      rcases api_betStatus_cases hx htr id with he | ⟨d, -, hn, -⟩ | ⟨st', st₀, -, rfl, -, -⟩
      · exact he.trans hp
      · exact absurd (hn.symm.trans hp) (by simp)
      · rcases hk.update id st' rfl with ⟨-, -, ⟨tag', p', rfl, hid'⟩, -⟩ |
          ⟨-, m, res, -, ⟨st₁, hst₁, hne⟩, -⟩
        · have htid' := hcond.delivery x hxm tag' p' tag p rfl hcall (hid.trans hid'.symm)
          exact absurd (htid.symm.trans htid') hj
        · exact absurd (Option.some.inj (hst₁.symm.trans hp)) hne
    · exact .inr ⟨hst, m, res, hcall, payable_le hle hp⟩
  · obtain ⟨hcall, hclosing⟩ := hk'.close m ho hst
    exact ⟨hcall, closing_le hle hclosing⟩

/-- Starting a call, Redis and RabbitMQ change nothing of it. -/
theorem same_tables {s s' : Store} {l : List (Entry api)} (h : s.SameTables s')
    (hinv : Inv ⟨s, l⟩) : Inv ⟨s', l⟩ ∧ Le ⟨s, l⟩ ⟨s', l⟩ := by
  have hle : Le ⟨s, l⟩ ⟨s', l⟩ := by
    refine ⟨.same h, fun id => ?_, fun id => ?_, fun b hb => .inl ⟨b, h.bets ▸ hb, .refl b⟩⟩
    · exact fun hs => (h.betStatus id).trans hs
    · rintro ⟨st, hst, hne⟩
      exact ⟨st, (h.betStatus id).trans hst, hne⟩
  refine ⟨⟨h.betIds hinv.betIds, h.marketIds hinv.marketIds, fun id st hst => ?_, fun b hb => ?_,
    fun b hb hm => ?_, fun b hb hs => ?_, hinv.one⟩, hle⟩
  · exact hinv.noVoid id st ((h.betStatus id).symm.trans hst)
  · exact hinv.fits b (h.bets ▸ hb)
  · exact hinv.closed b (h.bets ▸ hb) ((h.marketStatus _).symm.trans hm)
  · obtain ⟨x, hx, res, hcall, hpaid⟩ := hinv.paid b (h.bets ▸ hb) hs
    exact ⟨x, hx, res, hcall, fun hr => credited_le hle (hpaid hr)⟩

theorem known_same {s s' : Store} {l : List (Entry api)} (h : s.SameTables s')
    (hle : Le ⟨s, l⟩ ⟨s', l⟩) (hk : Known i call o ⟨s, l⟩) : Known i call o ⟨s', l⟩ := by
  refine ⟨hk.pending, hk.created, fun id st ho => ?_, fun m ho hst => ?_⟩
  · rcases hk.update id st ho with ⟨hst, hp, hrest⟩ | ⟨hst, m, res, hcall, hp⟩
    · exact .inl ⟨hst, (h.betStatus id).trans hp, hrest⟩
    · exact .inr ⟨hst, m, res, hcall, payable_le hle hp⟩
  · obtain ⟨hcall, hclosing⟩ := hk.close m ho hst
    exact ⟨hcall, closing_le hle hclosing⟩

/-- No bet is missed, and every call knows what it needs for the next operation. -/
def knowledge : Knowledge api where
  __ := apiKnowledge Inv Le Known (fun i call o w _ w' => Cond i call o w w') Le.refl Le.trans
    (fun hinv hK hcond hx =>
      ⟨inv_exec hx hinv hK hcond, le_exec hx hK, fun _ _ _ hj hk => known_exec hx hK hcond hj hk⟩)
    fun hsame hinv =>
      have h := same_tables hsame hinv
      ⟨h.1, h.2, fun _ _ _ hk => known_same hsame h.2 hk⟩
  modes := IsOk

/-! ## The calls -/

/-- Operations that need no knowledge. -/
structure Harmless (o : ApiOp) : Prop where
  pending : ∀ d, o = .betSave d → d.status = .PENDING
  created : ∀ d, o = .marketCreate d → d.status = .OPEN
  update : ∀ id st, o ≠ .betUpdate id st
  close : ∀ m, o = .marketSave m → m.status ≠ .SETTLED

theorem Harmless.known (h : Harmless o) (w : World api) : knowledge.K i call o w :=
  ⟨h.pending, h.created, fun id st ho => absurd ho (h.update id st),
    fun m ho hst => absurd hst (h.close m ho)⟩

/-- An operation that is not made to fail. -/
theorem exec_of_execIn (hx : api.ExecIn IsOk i call o w r w') :
    ∃ ch, w.state.exec ch o = (r, w'.state) := by
  obtain ⟨_, s, b, ⟨ch, rfl⟩, ha, rfl⟩ := hx
  obtain ⟨rfl, rfl, -⟩ : (w.state.exec ch o).1 = r ∧ (w.state.exec ch o).2 = s ∧ _ := by
    simpa [Machine.answer] using ha
  exact ⟨ch, rfl⟩

/-- **A worker updates a bet that is `PENDING`.** -/
theorem safe_transitionStatus (tag : Nat) (p : BetPlacementPayload) (w : World api) :
    knowledge.rules.Safe i (.delivery tag p) (fun _ _ => True)
      (BettingService.transitionStatus p.betId .ACCEPTED) w := by
  refine ApiRules.safe_transitionStatus (Harmless.known (by constructor <;> simp) w)
    fun {bet w₁ w₂} hx hst => ?_
  obtain ⟨took, htr⟩ := hx.entry
  refine ⟨by simp, by simp, fun id st ho => ?_, by simp⟩
  obtain ⟨rfl, rfl⟩ := ApiOp.betUpdate.inj ho
  exact .inl ⟨rfl, hst, ⟨tag, p, rfl, rfl⟩, _, htr ▸ List.mem_cons_self, rfl, rfl⟩

theorem safe_consume (tag : Nat) (p : BetPlacementPayload) (w : World api) :
    knowledge.rules.Safe i (.delivery tag p) (fun _ _ => True)
      (SettlementWorker.consume tag p) w :=
  ApiRules.safe_consume (fun _ => Harmless.known) (by constructor <;> simp)
    (by constructor <;> simp) (by constructor <;> simp) (safe_transitionStatus tag p) w

/-! ## `settle` -/

variable {market : Market} {result : MarketResult}

theorem closing_lasts : knowledge.Lasts (Closing i id rest) := fun hle h => closing_le hle h

/-- When no bet is pending, the list that was selected has all that is left to settle. -/
theorem closing_of_betFind (hinv : Inv w)
    (hcond : Cond i (.settle id result) (.betFind id .ACCEPTED) w w')
    (hx : api.Exec i (.settle id result) (.betFind id .ACCEPTED) w (.ok bets) w') :
    Closing i id bets w' := by
  obtain ⟨hperm, hs⟩ := api_betFind_ok hx
  obtain ⟨took, htr⟩ := hx.entry
  have hnone := hcond.missed.1 (id, result) rfl (by simp [ApiOp.selects])
  refine ⟨⟨_, htr ▸ List.mem_cons_self, by simp [SelectedBy, ApiOp.selects]⟩,
    fun b hb hm => ?_, fun b₀ hb₀ => ?_⟩
  · rw [hs] at hb ⊢
    have hst := betStatus_of_mem hinv.betIds hb
    rcases hinv.noVoid b.id b.status hst with hp | ha | hset
    · have hmem : b ∈ w.state.betsIn id .PENDING :=
        List.mem_filter.mpr ⟨hb, by simp [hm, hp]⟩
      exact absurd (hnone ▸ hmem) (by simp)
    · exact .inr (.inl ⟨b, hperm.mem_iff.mpr (List.mem_filter.mpr ⟨hb, by simp [hm, ha]⟩), rfl⟩)
    · exact .inl (hset ▸ hst)
  · obtain ⟨hmem, hsel⟩ := List.mem_filter.mp (hperm.subset hb₀)
    obtain ⟨hm, ha⟩ : b₀.marketId = id ∧ b₀.status = .ACCEPTED := by simpa using hsel
    rw [hs]
    exact ⟨hm, ⟨.ACCEPTED, ha ▸ betStatus_of_mem hinv.betIds hmem, by simp⟩, b₀, hmem, .refl b₀⟩

/-- **The payout of a bet succeeds, and leaves its row.** -/
theorem safe_creditPayout (hw : Closing i id (b :: rest) w) :
    knowledge.rules.Safe i (.settle id result) (fun r w' => r = .ok () ∧
      Closing i id (b :: rest) w' ∧ (result = .WIN → ∃ a, w'.state.Credited b.userId b.id a))
      (MarketService.creditPayout market result b) w := by
  cases result with
  | LOSS => exact ⟨rfl, hw, fun h => absurd h (by simp)⟩
  | WIN =>
    unfold MarketService.creditPayout
    rw [Api.wallet_credit]
    refine Rules.safe_seq (Q := fun r w' => (∃ dto, r = .ok dto) ∧ Closing i id (b :: rest) w' ∧
      ∃ a, w'.state.Credited b.userId b.id a) ?_ (fun _ _ h => ⟨rfl, h.2.1, fun _ => h.2.2⟩)
      fun e _ h => absurd h.1 (by simp)
    refine Rules.safe_bind.mpr (Knowledge.safe_opIn closing_lasts hw
      (Harmless.known (by constructor <;> simp) w) fun {w₁ r w₂} _ _ _ _ hx _ hw₂ => ?_)
    obtain ⟨ch, hs⟩ := exec_of_execIn hx
    rcases r with e | _ | tx
    · exact absurd (Prod.mk.inj hs).1 (by simp [WalletDb.exec, WalletDb.execQuery])
    · -- no row yet: the credit commits, since it fits
      refine Knowledge.safe_opIn closing_lasts hw₂ (Harmless.known (by constructor <;> simp) w₂)
        fun {w₃ r w₄} hinv hcond _ hw₃ hx _ hw₄ => ?_
      obtain ⟨-, -, b', hb', hsame⟩ := hw₃.members b List.mem_cons_self
      have hfits := hinv.fits b' hb'
      rw [hsame.payoutCents] at hfits
      have hbalance := hcond.missed.2.2 (b.userId, b.payoutCents) rfl
      obtain ⟨ch, hs⟩ := exec_of_execIn hx
      obtain ⟨dto, db, hok⟩ := WalletDb.applyAtomic_credit ch.toWalletChoice (some b.id)
        ((some (MarketService.payoutDescription market.name)).getD "Bet settlement payout")
        hfits hbalance
      obtain rfl : .ok dto = r := by
        rw [← (Prod.mk.inj hs).1]
        exact (congrArg Prod.fst hok).symm
      obtain ⟨tx, hrows, hu, ht, ha, href⟩ := api_apply_ok hx.exec
      refine ⟨⟨dto, rfl⟩, hw₄, b.payoutCents, tx, ?_, ht, hu, href, ha⟩
      rw [hrows]
      exact List.mem_append_right _ (List.mem_singleton_self tx)
    · -- a row of this bet
      obtain ⟨htx, hsame⟩ := api_lookup_some hx.exec
      obtain ⟨hmem, hmatch⟩ := List.mem_filter.mp htx
      obtain ⟨hu, href, ht⟩ := of_decide_eq_true hmatch
      exact ⟨⟨_, rfl⟩, hw₂, tx.amountCents, tx, hsame ▸ hmem, ht .CREDIT rfl, hu, href, rfl⟩

/-- A bet that is settled leaves the list. -/
theorem Closing.settle (h : Closing i id (b :: rest) w)
    (hs : w.state.betStatus b.id = some .SETTLED) : Closing i id rest w := by
  refine ⟨h.selected, fun b' hb' hm => ?_, fun b₀ hb₀ => h.members b₀ (List.mem_cons_of_mem b hb₀)⟩
  rcases h.covered b' hb' hm with hs' | ⟨b₀, hb₀, hid⟩ | hins
  · exact .inl hs'
  · rcases List.mem_cons.mp hb₀ with rfl | hb₀
    · exact .inl (hid ▸ hs)
    · exact .inr (.inl ⟨b₀, hb₀, hid⟩)
  · exact .inr (.inr hins)

/-- **One round of the loop of `settle`**: nothing fails, so the bet leaves the list. -/
theorem safe_settleBet (hw : Closing i id (b :: rest) w) :
    knowledge.rules.Safe i (.settle id result) (fun _ => Closing i id rest)
      (MarketService.settleBet market result b) w := by
  refine Rules.safe_try (Q := fun r w' => r = .ok () ∧ Closing i id rest w')
    (Rules.safe_seq (safe_creditPayout hw) (fun _ w h => ?_) fun e _ h => absurd h.1 (by simp))
    (fun _ _ h => h.2) fun e _ h => absurd h.1 (by simp)
  obtain ⟨-, hw, hpaid⟩ := h
  obtain ⟨hm, hpast, b', hb', hsame⟩ := hw.members b List.mem_cons_self
  have hknown : Known i (.settle id result) (.betUpdate b.id .SETTLED) w := by
    refine ⟨by simp, by simp, fun id' st ho => ?_, by simp⟩
    obtain ⟨rfl, rfl⟩ := ApiOp.betUpdate.inj ho
    refine .inr ⟨rfl, id, result, rfl, hpast, b', hb', hsame.id, hsame.marketId.trans hm, ?_⟩
    rw [hsame.userId, hsame.id]
    exact hpaid
  refine Rules.safe_bind.mpr (Knowledge.safe_opIn closing_lasts hw hknown
    fun {w₁ r w₂} _ _ hk _ hx _ hw₂ => ?_)
  obtain ⟨ch, hs⟩ := exec_of_execIn hx
  obtain rfl : .ok () = r := (Prod.mk.inj hs).1
  have hsettled : w₂.state.betStatus b.id = some .SETTLED := by
    obtain ⟨st, hst, -⟩ := (hk.update b.id .SETTLED rfl).elim
      (fun h => absurd h.1 (by simp)) fun ⟨_, _, _, _, h⟩ => h.1
    obtain ⟨-, -, htr⟩ := api_exec_ok hx.exec
    rw [api_betUpdate hx.exec htr rfl, hst]
    rfl
  refine Knowledge.safe_opIn closing_lasts (hw₂.settle hsettled)
    (Harmless.known (by constructor <;> simp) w₂) fun {w₃ r w₄} _ _ _ _ hx _ hw₄ => ⟨?_, hw₄⟩
  obtain ⟨ch, hs⟩ := exec_of_execIn hx
  exact (Prod.mk.inj hs).1.symm

/-- **`settle` closes a market whose bets it has settled.** -/
theorem safe_settle (id : Uuid) (result : MarketResult) (w : World api) :
    knowledge.rules.Safe i (.settle id result) (fun _ _ => True)
      (MarketService.settle id result) w := by
  unfold MarketService.settle
  refine Rules.safe_bind.mpr (ApiRules.safe_getMarketById
    (Harmless.known (by constructor <;> simp) w) (fun {m w₁ w₂} hinv hx _ => ?_) fun _ _ => trivial)
  obtain rfl : m.id = id := hinv.marketIds id m (api_marketFindOne_ok hx).1.symm
  dsimp only
  split
  · trivial
  refine Rules.safe_bind.mpr (Knowledge.safe_op' (Harmless.known (by constructor <;> simp) w₂)
    fun {w₁ r w₂} hinv hcond hx _ => ?_)
  rcases r with e | bets
  · trivial
  refine Rules.safe_seq (Q := fun r w' => ∀ x, r = .ok x → Closing i m.id [] w')
    (Rules.safe_forM_rest (J := Closing i m.id) (fun b bs w hw => (safe_settleBet hw).mono ?_)
      (fun _ h _ _ => h) (closing_of_betFind hinv hcond hx)) (fun x w hw => ?_) fun _ _ _ => trivial
  · rintro (e | x) w h
    · exact fun _ he => absurd he (by simp)
    · exact h
  replace hw := hw x rfl
  have hknown : Known i (.settle m.id result) (.marketSave { m with status := .SETTLED }) w := by
    refine ⟨by simp, by simp, by simp, fun m' ho _ => ?_⟩
    obtain rfl := ApiOp.marketSave.inj ho
    exact ⟨⟨result, rfl⟩, hw⟩
  refine ApiRules.safe_bind' (Knowledge.safe_op' hknown fun _ _ _ _ => trivial) fun saved w => ?_
  exact ApiRules.safe_bind' (Knowledge.safe_of_known (fun _ => Harmless.known)
    (Api.all_op (by constructor <;> simp)) w) fun _ _ => trivial

/-- Every call is safe: only deliveries and `settle` update bets, only `settle` closes markets. -/
theorem safe_body (call : ApiCall) (w : World api) :
    knowledge.rules.Safe i call (fun _ _ => True) call.body w := by
  by_cases hcall : (∃ tag p, call = .delivery tag p) ∨ ∃ id r, call = .settle id r
  · rcases hcall with ⟨tag, p, rfl⟩ | ⟨id, r, rfl⟩
    · exact ApiRules.safe_bind' (safe_consume tag p w) fun _ _ => trivial
    · exact ApiRules.safe_map (safe_settle id r w)
  · refine Knowledge.safe_of_known (fun _ => Harmless.known)
      ((body_footprint call).mono fun o ho => ?_) w
    cases ho with
    | settleBet id r b | settleSave id r m => exact absurd (.inr ⟨id, r, rfl⟩) hcall
    | accept tag p => exact absurd (.inl ⟨tag, p, rfl⟩) hcall
    | _ => constructor <;> simp [BettingService.newBet]

/-- What a run without failures gives an operation. -/
theorem cond_of_settlesAll {c : Config api} (h : api.Reach SettlesAll (api.init .empty) c)
    {m : Mode ApiChoice Err} (hok : SettlesAll c (.run i m)) (hw : c.Waits i call o)
    (hx : api.ExecIn (· = m) i call o c.toWorld r w') : Cond i call o c.toWorld w' := by
  have hkeeps : api.Reach KeepsMessages (api.init .empty) c := h.mono fun c e hok => by
    cases e with
    | run i m => trivial
    | crash i => trivial
    | spawn i call => exact hok.1
    | env v => exact hok.1
  have hone := api_delivered_once hkeeps
  have hstarted := api.entry_started h
  have hsettles := hok.1.2 (call, o) hw.waiting
  refine ⟨fun x hx m res res' hcall hcall' => ?_, fun x hx tag p tag' p' hcall hcall' hid => ?_,
    hok.2.1.run hw, hok.2.2.run hw hx⟩
  · have htid : x.tid = i :=
      hsettles (m, res) (by rw [hcall]; rfl) x hx (m, res') (by rw [hcall']; rfl) rfl
    have hsame := (htid ▸ hstarted x hx).unique hw.started
    exact (ApiCall.settle.inj (hcall.symm.trans (hsame.symm.trans hcall'))).2
  · refine hone.once x.tid i p.betId ⟨tag', p', ?_, hid⟩ ⟨tag, p, ?_, rfl⟩
    · exact hcall' ▸ hstarted x hx
    · exact hcall ▸ hw.started

theorem reachable_inv {c : Config api} (h : api.Reach SettlesAll (api.init .empty) c) :
    Inv c.toWorld :=
  Knowledge.reach_inv (D := knowledge) (fun _ _ _ hok => hok.2.1.1)
    (fun _ _ _ _ _ _ _ hok hw hx => cond_of_settlesAll hok.1 hok.2 hw hx)
    (fun _ call w _ => safe_body call w)
    ⟨by simp [Store.BetIds, Store.empty], by simp [Store.MarketIds, Store.empty],
      by simp [Store.NoVoid, Store.betStatus, Store.bet, Store.empty], by simp [Store.empty],
      by simp [Store.empty], by simp [Store.empty], by simp⟩ h.reached

end Stranded

/-! ## Whole runs -/

/-- **No bet is stranded, in every run without failures in which none is missed.** -/
theorem api_none_stranded {c : Config api} (h : api.Reach SettlesAll (api.init .empty) c) :
    NoneStranded c.toWorld := by
  have hinv := Stranded.reachable_inv h
  have hpayout := Payout.reachable_inv (h.mono fun _ _ _ => trivial)
  intro b hb hm
  have hs := hinv.closed b hb hm
  refine ⟨hs ▸ by decide, ?_⟩
  rintro ⟨x, hx, hwin⟩
  -- the call that settled the bet had the same result, and paid it
  obtain ⟨y, hy, res, hcall, hpaid⟩ := hinv.paid b hb hs
  obtain ⟨a, tx, htx, ht, hu, href, -⟩ := hpaid (hinv.one y hy x hx _ _ _ hcall hwin)
  obtain ⟨b', hb', -, href', ha, -⟩ := hpayout.credits tx htx ht
  have hid : b'.id = b.id := Option.some.inj (href'.symm.trans href)
  have heq : b' = b := by
    have h' := hinv.betIds.bet_of_mem hb'
    rw [hid, hinv.betIds.bet_of_mem hb] at h'
    exact (Option.some.inj h').symm
  exact ⟨tx, htx, ht, hu, href, heq ▸ ha⟩

/-- A bet that is accepted before its market is won: it is paid and settled. -/
theorem api_none_stranded_won : ∃ c, api.Reach SettlesAll (api.init .empty) c ∧
    c.state.marketStatus 50 = some .SETTLED ∧ NoneStranded c.toWorld := by
  obtain ⟨c, hr, hst⟩ : ∃ c, api.replay (api.init .empty) acceptThenWin = some c ∧
      c.state.marketStatus 50 = some .SETTLED := ⟨_, rfl, rfl⟩
  have h : api.Reach SettlesAll (api.init .empty) c := .of_meets .init hr (by decide)
  exact ⟨c, h, hst, api_none_stranded h⟩

/-- The market is won while the message of the bet is still in the queue. -/
def settledTooEarly : List (Event api) :=
  betPlaced ++ .spawn 3 (.settle 50 .WIN) :: proceed 3 4 ++
  .spawn 4 (.delivery 0 betMessage) :: proceed 4 3

/-- Nothing fails, nobody is at work and no message is left, but the bet is accepted on a settled
market. -/
theorem api_bet_stranded : ∃ c, api.Reach Regular (api.init .empty) c ∧ c.Quiet ∧
    c.state.betPlacement = [] ∧ ¬ NoneStranded c.toWorld := by
  obtain ⟨c, hr, hquiet, hqueue, b, hb, hm, hst⟩ : ∃ c,
      api.replay (api.init .empty) settledTooEarly = some c ∧
      (∀ i ∈ settledTooEarly.filterMap Event.spawns?, c.waiting i = none) ∧
      c.state.betPlacement = [] ∧ ∃ b ∈ c.state.bets,
        c.state.marketStatus b.marketId = some .SETTLED ∧ b.status = .ACCEPTED :=
    ⟨_, rfl, by decide, rfl, by decide⟩
  refine ⟨c, .of_meets .init hr (by decide), api.quiet_of_replay hr hquiet, hqueue, fun h => ?_⟩
  exact absurd (h b hb hm).1 (by rw [hst]; decide)

end BoltBet
