import BoltBet.Market.PartialFailure

/-!
# Notifications that fail

`createMarket`, `updateStatus` and `settle` publish what they did. The notification of a bet is
published inside the `try` of its round: its failure "must not roll back the financial settlement",
and does not. The notification of the market is published after the market was saved, with nothing
around it: its failure is thrown to a caller whose call has been carried out.

* `PublishEnds`: how the publishes of one call end. Everything else ends as `other` says.
* `Reaches`: the calls that get to the notification of the market, in terms of their input.
* `call_beside`: the call under a pattern and under the pattern without failures.
* `unheard_iff`: the two have one outcome exactly when the notification of the market gets through
  or is not reached.
-/

namespace BoltBet

open Async PartialFailure

/-- Other notifications. -/
def Store.withNotices (s : Store) (l : List NotificationPayload) : Store :=
  { s with notifications := l }

namespace Publishing

/-- How the publishes of a call end: the notification of each bet, and that of the market. -/
structure PublishEnds where
  ofBet : Uuid → Mode ApiChoice Err
  ofMarket : Mode ApiChoice Err

/-- Every publish succeeds. -/
def allHeard : PublishEnds := ⟨fun _ => .ok {}, .ok {}⟩

/-- How the operations of a call end. -/
def faults (other : Faults) (p : PublishEnds) : Faults
  | .publishNotification (.BET_SETTLED _ betId _ _ _) => p.ofBet betId
  | .publishNotification _ => p.ofMarket
  | o => other o

/-- The calls that publish. -/
inductive MarketCall where
  | createMarket (dto : CreateMarketDto)
  | updateStatus (marketId : Uuid) (status : MarketStatus)
  | settle (marketId : Uuid) (result : MarketResult)

/-- The program of a call. -/
def MarketCall.body : MarketCall → Prog ApiSig MarketResponseDto
  | .createMarket dto => MarketService.createMarket dto
  | .updateStatus marketId status => MarketService.updateStatus marketId status
  | .settle marketId result => MarketService.settle marketId result

/-- What a call leaves for its caller and in the tables. -/
structure Outcome where
  answer : Except Err MarketResponseDto
  markets : Uuid → Option Market
  bets : List Bet
  wallet : WalletDb

/-- The outcome of a call. -/
def outcome (i : Nat) (f : Faults) (call : MarketCall) (s : Store) : Option Outcome :=
  (api.finishBy i f call.body s).map fun x => ⟨x.1, x.2.markets, x.2.bets, x.2.wallet⟩

/-- Both patterns lead to one outcome. -/
def SameOutcome (call : MarketCall) (s : Store) (f g : Faults) : Prop :=
  ∀ i, ∃ x, outcome i f call s = some x ∧ outcome i g call s = some x

/-- The market as `marketRepo.create` makes it from the request. -/
def draft (dto : CreateMarketDto) : MarketDraft where
  eventId := dto.eventId
  name := dto.name
  oddsInt := dto.oddsInt
  status := .OPEN

/-- A market that is not settled is read, and written back with this status. -/
def Rewrites (other : Faults) (s : Store) (id : Uuid) (status : MarketStatus) : Prop :=
  ∃ market, s.markets id = some market ∧ market.status ≠ .SETTLED ∧
    IsOk (other (.marketFindOne id)) ∧ IsOk (other (.marketSave { market with status }))

/-- The call gets to the notification of the market. -/
def Reaches (other : Faults) (s : Store) : MarketCall → Prop
  | .createMarket dto => ∃ ch, other (.marketCreate (draft dto)) = .ok ch ∧
      fitsInteger dto.oddsInt = true ∧ s.markets ch.fresh = none
  | .updateStatus id status => Rewrites other s id status
  | .settle id _ => IsOk (other (.betFind id .ACCEPTED)) ∧ Rewrites other s id .SETTLED

variable {i : Nat} {other : Faults} {p : PublishEnds} {s s' t : Store} {α : Type}

/-! ## Who hears of it -/

/-- The operations that publish no notification. -/
def Silent (o : ApiOp) : Prop := ∀ payload, o ≠ .publishNotification payload

/-- Nothing reads the notifications. -/
theorem exec_withNotices {ch : ApiChoice} {o : ApiOp} (ho : Silent o)
    (l : List NotificationPayload) :
    (s.withNotices l).exec ch o = ((s.exec ch o).1, (s.exec ch o).2.withNotices l) := by
  cases o with
  | publishNotification payload => exact absurd rfl (ho payload)
  | betSave d =>
    have hr : (s.withNotices l).rejectsBet ch.fresh d = s.rejectsBet ch.fresh d := rfl
    simp only [Store.exec, hr]
    split <;> rfl
  | marketCreate d =>
    have hm : (s.withNotices l).markets = s.markets := rfl
    simp only [Store.exec, hm]
    split_ifs <;> rfl
  | _ => rfl

/-- The same tables, perhaps other notifications. -/
def Unheard (s t : Store) : Prop := ∃ l, t = s.withNotices l

theorem Unheard.markets (h : Unheard s t) : t.markets = s.markets := by
  obtain ⟨l, rfl⟩ := h
  rfl

theorem faults_silent {o : ApiOp} (ho : Silent o) : faults other p o = other o := by
  cases o with
  | publishNotification payload => exact absurd rfl (ho payload)
  | _ => rfl

/-- An operation that publishes nothing goes the same way with other notifications. -/
theorem answer_withNotices {o : ApiOp} (ho : Silent o) (m : Mode ApiChoice Err)
    (l : List NotificationPayload) : api.answer i m o (s.withNotices l) =
      (api.answer i m o s).map fun x => (x.1, x.2.1.withNotices l, x.2.2) := by
  cases m with
  | ok ch => exact congrArg (fun x => some (x.1, x.2, x.1.toBool)) (exec_withNotices ho l)
  | fail e => rfl
  | lost ch e =>
    exact congrArg (fun x : Except Err o.Res × Store =>
      some (Except.error (α := o.Res) e, x.2, x.1.toBool)) (exec_withNotices ho l)

/-- An operation that publishes nothing, beside itself. -/
theorem answer_beside {o : ApiOp} (ho : Silent o) (h : Unheard s t) :
    ∃ r s₁ t₁ a b, api.answer i (faults other p o) o s = some (r, s₁, a) ∧
      api.answer i (faults other allHeard o) o t = some (r, t₁, b) ∧ Unheard s₁ t₁ := by
  obtain ⟨l, rfl⟩ := h
  obtain ⟨r, s₁, took, hx⟩ := api_answers (i := i) (other o) o s
  rw [faults_silent ho, faults_silent ho, answer_withNotices ho, hx]
  exact ⟨r, s₁, _, took, took, rfl, rfl, l, rfl⟩

/-- A program that publishes nothing. -/
theorem silent_beside {q : Prog ApiSig α} (hq : q.All Silent) (h : Unheard s t) :
    api.Beside i (faults other p) (faults other allHeard) (Agrees Unheard) q s t :=
  Machine.beside_of_all hq (fun _ _ _ ho hR => answer_beside ho hR) h

/-- A publish changes no table, whichever way it ends. -/
theorem publish_answer (m : Mode ApiChoice Err) (payload : NotificationPayload) (s : Store) :
    ∃ r l took, api.answer i m (.publishNotification payload) s =
      some (r, s.withNotices l, took) ∧ (r = .ok () ↔ IsOk m) := by
  cases m with
  | ok ch => exact ⟨_, _, _, rfl, iff_of_true rfl ⟨ch, rfl⟩⟩
  | fail e => exact ⟨_, s.notifications, _, rfl, iff_of_false (by simp) (by simp [IsOk])⟩
  | lost ch e => exact ⟨_, _, _, rfl, iff_of_false (by simp) (by simp [IsOk])⟩

/-- A publish beside one that succeeds. -/
theorem publish_beside (payload : NotificationPayload) (h : Unheard s t) :
    api.Beside i (faults other p) (faults other allHeard) (fun x y s' t' => Unheard s' t' ∧
        y = .ok () ∧ (x = .ok () ↔ IsOk (faults other p (.publishNotification payload))))
      (Api.publishNotification payload) s t := by
  obtain ⟨l, rfl⟩ := h
  have hheard : faults other allHeard (.publishNotification payload) = .ok {} := by
    cases payload <;> rfl
  obtain ⟨x, l₁, a, hx, hiff⟩ := publish_answer (i := i)
    (faults other p (.publishNotification payload)) payload s
  obtain ⟨y, l₂, b, hy, hok⟩ := publish_answer (i := i) (.ok {}) payload (s.withNotices l)
  exact Machine.beside_perform hx (hheard ▸ hy) ⟨⟨l₂, rfl⟩, hok.mpr ⟨{}, rfl⟩, hiff⟩

/-! ## One call -/

/-- The round of a bet: the `try` swallows what its publish throws. -/
theorem settleBet_beside (market : Market) (result : MarketResult) (b : Bet) (h : Unheard s t) :
    api.Beside i (faults other p) (faults other allHeard) (Done Unheard)
      (MarketService.settleBet market result b) s t := by
  have hpayout : (MarketService.creditPayout market result b).All Silent :=
    all_creditPayout (fun _ => nofun) fun _ _ => nofun
  have hupdate : (Api.betUpdate b.id .SETTLED).All Silent := Api.all_op nofun
  refine Machine.Beside.swallow ((silent_beside hpayout h).bind (fun _ _ _ _ h₁ => ?_)
    fun _ _ _ _ h₁ => h₁)
  refine (silent_beside hupdate h₁).bind (fun _ _ _ _ h₂ => ?_) fun _ _ _ _ h₂ => h₂
  exact (publish_beside _ h₂).mono fun _ _ _ _ hq => hq.1

/-- The two runs of a call: the same tables, and the same answer exactly when the notification of
the market is not reached or gets through. -/
def Told (p : PublishEnds) (reaches : Prop) (x y : Except Err MarketResponseDto) (s' t' : Store) :
    Prop :=
  Unheard s' t' ∧ (x = y ↔ (reaches → IsOk p.ofMarket))

/-- The call ended before. -/
theorem told_before {reaches : Prop} {x : Except Err MarketResponseDto} (h : Unheard s t)
    (hnot : ¬ reaches) : Told p reaches x x s t :=
  ⟨h, iff_of_true rfl fun hr => absurd hr hnot⟩

/-- The end of a call: the notification of the market, and the answer. -/
theorem announce_beside {n : NotificationPayload} {dto : MarketResponseDto} {reaches : Prop}
    (hn : faults other p (.publishNotification n) = p.ofMarket) (hr : reaches)
    (h : Unheard s t) :
    api.Beside i (faults other p) (faults other allHeard) (Told p reaches) (do
      Api.publishNotification n
      return dto) s t := by
  obtain ⟨x, y, s', t', hs, ht, hU, rfl, hiff⟩ := publish_beside n h
  rw [hn] at hiff
  -- the publish that is heard goes on to the answer
  refine ⟨x.map fun _ => dto, .ok dto, s', t', ?_,
    Machine.finishBy_bind.mpr (.inl ⟨(), t', ht, rfl⟩), hU, ?_⟩
  · cases x with
    | ok u => exact Machine.finishBy_bind.mpr (.inl ⟨u, s', hs, rfl⟩)
    | error e => exact Machine.finishBy_bind.mpr (.inr ⟨e, hs, rfl⟩)
  · cases x with
    | ok u => exact iff_of_true rfl fun _ => hiff.mp rfl
    | error e =>
      exact iff_of_false nofun fun hok => absurd (hiff.mpr (hok hr)) (by simp)

/-- The end of `updateStatus` and of `settle`: the market is saved and announced. -/
theorem save_beside {entity : Market} {reaches : Prop}
    (hr : reaches ↔ IsOk (other (.marketSave entity))) (h : Unheard s t) :
    api.Beside i (faults other p) (faults other allHeard) (Told p reaches) (do
      let saved ← Api.marketSave entity
      Api.publishNotification (.MARKET_UPDATED saved.id saved.name saved.status saved.oddsInt)
      return saved.toDto) s t := by
  have hsave : (Api.marketSave entity).All Silent := Api.all_op nofun
  refine (silent_beside hsave h).bind (fun saved s₁ t₁ hrun h₁ => ?_) fun e s₁ t₁ hrun h₁ => ?_
  · rcases op_run hrun with ⟨hok, -⟩ | ⟨-, ⟨e, he⟩, -⟩
    · exact announce_beside rfl (hr.mpr hok) h₁
    · exact absurd he (by simp)
  · rcases op_run hrun with ⟨-, ch, -, hx⟩ | ⟨hnot, -⟩
    · exact absurd (Prod.mk.inj hx).1 (by simp)
    · exact told_before h₁ fun hreach => hnot (hr.mp hreach)

/-- A market is created exactly when its insert is answered, its odds fit and its id is free. -/
theorem create_iff {dto : CreateMarketDto} :
    (∃ saved s' ch, other (.marketCreate (draft dto)) = .ok ch ∧
        s.exec ch (.marketCreate (draft dto)) = (.ok saved, s')) ↔
      Reaches other s (.createMarket dto) := by
  have hodds : (draft dto).oddsInt = dto.oddsInt := rfl
  constructor
  · rintro ⟨saved, s', ch, hch, hx⟩
    simp only [Store.exec, hodds] at hx
    split_ifs at hx with hfits hfree
    · exact absurd (Prod.mk.inj hx).1 (by simp)
    · exact absurd (Prod.mk.inj hx).1 (by simp)
    · exact ⟨ch, hch, by simpa using hfits, by simpa using hfree⟩
  · rintro ⟨ch, hch, hfits, hfree⟩
    refine ⟨(draft dto).row ch.fresh ch.now, s.setMarket ((draft dto).row ch.fresh ch.now), ch, hch,
      ?_⟩
    simp [Store.exec, hodds, hfits, hfree]

/-- **A call beside itself**: under `p`, and with every publish heard. -/
theorem call_beside (call : MarketCall) (h : Unheard s t) :
    api.Beside i (faults other p) (faults other allHeard) (Told p (Reaches other s call))
      call.body s t := by
  have hfind : ∀ id, (MarketService.getMarketById id).All Silent := fun id =>
    Api.all_getMarketById nofun
  -- the market that was read decides
  have hrewrites : ∀ {id status} {market : Market} {s' : Store},
      api.finishBy i (faults other p) (MarketService.getMarketById id) s =
        some (.ok market, s') →
      (Rewrites other s id status ↔
        market.status ≠ .SETTLED ∧ IsOk (other (.marketSave { market with status }))) := by
    intro id status market s' hrun
    obtain ⟨hok, hm⟩ := ((getMarketById_run hrun).2 market).mp rfl
    constructor
    · rintro ⟨market', hm', hst, -, hsave⟩
      obtain rfl := Option.some.inj (hm.symm.trans hm')
      exact ⟨hst, hsave⟩
    · rintro ⟨hst, hsave⟩
      exact ⟨market, hm, hst, hok, hsave⟩
  have hunread : ∀ {id status} {e : Err} {s' : Store},
      api.finishBy i (faults other p) (MarketService.getMarketById id) s =
        some (.error e, s') → ¬ Rewrites other s id status := by
    rintro id status e s' hrun ⟨market, hm, -, hok, -⟩
    exact absurd (((getMarketById_run hrun).2 market).mpr ⟨hok, hm⟩) (by simp)
  cases call with
  | createMarket dto =>
    have hcreate : (Api.marketCreate (draft dto)).All Silent := Api.all_op nofun
    refine (silent_beside hcreate h).bind (fun saved s₁ t₁ hrun h₁ => ?_) fun e s₁ t₁ hrun h₁ => ?_
    · rcases op_run hrun with ⟨-, ch, hch, hx⟩ | ⟨-, ⟨e, he⟩, -⟩
      · exact announce_beside rfl (create_iff.mp ⟨saved, s₁, ch, hch, hx⟩) h₁
      · exact absurd he (by simp)
    · refine told_before h₁ fun hr => ?_
      obtain ⟨saved, s₂, ch, hch, hx⟩ := create_iff.mpr hr
      rcases op_run hrun with ⟨-, ch', hch', hx'⟩ | ⟨hnot, -⟩
      · obtain rfl := Mode.ok.inj (hch.symm.trans hch')
        exact absurd (Prod.mk.inj (hx.symm.trans hx')).1 (by simp)
      · exact hnot ⟨ch, hch⟩
  | updateStatus id status =>
    refine (silent_beside (hfind id) h).bind (fun market s₁ t₁ hrun h₁ => ?_)
      fun e s₁ t₁ hrun h₁ => told_before h₁ (hunread hrun)
    by_cases hst : market.status = .SETTLED
    · rw [if_pos hst]
      exact Machine.beside_throw (told_before h₁ fun hr => ((hrewrites hrun).mp hr).1 hst)
    · rw [if_neg hst]
      exact save_beside ((hrewrites hrun).trans (and_iff_right hst)) h₁
  | settle id result =>
    refine (silent_beside (hfind id) h).bind (fun market s₁ t₁ hrun h₁ => ?_)
      fun e s₁ t₁ hrun h₁ => told_before h₁ fun hr => hunread hrun hr.2
    by_cases hst : market.status = .SETTLED
    · rw [if_pos hst]
      exact Machine.beside_throw (told_before h₁ fun hr => ((hrewrites hrun).mp hr.2).1 hst)
    · rw [if_neg hst]
      have hbets : (Api.betFind id .ACCEPTED).All Silent := Api.all_op nofun
      refine (silent_beside hbets h₁).bind (fun bets s₂ t₂ hfound h₂ => ?_)
        fun e s₂ t₂ hfound h₂ => ?_
      · have hok : IsOk (other (.betFind id .ACCEPTED)) := by
          rcases op_run hfound with ⟨hok, -⟩ | ⟨-, ⟨e, he⟩, -⟩
          · exact hok
          · exact absurd he (by simp)
        refine (Machine.beside_forM (fun b _ _ h => settleBet_beside market result b h)
          bets h₂).andThen fun s₃ t₃ h₃ => ?_
        exact save_beside ((and_iff_right hok).trans
          ((hrewrites hrun).trans (and_iff_right hst))) h₃
      · rcases op_run hfound with ⟨-, ch, -, hx⟩ | ⟨hnot, -⟩
        · exact absurd (Prod.mk.inj hx).1 (by simp)
        · exact told_before h₂ fun hr => hnot hr.1

end Publishing

open Publishing

/-- **Failed notifications**: a call has the outcome it has when every publish succeeds, exactly
when the notification of the market gets through or is not reached. -/
theorem unheard_iff (other : Faults) (p : PublishEnds) (call : MarketCall) (s : Store) :
    SameOutcome call s (faults other p) (faults other allHeard) ↔
      (Reaches other s call → IsOk p.ofMarket) := by
  have hrun : ∀ i, ∃ x y s' t',
      outcome i (faults other p) call s = some ⟨x, s'.markets, s'.bets, s'.wallet⟩ ∧
      outcome i (faults other allHeard) call s = some ⟨y, t'.markets, t'.bets, t'.wallet⟩ ∧
      Told p (Reaches other s call) x y s' t' := by
    intro i
    obtain ⟨x, y, s', t', hs, ht, htold⟩ : api.Beside i (faults other p) (faults other allHeard)
        (Told p (Reaches other s call)) call.body s s := call_beside call ⟨s.notifications, rfl⟩
    exact ⟨x, y, s', t', Option.map_eq_some_iff.mpr ⟨_, hs, rfl⟩,
      Option.map_eq_some_iff.mpr ⟨_, ht, rfl⟩, htold⟩
  constructor
  · intro h
    obtain ⟨x, y, s', t', hs, ht, -, hiff⟩ := hrun 0
    obtain ⟨z, hz, hz'⟩ := h 0
    have hxy := Option.some.inj ((hs.symm.trans hz).trans (hz'.symm.trans ht))
    exact hiff.mp (congrArg Outcome.answer hxy)
  · intro h i
    obtain ⟨x, y, s', t', hs, ht, ⟨l, rfl⟩, hiff⟩ := hrun i
    obtain rfl := hiff.mpr h
    exact ⟨_, hs, ht⟩

/-- The market of a failed call: RabbitMQ is away while a market is created, the call throws, and
the market is there. -/
theorem created_unheard : ∃ x y,
    outcome 0 (faults (fun _ => .ok { fresh := 50 }) ⟨fun _ => .ok {}, .fail .ConnectionError⟩)
      (.createMarket ⟨9, "Man City to win", 240, by decide, by decide⟩) .empty = some x ∧
    outcome 0 (faults (fun _ => .ok { fresh := 50 }) allHeard)
      (.createMarket ⟨9, "Man City to win", 240, by decide, by decide⟩) .empty = some y ∧
    x.answer = .error .ConnectionError ∧ (x.markets 50).isSome ∧
    y.answer = .ok ⟨50, 9, "Man City to win", 240, "2.40", .OPEN, 0, 0⟩ ∧
    ¬ SameOutcome (.createMarket ⟨9, "Man City to win", 240, by decide, by decide⟩) .empty
      (faults (fun _ => .ok { fresh := 50 }) ⟨fun _ => .ok {}, .fail .ConnectionError⟩)
      (faults (fun _ => .ok { fresh := 50 }) allHeard) := by
  refine ⟨_, _, rfl, rfl, rfl, rfl, by decide, fun h => ?_⟩
  obtain ⟨z, hz, hz'⟩ := h 0
  exact absurd (congrArg Outcome.answer (Option.some.inj (hz.trans hz'.symm))) nofun

end BoltBet
