import BoltBet.Api.Rules
import Mathlib.Data.List.Nodup

/-!
# Retries of a placement agree

`placeBet` answers from a Redis key, from a lookup, or with a fresh insert. The three agree: a key
only ever holds the id of the bet with its user and mutation id (`KeysCoherent`), and the index on
`referenceId` lets one bet of a mutation id exist.

* `Retries.safe_placeBet`: whichever path a call takes, it answers with the bet of its user and
  mutation id, as it was at some time.
* `api_retries_agree`: so any two calls of one user and mutation id answer with the same bet,
  whatever failed, crashed or expired in between.
-/

namespace BoltBet

open Async

namespace Store

/-- The bet with this id is the bet of the user and mutation id. -/
def HasBet (s : Store) (u m id : Uuid) : Prop :=
  ∃ b ∈ s.bets, b.id = id ∧ b.userId = u ∧ b.referenceId = m

/-- Every idempotency key holds the id of the bet it stands for. -/
def KeysCoherent (s : Store) : Prop := ∀ u m id, s.idempotency u m = some id → s.HasBet u m id

/-- No bet of `s` is missing in `s'`. -/
def BetsStay (s s' : Store) : Prop := ∀ b ∈ s.bets, ∃ b' ∈ s'.bets, b.Same b'

theorem HasBet.stays {s s' : Store} {u m id : Uuid} (hs : s.BetsStay s') (h : s.HasBet u m id) :
    s'.HasBet u m id := by
  obtain ⟨b, hb, hid, hu, hm⟩ := h
  obtain ⟨b', hb', hsame⟩ := hs b hb
  exact ⟨b', hb', hsame.id.trans hid, hsame.userId.trans hu, hsame.referenceId.trans hm⟩

/-- One operation keeps the keys coherent, if the key it writes is. -/
theorem Effect.keysCoherent {ch : ApiChoice} {o : ApiOp} {s s' : Store} (h : Effect ch s o s')
    (hs : s.KeysCoherent) (ho : ∀ u m id, o = .redisSet u m id → s.HasBet u m id) :
    s'.KeysCoherent := by
  have hstay : s.BetsStay s' := fun b hb => h.bet_after hb
  intro u m id hk
  rcases h.idempotency_cases with he | ⟨u', m', id', rfl, he⟩
  · exact (hs u m id (he ▸ hk)).stays hstay
  · rw [he] at hk
    by_cases hkey : u = u' ∧ m = m'
    · obtain ⟨rfl, rfl⟩ := hkey
      obtain rfl : id' = id := by simpa [setIdempotency] using hk
      exact (ho u m id' rfl).stays hstay
    · exact (hs u m id (by simpa [setIdempotency, hkey] using hk)).stays hstay

/-- With unique ids, a coherent key leads to the bet of its user and mutation id. -/
theorem HasBet.of_bet {s : Store} {u m id : Uuid} {b : Bet} (h : s.HasBet u m id)
    (hids : s.BetIds) (hb : s.bet id = some b) : b.userId = u ∧ b.referenceId = m := by
  obtain ⟨b', hb', rfl, hu, hm⟩ := h
  obtain rfl := Option.some.inj ((hids.bet_of_mem hb').symm.trans hb)
  exact ⟨hu, hm⟩

end Store

namespace Retries

/-- What holds in every state. -/
structure Inv (s : Store) : Prop where
  betIds : s.BetIds
  references : s.BetReferences
  keys : s.KeysCoherent

/-- The response is the bet of the user and mutation id, as it was at some time. -/
def Answers (u m : Uuid) (r : BetResponseDto) (s : Store) : Prop :=
  ∃ b ∈ s.bets, b.userId = u ∧ b.referenceId = m ∧ ∃ b₀ : Bet, b₀.Same b ∧ r = b₀.toDto

theorem Answers.stays {s s' : Store} {u m : Uuid} {r : BetResponseDto} (hs : s.BetsStay s')
    (h : Answers u m r s) : Answers u m r s' := by
  obtain ⟨b, hb, hu, hm, b₀, hsame₀, hr⟩ := h
  obtain ⟨b', hb', hsame⟩ := hs b hb
  exact ⟨b', hb', hsame.userId.trans hu, hsame.referenceId.trans hm, b₀, hsame₀.trans hsame, hr⟩

theorem answers_of_mem {s : Store} {b : Bet} (hb : b ∈ s.bets) :
    Answers b.userId b.referenceId b.toDto s := ⟨b, hb, rfl, rfl, b, .refl b, rfl⟩

/-- Two answers for one mutation id are of one bet. -/
theorem Answers.agree {s : Store} (hs : s.BetReferences) {u u' m : Uuid} {r r' : BetResponseDto}
    (h : Answers u m r s) (h' : Answers u' m r' s) :
    r' = { r with status := r'.status, updatedAt := r'.updatedAt } := by
  obtain ⟨b, hb, -, hm, b₀, hsame, rfl⟩ := h
  obtain ⟨b', hb', -, hm', b₁, hsame', rfl⟩ := h'
  obtain rfl := List.inj_on_of_nodup_map hs hb hb' (hm.trans hm'.symm)
  have hb₁ : b = { b₁ with status := b.status, updatedAt := b.updatedAt } := hsame'
  have hb₀ : b = { b₀ with status := b.status, updatedAt := b.updatedAt } := hsame
  have heq : b₁ = { b₀ with status := b₁.status, updatedAt := b₁.updatedAt } := by
    cases b₀
    cases b₁
    rw [hb₁] at hb₀
    simpa using hb₀
  rw [heq]
  rfl

/-- A key is written for the bet it stands for. -/
def Known (o : ApiOp) (s : Store) : Prop := ∀ u m id, o = .redisSet u m id → s.HasBet u m id

theorem inv_same {s s' : Store} (hsame : s.SameTables s') (h : Inv s)
    (hkeys : ∀ u m id, s'.idempotency u m = some id → s.idempotency u m = some id) : Inv s' := by
  refine ⟨hsame.betIds h.betIds, hsame.betReferences h.references, fun u m id hk => ?_⟩
  refine (h.keys u m id (hkeys u m id hk)).stays fun b hb => ?_
  exact ⟨b, hsame.bets.symm ▸ hb, .refl b⟩

/-- Bets stay, and keys are coherent. -/
def knowledge : Knowledge api where
  inv w := Inv w.state
  le w w' := w.state.BetsStay w'.state
  K _ _ o w := Known o w.state
  cond _ _ _ _ _ _ := True
  refl _ b hb := ⟨b, hb, .refl b⟩
  trans h h' b hb := by
    obtain ⟨b₁, hb₁, hsame₁⟩ := h b hb
    obtain ⟨b₂, hb₂, hsame₂⟩ := h' b₁ hb₁
    exact ⟨b₂, hb₂, hsame₁.trans hsame₂⟩
  exec {i call o w r w'} hinv hK _ hx := by
    obtain ⟨ch, he⟩ := api_exec_effect hx
    have hstay : w.state.BetsStay w'.state := fun b hb => he.bet_after hb
    exact ⟨⟨he.betIds hinv.betIds, he.betReferences hinv.references, he.keysCoherent hinv.keys hK⟩,
      hstay, fun _ _ _ _ hk u m id ho => (hk u m id ho).stays hstay⟩
  start {call s s' l} hs hinv := by
    have hsame := start_tables hs
    have hstay : s.BetsStay s' := fun b hb => ⟨b, hsame.bets.symm ▸ hb, .refl b⟩
    have hkeys : s'.idempotency = s.idempotency := by
      rcases start_cases hs with ⟨p, -, -, rfl⟩ | ⟨-, rfl⟩
      · rfl
      · rfl
    exact ⟨inv_same hsame hinv fun u m id hk => hkeys ▸ hk, hstay,
      fun _ _ _ hk u m id ho => (hk u m id ho).stays hstay⟩
  env {v s s' l} hv hinv := by
    have hsame := env_tables hv
    have hstay : s.BetsStay s' := fun b hb => ⟨b, hsame.bets.symm ▸ hb, .refl b⟩
    refine ⟨inv_same hsame hinv fun u m id hk => ?_, hstay,
      fun _ _ _ hk u m id ho => (hk u m id ho).stays hstay⟩
    rcases env_cases hv with ⟨u', m', -, rfl⟩ | ⟨tag, p, -, rfl⟩ | ⟨p, -, rfl⟩
    · by_cases hkey : u = u' ∧ m = m'
      · exact absurd hk (by simp [Store.setIdempotency, hkey])
      · simpa [Store.setIdempotency, hkey] using hk
    · exact hk
    · exact hk

/-! ## The calls -/

variable {i : Nat} {call : ApiCall} {o : ApiOp}

/-- Only writing a key needs knowledge. -/
def Harmless (o : ApiOp) : Prop := ∀ u m id, o ≠ .redisSet u m id

theorem Harmless.known (h : Harmless o) (w : World api) : knowledge.K i call o w :=
  fun u m id ho => absurd ho (h u m id)

/-- A fresh bet is the answer, and its key may be written. -/
theorem safe_placeNewBet (u : Uuid) (dto : PlaceBetDto) (w : World api) :
    knowledge.rules.Safe i call
      (fun r w' => ∀ a, r = .ok a → Answers u dto.clientMutationId a w'.state)
      (BettingService.placeNewBet u dto) w := by
  unfold BettingService.placeNewBet
  refine ApiRules.safe_then (P := Harmless) (fun _ => Harmless.known)
    (Api.all_assertMarketOpen (by simp [Harmless])) (fun m w => ?_)
    fun _ _ _ h => absurd h (by simp)
  refine ApiRules.safe_then (P := Harmless) (fun _ => Harmless.known) (Api.all_wallet
    (Api.all_lookup_then (by simp [Harmless]) (by simp [Harmless]))) (fun _ w => ?_)
    fun _ _ _ h => absurd h (by simp)
  refine Rules.safe_bind.mpr (Knowledge.safe_op' (Harmless.known (by simp [Harmless]) w)
    fun {w₁ r w₂} _ _ hx _ => ?_)
  rcases r with e | bet
  · exact fun _ h => absurd h (by simp)
  obtain ⟨ch, -, hbet, hs⟩ := api_betSave_ok hx
  have hmem : bet ∈ w₂.state.bets := by
    rw [hs]
    exact List.mem_append_right _ (List.mem_singleton_self bet)
  have hanswer : Answers u dto.clientMutationId bet.toDto w₂.state := by
    have := answers_of_mem hmem
    rwa [hbet] at this ⊢
  have hkey : Known (.redisSet u dto.clientMutationId bet.id) w₂.state := by
    rintro u' m' id ho
    obtain ⟨rfl, rfl, rfl⟩ := ApiOp.redisSet.inj ho
    exact ⟨bet, hmem, rfl, hbet ▸ rfl, hbet ▸ rfl⟩
  have hlasts : knowledge.Lasts fun w => Answers u dto.clientMutationId bet.toDto w.state :=
    fun hle h => h.stays hle
  refine Rules.safe_bind.mpr (Knowledge.safe_op hlasts hanswer hkey
    fun {w₃ r w₄} _ _ _ _ _ hanswer => ?_)
  rcases r with e | x
  · exact fun _ h => absurd h (by simp)
  refine Rules.safe_bind.mpr (Knowledge.safe_op hlasts hanswer
    (Harmless.known (by simp [Harmless]) w₄) fun {w₅ r w₆} _ _ _ _ _ hanswer => ?_)
  cases r with
  | error e => exact fun _ h => absurd h (by simp)
  | ok x =>
    intro a ha
    obtain rfl := Except.ok.inj ha
    exact hanswer

/-- The lookup by mutation id answers with its bet. -/
theorem safe_lookupOrPlace (u : Uuid) (dto : PlaceBetDto) (w : World api) :
    knowledge.rules.Safe i call
      (fun r w' => ∀ a, r = .ok a → Answers u dto.clientMutationId a w'.state)
      (BettingService.lookupOrPlace u dto) w := by
  unfold BettingService.lookupOrPlace
  refine Rules.safe_bind.mpr (Knowledge.safe_op' (Harmless.known (by simp [Harmless]) w)
    fun {w₁ r w₂} _ _ hx _ => ?_)
  rcases r with e | _ | b
  · exact fun _ h => absurd h (by simp)
  · exact safe_placeNewBet u dto w₂
  · obtain ⟨hb, hs⟩ := api_betFindByReference_ok hx
    obtain ⟨hmem, rfl, hm⟩ := Store.betOf_some hb.symm
    intro a ha
    obtain rfl := Except.ok.inj ha
    rw [hs, ← hm]
    exact answers_of_mem hmem

/-- **Every path answers with the bet of the user and mutation id.** -/
theorem safe_placeBet (u : Uuid) (role : Role) (dto : PlaceBetDto) (w : World api) :
    knowledge.rules.Safe i call
      (fun r w' => ∀ a, r = .ok a → Answers u dto.clientMutationId a w'.state)
      (BettingService.placeBet u role dto) w := by
  unfold BettingService.placeBet
  split
  · exact fun _ h => absurd h (by simp)
  refine Rules.safe_bind.mpr (Knowledge.safe_op' (Harmless.known (by simp [Harmless]) w)
    fun {w₁ r w₂} hinv _ hx _ => ?_)
  rcases r with e | _ | id
  · exact fun _ h => absurd h (by simp)
  · exact safe_lookupOrPlace u dto w₂
  -- the key leads to its bet, now and when it is read
  obtain ⟨hid, hs⟩ := api_redisGet_ok hx
  have hkey : w₂.state.HasBet u dto.clientMutationId id := hs ▸ hinv.keys u _ id hid.symm
  refine Rules.safe_bind.mpr (Knowledge.safe_op
    (J := fun w : World api => w.state.HasBet u dto.clientMutationId id)
    (fun hle h => h.stays hle) hkey (Harmless.known (by simp [Harmless]) w₂)
    fun {w₃ r w₄} _ _ _ hx hinv₄ hkey => ?_)
  rcases r with e | _ | b
  · exact fun _ h => absurd h (by simp)
  · exact safe_lookupOrPlace u dto w₄
  · obtain ⟨hb, hs⟩ := api_betFindById_ok hx
    rw [← hs] at hb
    obtain ⟨rfl, hm⟩ := hkey.of_bet hinv₄.betIds hb.symm
    intro a ha
    obtain rfl := Except.ok.inj ha
    rw [← hm]
    exact answers_of_mem (Store.bet_mem hb.symm)

/-- What a call of `placeBet` answered. -/
def Post (_ : Nat) (call : ApiCall) (r : Except Err ApiReply) (w : World api) : Prop :=
  ∀ u role dto a, call = .placeBet u role dto → r = .ok (.bet a) →
    Answers u dto.clientMutationId a w.state

theorem safe_body (call : ApiCall) (w : World api) :
    knowledge.rules.Safe i call (Post i call) call.body w := by
  by_cases hcall : ∃ u role dto, call = .placeBet u role dto
  · obtain ⟨u, role, dto, rfl⟩ := hcall
    have hmap : ApiCall.body (.placeBet u role dto) =
        (BettingService.placeBet u role dto >>= fun a => pure (.bet a)) := map_eq_pure_bind ..
    rw [hmap]
    refine Rules.safe_seq (safe_placeBet u role dto w) ?_ ?_
    · intro a w' h u' role' dto' a' hc ha
      obtain ⟨rfl, -, rfl⟩ := ApiCall.placeBet.inj hc
      obtain rfl := ApiReply.bet.inj (Except.ok.inj ha)
      exact h a rfl
    · exact fun e w' _ _ _ _ _ _ h => absurd h (by simp)
  · refine (Knowledge.safe_of_known (fun _ => Harmless.known)
      ((body_footprint call).mono ?_) w).mono ?_
    · rintro o ho u m id rfl
      cases ho with
      | redisSet u role dto id => exact hcall ⟨u, role, dto, rfl⟩
    · exact fun _ _ _ u role dto _ hc => absurd ⟨u, role, dto, hc⟩ hcall

/-- What holds in every run. -/
theorem reach {c : Config api} (hc : api.Reachable (api.init .empty) c) :
    Inv c.state ∧ ∀ i call a, c.Returned i call a → Post i call (.ok a) c.toWorld := by
  have hgood := Knowledge.reach (D := knowledge) (fun _ => trivial) Post
    (fun _ _ _ _ _ _ _ _ _ _ => trivial)
    (fun _ _ _ _ _ hle h u role dto a hc ha => (h u role dto a hc ha).stays hle)
    (fun _ call w _ => safe_body call w)
    ⟨by simp [Store.BetIds, Store.empty], by simp [Store.BetReferences, Store.empty],
      fun _ _ _ h => absurd h (by simp [Store.empty])⟩ hc
  exact ⟨hgood.1, hgood.2.2⟩

end Retries

/-- **Retries agree**: one bet of a mutation id exists, and all successful calls of one user and
mutation id answer with it. -/
theorem api_retries_agree {c : Config api} (h : api.Reachable (api.init .empty) c) :
    c.state.BetReferences ∧
    ∀ i j u role role' dto dto' a a', c.Returned i (.placeBet u role dto) (.bet a) →
      c.Returned j (.placeBet u role' dto') (.bet a') →
      dto.clientMutationId = dto'.clientMutationId →
      a.id = a'.id ∧ a.marketId = a'.marketId ∧ a.stakeCents = a'.stakeCents ∧
        a.oddsInt = a'.oddsInt ∧ a.payoutCents = a'.payoutCents := by
  obtain ⟨hinv, hpost⟩ := Retries.reach h
  refine ⟨hinv.references, fun i j u role role' dto dto' a a' ha ha' hm => ?_⟩
  have hanswer := hpost i _ _ ha u role dto a rfl rfl
  have hanswer' := hpost j _ _ ha' u role' dto' a' rfl rfl
  rw [← hm] at hanswer'
  have heq := hanswer.agree hinv.references hanswer'
  rw [heq]
  exact ⟨rfl, rfl, rfl, rfl, rfl⟩

/-- A bet is placed, its key expires, and the client sends the request again. -/
def retryAfterExpiry : List (Event api) :=
  openMarket ++ .spawn 2 (bet100 2) :: proceed 2 8 ++
  .env (.expire 7 2) :: .spawn 3 (bet100 2) :: proceed 3 2

/-- Both calls answer with the one bet. -/
theorem api_retries_agree_expired : ∃ c, api.replay (api.init .empty) retryAfterExpiry = some c ∧
    ∃ a a', c.Returned 2 (bet100 2) (.bet a) ∧ c.Returned 3 (bet100 2) (.bet a') ∧
      a.id = a'.id := by
  obtain ⟨c, hr, ⟨a, ha⟩, a', ha'⟩ : ∃ c, api.replay (api.init .empty) retryAfterExpiry = some c ∧
      (∃ a, c.Returned 2 (bet100 2) (.bet a)) ∧ ∃ a', c.Returned 3 (bet100 2) (.bet a') :=
    ⟨_, rfl, ⟨_, rfl⟩, _, rfl⟩
  exact ⟨c, hr, a, a', ha, ha', ((api_retries_agree (.of_replay .init hr)).2 _ _ _ _ _ _ _ _ _
    ha ha' rfl).1⟩

end BoltBet
