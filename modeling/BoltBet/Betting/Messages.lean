import BoltBet.Api.Rules

/-!
# One message for each bet

A `placeBet` call that inserts a bet publishes one message of it; a call that finds the bet
publishes nothing. The insert is what decides: the index on `referenceId` lets one call insert.

* `safe_placeNewBet`: a call publishes a message only of the bet it inserted, and has not
  published it before.
* `api_delivered_once`: so, while RabbitMQ neither takes back nor duplicates a message, no two
  deliveries are of one bet.
-/

namespace BoltBet

open Async

/-- A message of the bet was published. -/
def Published (w : World api) (betId : Uuid) : Prop :=
  ∃ x ∈ w.trace, x.took = true ∧ ∃ p, x.op = .publishBetPlacement p ∧ p.betId = betId

/-- Thread `i` inserted the bet. -/
def InsertedBy (w : World api) (i : Nat) (betId : Uuid) : Prop :=
  ∃ x ∈ w.trace, x.tid = i ∧ x.took = true ∧ ∃ d, x.op = .betSave d ∧
    ∃ b ∈ w.state.bets, b.id = betId ∧ b.referenceId = d.referenceId

namespace Messages

/-- What holds in every state. -/
structure Inv (w : World api) : Prop where
  betIds : w.state.BetIds
  inserted : ∀ x ∈ w.trace, ∀ d, x.took = true → x.op = .betSave d →
    ∃ b ∈ w.state.bets, b.referenceId = d.referenceId
  once : ∀ x ∈ w.trace, ∀ y ∈ w.trace, ∀ d d', x.took = true → x.op = .betSave d →
    y.took = true → y.op = .betSave d' → d.referenceId = d'.referenceId → x.tid = y.tid
  published : ∀ id, Published w id → ∃ b ∈ w.state.bets, b.id = id

/-- What a call knows of the bet it works on: it inserted it, and published no message of it. -/
def Known (i : Nat) (o : ApiOp) (w : World api) : Prop :=
  ∀ id, ((∃ u m, o = .redisSet u m id) ∨ ∃ p, o = .publishBetPlacement p ∧ p.betId = id) →
    InsertedBy w i id ∧ ¬ Published w id

variable {i j : Nat} {call : ApiCall} {o : ApiOp} {w w' : World api} {r : Except Err o.Res}
  {id : Uuid}

theorem insertedBy_later (h : Later w w') (hi : InsertedBy w i id) : InsertedBy w' i id := by
  obtain ⟨x, hx, htid, ht, d, ho, b, hb, hid, href⟩ := hi
  obtain ⟨b', hb', hsame⟩ := h.bets b hb
  exact ⟨x, h.trace.subset hx, htid, ht, d, ho, b', hb', hsame.id.trans hid,
    hsame.referenceId.trans href⟩

/-- One thread inserted the bet. -/
theorem Inv.insertedBy_unique (hinv : Inv w) (hi : InsertedBy w i id) (hj : InsertedBy w j id) :
    i = j := by
  obtain ⟨x, hx, rfl, ht, d, ho, b, hb, hid, href⟩ := hi
  obtain ⟨y, hy, rfl, ht', d', ho', b', hb', hid', href'⟩ := hj
  have hbet := hinv.betIds.bet_of_mem hb
  have hbet' := hinv.betIds.bet_of_mem hb'
  rw [hid] at hbet
  rw [hid'] at hbet'
  obtain rfl := Option.some.inj (hbet.symm.trans hbet')
  exact hinv.once x hx y hy d d' ht ho ht' ho' (href.symm.trans href')

/-- A message is published by the operation, or was before. -/
theorem published_cases {took : Bool} (htr : w'.trace = ⟨i, call, o, took, w.state⟩ :: w.trace)
    (h : Published w' id) :
    Published w id ∨ ∃ p, o = .publishBetPlacement p ∧ p.betId = id := by
  obtain ⟨x, hx, ht, p, ho, hid⟩ := h
  rcases List.mem_cons.mp (htr ▸ hx) with rfl | hx
  · exact .inr ⟨p, ho, hid⟩
  · exact .inl ⟨x, hx, ht, p, ho, hid⟩

/-- **One operation.** -/
theorem inv_exec (hx : api.Exec i call o w r w') (hinv : Inv w) (hk : Known i o w) : Inv w' := by
  have hlater := Later.exec hx
  obtain ⟨ch, he⟩ := api_exec_effect hx
  obtain ⟨took, htr, hcases⟩ := api_exec_cases hx
  -- an insert that took effect found no bet of its `referenceId`
  have hnew : ∀ d, took = true → o = .betSave d →
      (∀ b ∈ w.state.bets, b.referenceId ≠ d.referenceId) ∧
      ∃ b ∈ w'.state.bets, b.referenceId = d.referenceId := by
    rintro d rfl rfl
    rcases hcases with ⟨-, ch', b, hs⟩ | ⟨hf, -⟩
    · obtain ⟨hrej, rfl, hs⟩ := Store.exec_betSave_ok hs
      refine ⟨Store.rejectsBet_reference hrej, d.row ch'.fresh ch'.now, ?_, rfl⟩
      rw [hs]
      exact List.mem_append_right _ (List.mem_singleton_self _)
    · exact absurd hf (by simp)
  refine ⟨he.betIds hinv.betIds, ?_, ?_, ?_⟩
  · intro x hx d ht ho
    rcases List.mem_cons.mp (htr ▸ hx) with rfl | hx
    · exact (hnew d ht ho).2
    · obtain ⟨b, hb, href⟩ := hinv.inserted x hx d ht ho
      obtain ⟨b', hb', hsame⟩ := hlater.bets b hb
      exact ⟨b', hb', hsame.referenceId.trans href⟩
  · intro x hx y hy d d' ht ho ht' ho' href
    rw [htr] at hx hy
    rcases List.mem_cons.mp hx with rfl | hx
    · rcases List.mem_cons.mp hy with rfl | hy
      · rfl
      · obtain ⟨b, hb, href'⟩ := hinv.inserted y hy d' ht' ho'
        exact absurd (href'.trans href.symm) ((hnew d ht ho).1 b hb)
    · rcases List.mem_cons.mp hy with rfl | hy
      · obtain ⟨b, hb, href'⟩ := hinv.inserted x hx d ht ho
        exact absurd (href'.trans href) ((hnew d' ht' ho').1 b hb)
      · exact hinv.once x hx y hy d d' ht ho ht' ho' href
  · intro id hp
    have hold : ∃ b ∈ w.state.bets, b.id = id := by
      rcases published_cases htr hp with hp | ⟨p, ho, hid⟩
      · exact hinv.published id hp
      · obtain ⟨-, -, -, -, -, -, b, hb, hb', -⟩ := (hk id (.inr ⟨p, ho, hid⟩)).1
        exact ⟨b, hb, hb'⟩
    obtain ⟨b, hb, rfl⟩ := hold
    obtain ⟨b', hb', hsame⟩ := hlater.bets b hb
    exact ⟨b', hb', hsame.id⟩

/-- What `j` knows survives an operation of another thread. -/
theorem known_exec (hx : api.Exec i call o w r w') (hinv : Inv w) (hk : Known i o w) (hj : j ≠ i)
    {o' : ApiOp} (hk' : Known j o' w) : Known j o' w' := by
  obtain ⟨took, htr⟩ := hx.entry
  intro id ho'
  obtain ⟨hins, hnot⟩ := hk' id ho'
  refine ⟨insertedBy_later (.exec hx) hins, fun hp => ?_⟩
  rcases published_cases htr hp with hp | hpub
  · exact hnot hp
  · exact hj (hinv.insertedBy_unique hins (hk id (.inr hpub)).1)

/-- Starting a call, Redis and RabbitMQ change nothing of it. -/
theorem same_tables {s s' : Store} {l : List (Entry api)} (h : s.SameTables s')
    (hinv : Inv ⟨s, l⟩) : Inv ⟨s', l⟩ := by
  refine ⟨h.betIds hinv.betIds, ?_, hinv.once, ?_⟩
  · show ∀ x ∈ l, ∀ d, x.took = true → x.op = .betSave d →
      ∃ b ∈ s'.bets, b.referenceId = d.referenceId
    rw [h.bets]
    exact hinv.inserted
  · show ∀ id, Published ⟨s, l⟩ id → ∃ b ∈ s'.bets, b.id = id
    rw [h.bets]
    exact hinv.published

/-- Every call knows that the bet it publishes is its own, and not published yet. -/
def knowledge : Knowledge api :=
  apiKnowledge Inv Later (fun i _ => Known i) (fun _ _ _ _ _ _ => True) .refl .trans
    (fun hinv hK _ hx =>
      ⟨inv_exec hx hinv hK, .exec hx, fun _ _ _ hj hk => known_exec hx hinv hK hj hk⟩)
    fun hsame hinv => ⟨same_tables hsame hinv, .same hsame, fun _ _ _ hk id ho =>
      ⟨insertedBy_later (.same hsame) (hk id ho).1, (hk id ho).2⟩⟩

/-! ## The calls -/

/-- Operations after the insert need to know of it. -/
def Harmless (o : ApiOp) : Prop :=
  (∀ u m id, o ≠ .redisSet u m id) ∧ ∀ p, o ≠ .publishBetPlacement p

theorem Harmless.known (h : Harmless o) (w : World api) : knowledge.K i call o w := by
  rintro id (⟨u, m, ho⟩ | ⟨p, ho, -⟩)
  · exact absurd ho (h.1 u m id)
  · exact absurd ho (h.2 p)

/-- The call that inserted a bet knows that it was not published before. -/
theorem inserted_of_betSave {d : BetDraft} {b : Bet} (hinv : Inv w)
    (hx : api.Exec i call (.betSave d) w (.ok b) w') :
    InsertedBy w' i b.id ∧ ¬ Published w' b.id := by
  obtain ⟨-, -, htr⟩ := api_exec_ok hx
  obtain ⟨ch, hrej, rfl, hs⟩ := api_betSave_ok hx
  refine ⟨⟨_, htr ▸ List.mem_cons_self, rfl, rfl, d, rfl, d.row ch.fresh ch.now, ?_, rfl, rfl⟩,
    fun hp => ?_⟩
  · rw [hs]
    exact List.mem_append_right _ (List.mem_singleton_self _)
  · rcases published_cases htr hp with hp | ⟨p, ho, -⟩
    · obtain ⟨b, hb, hid⟩ := hinv.published _ hp
      exact Store.rejectsBet_id hrej b hb hid
    · exact absurd ho (by simp)

/-- **`placeBet` publishes the bet it inserted, once.** -/
theorem safe_placeNewBet (u : Uuid) (dto : PlaceBetDto) (w : World api) :
    knowledge.rules.Safe i call (fun _ _ => True) (BettingService.placeNewBet u dto) w := by
  unfold BettingService.placeNewBet
  refine ApiRules.safe_then (P := Harmless) (fun _ => Harmless.known)
    (Api.all_assertMarketOpen (by simp [Harmless])) (fun m w => ?_) fun _ _ => trivial
  refine ApiRules.safe_then (P := Harmless) (fun _ => Harmless.known) (Api.all_wallet
    (Api.all_lookup_then (by simp [Harmless]) (by simp [Harmless]))) (fun _ w => ?_)
    fun _ _ => trivial
  refine Rules.safe_bind.mpr (Knowledge.safe_op' (Harmless.known (by simp [Harmless]) w)
    fun {w₁ r w₂} hinv _ hx _ => ?_)
  rcases r with e | bet
  · trivial
  -- the key is written before the message; nobody else publishes in between
  have hknown : Known i (.redisSet u dto.clientMutationId bet.id) w₂ := by
    rintro id (⟨u', m', ho⟩ | ⟨p, ho, -⟩)
    · obtain ⟨-, -, rfl⟩ := ApiOp.redisSet.inj ho
      exact inserted_of_betSave hinv hx
    · exact absurd ho (by simp)
  refine Rules.safe_bind.mpr (Knowledge.safe_opIn (J := fun _ => True) (fun _ h => h) trivial
    hknown fun {w₃ r w₄} _ _ hk _ hx _ _ => ?_)
  rcases r with e | x
  · trivial
  obtain ⟨hins, hnot⟩ := hk bet.id (.inl ⟨_, _, rfl⟩)
  obtain ⟨took, htr⟩ := hx.exec.entry
  have hknown : Known i (.publishBetPlacement (BettingService.placementOf bet)) w₄ := by
    rintro id (⟨u', m', ho⟩ | ⟨p, ho, rfl⟩)
    · exact absurd ho (by simp)
    · obtain rfl := ApiOp.publishBetPlacement.inj ho
      refine ⟨insertedBy_later (.exec hx.exec) hins, fun hp => ?_⟩
      rcases published_cases htr hp with hp | ⟨p, ho, -⟩
      · exact hnot hp
      · exact absurd ho (by simp)
  exact ApiRules.safe_bind' (Knowledge.safe_op' hknown fun _ _ _ _ => trivial) fun _ _ => trivial

/-- Every call is safe: only `placeBet` publishes bets. -/
theorem safe_body (call : ApiCall) (w : World api) :
    knowledge.rules.Safe i call (fun _ _ => True) call.body w := by
  by_cases hcall : ∃ u role dto, call = .placeBet u role dto
  · obtain ⟨u, role, dto, rfl⟩ := hcall
    exact ApiRules.safe_map (ApiRules.safe_placeBet (P := Harmless) (fun _ => Harmless.known)
      (by simp [Harmless]) (by simp [Harmless]) (by simp [Harmless]) (safe_placeNewBet u dto) w)
  · refine Knowledge.safe_of_known (fun _ => Harmless.known)
      ((body_footprint call).mono fun o ho => ⟨?_, ?_⟩) w
    · rintro u m id rfl
      cases ho with
      | redisSet u role dto id => exact hcall ⟨u, role, dto, rfl⟩
    · rintro p rfl
      cases ho with
      | publishBetPlacement u role dto b => exact hcall ⟨u, role, dto, rfl⟩

/-- Every thread of every run knows of the bet it publishes. -/
theorem known {c : Config api} (hc : api.Reachable (api.init .empty) c) (hw : c.Waits i call o) :
    Known i o c.toWorld := by
  have hgood := Knowledge.reach (D := knowledge) (fun _ => trivial) (fun _ _ _ _ => True)
    (fun _ _ _ _ _ _ _ _ _ _ => trivial) (fun _ _ _ _ _ _ h => h)
    (fun _ call w _ => safe_body call w)
    ⟨by simp [Store.BetIds, Store.empty], by simp, by simp, by simp [Published]⟩ hc
  exact hgood.2.1 _ _ _ hw fun _ _ => trivial

end Messages

/-! ## Deliveries -/

/-- RabbitMQ neither takes a message back nor stores it twice. -/
def KeepsMessages (_ : Config api) : Event api → Prop
  | .env (.redeliver ..) => False
  | .env (.duplicate _) => False
  | _ => True

instance : ∀ c e, Decidable (KeepsMessages c e)
  | _, .env (.expire ..) => inferInstanceAs (Decidable True)
  | _, .env (.redeliver ..) => inferInstanceAs (Decidable False)
  | _, .env (.duplicate _) => inferInstanceAs (Decidable False)
  | _, .spawn .. => inferInstanceAs (Decidable True)
  | _, .run .. => inferInstanceAs (Decidable True)
  | _, .crash _ => inferInstanceAs (Decidable True)

/-- A message of the bet was delivered to thread `i`. -/
def DeliveredTo (c : Config api) (i : Nat) (betId : Uuid) : Prop :=
  ∃ tag p, c.Started i (.delivery tag p) ∧ p.betId = betId

/-- Where the messages of bets are: one in the queue, or one delivered. -/
structure OneMessage (c : Config api) : Prop where
  queued : (c.state.betPlacement.map BetPlacementPayload.betId).Nodup
  apart : ∀ i id, DeliveredTo c i id → id ∉ c.state.betPlacement.map BetPlacementPayload.betId
  once : ∀ i j id, DeliveredTo c i id → DeliveredTo c j id → i = j
  published : ∀ p ∈ c.state.betPlacement, Published c.toWorld p.betId
  delivered : ∀ i id, DeliveredTo c i id → Published c.toWorld id

theorem published_later {w w' : World api} (h : w.trace <:+ w'.trace) {id : Uuid}
    (hp : Published w id) : Published w' id := by
  obtain ⟨x, hx, hrest⟩ := hp
  exact ⟨x, h.subset hx, hrest⟩

namespace OneMessage

variable {c c' : Config api} {e : Event api} {i : Nat} {id : Uuid}

/-- Nothing is delivered but by starting a delivery. -/
theorem deliveredTo_step (hs : api.step c e = some c') (hd : DeliveredTo c' i id) :
    DeliveredTo c i id ∨ ∃ tag p, e = .spawn i (.delivery tag p) ∧ p.betId = id := by
  obtain ⟨tag, p, hp, hid⟩ := hd
  rcases (api.started_iff hs).mp hp with hp | rfl
  · exact .inl ⟨tag, p, hp, hid⟩
  · exact .inr ⟨tag, p, rfl, hid⟩

/-- A step that neither publishes nor delivers. -/
theorem of_same (h : OneMessage c) (hqueue : c'.state.betPlacement = c.state.betPlacement)
    (htrace : c.trace <:+ c'.trace)
    (hold : ∀ i id, DeliveredTo c' i id → DeliveredTo c i id) : OneMessage c' where
  queued := hqueue ▸ h.queued
  apart i id hd := hqueue ▸ h.apart i id (hold i id hd)
  once i j id hi hj := h.once i j id (hold i id hi) (hold j id hj)
  published p hp := published_later htrace (h.published p (hqueue ▸ hp))
  delivered i id hd := published_later htrace (h.delivered i id (hold i id hd))

/-- A message leaves the queue for a new delivery. -/
theorem of_delivery (h : OneMessage c) {p : BetPlacementPayload}
    (hp : p ∈ c.state.betPlacement)
    (hqueue : c'.state.betPlacement = c.state.betPlacement.erase p) (htrace : c'.trace = c.trace)
    (hnew : ∀ j id, DeliveredTo c' j id → DeliveredTo c j id ∨ j = i ∧ p.betId = id) :
    OneMessage c' := by
  have hperm := (List.perm_cons_erase hp).map BetPlacementPayload.betId
  have hnodup := hperm.nodup_iff.mp h.queued
  rw [List.map_cons, List.nodup_cons] at hnodup
  have hqueued : p.betId ∈ c.state.betPlacement.map BetPlacementPayload.betId :=
    List.mem_map_of_mem hp
  have hsuffix : c.trace <:+ c'.trace := by
    rewrite [htrace]
    exact List.suffix_rfl
  refine ⟨hqueue ▸ hnodup.2, fun j id hd => ?_, fun j j' id hd hd' => ?_, fun q hq => ?_,
    fun j id hd => ?_⟩
  · rw [hqueue]
    rcases hnew j id hd with hd | ⟨rfl, rfl⟩
    · exact fun hmem => h.apart j id hd (hperm.mem_iff.mpr (List.mem_cons_of_mem _ hmem))
    · exact hnodup.1
  · rcases hnew j id hd with hd | ⟨rfl, rfl⟩
    · rcases hnew j' id hd' with hd' | ⟨rfl, rfl⟩
      · exact h.once j j' id hd hd'
      · exact absurd hqueued (h.apart j _ hd)
    · rcases hnew j' _ hd' with hd' | ⟨rfl, -⟩
      · exact absurd hqueued (h.apart j' _ hd')
      · rfl
  · exact published_later hsuffix
      (h.published q (List.mem_of_mem_erase (hqueue ▸ hq)))
  · refine published_later hsuffix ?_
    rcases hnew j id hd with hd | ⟨rfl, rfl⟩
    · exact h.delivered j id hd
    · exact h.published p hp

/-- A message of a bet that had none. -/
theorem of_publish (h : OneMessage c) {p : BetPlacementPayload}
    (hno : ¬ Published c.toWorld p.betId) (hpub : Published c'.toWorld p.betId)
    (hqueue : c'.state.betPlacement = c.state.betPlacement ++ [p])
    (htrace : c.trace <:+ c'.trace)
    (hold : ∀ i id, DeliveredTo c' i id → DeliveredTo c i id) : OneMessage c' := by
  refine ⟨?_, fun i id hd => ?_, fun i j id hi hj => h.once i j id (hold i id hi) (hold j id hj),
    fun q hq => ?_, fun i id hd => published_later htrace (h.delivered i id (hold i id hd))⟩
  · rw [hqueue, List.map_append]
    refine List.nodup_append.mpr ⟨h.queued, by simp, ?_⟩
    rintro id hid _ hid' rfl
    obtain ⟨q, hq, rfl⟩ := List.mem_map.mp hid
    exact hno (List.mem_singleton.mp hid' ▸ h.published q hq)
  · rw [hqueue, List.map_append, List.mem_append]
    rintro (hid | hid)
    · exact h.apart i id (hold i id hd) hid
    · exact hno (List.mem_singleton.mp hid ▸ h.delivered i id (hold i id hd))
  · rw [hqueue, List.mem_append, List.mem_singleton] at hq
    rcases hq with hq | rfl
    · exact published_later htrace (h.published q hq)
    · exact hpub

/-- **One step.** -/
theorem step (hc : api.Reachable (api.init .empty) c) (h : OneMessage c)
    (hok : KeepsMessages c e) (hs : api.step c e = some c') : OneMessage c' := by
  have hdel : ∀ j id, DeliveredTo c' j id → DeliveredTo c j id ∨
      ∃ tag p, e = .spawn j (.delivery tag p) ∧ p.betId = id := fun _ _ => deliveredTo_step hs
  rcases api.step_cases hs with ⟨i, call, s, rfl, -, hst, rfl⟩ |
    ⟨i, m, call, o, k, r, w', rfl, hi, hx, rfl⟩ | ⟨i, call, o, k, rfl, -, rfl⟩ |
    ⟨v, s, rfl, hv, rfl⟩
  · rcases start_cases hst with ⟨p, rfl, hp, rfl⟩ | ⟨hcall, rfl⟩
    · refine h.of_delivery (i := i) hp rfl rfl fun j id hd => ?_
      rcases hdel j id hd with hd | ⟨tag', p', he, rfl⟩
      · exact .inl hd
      · obtain ⟨rfl, hcall⟩ := Event.spawn.inj he
        obtain ⟨-, rfl⟩ := ApiCall.delivery.inj hcall
        exact .inr ⟨rfl, rfl⟩
    · refine h.of_same rfl List.suffix_rfl fun j id hd => ?_
      rcases hdel j id hd with hd | ⟨tag, p, he, -⟩
      · exact hd
      · exact absurd (Event.spawn.inj he).2 (hcall tag p)
  · have hold : ∀ j id, DeliveredTo _ j id → DeliveredTo c j id := fun j id hd =>
      (hdel j id hd).resolve_right (by simp)
    obtain ⟨took, htr, hcases⟩ := api_exec_cases hx
    have htrace : c.trace <:+ w'.trace := htr ▸ List.suffix_cons _ _
    rcases hcases with ⟨rfl, ch, a, hexec⟩ | ⟨-, hsame⟩
    · rcases (Store.exec_effect hexec).betPlacement_cases with hq | ⟨p, rfl, hq⟩
      · exact h.of_same hq htrace hold
      · have hno := (Messages.known hc ⟨k, hi⟩ p.betId (.inr ⟨p, rfl, rfl⟩)).2
        exact h.of_publish hno ⟨_, htr ▸ List.mem_cons_self, rfl, p, rfl, rfl⟩ hq htrace hold
    · exact h.of_same (by rw [hsame]) htrace hold
  · exact h.of_same rfl List.suffix_rfl fun j id hd => (hdel j id hd).resolve_right (by simp)
  · cases v with
    | expire u m =>
      obtain rfl := Option.some.inj hv
      exact h.of_same rfl List.suffix_rfl fun j id hd => (hdel j id hd).resolve_right (by simp)
    | redeliver tag p => exact hok.elim
    | duplicate p => exact hok.elim

end OneMessage

/-- **One message, one delivery**, while RabbitMQ keeps its messages. -/
theorem api_delivered_once {c : Config api} (h : api.Reach KeepsMessages (api.init .empty) c) :
    OneMessage c := by
  induction h with
  | init =>
    have hnone : ∀ i id, ¬ DeliveredTo (api.init .empty) i id := by
      simp [DeliveredTo, Config.Started, Machine.init]
    exact ⟨by simp [Machine.init, Store.empty], fun i id hd => absurd hd (hnone i id),
      fun i j id hd => absurd hd (hnone i id), by simp [Machine.init, Store.empty],
      fun i id hd => absurd hd (hnone i id)⟩
  | step e hc hok hs ih => exact ih.step (hc.mono fun _ _ _ => trivial) hok hs

end BoltBet
