import BoltBet.Betting.Retries
import BoltBet.Betting.StatusMachine

/-!
# Pending bets and their messages

A bet is accepted by the worker that receives its message. `placeBet` inserts the bet, writes the
key and then publishes; a retry finds the bet and publishes nothing. So a call that stops between
the insert and the publish leaves a bet nobody can ever accept (`api_pending_lost`).

* `Publishes b p`: the program `p` is about to publish the message of `b`. After its insert
  `placeBet` does (`placeBet_carries`), as long as nothing fails.
* `Worker.known`: a worker acks a message only when its bet is past `PENDING`.
* `api_pending_held`: so, in every run in which no call that inserted its bet breaks off, every
  pending bet has its message once no `placeBet` is at work.
-/

namespace BoltBet

open Async BettingService

namespace Store

/-- RabbitMQ holds the message: in the queue, unacknowledged, or in the dead-letter queue. -/
def Holds (s : Store) (p : BetPlacementPayload) : Prop :=
  p ∈ s.betPlacement ∨ (∃ tag, (tag, p) ∈ s.unacked) ∨ p ∈ s.deadLetter

variable {ch : ApiChoice} {o : ApiOp} {s s' : Store} {p : BetPlacementPayload}

/-- Only an ack loses a message. -/
theorem Effect.holds (h : Effect ch s o s') (hp : s.Holds p) :
    s'.Holds p ∨ ∃ tag, o = .ack tag ∧ (tag, p) ∈ s.unacked := by
  cases h with
  | publishBetPlacement q =>
    rcases hp with hp | hp | hp
    · exact .inl (.inl (List.mem_append_left _ hp))
    · exact .inl (.inr (.inl hp))
    · exact .inl (.inr (.inr hp))
  | ack tag =>
    rcases hp with hp | ⟨tag', hp⟩ | hp
    · exact .inl (.inl hp)
    · by_cases htag : tag' = tag
      · exact .inr ⟨tag, rfl, htag ▸ hp⟩
      · exact .inl (.inr (.inl ⟨tag', List.mem_filter.mpr ⟨hp, by simpa using htag⟩⟩))
    · exact .inl (.inr (.inr hp))
  | nack tag =>
    rcases hp with hp | ⟨tag', hp⟩ | hp
    · exact .inl (.inl hp)
    · by_cases htag : tag' = tag
      · refine .inl (.inr (.inr (List.mem_append_right _ ?_)))
        exact List.mem_map.mpr ⟨(tag', p), List.mem_filter.mpr ⟨hp, by simpa using htag⟩, rfl⟩
      · exact .inl (.inr (.inl ⟨tag', List.mem_filter.mpr ⟨hp, by simpa using htag⟩⟩))
    · exact .inl (.inr (.inr (List.mem_append_left _ hp)))
  | _ => exact .inl hp

/-- Operations deliver nothing. -/
theorem Effect.unacked (h : Effect ch s o s') :
    s'.deliveries = s.deliveries ∧ s'.unacked ⊆ s.unacked := by
  cases h with
  | ack tag | nack tag => exact ⟨rfl, fun x hx => (List.mem_filter.mp hx).1⟩
  | _ => exact ⟨rfl, fun x hx => hx⟩

/-- A pending bet was pending, or has just been inserted, when no update writes `PENDING`. -/
theorem Effect.pending_before (h : Effect ch s o s') (ho : ∀ id, o ≠ .betUpdate id .PENDING)
    {b' : Bet} (hb : b' ∈ s'.bets) (hp : b'.status = .PENDING) :
    b' ∈ s.bets ∨ ∃ d, o = .betSave d ∧ s.rejectsBet ch.fresh d = Option.none ∧
      b' = d.row ch.fresh ch.now := by
  rcases h.bets_cases with he | ⟨d, rfl, hrej, he⟩ | ⟨id, st, rfl, he⟩
  · exact .inl (he ▸ hb)
  · rw [he, List.mem_append, List.mem_singleton] at hb
    rcases hb with hb | rfl
    · exact .inl hb
    · exact .inr ⟨d, rfl, hrej, rfl⟩
  · rw [he, mem_setStatus] at hb
    obtain ⟨b, hb, rfl⟩ := hb
    split at hp
    · exact absurd rfl (hp ▸ ho id)
    · rename_i hid
      rw [if_neg hid]
      exact .inl hb

end Store

theorem ApiCall.start_holds {call : ApiCall} {s s' : Store} (h : call.start s = some s')
    {p : BetPlacementPayload} (hp : s.Holds p) : s'.Holds p := by
  rcases start_cases h with ⟨q, -, -, rfl⟩ | ⟨-, rfl⟩
  · rcases hp with hp | ⟨tag, hp⟩ | hp
    · by_cases hq : p = q
      · exact .inr (.inl ⟨s.deliveries, hq ▸ List.mem_cons_self⟩)
      · exact .inl ((List.mem_erase_of_ne hq).mpr hp)
    · exact .inr (.inl ⟨tag, List.mem_cons_of_mem _ hp⟩)
    · exact .inr (.inr hp)
  · exact hp

theorem ApiEnv.step_holds {v : ApiEnv} {s s' : Store} (h : v.step s = some s')
    {p : BetPlacementPayload} (hp : s.Holds p) : s'.Holds p := by
  rcases env_cases h with ⟨u, m, -, rfl⟩ | ⟨tag, q, -, rfl⟩ | ⟨q, -, rfl⟩
  · exact hp
  · rcases hp with hp | ⟨tag', hp⟩ | hp
    · exact .inl (List.mem_cons_of_mem _ hp)
    · by_cases hq : (tag', p) = (tag, q)
      · obtain ⟨-, rfl⟩ := Prod.mk.inj hq
        exact .inl List.mem_cons_self
      · exact .inr (.inl ⟨tag', (List.mem_erase_of_ne hq).mpr hp⟩)
    · exact .inr (.inr hp)
  · exact hp.imp_left (List.mem_cons_of_mem _)

theorem ApiEnv.step_unacked {v : ApiEnv} {s s' : Store} (h : v.step s = some s') :
    s'.deliveries = s.deliveries ∧ s'.unacked ⊆ s.unacked := by
  rcases env_cases h with ⟨u, m, -, rfl⟩ | ⟨tag, q, -, rfl⟩ | ⟨q, -, rfl⟩
  · exact ⟨rfl, List.Subset.refl _⟩
  · exact ⟨rfl, fun x hx => List.mem_of_mem_erase hx⟩
  · exact ⟨rfl, List.Subset.refl _⟩

/-! ## Who publishes -/

/-- When nothing fails, the program publishes the message of the bet, at once or after the key. -/
def Publishes (b : Bet) : Prog ApiSig ApiReply → Prop
  | .await (.publishBetPlacement p) _ => p = placementOf b
  | .await (.redisSet ..) k => ∃ k', k (.ok ()) = .await (.publishBetPlacement (placementOf b)) k'
  | _ => False

/-- An answered insert is followed by the message of its row. -/
def Carries : (o : ApiOp) → (Except Err o.Res → Prog ApiSig ApiReply) → Prop
  | .betSave d, k => ∀ id now, Publishes (d.row id now) (k (.ok (d.row id now)))
  | _, _ => True

/-- Operations that insert no bet. -/
def NoInsert (o : ApiOp) : Prop := ∀ d, o ≠ .betSave d

theorem carries_of_noInsert (o : ApiOp) (k : Except Err o.Res → Prog ApiSig ApiReply)
    (h : NoInsert o) : Carries o k := by
  cases o with
  | betSave d => exact absurd rfl (h d)
  | _ => trivial

/-- **`placeBet` goes on to publish the bet it inserted.** -/
theorem placeBet_carries (u : Uuid) (role : Role) (dto : PlaceBetDto) :
    (ApiCall.body (.placeBet u role dto)).Each fun o k => Carries o k := by
  have hnew : (placeNewBet u dto >>= fun a => pure (.bet a)).Each fun o k => Carries o k := by
    unfold placeNewBet
    simp only [bind_assoc]
    refine .bind carries_of_noInsert (Api.all_assertMarketOpen (by simp [NoInsert])) fun m => ?_
    refine .bind carries_of_noInsert (Api.all_wallet (Api.all_lookup_then (by simp [NoInsert])
      (by simp [NoInsert]))) fun _ => ?_
    refine .perform_bind (fun id now => ⟨_, rfl⟩) fun b => ?_
    refine .perform_bind trivial fun _ => ?_
    exact .perform_bind trivial fun _ => trivial
  have hlookup : (lookupOrPlace u dto >>= fun a => pure (.bet a)).Each fun o k => Carries o k := by
    unfold lookupOrPlace
    rw [bind_assoc]
    refine .bind carries_of_noInsert (Api.all_op (by simp [NoInsert])) fun existing => ?_
    cases existing with
    | some b => trivial
    | none => exact hnew
  have hbody : ApiCall.body (.placeBet u role dto) =
      (placeBet u role dto >>= fun a => pure (.bet a)) := map_eq_pure_bind ..
  rw [hbody]
  unfold placeBet
  split
  · trivial
  rw [bind_assoc]
  refine .bind carries_of_noInsert (Api.all_op (by simp [NoInsert])) fun cached => ?_
  cases cached with
  | none => exact hlookup
  | some id =>
    dsimp only
    rw [bind_assoc]
    refine .bind carries_of_noInsert (Api.all_op (by simp [NoInsert])) fun b => ?_
    cases b with
    | some b => trivial
    | none => exact hlookup

theorem body_carries (call : ApiCall) : call.body.Each fun o k => Carries o k := by
  by_cases hcall : ∃ u role dto, call = .placeBet u role dto
  · obtain ⟨u, role, dto, rfl⟩ := hcall
    exact placeBet_carries u role dto
  · refine .of_all carries_of_noInsert ((body_footprint call).mono ?_)
    rintro o ho d rfl
    cases ho with
    | betSave u role dto m => exact hcall ⟨u, role, dto, rfl⟩

/-! ## Workers -/

namespace Worker

/-- A worker acks when the bet of its message is past `PENDING`. -/
def Known (call : ApiCall) (o : ApiOp) (s : Store) : Prop :=
  ∀ tag p, call = .delivery tag p → ∀ tag', o = .ack tag' → s.PastPending p.betId

/-- Bets past `PENDING` stay so, since every update is declared. -/
def knowledge : Knowledge api :=
  apiKnowledge (fun w => w.state.BetIds)
    (fun w w' => ∀ id, w.state.PastPending id → w'.state.PastPending id)
    (fun _ call o w => Known call o w.state) (fun _ _ o w _ _ => w.state.MayRun o) pastPending_refl
    pastPending_trans
    (fun hinv _ hmay hx => by
      obtain ⟨ch, he⟩ := api_exec_effect hx
      exact ⟨he.betIds hinv, fun _ => pastPending_exec hx hmay, fun _ _ _ _ hk tag p hc tag' ho =>
        pastPending_exec hx hmay (hk tag p hc tag' ho)⟩)
    fun {s s' l} hsame hinv => by
      have hpast : ∀ id, s.PastPending id → s'.PastPending id := by
        intro id hp
        unfold Store.PastPending
        rw [hsame.betStatus]
        exact hp
      exact ⟨hsame.betIds hinv, hpast, fun _ _ _ hk tag p hc tag' ho =>
        hpast p.betId (hk tag p hc tag' ho)⟩

variable {i : Nat} {call : ApiCall}

/-- Only an ack needs knowledge. -/
def Harmless (o : ApiOp) : Prop := ∀ tag, o ≠ .ack tag

theorem Harmless.known {o : ApiOp} (h : Harmless o) (w : World api) : knowledge.K i call o w :=
  fun _ _ _ tag' ho => absurd ho (h tag')

/-- A bet that `transitionStatus` accepted is past `PENDING`. -/
theorem safe_transitionStatus (id : Uuid) (w : World api) :
    knowledge.rules.Safe i call (fun r w' => ∀ x, r = .ok x → w'.state.PastPending id)
      (transitionStatus id .ACCEPTED) w := by
  unfold transitionStatus
  refine ApiRules.safe_then (P := Harmless) (fun _ => Harmless.known)
    (Api.all_op (by simp [Harmless])) (fun found w => ?_) fun _ _ _ h => absurd h (by simp)
  cases found with
  | none => exact fun _ h => absurd h (by simp)
  | some bet =>
    dsimp only
    split
    · refine Knowledge.safe_op' (Harmless.known (by simp [Harmless]) w)
        fun {w₁ r w₂} _ hmay hx _ => ?_
      rintro x rfl
      obtain ⟨-, -, htr⟩ := api_exec_ok hx
      cases hst : w₁.state.betStatus id with
      | none => exact absurd hst (hmay.found id _ rfl)
      | some st =>
        refine ⟨.ACCEPTED, ?_, by simp⟩
        rw [api_betUpdate hx htr rfl, hst]
        rfl
    · exact fun _ h => absurd h (by simp)

/-- So is one in a terminal state. -/
theorem safe_isTerminalState (id : Uuid) (w : World api) :
    knowledge.rules.Safe i call (fun r w' => r = .ok true → w'.state.PastPending id)
      (isTerminalState id) w := by
  unfold isTerminalState
  refine Rules.safe_bind.mpr (Knowledge.safe_op' (Harmless.known (by simp [Harmless]) w)
    fun {w₁ r w₂} _ _ hx _ => ?_)
  rcases r with e | _ | bet
  · exact fun h => absurd h (by simp)
  · exact fun h => absurd (Except.ok.inj h) (by simp)
  · obtain ⟨hb, hs⟩ := api_betFindById_ok hx
    intro h
    have hterminal : bet.status ∈ TERMINAL_STATES := of_decide_eq_true (Except.ok.inj h)
    refine ⟨bet.status, ?_, fun hp => ?_⟩
    · rw [hs, Store.betStatus, ← hb]
      rfl
    · rw [hp] at hterminal
      exact absurd hterminal (by decide)

/-- **A worker acks only messages of bets that are past `PENDING`.** -/
theorem safe_consume (tag : Nat) (p : BetPlacementPayload) (w : World api) :
    knowledge.rules.Safe i (.delivery tag p) (fun _ _ => True)
      (SettlementWorker.consume tag p) w := by
  have hnack : ∀ w, knowledge.rules.Safe i (.delivery tag p) (fun _ _ => True) (Api.nack tag) w :=
    Knowledge.safe_of_known (fun _ => Harmless.known) (Api.all_op (by simp [Harmless]))
  have hack : ∀ w, w.state.PastPending p.betId →
      knowledge.rules.Safe i (.delivery tag p) (fun _ _ => True) (Api.ack tag) w := by
    intro w hw
    refine Knowledge.safe_op' (fun tag' p' hc _ _ => ?_) fun _ _ _ _ => trivial
    obtain ⟨-, rfl⟩ := ApiCall.delivery.inj hc
    exact hw
  refine ApiRules.safe_tryCatch' (ApiRules.safe_tryCatch' ?_ fun _ => hnack) fun _ => hnack
  refine Rules.safe_seq
    (Q := fun r (w' : World api) => r = .ok false → w'.state.PastPending p.betId)
    (Rules.safe_try (Q := fun r (w' : World api) => r = .ok false → w'.state.PastPending p.betId)
      (Rules.safe_seq (safe_transitionStatus p.betId w) (fun x w h _ => h x rfl)
        fun _ _ _ h => absurd h (by simp)) (fun _ _ h => h) fun e w _ => ?_)
    (fun acked w h => ?_) fun _ _ _ => trivial
  · refine Rules.safe_seq (safe_isTerminalState p.betId w) (fun t w h => ?_)
      fun _ _ _ h => absurd h (by simp)
    cases t with
    | true =>
      exact Rules.safe_seq (hack w (h rfl)) (fun _ _ _ h => absurd (Except.ok.inj h) (by simp))
        fun _ _ _ h => absurd h (by simp)
    | false => exact fun h => absurd h (by simp)
  · cases acked with
    | true => trivial
    | false => exact hack w (h rfl)

theorem safe_body (call : ApiCall) (w : World api) :
    knowledge.rules.Safe i call (fun _ _ => True) call.body w := by
  by_cases hcall : ∃ tag p, call = .delivery tag p
  · obtain ⟨tag, p, rfl⟩ := hcall
    exact ApiRules.safe_bind' (safe_consume tag p w) fun _ _ => trivial
  · refine Knowledge.safe_of_known (fun _ => Harmless.known) ((body_footprint call).mono ?_) w
    rintro o ho tag rfl
    cases ho with
    | ack tag p => exact hcall ⟨tag, p, rfl⟩

/-- Every worker of every run knows. -/
theorem known {c : Config api} (hc : api.Reachable (api.init .empty) c) {o : ApiOp}
    (hw : c.Waits i call o) : Known call o c.state := by
  have hmay : ∀ {c}, api.Reachable (api.init .empty) c → ∀ {i call o}, c.Waits i call o →
      c.state.MayRun o := fun hc _ _ _ hw => ((StatusMachine.known hc).2 hw).1
  have hgood := Knowledge.reach (D := knowledge) (fun _ => trivial) (fun _ _ _ _ => True)
    (fun _ _ _ _ _ _ _ hok hw _ => hmay hok.1 hw) (fun _ _ _ _ _ _ h => h)
    (fun _ call w _ => safe_body call w) (show Store.empty.BetIds from List.nodup_nil) hc.reached
  exact hgood.2.1 i call o hw fun _ _ => hmay hc hw

end Worker

/-! ## Delivery tags -/

/-- A delivery tag is of one message. -/
structure Tags (c : Config api) : Prop where
  unacked : ∀ tag p, (tag, p) ∈ c.state.unacked → tag < c.state.deliveries
  started : ∀ i tag p, c.Started i (.delivery tag p) → tag < c.state.deliveries ∧
    ∀ p', (tag, p') ∈ c.state.unacked → p' = p

namespace Tags

variable {c c' : Config api} {e : Event api}

/-- Nothing new is unacknowledged, and no delivery starts. -/
theorem of_less (h : Tags c) (hdel : c'.state.deliveries = c.state.deliveries)
    (hunacked : ∀ x ∈ c'.state.unacked, x ∈ c.state.unacked)
    (hold : ∀ i tag p, c'.Started i (.delivery tag p) → c.Started i (.delivery tag p)) :
    Tags c' where
  unacked tag p hp := hdel ▸ h.unacked tag p (hunacked _ hp)
  started i tag p hi := by
    obtain ⟨hlt, huniq⟩ := h.started i tag p (hold i tag p hi)
    exact ⟨hdel ▸ hlt, fun p' hp' => huniq p' (hunacked _ hp')⟩

theorem step (h : Tags c) (hs : api.step c e = some c') : Tags c' := by
  have hstarted : ∀ i tag p, c'.Started i (.delivery tag p) →
      c.Started i (.delivery tag p) ∨ e = .spawn i (.delivery tag p) :=
    fun _ _ _ => (api.started_iff hs).mp
  rcases api.step_cases hs with ⟨i, call, s, rfl, -, hst, rfl⟩ |
    ⟨i, m, call, o, k, r, w', rfl, -, hx, rfl⟩ | ⟨i, call, o, k, rfl, -, rfl⟩ |
    ⟨v, s, rfl, hv, rfl⟩
  · rcases start_cases hst with ⟨p, rfl, -, rfl⟩ | ⟨hcall, rfl⟩
    · refine ⟨fun tag' p' hp' => ?_, fun j tag' p' hj => ?_⟩
      · rcases List.mem_cons.mp hp' with hp' | hp'
        · obtain ⟨rfl, -⟩ := Prod.mk.inj hp'
          exact Nat.lt_succ_self _
        · exact Nat.lt_succ_of_lt (h.unacked tag' p' hp')
      · rcases hstarted j tag' p' hj with hj | hj
        · obtain ⟨hlt, huniq⟩ := h.started j tag' p' hj
          refine ⟨Nat.lt_succ_of_lt hlt, fun q hq => ?_⟩
          rcases List.mem_cons.mp hq with hq | hq
          · obtain ⟨rfl, -⟩ := Prod.mk.inj hq
            exact absurd hlt (Nat.lt_irrefl _)
          · exact huniq q hq
        · obtain ⟨-, hcall⟩ := Event.spawn.inj hj
          obtain ⟨rfl, rfl⟩ := ApiCall.delivery.inj hcall
          refine ⟨Nat.lt_succ_self _, fun q hq => ?_⟩
          rcases List.mem_cons.mp hq with hq | hq
          · exact (Prod.mk.inj hq).2
          · exact absurd (h.unacked _ q hq) (Nat.lt_irrefl _)
    · refine h.of_less rfl (fun x hx => hx) fun j tag p hj => ?_
      exact (hstarted j tag p hj).resolve_right fun he =>
        hcall tag p (Event.spawn.inj he).2
  · obtain ⟨ch, he⟩ := api_exec_effect hx
    exact h.of_less he.unacked.1 (fun x hx => he.unacked.2 hx) fun j tag p hj =>
      (hstarted j tag p hj).resolve_right (by simp)
  · exact h.of_less rfl (fun x hx => hx) fun j tag p hj =>
      (hstarted j tag p hj).resolve_right (by simp)
  · have hless := ApiEnv.step_unacked hv
    exact h.of_less hless.1 (fun x hx => hless.2 hx) fun j tag p hj =>
      (hstarted j tag p hj).resolve_right (by simp)

end Tags

theorem api_tags {c : Config api} (h : api.Reachable (api.init .empty) c) : Tags c := by
  induction h with
  | init =>
    exact ⟨by simp [Machine.init, Store.empty], by simp [Config.Started, Machine.init]⟩
  | step e _ _ hs ih => exact ih.step hs

/-! ## Whole runs -/

/-- The operation of a call that inserted its bet and has not published it yet. -/
def ApiOp.unpublished : ApiOp → Bool
  | .redisSet .. => true
  | .publishBetPlacement _ => true
  | _ => false

/-- A call that inserted its bet breaks off before it published it: the answer to the insert is
lost, or the key fails in any way, or the message does not reach RabbitMQ. -/
def breaksOff (s : Store) (o : ApiOp) (m : Mode ApiChoice Err) : Bool :=
  match o, m with
  | .betSave d, .lost ch _ => (s.rejectsBet ch.fresh d).isNone
  | .redisSet .., .fail _ => true
  | .redisSet .., .lost .. => true
  | .publishBetPlacement _, .fail _ => true
  | _, _ => false

/-- **The condition**: no call that inserted its bet breaks off or crashes before it published
it. -/
def CarriesOn (c : Config api) : Event api → Prop
  | .run i m => ∀ x ∈ c.waiting i, breaksOff c.state x.2 m = false
  | .crash i => ∀ x ∈ c.waiting i, x.2.unpublished = false
  | _ => True

instance : ∀ c e, Decidable (CarriesOn c e)
  | c, .run i _ => inferInstanceAs (Decidable (∀ x ∈ c.waiting i, _ = false))
  | c, .crash i => inferInstanceAs (Decidable (∀ x ∈ c.waiting i, _ = false))
  | _, .spawn .. => inferInstanceAs (Decidable True)
  | _, .env _ => inferInstanceAs (Decidable True)

/-- No `placeBet` call is at work. -/
def NoPlacement (c : Config api) : Prop := ∀ i u role dto o, ¬ c.Waits i (.placeBet u role dto) o

/-- The message of a pending bet is held, or about to be published. -/
def Accounted (c : Config api) (b : Bet) : Prop :=
  c.state.Holds (placementOf b) ∨
    ∃ i call p, c.threads i = some ⟨call, p, false⟩ ∧ Publishes b p

namespace Pending

variable {c c' : Config api} {e : Event api} {b : Bet} {i : Nat}

/-- Another thread's bet stays accounted for, when RabbitMQ loses nothing. -/
theorem accounted_other (h : Accounted c b)
    (hheld : c.state.Holds (placementOf b) → c'.state.Holds (placementOf b))
    (hother : ∀ j call p, c.threads j = some ⟨call, p, false⟩ → Publishes b p → j ≠ i)
    (hthreads : ∀ j, j ≠ i → c'.threads j = c.threads j) : Accounted c' b := by
  rcases h with h | ⟨j, call, p, hj, hp⟩
  · exact .inl (hheld h)
  · exact .inr ⟨j, call, p, (hthreads j (hother j call p hj hp)).trans hj, hp⟩

/-- A worker acks no message of a pending bet. -/
theorem not_acked (hc : api.Reachable (api.init .empty) c) {call : ApiCall} {tag : Nat}
    (hw : c.Waits i call (.ack tag)) (hb : b ∈ c.state.bets) (hp : b.status = .PENDING) :
    (tag, placementOf b) ∉ c.state.unacked := by
  intro hmem
  obtain ⟨p, rfl⟩ : ∃ p, call = .delivery tag p := by
    have hfoot : Footprint call (.ack tag) := api.waits_all body_footprint hc hw
    cases hfoot with
    | ack tag p => exact ⟨p, rfl⟩
  obtain rfl := ((api_tags hc).started i tag p hw.started).2 _ hmem
  obtain ⟨st, hst, hne⟩ := Worker.known hc hw tag _ rfl tag rfl
  have hbet : c.state.betStatus b.id = some b.status := by
    rw [Store.betStatus, (Retries.reach hc).1.betIds.bet_of_mem hb]
    rfl
  exact hne (Option.some.inj (hst.symm.trans (hbet.trans (congrArg some hp))))

theorem unpublished_of_publishes {o : ApiOp} {k : Except Err o.Res → Prog ApiSig ApiReply}
    (h : Publishes b (.await o k)) : o.unpublished = true := by
  cases o with
  | redisSet u m id | publishBetPlacement p => rfl
  | _ => exact h.elim

/-- What a thread that publishes the bet does when nothing breaks off. -/
theorem accounted_publisher {o : ApiOp} {k : Except Err o.Res → Prog ApiSig ApiReply}
    {m : Mode ApiChoice Err} {r : Except Err o.Res} {s' : Store} {took : Bool}
    (hpub : Publishes b (.await o k)) (hok : breaksOff c.state o m = false)
    (ha : api.answer i m o c.state = some (r, s', took)) :
    s'.Holds (placementOf b) ∨ Publishes b (k r) := by
  cases o with
  | publishBetPlacement p =>
    obtain rfl : p = placementOf b := hpub
    have hholds : ∀ s : Store, Store.Holds
        { s with betPlacement := s.betPlacement ++ [placementOf b] } (placementOf b) :=
      fun s => .inl (List.mem_append_right _ (List.mem_singleton_self _))
    rcases api_answer_cases ha with ⟨ch, rfl, hx⟩ | ⟨e, rfl, -, -⟩ | ⟨ch, e, rfl, -, rfl⟩
    · rw [← (Prod.mk.inj hx).2]
      exact .inl (hholds _)
    · exact absurd hok (by simp [breaksOff])
    · exact .inl (hholds _)
  | redisSet u m' id =>
    obtain ⟨k', hk'⟩ := hpub
    rcases api_answer_cases ha with ⟨ch, rfl, hx⟩ | ⟨e, rfl, -, -⟩ | ⟨ch, e, rfl, -, -⟩
    · obtain rfl : .ok () = r := (Prod.mk.inj hx).1
      rw [hk']
      exact .inr rfl
    · exact absurd hok (by simp [breaksOff])
    · exact absurd hok (by simp [breaksOff])
  | _ => exact hpub.elim

/-- A pending bet after an operation was there before, or the call that inserted it goes on to
publish it. -/
theorem pending_exec {call : ApiCall} {o : ApiOp} {k : Except Err o.Res → Prog ApiSig ApiReply}
    {m : Mode ApiChoice Err} {r : Except Err o.Res} {s' : Store} {took : Bool}
    (hcarries : Carries o k) (hfoot : Footprint call o) (hok : breaksOff c.state o m = false)
    (ha : api.answer i m o c.state = some (r, s', took)) (hb : b ∈ s'.bets)
    (hp : b.status = .PENDING) : b ∈ c.state.bets ∨ Publishes b (k r) := by
  have hupdate : ∀ id, o ≠ .betUpdate id .PENDING := by
    rintro id rfl
    cases hfoot
  rcases api_answer_cases ha with ⟨ch, rfl, hx⟩ | ⟨e, rfl, -, rfl⟩ | ⟨ch, e, rfl, -, rfl⟩
  · rcases (Store.exec_effect hx).pending_before hupdate hb hp with hb | ⟨d, rfl, hrej, rfl⟩
    · exact .inl hb
    · rcases c.state.exec_betSave ch d with ⟨err, hrej', -⟩ | ⟨-, hx'⟩
      · exact absurd (hrej'.symm.trans hrej) (by simp)
      · obtain rfl := (Prod.mk.inj (hx'.symm.trans hx)).1
        exact .inr (hcarries ch.fresh ch.now)
  · exact .inl hb
  · have he : Store.Effect ch c.state o (c.state.exec ch o).2 := Store.exec_effect rfl
    rcases he.pending_before hupdate hb hp with hb | ⟨d, rfl, hrej, -⟩
    · exact .inl hb
    · exact absurd hok (by simp [breaksOff, hrej])

/-- **One step.** -/
theorem step (hc : api.Reachable (api.init .empty) c)
    (h : ∀ b ∈ c.state.bets, b.status = .PENDING → Accounted c b) (hok : CarriesOn c e)
    (hs : api.step c e = some c') :
    ∀ b ∈ c'.state.bets, b.status = .PENDING → Accounted c' b := by
  intro b hb hp
  rcases api.step_cases hs with ⟨i, call, s, rfl, hi, hst, rfl⟩ |
    ⟨i, m, call, o, k, -, -, rfl, hi, -, -⟩ | ⟨i, call, o, k, rfl, hi, rfl⟩ |
    ⟨v, s, rfl, hv, rfl⟩
  · have hbets : s.bets = c.state.bets := (start_tables hst).bets
    refine accounted_other (i := i) (h b (hbets ▸ hb) hp) (ApiCall.start_holds hst) ?_
      fun j hj => Function.update_of_ne hj _ _
    rintro j call' p hj - rfl
    exact absurd (hi.symm.trans hj) (by simp)
  · obtain ⟨r, w', ⟨_, s', took, rfl, ha, rfl⟩, rfl⟩ := api.step_run hs hi
    have hw : c.Waits i call o := ⟨k, hi⟩
    have hcall : breaksOff c.state o _ = false := hok (call, o) hw.waiting
    have hupdated : ∀ j, j ≠ i → Function.update c.threads i (some ⟨call, k r, false⟩) j =
        c.threads j := fun j hj => Function.update_of_ne hj _ _
    -- thread `i` publishes after the operation
    have hself : Publishes b (k r) → Accounted
        ⟨⟨s', ⟨i, call, o, took, c.state⟩ :: c.trace⟩,
          Function.update c.threads i (some ⟨call, k r, false⟩)⟩ b :=
      fun hpub => .inr ⟨i, call, k r, Function.update_self .., hpub⟩
    have hcarries : Carries o k := (api.each_thread body_carries hc hi).1
    rcases pending_exec hcarries (api.waits_all body_footprint hc hw) hcall ha hb hp with
      hold | hpub
    · by_cases hpub : Publishes b (.await o k)
      · exact (accounted_publisher hpub hcall ha).elim .inl hself
      · obtain ⟨ch, he⟩ := api_answer_effect ha
        refine accounted_other (i := i) (h b hold hp) (fun hheld => ?_) ?_ hupdated
        · rcases he.holds hheld with hheld | ⟨tag, rfl, hmem⟩
          · exact hheld
          · exact absurd hmem (not_acked hc hw hold hp)
        · rintro j call' p hj hpub' rfl
          obtain rfl : .await o k = p := congrArg Thread.prog (Option.some.inj (hi.symm.trans hj))
          exact hpub hpub'
    · exact hself hpub
  · refine accounted_other (i := i) (h b hb hp) id ?_ fun j hj => Function.update_of_ne hj _ _
    rintro j call' p hj hpub rfl
    obtain rfl : .await o k = p := congrArg Thread.prog (Option.some.inj (hi.symm.trans hj))
    have hcrash : o.unpublished = false := hok (call, o) (Config.Waits.waiting ⟨k, hi⟩)
    exact absurd (hcrash.symm.trans (unpublished_of_publishes hpub)) (by simp)
  · have hbets : s.bets = c.state.bets := (env_tables hv).bets
    rcases h b (hbets ▸ hb) hp with hheld | hpub
    · exact .inl (ApiEnv.step_holds hv hheld)
    · exact .inr hpub

end Pending

/-- **Every pending bet has its message**, and a bet that was answered exists, in every run in
which no call breaks off. -/
theorem api_pending_held {c : Config api} (h : api.Reach CarriesOn (api.init .empty) c)
    (hquiet : NoPlacement c) :
    (∀ b ∈ c.state.bets, b.status = .PENDING → c.state.Holds (placementOf b)) ∧
    ∀ i u role dto a, c.Returned i (.placeBet u role dto) (.bet a) →
      ∃ b ∈ c.state.bets, b.id = a.id ∧ (b.status = .PENDING → c.state.Holds (placementOf b)) := by
  have hreach : api.Reachable (api.init .empty) c := h.mono fun _ _ _ => trivial
  have haccounted : ∀ b ∈ c.state.bets, b.status = .PENDING → Accounted c b := by
    clear hquiet hreach
    induction h with
    | init => exact fun b hb => absurd hb (by simp [Machine.init, Store.empty])
    | step e hc hok hs ih => exact Pending.step (hc.mono fun _ _ _ => trivial) ih hok hs
  have hheld : ∀ b ∈ c.state.bets, b.status = .PENDING → c.state.Holds (placementOf b) := by
    intro b hb hp
    rcases haccounted b hb hp with hheld | ⟨i, call, p, hi, hpub⟩
    · exact hheld
    -- only a `placeBet` call could still publish it, and none is at work
    · cases p with
      | await o k =>
        have hw : c.Waits i call o := ⟨k, hi⟩
        have hfoot : Footprint call o := api.waits_all body_footprint hreach hw
        cases hfoot with
        | redisSet u role dto id | publishBetPlacement u role dto b =>
          exact absurd hw (hquiet i u role dto _)
        | _ => exact hpub.elim
      | ret a => exact hpub.elim
      | throw e => exact hpub.elim
  refine ⟨hheld, fun i u role dto a ha => ?_⟩
  obtain ⟨b, hb, -, -, b₀, hsame, rfl⟩ := (Retries.reach hreach).2 i _ _ ha u role dto a rfl rfl
  exact ⟨b, hb, hsame.id, hheld b hb⟩

/-- A bet is placed to the end, and waits for its delivery. -/
theorem api_pending_held_placed : ∃ c, api.Reach CarriesOn (api.init .empty) c ∧
    (∃ b ∈ c.state.bets, b.status = .PENDING) ∧
    ∀ b ∈ c.state.bets, b.status = .PENDING → c.state.Holds (placementOf b) := by
  obtain ⟨c, hr, hquiet, hb⟩ : ∃ c, api.replay (api.init .empty) betPlaced = some c ∧
      (∀ i ∈ betPlaced.filterMap Event.spawns?, c.waiting i = none) ∧
      ∃ b ∈ c.state.bets, b.status = .PENDING := ⟨_, rfl, by decide, by decide⟩
  have h : api.Reach CarriesOn (api.init .empty) c := .of_meets .init hr (by decide)
  exact ⟨c, h, hb, (api_pending_held h fun i u role dto o =>
    api.quiet_of_replay hr hquiet i _ o).1⟩

/-- A call crashes after its insert; the retry finds the bet and answers with it. -/
def retryAfterCrash : List (Event api) :=
  openMarket ++ .spawn 2 (bet100 2) :: proceed 2 6 ++
  .crash 2 :: .spawn 3 (bet100 2) :: proceed 3 2

/-- The retry succeeded, nobody is at work, and no message of the pending bet exists. -/
theorem api_pending_lost : ∃ c, api.Reachable (api.init .empty) c ∧ NoPlacement c ∧
    (∃ a, c.Returned 3 (bet100 2) (.bet a)) ∧
    ∃ b ∈ c.state.bets, b.status = .PENDING ∧ ¬ c.state.Holds (placementOf b) := by
  obtain ⟨c, hr, hquiet, ha, ⟨b, hb, hp⟩, hqueue, hunacked, hdead⟩ : ∃ c,
      api.replay (api.init .empty) retryAfterCrash = some c ∧
      (∀ i ∈ retryAfterCrash.filterMap Event.spawns?, c.waiting i = none) ∧
      (∃ a, c.Returned 3 (bet100 2) (.bet a)) ∧ (∃ b ∈ c.state.bets, b.status = .PENDING) ∧
      c.state.betPlacement = [] ∧ c.state.unacked = [] ∧ c.state.deadLetter = [] :=
    ⟨_, rfl, by decide, ⟨_, rfl⟩, by decide, rfl, rfl, rfl⟩
  refine ⟨c, .of_replay .init hr, fun i u role dto o => api.quiet_of_replay hr hquiet i _ o, ha, b,
    hb, hp, ?_⟩
  rw [Store.Holds, hqueue, hunacked, hdead]
  simp

end BoltBet
