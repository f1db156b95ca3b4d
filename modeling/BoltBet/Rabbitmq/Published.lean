import BoltBet.Rabbitmq.Topology
import BoltBet.Text.Money
import BoltBet.Text.Stringify

/-!
# From what is published to its handling: `RabbitmqService.ts`

The channels have `json: true`: what a service publishes is stringified, and what a consumer gets
are those bytes.

* `sent`: the bytes of a value. `FromServices`: what `placeBet`, the market service and
  `POST /publish` give to the publisher's channel.
* `Sourced`: a message that some call has published. **`allSourced`**, **`delivery_sourced`**: every
  message that a queue took and every delivery is one, over restarts and redeliveries.
* **`published_handled`**: a delivery of a work queue is of a payload that was published, its
  callback answers once, and it handles that payload.
-/

namespace BoltBet.Delivery

open Async Amqp

open Json (Value)

/-! ## The bytes -/

/-- `Buffer.from(JSON.stringify(v))`. -/
def sent (v : Value) : Bytes := Utf8.encode (String.ofList (Json.stringify v))

theorem isText_sent {v : Value} (h : Json.Numerals v) : Json.IsText v (Utf8.decode (sent v)) := by
  refine ⟨[], Json.stringify v, [], Json.blanks_nil, Json.isValue_stringify v h,
    Json.blanks_nil, ?_⟩
  rw [sent, Utf8.decode_encode, String.toList_ofList, List.nil_append, List.append_nil]

/-- The codec writes integers as JSON does. -/
def Codec.Numbers (C : Codec) : Prop := ∀ n, Json.isNumber (C.int n) = true

theorem Codec.Numbers.placement {C : Codec} (hC : C.Numbers) (payload : BetPlacementPayload) :
    Json.Numerals (C.placement payload) := by
  simp [Codec.placement, Json.Numerals, Json.NumeralsMembers, hC _]

theorem Codec.Numbers.notification {C : Codec} (hC : C.Numbers) (payload : NotificationPayload) :
    Json.Numerals (C.notification payload) := by
  cases payload <;> simp [Codec.notification, Json.Numerals, Json.NumeralsMembers, hC _]

theorem isUnsigned_toDigits (n : Nat) : Json.isUnsigned (Nat.toDigits 10 n) = true := by
  have hdigits : ∀ c ∈ Nat.toDigits 10 n, Json.isDigit c = true := by
    intro c hc
    have hdigit := digits_toDigits n c hc
    simpa [Char.isDigit, Json.isDigit, Char.le_def] using hdigit
  have htake : (Nat.toDigits 10 n).takeWhile Json.isDigit = Nat.toDigits 10 n :=
    List.takeWhile_eq_self_iff.mpr hdigits
  have hdrop : (Nat.toDigits 10 n).dropWhile Json.isDigit = [] :=
    List.dropWhile_eq_nil_iff.mpr hdigits
  unfold Json.isUnsigned
  rw [htake, hdrop]
  by_cases hn : n = 0
  · subst hn
    decide
  · have hhead : (Nat.toDigits 10 n).head? ≠ some '0' := fun h => hn (head_toDigits h)
    simp [hhead, Nat.toDigits_ne_nil, Json.isFraction, Json.isExponent]

theorem isNumber_literal (n : Int) : Json.isNumber (literal n) = true := by
  cases n with
  | ofNat n =>
    show Json.isNumber (Nat.toDigits 10 n) = true
    unfold Json.isNumber
    split
    · rename_i l hl
      have hminus : '-' ∈ Nat.toDigits 10 n := hl ▸ List.mem_cons_self
      exact absurd (digits_toDigits n _ hminus) (by decide)
    · exact isUnsigned_toDigits n
  | negSucc n => exact isUnsigned_toDigits (n + 1)

theorem numbers_default : Codec.Numbers default := isNumber_literal

/-! ## What is published -/

def Publication.queue : Publication → String
  | .task _ => TASK_QUEUE
  | .betPlacement _ => BET_PLACEMENT_QUEUE
  | .notification _ => NOTIFICATIONS_QUEUE

def Publication.message : Publication → Message Bytes
  | .task data => ⟨data, true⟩
  | .betPlacement data => ⟨data, true⟩
  | .notification data => ⟨data, true⟩

theorem send_eq {ε : Type} (p : Publication) :
    (p.send : Channel ε Unit) = ch (.sendToQueue p.queue p.message) := by
  cases p <;> rfl

/-- The services publish the payloads of their types, and `POST /publish` its body. -/
inductive FromServices (C : Codec) : Publication → Prop
  | task {v : Value} (h : Json.Numerals v) : FromServices C (.task (sent v))
  | betPlacement (payload : BetPlacementPayload) :
    FromServices C (.betPlacement (sent (C.placement payload)))
  | notification (payload : NotificationPayload) :
    FromServices C (.notification (sent (C.notification payload)))

section Sourced

variable {ε : Type} {E : Errors ε} {broken : Amqp.Error → ε} {C : Codec}

/-- What a publisher's channel is given comes from the services. -/
def PublishesPayloads (C : Codec) (_ : Config (rabbit E broken)) (e : Event (rabbit E broken)) :
    Prop :=
  ∀ i pubs, e = .spawn i (.publisher pubs) → ∀ p ∈ pubs, FromServices C p

/-- Nothing but a publication sends to a queue. -/
def Sends (call : RabbitCall) (o : RabbitOp) : Prop :=
  ∀ n m, o = .broker (.sendToQueue n m) →
    ∃ pubs p, call = .publisher pubs ∧ p ∈ pubs ∧ p.queue = n ∧ p.message = m

/-- No operation of it sends. -/
def Unsent {α : Type} (p : Channel ε α) : Prop :=
  p.All fun o : RabbitOp => ∀ n m, o ≠ .broker (.sendToQueue n m)

theorem unsent_ch {o : Amqp.Op String Bytes} (h : ∀ n m, o ≠ .sendToQueue n m) :
    Unsent (ch o : Channel ε Unit) :=
  Prog.All.perform (S := RabbitSig ε) fun n m ho => h n m (RabbitOp.broker.inj ho)

theorem unsent_assertDeadLettered (queue dlx dlQueue : String) :
    Unsent (RabbitMQService.assertDeadLettered queue dlx dlQueue : Channel ε Unit) :=
  (unsent_ch (by simp)).bind fun _ => (unsent_ch (by simp)).bind fun _ =>
    (unsent_ch (by simp)).bind fun _ => unsent_ch (by simp)

theorem unsent_publisherSetup : Unsent (RabbitMQService.publisherSetup : Channel ε Unit) :=
  (unsent_ch (by simp)).bind fun _ => (unsent_assertDeadLettered _ _ _).bind fun _ =>
    unsent_assertDeadLettered _ _ _

theorem unsent_setup (k : Consumer) : Unsent (k.setup : Channel ε Unit) := by
  have hconsume : ∀ (count : Nat) (queue : String),
      Unsent (do ch (.prefetch count); ch (.consume queue) : Channel ε Unit) :=
    fun _ _ => (unsent_ch (by simp)).bind fun _ => unsent_ch (by simp)
  cases k with
  | task => exact (unsent_ch (by simp)).bind fun _ => hconsume 1 TASK_QUEUE
  | betPlacement =>
    exact (unsent_assertDeadLettered _ _ _).bind fun _ => hconsume 1 BET_PLACEMENT_QUEUE
  | notifications =>
    exact (unsent_assertDeadLettered _ _ _).bind fun _ => hconsume 5 NOTIFICATIONS_QUEUE

theorem unsent_answer (k : Consumer) (tag : Nat) (o : DeliveryOp) :
    Unsent (k.answer tag o : Channel ε o.Res) := by
  have hservice : ∀ o : DeliveryOp, Unsent (.perform (S := RabbitSig ε) (.service o)) :=
    fun o => Prog.All.perform (S := RabbitSig ε) (by simp)
  cases o with
  | answer a =>
    cases a with
    | ack => exact unsent_ch (by simp)
    | nack requeue => exact unsent_ch (by simp)
  | transitionStatus => exact hservice _
  | isTerminalState => exact hservice _
  | pushBetSettled => exact hservice _
  | pushMarketUpdated => exact hservice _
  | pushMarketCreated => exact hservice _

theorem body_sends (call : RabbitCall) : ((rabbit E broken).body call).All (Sends call) := by
  have hunsent : ∀ {p : Channel ε Unit}, Unsent p → p.All (Sends call) :=
    fun h => h.mono fun o ho n m hsend => absurd hsend (ho n m)
  cases call with
  | publisher pubs =>
    refine (hunsent unsent_publisherSetup).bind fun _ => .forM fun p hp => ?_
    have hsend : (p.send : Channel ε Unit).All (Sends (.publisher pubs)) := by
      rw [send_eq]
      refine Prog.All.perform (S := RabbitSig ε) fun n m ho => ?_
      obtain ⟨rfl, rfl⟩ := Amqp.Op.sendToQueue.inj (RabbitOp.broker.inj ho)
      exact ⟨pubs, p, rfl, hp, rfl, rfl⟩
    exact hsend.tryCatch fun _ => trivial
  | consumer k => exact hunsent (unsent_setup k)
  | delivery k tag m =>
    exact hunsent ((Prog.all_true _).expand fun o _ => unsent_answer k tag o)

/-! ## Every delivery was published -/

/-- The message was sent to the queue by a call that was given the publication `p`. -/
def Sourced (l : List (Entry (rabbit E broken))) (queue : String) (m : Message Bytes)
    (p : Publication) : Prop :=
  p.queue = queue ∧ p.message = m ∧ ∃ x ∈ l, ∃ pubs, x.call = .publisher pubs ∧ p ∈ pubs ∧
    x.took = true ∧ x.op = .broker (.sendToQueue queue m)

/-- What is ready was accepted before. -/
theorem Accounted.accepted_of_ready {s : Broker String Bytes} {m : Message Bytes} (h : Accounted s)
    (k : Consumer) (hm : m ∈ s.ready k.queue) : m ∈ s.accepted k.queue := by
  have hready : 0 < (s.ready k.queue).count m := List.count_pos_iff.mpr hm
  have hheld : 0 < s.held k.queue m := by
    unfold Broker.held
    omega
  refine List.count_pos_iff.mp ?_
  cases k with
  | task =>
    have htask := h.conserves {TASK_QUEUE} (by decide) m
    rw [Finset.sum_singleton, Finset.sum_singleton] at htask
    exact htask ▸ hheld
  | betPlacement =>
    have hC : {BET_PLACEMENT_QUEUE, BET_PLACEMENT_DL_QUEUE} ∈ groups := by decide
    have hbets := h.balance hC (by decide) (by decide) m
    exact hbets ▸ Nat.add_pos_left hheld _
  | notifications =>
    have hC : {NOTIFICATIONS_QUEUE, NOTIFICATIONS_DL_QUEUE} ∈ groups := by decide
    have hnotes := h.balance hC (by decide) (by decide) m
    exact hnotes ▸ Nat.add_pos_left hheld _

theorem accepted_deliver {s s' : Broker String Bytes} {queue : String} {m : Message Bytes}
    (h : s.deliver queue m = some s') : m ∈ s.ready queue ∧ s'.accepted = s.accepted := by
  unfold Broker.deliver at h
  split at h
  · rename_i hready
    obtain rfl := Option.some.inj h
    exact ⟨hready.2, rfl⟩
  · exact absurd h (by simp)

variable {c c' : Config (rabbit E broken)}

/-- A publication that the broker took. -/
theorem sourced_head {l : List (Entry (rabbit E broken))} {i : Nat} {pubs : List Publication}
    {p : Publication} (hp : p ∈ pubs) {took : Bool} (ht : took = true) (s : Broker String Bytes) :
    Sourced (⟨i, .publisher pubs, .broker (.sendToQueue p.queue p.message), took, s⟩ :: l)
      p.queue p.message p :=
  ⟨rfl, rfl, _, List.mem_cons_self, pubs, rfl, hp, ht, rfl⟩

theorem Sourced.later {l l' : List (Entry (rabbit E broken))} {queue : String} {m : Message Bytes}
    {p : Publication} (h : Sourced l queue m p) (hl : l <:+ l') : Sourced l' queue m p := by
  obtain ⟨hqueue, hm, x, hx, hpubs⟩ := h
  exact ⟨hqueue, hm, x, hl.subset hx, hpubs⟩

theorem Sourced.body {l : List (Entry (rabbit E broken))} {queue : String} {m : Message Bytes}
    {p : Publication} (h : Sourced l queue m p) : m.body = p.message.body :=
  congrArg Message.body h.2.1.symm

/-- Every message that a queue took was published. -/
def AllSourced (w : World (rabbit E broken)) : Prop :=
  ∀ queue, ∀ m ∈ w.state.accepted queue, ∃ p, Sourced w.trace queue m p

theorem allSourced (h : (rabbit E broken).Reachable ((rabbit E broken).init .empty) c) :
    AllSourced c.toWorld := by
  refine h.follow (J := AllSourced)
    (fun queue m hm => absurd hm (by simp [Machine.init, Broker.empty])) ?_ ?_ ?_
  · intro call s s' l hst hJ queue m hm
    cases call with
    | publisher pubs => exact hJ queue m (Option.some.inj hst ▸ hm)
    | consumer k => exact hJ queue m (Option.some.inj hst ▸ hm)
    | delivery k tag m' =>
      simp only [rabbit] at hst
      split at hst
      · exact hJ queue m ((accepted_deliver hst).2 ▸ hm)
      · exact absurd hst (by simp)
  · intro v s s' l hv hJ queue m hm
    cases v with
    | restart =>
      obtain rfl := Option.some.inj hv
      exact hJ queue m hm
    | takeBack queue' tag =>
      obtain ⟨d, -, rfl⟩ := Option.map_eq_some_iff.mp hv
      exact hJ queue m hm
  · intro c c' i mode call o r hc _ hw _ hx hJ queue m hm
    have hsends : Sends call o := (rabbit E broken).waits_all body_sends hc hw
    have hold : m ∈ c.state.accepted queue → ∃ p, Sourced c'.trace queue m p := by
      intro hm
      obtain ⟨p, hp⟩ := hJ queue m hm
      obtain ⟨took, htrace⟩ := hx.entry
      exact ⟨p, hp.later (htrace ▸ List.suffix_cons _ _)⟩
    rcases hx.cases with ⟨services, r₀, s, hexec, -, hw'⟩ | ⟨e, -, hw'⟩
    · cases o with
      | service o =>
        obtain ⟨-, rfl⟩ := Prod.mk.inj (Option.some.inj hexec)
        rw [hw'] at hm
        exact hold hm
      | broker o =>
        obtain ⟨rfl, rfl⟩ := Prod.mk.inj (Option.some.inj hexec)
        rw [hw'] at hm
        rcases accepted_exec hm with hm | rfl
        · exact hold hm
        · obtain ⟨pubs, p, rfl, hp, rfl, rfl⟩ := hsends queue m rfl
          have htook : ((c.state.exec (.sendToQueue p.queue p.message)).1.mapError
              broken).toBool = true := by
            simp only [Broker.exec]
            split <;> rfl
          refine ⟨p, ?_⟩
          rw [hw']
          exact sourced_head hp htook _
    · rw [hw'] at hm
      exact hold hm

/-- **Every delivery was published.** -/
theorem delivery_sourced (h : (rabbit E broken).Reachable ((rabbit E broken).init .empty) c)
    {i : Nat} {k : Consumer} {tag : Nat} {m : Message Bytes}
    (hd : c.Started i (.delivery k tag m)) : ∃ p, Sourced c.trace k.queue m p := by
  induction h with
  | init => exact absurd hd (by simp [Machine.init, Config.Started])
  | @step c c' e hc _ hs ih =>
    have htrace : c.trace <:+ c'.trace := Machine.trace_step hs
    rcases (Machine.started_iff hs).mp hd with hd | rfl
    · obtain ⟨p, hp⟩ := ih hd
      exact ⟨p, hp.later htrace⟩
    · have hready : m ∈ c.state.ready k.queue := by
        rcases Machine.step_cases hs with ⟨j, call, s, he, -, hst, -⟩ |
          ⟨j, mode, call, o, q, r, w', he, -⟩ | ⟨j, call, o, q, he, -⟩ | ⟨v, s, he, -⟩
        · obtain ⟨-, rfl⟩ := Event.spawn.inj he
          simp only [rabbit] at hst
          split at hst
          · exact (accepted_deliver hst).1
          · exact absurd hst (by simp)
        · exact absurd he (by simp)
        · exact absurd he (by simp)
        · exact absurd he (by simp)
      obtain ⟨p, hp⟩ := allSourced hc k.queue m ((stays hc).accounted.accepted_of_ready k hready)
      exact ⟨p, hp.later htrace⟩

/-- What publishers publish comes from the services. -/
theorem started_fromServices
    (h : (rabbit E broken).Reach (PublishesPayloads C) ((rabbit E broken).init .empty) c)
    {i : Nat} {pubs : List Publication} (hp : c.Started i (.publisher pubs)) :
    ∀ p ∈ pubs, FromServices C p := by
  induction h with
  | init => exact absurd hp (by simp [Machine.init, Config.Started])
  | step e _ he hs ih =>
    rcases (Machine.started_iff hs).mp hp with hp | rfl
    · exact ih hp
    · exact he i pubs rfl

/-- A delivery of what the services publish. -/
theorem delivery_fromServices
    (h : (rabbit E broken).Reach (PublishesPayloads C) ((rabbit E broken).init .empty) c)
    {i : Nat} {k : Consumer} {tag : Nat} {m : Message Bytes}
    (hd : c.Started i (.delivery k tag m)) :
    ∃ p, Sourced c.trace k.queue m p ∧ FromServices C p := by
  have hreach : (rabbit E broken).Reachable ((rabbit E broken).init .empty) c :=
    h.mono fun _ _ _ => trivial
  obtain ⟨p, hp⟩ := delivery_sourced hreach hd
  obtain ⟨-, -, x, hx, pubs, hcall, hmem, -⟩ := id hp
  exact ⟨p, hp, started_fromServices h (hcall ▸ Machine.entry_started h x hx) p hmem⟩

/-! ## Every delivery is handled as what was published -/

/-- **What the services publish is what the workers handle**, in every run of any number of
channels, cut short, taken down and set up again, and over restarts of the broker: a delivery is of
a payload that some call published, the callback answers it once, and what it does is what the
worker does with that payload. -/
theorem published_handled (hC : C.Numbers)
    (h : (rabbit E broken).Reach (PublishesPayloads C) ((rabbit E broken).init .empty) c)
    (i tag : Nat) (m : Message Bytes) :
    (c.Started i (.delivery .task tag m) →
      RabbitMQService.onTask E (some m.body) = call (.answer .ack)) ∧
    (c.Started i (.delivery .betPlacement tag m) → ∃ payload,
      Sourced c.trace BET_PLACEMENT_QUEUE m (.betPlacement (sent (C.placement payload))) ∧
      AnsweredOnce (RabbitMQService.createBetPlacementConsumer E (some m.body)) ∧
      (RabbitMQService.createBetPlacementConsumer C.errors (some m.body)).expand
        (C.settlement tag) = BoltBet.SettlementWorker.consume tag payload) ∧
    (c.Started i (.delivery .notifications tag m) → ∃ payload,
      Sourced c.trace NOTIFICATIONS_QUEUE m (.notification (sent (C.notification payload))) ∧
      AnsweredOnce (RabbitMQService.createNotificationsConsumer E (some m.body)) ∧
      ∀ T : Type, (RabbitMQService.createNotificationsConsumer authErrors (some m.body)).expand
        (C.gateway (T := T) tag) =
          (BoltBet.NotificationWorker.handleMessage tag payload).tryCatch
            fun _ => Auth.op (.nack tag)) := by
  have hne : TASK_QUEUE ≠ BET_PLACEMENT_QUEUE ∧ TASK_QUEUE ≠ NOTIFICATIONS_QUEUE ∧
      BET_PLACEMENT_QUEUE ≠ NOTIFICATIONS_QUEUE := by decide
  refine ⟨fun hd => ?_, fun hd => ?_, fun hd => ?_⟩
  · obtain ⟨p, hsourced, hp⟩ := delivery_fromServices h hd
    cases hp with
    | @task v hv =>
      have hparse : Json.parse (Utf8.decode (sent v)) = some v :=
        Json.parse_iff.mpr (isText_sent hv)
      have hbody : m.body = sent v := hsourced.body
      rw [hbody]
      simp only [RabbitMQService.onTask, RabbitMQService.parse, hparse]
      rfl
    | betPlacement => exact absurd hsourced.1 hne.1.symm
    | notification => exact absurd hsourced.1 hne.2.1.symm
  · obtain ⟨p, hsourced, hp⟩ := delivery_fromServices h hd
    cases hp with
    | task => exact absurd hsourced.1 hne.1
    | betPlacement payload =>
      have htext := isText_sent (hC.placement payload)
      have hbody : m.body = sent (C.placement payload) := hsourced.body
      refine ⟨payload, hsourced, ?_⟩
      rw [hbody]
      refine ⟨?_, settlement_published C tag htext⟩
      rw [RabbitMQService.createBetPlacementConsumer, onMessage_iff E (settlement_handled E)]
      exact ⟨_, htext⟩
    | notification => exact absurd hsourced.1 hne.2.2.symm
  · obtain ⟨p, hsourced, hp⟩ := delivery_fromServices h hd
    cases hp with
    | task => exact absurd hsourced.1 hne.2.1
    | betPlacement => exact absurd hsourced.1 hne.2.2
    | notification payload =>
      have htext := isText_sent (hC.notification payload)
      have hbody : m.body = sent (C.notification payload) := hsourced.body
      refine ⟨payload, hsourced, ?_⟩
      rw [hbody]
      refine ⟨?_, fun T => notification_published (T := T) C tag htext⟩
      rw [RabbitMQService.createNotificationsConsumer, onMessage_iff E (notification_handled E)]
      exact ⟨_, htext⟩

end Sourced

/-- A bet is placed, and the settlement worker sets its channel up. -/
def placedBet (payload : BetPlacementPayload) : List (Event (rabbit plain fun _ => .TypeError)) :=
  let next (i : Nat) : Event (rabbit plain fun _ => .TypeError) :=
    .run i (.ok fun _ => .error .TypeError)
  [.spawn 0 (.publisher [.betPlacement (sent (Codec.placement default payload))])] ++
    List.replicate 10 (next 0) ++ [.spawn 1 (.consumer .betPlacement)] ++ List.replicate 6 (next 1)

/-- The worker gets the bet. -/
theorem published_handled_bet : ∃ (payload : BetPlacementPayload) (m : Message Bytes)
    (c : Config (rabbit plain fun _ => .TypeError)),
    (rabbit plain fun _ => .TypeError).Reach (PublishesPayloads default)
      ((rabbit plain fun _ => .TypeError).init .empty) c ∧
    c.Started 2 (.delivery .betPlacement 0 m) ∧
      (RabbitMQService.createBetPlacementConsumer (Codec.errors default) (some m.body)).expand
        (Codec.settlement default 0) = BoltBet.SettlementWorker.consume 0 payload := by
  let payload : BetPlacementPayload := ⟨1, 2, 3, 150, 1000, 1500⟩
  let m : Message Bytes := ⟨sent (Codec.placement default payload), true⟩
  obtain ⟨c, hc, hp⟩ := Machine.exists_of_replay
    (fun c : Config (rabbit plain fun _ => .TypeError) =>
      ((rabbit plain fun _ => .TypeError).step c (.spawn 2 (.delivery .betPlacement 0 m))).isSome)
    (show ((rabbit plain fun _ => .TypeError).replay
      ((rabbit plain fun _ => .TypeError).init .empty) (placedBet payload)).any _ = true by
      decide +kernel)
  obtain ⟨c', hs⟩ := Option.isSome_iff_exists.mp hp
  have hok : ∀ e ∈ placedBet payload, ∀ c, PublishesPayloads default c e := by
    rintro e he c i pubs rfl p hpubs
    simp only [placedBet, List.mem_append, List.mem_singleton, List.mem_replicate] at he
    rcases he with ((he | ⟨-, he⟩) | he) | ⟨-, he⟩
    · obtain ⟨-, hcall⟩ := Event.spawn.inj he
      obtain rfl := RabbitCall.publisher.inj hcall
      obtain rfl := List.mem_singleton.mp hpubs
      exact .betPlacement payload
    · cases he
    · cases he
    · cases he
  have h := Machine.Reach.of_meets .init hc (Machine.meets_of_forall hok _)
  have hd : c'.Started 2 (.delivery .betPlacement 0 m) := (Machine.started_iff hs).mpr (.inr rfl)
  have hspawn : PublishesPayloads default c (.spawn 2 (.delivery .betPlacement 0 m)) := by
    rintro i pubs he
    cases he
  have hstep := h.step _ hspawn hs
  obtain ⟨payload', -, -, hhandled⟩ := (published_handled numbers_default hstep 2 0 m).2.1 hd
  exact ⟨payload', m, c', hstep, hd, hhandled⟩

end BoltBet.Delivery
