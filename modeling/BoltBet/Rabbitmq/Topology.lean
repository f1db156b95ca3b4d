import BoltBet.Amqp.Messages
import BoltBet.Rabbitmq.Consumers

/-!
# Queues and dead letters: `RabbitmqService.ts`

The setups of the publisher's channel and of the three consumers', over the broker of
`Broker.lean`, and their callbacks of `Consumers.lean`, from the bytes of a message on. Any number
of instances set up their channels at once; each setup may be cut short at every `await`; the broker
restarts, and takes deliveries back, at any time.

`prefetch` bounds what a channel has open. Here nothing does, so there are more runs than the
broker has. What a handler calls in the services answers anything, or throws.

* `rabbit`: the machine. `layout`: what its setups declare.
* `Known`: what a setup has asserted itself before it goes on. A work queue comes last, after the
  binding of its dead letters.
* **`broker_conserves`**: no declaration is ever refused, no message is dropped, and every message
  that a work queue took is ready, delivered, acked or dead-lettered.
-/

namespace BoltBet.Delivery

open Async Amqp

def TASK_QUEUE : String := "task_queue"
def BET_PLACEMENT_QUEUE : String := "bet_placement"
def BET_PLACEMENT_DLX : String := "bet_placement_dlx"
def BET_PLACEMENT_DL_QUEUE : String := "bet_placement_dead_letter"
def NOTIFICATIONS_QUEUE : String := "notifications"
def NOTIFICATIONS_DLX : String := "notifications_dlx"
def NOTIFICATIONS_DL_QUEUE : String := "notifications_dead_letter"

/-- The body of a message. -/
abbrev Bytes := List UInt8

/-- What the channels and the callbacks call. -/
inductive RabbitOp where
  | broker (o : Amqp.Op String Bytes)
  | service (o : DeliveryOp)

def RabbitOp.Res : RabbitOp → Type
  | .broker _ => Unit
  | .service o => o.Res

abbrev RabbitSig (ε : Type) : Sig ε := ⟨RabbitOp, RabbitOp.Res⟩

variable {ε : Type}

/-- A channel's program. -/
abbrev Channel (ε α : Type) := Prog (RabbitSig ε) α

/-- An operation of a channel. -/
def ch (o : Amqp.Op String Bytes) : Channel ε Unit := .perform (S := RabbitSig ε) (.broker o)

namespace RabbitMQService

/-- The declarations of a queue with dead letters, as the publisher and the consumer both make
them. -/
def assertDeadLettered (queue dlx dlQueue : String) : Channel ε Unit := do
  ch (.assertExchange dlx ⟨true⟩)
  ch (.assertQueue dlQueue ⟨true, none, none⟩)
  ch (.bindQueue ⟨dlQueue, dlx, queue⟩)
  ch (.assertQueue queue ⟨true, some dlx, some queue⟩)

/-- The `setup` of the publisher channel. -/
def publisherSetup : Channel ε Unit := do
  ch (.assertQueue TASK_QUEUE ⟨true, none, none⟩)
  assertDeadLettered BET_PLACEMENT_QUEUE BET_PLACEMENT_DLX BET_PLACEMENT_DL_QUEUE
  assertDeadLettered NOTIFICATIONS_QUEUE NOTIFICATIONS_DLX NOTIFICATIONS_DL_QUEUE

/-- The `setup` of the `task_queue` consumer. -/
def consumerSetup : Channel ε Unit := do
  ch (.assertQueue TASK_QUEUE ⟨true, none, none⟩)
  ch (.prefetch 1)
  ch (.consume TASK_QUEUE)

/-- The `setup` of `createBetPlacementConsumer`. -/
def betPlacementSetup : Channel ε Unit := do
  assertDeadLettered BET_PLACEMENT_QUEUE BET_PLACEMENT_DLX BET_PLACEMENT_DL_QUEUE
  ch (.prefetch 1)
  ch (.consume BET_PLACEMENT_QUEUE)

/-- The `setup` of `createNotificationsConsumer`. -/
def notificationsSetup : Channel ε Unit := do
  assertDeadLettered NOTIFICATIONS_QUEUE NOTIFICATIONS_DLX NOTIFICATIONS_DL_QUEUE
  ch (.prefetch 5)
  ch (.consume NOTIFICATIONS_QUEUE)

def publish (data : Bytes) : Channel ε Unit := ch (.sendToQueue TASK_QUEUE ⟨data, true⟩)

def publishBetPlacement (data : Bytes) : Channel ε Unit :=
  ch (.sendToQueue BET_PLACEMENT_QUEUE ⟨data, true⟩)

def publishNotification (data : Bytes) : Channel ε Unit :=
  ch (.sendToQueue NOTIFICATIONS_QUEUE ⟨data, true⟩)

/-- The callback of the `task_queue` consumer: no handler, and nothing is nacked. -/
def onTask (E : Errors ε) : Option Bytes → Run ε Unit
  | none => .ret ()
  | some content => do
    let _ ← .ofExcept ((parse content).mapError E.raise)
    call (.answer .ack)

end RabbitMQService

/-- What a service publishes. -/
inductive Publication where
  | task (data : Bytes)
  | betPlacement (data : Bytes)
  | notification (data : Bytes)

def Publication.send : Publication → Channel ε Unit
  | .task data => RabbitMQService.publish data
  | .betPlacement data => RabbitMQService.publishBetPlacement data
  | .notification data => RabbitMQService.publishNotification data

/-- The publisher channel: the wrapper sends when the setup is done, and one publication that fails
stops no other. -/
def publisherChannel (sent : List Publication) : Channel ε Unit := do
  RabbitMQService.publisherSetup
  sent.forM fun p => p.send.tryCatch fun _ => .ret ()

inductive Consumer where
  | task
  | betPlacement
  | notifications
  deriving DecidableEq

namespace Consumer

def queue : Consumer → String
  | task => TASK_QUEUE
  | betPlacement => BET_PLACEMENT_QUEUE
  | notifications => NOTIFICATIONS_QUEUE

def setup : Consumer → Channel ε Unit
  | task => RabbitMQService.consumerSetup
  | betPlacement => RabbitMQService.betPlacementSetup
  | notifications => RabbitMQService.notificationsSetup

def onMessage (E : Errors ε) : Consumer → Option Bytes → Run ε Unit
  | task => RabbitMQService.onTask E
  | betPlacement => RabbitMQService.createBetPlacementConsumer E
  | notifications => RabbitMQService.createNotificationsConsumer E

/-- An operation of a callback: answers go to the broker. -/
def answer (k : Consumer) (tag : Nat) : (o : DeliveryOp) → Channel ε o.Res
  | .answer .ack => ch (.ack k.queue tag)
  | .answer (.nack requeue) => ch (.nack k.queue tag requeue)
  | .transitionStatus betId => .perform (S := RabbitSig ε) (.service (.transitionStatus betId))
  | .isTerminalState betId => .perform (S := RabbitSig ε) (.service (.isTerminalState betId))
  | .pushBetSettled u b n r p =>
    .perform (S := RabbitSig ε) (.service (.pushBetSettled u b n r p))
  | .pushMarketUpdated m n s o =>
    .perform (S := RabbitSig ε) (.service (.pushMarketUpdated m n s o))
  | .pushMarketCreated m n o => .perform (S := RabbitSig ε) (.service (.pushMarketCreated m n o))

end Consumer

/-- What runs: a channel's setup, or the callback of a delivery. -/
inductive RabbitCall where
  | publisher (sent : List Publication)
  | consumer (k : Consumer)
  | delivery (k : Consumer) (tag : Nat) (m : Message Bytes)

inductive RabbitEnv where
  | restart
  | takeBack (queue : String) (tag : Nat)

/-- **The channels of any number of instances, over one broker.** -/
def rabbit (E : Errors ε) (broken : Amqp.Error → ε) : Machine (RabbitSig ε) where
  Call := RabbitCall
  Out := Unit
  State := Broker String Bytes
  Choice := (o : DeliveryOp) → Except ε o.Res
  Env := RabbitEnv
  body
    | .publisher sent => publisherChannel sent
    | .consumer k => k.setup
    | .delivery k tag m => (k.onMessage E (some m.body)).expand (k.answer tag)
  start call s :=
    match call with
    | .delivery k tag m => if tag = s.deliveries then s.deliver k.queue m else none
    | _ => some s
  exec _ services o s :=
    match o with
    | .broker o => some ((s.exec o).1.mapError broken, (s.exec o).2)
    | .service o => some (services o, s)
  env e s :=
    match e with
    | .restart => some s.restart
    | .takeBack queue tag => s.takeBack queue tag

/-! ## The layout -/

/-- What the setups declare. -/
def layout : Layout String where
  exchange name :=
    if name = BET_PLACEMENT_DLX ∨ name = NOTIFICATIONS_DLX then some ⟨true⟩ else none
  queue name :=
    if name = BET_PLACEMENT_QUEUE then some ⟨true, some BET_PLACEMENT_DLX, some BET_PLACEMENT_QUEUE⟩
    else if name = NOTIFICATIONS_QUEUE then
      some ⟨true, some NOTIFICATIONS_DLX, some NOTIFICATIONS_QUEUE⟩
    else if name = TASK_QUEUE ∨ name = BET_PLACEMENT_DL_QUEUE ∨ name = NOTIFICATIONS_DL_QUEUE then
      some ⟨true, none, none⟩
    else none
  bindings := [⟨BET_PLACEMENT_DL_QUEUE, BET_PLACEMENT_DLX, BET_PLACEMENT_QUEUE⟩,
    ⟨NOTIFICATIONS_DL_QUEUE, NOTIFICATIONS_DLX, NOTIFICATIONS_QUEUE⟩]

theorem layout_durable : layout.Durable where
  exchange n a ha := by
    simp only [layout] at ha
    split at ha
    · exact Option.some.inj ha ▸ rfl
    · exact absurd ha (by simp)
  queue n a ha := by
    simp only [layout] at ha
    split at ha
    · exact Option.some.inj ha ▸ rfl
    · split at ha
      · exact Option.some.inj ha ▸ rfl
      · split at ha
        · exact Option.some.inj ha ▸ rfl
        · exact absurd ha (by simp)

/-- Only the two work queues have dead letters. -/
theorem dead_layout (n : String) : layout.dead n =
    if n = BET_PLACEMENT_QUEUE then
      [⟨BET_PLACEMENT_DL_QUEUE, BET_PLACEMENT_DLX, BET_PLACEMENT_QUEUE⟩]
    else if n = NOTIFICATIONS_QUEUE then
      [⟨NOTIFICATIONS_DL_QUEUE, NOTIFICATIONS_DLX, NOTIFICATIONS_QUEUE⟩]
    else [] := by
  by_cases hbets : n = BET_PLACEMENT_QUEUE
  · subst hbets
    decide
  · by_cases hnotes : n = NOTIFICATIONS_QUEUE
    · subst hnotes
      decide
    · unfold Layout.dead
      simp only [layout, if_neg hbets, if_neg hnotes]
      split
      · rename_i h
        split at h
        · exact absurd h (by simp)
        · exact absurd h (by simp)
      · rfl

/-- The queues of the layout that only get dead letters. -/
def deadLetterQueues : List String := [BET_PLACEMENT_DL_QUEUE, NOTIFICATIONS_DL_QUEUE]

/-- A work queue, and where its dead letters go: nothing leaves this group. -/
def groups : List (Finset String) :=
  [{TASK_QUEUE}, {BET_PLACEMENT_QUEUE, BET_PLACEMENT_DL_QUEUE},
    {NOTIFICATIONS_QUEUE, NOTIFICATIONS_DL_QUEUE}]

theorem closed_groups : ∀ C ∈ groups, layout.Closed C := by
  intro C hC n b hb
  rw [dead_layout] at hb
  split at hb
  · rename_i hn
    subst hn
    obtain rfl := (List.cons.inj hb).1
    revert C
    decide
  · split at hb
    · rename_i hn
      subst hn
      obtain rfl := (List.cons.inj hb).1
      revert C
      decide
    · exact absurd hb (by simp)

/-! ## What a program has asserted -/

/-- The broker accepted it, as the thread saw. -/
def Told (l : List (Seen (RabbitSig ε))) (o : Amqp.Op String Bytes) : Prop :=
  Saw (S := RabbitSig ε) l (.broker o) ()

/-- An operation of the layout, on what the thread asserted itself: a queue after the binding of its
dead letters, a publication after its queue. -/
def Known (l : List (Seen (RabbitSig ε))) : Amqp.Op String Bytes → Prop
  | .assertExchange n a => layout.exchange n = some a
  | .assertQueue n a => layout.queue n = some a ∧ ∀ b ∈ layout.dead n, Told l (.bindQueue b)
  | .bindQueue b => b ∈ layout.bindings ∧ (∃ a, Told l (.assertQueue b.queue a)) ∧
      ∃ a, Told l (.assertExchange b.exchange a)
  | .prefetch _ => True
  | .consume n => n ∉ deadLetterQueues ∧ ∃ a, Told l (.assertQueue n a)
  | .sendToQueue n m => n ∉ deadLetterQueues ∧ m.persistent = true ∧ ∃ a, Told l (.assertQueue n a)
  | .ack _ _ => True
  | .nack n _ requeue => requeue = true ∨ ∃ b, layout.dead n = [b]

/-- The grounds of an operation. -/
def Grounds (l : List (Seen (RabbitSig ε))) : RabbitOp → Prop
  | .broker o => Known l o
  | .service _ => True

/-- What is known is so. -/
theorem Known.meets {l : List (Seen (RabbitSig ε))} {o : Amqp.Op String Bytes}
    {s : Broker String Bytes} (h : Known l o) (hdone : ∀ o, Told l o → o.Done s) :
    o.Meets layout s := by
  have hqueue : ∀ {n}, (∃ a, Told l (.assertQueue n a)) → (s.queues n).isSome := by
    rintro n ⟨a, ha⟩
    exact Option.isSome_iff_exists.mpr ⟨a, hdone _ ha⟩
  cases o with
  | assertExchange n a => exact h
  | assertQueue n a => exact ⟨h.1, fun b hb => hdone _ (h.2 b hb)⟩
  | bindQueue b =>
    obtain ⟨hb, hq, a, ha⟩ := h
    exact ⟨hb, hqueue hq, Option.isSome_iff_exists.mpr ⟨a, hdone _ ha⟩⟩
  | prefetch => trivial
  | consume n => exact hqueue h.2
  | sendToQueue n m => exact ⟨h.2.1, hqueue h.2.2⟩
  | ack => trivial
  | nack n tag requeue => exact h

section Along

variable {l l' : List (Seen (RabbitSig ε))}

theorem Told.later {o : Amqp.Op String Bytes} (h : Told l o) (hl : l <:+ l') : Told l' o :=
  Saw.later h hl

/-- An operation on a channel, and what its thread then knows. -/
theorem along_ch {o : Amqp.Op String Bytes} (h : Known l o) :
    (ch o : Channel ε Unit).Along Grounds
      (fun l' r => l <:+ l' ∧ ∀ u, r = .ok u → Told l' o) l := by
  refine Prog.along_perform (S := RabbitSig ε) h fun r => ⟨List.suffix_cons _ _, ?_⟩
  rintro u rfl
  exact saw_head

/-- One operation, and then the rest. -/
theorem along_ch_bind {α : Type} {o : Amqp.Op String Bytes} {f : Unit → Channel ε α}
    {R : List (Seen (RabbitSig ε)) → Except ε α → Prop} (h : Known l o)
    (hok : ∀ l', l <:+ l' → Told l' o → (f ()).Along Grounds R l')
    (herr : ∀ l' e, l <:+ l' → R l' (.error e)) : (ch o >>= f).Along Grounds R l :=
  (along_ch h).bind (fun _ l' ⟨hl, ho⟩ => hok l' hl (ho () rfl)) fun e l' ⟨hl, _⟩ => herr l' e hl

/-- How a setup ends: with its queue asserted. -/
def Asserted (n : String) (l : List (Seen (RabbitSig ε))) (l' : List (Seen (RabbitSig ε)))
    (r : Except ε Unit) : Prop :=
  l <:+ l' ∧ ∀ u, r = .ok u → ∃ a, Told l' (.assertQueue n a)

/-- **The order of the declarations**: exchange, dead-letter queue, binding, and then the queue. -/
theorem along_assertDeadLettered {queue dlx dlQueue : String}
    (hdlx : layout.exchange dlx = some ⟨true⟩)
    (hdl : layout.queue dlQueue = some ⟨true, none, none⟩) (hnone : layout.dead dlQueue = [])
    (hbinding : ⟨dlQueue, dlx, queue⟩ ∈ layout.bindings)
    (hqueue : layout.queue queue = some ⟨true, some dlx, some queue⟩)
    (hdead : layout.dead queue = [⟨dlQueue, dlx, queue⟩]) :
    (RabbitMQService.assertDeadLettered queue dlx dlQueue : Channel ε Unit).Along Grounds
      (Asserted queue l) l := by
  have herr : ∀ l' (e : ε), l <:+ l' → Asserted queue l l' (.error e) :=
    fun l' e hl => ⟨hl, fun u hu => absurd hu (by simp)⟩
  refine along_ch_bind hdlx (fun l₁ h₁ hexchange => ?_) herr
  have hdl' : Known l₁ (.assertQueue dlQueue ⟨true, none, none⟩) :=
    ⟨hdl, fun b hb => absurd (hnone ▸ hb) (by simp)⟩
  refine along_ch_bind hdl' (fun l₂ h₂ hdlQueue => ?_) fun l' e hl => herr l' e (h₁.trans hl)
  have hbind : Known l₂ (.bindQueue ⟨dlQueue, dlx, queue⟩) :=
    ⟨hbinding, ⟨_, hdlQueue⟩, ⟨_, hexchange.later h₂⟩⟩
  refine along_ch_bind hbind (fun l₃ h₃ hbound => ?_)
    fun l' e hl => herr l' e ((h₁.trans h₂).trans hl)
  have hlast : Known l₃ (.assertQueue queue ⟨true, some dlx, some queue⟩) := by
    refine ⟨hqueue, fun b hb => ?_⟩
    rw [hdead] at hb
    exact List.mem_singleton.mp hb ▸ hbound
  refine (along_ch hlast).mono ?_
  rintro l' r ⟨hl, hr⟩
  exact ⟨((h₁.trans h₂).trans h₃).trans hl, fun u hu => ⟨_, hr u hu⟩⟩

theorem along_betPlacement :
    (RabbitMQService.assertDeadLettered BET_PLACEMENT_QUEUE BET_PLACEMENT_DLX
      BET_PLACEMENT_DL_QUEUE : Channel ε Unit).Along Grounds (Asserted BET_PLACEMENT_QUEUE l) l :=
  along_assertDeadLettered (by decide) (by decide) (by decide) (by decide) (by decide) (by decide)

theorem along_notifications :
    (RabbitMQService.assertDeadLettered NOTIFICATIONS_QUEUE NOTIFICATIONS_DLX
      NOTIFICATIONS_DL_QUEUE : Channel ε Unit).Along Grounds (Asserted NOTIFICATIONS_QUEUE l) l :=
  along_assertDeadLettered (by decide) (by decide) (by decide) (by decide) (by decide) (by decide)

theorem known_task : Known l (.assertQueue TASK_QUEUE ⟨true, none, none⟩) := by
  have hnone : layout.dead TASK_QUEUE = [] := by decide
  exact ⟨by decide, fun b hb => absurd (hnone ▸ hb) (by simp)⟩

/-- A publication, once its queue has been asserted. -/
theorem along_send (p : Publication) (htask : ∃ a, Told l (.assertQueue TASK_QUEUE a))
    (hbets : ∃ a, Told l (.assertQueue BET_PLACEMENT_QUEUE a))
    (hnotes : ∃ a, Told l (.assertQueue NOTIFICATIONS_QUEUE a)) :
    (p.send : Channel ε Unit).Along Grounds (fun l' _ => l <:+ l') l := by
  have hsend : ∀ n (data : Bytes), n ∉ deadLetterQueues → (∃ a, Told l (.assertQueue n a)) →
      (ch (.sendToQueue n ⟨data, true⟩) : Channel ε Unit).Along Grounds
        (fun l' _ => l <:+ l') l := by
    intro n data hn ha
    have hknown : Known l (.sendToQueue n ⟨data, true⟩) := ⟨hn, rfl, ha⟩
    exact (along_ch hknown).mono fun _ _ h => h.1
  cases p with
  | task data => exact hsend TASK_QUEUE data (by decide) htask
  | betPlacement data => exact hsend BET_PLACEMENT_QUEUE data (by decide) hbets
  | notification data => exact hsend NOTIFICATIONS_QUEUE data (by decide) hnotes

theorem along_publisherChannel (sent : List Publication) :
    (publisherChannel sent : Channel ε Unit).Along Grounds (fun _ _ => True) [] := by
  unfold publisherChannel RabbitMQService.publisherSetup
  rw [LawfulMonad.bind_assoc]
  refine along_ch_bind known_task (fun l₁ h₁ htask => ?_) fun _ _ _ => trivial
  rw [LawfulMonad.bind_assoc]
  refine along_betPlacement.bind (fun _ l₂ h₂ => ?_) fun _ _ _ => trivial
  obtain ⟨a, hbets⟩ := h₂.2 _ rfl
  refine along_notifications.bind (fun _ l₃ h₃ => ?_) fun _ _ _ => trivial
  obtain ⟨a', hnotes⟩ := h₃.2 _ rfl
  have hsent : ∀ p ∈ sent, ∀ l, l₃ <:+ l →
      (p.send.tryCatch fun _ => .ret () : Channel ε Unit).Along Grounds
        (fun l' _ => l₃ <:+ l') l := by
    intro p _ l hl
    have hp := along_send (ε := ε) p ⟨_, htask.later ((h₂.1.trans h₃.1).trans hl)⟩
      ⟨a, hbets.later (h₃.1.trans hl)⟩ ⟨a', hnotes.later hl⟩
    exact hp.tryCatch (fun _ l' h => hl.trans h) fun _ l' h => hl.trans h
  exact (Prog.along_forM hsent List.suffix_rfl).mono fun _ _ _ => trivial

/-- A consumer starts when its queue is there. -/
theorem along_consume {n : String} {count : Nat} (hn : n ∉ deadLetterQueues)
    (h : ∃ a, Told l (.assertQueue n a)) :
    (do ch (.prefetch count); ch (.consume n) : Channel ε Unit).Along Grounds
      (fun _ _ => True) l := by
  obtain ⟨a, ha⟩ := h
  refine along_ch_bind (o := .prefetch count) trivial (fun l' hl _ => ?_) fun _ _ _ => trivial
  have hconsume : Known l' (.consume n) := ⟨hn, a, ha.later hl⟩
  exact (along_ch hconsume).mono fun _ _ _ => trivial

theorem along_setup (k : Consumer) :
    (k.setup : Channel ε Unit).Along Grounds (fun _ _ => True) [] := by
  cases k with
  | task =>
    refine along_ch_bind known_task (fun l' hl htask => ?_) fun _ _ _ => trivial
    exact along_consume (by decide) ⟨_, htask⟩
  | betPlacement =>
    refine along_betPlacement.bind (fun _ l' h => ?_) fun _ _ _ => trivial
    exact along_consume (by decide) (h.2 _ rfl)
  | notifications =>
    refine along_notifications.bind (fun _ l' h => ?_) fun _ _ _ => trivial
    exact along_consume (by decide) (h.2 _ rfl)

/-- The `task_queue` consumer nacks nothing, and the others have dead letters. -/
theorem along_delivery (E : Errors ε) (k : Consumer) (tag : Nat) (content : Bytes) :
    ((k.onMessage E (some content)).expand (k.answer tag)).Along Grounds (fun _ _ => True) [] := by
  have hops : (k.onMessage E (some content)).All fun o : DeliveryOp =>
      ∀ requeue, o = .answer (.nack requeue) → ∃ b, layout.dead k.queue = [b] := by
    cases k with
    | task =>
      refine Prog.All.ofExcept_bind fun v _ => Prog.All.perform (S := DeliverySig ε) ?_
      exact fun requeue h => absurd h (by simp)
    | betPlacement =>
      have hdead : layout.dead BET_PLACEMENT_QUEUE =
        [⟨BET_PLACEMENT_DL_QUEUE, BET_PLACEMENT_DLX, BET_PLACEMENT_QUEUE⟩] := by decide
      exact (Prog.all_true _).mono fun o _ requeue _ => ⟨_, hdead⟩
    | notifications =>
      have hdead : layout.dead NOTIFICATIONS_QUEUE =
        [⟨NOTIFICATIONS_DL_QUEUE, NOTIFICATIONS_DLX, NOTIFICATIONS_QUEUE⟩] := by decide
      exact (Prog.all_true _).mono fun o _ requeue _ => ⟨_, hdead⟩
  have hanswer : ∀ o : DeliveryOp, (∀ requeue, o = .answer (.nack requeue) →
      ∃ b, layout.dead k.queue = [b]) →
      (k.answer tag o : Channel ε o.Res).All fun o => ∀ l, Grounds (ε := ε) l o := by
    intro o ho
    cases o with
    | answer a =>
      cases a with
      | ack => exact Prog.All.perform (S := RabbitSig ε) fun l => trivial
      | nack requeue => exact Prog.All.perform (S := RabbitSig ε) fun l => .inr (ho requeue rfl)
    | transitionStatus => exact Prog.All.perform (S := RabbitSig ε) fun l => trivial
    | isTerminalState => exact Prog.All.perform (S := RabbitSig ε) fun l => trivial
    | pushBetSettled => exact Prog.All.perform (S := RabbitSig ε) fun l => trivial
    | pushMarketUpdated => exact Prog.All.perform (S := RabbitSig ε) fun l => trivial
    | pushMarketCreated => exact Prog.All.perform (S := RabbitSig ε) fun l => trivial
  exact (Prog.Along.of_all (fun l o h => h l) (hops.expand hanswer)).mono fun _ _ _ => trivial

end Along

/-! ## Every run -/

/-- Nothing was dropped, the groups hold what they took, and dead letters stay where they are. -/
structure Accounted (s : Broker String Bytes) : Prop where
  sound : Sound layout s
  conserves : ∀ C ∈ groups, Conserves C s
  idle : ∀ queue ∈ deadLetterQueues, Idle queue s

section Accounted

variable {s s' : Broker String Bytes}

theorem accounted_empty : Accounted (.empty : Broker String Bytes) :=
  ⟨sound_empty layout, fun C _ => conserves_empty C, fun queue _ => idle_empty queue⟩

theorem Accounted.exec {l : List (Seen (RabbitSig ε))} {o : Amqp.Op String Bytes}
    (h : Accounted s) (ho : Known l o) (hmeets : o.Meets layout s) : Accounted (s.exec o).2 where
  sound := h.sound.exec hmeets
  conserves C hC := (h.conserves C hC).exec (closed_groups C hC) h.sound hmeets
  idle queue hqueue := by
    refine (h.idle queue hqueue).exec ?_ ?_
    · rintro rfl
      exact ho.1 hqueue
    · rintro m rfl
      exact ho.1 hqueue

theorem Accounted.deliver {queue : String} {m : Message Bytes} (h : Accounted s)
    (hd : s.deliver queue m = some s') : Accounted s' :=
  ⟨h.sound.deliver hd, fun C hC => (h.conserves C hC).deliver hd,
    fun queue hqueue => (h.idle queue hqueue).deliver hd⟩

theorem Accounted.takeBack {queue : String} {tag : Nat} (h : Accounted s)
    (ht : s.takeBack queue tag = some s') : Accounted s' :=
  ⟨h.sound.takeBack ht, fun C hC => (h.conserves C hC).takeBack ht,
    fun queue hqueue => (h.idle queue hqueue).takeBack ht⟩

theorem Accounted.restart (h : Accounted s) : Accounted s.restart :=
  ⟨h.sound.restart layout_durable,
    fun C hC => (h.conserves C hC).restart layout_durable h.sound,
    fun queue hqueue => (h.idle queue hqueue).restart⟩

/-- The messages of a work queue, and its dead letters. -/
theorem Accounted.balance {queue dlQueue : String} (h : Accounted s)
    (hC : {queue, dlQueue} ∈ groups) (hne : queue ≠ dlQueue) (hdl : dlQueue ∈ deadLetterQueues)
    (m : Message Bytes) : (s.accepted queue).count m =
      s.held queue m + (s.ready dlQueue).count m := by
  have hsum := h.conserves _ hC m
  rw [Finset.sum_pair hne, Finset.sum_pair hne, (h.idle dlQueue hdl).held,
    (h.idle dlQueue hdl).accepted] at hsum
  simpa using hsum

end Accounted

variable {E : Errors ε} {broken : Amqp.Error → ε}

/-- Everything the broker accepted is still there. -/
structure Stays (w : World (rabbit E broken)) : Prop where
  accounted : Accounted w.state
  done : ∀ x ∈ w.trace, x.took = true → ∀ o, x.op = .broker o → o.Done w.state

theorem Stays.step {w : World (rabbit E broken)} {s : Broker String Bytes} (h : Stays w)
    (hs : Accounted s) (hkeeps : Keeps w.state s) : Stays ⟨s, w.trace⟩ where
  accounted := hs
  done x hx ht o ho := (h.done x hx ht o ho).keeps hkeeps

theorem Stays.post {w : World (rabbit E broken)} {s : Broker String Bytes} (h : Stays w)
    (hs : Accounted s) (hkeeps : Keeps w.state s) {x : Entry (rabbit E broken)}
    (hx : x.took = true → ∀ o, x.op = .broker o → o.Done s) : Stays ⟨s, x :: w.trace⟩ where
  accounted := hs
  done := List.forall_mem_cons.mpr ⟨hx, (h.step hs hkeeps).done⟩

variable {c : Config (rabbit E broken)}

/-- Every operation has its grounds. -/
theorem along_body (call : RabbitCall) :
    ((rabbit E broken).body call).Along Grounds (fun _ _ => True) [] := by
  cases call with
  | publisher sent => exact along_publisherChannel sent
  | consumer k => exact along_setup k
  | delivery k tag m => exact along_delivery E k tag m.body

/-- **What a thread goes on to finds what it needs.** -/
theorem waits_meets (h : (rabbit E broken).Reachable ((rabbit E broken).init .empty) c)
    (hc : Stays c.toWorld) {i : Nat} {call : RabbitCall} {o : Amqp.Op String Bytes}
    (hw : c.Waits i call (.broker o)) :
    (∃ l : List (Seen (RabbitSig ε)), Known l o) ∧ o.Meets layout c.state := by
  obtain ⟨l, hl, hG⟩ := Machine.along_waits (M := rabbit E broken)
    (G := fun _ => Grounds) (Q := fun _ _ _ => True) along_body h hw
  have hknown : Known l o := hG
  refine ⟨⟨l, hknown⟩, hknown.meets fun o' ho' => ?_⟩
  obtain ⟨x, hx, -, -, hop, htook, -⟩ := (hl.ran _ ho').entry
  exact hc.done x hx htook o' hop

theorem stays (h : (rabbit E broken).Reachable ((rabbit E broken).init .empty) c) :
    Stays c.toWorld := by
  refine h.follow (J := Stays) ⟨accounted_empty, fun x hx => absurd hx (by simp [Machine.init])⟩
    ?_ ?_ ?_
  · intro call s s' l hst hJ
    cases call with
    | publisher sent => exact Option.some.inj hst ▸ hJ
    | consumer k => exact Option.some.inj hst ▸ hJ
    | delivery k tag m =>
      simp only [rabbit] at hst
      split at hst
      · exact hJ.step (hJ.accounted.deliver hst) (sameLayout_deliver hst).keeps
      · exact absurd hst (by simp)
  · intro v s s' l hv hJ
    cases v with
    | restart =>
      obtain rfl := Option.some.inj hv
      exact hJ.step hJ.accounted.restart
        (sameLayout_restart layout_durable hJ.accounted.sound.toDeclared).keeps
    | takeBack queue tag =>
      exact hJ.step (hJ.accounted.takeBack hv) (sameLayout_takeBack hv).keeps
  · intro c c' i m call o r hc _ hw _ hx hJ
    cases o with
    | service o =>
      rcases hx.cases with ⟨ch, r₀, s, hexec, -, hw'⟩ | ⟨e, -, hw'⟩
      · obtain ⟨-, rfl⟩ := Prod.mk.inj (Option.some.inj hexec)
        rw [hw']
        exact hJ.post hJ.accounted (.refl _) fun _ o ho => absurd ho (by simp)
      · rw [hw']
        exact hJ.post hJ.accounted (.refl _) fun ht => absurd ht (by simp)
    | broker o =>
      obtain ⟨⟨l, hknown⟩, hmeets⟩ := waits_meets hc hJ hw
      have hdeclared := hJ.accounted.sound.toDeclared
      rcases hx.cases with ⟨ch, r₀, s, hexec, -, hw'⟩ | ⟨e, -, hw'⟩
      · obtain ⟨-, rfl⟩ := Prod.mk.inj (Option.some.inj hexec)
        rw [hw']
        refine hJ.post (hJ.accounted.exec hknown hmeets) (hdeclared.exec hmeets).2 ?_
        rintro - o' ho
        obtain rfl := RabbitOp.broker.inj ho
        exact done_exec (hdeclared.exec_ok hmeets)
      · rw [hw']
        exact hJ.post hJ.accounted (.refl _) fun ht => absurd ht (by simp)

/-- **The broker refuses nothing, drops nothing, and accounts for every message**, in every run of
any number of channels that are set up, cut short, taken down and set up again, and over its own
restarts: what a work queue took is ready, delivered, acked or among its dead letters. -/
theorem broker_conserves
    (h : (rabbit E broken).Reachable ((rabbit E broken).init .empty) c) :
    (∀ i call o, c.Waits i call (.broker o) → (c.state.exec o).1 = .ok ()) ∧
      c.state.unrouted = [] ∧
      ∀ m, (c.state.accepted TASK_QUEUE).count m = c.state.held TASK_QUEUE m ∧
        (c.state.accepted BET_PLACEMENT_QUEUE).count m = c.state.held BET_PLACEMENT_QUEUE m +
          (c.state.ready BET_PLACEMENT_DL_QUEUE).count m ∧
        (c.state.accepted NOTIFICATIONS_QUEUE).count m = c.state.held NOTIFICATIONS_QUEUE m +
          (c.state.ready NOTIFICATIONS_DL_QUEUE).count m := by
  have hstays := stays h
  have hsound := hstays.accounted.sound
  refine ⟨fun i call o hw => ?_, hsound.routed, fun m => ⟨?_, ?_, ?_⟩⟩
  · exact hsound.toDeclared.exec_ok (waits_meets h hstays hw).2
  · have htask := hstays.accounted.conserves {TASK_QUEUE} (by decide) m
    rwa [Finset.sum_singleton, Finset.sum_singleton] at htask
  · exact hstays.accounted.balance (by decide) (by decide) (by decide) m
  · exact hstays.accounted.balance (by decide) (by decide) (by decide) m

/-- A placement whose body is `null`: a consumer sets up, the broker restarts, the consumer sets up
again, and its callback throws and nacks. -/
def nullPlacement : List (Event (rabbit plain fun _ => .TypeError)) :=
  let content : Bytes := [0x6e, 0x75, 0x6c, 0x6c]
  let next (i : Nat) : Event (rabbit plain fun _ => .TypeError) :=
    .run i (.ok fun _ => .error .TypeError)
  [.spawn 0 (.publisher [.betPlacement content])] ++ List.replicate 10 (next 0) ++
    [.spawn 1 (.consumer .betPlacement)] ++ List.replicate 6 (next 1) ++ [.env .restart] ++
    [.spawn 2 (.consumer .betPlacement)] ++ List.replicate 6 (next 2) ++
    [.spawn 3 (.delivery .betPlacement 0 ⟨content, true⟩), next 3]

/-- The message is a dead letter. -/
theorem broker_conserves_null : ∃ c : Config (rabbit plain fun _ => .TypeError),
    (rabbit plain fun _ => .TypeError).replay
      ((rabbit plain fun _ => .TypeError).init .empty) nullPlacement = some c ∧
    (c.state.ready BET_PLACEMENT_DL_QUEUE).length = 1 ∧
      ∀ m, (c.state.accepted BET_PLACEMENT_QUEUE).count m =
        c.state.held BET_PLACEMENT_QUEUE m + (c.state.ready BET_PLACEMENT_DL_QUEUE).count m := by
  obtain ⟨c, hc, hp⟩ := Machine.exists_of_replay
    (fun c : Config (rabbit plain fun _ => .TypeError) =>
      (c.state.ready BET_PLACEMENT_DL_QUEUE).length = 1)
    (show ((rabbit plain fun _ => .TypeError).replay
      ((rabbit plain fun _ => .TypeError).init .empty) nullPlacement).any _ = true by
      decide +kernel)
  exact ⟨c, hc, of_decide_eq_true hp, fun m => ((broker_conserves (.of_replay .init hc)).2.2 m).2.1⟩

end BoltBet.Delivery
