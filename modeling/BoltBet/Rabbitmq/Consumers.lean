import BoltBet.Async.History
import BoltBet.Realtime.Gateway
import BoltBet.Settlement.Worker
import BoltBet.Text.Json
import BoltBet.Text.Utf8

/-!
# Deliveries as bytes: `RabbitmqService.ts`

The callbacks of `createBetPlacementConsumer` and `createNotificationsConsumer`, with the handlers
they run, from the bytes of a message on. `JSON.parse` stands before the promise whose `catch`
nacks, so what it throws leaves the callback.

* `property`, `prints`: a property of a parsed value, and whether a template literal can hold it.
* `AnsweredOnce`: along every path on which `ack` and `nack` succeed, the callback answers once and
  throws nothing.
* **`answered_once_iff`**: that holds exactly for the bodies that are JSON.
* **`settlement_published`**, **`notification_published`**: on what the services publish, these
  callbacks are the handlers of `SettlementWorker.lean` and `Gateway.lean`.
-/

namespace BoltBet.Delivery

open Async

open Json (Value Units)

/-! ## Values of JavaScript -/

/-- What the code itself throws. -/
inductive Raised where
  | SyntaxError
  | TypeError
  /-- An `Error`; its message is a template literal with one hole. -/
  | Error (before : String) (hole : Option Value) (after : String)

/-- `payload.key`. `null` has no property; what an object does not hold is `undefined`, and of two
members the later counts. -/
def property (payload : Value) (key : String) : Except Raised (Option Value) :=
  match payload with
  | .null => .error .TypeError
  | .object members => .ok ((members.reverse.find? fun m => m.1 = Json.text key).map (·.2))
  | _ => .ok none

mutual

/-- Whether `String(v)` answers: an object's own `toString` is no function, and its `valueOf` is no
primitive. -/
def printsValue : Value → Bool
  | .array vs => printsAll vs
  | .object members => members.all fun m => m.1 ≠ Json.text "toString"
  | _ => true

/-- The elements of an array, which `join` prints. -/
def printsAll : List Value → Bool
  | [] => true
  | v :: vs => printsValue v && printsAll vs

end

/-- Whether a template literal can hold it. -/
def prints : Option Value → Bool
  | none => true
  | some v => printsValue v

/-- `v === 'text'`. -/
def isText (v : Option Value) (s : String) : Bool :=
  match v with
  | some (.string us) => us = Json.text s
  | _ => false

/-- What is thrown: what the code raises, and whatever the services throw. -/
structure Errors (ε : Type) where
  raise : Raised → ε
  /-- What reading and printing `err.message` and `err.stack` throws. -/
  describe : ε → Except Raised Unit
  describe_raise : ∀ e, describe (raise e) = .ok ()

/-! ## The operations -/

/-- `ack(msg)`, or `nack(msg, false, requeue)`. -/
inductive Answer where
  | ack
  | nack (requeue : Bool)
  deriving DecidableEq, Repr

/-- What a handler calls. -/
inductive DeliveryOp where
  /-- `bettingService.transitionStatus(betId, BetStatus.ACCEPTED)`. -/
  | transitionStatus (betId : Option Value)
  | isTerminalState (betId : Option Value)
  | pushBetSettled (userId betId marketName result payoutCents : Option Value)
  | pushMarketUpdated (marketId name status oddsInt : Option Value)
  | pushMarketCreated (marketId name oddsInt : Option Value)
  | answer (a : Answer)

/-- What an operation answers. -/
abbrev DeliveryOp.Res : DeliveryOp → Type
  | .isTerminalState _ => Bool
  | _ => Unit

abbrev DeliverySig (ε : Type) : Sig ε := ⟨DeliveryOp, DeliveryOp.Res⟩

variable {ε : Type}

/-- A handler's program. -/
abbrev Run (ε α : Type) := Prog (DeliverySig ε) α

def call (o : DeliveryOp) : Run ε o.Res := .perform (S := DeliverySig ε) o

section Code

variable (E : Errors ε)

/-- `payload.key`. -/
def read (payload : Value) (key : String) : Run ε (Option Value) :=
  .ofExcept ((property payload key).mapError E.raise)

/-- A template literal, which only the logger sees. -/
def log (hole : Option Value) : Run ε Unit :=
  if prints hole then .ret () else .throw (E.raise .TypeError)

/-- `${(err as Error).message}` and `(err as Error).stack`. -/
def report (err : ε) : Run ε Unit := .ofExcept ((E.describe err).mapError E.raise)

/-- A handler: its payload, `ack` and `nack`. -/
abbrev Handler (ε : Type) := Value → Run ε Unit → (Bool → Run ε Unit) → Run ε Unit

namespace SettlementWorker

/-- The `catch` around `transitionStatus`: whether the message has been acked already. -/
def acceptAgain (betId : Option Value) (ack : Run ε Unit) : Run ε Bool := do
  if ← call (.isTerminalState betId) then
    log E betId
    ack
    return true
  else
    log E betId
    .throw (E.raise (.Error "Failed to transition bet " betId " to ACCEPTED"))

/-- The inner `try` of `handleMessage`. -/
def accept (betId : Option Value) (ack : Run ε Unit) : Run ε Bool :=
  Prog.tryCatch (do
    call (.transitionStatus betId)
    return false)
    fun _ => acceptAgain E betId ack

/-- The outer `try` of `handleMessage`. -/
def attempt (betId : Option Value) (ack : Run ε Unit) : Run ε Unit := do
  if ← accept E betId ack then return ()
  else
    log E betId
    ack

/-- `handleMessage`. -/
def handleMessage : Handler ε := fun raw ack nack => do
  let betId ← read E raw "betId"
  let userId ← read E raw "userId"
  log E betId
  log E userId
  (attempt E betId ack).tryCatch fun err => do
    log E betId
    report E err
    nack false

end SettlementWorker

namespace NotificationWorker

/-- What `handleMessage` pushes for a message of some type. -/
def push (payload : Value) (type : Option Value) : Run ε Unit := do
  if isText type "BET_SETTLED" then
    call (.pushBetSettled (← read E payload "userId") (← read E payload "betId")
      (← read E payload "marketName") (← read E payload "result") (← read E payload "payoutCents"))
  else if isText type "MARKET_UPDATED" then
    call (.pushMarketUpdated (← read E payload "marketId") (← read E payload "name")
      (← read E payload "status") (← read E payload "oddsInt"))
  else if isText type "MARKET_CREATED" then
    call (.pushMarketCreated (← read E payload "marketId") (← read E payload "name")
      (← read E payload "oddsInt"))
  else log E type

/-- `handleMessage`. -/
def handleMessage : Handler ε := fun raw ack nack =>
  Prog.tryCatch (do
    let type ← read E raw "type"
    push E raw type
    ack)
    fun err => do
      report E err
      nack false

end NotificationWorker

namespace RabbitMQService

/-- `JSON.parse(msg.content.toString())`. -/
def parse (content : List UInt8) : Except Raised Value :=
  match Json.parse (Utf8.decode content) with
  | some v => .ok v
  | none => .error .SyntaxError

/-- The callback of a consumer; a consumer that was cancelled gets no message. -/
def onMessage (handler : Handler ε) : Option (List UInt8) → Run ε Unit
  | none => .ret ()
  | some content => do
    let payload ← .ofExcept ((parse content).mapError E.raise)
    (handler payload (call (.answer .ack)) fun requeue => call (.answer (.nack requeue))).tryCatch
      fun _ => call (.answer (.nack false))

/-- `createBetPlacementConsumer`. -/
def createBetPlacementConsumer : Option (List UInt8) → Run ε Unit :=
  onMessage E (SettlementWorker.handleMessage E)

/-- `createNotificationsConsumer`. -/
def createNotificationsConsumer : Option (List UInt8) → Run ε Unit :=
  onMessage E (NotificationWorker.handleMessage E)

end RabbitMQService

end Code

/-! ## One answer -/

/-- The history of a callback. -/
abbrev History (ε : Type) := List (Seen (DeliverySig ε))

/-- The answer an operation gives. -/
def DeliveryOp.answered : DeliveryOp → Option Answer
  | .answer a => some a
  | _ => none

/-- The answers given, the last one first. -/
def answers (l : History ε) : List Answer := l.filterMap fun x => x.op.answered

/-- Every `ack` and every `nack` succeeded. -/
def Succeed (l : History ε) : Prop :=
  ∀ x ∈ l, x.op.answered.isSome → ∃ a, x.res = .ok a

/-- **Answered once**, by `ack(msg)` or `nack(msg, false, false)`, and nothing thrown, along every
path on which `ack` and `nack` succeed. -/
def AnsweredOnce (p : Run ε Unit) : Prop :=
  p.Along (fun _ _ => True) (fun l r => Succeed l →
    r = .ok () ∧ (answers l = [.ack] ∨ answers l = [.nack false])) []

/-- These answers so far, if they succeeded. -/
def Answered (as : List Answer) (l : History ε) : Prop := Succeed l → answers l = as

section Answered

variable {E : Errors ε} {as : List Answer} {l : History ε}

theorem Succeed.tail {x : Seen (DeliverySig ε)} (h : Succeed (x :: l)) : Succeed l :=
  fun y hy => h y (List.mem_cons_of_mem x hy)

/-- An operation answers what it answers. -/
theorem answers_cons (o : DeliveryOp) (r : Except ε o.Res) (l : History ε) :
    answers (⟨o, r⟩ :: l) = o.answered.toList ++ answers l := by
  unfold answers
  rw [List.filterMap_cons]
  split <;> simp_all

/-- A call of a service answers nothing. -/
theorem Answered.call {o : DeliveryOp} (h : Answered as l) (ho : o.answered = none)
    (r : Except ε o.Res) : Answered as (⟨o, r⟩ :: l) := by
  intro hs
  rw [answers_cons, ho]
  exact h hs.tail

theorem Answered.answer (a : Answer) (h : Answered as l) (r : Except ε Unit) :
    Answered (a :: as) (⟨.answer a, r⟩ :: l) := by
  intro hs
  rw [answers_cons]
  exact congrArg (a :: ·) (h hs.tail)

/-- A failed answer is out of account. -/
theorem answered_failed (a : Answer) (e : ε) (as : List Answer) (l : History ε) :
    Answered as (⟨.answer a, .error e⟩ :: l) := by
  intro hs
  obtain ⟨b, hb⟩ := hs _ List.mem_cons_self rfl
  exact absurd hb (by simp)

/-- A program that calls only services. -/
def Silent {α : Type} (p : Run ε α) : Prop := p.All fun o : DeliveryOp => o.answered = none

/-- What calls only services answers nothing. -/
theorem Answered.along {α : Type} {p : Run ε α} (hp : Silent p) (h : Answered as l) :
    p.Along (fun _ _ => True) (fun l' _ => Answered as l') l := by
  induction p generalizing l with
  | ret a => exact h
  | throw e => exact h
  | await o k ih => exact ⟨trivial, fun r => ih r (hp.2 r) (h.call hp.1 r)⟩

/-- One answer. -/
theorem Answered.along_answer (a : Answer) (h : Answered as l) :
    (Delivery.call (.answer a) : Run ε Unit).Along (fun _ _ => True)
      (fun l' r => Answered (a :: as) l' ∧ (r ≠ .ok () → ∀ as', Answered as' l')) l := by
  refine ⟨trivial, fun r => ?_⟩
  cases r with
  | ok u => exact ⟨h.answer a (.ok u), fun hr => absurd rfl hr⟩
  | error e => exact ⟨h.answer a (.error e), fun _ as' => answered_failed a e as' l⟩

end Answered

/-! ## The handlers -/

section Handlers

variable (E : Errors ε)

theorem silent_read (payload : Value) (key : String) : Silent (read E payload key) := by
  unfold read
  cases (property payload key).mapError E.raise <;> trivial

theorem silent_log (hole : Option Value) : Silent (log E hole) := by
  unfold log
  split <;> trivial

theorem silent_report (err : ε) : Silent (report E err) := by
  unfold report
  cases (E.describe err).mapError E.raise <;> trivial

theorem silent_call {o : DeliveryOp} (ho : o.answered = none) : Silent (call o : Run ε o.Res) :=
  Prog.All.perform (S := DeliverySig ε) ho

/-- How a handler ends: it answered once, or it threw before it answered. -/
def Handled (l : History ε) : Except ε Unit → Prop
  | .ok _ => Answered [.ack] l ∨ Answered [.nack false] l
  | .error _ => Answered [] l

/-- After a `catch` that only answers: the answer counts, or it failed. -/
theorem along_nack {l : History ε} (h : Answered [] l) :
    (call (.answer (.nack false)) : Run ε Unit).Along (fun _ _ => True) Handled l := by
  refine (h.along_answer (.nack false)).mono ?_
  rintro l' (e | u) ⟨hl, hfail⟩
  · exact hfail (by simp) []
  · exact .inr hl

theorem along_ack {l : History ε} (h : Answered [] l) :
    (call (.answer .ack) : Run ε Unit).Along (fun _ _ => True)
      (fun l' r => match r with
        | .ok _ => Answered [.ack] l'
        | .error _ => Answered [] l') l := by
  refine (h.along_answer .ack).mono ?_
  rintro l' (e | u) ⟨hl, hfail⟩
  · exact hfail (by simp) []
  · exact hl

/-- How the inner `try` of the settlement worker ends: it answered when it returns `true`. -/
def Accepted (l : History ε) : Except ε Bool → Prop
  | .ok true => Answered [.ack] l
  | _ => Answered [] l

variable {l : History ε}

theorem acceptAgain_along (betId : Option Value) (h : Answered [] l) :
    (SettlementWorker.acceptAgain E betId (call (.answer .ack))).Along (fun _ _ => True)
      Accepted l := by
  unfold SettlementWorker.acceptAgain
  refine (h.along (silent_call rfl)).bind (fun again l₁ h₁ => ?_) fun _ _ h => h
  cases again with
  | true =>
    refine (h₁.along (silent_log E betId)).bind (fun _ l₂ h₂ => ?_) fun _ _ h => h
    exact (along_ack h₂).bind (fun _ _ h => h) fun _ _ h => h
  | false => exact (h₁.along (silent_log E betId)).bind (fun _ _ h => h) fun _ _ h => h

theorem accept_along (betId : Option Value) (h : Answered [] l) :
    (SettlementWorker.accept E betId (call (.answer .ack))).Along (fun _ _ => True) Accepted l := by
  unfold SettlementWorker.accept
  refine Prog.Along.tryCatch (Q := fun l' r => Answered [] l' ∧ r ≠ .ok true) ?_ ?_ ?_
  · refine (h.along (silent_call rfl)).bind (fun _ l₁ h₁ => ?_) fun _ _ h => ⟨h, by simp⟩
    exact ⟨h₁, by simp⟩
  · rintro (_ | _) l₁ ⟨h₁, hne⟩
    · exact h₁
    · exact absurd rfl hne
  · exact fun _ l₁ h₁ => acceptAgain_along E betId h₁.1

/-- The answers of a consumer, as a handler gets them. -/
abbrev run (handler : Handler ε) (payload : Value) : Run ε Unit :=
  handler payload (call (.answer .ack)) fun requeue => call (.answer (.nack requeue))

/-- **The settlement worker answers once, or throws before it answers.** -/
theorem settlement_handled (payload : Value) :
    (run (SettlementWorker.handleMessage E) payload).Along (fun _ _ => True) Handled [] := by
  have h : Answered [] ([] : History ε) := fun _ => rfl
  refine (h.along (silent_read E payload "betId")).bind (fun betId l₁ h₁ => ?_) fun _ _ h => h
  refine (h₁.along (silent_read E payload "userId")).bind (fun userId l₂ h₂ => ?_) fun _ _ h => h
  refine (h₂.along (silent_log E betId)).bind (fun _ l₃ h₃ => ?_) fun _ _ h => h
  refine (h₃.along (silent_log E userId)).bind (fun _ l₄ h₄ => ?_) fun _ _ h => h
  refine Prog.Along.tryCatch (Q := fun l' r => match r with
    | .ok _ => Answered [.ack] l'
    | .error _ => Answered [] l') ?_ (fun _ _ h => .inl h) fun err l₅ h₅ => ?_
  · refine (accept_along E betId h₄).bind (fun done l₅ h₅ => ?_) fun _ _ h => h
    cases done with
    | true => exact h₅
    | false =>
      refine (h₅.along (silent_log E betId)).bind (fun _ l₆ h₆ => ?_) fun _ _ h => h
      exact along_ack h₆
  · refine (h₅.along (silent_log E betId)).bind (fun _ l₆ h₆ => ?_) fun _ _ h => h
    refine (h₆.along (silent_report E err)).bind (fun _ l₇ h₇ => ?_) fun _ _ h => h
    exact along_nack h₇

theorem silent_push (payload : Value) (type : Option Value) :
    Silent (NotificationWorker.push E payload type) := by
  have hread : ∀ (key : String) {α : Type} {f : Option Value → Run ε α}, (∀ v, Silent (f v)) →
      Silent (read E payload key >>= f) := fun key _ _ hf => (silent_read E payload key).bind hf
  unfold NotificationWorker.push
  split
  · exact hread _ fun _ => hread _ fun _ => hread _ fun _ => hread _ fun _ => hread _ fun _ =>
      silent_call rfl
  · split
    · exact hread _ fun _ => hread _ fun _ => hread _ fun _ => hread _ fun _ => silent_call rfl
    · split
      · exact hread _ fun _ => hread _ fun _ => hread _ fun _ => silent_call rfl
      · exact silent_log E type

/-- **The notification worker answers once, or throws before it answers.** -/
theorem notification_handled (payload : Value) :
    (run (NotificationWorker.handleMessage E) payload).Along (fun _ _ => True) Handled [] := by
  have h : Answered [] ([] : History ε) := fun _ => rfl
  refine Prog.Along.tryCatch (Q := fun l' r => match r with
    | .ok _ => Answered [.ack] l'
    | .error _ => Answered [] l') ?_ (fun _ _ h => .inl h) fun err l₁ h₁ => ?_
  · refine (h.along (silent_read E payload "type")).bind (fun type l₁ h₁ => ?_) fun _ _ h => h
    refine (h₁.along (silent_push E payload type)).bind (fun _ l₂ h₂ => ?_) fun _ _ h => h
    exact along_ack h₂
  · refine (h₁.along (silent_report E err)).bind (fun _ l₂ h₂ => ?_) fun _ _ h => h
    exact along_nack h₂

/-- **The callback answers once exactly when the body is JSON**, around a handler that answers once
or throws before it answers. -/
theorem onMessage_iff {handler : Handler ε}
    (hh : ∀ payload, (run handler payload).Along (fun _ _ => True) Handled [])
    (content : List UInt8) : AnsweredOnce (RabbitMQService.onMessage E handler (some content)) ↔
      ∃ v, Json.IsText v (Utf8.decode content) := by
  have hparse : ∀ {v}, Json.parse (Utf8.decode content) = some v ↔
    Json.IsText v (Utf8.decode content) := Json.parse_iff
  constructor
  · intro h
    by_contra hno
    have hnone : Json.parse (Utf8.decode content) = none := by
      rw [Option.eq_none_iff_forall_ne_some]
      exact fun v hv => hno ⟨v, hparse.mp hv⟩
    simp only [RabbitMQService.onMessage, RabbitMQService.parse, hnone] at h
    exact absurd (h fun _ hx => absurd hx (by simp)).1 (by simp)
  · rintro ⟨v, hv⟩
    simp only [RabbitMQService.onMessage, RabbitMQService.parse, hparse.mpr hv]
    refine Prog.Along.mono (Q := fun l r => match r with
      | .ok _ => Answered [.ack] l ∨ Answered [.nack false] l
      | .error _ => ∀ as, Answered as l) ?_ ?_
    · rintro l (e | u) h hs
      · exact absurd ((h [] hs).symm.trans (h [.ack] hs)) (by simp)
      · exact ⟨rfl, h.imp (· hs) (· hs)⟩
    · refine (hh v).tryCatch (fun _ _ h => h) fun _ l h => ?_
      refine (Answered.along_answer (.nack false) h).mono ?_
      rintro l' (e | u) ⟨hl, hfail⟩
      · exact hfail (by simp)
      · exact .inr hl

end Handlers

/-- **Every delivery is answered exactly once, if its body is JSON.** No other body is answered:
`JSON.parse` throws out of the callback. -/
theorem answered_once_iff (E : Errors ε) (content : List UInt8) :
    (AnsweredOnce (RabbitMQService.createBetPlacementConsumer E (some content)) ↔
      ∃ v, Json.IsText v (Utf8.decode content)) ∧
    (AnsweredOnce (RabbitMQService.createNotificationsConsumer E (some content)) ↔
      ∃ v, Json.IsText v (Utf8.decode content)) :=
  ⟨onMessage_iff E (settlement_handled E) content, onMessage_iff E (notification_handled E) content⟩

/-- Errors as the code raises them, which all have a message to print. -/
def plain : Errors Raised where
  raise e := e
  describe _ := .ok ()
  describe_raise _ := rfl

/-- Neither consumer answers the body `x`. -/
theorem not_answered_once :
    ¬AnsweredOnce (RabbitMQService.createBetPlacementConsumer plain (some [0x78])) ∧
      ¬AnsweredOnce (RabbitMQService.createNotificationsConsumer plain (some [0x78])) := by
  have hthrow : ∀ handler : Handler Raised,
      RabbitMQService.onMessage plain handler (some [0x78]) = .throw .SyntaxError := fun _ => rfl
  have hnot : ¬AnsweredOnce (.throw .SyntaxError : Run Raised Unit) := fun h =>
    absurd (h fun _ hx => absurd hx (by simp)).1 (by simp)
  exact ⟨fun h => hnot (hthrow _ ▸ h), fun h => hnot (hthrow _ ▸ h)⟩

/-! ## What the services publish -/

/-- How the services' values stand in JSON, and how they are read back. -/
structure Codec where
  uuid : Uuid → Units
  int : Int → List Char
  uuidOf : Option Value → Uuid
  intOf : Option Value → Int
  stringOf : Option Value → String
  resultOf : Option Value → MarketResult
  statusOf : Option Value → MarketStatus
  uuidOf_uuid : ∀ id, uuidOf (some (.string (uuid id))) = id
  intOf_int : ∀ n, intOf (some (.number (int n))) = n
  stringOf_text : ∀ s, stringOf (some (.string (Json.text s))) = s
  resultOf_win : resultOf (some (.string (Json.text "WIN"))) = .WIN
  resultOf_loss : resultOf (some (.string (Json.text "LOSS"))) = .LOSS
  statusOf_text : ∀ status : MarketStatus,
    statusOf (some (.string (Json.text status.toString))) = status

/-- The literal of an integer. -/
def literal : Int → List Char
  | .ofNat n => Nat.toDigits 10 n
  | .negSucc n => '-' :: Nat.toDigits 10 (n + 1)

/-- The integer of a literal. -/
def ofLiteral : List Char → Int
  | '-' :: l => -(Nat.ofDigitChars 10 l 0 : Nat)
  | l => (Nat.ofDigitChars 10 l 0 : Nat)

theorem ofLiteral_literal (n : Int) : ofLiteral (literal n) = n := by
  cases n with
  | ofNat n =>
    have hne : ∀ l, Nat.toDigits 10 n ≠ '-' :: l := by
      intro l hl
      have hc : '-' ∈ Nat.toDigits 10 n := hl ▸ List.mem_cons_self
      exact absurd (Nat.isDigit_of_mem_toDigits (by decide) (by decide) hc) (by decide)
    rw [literal, ofLiteral, Nat.ofDigitChars_ten_toDigits]
    · rfl
    · exact hne
  | negSucc n =>
    rw [literal, ofLiteral, Nat.ofDigitChars_ten_toDigits]
    rfl

/-- The text of a string. -/
def stringOf : Option Value → String
  | some (.string us) => String.ofList (Json.untext us)
  | _ => ""

theorem stringOf_text (s : String) : stringOf (some (.string (Json.text s))) = s :=
  Json.untext_text s

/-- Decimal digits. -/
instance : Inhabited Codec where
  default :=
    { uuid := fun id => (Nat.toDigits 10 id).flatMap Json.units
      int := literal
      uuidOf := fun v => Nat.ofDigitChars 10 (stringOf v).toList 0
      intOf := fun
        | some (.number l) => ofLiteral l
        | _ => 0
      stringOf := stringOf
      resultOf := fun v => if stringOf v = "WIN" then .WIN else .LOSS
      statusOf := fun v =>
        if stringOf v = "OPEN" then .OPEN
        else if stringOf v = "SUSPENDED" then .SUSPENDED
        else .SETTLED
      uuidOf_uuid := fun id => by
        rw [stringOf, Json.untext_flatMap, String.toList_ofList, Nat.ofDigitChars_ten_toDigits]
      intOf_int := ofLiteral_literal
      stringOf_text := stringOf_text
      resultOf_win := by rw [stringOf_text]; rfl
      resultOf_loss := by rw [stringOf_text]; rfl
      statusOf_text := fun status => by rw [stringOf_text]; cases status <;> rfl }

section Published

variable (C : Codec) (tag : Nat)

/-- The object `publishBetPlacement` sends. -/
def Codec.placement (payload : BetPlacementPayload) : Value :=
  .object [(Json.text "betId", .string (C.uuid payload.betId)),
    (Json.text "userId", .string (C.uuid payload.userId)),
    (Json.text "marketId", .string (C.uuid payload.marketId)),
    (Json.text "oddsInt", .number (C.int payload.oddsInt)),
    (Json.text "stakeCents", .number (C.int payload.stakeCents)),
    (Json.text "payoutCents", .number (C.int payload.payoutCents))]

/-- The object `publishNotification` sends. -/
def Codec.notification : NotificationPayload → Value
  | .BET_SETTLED userId betId marketName result payoutCents =>
    .object [(Json.text "type", .string (Json.text "BET_SETTLED")),
      (Json.text "userId", .string (C.uuid userId)), (Json.text "betId", .string (C.uuid betId)),
      (Json.text "marketName", .string (Json.text marketName)),
      (Json.text "result", .string (Json.text (if result = .WIN then "WIN" else "LOSS"))),
      (Json.text "payoutCents", .number (C.int payoutCents))]
  | .MARKET_UPDATED marketId name status oddsInt =>
    .object [(Json.text "type", .string (Json.text "MARKET_UPDATED")),
      (Json.text "marketId", .string (C.uuid marketId)),
      (Json.text "name", .string (Json.text name)),
      (Json.text "status", .string (Json.text status.toString)),
      (Json.text "oddsInt", .number (C.int oddsInt))]
  | .MARKET_CREATED marketId name oddsInt =>
    .object [(Json.text "type", .string (Json.text "MARKET_CREATED")),
      (Json.text "marketId", .string (C.uuid marketId)),
      (Json.text "name", .string (Json.text name)),
      (Json.text "oddsInt", .number (C.int oddsInt))]

/-- The errors of the betting service; what it throws has a message. -/
def Codec.errors : Errors Err where
  raise
    | .SyntaxError => .Error "SyntaxError"
    | .TypeError => .Error "TypeError"
    | .Error before hole after => .Error s!"{before}{C.uuidOf hole}{after}"
  describe _ := .ok ()
  describe_raise _ := rfl

/-- The errors around the gateway. -/
def authErrors : Errors AuthErr where
  raise _ := .TypeError
  describe _ := .ok ()
  describe_raise _ := rfl

/-- The settlement worker's calls, in the betting service. -/
def Codec.settlement : (o : DeliveryOp) → Prog ApiSig o.Res
  | .transitionStatus betId => BettingService.transitionStatus (C.uuidOf betId) .ACCEPTED
  | .isTerminalState betId => BettingService.isTerminalState (C.uuidOf betId)
  | .answer .ack => Api.ack tag
  | .answer (.nack _) => Api.nack tag
  | .pushBetSettled .. => .ret ()
  | .pushMarketUpdated .. => .ret ()
  | .pushMarketCreated .. => .ret ()

/-- The notification worker's calls, in the gateway. -/
def Codec.gateway {T : Type} : (o : DeliveryOp) → Prog (AuthSig T) o.Res
  | .pushBetSettled userId betId marketName result payoutCents =>
    RealtimeGateway.pushBetSettled (C.uuidOf userId) (C.uuidOf betId) (C.stringOf marketName)
      (C.resultOf result) (C.intOf payoutCents)
  | .pushMarketUpdated marketId name status oddsInt =>
    RealtimeGateway.pushMarketUpdated (C.uuidOf marketId) (C.stringOf name) (C.statusOf status)
      (C.intOf oddsInt)
  | .pushMarketCreated marketId name oddsInt =>
    RealtimeGateway.pushMarketCreated (C.uuidOf marketId) (C.stringOf name) (C.intOf oddsInt)
  | .answer .ack => Auth.op (.ack tag)
  | .answer (.nack _) => Auth.op (.nack tag)
  | .transitionStatus _ => .ret ()
  | .isTerminalState _ => .ret false

/-- A call, and what follows it, in another signature. -/
theorem expand_call {α : Type} {T : Sig ε} (run : (o : DeliveryOp) → Prog T o.Res) (o : DeliveryOp)
    (f : o.Res → Run ε α) :
    (call o >>= f).expand run = run o >>= fun a => (f a).expand run := by
  rw [call, Prog.expand_bind, Prog.expand_perform]

/-- A parsed body reaches the handler. -/
theorem onMessage_parsed {E : Errors ε} {handler : Handler ε} {v : Value} {content : List UInt8}
    (h : Json.IsText v (Utf8.decode content)) :
    RabbitMQService.onMessage E handler (some content) =
      (run handler v).tryCatch fun _ => call (.answer (.nack false)) := by
  simp only [RabbitMQService.onMessage, RabbitMQService.parse, Json.parse_iff.mpr h]
  rfl

theorem accept_published (betId : Uuid) :
    (SettlementWorker.accept C.errors (some (.string (C.uuid betId))) (call (.answer .ack))).expand
      (C.settlement tag) = BoltBet.SettlementWorker.accept tag betId := by
  have herror : C.errors.raise (.Error "Failed to transition bet " (some (.string (C.uuid betId)))
      " to ACCEPTED") = .Error s!"Failed to transition bet {betId} to ACCEPTED" := by
    simp only [Codec.errors, C.uuidOf_uuid]
  have hagain : (SettlementWorker.acceptAgain C.errors (some (.string (C.uuid betId)))
      (call (.answer .ack))).expand (C.settlement tag) =
        (BettingService.isTerminalState betId >>= fun again =>
          if again then Api.ack tag >>= fun _ => return true
          else .throw (.Error s!"Failed to transition bet {betId} to ACCEPTED")) := by
    rw [SettlementWorker.acceptAgain, expand_call, Codec.settlement, C.uuidOf_uuid]
    refine bind_congr fun again => ?_
    cases again with
    | true => exact expand_call _ _ _
    | false => exact congrArg Prog.throw herror
  rw [SettlementWorker.accept, Prog.expand_tryCatch, expand_call, Codec.settlement, C.uuidOf_uuid]
  exact congrArg (Prog.tryCatch _) (funext fun _ => hagain)

/-- **What `placeBet` publishes is handled as its payload**, from the bytes on. -/
theorem settlement_published {payload : BetPlacementPayload} {content : List UInt8}
    (h : Json.IsText (C.placement payload) (Utf8.decode content)) :
    (RabbitMQService.createBetPlacementConsumer C.errors (some content)).expand
      (C.settlement tag) = BoltBet.SettlementWorker.consume tag payload := by
  have hrun : run (SettlementWorker.handleMessage C.errors) (C.placement payload) =
      (SettlementWorker.attempt C.errors (some (.string (C.uuid payload.betId)))
        (call (.answer .ack))).tryCatch fun _ => call (.answer (.nack false)) := rfl
  have hattempt : (SettlementWorker.attempt C.errors (some (.string (C.uuid payload.betId)))
      (call (.answer .ack))).expand (C.settlement tag) =
        (BoltBet.SettlementWorker.accept tag payload.betId >>= fun done =>
          if done then return () else Api.ack tag) := by
    rw [SettlementWorker.attempt, Prog.expand_bind, accept_published]
    refine bind_congr fun done => ?_
    cases done with
    | true => rfl
    | false => exact Prog.expand_perform (S := DeliverySig Err) _ (.answer .ack)
  have hnack : (call (.answer (.nack false)) : Run Err Unit).expand (C.settlement tag) =
      Api.nack tag := Prog.expand_perform (S := DeliverySig Err) _ (.answer (.nack false))
  rw [RabbitMQService.createBetPlacementConsumer, onMessage_parsed h, hrun, Prog.expand_tryCatch,
    Prog.expand_tryCatch, hattempt]
  simp only [hnack]
  rfl

/-- It pushes what the typed worker pushes. -/
theorem push_published {T : Type} (payload : NotificationPayload) :
    (do
      let type ← read authErrors (C.notification payload) "type"
      NotificationWorker.push authErrors (C.notification payload) type
      call (.answer .ack) : Run AuthErr Unit).expand (C.gateway (T := T) tag) =
      (BoltBet.NotificationWorker.push payload >>= fun _ => Auth.op (.ack tag)) := by
  have hack : (call (.answer .ack) : Run AuthErr Unit).expand (C.gateway (T := T) tag) =
      Auth.op (.ack tag) := Prog.expand_perform (S := DeliverySig AuthErr) _ (.answer .ack)
  cases payload with
  | BET_SETTLED userId betId marketName result payoutCents =>
    have hresult : C.resultOf (some (.string (Json.text (if result = .WIN then "WIN" else "LOSS"))))
        = result := by
      cases result
      · exact C.resultOf_win
      · exact C.resultOf_loss
    refine (expand_call _ (.pushBetSettled (some (.string (C.uuid userId)))
      (some (.string (C.uuid betId))) (some (.string (Json.text marketName)))
      (some (.string (Json.text (if result = .WIN then "WIN" else "LOSS"))))
      (some (.number (C.int payoutCents)))) fun _ => call (.answer .ack)).trans ?_
    simp only [Codec.gateway, C.uuidOf_uuid, C.stringOf_text, hresult, C.intOf_int, hack]
    rfl
  | MARKET_UPDATED marketId name status oddsInt =>
    refine (expand_call _ (.pushMarketUpdated (some (.string (C.uuid marketId)))
      (some (.string (Json.text name))) (some (.string (Json.text status.toString)))
      (some (.number (C.int oddsInt)))) fun _ => call (.answer .ack)).trans ?_
    simp only [Codec.gateway, C.uuidOf_uuid, C.stringOf_text, C.statusOf_text, C.intOf_int, hack]
    rfl
  | MARKET_CREATED marketId name oddsInt =>
    refine (expand_call _ (.pushMarketCreated (some (.string (C.uuid marketId)))
      (some (.string (Json.text name))) (some (.number (C.int oddsInt))))
      fun _ => call (.answer .ack)).trans ?_
    simp only [Codec.gateway, C.uuidOf_uuid, C.stringOf_text, C.intOf_int, hack]
    rfl

/-- **What `MarketService` publishes is handled as its payload**, from the bytes on. -/
theorem notification_published {T : Type} {payload : NotificationPayload} {content : List UInt8}
    (h : Json.IsText (C.notification payload) (Utf8.decode content)) :
    (RabbitMQService.createNotificationsConsumer authErrors (some content)).expand
      (C.gateway (T := T) tag) =
        (BoltBet.NotificationWorker.handleMessage tag payload).tryCatch
          fun _ => Auth.op (.nack tag) := by
  have hnack : (call (.answer (.nack false)) : Run AuthErr Unit).expand (C.gateway (T := T) tag) =
      Auth.op (.nack tag) :=
    Prog.expand_perform (S := DeliverySig AuthErr) _ (.answer (.nack false))
  have hreport : ∀ err : AuthErr, ((do
      report authErrors err
      call (.answer (.nack false))) : Run AuthErr Unit) = call (.answer (.nack false)) :=
    fun _ => rfl
  rw [RabbitMQService.createNotificationsConsumer, onMessage_parsed h, run,
    NotificationWorker.handleMessage, Prog.expand_tryCatch, Prog.expand_tryCatch,
    push_published C tag payload]
  simp only [hreport, hnack]
  rfl

end Published

end BoltBet.Delivery
