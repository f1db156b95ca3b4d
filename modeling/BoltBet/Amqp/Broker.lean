import Mathlib.Data.List.Nodup
import Mathlib.Logic.Function.Basic

/-!
# A message broker

What a broker does with the declarations, publications and answers of its clients: direct
exchanges, queues with a dead-letter exchange, and restarts. Names `N` and bodies `B` are any types.

* `exec`: one operation. A declaration with other arguments than those of what exists is refused,
  and so is what names a missing queue or exchange.
* `restart`: what is not durable is gone, and so are messages that are not persistent.
* `Layout`: the declarations that a group of clients agrees on; `Op.Meets` is an operation that
  keeps to them, at a moment when what it needs is there.
* `Declared`: nothing else was declared, and no queue before the bindings of its dead letters.
  **`Declared.exec_ok`**: no such operation is refused. `Declared.exec`, `sameLayout_restart`: the
  broker stays so, and what exists stays.
* **`Declared.heirs`**: then dead letters take the one way that the layout has for them.
-/

namespace Amqp

variable {N B : Type}

/-- The arguments of a queue. -/
structure QueueArgs (N : Type) where
  durable : Bool
  deadLetterExchange : Option N := none
  deadLetterRoutingKey : Option N := none
  deriving DecidableEq

/-- The arguments of a direct exchange. -/
structure ExchangeArgs where
  durable : Bool
  deriving DecidableEq

structure Message (B : Type) where
  body : B
  persistent : Bool
  deriving DecidableEq

/-- A queue, bound to an exchange by a routing key. -/
structure Binding (N : Type) where
  queue : N
  exchange : N
  key : N
  deriving DecidableEq

/-- A delivered message that is neither acked nor nacked. -/
structure Delivery (N B : Type) where
  tag : Nat
  queue : N
  message : Message B

/-- The state of a broker, with what it took and what was acked so far. -/
structure Broker (N B : Type) where
  exchanges : N → Option ExchangeArgs
  queues : N → Option (QueueArgs N)
  bindings : List (Binding N)
  /-- The queues that someone consumes. -/
  consumed : List N
  ready : N → List (Message B)
  unacked : List (Delivery N B)
  /-- The next delivery tag. -/
  deliveries : Nat
  /-- What publishers put into each queue. -/
  accepted : N → List (Message B)
  acked : N → List (Message B)
  /-- What no queue took. -/
  unrouted : List (Message B)

/-- What a client asks of the broker. -/
inductive Op (N B : Type) where
  | assertExchange (name : N) (args : ExchangeArgs)
  | assertQueue (name : N) (args : QueueArgs N)
  | bindQueue (binding : Binding N)
  | prefetch (count : Nat)
  | consume (queue : N)
  | sendToQueue (queue : N) (message : Message B)
  /-- A channel consumes one queue, and its delivery tags are its own. -/
  | ack (queue : N) (tag : Nat)
  | nack (queue : N) (tag : Nat) (requeue : Bool)

inductive Error where
  | PRECONDITION_FAILED
  | NOT_FOUND
  deriving DecidableEq

namespace Broker

def empty : Broker N B where
  exchanges _ := none
  queues _ := none
  bindings := []
  consumed := []
  ready _ := []
  unacked := []
  deliveries := 0
  accepted _ := []
  acked _ := []
  unrouted := []

variable [DecidableEq N]

/-- A queue gets a message. -/
def push (s : Broker N B) (queue : N) (m : Message B) : Broker N B :=
  { s with ready := Function.update s.ready queue (s.ready queue ++ [m]) }

/-- The queues that an exchange sends a routing key to. -/
def targets (s : Broker N B) (exchange key : N) : List N :=
  (s.bindings.filter fun b => b.exchange = exchange ∧ b.key = key).map Binding.queue

/-- The queues that get the dead letters of a queue. -/
def heirs (s : Broker N B) (queue : N) : List N :=
  match s.queues queue with
  | some ⟨_, some exchange, key⟩ => s.targets exchange (key.getD queue)
  | _ => []

/-- A message was refused for good. -/
def deadLetter (s : Broker N B) (queue : N) (m : Message B) : Broker N B :=
  if s.heirs queue = [] then { s with unrouted := s.unrouted ++ [m] }
  else (s.heirs queue).foldl (fun s heir => s.push heir m) s

/-- The message of a delivery tag. -/
def delivered (s : Broker N B) (queue : N) (tag : Nat) : Option (Delivery N B) :=
  s.unacked.find? fun d => d.queue = queue ∧ d.tag = tag

/-- Forget a delivery. -/
def settle (s : Broker N B) (queue : N) (tag : Nat) : Broker N B :=
  { s with unacked := s.unacked.eraseP fun d => d.queue = queue ∧ d.tag = tag }

/-- **One operation.** RabbitMQ documents that it takes the operations of a channel in their order,
and that an ack or a nack settles the delivery for good. A delivery that was taken back is one of a
channel that is gone: its tag means nothing to the broker any more, so answering it does nothing. -/
def exec (s : Broker N B) : Op N B → Except Error Unit × Broker N B
  | .assertExchange name args =>
    match s.exchanges name with
    | none => (.ok (), { s with exchanges := Function.update s.exchanges name (some args) })
    | some args' => if args' = args then (.ok (), s) else (.error .PRECONDITION_FAILED, s)
  | .assertQueue name args =>
    match s.queues name with
    | none => (.ok (), { s with queues := Function.update s.queues name (some args) })
    | some args' => if args' = args then (.ok (), s) else (.error .PRECONDITION_FAILED, s)
  | .bindQueue b =>
    if (s.queues b.queue).isNone ∨ (s.exchanges b.exchange).isNone then (.error .NOT_FOUND, s)
    else if b ∈ s.bindings then (.ok (), s)
    else (.ok (), { s with bindings := b :: s.bindings })
  | .prefetch _ => (.ok (), s)
  | .consume queue =>
    if (s.queues queue).isNone then (.error .NOT_FOUND, s)
    else (.ok (), { s with consumed := queue :: s.consumed })
  | .sendToQueue queue m =>
    match s.queues queue with
    | none => (.ok (), { s with unrouted := s.unrouted ++ [m] })
    | some _ => (.ok (), { s.push queue m with
        accepted := Function.update s.accepted queue (s.accepted queue ++ [m]) })
  | .ack queue tag =>
    match s.delivered queue tag with
    | none => (.ok (), s)
    | some d => (.ok (), { s.settle queue tag with
        acked := Function.update s.acked queue (s.acked queue ++ [d.message]) })
  | .nack queue tag requeue =>
    match s.delivered queue tag with
    | none => (.ok (), s)
    | some d =>
      if requeue then (.ok (), (s.settle queue tag).push queue d.message)
      else (.ok (), (s.settle queue tag).deadLetter queue d.message)

/-- A message of a queue goes to a consumer of it. -/
def deliver [DecidableEq B] (s : Broker N B) (queue : N) (m : Message B) : Option (Broker N B) :=
  if queue ∈ s.consumed ∧ m ∈ s.ready queue then
    some { s with
      ready := Function.update s.ready queue ((s.ready queue).erase m)
      unacked := ⟨s.deliveries, queue, m⟩ :: s.unacked
      deliveries := s.deliveries + 1 }
  else none

/-- A consumer is gone: its delivery goes back to its queue. -/
def takeBack (s : Broker N B) (queue : N) (tag : Nat) : Option (Broker N B) :=
  (s.delivered queue tag).map fun d => (s.settle queue tag).push queue d.message

/-- The deliveries of a queue that nobody answered. -/
def unackedOf (s : Broker N B) (queue : N) : List (Message B) :=
  (s.unacked.filter (·.queue = queue)).map Delivery.message

/-- What a queue keeps when the broker restarts. -/
def survivors (s : Broker N B) (queue : N) : List (Message B) :=
  match s.queues queue with
  | some ⟨true, _, _⟩ => (s.unackedOf queue ++ s.ready queue).filter Message.persistent
  | _ => []

/-- **A restart.** RabbitMQ documents that durable queues and exchanges, the bindings between them,
and the persistent messages of durable queues outlive it, unacked ones as ready again; consumers and
deliveries do not. Here this holds of every message that was accepted: what RabbitMQ promises only
once the message is on disk (the moment a publisher confirm waits for) is assumed of it at once, and
an ack counts when the broker takes it. -/
def restart (s : Broker N B) : Broker N B where
  exchanges name := (s.exchanges name).filter ExchangeArgs.durable
  queues name := (s.queues name).filter QueueArgs.durable
  bindings := s.bindings.filter fun b =>
    (s.queues b.queue).any QueueArgs.durable && (s.exchanges b.exchange).any ExchangeArgs.durable
  consumed := []
  ready := s.survivors
  unacked := []
  deliveries := s.deliveries
  accepted := s.accepted
  acked := s.acked
  unrouted := s.unrouted

end Broker

/-! ## Declarations -/

/-- The declarations that a group of clients agrees on. -/
structure Layout (N : Type) where
  exchange : N → Option ExchangeArgs
  queue : N → Option (QueueArgs N)
  bindings : List (Binding N)

/-- All of it is durable. -/
structure Layout.Durable (L : Layout N) : Prop where
  exchange : ∀ n a, L.exchange n = some a → a.durable = true
  queue : ∀ n a, L.queue n = some a → a.durable = true

/-- What exists stays. -/
structure Keeps (s s' : Broker N B) : Prop where
  exchanges : ∀ n a, s.exchanges n = some a → s'.exchanges n = some a
  queues : ∀ n a, s.queues n = some a → s'.queues n = some a
  bindings : s.bindings ⊆ s'.bindings

/-- The same declarations. -/
structure SameLayout (s s' : Broker N B) : Prop where
  exchanges : s'.exchanges = s.exchanges
  queues : s'.queues = s.queues
  bindings : s'.bindings = s.bindings

section Keeps

variable {s s' s'' : Broker N B}

theorem Keeps.refl (s : Broker N B) : Keeps s s :=
  ⟨fun _ _ h => h, fun _ _ h => h, List.Subset.refl _⟩

theorem Keeps.trans (h : Keeps s s') (h' : Keeps s' s'') : Keeps s s'' where
  exchanges n a ha := h'.exchanges n a (h.exchanges n a ha)
  queues n a ha := h'.queues n a (h.queues n a ha)
  bindings := List.Subset.trans h.bindings h'.bindings

theorem Keeps.queue_isSome (h : Keeps s s') {n : N} (hn : (s.queues n).isSome) :
    (s'.queues n).isSome := by
  obtain ⟨a, ha⟩ := Option.isSome_iff_exists.mp hn
  exact Option.isSome_iff_exists.mpr ⟨a, h.queues n a ha⟩

theorem Keeps.exchange_isSome (h : Keeps s s') {n : N} (hn : (s.exchanges n).isSome) :
    (s'.exchanges n).isSome := by
  obtain ⟨a, ha⟩ := Option.isSome_iff_exists.mp hn
  exact Option.isSome_iff_exists.mpr ⟨a, h.exchanges n a ha⟩

theorem SameLayout.keeps (h : SameLayout s s') : Keeps s s' :=
  ⟨fun _ _ ha => h.exchanges ▸ ha, fun _ _ ha => h.queues ▸ ha, h.bindings ▸ List.Subset.refl _⟩

end Keeps

variable [DecidableEq N] {L : Layout N} {s s' : Broker N B} {o : Op N B} {queue : N} {tag : Nat}
  {m : Message B} {d : Delivery N B}

/-- The bindings that the dead letters of a queue take. -/
def Layout.dead (L : Layout N) (queue : N) : List (Binding N) :=
  match L.queue queue with
  | some ⟨_, some exchange, key⟩ =>
    L.bindings.filter fun b => b.exchange = exchange ∧ b.key = key.getD queue
  | _ => []

/-- A declaration of the layout, a persistent message or an answer, at a moment when what it needs
is there: a queue is declared after the bindings of its dead letters. -/
def Op.Meets (L : Layout N) (s : Broker N B) : Op N B → Prop
  | .assertExchange name args => L.exchange name = some args
  | .assertQueue name args => L.queue name = some args ∧ L.dead name ⊆ s.bindings
  | .bindQueue b =>
    b ∈ L.bindings ∧ (s.queues b.queue).isSome ∧ (s.exchanges b.exchange).isSome
  | .prefetch _ => True
  | .consume queue => (s.queues queue).isSome
  | .sendToQueue queue m => m.persistent = true ∧ (s.queues queue).isSome
  | .ack _ _ => True
  | .nack queue _ requeue => requeue = true ∨ ∃ b, L.dead queue = [b]

/-- Nothing else was declared, and no queue without the bindings of its dead letters. -/
structure Declared (L : Layout N) (s : Broker N B) : Prop where
  exchanges : ∀ n a, s.exchanges n = some a → L.exchange n = some a
  queues : ∀ n a, s.queues n = some a → L.queue n = some a
  bindings : s.bindings ⊆ L.bindings
  nodup : s.bindings.Nodup
  bound : ∀ b ∈ s.bindings, (s.queues b.queue).isSome ∧ (s.exchanges b.exchange).isSome
  backed : ∀ n, (s.queues n).isSome → L.dead n ⊆ s.bindings

theorem SameLayout.declared (h : SameLayout s s') (hs : Declared L s) : Declared L s' where
  exchanges n a ha := hs.exchanges n a (h.exchanges ▸ ha)
  queues n a ha := hs.queues n a (h.queues ▸ ha)
  bindings := h.bindings ▸ hs.bindings
  nodup := h.bindings ▸ hs.nodup
  bound b hb := by
    rw [h.queues, h.exchanges]
    exact hs.bound b (h.bindings ▸ hb)
  backed n hn := by
    rw [h.bindings]
    exact hs.backed n (h.queues ▸ hn)

/-- Declarations of the layout are accepted, and what names an existing queue. -/
theorem Declared.exec_ok (hs : Declared L s) (ho : o.Meets L s) : (s.exec o).1 = .ok () := by
  cases o with
  | assertExchange name args =>
    simp only [Broker.exec]
    split
    · rfl
    · rename_i args' hargs
      have heq : args' = args := Option.some.inj ((hs.exchanges _ _ hargs).symm.trans ho)
      rw [if_pos heq]
  | assertQueue name args =>
    simp only [Broker.exec]
    split
    · rfl
    · rename_i args' hargs
      have heq : args' = args := Option.some.inj ((hs.queues _ _ hargs).symm.trans ho.1)
      rw [if_pos heq]
  | bindQueue b =>
    have hthere := ho.2
    simp only [Broker.exec]
    rw [if_neg]
    · split <;> rfl
    · simpa [Option.isSome_iff_ne_none] using hthere
  | prefetch => rfl
  | consume name =>
    have hthere : (s.queues name).isSome := ho
    simp only [Broker.exec]
    rw [if_neg]
    simpa [Option.isSome_iff_ne_none] using hthere
  | sendToQueue name m =>
    simp only [Broker.exec]
    split <;> rfl
  | ack name tag =>
    simp only [Broker.exec]
    split <;> rfl
  | nack name tag requeue =>
    simp only [Broker.exec]
    split
    · rfl
    · split <;> rfl

omit [DecidableEq N] in
theorem sameLayout_refl (s : Broker N B) : SameLayout s s := ⟨rfl, rfl, rfl⟩

theorem sameLayout_foldl (m : Message B) (heirs : List N) (s : Broker N B) :
    SameLayout s (heirs.foldl (fun s heir => s.push heir m) s) := by
  induction heirs generalizing s with
  | nil => exact sameLayout_refl s
  | cons heir heirs ih =>
    obtain ⟨he, hq, hb⟩ := ih (s.push heir m)
    exact ⟨he, hq, hb⟩

theorem sameLayout_deadLetter (s : Broker N B) (queue : N) (m : Message B) :
    SameLayout s (s.deadLetter queue m) := by
  unfold Broker.deadLetter
  split
  · exact ⟨rfl, rfl, rfl⟩
  · exact sameLayout_foldl m _ s

/-- Publishing, consuming and answering declare nothing. -/
theorem sameLayout_exec (s : Broker N B) (he : ∀ n a, o ≠ .assertExchange n a)
    (hq : ∀ n a, o ≠ .assertQueue n a) (hb : ∀ b, o ≠ .bindQueue b) :
    SameLayout s (s.exec o).2 := by
  cases o with
  | assertExchange n a => exact absurd rfl (he n a)
  | assertQueue n a => exact absurd rfl (hq n a)
  | bindQueue b => exact absurd rfl (hb b)
  | prefetch => exact sameLayout_refl s
  | consume name =>
    simp only [Broker.exec]
    split <;> exact ⟨rfl, rfl, rfl⟩
  | sendToQueue name m =>
    simp only [Broker.exec]
    split <;> exact ⟨rfl, rfl, rfl⟩
  | ack name tag =>
    simp only [Broker.exec]
    split <;> exact ⟨rfl, rfl, rfl⟩
  | nack name tag requeue =>
    simp only [Broker.exec]
    split
    · exact sameLayout_refl s
    · split
      · exact ⟨rfl, rfl, rfl⟩
      · obtain ⟨h₁, h₂, h₃⟩ := sameLayout_deadLetter (s.settle name tag) _ _
        exact ⟨h₁, h₂, h₃⟩

section Update

variable {α : Type} {f g : N → Option α} {name : N} {a : α}

theorem update_keeps (h : f name = none) :
    ∀ n b, f n = some b → Function.update f name (some a) n = some b := by
  intro n b hb
  have hne : n ≠ name := by
    rintro rfl
    exact absurd (h.symm.trans hb) (by simp)
  rw [Function.update_of_ne hne]
  exact hb

theorem update_within (hg : g name = some a) (h : ∀ n b, f n = some b → g n = some b) :
    ∀ n b, Function.update f name (some a) n = some b → g n = some b := by
  intro n b hb
  by_cases hn : n = name
  · subst hn
    rw [Function.update_self] at hb
    exact Option.some.inj hb ▸ hg
  · exact h n b ((Function.update_of_ne hn _ _).symm.trans hb)

end Update

/-- **Every operation keeps what was declared.** -/
theorem Declared.exec (hs : Declared L s) (ho : o.Meets L s) :
    Declared L (s.exec o).2 ∧ Keeps s (s.exec o).2 := by
  have hquiet : (∀ n a, o ≠ .assertExchange n a) → (∀ n a, o ≠ .assertQueue n a) →
      (∀ b, o ≠ .bindQueue b) → Declared L (s.exec o).2 ∧ Keeps s (s.exec o).2 := by
    intro he hq hb
    have hsame := sameLayout_exec s he hq hb
    exact ⟨hsame.declared hs, hsame.keeps⟩
  cases o with
  | assertExchange name args =>
    simp only [Broker.exec]
    split
    · rename_i hnone
      have hkeeps : Keeps s { s with exchanges := Function.update s.exchanges name (some args) } :=
        ⟨update_keeps hnone, fun _ _ h => h, List.Subset.refl _⟩
      refine ⟨⟨update_within ho hs.exchanges, hs.queues, hs.bindings, hs.nodup, fun b hb => ?_,
        hs.backed⟩, hkeeps⟩
      exact ⟨(hs.bound b hb).1, hkeeps.exchange_isSome (hs.bound b hb).2⟩
    · split <;> exact ⟨hs, .refl s⟩
  | assertQueue name args =>
    simp only [Broker.exec]
    split
    · rename_i hnone
      have hkeeps : Keeps s { s with queues := Function.update s.queues name (some args) } :=
        ⟨fun _ _ h => h, update_keeps hnone, List.Subset.refl _⟩
      refine ⟨⟨hs.exchanges, update_within ho.1 hs.queues, hs.bindings, hs.nodup, fun b hb => ?_,
        fun n hn => ?_⟩, hkeeps⟩
      · exact ⟨hkeeps.queue_isSome (hs.bound b hb).1, (hs.bound b hb).2⟩
      · by_cases hname : n = name
        · subst hname
          exact ho.2
        · have hold : (s.queues n).isSome := by
            have hn' : (Function.update s.queues name (some args) n).isSome := hn
            rwa [Function.update_of_ne hname] at hn'
          exact hs.backed n hold
    · split <;> exact ⟨hs, .refl s⟩
  | bindQueue b =>
    simp only [Broker.exec]
    split
    · exact ⟨hs, .refl s⟩
    · split
      · exact ⟨hs, .refl s⟩
      · rename_i hnew
        have hsub : s.bindings ⊆ b :: s.bindings := List.subset_cons_self ..
        refine ⟨⟨hs.exchanges, hs.queues, ?_, List.nodup_cons.mpr ⟨hnew, hs.nodup⟩, ?_,
          fun n hn => List.Subset.trans (hs.backed n hn) hsub⟩,
          ⟨fun _ _ h => h, fun _ _ h => h, hsub⟩⟩
        · exact List.cons_subset.mpr ⟨ho.1, hs.bindings⟩
        · exact List.forall_mem_cons.mpr ⟨ho.2, hs.bound⟩
  | prefetch => exact hquiet (by simp) (by simp) (by simp)
  | consume => exact hquiet (by simp) (by simp) (by simp)
  | sendToQueue => exact hquiet (by simp) (by simp) (by simp)
  | ack => exact hquiet (by simp) (by simp) (by simp)
  | nack => exact hquiet (by simp) (by simp) (by simp)

theorem sameLayout_takeBack (h : s.takeBack queue tag = some s') : SameLayout s s' := by
  obtain ⟨d, -, rfl⟩ := Option.map_eq_some_iff.mp h
  exact ⟨rfl, rfl, rfl⟩

theorem sameLayout_deliver [DecidableEq B] (h : s.deliver queue m = some s') : SameLayout s s' := by
  unfold Broker.deliver at h
  split at h
  · exact Option.some.inj h ▸ ⟨rfl, rfl, rfl⟩
  · exact absurd h (by simp)

/-- A restart keeps durable declarations. -/
theorem sameLayout_restart (hL : L.Durable) (hs : Declared L s) : SameLayout s s.restart where
  exchanges := by
    funext n
    rcases hn : s.exchanges n with - | a
    · simp [Broker.restart, hn]
    · simp [Broker.restart, hn, hL.exchange n a (hs.exchanges n a hn)]
  queues := by
    funext n
    rcases hn : s.queues n with - | a
    · simp [Broker.restart, hn]
    · simp [Broker.restart, hn, hL.queue n a (hs.queues n a hn)]
  bindings := by
    refine List.filter_eq_self.mpr fun b hb => ?_
    obtain ⟨hq, hx⟩ := hs.bound b hb
    obtain ⟨a, ha⟩ := Option.isSome_iff_exists.mp hq
    obtain ⟨a', ha'⟩ := Option.isSome_iff_exists.mp hx
    simp [ha, ha', hL.queue _ a (hs.queues _ a ha), hL.exchange _ a' (hs.exchanges _ a' ha')]

/-- **Where dead letters go**: over the one binding of the layout. -/
theorem Declared.heirs (hs : Declared L s) (hq : (s.queues queue).isSome) {b : Binding N}
    (hb : L.dead queue = [b]) : s.heirs queue = [b.queue] := by
  obtain ⟨a, ha⟩ := Option.isSome_iff_exists.mp hq
  have hL := hs.queues queue a ha
  have hmem : b ∈ s.bindings := hs.backed queue hq (hb ▸ List.mem_singleton_self b)
  obtain ⟨durable, x, key⟩ := a
  cases x with
  | none => exact absurd hb (by simp [Layout.dead, hL])
  | some exchange =>
    have hdead : L.bindings.filter (fun b => b.exchange = exchange ∧ b.key = key.getD queue)
        = [b] := by simpa [Layout.dead, hL] using hb
    have hfilter : s.bindings.filter (fun b => b.exchange = exchange ∧ b.key = key.getD queue)
        = [b] := by
      refine List.perm_singleton.mp ((List.perm_ext_iff_of_nodup (hs.nodup.filter _)
        (List.nodup_singleton b)).mpr fun b' => ?_)
      rw [← hdead, List.mem_filter, List.mem_filter]
      constructor
      · exact fun h => ⟨hs.bindings h.1, h.2⟩
      · intro h
        have hb' : b' ∈ [b] := hdead ▸ List.mem_filter.mpr h
        exact ⟨List.mem_singleton.mp hb' ▸ hmem, h.2⟩
    simp only [Broker.heirs, ha, Broker.targets, hfilter, List.map_cons, List.map_nil]

/-- What an accepted declaration leaves. -/
def Op.Done (s : Broker N B) : Op N B → Prop
  | .assertExchange name args => s.exchanges name = some args
  | .assertQueue name args => s.queues name = some args
  | .bindQueue b => b ∈ s.bindings
  | _ => True

omit [DecidableEq N] in
theorem Op.Done.keeps (h : o.Done s) (hkeeps : Keeps s s') : o.Done s' := by
  cases o with
  | assertExchange name args => exact hkeeps.exchanges name args h
  | assertQueue name args => exact hkeeps.queues name args h
  | bindQueue b => exact hkeeps.bindings h
  | prefetch => trivial
  | consume => trivial
  | sendToQueue => trivial
  | ack => trivial
  | nack => trivial

theorem done_exec (h : (s.exec o).1 = .ok ()) : o.Done (s.exec o).2 := by
  cases o with
  | assertExchange name args =>
    simp only [Broker.exec] at h ⊢
    split at h
    · exact Function.update_self ..
    · rename_i args' hargs
      split at h
      · rename_i heq
        subst heq
        simpa [Op.Done] using hargs
      · exact absurd h (by simp)
  | assertQueue name args =>
    simp only [Broker.exec] at h ⊢
    split at h
    · exact Function.update_self ..
    · rename_i args' hargs
      split at h
      · rename_i heq
        subst heq
        simpa [Op.Done] using hargs
      · exact absurd h (by simp)
  | bindQueue b =>
    have hthere : ¬((s.queues b.queue).isNone ∨ (s.exchanges b.exchange).isNone) := by
      intro hmissing
      simp only [Broker.exec, if_pos hmissing] at h
      exact absurd h (by simp)
    simp only [Broker.exec, if_neg hthere]
    split
    · assumption
    · exact List.mem_cons_self
  | prefetch => trivial
  | consume => trivial
  | sendToQueue => trivial
  | ack => trivial
  | nack => trivial

end Amqp
