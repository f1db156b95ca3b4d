import BoltBet.Amqp.Broker
import Mathlib.Algebra.BigOperators.Group.Finset.Piecewise

/-!
# The messages of a broker

What becomes of messages, when everyone keeps to one layout.

* `accepted_exec`: a queue takes what is sent to it, and nothing else.
* `Sound`: no message was dropped, and a restart drops none. `Sound.exec`, `Sound.deliver`,
  `Sound.takeBack`, `Sound.restart`.
* **`Conserves`**: queues whose dead letters stay among them hold what they took, no message more
  and none less; the same four steps keep it.
* `Idle`: a queue that only gets dead letters holds them ready.
-/

namespace Amqp

variable {N B : Type} [DecidableEq N] {L : Layout N} {s s' : Broker N B} {o : Op N B} {queue : N}
  {tag : Nat} {m : Message B} {d : Delivery N B}

/-- A queue holds a message, ready or delivered. -/
def Broker.Holds (s : Broker N B) (queue : N) (m : Message B) : Prop :=
  m ∈ s.ready queue ∨ ∃ d ∈ s.unacked, d.queue = queue ∧ d.message = m

/-- The same messages, and no answer in between. -/
structure SameStore (s s' : Broker N B) : Prop where
  ready : s'.ready = s.ready
  unacked : s'.unacked = s.unacked
  accepted : s'.accepted = s.accepted
  acked : s'.acked = s.acked
  unrouted : s'.unrouted = s.unrouted

/-- Declaring and consuming move no message. -/
theorem sameStore_exec (s : Broker N B) (hsend : ∀ n m, o ≠ .sendToQueue n m)
    (hack : ∀ n t, o ≠ .ack n t) (hnack : ∀ n t r, o ≠ .nack n t r) :
    SameStore s (s.exec o).2 := by
  have hrefl : SameStore s s := ⟨rfl, rfl, rfl, rfl, rfl⟩
  cases o with
  | assertExchange name args =>
    simp only [Broker.exec]
    split
    · exact ⟨rfl, rfl, rfl, rfl, rfl⟩
    · split <;> exact hrefl
  | assertQueue name args =>
    simp only [Broker.exec]
    split
    · exact ⟨rfl, rfl, rfl, rfl, rfl⟩
    · split <;> exact hrefl
  | bindQueue b =>
    simp only [Broker.exec]
    split
    · exact hrefl
    · split
      · exact hrefl
      · exact ⟨rfl, rfl, rfl, rfl, rfl⟩
  | prefetch => exact hrefl
  | consume name =>
    simp only [Broker.exec]
    split
    · exact hrefl
    · exact ⟨rfl, rfl, rfl, rfl, rfl⟩
  | sendToQueue n m => exact absurd rfl (hsend n m)
  | ack n t => exact absurd rfl (hack n t)
  | nack n t r => exact absurd rfl (hnack n t r)

theorem accepted_deadLetter (s : Broker N B) (queue : N) (m : Message B) :
    (s.deadLetter queue m).accepted = s.accepted := by
  have hpush : ∀ (heirs : List N) (s : Broker N B),
      (heirs.foldl (fun s heir => s.push heir m) s).accepted = s.accepted := by
    intro heirs
    induction heirs with
    | nil => exact fun _ => rfl
    | cons heir heirs ih => exact fun s => ih (s.push heir m)
  unfold Broker.deadLetter
  split
  · rfl
  · exact hpush _ s

/-- A queue takes what is sent to it, and nothing else. -/
theorem accepted_exec {n : N} (h : m ∈ (s.exec o).2.accepted n) :
    m ∈ s.accepted n ∨ o = .sendToQueue n m := by
  have hquiet : SameStore s (s.exec o).2 → m ∈ s.accepted n :=
    fun hsame => hsame.accepted ▸ h
  cases o with
  | assertExchange => exact .inl (hquiet (sameStore_exec s (by simp) (by simp) (by simp)))
  | assertQueue => exact .inl (hquiet (sameStore_exec s (by simp) (by simp) (by simp)))
  | bindQueue => exact .inl (hquiet (sameStore_exec s (by simp) (by simp) (by simp)))
  | prefetch => exact .inl h
  | consume => exact .inl (hquiet (sameStore_exec s (by simp) (by simp) (by simp)))
  | sendToQueue name sent =>
    simp only [Broker.exec] at h
    split at h
    · exact .inl h
    · by_cases hn : n = name
      · subst hn
        have hmem : m ∈ s.accepted n ∨ m = sent := by simpa using h
        exact hmem.imp_right fun (hm : m = sent) => hm ▸ rfl
      · exact .inl (by simpa [Function.update_of_ne hn] using h)
  | ack name tag =>
    simp only [Broker.exec] at h
    split at h <;> exact .inl h
  | nack name tag requeue =>
    simp only [Broker.exec] at h
    split at h
    · exact .inl h
    · split at h
      · exact .inl h
      · exact .inl (accepted_deadLetter (s.settle name tag) _ _ ▸ h)

/-- **No message was dropped**, and a restart drops none. -/
structure Sound (L : Layout N) (s : Broker N B) : Prop extends Declared L s where
  stored : ∀ queue m, s.Holds queue m → m.persistent = true ∧ (s.queues queue).isSome
  routed : s.unrouted = []

theorem sound_empty (L : Layout N) : Sound L (Broker.empty : Broker N B) where
  exchanges n a ha := absurd ha (by simp [Broker.empty])
  queues n a ha := absurd ha (by simp [Broker.empty])
  bindings := List.nil_subset _
  nodup := List.nodup_nil
  bound b hb := absurd hb (by simp [Broker.empty])
  backed n hn := absurd hn (by simp [Broker.empty])
  stored queue m hm := absurd hm (by simp [Broker.empty, Broker.Holds])
  routed := rfl

/-- The same declarations, and no other messages. -/
theorem Sound.shrink (hs : Sound L s) (hsame : SameLayout s s')
    (hholds : ∀ queue m, s'.Holds queue m → s.Holds queue m)
    (hrouted : s'.unrouted = s.unrouted) : Sound L s' where
  toDeclared := hsame.declared hs.toDeclared
  stored queue m hm := hsame.queues ▸ hs.stored queue m (hholds queue m hm)
  routed := hrouted.trans hs.routed

theorem mem_push {queue' : N} {m' : Message B} (h : m' ∈ (s.push queue m).ready queue') :
    m' ∈ s.ready queue' ∨ queue' = queue ∧ m' = m := by
  by_cases hn : queue' = queue
  · subst hn
    have hmem : m' ∈ s.ready queue' ++ [m] := by simpa [Broker.push] using h
    rcases List.mem_append.mp hmem with h | h
    · exact .inl h
    · exact .inr ⟨rfl, List.mem_singleton.mp h⟩
  · exact .inl (by simpa [Broker.push, Function.update_of_ne hn] using h)

theorem Sound.push (hs : Sound L s) (hm : m.persistent = true) (hq : (s.queues queue).isSome) :
    Sound L (s.push queue m) where
  toDeclared := SameLayout.declared (s := s) ⟨rfl, rfl, rfl⟩ hs.toDeclared
  stored n m' hm' := by
    rcases hm' with h | h
    · rcases mem_push h with h | ⟨rfl, rfl⟩
      · exact hs.stored n m' (.inl h)
      · exact ⟨hm, hq⟩
    · exact hs.stored n m' (.inr h)
  routed := hs.routed

/-- A delivery that is answered or taken back. -/
theorem delivered_split (h : s.delivered queue tag = some d) : ∃ l l',
    s.unacked = l ++ d :: l' ∧ (s.settle queue tag).unacked = l ++ l' ∧ d.queue = queue := by
  obtain ⟨hd, l, l', hl, hnot⟩ := List.find?_eq_some_iff_append.mp h
  have hl' : ∀ x ∈ l, ¬ (decide (x.queue = queue ∧ x.tag = tag)) = true := by
    intro x hx htrue
    exact absurd (hnot x hx) (by simp [htrue])
  refine ⟨l, l', hl, ?_, (decide_eq_true_iff.mp hd).1⟩
  show List.eraseP _ s.unacked = _
  rw [hl, List.eraseP_append_right _ hl']
  exact congrArg (l ++ ·) (List.eraseP_cons_of_pos hd)

theorem delivered_mem (h : s.delivered queue tag = some d) : s.Holds queue d.message := by
  obtain ⟨l, l', hl, -, hq⟩ := delivered_split h
  exact .inr ⟨d, hl ▸ List.mem_append_right l List.mem_cons_self, hq, rfl⟩

/-- What is settled is gone; the rest stays. -/
theorem holds_settle {queue' : N} {m' : Message B}
    (h : (s.settle queue tag).Holds queue' m') : s.Holds queue' m' := by
  rcases h with h | ⟨d, hd, hx⟩
  · exact .inl h
  · exact .inr ⟨d, List.eraseP_subset hd, hx⟩

theorem Sound.settle (hs : Sound L s) : Sound L (s.settle queue tag) :=
  hs.shrink ⟨rfl, rfl, rfl⟩ (fun _ _ => holds_settle) rfl

/-- **A refused message gets to its dead letters.** -/
theorem Sound.deadLetter (hs : Sound L s) (hm : m.persistent = true)
    (hq : (s.queues queue).isSome) {b : Binding N} (hb : L.dead queue = [b]) :
    s.deadLetter queue m = s.push b.queue m ∧ Sound L (s.deadLetter queue m) := by
  have hheirs : s.heirs queue = [b.queue] := hs.toDeclared.heirs hq hb
  have heq : s.deadLetter queue m = s.push b.queue m := by
    rw [Broker.deadLetter, if_neg (by simp [hheirs]), hheirs]
    rfl
  have hmem : b ∈ s.bindings := hs.backed queue hq (hb ▸ List.mem_singleton_self b)
  exact ⟨heq, heq ▸ hs.push hm (hs.bound b hmem).1⟩

/-- **Every operation that keeps to the layout keeps the broker sound.** -/
theorem Sound.exec (hs : Sound L s) (ho : o.Meets L s) : Sound L (s.exec o).2 := by
  have hdeclared := (hs.toDeclared.exec ho).1
  have hkeeps := (hs.toDeclared.exec ho).2
  have hquiet : SameStore s (s.exec o).2 → Sound L (s.exec o).2 := by
    rintro ⟨hready, hunacked, -, -, hunrouted⟩
    refine ⟨hdeclared, fun queue m hm => ?_, hunrouted.trans hs.routed⟩
    unfold Broker.Holds at hm
    rw [hready, hunacked] at hm
    obtain ⟨hp, hq⟩ := hs.stored queue m hm
    exact ⟨hp, hkeeps.queue_isSome hq⟩
  cases o with
  | assertExchange => exact hquiet (sameStore_exec s (by simp) (by simp) (by simp))
  | assertQueue => exact hquiet (sameStore_exec s (by simp) (by simp) (by simp))
  | bindQueue => exact hquiet (sameStore_exec s (by simp) (by simp) (by simp))
  | prefetch => exact hs
  | consume => exact hquiet (sameStore_exec s (by simp) (by simp) (by simp))
  | sendToQueue name m =>
    obtain ⟨a, ha⟩ := Option.isSome_iff_exists.mp ho.2
    simp only [Broker.exec, ha]
    exact (hs.push ho.1 ho.2).shrink ⟨rfl, rfl, rfl⟩ (fun _ _ h => h) rfl
  | ack name tag =>
    simp only [Broker.exec]
    split
    · exact hs
    · exact hs.settle.shrink ⟨rfl, rfl, rfl⟩ (fun _ _ h => h) rfl
  | nack name tag requeue =>
    simp only [Broker.exec]
    split
    · exact hs
    · rename_i d hd
      obtain ⟨hp, hq⟩ := hs.stored name d.message (delivered_mem hd)
      have hsettled : Sound L (s.settle name tag) := hs.settle
      cases requeue with
      | true => exact hsettled.push hp hq
      | false =>
        obtain ⟨b, hb⟩ := ho.resolve_left (by simp)
        exact (hsettled.deadLetter hp hq hb).2

theorem Sound.takeBack (hs : Sound L s) (h : s.takeBack queue tag = some s') : Sound L s' := by
  obtain ⟨d, hd, rfl⟩ := Option.map_eq_some_iff.mp h
  obtain ⟨hp, hq⟩ := hs.stored queue d.message (delivered_mem hd)
  exact Sound.push (s := s.settle queue tag) hs.settle hp hq

section Counts

variable [DecidableEq B]

theorem Sound.deliver (hs : Sound L s) (h : s.deliver queue m = some s') : Sound L s' := by
  unfold Broker.deliver at h
  split at h
  · rename_i hready
    obtain rfl := Option.some.inj h
    refine hs.shrink ⟨rfl, rfl, rfl⟩ (fun n m' hm => ?_) rfl
    rcases hm with hm | ⟨d, hd, hq, hmd⟩
    · by_cases hn : n = queue
      · subst hn
        have hmem : m' ∈ (s.ready n).erase m := by simpa using hm
        exact .inl (List.mem_of_mem_erase hmem)
      · exact .inl (by simpa [Function.update_of_ne hn] using hm)
    · rcases List.mem_cons.mp hd with rfl | hd
      · exact .inl (hq ▸ hmd ▸ hready.2)
      · exact .inr ⟨d, hd, hq, hmd⟩
  · exact absurd h (by simp)

/-- How often a queue holds a message, or had it acked. -/
def Broker.held (s : Broker N B) (queue : N) (m : Message B) : Nat :=
  (s.ready queue).count m + (s.unackedOf queue).count m + (s.acked queue).count m

/-- One message of one queue. -/
def one (queue : N) (m : Message B) (queue' : N) (m' : Message B) : Nat :=
  if queue' = queue ∧ m' = m then 1 else 0

theorem count_snoc (f : N → List (Message B)) (queue queue' : N) (m m' : Message B) :
    (Function.update f queue (f queue ++ [m]) queue').count m' =
      (f queue').count m' + one queue m queue' m' := by
  by_cases hq : queue' = queue
  · subst hq
    by_cases hm : m' = m
    · subst hm
      simp [one]
    · simp [one, hm, Ne.symm hm]
  · simp [one, hq]

theorem held_push (queue' : N) (m' : Message B) :
    (s.push queue m).held queue' m' = s.held queue' m' + one queue m queue' m' := by
  have hready := count_snoc s.ready queue queue' m m'
  have hunacked : (s.push queue m).unackedOf queue' = s.unackedOf queue' := rfl
  unfold Broker.held
  rw [hunacked]
  show (Function.update s.ready queue (s.ready queue ++ [m]) queue').count m' + _ +
    (s.acked queue').count m' = _
  omega

theorem held_settle (h : s.delivered queue tag = some d) (queue' : N) (m' : Message B) :
    (s.settle queue tag).held queue' m' + one queue d.message queue' m' = s.held queue' m' := by
  obtain ⟨l, l', hl, hsettled, hq⟩ := delivered_split h
  have hunacked : ((s.settle queue tag).unackedOf queue').count m' +
      one queue d.message queue' m' = (s.unackedOf queue').count m' := by
    unfold Broker.unackedOf
    rw [hsettled, hl, List.filter_append, List.filter_append, List.map_append, List.map_append,
      List.count_append, List.count_append]
    by_cases hqueue : queue' = queue
    · subst hqueue
      rw [List.filter_cons_of_pos (by simpa using hq), List.map_cons, List.count_cons]
      by_cases hm : m' = d.message
      · simp [one, hm]
        omega
      · simp [one, hm, Ne.symm hm]
    · have hne : d.queue ≠ queue' := fun hd => hqueue (hd.symm.trans hq)
      rw [List.filter_cons_of_neg (by simpa using hne)]
      simp [one, hqueue]
  unfold Broker.held
  show (s.ready queue').count m' + _ + (s.acked queue').count m' + _ = _
  omega

/-- **What the queues of `C` took, they hold.** -/
def Conserves (C : Finset N) (s : Broker N B) : Prop :=
  ∀ m, ∑ queue ∈ C, (s.accepted queue).count m = ∑ queue ∈ C, s.held queue m

/-- The dead letters of `C` stay in `C`, and no others get there. -/
def Layout.Closed (L : Layout N) (C : Finset N) : Prop :=
  ∀ queue b, L.dead queue = [b] → (queue ∈ C ↔ b.queue ∈ C)

variable {C : Finset N}

theorem sum_one (C : Finset N) (queue : N) (m m' : Message B) :
    ∑ queue' ∈ C, one queue m queue' m' = if queue ∈ C ∧ m' = m then 1 else 0 := by
  by_cases hm : m' = m
  · subst hm
    simp [one]
  · simp [one, hm]

theorem sum_held_push (s : Broker N B) (queue : N) (m : Message B) (C : Finset N) (m' : Message B) :
    ∑ n ∈ C, (s.push queue m).held n m' =
      ∑ n ∈ C, s.held n m' + if queue ∈ C ∧ m' = m then 1 else 0 := by
  rw [← sum_one, ← Finset.sum_add_distrib]
  exact Finset.sum_congr rfl fun n _ => held_push n m'

theorem sum_held_settle (C : Finset N) (h : s.delivered queue tag = some d) (m' : Message B) :
    ∑ n ∈ C, (s.settle queue tag).held n m' + (if queue ∈ C ∧ m' = d.message then 1 else 0) =
      ∑ n ∈ C, s.held n m' := by
  rw [← sum_one, ← Finset.sum_add_distrib]
  exact Finset.sum_congr rfl fun n _ => held_settle h n m'

/-- Nothing changed for the queues of `C`. -/
theorem Conserves.congr (h : Conserves C s) (haccepted : s'.accepted = s.accepted)
    (hheld : ∀ queue m, s'.held queue m = s.held queue m) : Conserves C s' := by
  intro m
  rw [haccepted, Finset.sum_congr rfl fun n _ => hheld n m]
  exact h m

theorem conserves_empty (C : Finset N) : Conserves C (Broker.empty : Broker N B) := by
  intro m
  simp [Broker.held, Broker.empty, Broker.unackedOf]

/-- A message that is settled and goes to a queue of the same group. -/
theorem Conserves.move (h : Conserves C s) {queue' : N} (hd : s.delivered queue tag = some d)
    (hC : queue ∈ C ↔ queue' ∈ C) :
    Conserves C ((s.settle queue tag).push queue' d.message) := by
  intro m
  have hpush := sum_held_push (s.settle queue tag) queue' d.message C m
  have hsettle := sum_held_settle C hd m
  have hsame : (if queue' ∈ C ∧ m = d.message then 1 else 0) =
      if queue ∈ C ∧ m = d.message then 1 else 0 := by simp only [hC]
  rw [hpush, hsame, hsettle]
  exact h m

/-- **Every operation conserves the messages of a group** that its dead letters do not leave. -/
theorem Conserves.exec (h : Conserves C s) (hC : L.Closed C) (hs : Sound L s)
    (ho : o.Meets L s) : Conserves C (s.exec o).2 := by
  have hquiet : SameStore s (s.exec o).2 → Conserves C (s.exec o).2 := by
    rintro ⟨hready, hunacked, haccepted, hacked, -⟩
    refine h.congr haccepted fun n m => ?_
    unfold Broker.held Broker.unackedOf
    rw [hready, hunacked, hacked]
  cases o with
  | assertExchange => exact hquiet (sameStore_exec s (by simp) (by simp) (by simp))
  | assertQueue => exact hquiet (sameStore_exec s (by simp) (by simp) (by simp))
  | bindQueue => exact hquiet (sameStore_exec s (by simp) (by simp) (by simp))
  | prefetch => exact h
  | consume => exact hquiet (sameStore_exec s (by simp) (by simp) (by simp))
  | sendToQueue name m =>
    obtain ⟨a, ha⟩ := Option.isSome_iff_exists.mp ho.2
    simp only [Broker.exec, ha]
    intro m'
    have hpush := sum_held_push s name m C m'
    have haccepted : ∑ n ∈ C, (Function.update s.accepted name (s.accepted name ++ [m]) n).count m'
        = ∑ n ∈ C, (s.accepted n).count m' + if name ∈ C ∧ m' = m then 1 else 0 := by
      rw [← sum_one, ← Finset.sum_add_distrib]
      exact Finset.sum_congr rfl fun n _ => count_snoc s.accepted name n m m'
    exact haccepted.trans ((congrArg (· + _) (h m')).trans hpush.symm)
  | ack name tag =>
    simp only [Broker.exec]
    split
    · exact h
    · rename_i d hd
      refine h.congr rfl fun n m' => ?_
      have hacked := count_snoc s.acked name n d.message m'
      have hsettle := held_settle hd n m'
      unfold Broker.held at hsettle ⊢
      show (s.ready n).count m' + ((s.settle name tag).unackedOf n).count m' +
        (Function.update s.acked name (s.acked name ++ [d.message]) n).count m' = _
      have hsettled : ((s.settle name tag).ready n).count m' +
          ((s.settle name tag).unackedOf n).count m' + ((s.settle name tag).acked n).count m' =
          (s.ready n).count m' + ((s.settle name tag).unackedOf n).count m' +
            (s.acked n).count m' := rfl
      omega
  | nack name tag requeue =>
    simp only [Broker.exec]
    split
    · exact h
    · rename_i d hd
      obtain ⟨hp, hq⟩ := hs.stored name d.message (delivered_mem hd)
      cases requeue with
      | true => exact h.move hd Iff.rfl
      | false =>
        obtain ⟨b, hb⟩ := ho.resolve_left (by simp)
        have hsettled : Sound L (s.settle name tag) := hs.settle
        have heq := (hsettled.deadLetter hp hq hb).1
        show Conserves C ((s.settle name tag).deadLetter name d.message)
        rw [heq]
        exact h.move hd (hC name b hb)

theorem Conserves.takeBack (h : Conserves C s) (ht : s.takeBack queue tag = some s') :
    Conserves C s' := by
  obtain ⟨d, hd, rfl⟩ := Option.map_eq_some_iff.mp ht
  exact h.move hd Iff.rfl

theorem Conserves.deliver (h : Conserves C s) (hd : s.deliver queue m = some s') :
    Conserves C s' := by
  unfold Broker.deliver at hd
  split at hd
  · rename_i hready
    obtain rfl := Option.some.inj hd
    refine h.congr rfl fun n m' => ?_
    by_cases hn : n = queue
    · subst hn
      have hcount : 0 < (s.ready n).count m := List.count_pos_iff.mpr hready.2
      by_cases hm : m' = m
      · subst hm
        simp [Broker.held, Broker.unackedOf]
        omega
      · simp [Broker.held, Broker.unackedOf, List.count_erase_of_ne hm, Ne.symm hm]
    · simp [Broker.held, Broker.unackedOf, hn, Ne.symm hn]
  · exact absurd hd (by simp)

/-- What a sound broker keeps over a restart. -/
theorem count_survivors (hL : L.Durable) (hs : Sound L s) (queue : N) (m : Message B) :
    (s.survivors queue).count m = (s.unackedOf queue).count m + (s.ready queue).count m := by
  have hholds : ∀ m' ∈ s.unackedOf queue ++ s.ready queue, s.Holds queue m' := by
    intro m' hm'
    rcases List.mem_append.mp hm' with h | h
    · obtain ⟨d, hd, rfl⟩ := List.mem_map.mp h
      exact .inr ⟨d, (List.mem_filter.mp hd).1, by simpa using (List.mem_filter.mp hd).2, rfl⟩
    · exact .inl h
  have hall : (s.unackedOf queue ++ s.ready queue).filter Message.persistent =
      s.unackedOf queue ++ s.ready queue :=
    List.filter_eq_self.mpr fun m' hm' => (hs.stored queue m' (hholds m' hm')).1
  rw [← List.count_append]
  rcases hq : s.queues queue with - | ⟨durable, x, key⟩
  · have hnil : s.unackedOf queue ++ s.ready queue = [] := by
      refine List.eq_nil_iff_forall_not_mem.mpr fun m' hm' => ?_
      exact absurd (hs.stored queue m' (hholds m' hm')).2 (by simp [hq])
    simp [Broker.survivors, hq, hnil]
  · have hdurable : durable = true := hL.queue queue _ (hs.queues queue _ hq)
    subst hdurable
    simp only [Broker.survivors, hq, hall]

/-- **A restart loses nothing.** -/
theorem Conserves.restart (h : Conserves C s) (hL : L.Durable) (hs : Sound L s) :
    Conserves C s.restart := by
  refine h.congr rfl fun n m => ?_
  have hsurvivors := count_survivors hL hs n m
  have hunacked : (s.restart.unackedOf n).count m = 0 := rfl
  unfold Broker.held
  show (s.survivors n).count m + _ + (s.acked n).count m = _
  omega

theorem Sound.restart (hs : Sound L s) (hL : L.Durable) : Sound L s.restart := by
  refine hs.shrink (sameLayout_restart hL hs.toDeclared) (fun n m hm => ?_) rfl
  have hmem : m ∈ s.survivors n := hm.resolve_right fun ⟨d, hd, _⟩ => absurd hd (by
    simp [Broker.restart])
  have hcount := List.count_pos_iff.mpr hmem
  rw [count_survivors hL hs, ← List.count_append, List.count_pos_iff] at hcount
  rcases List.mem_append.mp hcount with h | h
  · obtain ⟨d, hd, rfl⟩ := List.mem_map.mp h
    exact .inr ⟨d, (List.mem_filter.mp hd).1, by simpa using (List.mem_filter.mp hd).2, rfl⟩
  · exact .inl h

/-- **A queue that nobody publishes to and nobody consumes**: it only has dead letters. -/
structure Idle (queue : N) (s : Broker N B) : Prop where
  consumed : queue ∉ s.consumed
  accepted : s.accepted queue = []
  unacked : ∀ d ∈ s.unacked, d.queue ≠ queue
  acked : s.acked queue = []

omit [DecidableEq N] [DecidableEq B] in
theorem idle_empty (queue : N) : Idle queue (Broker.empty : Broker N B) :=
  ⟨by simp [Broker.empty], rfl, fun d hd => absurd hd (by simp [Broker.empty]), rfl⟩

omit [DecidableEq N] [DecidableEq B] in
theorem Idle.shrink (h : Idle queue s) (hconsumed : s'.consumed = s.consumed)
    (haccepted : s'.accepted = s.accepted) (hunacked : s'.unacked ⊆ s.unacked)
    (hacked : s'.acked = s.acked) : Idle queue s' where
  consumed := hconsumed ▸ h.consumed
  accepted := haccepted ▸ h.accepted
  unacked d hd := h.unacked d (hunacked hd)
  acked := hacked ▸ h.acked

omit [DecidableEq B] in
theorem Idle.settle {queue' : N} (h : Idle queue s) : Idle queue (s.settle queue' tag) :=
  h.shrink rfl rfl List.eraseP_subset rfl

omit [DecidableEq B] in
/-- Dead letters may get there. -/
theorem Idle.deadLetter {queue' : N} (h : Idle queue s) : Idle queue (s.deadLetter queue' m) := by
  have hpush : ∀ (heirs : List N) (s : Broker N B), Idle queue s →
      Idle queue (heirs.foldl (fun s heir => s.push heir m) s) := by
    intro heirs
    induction heirs with
    | nil => exact fun _ h => h
    | cons heir heirs ih => exact fun s h => ih _ (h.shrink rfl rfl (List.Subset.refl _) rfl)
  unfold Broker.deadLetter
  split
  · exact h.shrink rfl rfl (List.Subset.refl _) rfl
  · exact hpush _ s h

omit [DecidableEq B] in
theorem Idle.exec (h : Idle queue s) (hconsume : o ≠ .consume queue)
    (hsend : ∀ m, o ≠ .sendToQueue queue m) : Idle queue (s.exec o).2 := by
  have hsubset := List.Subset.refl s.unacked
  cases o with
  | assertExchange name args =>
    simp only [Broker.exec]
    split
    · exact h.shrink rfl rfl hsubset rfl
    · split <;> exact h
  | assertQueue name args =>
    simp only [Broker.exec]
    split
    · exact h.shrink rfl rfl hsubset rfl
    · split <;> exact h
  | bindQueue b =>
    simp only [Broker.exec]
    split
    · exact h
    · split
      · exact h
      · exact h.shrink rfl rfl hsubset rfl
  | prefetch => exact h
  | consume name =>
    have hne : queue ≠ name := fun hq => hconsume (hq ▸ rfl)
    simp only [Broker.exec]
    split
    · exact h
    · refine ⟨fun hmem => ?_, h.accepted, h.unacked, h.acked⟩
      rcases List.mem_cons.mp hmem with hq | hq
      · exact hne hq
      · exact h.consumed hq
  | sendToQueue name m =>
    have hne : queue ≠ name := fun hq => hsend m (hq ▸ rfl)
    simp only [Broker.exec]
    split
    · exact h.shrink rfl rfl hsubset rfl
    · exact ⟨h.consumed, (Function.update_of_ne hne _ _).trans h.accepted, h.unacked, h.acked⟩
  | ack name tag =>
    simp only [Broker.exec]
    split
    · exact h
    · rename_i d hd
      obtain ⟨l, l', hl, -, hq⟩ := delivered_split hd
      have hne : queue ≠ name := by
        rintro rfl
        exact h.unacked d (hl ▸ List.mem_append_right l List.mem_cons_self) hq
      exact ⟨h.consumed, h.accepted, h.settle.unacked,
        (Function.update_of_ne hne _ _).trans h.acked⟩
  | nack name tag requeue =>
    simp only [Broker.exec]
    split
    · exact h
    · split
      · exact h.settle.shrink rfl rfl (List.Subset.refl _) rfl
      · exact Idle.deadLetter (s := s.settle name tag) h.settle

omit [DecidableEq B] in
theorem Idle.takeBack {queue' : N} (h : Idle queue s) (ht : s.takeBack queue' tag = some s') :
    Idle queue s' := by
  obtain ⟨d, -, rfl⟩ := Option.map_eq_some_iff.mp ht
  exact h.settle.shrink rfl rfl (List.Subset.refl _) rfl

omit [DecidableEq B] in
theorem Idle.restart (h : Idle queue s) : Idle queue s.restart :=
  ⟨by simp [Broker.restart], h.accepted, fun d hd => absurd hd (by simp [Broker.restart]), h.acked⟩

/-- Nothing is delivered from a queue without consumers. -/
theorem Idle.deliver {queue' : N} (h : Idle queue s) (hd : s.deliver queue' m = some s') :
    Idle queue s' := by
  unfold Broker.deliver at hd
  split at hd
  · rename_i hready
    have hne : queue' ≠ queue := fun hq => h.consumed (hq ▸ hready.1)
    obtain rfl := Option.some.inj hd
    exact ⟨h.consumed, h.accepted, List.forall_mem_cons.mpr ⟨hne, h.unacked⟩, h.acked⟩
  · exact absurd hd (by simp)

theorem Idle.held (h : Idle queue s) (m : Message B) :
    s.held queue m = (s.ready queue).count m := by
  have hnil : s.unackedOf queue = [] :=
    List.map_eq_nil_iff.mpr (List.filter_eq_nil_iff.mpr fun d hd => by simpa using h.unacked d hd)
  simp [Broker.held, hnil, h.acked]

end Counts

end Amqp
