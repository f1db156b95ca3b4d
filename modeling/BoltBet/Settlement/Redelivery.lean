import BoltBet.Async.Sequential
import BoltBet.Settlement.Stranded

/-!
# Are redeliveries harmless?

The worker recognises a duplicate by its failure: `transitionStatus` throws, and if the bet is in a
terminal state the message is acked. `ACCEPTED` is not terminal. So a delivery after a crash before
the ack, when the bet is accepted and not settled yet, dead-letters its message
(`redelivery_dead_lettered`).

* `Trail`: what is left of a delivery that starts when the bet is past `PENDING`. It reads twice and
  acks, if the second read does not find `ACCEPTED`.
* `acceptance_once`: deliveries that do not overlap accept the bet once, and what they do to its
  status is what the one does.
* `redelivery_harmless`: so both, in every run whose redeliveries check the bet after its
  settlement.
-/

namespace BoltBet

open Async

/-- A delivery of the message of the bet. -/
def DeliversBet (betId : Uuid) : ApiCall → Prop
  | .delivery _ payload => payload.betId = betId
  | _ => False

instance (betId : Uuid) : DecidablePred (DeliversBet betId)
  | .delivery _ _ => inferInstanceAs (Decidable (_ = _))
  | .getBalance _ | .deposit _ _ | .placeBet _ _ _ | .createMarket _ | .suspend _ | .reopen _
  | .settle _ _ => inferInstanceAs (Decidable False)

/-- No operation of these deliveries fails. -/
def DeliveriesAnswered (betId : Uuid) (c : Config api) : Event api → Prop
  | .run i m => ∀ x ∈ c.waiting i, DeliversBet betId x.1 → IsOk m
  | _ => True

/-- **Deliveries of one bet**: they do not overlap and the database does not fail them. They may
crash, and RabbitMQ may take back and duplicate messages as it likes. -/
def Redelivered (betId : Uuid) (c : Config api) (e : Event api) : Prop :=
  Config.OneOf (DeliversBet betId) c e ∧ DeliveriesAnswered betId c e

/-- **The condition**: no delivery makes the second of its reads, the check for a terminal state,
while the bet is `ACCEPTED`. -/
def ChecksSettled (betId : Uuid) (c : Config api) (e : Event api) : Prop :=
  c.When (fun (c : Config api) i call (o : ApiOp) => DeliversBet betId call →
    o = .betFindById betId → (∃ x ∈ c.trace, x.tid = i) →
    c.state.betStatus betId ≠ some .ACCEPTED) e

/-- The status that these operations leave, the last one first. -/
def statusAfter (betId : Uuid) : List (Entry api) → BetStatus
  | [] => .PENDING
  | x :: l =>
    match x.took, x.op with
    | true, .betUpdate id status => if id = betId then status else statusAfter betId l
    | _, _ => statusAfter betId l

namespace SettlementWorker

/-- What is left of a delivery whose transition threw. -/
def checking (tag : Nat) (payload : BetPlacementPayload) : Prog ApiSig ApiReply := do
  Prog.tryCatch
    (Prog.tryCatch (do
      if ← (do
        if ← BettingService.isTerminalState payload.betId then
          Api.ack tag
          return true
        else .throw (.Error s!"Failed to transition bet {payload.betId} to ACCEPTED"))
      then return () else Api.ack tag) fun _ => Api.nack tag) fun _ => Api.nack tag
  return .handled

/-- What is left of a delivery that found the bet in a terminal state. -/
def acking (tag : Nat) : Prog ApiSig ApiReply := do
  Prog.tryCatch
    (Prog.tryCatch (do
      if ← (do
        Api.ack tag
        return true)
      then return () else Api.ack tag) fun _ => Api.nack tag) fun _ => Api.nack tag
  return .handled

/-- A delivery reads the bet; past `PENDING`, its transition throws. -/
theorem delivery_reads (tag : Nat) (payload : BetPlacementPayload) : ∃ k,
    ApiCall.body (.delivery tag payload) = .await (.betFindById payload.betId) k ∧
    ∀ bet, bet.status ≠ .PENDING → k (.ok (some bet)) = checking tag payload := by
  refine ⟨_, rfl, ?_⟩
  rintro ⟨id, userId, marketId, marketName, oddsInt, stakeCents, payoutCents, status, ref, c, u⟩ h
  cases status with
  | PENDING => exact absurd rfl h
  | ACCEPTED | SETTLED | VOID | CANCELLED => rfl

/-- It reads the bet again; in a terminal state, it acks. -/
theorem checking_reads (tag : Nat) (payload : BetPlacementPayload) : ∃ k,
    checking tag payload = .await (.betFindById payload.betId) k ∧
    ∀ bet, bet.status ∈ TERMINAL_STATES → k (.ok (some bet)) = acking tag := by
  refine ⟨_, rfl, ?_⟩
  rintro ⟨id, userId, marketId, marketName, oddsInt, stakeCents, payoutCents, status, ref, c, u⟩ h
  cases status with
  | PENDING | ACCEPTED => exact absurd h (by simp [TERMINAL_STATES])
  | SETTLED | VOID | CANCELLED => rfl

theorem acking_acks (tag : Nat) : ∃ k, acking tag = .await (.ack tag) k ∧
    k (.ok ()) = .ret .handled := ⟨_, rfl, rfl⟩

/-- No bet is updated. -/
def NoUpdate (o : ApiOp) : Prop := ∀ id st, o ≠ .betUpdate id st

theorem checking_noUpdate (tag : Nat) (payload : BetPlacementPayload) :
    (checking tag payload).All NoUpdate := by
  have hop : ∀ {o : ApiOp}, NoUpdate o → (Prog.perform (S := ApiSig) o).All NoUpdate :=
    fun h => Prog.All.perform (S := ApiSig) h
  have hack : (Api.ack tag).All NoUpdate := hop (by simp [NoUpdate])
  have hnack : (Api.nack tag).All NoUpdate := hop (by simp [NoUpdate])
  have hread : (BettingService.isTerminalState payload.betId).All NoUpdate :=
    Prog.All.bind (hop (by simp [NoUpdate])) fun found => by cases found <;> trivial
  refine Prog.All.bind (Prog.All.tryCatch (Prog.All.tryCatch (Prog.All.bind (Prog.All.bind hread
    fun t => ?_) fun acked => ?_) fun _ => hnack) fun _ => hnack) fun _ => trivial
  · cases t with
    | true => exact Prog.All.bind hack fun _ => trivial
    | false => trivial
  · cases acked with
    | true => trivial
    | false => exact hack

/-- What is left of a delivery that read a `PENDING` bet. -/
def updating (tag : Nat) (payload : BetPlacementPayload) : Prog ApiSig ApiReply := do
  Prog.tryCatch
    (Prog.tryCatch (do
      if ← Prog.tryCatch (do
        Api.betUpdate payload.betId .ACCEPTED
        return false) fun _ => do
          if ← BettingService.isTerminalState payload.betId then
            Api.ack tag
            return true
          else .throw (.Error s!"Failed to transition bet {payload.betId} to ACCEPTED")
      then return () else Api.ack tag) fun _ => Api.nack tag) fun _ => Api.nack tag
  return .handled

/-- A delivery updates the bet after it read `PENDING`, or not at all. -/
theorem delivery_next (tag : Nat) (payload : BetPlacementPayload) : ∃ k,
    ApiCall.body (.delivery tag payload) = .await (.betFindById payload.betId) k ∧
    ∀ r, (k r).All NoUpdate ∨
      ∃ bet, r = .ok (some bet) ∧ bet.status = .PENDING ∧ k r = updating tag payload := by
  refine ⟨_, rfl, ?_⟩
  rintro (e | _ | bet)
  · exact .inl (checking_noUpdate tag payload)
  · exact .inl (checking_noUpdate tag payload)
  · obtain ⟨id, userId, marketId, marketName, odds, stake, payout, status, ref, c, u⟩ := bet
    cases status with
    | PENDING => exact .inr ⟨_, rfl, rfl, rfl⟩
    | ACCEPTED | SETTLED | VOID | CANCELLED => exact .inl (checking_noUpdate tag payload)

theorem updating_next (tag : Nat) (payload : BetPlacementPayload) : ∃ k,
    updating tag payload = .await (.betUpdate payload.betId .ACCEPTED) k ∧
    ∀ r, (k r).All NoUpdate := by
  refine ⟨_, rfl, ?_⟩
  rintro (e | u)
  · exact checking_noUpdate tag payload
  · have hack : ∀ {o : ApiOp}, NoUpdate o → (Prog.perform (S := ApiSig) o).All NoUpdate :=
      fun h => Prog.All.perform (S := ApiSig) h
    exact Prog.All.bind (Prog.All.tryCatch (Prog.All.tryCatch (hack (by simp [NoUpdate]))
      fun _ => hack (by simp [NoUpdate])) fun _ => hack (by simp [NoUpdate])) fun _ => trivial

end SettlementWorker

namespace Redelivery

open SettlementWorker

variable {betId : Uuid} {c₁ c c' : Config api} {e : Event api} {i j : Nat} {call : ApiCall}

/-! ## A delivery after the acceptance -/

/-- A bet past `PENDING` stays so. -/
theorem pastPending_step (hc : api.Reachable (api.init .empty) c) (hs : api.step c e = some c')
    (h : c.state.PastPending betId) : c'.state.PastPending betId := by
  have hsame : ∀ {s s' : Store}, s.SameTables s' → s.PastPending betId → s'.PastPending betId := by
    rintro s s' hss ⟨st, hst, hne⟩
    exact ⟨st, (hss.betStatus betId).trans hst, hne⟩
  rcases api.step_cases hs with ⟨j, call, s, -, -, hst, rfl⟩ |
    ⟨j, m, call, o, k, r, w', -, hj, hx, rfl⟩ | ⟨j, call, o, k, -, -, rfl⟩ | ⟨v, s, -, hv, rfl⟩
  · exact hsame (start_tables hst) h
  · exact pastPending_exec hx ((StatusMachine.known hc).2 ⟨k, hj⟩).1 h
  · exact h
  · exact hsame (env_tables hv) h

/-- How far a delivery is that never finds the bet `PENDING` or, the second time, `ACCEPTED`. -/
inductive Stage (c : Config api) (i tag : Nat) (payload : BetPlacementPayload) :
    Prog ApiSig ApiReply → Prop
  | start : Stage c i tag payload (ApiCall.body (.delivery tag payload))
  | checking (hread : ∃ x ∈ c.trace, x.tid = i) : Stage c i tag payload (checking tag payload)
  | acking : Stage c i tag payload (acking tag)
  | acked (hack : ∃ x ∈ c.trace, x.tid = i ∧ x.op = .ack tag ∧ x.took = true) :
    Stage c i tag payload (.ret .handled)

/-- Such a delivery only reads the bet and acks. -/
structure Trail (betId : Uuid) (c : Config api) (i : Nat) : Prop where
  stage : ∀ tag payload prog crashed, c.threads i = some ⟨.delivery tag payload, prog, crashed⟩ →
    payload.betId = betId → Stage c i tag payload prog
  ops : ∀ tag payload, c.Started i (.delivery tag payload) → payload.betId = betId →
    ∀ x ∈ c.trace, x.tid = i → x.op = .betFindById betId ∨ x.op = .ack tag

theorem Stage.mono {tag : Nat} {payload : BetPlacementPayload} {prog : Prog ApiSig ApiReply}
    (hsub : c.trace ⊆ c'.trace) (h : Stage c i tag payload prog) : Stage c' i tag payload prog := by
  cases h with
  | start => exact .start
  | checking hread =>
    obtain ⟨x, hx, hi⟩ := hread
    exact .checking ⟨x, hsub hx, hi⟩
  | acking => exact .acking
  | acked hack =>
    obtain ⟨x, hx, h⟩ := hack
    exact .acked ⟨x, hsub hx, h⟩

/-- An answered operation of a thread. -/
theorem answered_step {m : Mode ApiChoice Err} {o : ApiOp}
    {k : Except Err o.Res → Prog ApiSig ApiReply} (hs : api.step c (.run i m) = some c')
    (hi : c.threads i = some ⟨call, .await o k, false⟩) (hm : IsOk m) :
    ∃ ch, c'.trace = ⟨i, call, o, (c.state.exec ch o).1.toBool, c.state⟩ :: c.trace ∧
      c'.threads = Function.update c.threads i (some ⟨call, k (c.state.exec ch o).1, false⟩) := by
  obtain ⟨ch, rfl⟩ := hm
  obtain ⟨r, w', ⟨_, s, took, rfl, ha, rfl⟩, rfl⟩ := api.step_run hs hi
  obtain ⟨rfl, rfl, rfl⟩ : (c.state.exec ch o).1 = r ∧ (c.state.exec ch o).2 = s ∧
      (c.state.exec ch o).1.toBool = took := by simpa [Machine.answer] using ha
  exact ⟨ch, rfl, rfl⟩

/-- A step of another thread, or of none. -/
theorem Trail.other (h : Trail betId c i) (hthreads : ∀ t, c'.threads i = some t →
      ∃ crashed, c.threads i = some { t with crashed })
    (htrace : c'.trace = c.trace ∨ ∃ x, x.tid ≠ i ∧ c'.trace = x :: c.trace) :
    Trail betId c' i := by
  have hsub : c.trace ⊆ c'.trace := by
    rcases htrace with he | ⟨x, -, he⟩
    · exact he ▸ List.Subset.refl _
    · exact he ▸ List.subset_cons_self x _
  refine ⟨fun tag payload prog crashed hi hid => ?_, fun tag payload hi hid x hx htid => ?_⟩
  · obtain ⟨crashed', hi'⟩ := hthreads _ hi
    exact (h.stage tag payload prog crashed' hi' hid).mono hsub
  · obtain ⟨prog, crashed, hi⟩ := hi
    obtain ⟨crashed', hi'⟩ := hthreads _ hi
    refine h.ops tag payload ⟨prog, crashed', hi'⟩ hid x ?_ htid
    rcases htrace with he | ⟨y, hne, he⟩
    · exact he ▸ hx
    · rcases List.mem_cons.mp (he ▸ hx) with rfl | hx
      · exact absurd htid hne
      · exact hx

/-- **The next stage of such a delivery**: past `PENDING` it goes on to check, and after the
settlement to ack. -/
theorem Stage.next {tag : Nat} {payload : BetPlacementPayload} {o : ApiOp} {ch : ApiChoice}
    {k : Except Err o.Res → Prog ApiSig ApiReply} (h : Stage c i tag payload (.await o k))
    (hvoid : c.state.NoVoid) (hpast : c.state.PastPending payload.betId)
    (htrace : c'.trace =
      ⟨i, .delivery tag payload, o, (c.state.exec ch o).1.toBool, c.state⟩ :: c.trace)
    (hcheck : o = .betFindById payload.betId → (∃ x ∈ c.trace, x.tid = i) →
      c.state.betStatus payload.betId ≠ some .ACCEPTED) :
    Stage c' i tag payload (k (c.state.exec ch o).1) ∧
      (o = .betFindById payload.betId ∨ o = .ack tag) := by
  obtain ⟨st, hst, hne⟩ := hpast
  obtain ⟨bet, hbet, rfl⟩ := Option.map_eq_some_iff.mp hst
  generalize hprog : Prog.await (S := ApiSig) o k = prog at h
  rcases h with _ | hread | _ | hack
  · obtain ⟨k₀, hk₀, hnext⟩ := delivery_reads tag payload
    obtain ⟨rfl, hk⟩ := Prog.await.inj (hprog.trans hk₀)
    obtain rfl := eq_of_heq hk
    refine ⟨?_, .inl rfl⟩
    show Stage c' i tag payload (k (.ok (c.state.bet payload.betId)))
    rw [hbet, hnext bet hne]
    exact .checking ⟨_, htrace ▸ List.mem_cons_self, rfl⟩
  · obtain ⟨k₀, hk₀, hnext⟩ := checking_reads tag payload
    obtain ⟨rfl, hk⟩ := Prog.await.inj (hprog.trans hk₀)
    obtain rfl := eq_of_heq hk
    refine ⟨?_, .inl rfl⟩
    have hterminal : bet.status ∈ TERMINAL_STATES := by
      rcases hvoid _ _ hst with hp | ha | hset
      · exact absurd hp hne
      · exact absurd (ha ▸ hst) (hcheck rfl hread)
      · rw [hset]
        decide
    show Stage c' i tag payload (k (.ok (c.state.bet payload.betId)))
    rw [hbet, hnext bet hterminal]
    exact .acking
  · obtain ⟨k₀, hk₀, hnext⟩ := acking_acks tag
    obtain ⟨rfl, hk⟩ := Prog.await.inj (hprog.trans hk₀)
    obtain rfl := eq_of_heq hk
    refine ⟨?_, .inr rfl⟩
    show Stage c' i tag payload (k (.ok ()))
    rw [hnext]
    exact .acked ⟨_, htrace ▸ List.mem_cons_self, rfl, rfl, rfl⟩
  · exact absurd hprog (by simp)

/-- **One step of such a delivery** keeps its trail. -/
theorem Trail.run {m : Mode ApiChoice Err} {tag : Nat} {payload : BetPlacementPayload} {o : ApiOp}
    {k : Except Err o.Res → Prog ApiSig ApiReply} (h : Trail betId c i)
    (hvoid : c.state.NoVoid) (hpast : c.state.PastPending betId)
    (hi : c.threads i = some ⟨.delivery tag payload, .await o k, false⟩)
    (hid : payload.betId = betId) (hm : IsOk m) (hs : api.step c (.run i m) = some c')
    (hcheck : o = .betFindById betId → (∃ x ∈ c.trace, x.tid = i) →
      c.state.betStatus betId ≠ some .ACCEPTED) : Trail betId c' i := by
  obtain ⟨ch, htrace, hthreads⟩ := answered_step hs hi hm
  subst hid
  have hnext := (h.stage tag payload _ false hi rfl).next hvoid hpast htrace hcheck
  have hthread : c'.threads i =
      some ⟨.delivery tag payload, k (c.state.exec ch o).1, false⟩ := by
    rw [hthreads, Function.update_self]
  refine ⟨fun tag' payload' prog crashed hi' _ => ?_, fun tag' payload' hi' _ x hx htid => ?_⟩
  · obtain ⟨hcall, rfl, -⟩ := Thread.mk.inj (Option.some.inj (hthread.symm.trans hi'))
    obtain ⟨rfl, rfl⟩ := ApiCall.delivery.inj hcall
    exact hnext.1
  · have hcall : ApiCall.delivery tag' payload' = .delivery tag payload :=
      hi'.unique ⟨_, _, hthread⟩
    obtain ⟨rfl, rfl⟩ := ApiCall.delivery.inj hcall
    rcases List.mem_cons.mp (htrace ▸ hx) with rfl | hx
    · exact hnext.2
    · exact h.ops tag' payload' ⟨_, _, hi⟩ rfl x hx htid

/-- **Every step** keeps the trail of a delivery that starts past `PENDING`. -/
theorem trail_step (hc : api.Reachable (api.init .empty) c) (hpast : c.state.PastPending betId)
    (hok : DeliveriesAnswered betId c e) (hcheck : ChecksSettled betId c e)
    (hs : api.step c e = some c') (h : Trail betId c i) : Trail betId c' i := by
  have hstep := hs
  rcases api.step_cases hs with ⟨j, call, s, rfl, hj, -, rfl⟩ |
    ⟨j, m, call, o, k, r, w', rfl, hj, hx, rfl⟩ | ⟨j, call, o, k, rfl, hj, rfl⟩ |
    ⟨v, s, rfl, -, rfl⟩
  · by_cases hi : i = j
    · subst hi
      refine ⟨fun tag payload prog crashed hi hid => ?_, fun tag payload _ _ x hx htid => ?_⟩
      · obtain ⟨rfl, rfl, -⟩ : call = .delivery tag payload ∧ ApiCall.body call = prog ∧ _ := by
          simpa using hi
        exact .start
      · obtain ⟨_, _, hstarted⟩ := api.entry_started hc x hx
        exact absurd (hj.symm.trans (htid ▸ hstarted)) (by simp)
    · refine h.other (fun t ht => ⟨t.crashed, ?_⟩) (.inl rfl)
      exact (Function.update_of_ne hi _ _).symm.trans ht
  · by_cases hi : i = j
    · subst hi
      by_cases hcall : DeliversBet betId call
      · cases call with
        | delivery tag payload =>
          refine h.run (StatusMachine.known hc).1 hpast hj hcall ?_ hstep fun ho hread => ?_
          · exact hok (_, o) (Config.Waits.waiting ⟨k, hj⟩) hcall
          · exact hcheck.run ⟨k, hj⟩ hcall ho hread
        | _ => exact absurd hcall id
      · -- a call of another kind: nothing is said of it
        have hnot : ∀ {c'' : Config api} {tag payload}, c''.Started i (.delivery tag payload) →
            c''.Started i call → payload.betId ≠ betId := by
          intro c'' tag payload hd hcall' hid
          exact hcall (hd.unique hcall' ▸ hid)
        have hcall' : Config.Started ⟨w', Function.update c.threads i (some ⟨call, k r, false⟩)⟩ i
            call := ⟨_, _, Function.update_self ..⟩
        refine ⟨fun tag payload prog crashed hi hid => ?_, fun tag payload hi hid => ?_⟩
        · exact absurd hid (hnot ⟨_, _, hi⟩ hcall')
        · exact absurd hid (hnot hi hcall')
    · obtain ⟨took, htr⟩ := hx.entry
      refine h.other (fun t ht => ⟨t.crashed, ?_⟩) (.inr ⟨_, Ne.symm hi, htr⟩)
      exact (Function.update_of_ne hi _ _).symm.trans ht
  · refine h.other (fun t ht => ?_) (.inl rfl)
    by_cases hi : i = j
    · subst hi
      obtain rfl : (⟨call, .await o k, true⟩ : Thread api) = t := by simpa using ht
      exact ⟨false, hj⟩
    · exact ⟨t.crashed, (Function.update_of_ne hi _ _).symm.trans ht⟩
  · exact h.other (fun t ht => ⟨t.crashed, ht⟩) (.inl rfl)

/-! ## One acceptance -/

/-- The operation wrote `ACCEPTED` to the bet. -/
def Accepts (betId : Uuid) (x : Entry api) : Prop :=
  x.took = true ∧ x.op = .betUpdate betId .ACCEPTED

/-- Deliveries of the bet update it while it is `PENDING`. -/
def UpdatesPending (betId : Uuid) (c : Config api) : Prop :=
  ∀ i tag payload prog crashed, c.threads i = some ⟨.delivery tag payload, prog, crashed⟩ →
    payload.betId = betId → prog = ApiCall.body (.delivery tag payload) ∨
      (prog = updating tag payload ∧ (crashed = false → c.state.betStatus betId = some .PENDING)) ∨
      prog.All NoUpdate

/-- What deliveries without overlap did to the bet. -/
structure AcceptedOnce (betId : Uuid) (c : Config api) : Prop where
  pending : UpdatesPending betId c
  past : (∃ x ∈ c.trace, Accepts betId x) → c.state.PastPending betId
  once : ∃ d, ∀ x ∈ c.trace, Accepts betId x → x.tid = d
  status : (c.state.betStatus betId).getD .PENDING = statusAfter betId c.trace

/-- Who is about to accept the bet delivers its message, and the bet is `PENDING`. -/
theorem UpdatesPending.of_waits (h : UpdatesPending betId c)
    (hc : api.Reachable (api.init .empty) c) (hw : c.Waits i call (.betUpdate betId .ACCEPTED)) :
    DeliversBet betId call ∧ c.state.betStatus betId = some .PENDING := by
  have hfoot : Footprint call (.betUpdate betId .ACCEPTED) := api.waits_all body_footprint hc hw
  obtain ⟨k, hk⟩ := hw
  generalize ho : ApiOp.betUpdate betId .ACCEPTED = o at hfoot
  cases hfoot with
  | accept tag payload =>
    obtain ⟨rfl, -⟩ := ApiOp.betUpdate.inj ho
    refine ⟨rfl, ?_⟩
    rcases h i tag payload _ false hk rfl with hprog | ⟨-, hst⟩ | hno
    · obtain ⟨k₀, hk₀, -⟩ := delivery_next tag payload
      exact absurd (Prog.await.inj (hprog.trans hk₀)).1 (by simp)
    · exact hst rfl
    · exact absurd rfl (hno.1 payload.betId .ACCEPTED)
  | _ => exact absurd ho (by simp)

theorem UpdatesPending.same {s : Store} (h : UpdatesPending betId c)
    (hss : c.state.SameTables s) : UpdatesPending betId ⟨⟨s, c.trace⟩, c.threads⟩ := by
  intro i tag payload prog crashed hi hid
  rcases h i tag payload prog crashed hi hid with hprog | ⟨hprog, hst⟩ | hno
  · exact .inl hprog
  · exact .inr (.inl ⟨hprog, fun hb => (hss.betStatus betId).trans (hst hb)⟩)
  · exact .inr (.inr hno)

/-- A step of one of the deliveries. -/
theorem updatesPending_self {tag : Nat} {payload : BetPlacementPayload} {o : ApiOp}
    {k : Except Err o.Res → Prog ApiSig ApiReply} {r : Except Err o.Res} {w' : World api}
    (h : UpdatesPending betId c) (hid : payload.betId = betId)
    (hi : c.threads i = some ⟨.delivery tag payload, .await o k, false⟩)
    (hx : api.Exec i (.delivery tag payload) o c.toWorld r w') :
    (k r = updating tag payload ∧ w'.state.betStatus betId = some .PENDING) ∨
      (k r).All NoUpdate := by
  subst hid
  rcases h i tag payload _ false hi rfl with hprog | ⟨hprog, -⟩ | hno
  · obtain ⟨k₀, hk₀, hnext⟩ := delivery_next tag payload
    obtain ⟨rfl, hk⟩ := Prog.await.inj (hprog.trans hk₀)
    obtain rfl := eq_of_heq hk
    rcases hnext r with hno | ⟨bet, rfl, hst, hk⟩
    · exact .inr hno
    · obtain ⟨hbet, hsame⟩ := api_betFindById_ok hx
      refine .inl ⟨hk, ?_⟩
      unfold Store.betStatus
      rw [hsame, ← hbet, ← hst]
      rfl
  · obtain ⟨k₀, hk₀, hnext⟩ := updating_next tag payload
    obtain ⟨rfl, hk⟩ := Prog.await.inj (hprog.trans hk₀)
    obtain rfl := eq_of_heq hk
    exact .inr (hnext r)
  · exact .inr (hno.2 r)

/-- An operation of another thread: without overlap, nobody else accepts the bet. -/
theorem pending_other {o : ApiOp} {r : Except Err o.Res} {w' : World api}
    (hc : api.Reach (Redelivered betId) (api.init .empty) c) (h : UpdatesPending betId c)
    (hw : c.Waits j call o) (hx : api.Exec j call o c.toWorld r w') (hij : i ≠ j)
    {call' : ApiCall} {o' : ApiOp} (hcall' : DeliversBet betId call')
    (hi : c.Waits i call' o') (hst : c.state.betStatus betId = some .PENDING) :
    w'.state.betStatus betId = some .PENDING := by
  have hreach : api.Reachable (api.init .empty) c := hc.mono fun _ _ _ => trivial
  obtain ⟨took, htr⟩ := hx.entry
  rcases api_betStatus_cases hx htr betId with he | ⟨d, -, hn, -⟩ | ⟨st, st', -, rfl, -, -⟩
  · exact he.trans hst
  · exact absurd (hn.symm.trans hst) (by simp)
  · rcases ((StatusMachine.known hreach).2 hw).1.settles betId st rfl with rfl | ⟨-, hne⟩
    · have hone : api.Reach (Config.OneOf (DeliversBet betId)) (api.init .empty) c :=
        hc.mono fun _ _ h => h.1
      exact absurd (api.waits_unique hone hi hw hcall' (h.of_waits hreach hw).1) hij
    · exact absurd hst hne

/-- An operation that does not write the bet does not matter to its status. -/
theorem statusAfter_cons_other {x : Entry api} {l : List (Entry api)}
    (hx : x.took = true → ∀ st, x.op ≠ .betUpdate betId st) :
    statusAfter betId (x :: l) = statusAfter betId l := by
  obtain ⟨tid, call, o, took, before⟩ := x
  cases took with
  | false => rfl
  | true =>
    cases o with
    | betUpdate id st =>
      have hne : id ≠ betId := fun he => hx rfl st (by rw [he])
      simp [statusAfter, hne]
    | _ => rfl

/-- The status after one more operation. -/
theorem statusAfter_exec {o : ApiOp} {r : Except Err o.Res} {w w' : World api}
    (hx : api.Exec i call o w r w') (ho : w.state.MayRun o)
    (h : (w.state.betStatus betId).getD .PENDING = statusAfter betId w.trace) :
    (w'.state.betStatus betId).getD .PENDING = statusAfter betId w'.trace := by
  obtain ⟨took, htr⟩ := hx.entry
  rw [htr]
  by_cases hwrites : took = true ∧ ∃ st, o = .betUpdate betId st
  · obtain ⟨rfl, st, rfl⟩ := hwrites
    have hfound := ho.found betId st rfl
    obtain ⟨st', hst'⟩ := Option.ne_none_iff_exists'.mp hfound
    rw [api_betUpdate hx htr rfl, hst']
    simp [statusAfter]
  · rw [statusAfter_cons_other fun ht st ho => hwrites ⟨ht, st, ho⟩, ← h]
    rcases api_betStatus_cases hx htr betId with he | ⟨d, rfl, hn, he⟩ | ⟨st, st', ht, rfl, -, -⟩
    · rw [he]
    · rw [he, hn, ho.pending d rfl]
      rfl
    · exact absurd ⟨ht, st, rfl⟩ hwrites

/-- An operation that was run. -/
theorem acceptedOnce_run {o : ApiOp}
    {k : Except Err o.Res → Prog ApiSig ApiReply} {r : Except Err o.Res} {w' : World api}
    (hc : api.Reach (Redelivered betId) (api.init .empty) c) (h : AcceptedOnce betId c)
    (hj : c.threads j = some ⟨call, .await o k, false⟩) (hx : api.Exec j call o c.toWorld r w') :
    AcceptedOnce betId ⟨w', Function.update c.threads j (some ⟨call, k r, false⟩)⟩ := by
  have hreach : api.Reachable (api.init .empty) c := hc.mono fun _ _ _ => trivial
  have hmay := ((StatusMachine.known hreach).2 ⟨k, hj⟩).1
  obtain ⟨took, htr⟩ := hx.entry
  -- who accepts the bet now is the first to do so
  have hfirst : took = true → o = .betUpdate betId .ACCEPTED →
      (∀ x ∈ c.trace, ¬ Accepts betId x) ∧ w'.state.betStatus betId = some .ACCEPTED := by
    rintro rfl rfl
    have hst := (h.pending.of_waits hreach ⟨k, hj⟩).2
    refine ⟨fun x hxt ha => ?_, ?_⟩
    · obtain ⟨st, hst', hne⟩ := h.past ⟨x, hxt, ha⟩
      exact hne (Option.some.inj (hst'.symm.trans hst))
    · rw [api_betUpdate hx htr rfl, hst]
      rfl
  refine ⟨fun i tag payload prog crashed hi hid => ?_, ?_, ?_, statusAfter_exec hx hmay h.status⟩
  · rcases thread_update hi with ⟨rfl, ht⟩ | ⟨hij, hi⟩
    · obtain ⟨rfl, rfl, rfl⟩ := Thread.mk.inj ht
      rcases updatesPending_self h.pending hid hj hx with ⟨hk, hst⟩ | hno
      · exact .inr (.inl ⟨hk, fun _ => hst⟩)
      · exact .inr (.inr hno)
    · rcases h.pending i tag payload prog crashed hi hid with hprog | ⟨hprog, hst⟩ | hno
      · exact .inl hprog
      · refine .inr (.inl ⟨hprog, fun hb => ?_⟩)
        obtain ⟨k₀, hk₀, -⟩ := updating_next tag payload
        subst hb
        have hcall : DeliversBet betId (.delivery tag payload) := hid
        exact pending_other hc h.pending ⟨k, hj⟩ hx hij hcall ⟨k₀, by rw [hi, hprog, hk₀]⟩
          (hst rfl)
      · exact .inr (.inr hno)
  · rintro ⟨x, hxt, ha⟩
    rcases List.mem_cons.mp (htr ▸ hxt) with rfl | hxt
    · exact ⟨.ACCEPTED, (hfirst ha.1 ha.2).2, by simp⟩
    · exact pastPending_exec hx hmay (h.past ⟨x, hxt, ha⟩)
  · by_cases hnow : took = true ∧ o = .betUpdate betId .ACCEPTED
    · refine ⟨j, fun x hxt ha => ?_⟩
      rcases List.mem_cons.mp (htr ▸ hxt) with rfl | hxt
      · rfl
      · exact absurd ha ((hfirst hnow.1 hnow.2).1 x hxt)
    · obtain ⟨d, hd⟩ := h.once
      refine ⟨d, fun x hxt ha => ?_⟩
      rcases List.mem_cons.mp (htr ▸ hxt) with rfl | hxt
      · exact absurd ha hnow
      · exact hd x hxt ha

theorem AcceptedOnce.same {s : Store} (h : AcceptedOnce betId c)
    (hss : c.state.SameTables s) : AcceptedOnce betId ⟨⟨s, c.trace⟩, c.threads⟩ := by
  refine ⟨h.pending.same hss, fun hx => ?_, h.once, ?_⟩
  · obtain ⟨st, hst, hne⟩ := h.past hx
    exact ⟨st, (hss.betStatus betId).trans hst, hne⟩
  · show (s.betStatus betId).getD .PENDING = _
    rw [hss.betStatus, h.status]

/-- **The bet is accepted once.** -/
theorem acceptance_once (h : api.Reach (Redelivered betId) (api.init .empty) c) :
    AcceptedOnce betId c := by
  induction h with
  | init =>
    refine ⟨fun i tag payload prog crashed hi => ?_, ?_, ⟨0, ?_⟩, rfl⟩
    · exact absurd hi (by simp [Machine.init])
    · rintro ⟨x, hx, -⟩
      exact absurd hx (by simp [Machine.init])
    · exact fun x hx => absurd hx (by simp [Machine.init])
  | @step c c' e hc _ hs ih =>
    rcases api.step_cases hs with ⟨j, call, s, rfl, hj, hst, rfl⟩ |
      ⟨j, m, call, o, k, r, w', rfl, hj, hx, rfl⟩ | ⟨j, call, o, k, rfl, hj, rfl⟩ |
      ⟨v, s, rfl, hv, rfl⟩
    · obtain ⟨hpending, hpast, honce, hstatus⟩ := ih.same (start_tables hst)
      refine ⟨fun i tag payload prog crashed hi hid => ?_, hpast, honce, hstatus⟩
      rcases thread_update hi with ⟨rfl, ht⟩ | ⟨-, hi⟩
      · obtain ⟨rfl, rfl, -⟩ := Thread.mk.inj ht
        exact .inl rfl
      · exact hpending i tag payload prog crashed hi hid
    · exact acceptedOnce_run hc ih hj hx
    · refine ⟨fun i tag payload prog crashed hi hid => ?_, ih.past, ih.once, ih.status⟩
      rcases thread_update hi with ⟨rfl, ht⟩ | ⟨-, hi⟩
      · obtain ⟨rfl, rfl, rfl⟩ := Thread.mk.inj ht
        rcases ih.pending i tag payload _ false hj hid with hprog | ⟨hprog, -⟩ | hno
        · exact .inl hprog
        · exact .inr (.inl ⟨hprog, fun hb => absurd hb (by simp)⟩)
        · exact .inr (.inr hno)
      · exact ih.pending i tag payload prog crashed hi hid
    · exact ih.same (env_tables hv)

/-- Operations that do not write the bet do not matter to its status. -/
theorem statusAfter_filter {keep : Entry api → Bool} {l : List (Entry api)}
    (h : ∀ x ∈ l, keep x = false → x.took = true → ∀ st, x.op ≠ .betUpdate betId st) :
    statusAfter betId (l.filter keep) = statusAfter betId l := by
  induction l with
  | nil => rfl
  | cons x l ih =>
    have ih := ih fun y hy => h y (List.mem_cons_of_mem x hy)
    cases hkeep : keep x with
    | true =>
      rw [List.filter_cons_of_pos hkeep]
      unfold statusAfter
      rw [ih]
    | false =>
      rw [List.filter_cons_of_neg (by simp [hkeep]), ih]
      exact (statusAfter_cons_other (h x List.mem_cons_self hkeep)).symm

end Redelivery

/-- **Redeliveries are harmless** from `c₁`, where the bet is accepted, to `c`. -/
structure RedeliveryHarmless (betId : Uuid) (c₁ c : Config api) : Prop where
  /-- A delivery that starts after `c₁` reads the bet and acks, and does nothing else. -/
  quiet : ∀ i tag payload, c₁.threads i = none → c.Started i (.delivery tag payload) →
    payload.betId = betId → ∀ x ∈ c.trace, x.tid = i →
    x.op = .betFindById betId ∨ x.op = .ack tag
  /-- When it is over, it has acked. -/
  acked : ∀ i tag payload prog, c₁.threads i = none →
    c.threads i = some ⟨.delivery tag payload, prog, false⟩ → payload.betId = betId →
    c.waiting i = none → ∃ x ∈ c.trace, x.tid = i ∧ x.op = .ack tag ∧ x.took = true
  /-- The status of the bet is what one delivery gives, as if the others had done nothing. -/
  single : ∃ d, c.state.betStatus betId =
    some (statusAfter betId (c.trace.filter fun x => DeliversBet betId x.call → x.tid = d))

open Redelivery in
/-- **Redelivery is harmless** in every run whose redeliveries check the bet after its settlement:
wherever the deliveries are placed, however many there are and wherever they crash. -/
theorem redelivery_harmless {betId : Uuid} {c₁ c : Config api}
    (h₁ : api.Reach (Redelivered betId) (api.init .empty) c₁)
    (hpast : c₁.state.PastPending betId)
    (h : api.Reach (fun c e => Redelivered betId c e ∧ ChecksSettled betId c e) c₁ c) :
    RedeliveryHarmless betId c₁ c := by
  have hreach₁ : api.Reachable (api.init .empty) c₁ := h₁.mono fun _ _ _ => trivial
  have htrail : c.state.PastPending betId ∧ ∀ i, c₁.threads i = none → Trail betId c i := by
    induction h with
    | init =>
      refine ⟨hpast, fun i hi =>
        ⟨fun tag payload prog crashed hi' => ?_, fun tag payload hi' => ?_⟩⟩
      · exact absurd (hi.symm.trans hi') (by simp)
      · obtain ⟨_, _, hi'⟩ := hi'
        exact absurd (hi.symm.trans hi') (by simp)
    | step e hc hok hs ih =>
      have hreach := hreach₁.trans (hc.mono fun _ _ _ => trivial)
      refine ⟨pastPending_step hreach hs ih.1, fun i hi => ?_⟩
      exact trail_step hreach ih.1 hok.1.2 hok.2 hs (ih.2 i hi)
  obtain ⟨hpast', htrail⟩ := htrail
  have hred : api.Reach (Redelivered betId) (api.init .empty) c :=
    h₁.trans (h.mono fun _ _ h => h.1)
  have hreach : api.Reachable (api.init .empty) c := hred.mono fun _ _ _ => trivial
  refine ⟨fun i tag payload hi => (htrail i hi).ops tag payload,
    fun i tag payload prog hi hthread hid hover => ?_, ?_⟩
  · rcases (htrail i hi).stage tag payload prog false hthread hid with _ | _ | _ | hack
    · obtain ⟨k, hk, -⟩ := SettlementWorker.delivery_reads tag payload
      exact absurd hover (by simp [Config.waiting, hthread, hk])
    · obtain ⟨k, hk, -⟩ := SettlementWorker.checking_reads tag payload
      exact absurd hover (by simp [Config.waiting, hthread, hk])
    · obtain ⟨k, hk, -⟩ := SettlementWorker.acking_acks tag
      exact absurd hover (by simp [Config.waiting, hthread, hk])
    · exact hack
  · obtain ⟨-, -, ⟨d, hd⟩, hstatus⟩ := acceptance_once hred
    obtain ⟨st, hst, -⟩ := hpast'
    refine ⟨d, ?_⟩
    rw [statusAfter_filter, ← hstatus, hst]
    · rfl
    · -- another delivery wrote nothing
      intro x hx hkeep htook st' hop
      obtain ⟨hdel, hne⟩ : DeliversBet betId x.call ∧ x.tid ≠ d := by simpa using hkeep
      obtain ⟨c₀, hc₀, hw, -, -⟩ := api.waited_of_trace hreach hx
      have hfoot : Footprint x.call x.op := api.waits_all body_footprint hc₀ hw
      rw [hop] at hfoot
      generalize hcall : x.call = call at hfoot hdel
      cases hfoot with
      | settleBet id r b => exact hdel
      | accept tag payload => exact hne (hd x hx ⟨htook, hop.trans (by rw [hdel])⟩)

instance (betId : Uuid) (c : Config api) : ∀ e, Decidable (DeliveriesAnswered betId c e)
  | .run i m => inferInstanceAs (Decidable (∀ x ∈ c.waiting i, DeliversBet betId x.1 → IsOk m))
  | .spawn _ _ | .crash _ | .env _ => inferInstanceAs (Decidable True)

instance (betId : Uuid) (c : Config api) (e : Event api) : Decidable (ChecksSettled betId c e) :=
  inferInstanceAs (Decidable (c.When _ e))

/-- The bet is accepted; its message is in the queue a second time. -/
def acceptTwice : List (Event api) :=
  betPlaced ++ .env (.duplicate betMessage) ::
  .spawn 3 (.delivery 0 betMessage) :: proceed 3 3

/-- The market is settled, and then the second message is delivered. -/
def settleThenDeliver : List (Event api) :=
  .spawn 4 (.settle 50 .LOSS) :: proceed 4 6 ++
  .spawn 5 (.delivery 1 betMessage) :: proceed 5 3

/-- Runs of a few threads in which deliveries of the bet do not overlap. -/
theorem redelivered_of_among {l : List Nat} {c₁ : Config api} {es : List (Event api)}
    (hr : api.replay (api.init .empty) es = some c₁)
    (hm : api.Meets (fun c e => Config.Among l c e ∧ DeliveriesAnswered 0 c e)
      (api.init .empty) es) :
    (∀ i call, c₁.Started i call → i ∈ l) ∧
      api.Reach (Redelivered 0) (api.init .empty) c₁ := by
  have hnone : ∀ i call, (api.init .empty).Started i call → i ∈ l := by
    rintro i call ⟨p, b, hi⟩
    exact absurd hi (by simp [Machine.init])
  have h := Machine.Reach.of_meets .init hr hm
  exact ⟨h.started_among hnone, h.oneOf hnone⟩

/-- The second delivery acks. -/
theorem redelivery_harmless_settled : ∃ c₁ c,
    api.Reach (Redelivered 0) (api.init .empty) c₁ ∧ c₁.state.betStatus 0 = some .ACCEPTED ∧
    c.state.betStatus 0 = some .SETTLED ∧ c.state.deadLetter = [] ∧
    RedeliveryHarmless 0 c₁ c := by
  obtain ⟨c₁, hr₁, hst₁, c, hr, hmeets, hst, hdead⟩ : ∃ c₁,
      api.replay (api.init .empty) acceptTwice = some c₁ ∧
      c₁.state.betStatus 0 = some .ACCEPTED ∧ ∃ c, api.replay c₁ settleThenDeliver = some c ∧
      api.Meets (fun c e => Config.Among [0, 1, 2, 3, 4, 5] c e ∧
        DeliveriesAnswered 0 c e ∧ ChecksSettled 0 c e) c₁ settleThenDeliver ∧
      c.state.betStatus 0 = some .SETTLED ∧ c.state.deadLetter = [] :=
    ⟨_, rfl, rfl, _, rfl, by decide, rfl, rfl⟩
  obtain ⟨hstarted, h₁⟩ := redelivered_of_among (l := [0, 1, 2, 3, 4, 5]) hr₁ (by decide)
  have h := (Machine.Reach.of_meets .init hr hmeets).oneOf (P := DeliversBet 0) hstarted
  refine ⟨c₁, c, h₁, hst₁, hst, hdead, redelivery_harmless h₁ ⟨_, hst₁, by simp⟩ ?_⟩
  exact h.mono fun _ _ hok => ⟨⟨hok.1, hok.2.1⟩, hok.2.2⟩

/-- The worker accepts the bet. -/
def acceptFirst : List (Event api) :=
  betPlaced ++ .spawn 3 (.delivery 0 betMessage) :: proceed 3 2

/-- It crashes before its ack, and the message is delivered again. -/
def crashThenDeliver : List (Event api) :=
  .crash 3 :: .env (.redeliver 0 betMessage) ::
  .spawn 4 (.delivery 1 betMessage) :: proceed 4 3

/-- **The redelivery is dead-lettered**: the bet is accepted, and its message ends in the dead
letter queue. -/
theorem redelivery_dead_lettered : ∃ c₁ c,
    api.Reach (Redelivered 0) (api.init .empty) c₁ ∧ c₁.state.betStatus 0 = some .ACCEPTED ∧
    api.Reach (Redelivered 0) c₁ c ∧ c.state.betStatus 0 = some .ACCEPTED ∧
    c.state.deadLetter = [betMessage] ∧ ¬ RedeliveryHarmless 0 c₁ c := by
  obtain ⟨c₁, hr₁, hst₁, hnew, c, hr, hmeets, hst, hdead, hcall, hnack⟩ : ∃ c₁,
      api.replay (api.init .empty) acceptFirst = some c₁ ∧
      c₁.state.betStatus 0 = some .ACCEPTED ∧ (c₁.threads 4).isNone ∧
      ∃ c, api.replay c₁ crashThenDeliver = some c ∧
      api.Meets (fun c e => Config.Among [0, 1, 2, 3, 4] c e ∧ DeliveriesAnswered 0 c e) c₁
        crashThenDeliver ∧
      c.state.betStatus 0 = some .ACCEPTED ∧ c.state.deadLetter = [betMessage] ∧
      (c.threads 4).map Thread.call = some (.delivery 1 betMessage) ∧
      ∃ x ∈ c.trace, x.tid = 4 ∧ x.op = .nack 1 :=
    ⟨_, rfl, rfl, rfl, _, rfl, by decide, rfl, rfl, rfl, by decide⟩
  obtain ⟨hstarted, h₁⟩ := redelivered_of_among (l := [0, 1, 2, 3, 4]) hr₁ (by decide)
  have h := (Machine.Reach.of_meets .init hr hmeets).oneOf (P := DeliversBet 0) hstarted
  refine ⟨c₁, c, h₁, hst₁, h, hst, hdead, fun hharmless => ?_⟩
  obtain ⟨⟨call, prog, crashed⟩, ht, rfl⟩ := Option.map_eq_some_iff.mp hcall
  obtain ⟨x, hx, htid, hop⟩ := hnack
  have hnone : c₁.threads 4 = none := Option.isNone_iff_eq_none.mp hnew
  rcases hharmless.quiet 4 1 betMessage hnone ⟨prog, crashed, ht⟩ rfl x hx htid with ho | ho
  · exact absurd (hop.symm.trans ho) (by simp)
  · exact absurd (hop.symm.trans ho) (by simp)

end BoltBet
