import BoltBet.Api.Rules
import BoltBet.Async.Terminal

/-!
# Does the status of a bet follow `ALLOWED_TRANSITIONS`?

`transitionStatus` checks a status it read and then updates by id alone, and `settle` updates
without a check. Two workers that hold the same message (a redelivery) and a settlement between the
check and the update of the second one write `ACCEPTED` over `SETTLED`
(`api_settled_bet_accepted`).

* `safe_transitionStatus`, `safe_settleBet`: a worker updates a bet that was not settled when it
  read it; `settle` never updates a `PENDING` bet.
* `api_status_machine_iff`: in every run, the stored statuses follow the declared machine exactly
  when no worker updates a bet that a `settle` updated since its read.
-/

namespace BoltBet

open Async

/-- One change of the stored statuses is declared. -/
def Store.Declared (earlier later : Store) : Prop :=
  ∀ id st st', earlier.betStatus id = some st → later.betStatus id = some st' →
    st' = st ∨ st' ∈ ALLOWED_TRANSITIONS st

/-- A terminal status stays. -/
def Store.TerminalKept (earlier later : Store) : Prop :=
  ∀ id st, st ∈ TERMINAL_STATES → earlier.betStatus id = some st → later.betStatus id = some st

/-- **The states of the run follow the declared state machine.** -/
structure FollowsStatusMachine (w : World api) : Prop where
  declared : w.history.IsChain fun later earlier => earlier.Declared later
  terminal : w.history.Pairwise fun later earlier => earlier.TerminalKept later

/-! ## What operations do to a settled bet -/

/-- New bets are `PENDING`; an update writes `ACCEPTED`, or `SETTLED` to a bet that is past
`PENDING`. -/
structure Store.MayRun (s : Store) (o : ApiOp) : Prop where
  pending : ∀ d, o = .betSave d → d.status = .PENDING
  found : ∀ id st, o = .betUpdate id st → s.betStatus id ≠ none
  settles : ∀ id st, o = .betUpdate id st →
    st = .ACCEPTED ∨ st = .SETTLED ∧ s.betStatus id ≠ some .PENDING

section Flag

variable {i : Nat} {call : ApiCall} {o : ApiOp} {w w' : World api} {r : Except Err o.Res}
  {x : Entry api}

theorem api_betStatus_cases (hx : api.Exec i call o w r w') (htr : w'.trace = x :: w.trace)
    (id : Uuid) :
    w'.state.betStatus id = w.state.betStatus id ∨
    (∃ d, o = .betSave d ∧ w.state.betStatus id = none ∧
      w'.state.betStatus id = some d.status) ∨
    ∃ st st', x.took = true ∧ o = .betUpdate id st ∧ w.state.betStatus id = some st' ∧
      w'.state.betStatus id = some st := by
  obtain ⟨took, htr', ⟨ht, ch, a, hs⟩ | ⟨-, hs⟩⟩ := api_exec_cases hx
  · obtain rfl := (List.cons.inj (htr'.symm.trans htr)).1
    rcases (Store.exec_effect hs).betStatus_cases id with h | h | ⟨st, st', ho, h, h'⟩
    · exact .inl h
    · exact .inr (.inl h)
    · exact .inr (.inr ⟨st, st', ht, ho, h, h'⟩)
  · exact .inl (by rw [hs])

/-- An update that took effect left its status on the bet, if there is one. -/
theorem api_betUpdate {id : Uuid} {st : BetStatus}
    {r : Except Err (ApiOp.betUpdate id st).Res} (hx : api.Exec i call (.betUpdate id st) w r w')
    (htr : w'.trace = x :: w.trace) (ht : x.took = true) :
    w'.state.betStatus id = (w.state.betStatus id).map fun _ => st := by
  obtain ⟨took, htr', ⟨-, ch, a, hs⟩ | ⟨hf, -⟩⟩ := api_exec_cases hx
  · obtain ⟨-, hs⟩ := Prod.mk.inj hs
    rw [← hs, Store.betStatus_setStatus, if_pos rfl]
  · obtain rfl := (List.cons.inj (htr'.symm.trans htr)).1
    exact absurd (hf.symm.trans ht) (by simp)

end Flag

namespace Store

/-- The bet exists and is past `PENDING`. -/
def PastPending (s : Store) (id : Uuid) : Prop := ∃ st, s.betStatus id = some st ∧ st ≠ .PENDING

/-- No bet is `VOID` or `CANCELLED`. -/
def NoVoid (s : Store) : Prop :=
  ∀ id st, s.betStatus id = some st → st = .PENDING ∨ st = .ACCEPTED ∨ st = .SETTLED

end Store

section Steps

variable {i : Nat} {call : ApiCall} {o : ApiOp} {w w' : World api} {r : Except Err o.Res}

theorem pastPending_refl (w : World api) (id : Uuid) (hp : w.state.PastPending id) :
    w.state.PastPending id := hp

theorem pastPending_trans {w w' w'' : World api}
    (h : ∀ id, w.state.PastPending id → w'.state.PastPending id)
    (h' : ∀ id, w'.state.PastPending id → w''.state.PastPending id) (id : Uuid)
    (hp : w.state.PastPending id) : w''.state.PastPending id :=
  h' id (h id hp)

theorem pastPending_exec (hx : api.Exec i call o w r w') (ho : w.state.MayRun o) {id : Uuid}
    (h : w.state.PastPending id) : w'.state.PastPending id := by
  obtain ⟨st, hst, hne⟩ := h
  obtain ⟨took, htr, -⟩ := api_exec_cases hx
  rcases api_betStatus_cases hx htr id with he | ⟨d, -, hn, -⟩ | ⟨st', st₀, -, rfl, -, he⟩
  · exact ⟨st, he.trans hst, hne⟩
  · exact absurd (hn.symm.trans hst) (by simp)
  · refine ⟨st', he, ?_⟩
    rcases ho.settles id st' rfl with rfl | ⟨rfl, -⟩ <;> simp

theorem noVoid_exec (hx : api.Exec i call o w r w') (ho : w.state.MayRun o)
    (h : w.state.NoVoid) : w'.state.NoVoid := by
  obtain ⟨took, htr, -⟩ := api_exec_cases hx
  intro id st hst
  rcases api_betStatus_cases hx htr id with he | ⟨d, ho', -, he⟩ | ⟨st', st₀, -, ho', -, he⟩
  · exact h id st (he.symm.trans hst)
  · obtain rfl := Option.some.inj (he.symm.trans hst)
    exact .inl (ho.pending d ho')
  · obtain rfl := Option.some.inj (he.symm.trans hst)
    rcases ho.settles id st' ho' with rfl | ⟨rfl, -⟩ <;> simp

theorem mayRun_exec (hx : api.Exec i call o w r w') (ho : w.state.MayRun o) {o' : ApiOp}
    (h : w.state.MayRun o') : w'.state.MayRun o' := by
  obtain ⟨took, htr, -⟩ := api_exec_cases hx
  refine ⟨h.pending, fun id st ho' hn => ?_, fun id st ho' => ?_⟩
  · have hfound := h.found id st ho'
    rcases api_betStatus_cases hx htr id with he | ⟨d, -, -, he⟩ | ⟨st', st₀, -, -, -, he⟩
    · exact hfound (he.symm.trans hn)
    · exact absurd (he.symm.trans hn) (by simp)
    · exact absurd (he.symm.trans hn) (by simp)
  · rcases h.settles id st ho' with rfl | ⟨rfl, hne⟩
    · exact .inl rfl
    · refine .inr ⟨rfl, fun hp => ?_⟩
      cases hb : w.state.betStatus id with
      | none => exact h.found id .SETTLED ho' hb
      | some st =>
        obtain ⟨st', hst', hne'⟩ := pastPending_exec hx ho ⟨st, hb, fun h => hne (h ▸ hb)⟩
        exact hne' (Option.some.inj (hst'.symm.trans hp))

end Steps

theorem Store.SameTables.mayRun {s s' : Store} (h : s.SameTables s') {o : ApiOp}
    (ho : s.MayRun o) : s'.MayRun o := by
  refine ⟨ho.pending, fun id st => ?_, fun id st => ?_⟩
  · rw [h.betStatus]
    exact ho.found id st
  · rw [h.betStatus]
    exact ho.settles id st

/-- A bet is settled: set by `settle`, cleared by the update of a worker. -/
def betSettled : Flag api Uuid where
  Done id s := s.betStatus id = some .SETTLED
  Sets id o := o = .betUpdate id .SETTLED
  Unsets id o := ∃ st, o = .betUpdate id st ∧ st ≠ .SETTLED
  Legal o s := s.MayRun o
  sets {_ _ _ w _ _ _ id} hx htr hl ht ho := by
    subst ho
    rw [api_betUpdate hx htr ht]
    cases hb : w.state.betStatus id with
    | none => exact absurd hb (hl.found id _ rfl)
    | some st => rfl
  unsets {_ _ _ w _ _ _ id} hx htr ht ho hd := by
    obtain ⟨st, rfl, hne⟩ := ho
    rw [api_betUpdate hx htr ht] at hd
    cases hb : w.state.betStatus id with
    | none => simp [hb] at hd
    | some st' => exact hne (by simpa [hb] using hd)
  keeps {_ _ _ _ _ _ _ id} hx htr hd hno := by
    rcases api_betStatus_cases hx htr id with h | ⟨d, -, hn, -⟩ | ⟨st, st', ht, rfl, -, h⟩
    · exact h.trans hd
    · exact absurd (hn.symm.trans hd) (by simp)
    · by_contra hne
      exact hno ht ⟨st, rfl, fun hst => hne (by rw [h, hst])⟩
  made {_ _ _ _ _ _ _ id} hx htr hl hd := by
    rcases api_betStatus_cases hx htr id with h | ⟨d, ho, -, h⟩ | ⟨st, st', ht, ho, -, h⟩
    · exact .inl (h.symm.trans hd)
    · have hst := Option.some.inj (h.symm.trans hd)
      exact absurd ((hl.pending d ho).symm.trans hst) (by simp)
    · obtain rfl := Option.some.inj (h.symm.trans hd)
      exact .inr ⟨ht, ho⟩
  legal hx ho h := mayRun_exec hx ho h
  start h := ⟨fun id => by rw [(start_tables h).betStatus id], fun _ => (start_tables h).mayRun⟩
  env h := ⟨fun id => by rw [(env_tables h).betStatus id], fun _ => (env_tables h).mayRun⟩

namespace StatusMachine

/-- Every thread knows of the settled bets it may clear, and bets past `PENDING` stay so. -/
def knowledge : Knowledge api :=
  apiKnowledge (fun w => w.state.BetIds ∧ w.state.NoVoid)
    (fun w w' => ∀ id, w.state.PastPending id → w'.state.PastPending id)
    (fun i _ => betSettled.Known i) (fun _ _ _ _ _ _ => True) pastPending_refl
    pastPending_trans
    (fun hinv hK _ hx => by
      obtain ⟨ch, he⟩ := api_exec_effect hx
      exact ⟨⟨he.betIds hinv.1, noVoid_exec hx hK.1 hinv.2⟩,
        fun _ => pastPending_exec hx hK.1, fun _ _ _ hj => Flag.known_exec hx hj hK⟩)
    fun {s s' l} hsame hinv => by
      refine ⟨⟨?_, fun id st hst => ?_⟩, fun id hp => ?_, fun i _ o => ?_⟩
      · exact hsame.betIds hinv.1
      · exact hinv.2 id st (hsame.betStatus id ▸ hst)
      · show s'.PastPending id
        unfold Store.PastPending
        rw [hsame.betStatus]
        exact hp
      · exact Flag.known_same (s := s)
          ⟨fun id => by show s'.betStatus id = _ ↔ s.betStatus id = _; rw [hsame.betStatus],
            fun _ => hsame.mayRun⟩

/-- Operations that update no bet. -/
def Harmless (o : ApiOp) : Prop :=
  (∀ d, o = .betSave d → d.status = .PENDING) ∧ ∀ id st, o ≠ .betUpdate id st

variable {i : Nat} {call : ApiCall}

theorem Harmless.known {o : ApiOp} (h : Harmless o) (w : World api) : knowledge.K i call o w :=
  Flag.known_of_not_done ⟨h.1, fun id st ho => absurd ho (h.2 id st),
    fun id st ho => absurd ho (h.2 id st)⟩ fun id ⟨st, ho, _⟩ => absurd ho (h.2 id st)

/-- **A worker updates a bet that was `PENDING`, so not settled, when it read it.** -/
theorem safe_transitionStatus (id : Uuid) (w : World api) :
    knowledge.rules.Safe i call (fun _ _ => True)
      (BettingService.transitionStatus id .ACCEPTED) w := by
  refine ApiRules.safe_transitionStatus (Harmless.known (by simp [Harmless]) w)
    fun {bet w₁ w₂} _ hst => Flag.known_of_not_done ⟨by simp, ?_, ?_⟩ ?_
  · rintro id' st ho
    obtain ⟨rfl, rfl⟩ := ApiOp.betUpdate.inj ho
    rw [hst]
    simp
  · rintro id' st ho
    obtain ⟨rfl, rfl⟩ := ApiOp.betUpdate.inj ho
    exact .inl rfl
  · rintro id' ⟨st, ho, -⟩ hd
    obtain ⟨rfl, rfl⟩ := ApiOp.betUpdate.inj ho
    exact absurd (hst.symm.trans hd) (by simp)

theorem safe_consume (tag : Nat) (p : BetPlacementPayload) (w : World api) :
    knowledge.rules.Safe i call (fun _ _ => True) (SettlementWorker.consume tag p) w :=
  ApiRules.safe_consume (fun _ => Harmless.known) (by simp [Harmless]) (by simp [Harmless])
    (by simp [Harmless]) (safe_transitionStatus p.betId) w

/-- A bet selected by `settle` is past `PENDING`. -/
theorem pastPending_of_betFind {id : Uuid} {w w' : World api} {bets : List Bet}
    (hinv : knowledge.inv w)
    (hx : api.Exec i call (.betFind id .ACCEPTED) w (.ok bets) w') :
    ∀ b ∈ bets, w'.state.PastPending b.id := by
  obtain ⟨hperm, hs⟩ := api_betFind_ok hx
  intro b hb
  obtain ⟨hmem, hsel⟩ := List.mem_filter.mp (hperm.subset hb)
  have hst : b.status = .ACCEPTED := by simpa using (of_decide_eq_true hsel).2
  refine ⟨.ACCEPTED, ?_, by simp⟩
  rw [hs, Store.betStatus, hinv.1.bet_of_mem hmem, ← hst]
  rfl

/-- **`settle` updates bets that were `ACCEPTED` when it selected them.** -/
theorem safe_settle (id : Uuid) (r : MarketResult) (w : World api) :
    knowledge.rules.Safe i call (fun _ _ => True) (MarketService.settle id r) w := by
  unfold MarketService.settle
  refine Rules.safe_bind.mpr (ApiRules.safe_getMarketById (Harmless.known (by simp [Harmless]) w)
    (fun {market w₁ w₂} _ _ _ => ?_) fun _ _ => trivial)
  dsimp only
  split
  · trivial
  refine Rules.safe_bind.mpr (Knowledge.safe_op' (Harmless.known (by simp [Harmless]) w₂)
    fun {w₁ res w₂} hinv _ hx _ => ?_)
  rcases res with e | bets
  · trivial
  have hpast := pastPending_of_betFind hinv hx
  have hlasts : knowledge.Lasts fun w : World api => ∀ b ∈ bets, w.state.PastPending b.id :=
    fun hle h b hb => hle b.id (h b hb)
  refine Rules.safe_seq (Q := fun _ _ => True) (Rules.safe_forM
    (J := fun w : World api => ∀ b ∈ bets, w.state.PastPending b.id) (fun b hb w hw => ?_)
    (fun _ _ => trivial) hpast) (fun _ w _ => ?_) fun _ _ _ => trivial
  · -- one round: the credit is harmless, the update needs the bet past `PENDING`
    refine Rules.safe_try (Q := fun _ (w : World api) => ∀ b ∈ bets, w.state.PastPending b.id)
      (Rules.safe_seq (Q := fun _ (w : World api) => ∀ b ∈ bets, w.state.PastPending b.id)
        (Knowledge.safe_of_all (P := Harmless) ?_ (fun _ => Harmless.known) hlasts hw)
        (fun _ w hw => ?_) fun _ _ h => h) (fun _ _ h => h) fun _ _ h => h
    · cases r with
      | WIN =>
        exact Prog.All.bind (Api.all_wallet (Api.all_lookup_then (by simp [Harmless])
          (by simp [Harmless]))) fun _ => trivial
      | LOSS => trivial
    · obtain ⟨st, hst, hne⟩ := hw b hb
      have hknown : betSettled.Known i (.betUpdate b.id .SETTLED) w := by
        refine Flag.known_of_not_done ⟨by simp, ?_, ?_⟩ ?_
        · rintro id' st' ho
          obtain ⟨rfl, rfl⟩ := ApiOp.betUpdate.inj ho
          simp [hst]
        · rintro id' st' ho
          obtain ⟨rfl, rfl⟩ := ApiOp.betUpdate.inj ho
          exact .inr ⟨rfl, by simpa [hst] using hne⟩
        · rintro id' ⟨st', ho, hst'⟩
          exact absurd (ApiOp.betUpdate.inj ho).2.symm hst'
      refine Rules.safe_bind.mpr (Knowledge.safe_op hlasts hw hknown
        fun {_ res w₂} _ _ _ _ _ hw₂ => ?_)
      cases res with
      | error e => exact hw₂
      | ok _ =>
        exact Knowledge.safe_of_all (P := Harmless) (Api.all_op (by simp [Harmless]))
          (fun _ => Harmless.known) hlasts hw₂
  · have hsafe : ∀ {α : Type} {p : Prog ApiSig α}, p.All Harmless →
        ∀ w, knowledge.rules.Safe i call (fun _ _ => True) p w :=
      Knowledge.safe_of_known fun _ => Harmless.known
    exact ApiRules.safe_bind' (hsafe (Api.all_op (by simp [Harmless])) w) fun _ w =>
      ApiRules.safe_bind' (hsafe (Api.all_op (by simp [Harmless])) w) fun _ _ => trivial

/-- Every call is safe: only deliveries and `settle` update bets. -/
theorem safe_body (call : ApiCall) (w : World api) :
    knowledge.rules.Safe i call (fun _ _ => True) call.body w := by
  by_cases hcall : (∃ tag p, call = .delivery tag p) ∨ ∃ id r, call = .settle id r
  · rcases hcall with ⟨tag, p, rfl⟩ | ⟨id, r, rfl⟩
    · exact ApiRules.safe_bind' (safe_consume tag p w) fun _ _ => trivial
    · exact ApiRules.safe_map (safe_settle id r w)
  · refine Knowledge.safe_of_known (fun _ => Harmless.known)
      ((body_footprint call).mono fun o ho => ⟨?_, ?_⟩) w
    · rintro d rfl
      cases ho with
      | betSave u role dto m => rfl
    · rintro id st rfl
      cases ho with
      | settleBet id r b => exact hcall (.inr ⟨id, r, rfl⟩)
      | accept tag p => exact hcall (.inl ⟨tag, p, rfl⟩)

/-- Every thread of every run knows of the settled bets it may clear. -/
theorem known {c : Config api} (hc : api.Reachable (api.init .empty) c) :
    c.state.NoVoid ∧ ∀ {i call o}, c.Waits i call o → betSettled.Known i o c.toWorld := by
  have hgood := Knowledge.reach (D := knowledge) (fun _ => trivial) (fun _ _ _ _ => True)
    (fun _ _ _ _ _ _ _ _ _ _ => trivial) (fun _ _ _ _ _ _ h => h)
    (fun _ call w _ => safe_body call w)
    ⟨by simp [Store.BetIds, Store.empty],
      fun _ _ h => absurd h (by simp [Store.betStatus, Store.bet, Store.empty])⟩ hc
  exact ⟨hgood.1.2, fun hw => hgood.2.1 _ _ _ hw fun _ _ => trivial⟩

end StatusMachine

/-! ## Whole runs -/

/-- One operation changes a status as declared, unless the bet was settled. -/
theorem declared_exec {i : Nat} {call : ApiCall} {o : ApiOp} {w w' : World api}
    {r : Except Err o.Res} (hx : api.Exec i call o w r w') (ho : w.state.MayRun o)
    (hv : w.state.NoVoid) (id : Uuid) (st st' : BetStatus) (hst : w.state.betStatus id = some st)
    (hst' : w'.state.betStatus id = some st') :
    st = .SETTLED ∨ st' = st ∨ st' ∈ ALLOWED_TRANSITIONS st := by
  obtain ⟨took, htr, -⟩ := api_exec_cases hx
  rcases api_betStatus_cases hx htr id with he | ⟨d, -, hn, -⟩ | ⟨st₁, st₀, -, rfl, -, he⟩
  · exact .inr (.inl (Option.some.inj (hst'.symm.trans (he.trans hst))))
  · exact absurd (hn.symm.trans hst) (by simp)
  · obtain rfl := Option.some.inj (he.symm.trans hst')
    rcases hv id st hst with rfl | rfl | rfl
    · rcases ho.settles id st₁ rfl with rfl | ⟨-, hne⟩
      · exact .inr (.inr (by decide))
      · exact absurd hst hne
    · rcases ho.settles id st₁ rfl with rfl | ⟨rfl, -⟩
      · exact .inr (.inl rfl)
      · exact .inr (.inr (by decide))
    · exact .inl rfl

/-- The states of a run follow the declared machine exactly when settled bets stay settled. -/
theorem followsStatusMachine_iff {c : Config api} (hc : api.Reachable (api.init .empty) c) :
    FollowsStatusMachine c.toWorld ↔ betSettled.Stays c.toWorld := by
  constructor
  · intro h
    refine h.terminal.imp fun hkept id hd => ?_
    exact hkept id .SETTLED (by decide) hd
  · intro h
    have hvoid : ∀ s ∈ c.history, s.NoVoid := by
      intro s hs
      obtain ⟨c', hc', rfl⟩ := api.state_of_history hc hs
      exact (StatusMachine.known hc').1
    refine ⟨?_, ?_⟩
    · have hchain := api.isChain_history (s := .empty) (R := fun earlier later =>
          ∀ id st st', earlier.betStatus id = some st → later.betStatus id = some st' →
            st = .SETTLED ∨ st' = st ∨ st' ∈ ALLOWED_TRANSITIONS st)
        (fun hc hw hx => declared_exec hx ((StatusMachine.known hc).2 hw).1
          (StatusMachine.known hc).1)
        (fun hs hR id => (start_tables hs).betStatus id ▸ hR id)
        (fun hv hR id => (env_tables hv).betStatus id ▸ hR id) hc
      refine List.isChain_iff_getElem.mpr fun n hn id st st' hst hst' => ?_
      have hkeep := List.isChain_iff_getElem.mp h.isChain n hn
      rcases List.isChain_iff_getElem.mp hchain n hn id st st' hst hst' with rfl | hok
      · exact .inl (Option.some.inj (hst'.symm.trans (hkeep id hst)))
      · exact hok
    · refine List.Pairwise.imp_of_mem ?_ h
      intro later earlier hl he hkeep id st hterm hst
      rcases hvoid earlier he id st hst with rfl | rfl | rfl
      · exact absurd hterm (by decide)
      · exact absurd hterm (by decide)
      · exact hkeep id hst

/-- **The statuses of bets follow the declared machine exactly when no update of a worker was
overtaken by a settlement.** -/
theorem api_status_machine_iff {es : List (Event api)} {c : Config api}
    (hr : api.replay (api.init .empty) es = some c) :
    FollowsStatusMachine c.toWorld ↔ api.Meets betSettled.Undisturbed (api.init .empty) es := by
  rw [followsStatusMachine_iff (.of_replay .init hr)]
  exact Flag.stays_iff (fun hc _ _ _ hw => (StatusMachine.known hc).2 hw) hr

/-- User 7 bets 100 cents on market 50; the bet gets the id 0. -/
def betPlaced : List (Event api) :=
  openMarket ++ .spawn 2 (bet100 2) :: proceed 2 8

/-- The message of that bet. -/
def betMessage : BetPlacementPayload := ⟨0, 7, 50, 240, 100, 240⟩

/-- One delivery and then the settlement. -/
def acceptThenSettle : List (Event api) :=
  betPlaced ++ .spawn 3 (.delivery 0 betMessage) :: proceed 3 3 ++
  .spawn 5 (.settle 50 .LOSS) :: proceed 5 6

/-- The bet ends settled. -/
theorem api_status_machine_sequential : ∃ c,
    api.replay (api.init .empty) acceptThenSettle = some c ∧
    c.state.betStatus 0 = some .SETTLED ∧
    (FollowsStatusMachine c.toWorld ↔
      api.Meets betSettled.Undisturbed (api.init .empty) acceptThenSettle) :=
  ⟨_, rfl, rfl, api_status_machine_iff rfl⟩

/-- Two deliveries of one message read the bet while it is `PENDING`; the second one updates it
after the settlement. -/
def acceptAcrossSettle : List (Event api) :=
  betPlaced ++ .spawn 3 (.delivery 0 betMessage) :: proceed 3 1 ++
  .env (.redeliver 0 betMessage) :: .spawn 4 (.delivery 1 betMessage) :: proceed 4 1 ++
  proceed 3 2 ++ .spawn 5 (.settle 50 .LOSS) :: proceed 5 6 ++ proceed 4 1

/-- A settled bet is accepted again. -/
theorem api_settled_bet_accepted : ∃ c, api.Reachable (api.init .empty) c ∧
    ¬ FollowsStatusMachine c.toWorld ∧ c.state.betStatus 0 = some .ACCEPTED := by
  obtain ⟨c, hr, hst, hpast⟩ : ∃ c, api.replay (api.init .empty) acceptAcrossSettle = some c ∧
      c.state.betStatus 0 = some .ACCEPTED ∧
      ∃ s ∈ c.trace.map Entry.before, s.betStatus 0 = some .SETTLED := ⟨_, rfl, rfl, by decide⟩
  refine ⟨c, .of_replay .init hr, fun h => ?_, hst⟩
  obtain ⟨s, hs, hset⟩ := hpast
  have hkept := (List.pairwise_cons.mp h.terminal).1 s hs 0 .SETTLED (by decide) hset
  exact absurd (hst.symm.trans hkept) (by simp)

end BoltBet
