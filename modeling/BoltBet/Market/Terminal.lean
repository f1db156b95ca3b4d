import BoltBet.Api.Rules
import BoltBet.Async.Terminal

/-!
# Does a settled market stay settled?

`updateStatus` checks the status it read and saves unconditionally, while `settle` marks the
market only after its loop over the bets. So a whole settlement fits between the check and the
save of a `suspend` or `reopen`, which then writes its stale status (`api_market_reopened`).

* `updateStatus_known`: a status saved by `updateStatus` was not `SETTLED` when it read it, so a
  market that is settled by now was settled since.
* `api_settled_stays_iff`: in every run, settled markets stay settled exactly when no `suspend` or
  `reopen` saves a market that a `settle` saved since its read.
-/

namespace BoltBet

open Async

/-- New markets are not settled. -/
def ApiOp.CreatesUnsettled (o : ApiOp) : Prop := ∀ d, o = .marketCreate d → d.status ≠ .SETTLED

/-- A market is settled: set by the save of `settle`, cleared by one of `updateStatus`. -/
def marketSettled : Flag api Uuid where
  Done id s := s.marketStatus id = some .SETTLED
  Sets id o := o.SavesMarket id (· = .SETTLED)
  Unsets id o := o.SavesMarket id (· ≠ .SETTLED)
  Legal o _ := o.CreatesUnsettled
  sets hx htr _ ht ho := by
    obtain ⟨st, hst, rfl⟩ := api_saved hx htr ht ho
    exact hst
  unsets hx htr ht ho hd := by
    obtain ⟨st, hst, hne⟩ := api_saved hx htr ht ho
    exact hne (Option.some.inj (hst.symm.trans hd))
  keeps {_ _ _ _ _ _ _ id} hx htr hd hno := by
    rcases api_status_cases hx htr id with h | ⟨d, -, hn, -⟩ | ⟨m, ht, rfl, hid, h⟩
    · exact h.trans hd
    · exact absurd (hn.symm.trans hd) (by simp)
    · by_contra hne
      refine hno ht ⟨m, rfl, hid, fun hst => hne ?_⟩
      rw [h, hst]
  made {_ _ _ _ _ _ _ id} hx htr hl hd := by
    rcases api_status_cases hx htr id with h | ⟨d, ho, -, h⟩ | ⟨m, ht, ho, hid, h⟩
    · exact .inl (h.symm.trans hd)
    · exact absurd (Option.some.inj (h.symm.trans hd)) (hl d ho)
    · exact .inr ⟨ht, m, ho, hid, Option.some.inj (h.symm.trans hd)⟩
  legal _ _ ho := ho
  start h := ⟨fun id => by rw [(start_tables h).marketStatus id], fun _ ho => ho⟩
  env h := ⟨fun id => by rw [(env_tables h).marketStatus id], fun _ ho => ho⟩

namespace Terminal

/-- Every thread knows of the settled markets it may clear. -/
def knowledge : Knowledge api :=
  apiKnowledge (fun w => w.state.MarketIds) (fun _ _ => True)
    (fun i _ => marketSettled.Known i) (fun _ _ _ _ _ _ => True) (fun _ => trivial)
    (fun _ _ => trivial)
    (fun hinv hK _ hx => by
      obtain ⟨ch, he⟩ := api_exec_effect hx
      exact ⟨hinv.effect he, trivial, fun _ _ _ hj => Flag.known_exec hx hj hK⟩)
    fun {s s' l} hsame hinv => by
      refine ⟨?_, trivial, fun i _ o => Flag.known_same (s := s) ⟨fun id => ?_, fun _ ho => ho⟩⟩
      · exact hsame.marketIds hinv
      · show s'.marketStatus id = _ ↔ s.marketStatus id = _
        rw [hsame.marketStatus]

/-- Operations that clear no settled market. -/
def Harmless (o : ApiOp) : Prop :=
  o.CreatesUnsettled ∧ ∀ m, o = .marketSave m → m.status = .SETTLED

variable {i : Nat} {call : ApiCall}

theorem Harmless.known {o : ApiOp} (h : Harmless o) (w : World api) :
    knowledge.K i call o w :=
  Flag.known_of_not_done h.1 fun _ ⟨m, ho, _, hne⟩ => absurd (h.2 m ho) hne

/-- **The save of `updateStatus` clears no market that was settled when it was read.** -/
theorem safe_updateStatus (id : Uuid) (st : MarketStatus) (w : World api) :
    knowledge.rules.Safe i call (fun _ _ => True) (MarketService.updateStatus id st) w := by
  unfold MarketService.updateStatus
  refine Rules.safe_bind.mpr (ApiRules.safe_getMarketById
    (Harmless.known (by simp [Harmless, ApiOp.CreatesUnsettled]) w) ?_ fun _ _ => trivial)
  intro market w₁ w₂ hinv hx _
  obtain ⟨hm, hs⟩ := api_marketFindOne_ok hx
  dsimp only
  split
  · trivial
  rename_i hne
  have hknown : marketSettled.Known i (.marketSave { market with status := st }) w₂ := by
    refine Flag.known_of_not_done (by simp [marketSettled, ApiOp.CreatesUnsettled]) ?_
    rintro a ⟨m, ho, hid, -⟩ hd
    obtain rfl := ApiOp.marketSave.inj ho
    obtain rfl : a = id := hid.symm.trans (hinv id market hm.symm)
    have hst : w₂.state.marketStatus a = some .SETTLED := hd
    rw [hs, Store.marketStatus, ← hm] at hst
    exact hne (Option.some.inj hst)
  refine Rules.safe_bind.mpr (Knowledge.safe_op' hknown fun {_ r w₃} _ _ _ _ => ?_)
  cases r with
  | error e => trivial
  | ok saved =>
    exact ApiRules.safe_then (P := Harmless) (fun _ => Harmless.known)
      (Api.all_op (by simp [Harmless, ApiOp.CreatesUnsettled])) (fun _ _ => trivial)
      fun _ _ => trivial

/-- Every call is safe: only `suspend` and `reopen` save another status than `SETTLED`. -/
theorem safe_body (call : ApiCall) (w : World api) :
    knowledge.rules.Safe i call (fun _ _ => True) call.body w := by
  by_cases hcall : (∃ id, call = .suspend id) ∨ ∃ id, call = .reopen id
  · rcases hcall with ⟨id, rfl⟩ | ⟨id, rfl⟩
    · exact ApiRules.safe_map (safe_updateStatus id _ w)
    · exact ApiRules.safe_map (safe_updateStatus id _ w)
  · refine Knowledge.safe_of_known (fun _ => Harmless.known)
      ((body_footprint call).mono fun o ho => ⟨?_, ?_⟩) w
    · rintro d rfl
      cases ho with
      | marketCreate dto => simp
    · rintro m rfl
      cases ho with
      | suspendSave id m => exact absurd (.inl ⟨id, rfl⟩) hcall
      | reopenSave id m => exact absurd (.inr ⟨id, rfl⟩) hcall
      | settleSave id r m => rfl

end Terminal

/-- **Settled markets stay settled exactly when no stale status is saved over `SETTLED`.** -/
theorem api_settled_stays_iff {es : List (Event api)} {c : Config api}
    (hr : api.replay (api.init .empty) es = some c) :
    marketSettled.Stays c.toWorld ↔
      api.Meets marketSettled.Undisturbed (api.init .empty) es := by
  refine Flag.stays_iff (fun hc i call o hw => ?_) hr
  have hgood := Knowledge.reach (D := Terminal.knowledge) (fun _ => trivial) (fun _ _ _ _ => True)
    (fun _ _ _ _ _ _ _ _ _ _ => trivial) (fun _ _ _ _ _ _ h => h)
    (fun _ call w _ => Terminal.safe_body call w)
    (fun _ _ h => absurd h (by simp [Store.empty])) hc
  exact hgood.2.1 i call o hw fun _ _ => trivial

/-- A whole settlement between the check and the save of a `suspend`. -/
def suspendAcrossSettle : List (Event api) :=
  openMarket ++ .spawn 2 (.suspend 50) :: proceed 2 1 ++
  .spawn 3 (.settle 50 .LOSS) :: proceed 3 4 ++ proceed 2 2

/-- A settled market becomes suspended. -/
theorem api_market_reopened : ∃ c, api.Reachable (api.init .empty) c ∧
    ¬ marketSettled.Stays c.toWorld ∧ c.state.marketStatus 50 = some .SUSPENDED := by
  obtain ⟨c, hr, hst, hpast⟩ : ∃ c, api.replay (api.init .empty) suspendAcrossSettle = some c ∧
      c.state.marketStatus 50 = some .SUSPENDED ∧
      ∃ s ∈ c.trace.map Entry.before, s.marketStatus 50 = some .SETTLED := ⟨_, rfl, rfl, by decide⟩
  refine ⟨c, .of_replay .init hr, fun h => ?_, hst⟩
  obtain ⟨s, hs, hset⟩ := hpast
  exact absurd ((List.pairwise_cons.mp h).1 s hs 50 hset) (by simp [marketSettled, hst])

/-- First the suspension, then the settlement. -/
def suspendThenSettle : List (Event api) :=
  openMarket ++ .spawn 2 (.suspend 50) :: proceed 2 3 ++ .spawn 3 (.settle 50 .LOSS) :: proceed 3 4

/-- The market ends settled. -/
theorem api_settled_stays_sequential : ∃ c,
    api.replay (api.init .empty) suspendThenSettle = some c ∧
    c.state.marketStatus 50 = some .SETTLED ∧
    (marketSettled.Stays c.toWorld ↔
      api.Meets marketSettled.Undisturbed (api.init .empty) suspendThenSettle) :=
  ⟨_, rfl, rfl, api_settled_stays_iff rfl⟩

end BoltBet
