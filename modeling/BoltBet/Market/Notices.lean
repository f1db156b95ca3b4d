import BoltBet.Api.Footprint
import BoltBet.Api.Rules
import BoltBet.Async.History

/-!
# Whose bet a notification is about

The user id of a `BET_SETTLED` notification is that of a row which `settle` found, and rows keep
their user.

* `api_along`: a call has found the bet that it publishes as settled.
* **`notices_named`**: every published notification names a bet in the table and its user.
-/

namespace BoltBet

open Async Api

/-- The bet `id` is in the table, and is one of the user `u`. -/
def Store.Owns (s : Store) (u id : Uuid) : Prop := ∃ b ∈ s.bets, b.id = id ∧ b.userId = u

theorem Store.Owns.later {w w' : World api} {u id : Uuid} (h : w.state.Owns u id)
    (hle : Later w w') : w'.state.Owns u id := by
  obtain ⟨b, hb, rfl, rfl⟩ := h
  obtain ⟨b', hb', hsame⟩ := hle.bets b hb
  exact ⟨b', hb', hsame.id, hsame.userId⟩

namespace Notices

/-! ## What a call has seen when it publishes -/

/-- The call found this bet of this user. -/
def FoundBet (l : List (Seen ApiSig)) (u id : Uuid) : Prop :=
  ∃ marketId status rows, Saw l (ApiOp.betFind marketId status) rows ∧
    ∃ b ∈ rows, b.id = id ∧ b.userId = u

/-- What a call has seen when it comes to an operation. -/
def Grounds (l : List (Seen ApiSig)) : ApiOp → Prop
  | .publishNotification (.BET_SETTLED u id _ _ _) => FoundBet l u id
  | _ => True

variable {l : List (Seen ApiSig)}

/-- One round of the loop of `settle`. -/
theorem along_settleBet {l₀ : List (Seen ApiSig)} (hl : l₀ <:+ l) (market : Market)
    (result : MarketResult) {bet : Bet} (hbet : FoundBet l₀ bet.userId bet.id) :
    (MarketService.settleBet market result bet).Along Grounds (fun l' _ => l₀ <:+ l') l := by
  have hcredit : (MarketService.creditPayout market result bet).All fun o => ∀ l, Grounds l o := by
    cases result with
    | WIN =>
      refine Prog.All.bind (all_wallet ?_) fun _ => trivial
      exact (Prog.all_true _).mono fun _ _ _ => trivial
    | LOSS => trivial
  refine Prog.Along.tryCatch (Q := fun l' _ => l₀ <:+ l') ?_ (fun _ _ h => h) fun _ _ h => h
  refine Prog.Along.bind (Prog.Along.of_all (fun l o h => h l) hcredit) (fun _ l₁ h₁ => ?_)
    fun _ l₁ h₁ => hl.trans h₁.1
  have hl₁ : l₀ <:+ l₁ := hl.trans h₁.1
  refine Prog.along_perform_bind trivial (fun _ => ?_) fun _ => hl₁.trans (List.suffix_cons _ _)
  obtain ⟨marketId, status, rows, hsaw, hb⟩ := hbet
  exact Prog.along_perform (S := ApiSig) (Q := fun l' _ => l₀ <:+ l')
    ⟨marketId, status, rows, (hsaw.later hl₁).cons, hb⟩ fun _ =>
      (hl₁.trans (List.suffix_cons _ _)).trans (List.suffix_cons _ _)

theorem along_settle (marketId : Uuid) (result : MarketResult) :
    (MarketService.settle marketId result).Along Grounds (fun _ _ => True) l := by
  have hfind : (MarketService.getMarketById marketId).All fun o => ∀ l, Grounds l o :=
    all_getMarketById fun _ => trivial
  refine Prog.Along.bind (Prog.Along.of_all (fun l o h => h l) hfind) (fun market l₁ _ => ?_)
    fun _ _ _ => trivial
  split
  · trivial
  · refine Prog.along_perform_bind trivial (fun rows => ?_) fun _ => trivial
    refine Prog.Along.bind (Prog.along_forM (fun bet hbet l' hl' => ?_) List.suffix_rfl)
      (fun _ l₂ _ => ?_) fun _ _ _ => trivial
    · exact along_settleBet hl' market result
        ⟨marketId, .ACCEPTED, rows, saw_head, bet, hbet, rfl, rfl⟩
    · refine Prog.along_perform_bind trivial (fun saved => ?_) fun _ => trivial
      exact Prog.along_perform_bind trivial (fun _ => trivial) fun _ => trivial

/-- **A call has found the bet that it publishes as settled.** -/
theorem api_along (call : ApiCall) : call.body.Along Grounds (fun _ _ => True) [] := by
  cases call with
  | settle marketId result =>
    exact (along_settle marketId result).map (fun _ _ _ => trivial) fun _ _ _ => trivial
  | _ =>
    refine (Prog.Along.of_all (fun l o h => ?_) (body_footprint _)).mono fun _ _ _ => trivial
    cases h <;> trivial

/-! ## Every run -/

variable {i : Nat} {call : ApiCall} {c : Config api}

theorem owns_of_publish (hc : api.Reachable (api.init .empty) c) {u id : Uuid} {name : String}
    {result : MarketResult} {payout : Int}
    (hw : c.Waits i call (.publishNotification (.BET_SETTLED u id name result payout))) :
    c.state.Owns u id := by
  obtain ⟨l, hl, marketId, status, rows, hsaw, b, hb, rfl, rfl⟩ :=
    Machine.along_waits api_along hc hw
  obtain ⟨c₁, c₂, m, -, -, -, hx, h₂⟩ := hl.ran _ hsaw
  obtain ⟨hperm, hstate⟩ := api_betFind_ok hx
  have hmem : b ∈ c₂.state.bets := hstate ▸ (List.mem_filter.mp (hperm.mem_iff.mp hb)).1
  exact Store.Owns.later ⟨b, hmem, rfl, rfl⟩ (Later.reach h₂)

/-- **Every notification of a settled bet names a bet in the table and its user.** -/
theorem notices_named (hc : api.Reachable (api.init .empty) c) {u id : Uuid} {name : String}
    {result : MarketResult} {payout : Int}
    (hn : .BET_SETTLED u id name result payout ∈ c.state.notifications) : c.state.Owns u id := by
  refine hc.follow (J := fun w : World api => ∀ u id name result payout,
      .BET_SETTLED u id name result payout ∈ w.state.notifications → w.state.Owns u id)
    (by simp [Machine.init, Store.empty]) (fun call s s' l hst ih u id name r p hn => ?_)
    (fun v s s' l hv ih u id name r p hn => ?_)
    (fun {c c' i m call o r} hc _ hw _ hx ih u id name result p hn => ?_) u id name result payout hn
  · have hsame := start_tables hst
    exact (ih u id name r p (hsame.notifications ▸ hn)).later (Later.same hsame)
  · have hsame := env_tables hv
    exact (ih u id name r p (hsame.notifications ▸ hn)).later (Later.same hsame)
  · have hlater : Later c.toWorld c'.toWorld := Later.exec hx
    obtain ⟨ch, he⟩ := api_exec_effect hx
    rcases he.notifications_cases with hsame | ⟨n, rfl, hpub⟩
    · exact (ih u id name result p (hsame ▸ hn)).later hlater
    · rcases List.mem_append.mp (hpub ▸ hn) with hn | hn
      · exact (ih u id name result p hn).later hlater
      · obtain rfl := List.mem_singleton.mp hn
        exact (owns_of_publish hc hw).later hlater

/-- Published notifications stay published. -/
theorem notifications_step {c' : Config api} {e : Event api} (hs : api.step c e = some c') :
    c.state.notifications ⊆ c'.state.notifications := by
  rcases Machine.step_cases hs with ⟨i, call, s, -, -, hst, rfl⟩ |
    ⟨i, m, call, o, k, r, w', -, -, hx, rfl⟩ | ⟨i, call, o, k, -, -, rfl⟩ | ⟨v, s, -, hv, rfl⟩
  · exact (start_tables hst).notifications ▸ List.Subset.refl _
  · obtain ⟨ch, he⟩ := api_exec_effect hx
    rcases he.notifications_cases with hsame | ⟨n, -, hpub⟩
    · exact hsame ▸ List.Subset.refl _
    · exact hpub ▸ List.subset_append_left ..
  · exact List.Subset.refl _
  · exact (env_tables hv).notifications ▸ List.Subset.refl _

/-- Bets have ids of their own. -/
theorem betIds (hc : api.Reachable (api.init .empty) c) : c.state.BetIds := by
  refine hc.follow (J := fun w : World api => w.state.BetIds) List.nodup_nil
    (fun _ _ _ _ hst ih => (start_tables hst).betIds ih)
    (fun _ _ _ _ hv ih => (env_tables hv).betIds ih) fun {c c' i m call o r} _ _ _ _ hx ih => ?_
  obtain ⟨ch, he⟩ := api_exec_effect hx
  exact he.betIds ih

end Notices

end BoltBet
