import BoltBet.Api.Footprint
import BoltBet.Api.Tables
import BoltBet.Async.Knowledge

/-!
# What threads of the API know

Starting a call, Redis and RabbitMQ touch no table, so what threads know of the tables and of the
past only has to survive the operations of the others (`apiKnowledge`). The rules of `ApiRules` run
the parts of the services that several disciplines share: reading a market, placing a bet, a
delivery.
-/

namespace BoltBet

open Async

/-- A discipline about the tables and the past. -/
def apiKnowledge (inv : World api → Prop) (le : World api → World api → Prop)
    (K : Nat → ApiCall → ApiOp → World api → Prop)
    (cond : Nat → ApiCall → (o : ApiOp) → World api → Except Err o.Res → World api → Prop)
    (refl : ∀ w, le w w)
    (trans : ∀ {w w₁ w₂}, le w w₁ → le w₁ w₂ → le w w₂)
    (exec : ∀ {i call o w r w'}, inv w → K i call o w → cond i call o w r w' →
      api.Exec i call o w r w' →
      inv w' ∧ le w w' ∧ ∀ j call' o', j ≠ i → K j call' o' w → K j call' o' w')
    (same : ∀ {s s' l}, s.SameTables s' → inv ⟨s, l⟩ →
      inv ⟨s', l⟩ ∧ le ⟨s, l⟩ ⟨s', l⟩ ∧ ∀ i call o, K i call o ⟨s, l⟩ → K i call o ⟨s', l⟩) :
    Knowledge api where
  inv := inv
  le := le
  K := K
  cond := cond
  refl := refl
  trans := trans
  exec := exec
  start hs := same (start_tables hs)
  env hs := same (env_tables hs)

/-- `w'` is `w` or comes after it: the past stays, bets stay, and ledger rows stay. -/
structure Later (w w' : World api) : Prop where
  trace : w.trace <:+ w'.trace
  bets : ∀ b ∈ w.state.bets, ∃ b' ∈ w'.state.bets, b.Same b'
  txs : w.state.wallet.walletTransactions ⊆ w'.state.wallet.walletTransactions

namespace Later

variable {w w₁ w₂ : World api}

theorem refl (w : World api) : Later w w :=
  ⟨List.suffix_rfl, fun b hb => ⟨b, hb, .refl b⟩, List.Subset.refl _⟩

theorem trans (h : Later w w₁) (h' : Later w₁ w₂) : Later w w₂ where
  trace := h.trace.trans h'.trace
  bets b hb := by
    obtain ⟨b₁, hb₁, h₁⟩ := h.bets b hb
    obtain ⟨b₂, hb₂, h₂⟩ := h'.bets b₁ hb₁
    exact ⟨b₂, hb₂, h₁.trans h₂⟩
  txs := List.Subset.trans h.txs h'.txs

theorem exec {i : Nat} {call : ApiCall} {o : ApiOp} {r : Except Err o.Res}
    (hx : api.Exec i call o w r w₁) : Later w w₁ := by
  obtain ⟨ch, he⟩ := api_exec_effect hx
  obtain ⟨took, htr⟩ := hx.entry
  exact ⟨htr ▸ List.suffix_cons _ _, fun b hb => he.bet_after hb, he.txs_grow.subset⟩

theorem same {s s' : Store} {l : List (Entry api)} (h : s.SameTables s') :
    Later ⟨s, l⟩ ⟨s', l⟩ := by
  refine ⟨List.suffix_rfl, fun b hb => ⟨b, h.bets.symm ▸ hb, .refl b⟩, ?_⟩
  show s.wallet.walletTransactions ⊆ s'.wallet.walletTransactions
  rw [h.wallet]
  exact List.Subset.refl _

theorem step {c c' : Config api} {e : Event api} (h : api.step c e = some c') :
    Later c.toWorld c'.toWorld := by
  rcases Machine.step_cases h with ⟨i, call, s, -, -, hst, rfl⟩ |
    ⟨i, m, call, o, k, r, w', -, -, hx, rfl⟩ | ⟨i, call, o, k, -, -, rfl⟩ | ⟨v, s, -, hv, rfl⟩
  · exact same (start_tables hst)
  · exact exec hx
  · exact refl c.toWorld
  · exact same (env_tables hv)

theorem reach {c c' : Config api} (h : api.Reachable c c') : Later c.toWorld c'.toWorld := by
  induction h with
  | init => exact refl c.toWorld
  | step e _ _ hs ih => exact ih.trans (step hs)

/-- What happened is still in the past. -/
theorem past (h : Later w w₁) {P : Entry api → Prop} (hx : ∃ x ∈ w.trace, P x) :
    ∃ x ∈ w₁.trace, P x := by
  obtain ⟨x, hx, hp⟩ := hx
  exact ⟨x, h.trace.subset hx, hp⟩

end Later

namespace ApiRules

variable {D : Knowledge api} {i : Nat} {call : ApiCall} {α : Type}

/-- A part that runs operations of `P` only, and then a part that needs nothing of it. -/
theorem safe_then {P : ApiOp → Prop} (hP : ∀ o, P o → ∀ w, D.K i call o w) {p : Prog ApiSig α}
    {β : Type} {f : α → Prog ApiSig β} {Q : Except Err β → World api → Prop} {w : World api}
    (hp : p.All P) (hf : ∀ a w', D.rules.Safe i call Q (f a) w')
    (hQ : ∀ e w', Q (.error e) w') : D.rules.Safe i call Q (p >>= f) w :=
  Rules.safe_seq (Knowledge.safe_of_known hP hp w)
    (fun a w' _ => hf a w') fun e w' _ => hQ e w'

/-- One part after the other. -/
theorem safe_bind' {p : Prog ApiSig α} {β : Type} {f : α → Prog ApiSig β} {w : World api}
    (hp : D.rules.Safe i call (fun _ _ => True) p w)
    (hf : ∀ a w', D.rules.Safe i call (fun _ _ => True) (f a) w') :
    D.rules.Safe i call (fun _ _ => True) (p >>= f) w :=
  Rules.safe_seq hp (fun a w' _ => hf a w') fun _ _ _ => trivial

/-- A part, and what handles its errors. -/
theorem safe_tryCatch' {p : Prog ApiSig α} {h : Err → Prog ApiSig α} {w : World api}
    (hp : D.rules.Safe i call (fun _ _ => True) p w)
    (hh : ∀ e w', D.rules.Safe i call (fun _ _ => True) (h e) w') :
    D.rules.Safe i call (fun _ _ => True) (p.tryCatch h) w :=
  Rules.safe_try hp (fun _ _ _ => trivial) fun e w' _ => hh e w'

/-- The answer of a call is its program's, wrapped. -/
theorem safe_map {β : Type} {p : Prog ApiSig α} {f : α → β} {w : World api}
    (hp : D.rules.Safe i call (fun _ _ => True) p w) :
    D.rules.Safe i call (fun _ _ => True) (f <$> p) w := by
  rw [map_eq_pure_bind]
  exact Rules.safe_seq hp (fun _ _ _ => trivial) fun _ _ _ => trivial

/-- Reading a market. -/
theorem safe_getMarketById {id : Uuid} {Q : Except Err Market → World api → Prop} {w : World api}
    (hK : D.K i call (.marketFindOne id) w)
    (hQ : ∀ {m w₁ w₂}, D.inv w₁ → api.Exec i call (.marketFindOne id) w₁ (.ok (some m)) w₂ →
      D.inv w₂ → Q (.ok m) w₂)
    (herr : ∀ e w₂, Q (.error e) w₂) :
    D.rules.Safe i call Q (MarketService.getMarketById id) w := by
  unfold MarketService.getMarketById
  refine Rules.safe_bind.mpr (Knowledge.safe_op' hK fun {w₁ r w₂} hinv _ hx hinv₂ => ?_)
  rcases r with e | _ | m
  · exact herr e w₂
  · exact herr _ w₂
  · exact hQ hinv hx hinv₂

/-- The calls of `placeBet`, when its new bets are safe. -/
theorem safe_placeBet {u : Uuid} {role : Role} {dto : PlaceBetDto} {P : ApiOp → Prop}
    (hP : ∀ o, P o → ∀ w, D.K i call o w) (hget : ∀ u m, P (.redisGet u m))
    (hid : ∀ id, P (.betFindById id)) (href : ∀ u m, P (.betFindByReference u m))
    (hnew : ∀ w, D.rules.Safe i call (fun _ _ => True) (BettingService.placeNewBet u dto) w)
    (w : World api) :
    D.rules.Safe i call (fun _ _ => True) (BettingService.placeBet u role dto) w := by
  have hplace : ∀ w, D.rules.Safe i call (fun _ _ => True)
      (BettingService.lookupOrPlace u dto) w := by
    intro w
    refine safe_then hP (Api.all_op (href _ _)) (fun existing w => ?_) fun _ _ => trivial
    cases existing with
    | some b => trivial
    | none => exact hnew w
  unfold BettingService.placeBet
  split
  · trivial
  · refine safe_then hP (Api.all_op (hget _ _)) (fun cached w => ?_) fun _ _ => trivial
    cases cached with
    | none => exact hplace w
    | some id =>
      refine safe_then hP (Api.all_op (hid id)) (fun b w => ?_) fun _ _ => trivial
      cases b with
      | some b => trivial
      | none => exact hplace w

/-- A worker that updates a bet has just read it as `PENDING`. -/
theorem safe_transitionStatus {id : Uuid} {w : World api} (hfind : D.K i call (.betFindById id) w)
    (hupdate : ∀ {bet w₁ w₂}, api.Exec i call (.betFindById id) w₁ (.ok (some bet)) w₂ →
      w₂.state.betStatus id = some .PENDING → D.K i call (.betUpdate id .ACCEPTED) w₂) :
    D.rules.Safe i call (fun _ _ => True) (BettingService.transitionStatus id .ACCEPTED) w := by
  unfold BettingService.transitionStatus
  refine Rules.safe_bind.mpr (Knowledge.safe_op' hfind fun {w₁ r w₂} _ _ hx _ => ?_)
  rcases r with e | _ | bet
  · trivial
  · trivial
  obtain ⟨hb, hs⟩ := api_betFindById_ok hx
  dsimp only
  split
  · rename_i hallowed
    have hpending : bet.status = .PENDING := by
      cases hst : bet.status <;> simp_all [ALLOWED_TRANSITIONS]
    have hst : w₂.state.betStatus id = some .PENDING := by
      rw [hs, Store.betStatus, ← hb, ← hpending]
      rfl
    exact Knowledge.safe_op' (hupdate hx hst) fun _ _ _ _ => trivial
  · trivial

/-- The calls of a delivery, when its transition is safe. -/
theorem safe_consume {tag : Nat} {p : BetPlacementPayload} {P : ApiOp → Prop}
    (hP : ∀ o, P o → ∀ w, D.K i call o w) (hfind : P (.betFindById p.betId)) (hack : P (.ack tag))
    (hnack : P (.nack tag))
    (htransition : ∀ w, D.rules.Safe i call (fun _ _ => True)
      (BettingService.transitionStatus p.betId .ACCEPTED) w) (w : World api) :
    D.rules.Safe i call (fun _ _ => True) (SettlementWorker.consume tag p) w := by
  have hterminal : (BettingService.isTerminalState p.betId).All P := by
    refine Prog.All.bind (Api.all_op hfind) fun b => ?_
    cases b <;> trivial
  have hnack : ∀ w, D.rules.Safe i call (fun _ _ => True) (Api.nack tag) w :=
    Knowledge.safe_of_known hP (Api.all_op hnack)
  have hack : ∀ w, D.rules.Safe i call (fun _ _ => True) (Api.ack tag) w :=
    Knowledge.safe_of_known hP (Api.all_op hack)
  refine safe_tryCatch' (safe_tryCatch' (safe_bind' (safe_tryCatch' (safe_bind' (htransition w)
    fun _ _ => trivial) fun _ w => ?_) fun acked w => ?_) fun _ => hnack) fun _ => hnack
  · refine safe_bind' (Knowledge.safe_of_known hP hterminal w) fun t w => ?_
    cases t with
    | true => exact safe_bind' (hack w) fun _ _ => trivial
    | false => trivial
  · cases acked with
    | true => trivial
    | false => exact hack w

end ApiRules

end BoltBet
