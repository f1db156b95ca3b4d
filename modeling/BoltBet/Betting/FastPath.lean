import BoltBet.Async.Alone
import BoltBet.Betting.Retries

/-!
# The Redis fast path

`placeBet` asks Redis for the bet of a mutation id before it asks the database. Dropping keys, all
of them included, changes nothing: a key there is holds the id of the very bet the database would
find (`Retries.Inv`), and neither lookup reads anything else.

* `exec_sameButKeys`: no operation but the Redis `GET` tells stores with other keys apart.
* `fast_path_transparent`: so the call ends alike with whatever keys are left and with none.
-/

namespace BoltBet

open Async BettingService

namespace Store

/-- The stores differ in their idempotency keys only. -/
def SameButKeys (s t : Store) : Prop := t = { s with idempotency := t.idempotency }

/-- The keys after some expired or were evicted. -/
def DropsKeys (s : Store) (keys : Uuid → Uuid → Option Uuid) : Prop :=
  ∀ u m, keys u m = none ∨ keys u m = s.idempotency u m

/-- The store with these keys. -/
def withKeys (s : Store) (keys : Uuid → Uuid → Option Uuid) : Store :=
  { s with idempotency := keys }

/-- The only bet of a mutation id is found. -/
theorem BetReferences.betOf_of_mem {s : Store} (h : s.BetReferences) {b : Bet} (hb : b ∈ s.bets) :
    s.betOf b.userId b.referenceId = some b := by
  have hsome : (s.betOf b.userId b.referenceId).isSome = true := by
    unfold betOf
    exact List.find?_isSome.mpr ⟨b, hb, by simp⟩
  obtain ⟨b', hb'⟩ := Option.isSome_iff_exists.mp hsome
  obtain ⟨hmem, -, href⟩ := betOf_some hb'
  rw [hb', List.inj_on_of_nodup_map h hmem hb href]

/-- **Keys are read by the Redis `GET` only.** -/
theorem exec_sameButKeys {s t : Store} (h : s.SameButKeys t) (ch : ApiChoice) {o : ApiOp}
    (ho : ∀ u m, o ≠ .redisGet u m) :
    (t.exec ch o).1 = (s.exec ch o).1 ∧ (s.exec ch o).2.SameButKeys (t.exec ch o).2 := by
  unfold SameButKeys at h
  rw [h]
  cases o with
  | redisGet u m => exact absurd rfl (ho u m)
  | betSave d =>
    have hrejects : { s with idempotency := t.idempotency }.rejectsBet ch.fresh d =
      s.rejectsBet ch.fresh d := rfl
    simp only [exec, hrejects]
    split
    · exact ⟨rfl, rfl⟩
    · exact ⟨rfl, rfl⟩
  | marketCreate d =>
    simp only [exec]
    split
    · exact ⟨rfl, rfl⟩
    · split
      · exact ⟨rfl, rfl⟩
      · exact ⟨rfl, rfl⟩
  | _ => exact ⟨rfl, rfl⟩

end Store

namespace FastPath

variable {s t : Store} {i : Nat} {u : Uuid} {dto : PlaceBetDto} {α : Type} {φ : Nat → ApiChoice}

/-- The program ends alike from both stores: same answer or exception, same store but for keys. -/
def SameEnd (i : Nat) (p : Prog ApiSig α) (s t : Store) (φ : Nat → ApiChoice) : Prop :=
  ∃ r s' t', api.finish i p s (fun n => .ok (φ n)) = some (r, s') ∧
    api.finish i p t (fun n => .ok (φ n)) = some (r, t') ∧ s'.SameButKeys t'

/-- An operation that reads no key answers alike. -/
theorem answer_sameButKeys {o : ApiOp} (m : Mode ApiChoice Err) (ho : ∀ u m, o ≠ .redisGet u m)
    (h : s.SameButKeys t) : ∃ r s₁ t₁ took, api.answer i m o s = some (r, s₁, took) ∧
      api.answer i m o t = some (r, t₁, took) ∧ s₁.SameButKeys t₁ := by
  cases m with
  | ok ch =>
    obtain ⟨hr, hstate⟩ := Store.exec_sameButKeys h ch ho
    refine ⟨_, _, _, _, rfl, ?_, hstate⟩
    rw [← hr]
    rfl
  | fail e => exact ⟨_, s, t, _, rfl, rfl, h⟩
  | lost ch e =>
    obtain ⟨hr, hstate⟩ := Store.exec_sameButKeys h ch ho
    refine ⟨.error e, _, _, _, rfl, ?_, hstate⟩
    rw [← hr]
    rfl

/-- From the database lookup on, no key is read. -/
theorem lookupOrPlace_sameEnd (h : s.SameButKeys t) :
    SameEnd i (lookupOrPlace u dto) s t φ := by
  have hall : (lookupOrPlace u dto).All fun o : ApiOp => ∀ u m, o ≠ .redisGet u m := by
    refine Prog.All.bind (Api.all_op (by simp)) fun existing => ?_
    cases existing with
    | some b => trivial
    | none =>
      refine Prog.All.bind (Api.all_assertMarketOpen (by simp)) fun m => ?_
      refine Prog.All.bind (Api.all_wallet (Api.all_lookup_then (by simp) (by simp))) fun _ => ?_
      refine Prog.All.bind (Api.all_op (by simp)) fun b => ?_
      refine Prog.All.bind (Api.all_op (by simp)) fun _ => ?_
      exact Prog.All.bind (Api.all_op (by simp)) fun _ => trivial
  exact Machine.finish_related hall (fun o m s t ho hst => answer_sameButKeys m ho hst) h

/-- `placeBet` after the `GET` of its key. -/
def afterGet (u : Uuid) (dto : PlaceBetDto) : Option Uuid → Prog ApiSig BetResponseDto
  | some cachedBetId => do
    match ← Api.betFindById cachedBetId with
    | some cached => return cached.toDto
    | none => lookupOrPlace u dto
  | none => lookupOrPlace u dto

theorem finish_placeBet {role : Role} (hrole : role ≠ .ADMIN) :
    api.finish i (placeBet u role dto) s (fun n => .ok (φ n)) =
      api.finish i (afterGet u dto (s.idempotency u dto.clientMutationId)) s
        fun n => .ok (φ (n + 1)) := by
  unfold placeBet
  rw [if_neg hrole]
  have hanswer : api.answer i (.ok (φ 0)) (.redisGet u dto.clientMutationId) s =
      some (.ok (s.idempotency u dto.clientMutationId), s, true) := rfl
  refine (Machine.finish_perform hanswer).trans ?_
  cases s.idempotency u dto.clientMutationId <;> rfl

/-- A key that leads to a bet is the answer. -/
theorem finish_cached {b : Bet} (h : s.bet b.id = some b) :
    api.finish i (afterGet u dto (some b.id)) s (fun n => .ok (φ n)) = some (.ok b.toDto, s) := by
  have hanswer : api.answer i (.ok (φ 0)) (.betFindById b.id) s =
      some (.ok (some b), s, true) := by
    rw [← h]
    rfl
  exact (Machine.finish_perform hanswer).trans rfl

/-- So is a bet that the database finds. -/
theorem finish_found {b : Bet} (h : s.betOf u dto.clientMutationId = some b) :
    api.finish i (afterGet u dto none) s (fun n => .ok (φ n)) = some (.ok b.toDto, s) := by
  have hanswer : api.answer i (.ok (φ 0)) (.betFindByReference u dto.clientMutationId) s =
      some (.ok (some b), s, true) := by
    rw [← h]
    rfl
  exact (Machine.finish_perform hanswer).trans rfl

end FastPath

/-- **The fast path is transparent**: in every state that calls have reached, also failed ones, and
with whatever keys are left there, a call of `placeBet` ends as it does with none. -/
theorem fast_path_transparent {c : Config api} (h : api.Reachable (api.init .empty) c)
    {keys : Uuid → Uuid → Option Uuid} (hkeys : c.state.DropsKeys keys) (i : Nat) (u : Uuid)
    (role : Role) (dto : PlaceBetDto) (φ : Nat → ApiChoice) :
    FastPath.SameEnd i (placeBet u role dto) (c.state.withKeys keys)
      (c.state.withKeys fun _ _ => none) φ := by
  by_cases hrole : role = .ADMIN
  · unfold placeBet
    rw [if_pos hrole]
    exact ⟨_, _, _, rfl, rfl, rfl⟩
  have hinv := (Retries.reach h).1
  unfold FastPath.SameEnd
  rw [FastPath.finish_placeBet hrole, FastPath.finish_placeBet hrole]
  show ∃ r s' t', api.finish i (FastPath.afterGet u dto (keys u dto.clientMutationId)) _ _ = _ ∧ _
  cases hkey : keys u dto.clientMutationId with
  | none => exact FastPath.lookupOrPlace_sameEnd rfl
  | some id =>
    -- the key was written for its bet, which is still there
    have hcached : c.state.idempotency u dto.clientMutationId = some id := by
      rcases hkeys u dto.clientMutationId with hnone | hsame
      · exact absurd (hkey.symm.trans hnone) (by simp)
      · exact hsame.symm.trans hkey
    obtain ⟨b, hb, rfl, rfl, href⟩ := hinv.keys _ _ _ hcached
    have hfound := hinv.references.betOf_of_mem hb
    rw [href] at hfound
    exact ⟨_, _, _, FastPath.finish_cached (hinv.betIds.bet_of_mem hb),
      FastPath.finish_found hfound, rfl⟩

/-- After a bet was placed and its key is still there, the client sends the request again. -/
theorem fast_path_transparent_retry : ∃ c, api.Reachable (api.init .empty) c ∧
    c.state.idempotency 7 2 = some 0 ∧ FastPath.SameEnd 3 (placeBet 7 .USER ⟨50, 100, 2, by decide,
      by decide⟩) (c.state.withKeys c.state.idempotency) (c.state.withKeys fun _ _ => none)
      fun _ => {} := by
  obtain ⟨c, hr, hkey⟩ : ∃ c, api.replay (api.init .empty)
      (openMarket ++ .spawn 2 (bet100 2) :: proceed 2 8) = some c ∧
      c.state.idempotency 7 2 = some 0 := ⟨_, rfl, rfl⟩
  have hreach := Machine.Reach.of_replay .init hr
  exact ⟨c, hreach, hkey,
    fast_path_transparent hreach (fun _ _ => .inr rfl) 3 7 .USER _ _⟩

end BoltBet
