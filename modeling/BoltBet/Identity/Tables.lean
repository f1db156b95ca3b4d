import BoltBet.Identity.Machine
import Mathlib.Data.List.Nodup

/-!
# What one operation does to the auth store

`AuthStore.Effect` says once what an operation can do (`exec_effect`). From it:

* `Effect.tokens_cases`: a refresh token is inserted once, and then overwritten or revoked.
* `Effect.drawn_cases`, `Effect.signed_cases`: drawn values and signed tokens are never forgotten.
* `auth_exec_cases`: an operation that was run took effect, or changed nothing.
-/

namespace BoltBet

open Async

/-- The operations that only read or compute. -/
def AuthOp.Reads {T : Type} : AuthOp T → Prop
  | .clock | .randomBytes | .bcryptHash .. | .bcryptCompare .. | .userFindOne _
  | .tokenFindOne _ | .verifyAsync _ | .blacklistGet _ => True
  | _ => False

namespace AuthStore

section Ids

variable {T : Type} {s : AuthStore T} {id : Uuid} {t t' : RefreshToken T}

/-- Ids of refresh tokens are unique. -/
def TokenIds (s : AuthStore T) : Prop := (s.refreshTokens.map RefreshToken.id).Nodup

theorem TokenIds.eq (h : s.TokenIds) (ht : t ∈ s.refreshTokens) (ht' : t' ∈ s.refreshTokens)
    (hid : t.id = t'.id) : t = t' := List.inj_on_of_nodup_map h ht ht' hid

theorem token_mem (h : s.token id = some t) : t ∈ s.refreshTokens :=
  List.mem_of_find?_eq_some h

theorem token_id (h : s.token id = some t) : t.id = id := by simpa using List.find?_some h

theorem mem_revoke {p : RefreshToken T → Bool} : t' ∈ (s.revoke p).refreshTokens ↔
    ∃ t ∈ s.refreshTokens, (p t = true ∧ t' = { t with revoked := true }) ∨
      (p t = false ∧ t' = t) := by
  unfold revoke mapTokens
  simp only [List.mem_map]
  refine exists_congr fun t => and_congr_right fun _ => ?_
  cases h : p t <;> simp [eq_comm]

/-- A statement that picks no token that is not revoked yet changes none. -/
theorem revoke_same {p : RefreshToken T → Bool}
    (h : ∀ t ∈ s.refreshTokens, p t = true → t.revoked = true) :
    (s.revoke p).refreshTokens = s.refreshTokens := by
  unfold AuthStore.revoke AuthStore.mapTokens
  refine (List.map_congr_left fun t ht => ?_).trans (List.map_id _)
  by_cases hp : p t = true
  · have hrevoked := h t ht hp
    rw [if_pos hp, id]
    cases t
    simp_all
  · rw [if_neg hp, id]

theorem revoke_changes {p : RefreshToken T → Bool} {t : RefreshToken T}
    (ht : t ∈ s.refreshTokens) (hp : p t = true) (hr : t.revoked = false) :
    (s.revoke p).refreshTokens ≠ s.refreshTokens := by
  intro h
  have hid : s.refreshTokens.map (fun t => if p t then { t with revoked := true } else t) =
      s.refreshTokens.map id := h.trans (List.map_id _).symm
  have ht' := List.map_inj_left.mp hid t ht
  rw [if_pos hp, id] at ht'
  rw [← ht'] at hr
  exact absurd hr (by simp)

end Ids

variable {T : Type} [Ring T] [LinearOrder T] [FloorRing T] {P : Platform}

/-- **The effects of an operation** of thread `i` that answers a result. -/
inductive Effect (P : Platform) (i : Nat) (ch : AuthChoice) (s : AuthStore T) :
    AuthOp T → AuthStore T → Prop
  | none (o : AuthOp T) (h : o.Reads) : Effect P i ch s o s
  | randomUUID (h : ch.fresh ∉ s.drawn.map Prod.snd) :
    Effect P i ch s .randomUUID { s with drawn := (i, ch.fresh) :: s.drawn }
  | userSave (d : UserDraft) : Effect P i ch s (.userSave d)
      { s with users := s.users ++ [⟨ch.fresh, d.email, d.passwordHash, d.role⟩] }
  | tokenInsert (d : RefreshTokenDraft T) (h : s.token ch.fresh = Option.none) :
    Effect P i ch s (.tokenInsert d) (s.addToken (d.row ch.fresh s.now))
  | tokenSave (t : RefreshToken T) :
    Effect P i ch s (.tokenSave t) (s.mapTokens (·.id = t.id) fun _ => t)
  | tokenRevoke (text : String) (id : Uuid) (h : P.uuidOf text = some id) :
    Effect P i ch s (.tokenRevoke text) (s.revoke (·.id = id))
  | familyRevoke (f : Uuid) : Effect P i ch s (.familyRevoke f) (s.revoke (·.familyId = f))
  | signAsync (claims : JwtClaims) : Effect P i ch s (.signAsync claims)
      { s with signed := (P.jwt (s.payload P claims), s.payload P claims) :: s.signed }
  | blacklistSet (jti : Uuid) (ttl : Int) : Effect P i ch s (.blacklistSet jti ttl)
      { s with blacklist := Function.update s.blacklist jti (some (s.now + ttl)) }
  | join (k : Nat) (u : Uuid) :
    Effect P i ch s (.join k u) { s with rooms := (k, u) :: s.rooms }
  | disconnect (k : Nat) : Effect P i ch s (.disconnect k) (s.close k)
  | emitTo (u : Uuid) (e : GatewayEvent) :
    Effect P i ch s (.emitTo u e) (s.receive (fun k => (k, u) ∈ s.rooms) e)
  | emit (e : GatewayEvent) : Effect P i ch s (.emit e) (s.receive (fun _ => true) e)
  | ack (tag : Nat) :
    Effect P i ch s (.ack tag) { s with unacked := s.unacked.filter (·.1 ≠ tag) }
  | nack (tag : Nat) : Effect P i ch s (.nack tag) { s with
      unacked := s.unacked.filter (·.1 ≠ tag)
      deadLetter := (s.unacked.filter (·.1 = tag)).map Prod.snd ++ s.deadLetter }

variable {i : Nat} {ch : AuthChoice} {o : AuthOp T} {s s' : AuthStore T} {a : o.Res}

theorem exec_effect (h : s.exec P i ch o = some (.ok a, s')) : Effect P i ch s o s' := by
  cases o with
  | randomUUID =>
    simp only [exec] at h
    split at h
    · exact absurd h (by simp)
    · rename_i hd
      obtain ⟨-, rfl⟩ := Prod.mk.inj (Option.some.inj h)
      exact .randomUUID hd
  | userSave d =>
    simp only [exec] at h
    split at h <;> obtain ⟨hr, rfl⟩ := Prod.mk.inj (Option.some.inj h)
    · exact absurd hr (by simp)
    · exact .userSave d
  | tokenInsert d =>
    simp only [exec] at h
    split at h <;> obtain ⟨hr, rfl⟩ := Prod.mk.inj (Option.some.inj h)
    · exact absurd hr (by simp)
    · rename_i hs
      exact .tokenInsert d (by simpa using hs)
  | tokenFindOne text =>
    simp only [exec] at h
    split at h <;> obtain ⟨-, rfl⟩ := Prod.mk.inj (Option.some.inj h) <;> exact .none _ trivial
  | tokenRevoke text =>
    simp only [exec] at h
    split at h <;> obtain ⟨hr, rfl⟩ := Prod.mk.inj (Option.some.inj h)
    · exact absurd hr (by simp)
    · rename_i id hid
      exact .tokenRevoke text id hid
  | clock | randomBytes | bcryptHash | bcryptCompare | userFindOne | verifyAsync | blacklistGet =>
    obtain ⟨-, rfl⟩ := Prod.mk.inj (Option.some.inj h)
    exact .none _ trivial
  | tokenSave t =>
    obtain ⟨-, rfl⟩ := Prod.mk.inj (Option.some.inj h)
    exact .tokenSave t
  | familyRevoke f =>
    obtain ⟨-, rfl⟩ := Prod.mk.inj (Option.some.inj h)
    exact .familyRevoke f
  | signAsync claims =>
    obtain ⟨-, rfl⟩ := Prod.mk.inj (Option.some.inj h)
    exact .signAsync claims
  | blacklistSet jti ttl =>
    obtain ⟨-, rfl⟩ := Prod.mk.inj (Option.some.inj h)
    exact .blacklistSet jti ttl
  | join k u =>
    obtain ⟨-, rfl⟩ := Prod.mk.inj (Option.some.inj h)
    exact .join k u
  | disconnect k =>
    obtain ⟨-, rfl⟩ := Prod.mk.inj (Option.some.inj h)
    exact .disconnect k
  | emitTo u e =>
    obtain ⟨-, rfl⟩ := Prod.mk.inj (Option.some.inj h)
    exact .emitTo u e
  | emit e =>
    obtain ⟨-, rfl⟩ := Prod.mk.inj (Option.some.inj h)
    exact .emit e
  | ack tag =>
    obtain ⟨-, rfl⟩ := Prod.mk.inj (Option.some.inj h)
    exact .ack tag
  | nack tag =>
    obtain ⟨-, rfl⟩ := Prod.mk.inj (Option.some.inj h)
    exact .nack tag

/-- An operation that throws by itself changed nothing. -/
theorem exec_error {e : AuthErr} (h : s.exec P i ch o = some (.error e, s')) : s' = s := by
  cases o with
  | userSave d | tokenInsert d =>
    simp only [exec] at h
    split at h
    · exact (Prod.mk.inj (Option.some.inj h)).2.symm
    · exact absurd (Prod.mk.inj (Option.some.inj h)).1 (by simp)
  | tokenFindOne text | tokenRevoke text =>
    simp only [exec] at h
    split at h
    · exact (Prod.mk.inj (Option.some.inj h)).2.symm
    · exact absurd (Prod.mk.inj (Option.some.inj h)).1 (by simp)
  | verifyAsync token => exact (Prod.mk.inj (Option.some.inj h)).2.symm
  | randomUUID =>
    simp only [exec] at h
    split at h
    · exact absurd h (by simp)
    · exact absurd (Prod.mk.inj (Option.some.inj h)).1 (by simp)
  | _ => exact absurd (Prod.mk.inj (Option.some.inj h)).1 (by simp)

/-- **What an operation does to the refresh tokens.** -/
theorem Effect.tokens_cases (h : Effect P i ch s o s') :
    (s'.refreshTokens = s.refreshTokens ∧ (∀ d, o ≠ .tokenInsert d) ∧ ∀ t, o ≠ .tokenSave t) ∨
    (∃ d, o = .tokenInsert d ∧ s.token ch.fresh = Option.none ∧
      s'.refreshTokens = s.refreshTokens ++ [d.row ch.fresh s.now]) ∨
    (∃ t, o = .tokenSave t ∧
      s'.refreshTokens = s.refreshTokens.map fun t₀ => if t₀.id = t.id then t else t₀) ∨
    ∃ p : RefreshToken T → Bool, ((∃ text id, o = .tokenRevoke text ∧ P.uuidOf text = some id ∧
        p = fun t : RefreshToken T => decide (t.id = id)) ∨
        ∃ f, o = .familyRevoke f ∧ p = fun t : RefreshToken T => decide (t.familyId = f)) ∧
      s'.refreshTokens =
        s.refreshTokens.map fun t => if p t then { t with revoked := true } else t := by
  cases h with
  | tokenInsert d hd => exact .inr (.inl ⟨d, rfl, hd, rfl⟩)
  | tokenSave t => exact .inr (.inr (.inl ⟨t, rfl, by simp [mapTokens]⟩))
  | tokenRevoke text id hid => exact .inr (.inr (.inr ⟨_, .inl ⟨text, id, rfl, hid, rfl⟩, rfl⟩))
  | familyRevoke f => exact .inr (.inr (.inr ⟨_, .inr ⟨f, rfl, rfl⟩, rfl⟩))
  | none o ho => exact .inl ⟨rfl, fun d hd => by simp [hd, AuthOp.Reads] at ho,
      fun t ht => by simp [ht, AuthOp.Reads] at ho⟩
  | _ => exact .inl ⟨rfl, fun _ => by simp, fun _ => by simp⟩

theorem Effect.familyRevoke_eq {f : Uuid} (h : Effect P i ch s (.familyRevoke f) s') :
    s' = s.revoke (·.familyId = f) := by
  cases h with
  | none _ ho => exact ho.elim
  | familyRevoke f => rfl

theorem Effect.tokenRevoke_eq {text : String} (h : Effect P i ch s (.tokenRevoke text) s') :
    ∃ id, P.uuidOf text = some id ∧ s' = s.revoke (·.id = id) := by
  cases h with
  | none _ ho => exact ho.elim
  | tokenRevoke text id hid => exact ⟨id, hid, rfl⟩

/-- What `randomUUID` drew stays drawn, by the same thread. -/
theorem Effect.drawn_cases (h : Effect P i ch s o s') :
    s'.drawn = s.drawn ∨
      (o = .randomUUID ∧ ch.fresh ∉ s.drawn.map Prod.snd ∧
        s'.drawn = (i, ch.fresh) :: s.drawn) := by
  cases h with
  | randomUUID h => exact .inr ⟨rfl, h, rfl⟩
  | _ => exact .inl rfl

theorem Effect.drawn_nodup (h : Effect P i ch s o s') (hs : (s.drawn.map Prod.snd).Nodup) :
    (s'.drawn.map Prod.snd).Nodup := by
  rcases h.drawn_cases with hd | ⟨-, hf, hd⟩
  · rw [hd]
    exact hs
  · rw [hd, List.map_cons]
    exact List.nodup_cons.mpr ⟨hf, hs⟩

theorem Effect.drawn_subset (h : Effect P i ch s o s') : s.drawn ⊆ s'.drawn := by
  rcases h.drawn_cases with hd | ⟨-, -, hd⟩
  · rw [hd]
    exact List.Subset.refl _
  · rw [hd]
    exact List.subset_cons_self ..

/-- Tokens stay signed. -/
theorem Effect.signed_cases (h : Effect P i ch s o s') :
    s'.signed = s.signed ∨ ∃ claims, o = .signAsync claims ∧
      s'.signed = (P.jwt (s.payload P claims), s.payload P claims) :: s.signed := by
  cases h with
  | signAsync claims => exact .inr ⟨claims, rfl, rfl⟩
  | _ => exact .inl rfl

theorem Effect.signed_subset (h : Effect P i ch s o s') : s.signed ⊆ s'.signed := by
  rcases h.signed_cases with hs | ⟨claims, -, hs⟩
  · rw [hs]
    exact List.Subset.refl _
  · rw [hs]
    exact List.subset_cons_self ..

theorem Effect.blacklist_cases (h : Effect P i ch s o s') :
    (s'.blacklist = s.blacklist ∧ ∀ jti ttl, o ≠ .blacklistSet jti ttl) ∨
      ∃ jti ttl, o = .blacklistSet jti ttl ∧
        s'.blacklist = Function.update s.blacklist jti (some (s.now + ttl)) := by
  cases h with
  | blacklistSet jti ttl => exact .inr ⟨jti, ttl, rfl, rfl⟩
  | none o ho => exact .inl ⟨rfl, fun jti ttl he => by simp [he, AuthOp.Reads] at ho⟩
  | _ => exact .inl ⟨rfl, fun _ _ => by simp⟩

/-- Who is in a room was there, or joins it. -/
theorem Effect.rooms_cases (h : Effect P i ch s o s') {x : Nat × Uuid} (hx : x ∈ s'.rooms) :
    x ∈ s.rooms ∨ o = .join x.1 x.2 := by
  cases h with
  | join k u =>
    rcases List.mem_cons.mp hx with rfl | hx
    · exact .inr rfl
    · exact .inl hx
  | disconnect k => exact .inl (List.filter_subset_self _ hx)
  | _ => exact .inl hx

/-- What a socket received, it had, or was sent to all or to a room it is in. -/
theorem Effect.received_cases (h : Effect P i ch s o s') {x : Nat × GatewayEvent}
    (hx : x ∈ s'.received) :
    x ∈ s.received ∨ (∃ u, o = .emitTo u x.2 ∧ (x.1, u) ∈ s.rooms) ∨ o = .emit x.2 := by
  cases h with
  | emitTo u e =>
    rcases List.mem_append.mp hx with hx | hx
    · obtain ⟨k, hk, rfl⟩ := List.mem_map.mp hx
      exact .inr (.inl ⟨u, rfl, of_decide_eq_true (List.mem_filter.mp hk).2⟩)
    · exact .inl hx
  | emit e =>
    rcases List.mem_append.mp hx with hx | hx
    · obtain ⟨k, -, rfl⟩ := List.mem_map.mp hx
      exact .inr (.inr rfl)
    · exact .inl hx
  | _ => exact .inl hx

/-- Operations take no time. -/
theorem Effect.now_eq (h : Effect P i ch s o s') : s'.now = s.now := by
  cases h <;> rfl

theorem Effect.tokenIds (h : Effect P i ch s o s') (hs : s.TokenIds) : s'.TokenIds := by
  unfold TokenIds at hs ⊢
  rcases h.tokens_cases with ⟨ht, -⟩ | ⟨d, -, hd, ht⟩ | ⟨t, -, ht⟩ | ⟨p, -, ht⟩
  · rw [ht]
    exact hs
  · rw [ht, List.map_append, List.nodup_append]
    refine ⟨hs, List.nodup_singleton _, ?_⟩
    rintro a ha b hb rfl
    obtain ⟨t, htm, rfl⟩ := List.mem_map.mp ha
    have hne : ¬ t.id = ch.fresh := by simpa using List.find?_eq_none.mp hd t htm
    exact hne (List.mem_singleton.mp hb)
  · have hid : (RefreshToken.id ∘ fun t₀ : RefreshToken T => if t₀.id = t.id then t else t₀) =
        RefreshToken.id := by
      funext t₀
      by_cases h : t₀.id = t.id <;> simp [h]
    rw [ht, List.map_map, hid]
    exact hs
  · have hid : (RefreshToken.id ∘ fun t : RefreshToken T =>
        if p t then { t with revoked := true } else t) = RefreshToken.id := by
      funext t
      by_cases h : p t <;> simp [h]
    rw [ht, List.map_map, hid]
    exact hs

end AuthStore

section Exec

variable {T : Type} [Ring T] [LinearOrder T] [FloorRing T] {P : Platform} {i : Nat}
  {call : AuthCall} {o : AuthOp T} {w w' : World (auth T P)} {r : Except AuthErr o.Res}

/-- **An operation that was run**, whatever its answer: it took effect, or changed nothing. -/
theorem auth_exec_cases (h : (auth T P).Exec i call o w r w') :
    ∃ took, w'.trace = ⟨i, call, o, took, w.state⟩ :: w.trace ∧
      (took = true ∧ (∃ ch a, w.state.exec P i ch o = some (.ok a, w'.state)) ∨
        took = false ∧ w'.state = w.state) := by
  rcases h.cases with ⟨ch, r₀, s, hs, -, rfl⟩ | ⟨e, -, rfl⟩
  · refine ⟨_, rfl, ?_⟩
    cases r₀ with
    | ok a => exact .inl ⟨rfl, ch, a, hs⟩
    | error e => exact .inr ⟨rfl, AuthStore.exec_error hs⟩
  · exact ⟨false, rfl, .inr ⟨rfl, rfl⟩⟩

/-- The effect of an operation that was run, if it took effect. -/
theorem auth_exec_effect (h : (auth T P).Exec i call o w r w') :
    w'.state = w.state ∨ ∃ ch, AuthStore.Effect P i ch w.state o w'.state := by
  obtain ⟨-, -, ⟨-, ch, a, hx⟩ | ⟨-, hs⟩⟩ := auth_exec_cases h
  · exact .inr ⟨ch, AuthStore.exec_effect hx⟩
  · exact .inl hs

/-- An operation that answered a result. -/
theorem auth_exec_ok {a : o.Res} (h : (auth T P).Exec i call o w (.ok a) w') :
    ∃ ch, w.state.exec P i ch o = some (.ok a, w'.state) ∧
      w'.trace = ⟨i, call, o, true, w.state⟩ :: w.trace := by
  obtain ⟨ch, s, hs, rfl⟩ := h.ok_cases
  exact ⟨ch, hs, rfl⟩

end Exec

section Idle

variable {T : Type} {s s' : AuthStore T}

/-- Starting a call touches no table of authentication. -/
theorem auth_start_tables {call : AuthCall} (h : call.start s = some s') :
    s'.refreshTokens = s.refreshTokens ∧ s'.drawn = s.drawn ∧ s'.signed = s.signed ∧
      s'.blacklist = s.blacklist ∧ s'.now = s.now := by
  cases call <;> obtain rfl := Option.some.inj h <;> exact ⟨rfl, rfl, rfl, rfl, rfl⟩

/-- What a step of the surroundings does. -/
theorem auth_env_cases [LinearOrder T] {v : AuthEnv T} (h : v.step s = some s') :
    (∃ now, s.now ≤ now ∧ s' = { s with now }) ∨ ∃ socket, s' = s.close socket := by
  cases v with
  | tick now =>
    simp only [AuthEnv.step] at h
    split at h
    · rename_i hle
      exact .inl ⟨now, hle, (Option.some.inj h).symm⟩
    · exact absurd h (by simp)
  | closed socket => exact .inr ⟨socket, (Option.some.inj h).symm⟩

/-- The surroundings touch no table of authentication, and time does not go back. -/
theorem auth_env_tables [LinearOrder T] {v : AuthEnv T} (h : v.step s = some s') :
    s'.refreshTokens = s.refreshTokens ∧ s'.drawn = s.drawn ∧ s'.signed = s.signed ∧
      s'.blacklist = s.blacklist ∧ s.now ≤ s'.now := by
  rcases auth_env_cases h with ⟨now, hle, rfl⟩ | ⟨socket, rfl⟩
  · exact ⟨rfl, rfl, rfl, rfl, hle⟩
  · exact ⟨rfl, rfl, rfl, rfl, le_refl _⟩

/-- A call that starts, joins no room and receives nothing. -/
theorem auth_start_rooms {call : AuthCall} (h : call.start s = some s') :
    s'.rooms = s.rooms ∧ s'.received = s.received := by
  cases call <;> obtain rfl := Option.some.inj h <;> exact ⟨rfl, rfl⟩

/-- The surroundings only take sockets out of their rooms. -/
theorem auth_env_rooms [LinearOrder T] {v : AuthEnv T} (h : v.step s = some s') :
    s'.rooms ⊆ s.rooms ∧ s'.received = s.received := by
  rcases auth_env_cases h with ⟨now, -, rfl⟩ | ⟨socket, rfl⟩
  · exact ⟨List.Subset.refl _, rfl⟩
  · exact ⟨List.filter_subset_self _, rfl⟩

end Idle

end BoltBet
