import BoltBet.Identity.Custody

/-!
# Revocation of refresh tokens

`revokeFamilyByFamilyId` revokes the rows that exist, and `logout` revokes the row of its cookie. A
refresh in flight then still writes its stale copy back, or inserts a successor that is not
revoked (`auth_revoked_family_lives`).

* `GivesWay`: what is asked of a save, of the insert of a successor, and of the update of `logout`.
* `Dead f`: no token of the family `f` can be exchanged, and whoever saved one of them before will
  not insert its successor.
* `Dead.step`: a dead family stays dead, when refreshes in flight give way.
* `auth_revoked_for_good`: so revocation is permanent in every run in which they do.
-/

namespace BoltBet

open Async Exchange Custody

variable {T : Type} [Ring T] [LinearOrder T] [FloorRing T] {P : Platform}

/-- The family of the successor that an operation of a refresh call issued. -/
def exchanges? (x : Entry (auth T P)) : Option Uuid :=
  match x.call, x.op with
  | .refresh _, .tokenInsert d => if x.took then some d.familyId else none
  | _, _ => none

/-- The id of the token that `logout` revokes. -/
def AuthOp.revokes? (P : Platform) : AuthOp T → Option Uuid
  | .tokenRevoke text => P.uuidOf text
  | _ => none

/-- A token with this id, of this family, was live. -/
def Live (id f : Uuid) (s : AuthStore T) : Prop :=
  ∃ t ∈ s.refreshTokens, t.id = id ∧ t.familyId = f ∧ t.live = true

/-- An operation kills a family: it revokes it, or it is the update of a `logout` call that
presented the live token of the family. -/
def Kills (f : Uuid) (x : Entry (auth T P)) (past : List (Entry (auth T P))) : Prop :=
  x.took = true ∧ (x.op = .familyRevoke f ∨
    ∃ id ∈ x.op.revokes? P, ∃ y ∈ x :: past, y.tid = x.tid ∧ Live id f y.before)

/-- **Revocation is permanent**: a killed family sees no further exchange, and a revoked token
stays revoked. -/
structure RevokedForGood (c : Config (auth T P)) : Prop where
  ended : ∀ l x past f, c.trace = l ++ x :: past → Kills f x past →
    ∀ y ∈ l, exchanges? y ≠ some f
  stays : ∀ y ∈ c.trace, ∀ t ∈ y.before.refreshTokens, t.revoked = true →
    ∃ t' ∈ c.state.refreshTokens, t'.id = t.id ∧ t'.revoked = true

/-- Thread `i` saves a token of the family. -/
def Saves (i : Nat) (f : Uuid) (x : Entry (auth T P)) : Prop :=
  x.tid = i ∧ x.took = true ∧ ∃ e ∈ x.op.saved?, e.familyId = f

/-- The family was killed after the last save of one of its tokens by thread `i`. -/
def KilledSince (i : Nat) (f : Uuid) : List (Entry (auth T P)) → Prop
  | [] => False
  | x :: past => ¬ Saves i f x ∧ (Kills f x past ∨ KilledSince i f past)

/-- A save that takes effect finds its row not revoked and, if a token of its family is revoked,
unused. -/
def SavesLive (x : Entry (auth T P)) : Prop :=
  x.took = true → ∀ t ∈ x.op.saved?, ∀ row ∈ x.before.refreshTokens, row.id = t.id →
    row.revoked = false ∧ (row.used = true →
      ∀ t' ∈ x.before.refreshTokens, t'.familyId = row.familyId → t'.revoked = false)

/-- A successor is inserted into a family that was not killed since its thread saved the token. -/
def InsertsKept (x : Entry (auth T P)) (past : List (Entry (auth T P))) : Prop :=
  ∀ f ∈ exchanges? x, ¬ KilledSince x.tid f past

/-- No other token of the family is live. -/
def NoOther (id f : Uuid) (s : AuthStore T) : Prop :=
  ∀ row ∈ s.refreshTokens, row.familyId = f → row.id ≠ id → row.live = false

/-- The update of `logout`, for a token that was live during the call, finds no other live token of
the family. -/
def LogsOutLast (x : Entry (auth T P)) (past : List (Entry (auth T P))) : Prop :=
  x.took = true → ∀ id ∈ x.op.revokes? P, ∀ y ∈ x :: past, y.tid = x.tid →
    ∀ t ∈ y.before.refreshTokens, t.id = id → t.live = true → NoOther id t.familyId x.before

instance (id f : Uuid) (s : AuthStore T) : Decidable (Live id f s) :=
  inferInstanceAs (Decidable (∃ t ∈ s.refreshTokens, _))

instance (id f : Uuid) (s : AuthStore T) : Decidable (NoOther id f s) :=
  inferInstanceAs (Decidable (∀ row ∈ s.refreshTokens, _))

instance (f : Uuid) (x : Entry (auth T P)) (past : List (Entry (auth T P))) :
    Decidable (Kills f x past) :=
  inferInstanceAs (Decidable (x.took = true ∧ (x.op = .familyRevoke f ∨ _)))

instance (i : Nat) (f : Uuid) (x : Entry (auth T P)) : Decidable (Saves i f x) :=
  inferInstanceAs (Decidable (x.tid = i ∧ x.took = true ∧ _))

instance decidableKilledSince (i : Nat) (f : Uuid) :
    ∀ l : List (Entry (auth T P)), Decidable (KilledSince i f l)
  | [] => inferInstanceAs (Decidable False)
  | x :: past =>
    have : Decidable (KilledSince i f past) := decidableKilledSince i f past
    inferInstanceAs (Decidable (¬ Saves i f x ∧ (Kills f x past ∨ KilledSince i f past)))

instance (x : Entry (auth T P)) : Decidable (SavesLive x) :=
  inferInstanceAs (Decidable (x.took = true → ∀ t ∈ x.op.saved?, _))

instance (x : Entry (auth T P)) (past : List (Entry (auth T P))) :
    Decidable (InsertsKept x past) :=
  inferInstanceAs (Decidable (∀ f ∈ exchanges? x, ¬ KilledSince x.tid f past))

instance (x : Entry (auth T P)) (past : List (Entry (auth T P))) :
    Decidable (LogsOutLast x past) :=
  inferInstanceAs (Decidable (x.took = true → ∀ id ∈ x.op.revokes? P, _))

/-- **The condition**: refreshes in flight give way to a revocation. -/
structure GivesWay (x : Entry (auth T P)) (past : List (Entry (auth T P))) : Prop where
  save : SavesLive x
  insert : InsertsKept x past
  logout : LogsOutLast x past

instance (x : Entry (auth T P)) (past : List (Entry (auth T P))) : Decidable (GivesWay x past) :=
  decidable_of_iff (SavesLive x ∧ InsertsKept x past ∧ LogsOutLast x past)
    ⟨fun h => ⟨h.1, h.2.1, h.2.2⟩, fun h => ⟨h.save, h.insert, h.logout⟩⟩

section Lemmas

variable {f : Uuid} {x : Entry (auth T P)} {l : List (Entry (auth T P))}

theorem exchanges?_eq_some : exchanges? x = some f ↔
    x.took = true ∧ (∃ d, x.op = .tokenInsert d ∧ d.familyId = f) ∧
      ∃ req, x.call = .refresh req := by
  unfold exchanges?
  split
  · rename_i req d hcall hop
    simp [hcall, hop]
  · rename_i hne
    refine iff_of_false (by simp) ?_
    rintro ⟨-, ⟨d, hop, -⟩, req, hcall⟩
    exact hne req d hcall hop

theorem saves_iff {i : Nat} : Saves i f x ↔
    x.tid = i ∧ x.took = true ∧ ∃ e, x.op = .tokenSave e ∧ e.familyId = f := by
  simp [Saves, ← AuthOp.saved?_eq_some]

end Lemmas

namespace Revocation

/-- What a thread knows of the token that it is about to write. -/
structure Knows (i : Nat) (call : AuthCall) (o : AuthOp T) (w : World (auth T P)) : Prop where
  ids : w.state.TokenIds
  save : ∀ e, o = .tokenSave e → HasRow e.id e.familyId w
  revoke : ∀ f, o = .familyRevoke f → ∃ t ∈ w.state.refreshTokens, t.familyId = f
  insert : ∀ d, o = .tokenInsert d →
    ((∃ req, call = .refresh req) ∧ SavedIn i d.familyId w.trace) ∨
      ∀ t ∈ w.state.refreshTokens, t.familyId ≠ d.familyId

/-- **A dead family**: it was revoked, none of its tokens is live, and it was killed since any save
of them. -/
structure Dead (f : Uuid) (w : World (auth T P)) : Prop where
  revoked : ∃ t ∈ w.state.refreshTokens, t.familyId = f ∧ t.revoked = true
  notLive : ∀ t ∈ w.state.refreshTokens, t.familyId = f → t.used = true ∨ t.revoked = true
  flight : ∀ i, SavedIn i f w.trace → KilledSince i f w.trace

variable {i : Nat} {call : AuthCall} {o : AuthOp T} {w w' : World (auth T P)}
  {r : Except AuthErr o.Res} {f : Uuid} {x : Entry (auth T P)}

/-- What waiting threads know. -/
theorem knows_of_waits {now : T} {c : Config (auth T P)}
    (hc : (auth T P).Reachable ((auth T P).init (.empty now)) c) (hw : c.Waits i call o) :
    Knows i call o c.toWorld where
  ids := (Custody.reach hc).ids
  save e ho := by
    subst ho
    obtain ⟨t, ht, -, rfl⟩ := saves_found hc hw
    exact ht.row (Custody.reach hc)
  revoke f ho := by
    subst ho
    obtain ⟨t, ht, -, rfl⟩ := revokes_found hc hw
    obtain ⟨row, hr, -, hf⟩ := ht.row (Custody.reach hc)
    exact ⟨row, hr, hf⟩
  insert d ho := by
    subst ho
    rcases inserts_saved hc hw with ⟨hd, hno⟩ | hsaved
    · exact .inr ((Custody.reach hc).no_token hd hno)
    · exact .inl hsaved

/-- No token is inserted into a dead family. -/
theorem Dead.not_insert {d : RefreshTokenDraft T} (hk : Knows i call (.tokenInsert d) w)
    (hd : Dead d.familyId w)
    (hgood : GivesWay ⟨i, call, .tokenInsert d, true, w.state⟩ w.trace) : False := by
  rcases hk.insert d rfl with ⟨⟨req, rfl⟩, hs⟩ | hno
  · exact hgood.insert d.familyId rfl (hd.flight i hs)
  · obtain ⟨t, ht, hf, -⟩ := hd.revoked
    exact hno t ht hf

/-- No token of a dead family is saved. -/
theorem Dead.not_save {e : RefreshToken T} (hk : Knows i call (.tokenSave e) w)
    (hd : Dead e.familyId w) (hgood : GivesWay ⟨i, call, .tokenSave e, true, w.state⟩ w.trace) :
    False := by
  obtain ⟨row, hr, hid, hf⟩ := hk.save e rfl
  obtain ⟨hrev, hfresh⟩ := hgood.save rfl e rfl row hr hid
  have hu : row.used = true := (hd.notLive row hr hf).resolve_right (by simp [hrev])
  obtain ⟨t, ht, htf, htr⟩ := hd.revoked
  exact absurd ((hfresh hu t ht (htf.trans hf.symm)).symm.trans htr) (by simp)

/-- What is no save of the family leaves a kill the last word. -/
theorem flight_cons (h : SavedIn i f w.trace → KilledSince i f w.trace)
    (hno : x.took = true → x.op.family? ≠ some f) (hs : SavedIn i f (x :: w.trace)) :
    KilledSince i f (x :: w.trace) := by
  have hnot : ¬ Saves i f x := by
    intro hx
    obtain ⟨-, ht, e, ho, rfl⟩ := saves_iff.mp hx
    exact hno ht (by rw [ho]; rfl)
  obtain ⟨y, hy, hyi, hyt, hye⟩ := hs
  rcases List.mem_cons.mp hy with rfl | hy
  · exact absurd (saves_iff.mpr ⟨hyi, hyt, hye⟩) hnot
  · exact ⟨hnot, .inr (h ⟨y, hy, hyi, hyt, hye⟩)⟩

/-- Who writes no token of a dead family leaves it dead. -/
theorem Dead.other (hd : Dead f w) (htr : w'.trace = x :: w.trace)
    (hne : x.took = true → x.op.family? ≠ some f)
    (hback : ∀ t' ∈ w'.state.refreshTokens, t'.familyId = f →
      ∃ t ∈ w.state.refreshTokens, Like t t')
    (hfor : ∀ t ∈ w.state.refreshTokens, t.familyId = f →
      ∃ t' ∈ w'.state.refreshTokens, Like t t') : Dead f w' where
  revoked := by
    obtain ⟨t, ht, hf, hr⟩ := hd.revoked
    obtain ⟨t', ht', hlike⟩ := hfor t ht hf
    exact ⟨t', ht', hlike.familyId.trans hf, hlike.revoked hr⟩
  notLive t' ht' hf := by
    obtain ⟨t, ht, hlike⟩ := hback t' ht' hf
    rw [hlike.used]
    exact (hd.notLive t ht (hlike.familyId.symm.trans hf)).imp id hlike.revoked
  flight i hs := by
    rw [htr] at hs ⊢
    exact flight_cons (hd.flight i) hne hs

/-- **A dead family stays dead.** -/
theorem Dead.step (hk : Knows i call o w) (hx : (auth T P).Exec i call o w r w')
    (htr : w'.trace = x :: w.trace) (hgood : GivesWay x w.trace) (hd : Dead f w) : Dead f w' := by
  obtain ⟨took, htr', -, ⟨hback, hfor, hquiet⟩ | ⟨ht, d, id, now, rfl, htok⟩ |
    ⟨ht, e, rfl, htok⟩⟩ := exec_cases hx
  all_goals obtain rfl := (List.cons.inj (htr.symm.trans htr')).1
  · exact hd.other htr (fun ht => by simp [hquiet ht]) (fun t' ht' _ => hback t' ht')
      fun t ht _ => hfor t ht
  · subst ht
    have hne : d.familyId ≠ f := by
      rintro rfl
      exact hd.not_insert hk hgood
    refine hd.other htr (fun _ hf => hne (Option.some.inj hf)) (fun t ht hf => ?_) fun t ht _ => ?_
    · rw [htok, List.mem_append, List.mem_singleton] at ht
      rcases ht with ht | rfl
      · exact ⟨t, ht, .refl t⟩
      · exact absurd hf hne
    · exact ⟨t, htok ▸ List.mem_append_left _ ht, .refl t⟩
  · subst ht
    have hne : e.familyId ≠ f := by
      rintro rfl
      exact hd.not_save hk hgood
    obtain ⟨row, hr, hid, hrf⟩ := hk.save e rfl
    refine hd.other htr (fun _ hf => hne (Option.some.inj hf)) (fun t ht hf => ?_)
      fun t ht hf => ⟨t, ?_, .refl t⟩
    · rw [htok] at ht
      obtain ⟨t₀, ht₀, rfl⟩ := List.mem_map.mp ht
      by_cases hte : t₀.id = e.id
      · rw [if_pos hte] at hf
        exact absurd hf hne
      · rw [if_neg hte]
        exact ⟨t₀, ht₀, .refl t₀⟩
    · rw [htok]
      refine List.mem_map.mpr ⟨t, ht, if_neg fun hte => ?_⟩
      obtain rfl := hk.ids.eq ht hr (hte.trans hid.symm)
      exact hne (hrf.symm.trans hf)

/-! ## What kills a family -/

/-- Tokens keep their ids and families, and stay revoked. -/
def Keeps (s s' : AuthStore T) : Prop :=
  ∀ t ∈ s.refreshTokens, ∃ t' ∈ s'.refreshTokens,
    t'.id = t.id ∧ t'.familyId = t.familyId ∧ (t.revoked = true → t'.revoked = true)

omit [Ring T] [LinearOrder T] [FloorRing T] in
theorem Keeps.refl (s : AuthStore T) : Keeps s s := fun t ht => ⟨t, ht, rfl, rfl, id⟩

omit [Ring T] [LinearOrder T] [FloorRing T] in
theorem Keeps.trans {s s' s'' : AuthStore T} (h : Keeps s s') (h' : Keeps s' s'') :
    Keeps s s'' := by
  intro t ht
  obtain ⟨t', ht', hid, hf, hr⟩ := h t ht
  obtain ⟨t'', ht'', hid', hf', hr'⟩ := h' t' ht'
  exact ⟨t'', ht'', hid'.trans hid, hf'.trans hf, hr' ∘ hr⟩

/-- A save that finds its row not revoked clears no revocation. -/
theorem keeps_exec (hk : Knows i call o w) (hx : (auth T P).Exec i call o w r w')
    (htr : w'.trace = x :: w.trace) (hgood : GivesWay x w.trace) :
    Keeps w.state w'.state := by
  intro t ht
  obtain ⟨took, htr', -, ⟨-, hfor, -⟩ | ⟨-, d, id, now, -, htok⟩ | ⟨hto, e, rfl, htok⟩⟩ :=
    exec_cases hx
  all_goals obtain rfl := (List.cons.inj (htr.symm.trans htr')).1
  · obtain ⟨t', ht', hlike⟩ := hfor t ht
    exact ⟨t', ht', hlike.id, hlike.familyId, hlike.revoked⟩
  · exact ⟨t, htok ▸ List.mem_append_left _ ht, rfl, rfl, fun hr => hr⟩
  · by_cases hid : t.id = e.id
    · obtain ⟨row, hrow, hrid, hrf⟩ := hk.save e rfl
      obtain rfl := hk.ids.eq hrow ht (hrid.trans hid.symm)
      obtain ⟨hrev, -⟩ := hgood.save hto e rfl row ht hid
      exact ⟨e, htok ▸ List.mem_map.mpr ⟨row, ht, if_pos hid⟩, hid.symm, hrf.symm,
        fun hr => absurd (hrev.symm.trans hr) (by simp)⟩
    · exact ⟨t, htok ▸ List.mem_map.mpr ⟨t, ht, if_neg hid⟩, rfl, rfl, fun hr => hr⟩

/-- An operation that took effect. -/
theorem effect_of_took (hx : (auth T P).Exec i call o w r w') (htr : w'.trace = x :: w.trace)
    (ht : x.took = true) : ∃ ch, AuthStore.Effect P i ch w.state o w'.state := by
  obtain ⟨took, htr', ⟨-, ch, a, hs⟩ | ⟨hf, -⟩⟩ := auth_exec_cases hx
  · exact ⟨ch, AuthStore.exec_effect hs⟩
  · obtain rfl := (List.cons.inj (htr.symm.trans htr')).1
    exact absurd (ht.symm.trans hf) (by simp)

/-- A kill is the last word on its family. -/
theorem flight_of_kills (hkill : Kills f x w.trace) (hop : ∀ e, x.op ≠ .tokenSave e) :
    KilledSince i f (x :: w.trace) := by
  refine ⟨fun hx => ?_, .inl hkill⟩
  obtain ⟨-, -, e, ho, -⟩ := saves_iff.mp hx
  exact hop e ho

/-- The family of a reuse is dead. -/
theorem dead_of_familyRevoke (hk : Knows i call (.familyRevoke f) w)
    {r : Except AuthErr (AuthOp.familyRevoke f : AuthOp T).Res}
    (hx : (auth T P).Exec i call (.familyRevoke f) w r w') (htr : w'.trace = x :: w.trace)
    (ht : x.took = true) (hop : x.op = .familyRevoke f) : Dead f w' := by
  obtain ⟨ch, he⟩ := effect_of_took hx htr ht
  have hs := he.familyRevoke_eq
  refine ⟨?_, fun t' ht' hf => .inr ?_, fun j _ => ?_⟩
  · obtain ⟨t, htm, hf⟩ := hk.revoke f rfl
    refine ⟨{ t with revoked := true }, ?_, hf, rfl⟩
    rw [hs]
    exact AuthStore.mem_revoke.mpr ⟨t, htm, .inl ⟨by simp [hf], rfl⟩⟩
  · rw [hs] at ht'
    obtain ⟨t, -, ⟨-, rfl⟩ | ⟨hne, rfl⟩⟩ := AuthStore.mem_revoke.mp ht'
    · rfl
    · exact absurd hf (by simpa using hne)
  · rw [htr]
    exact flight_of_kills ⟨ht, .inl hop⟩ (by simp [hop])

/-- The family of a logout is dead, when none of its other tokens is live. -/
theorem dead_of_tokenRevoke {text : String} {id : Uuid}
    {r : Except AuthErr (AuthOp.tokenRevoke text : AuthOp T).Res}
    (hx : (auth T P).Exec i call (.tokenRevoke text) w r w') (htr : w'.trace = x :: w.trace)
    (ht : x.took = true) (hop : x.op = .tokenRevoke text) (hid : P.uuidOf text = some id)
    (hkill : Kills f x w.trace) {row : RefreshToken T} (hrow : row ∈ w.state.refreshTokens)
    (hrid : row.id = id) (hrf : row.familyId = f)
    (hlast : NoOther id f w.state) :
    Dead f w' := by
  obtain ⟨ch, he⟩ := effect_of_took hx htr ht
  obtain ⟨id', hid', hs⟩ := he.tokenRevoke_eq
  obtain rfl := Option.some.inj (hid.symm.trans hid')
  refine ⟨⟨{ row with revoked := true }, ?_, hrf, rfl⟩, fun t' ht' hf => ?_, fun j _ => ?_⟩
  · rw [hs]
    exact AuthStore.mem_revoke.mpr ⟨row, hrow, .inl ⟨by simp [hrid], rfl⟩⟩
  · rw [hs] at ht'
    obtain ⟨t, htm, ⟨-, rfl⟩ | ⟨hne, rfl⟩⟩ := AuthStore.mem_revoke.mp ht'
    · exact .inr rfl
    · have hlive := hlast t' htm hf (by simpa using hne)
      simpa [RefreshToken.live, or_iff_not_imp_left] using hlive
  · rw [htr]
    exact flight_of_kills hkill (by simp [hop])

/-- **What kills a family leaves it dead.** -/
theorem dead_of_kills (hk : Knows i call o w) (hx : (auth T P).Exec i call o w r w')
    (htr : w'.trace = x :: w.trace) (hgood : GivesWay x w.trace)
    (hpast : ∀ y ∈ w.trace, Keeps y.before w.state) (hkill : Kills f x w.trace) : Dead f w' := by
  obtain ⟨took, htr', -⟩ := auth_exec_cases hx
  obtain ⟨ht, ho | ⟨id, hid, y, hy, hyt, t, htm, hti, hf, hl⟩⟩ := id hkill
  all_goals obtain rfl := (List.cons.inj (htr.symm.trans htr')).1
  · obtain rfl : o = .familyRevoke f := ho
    exact dead_of_familyRevoke hk hx htr ht rfl
  · cases o with
    | tokenRevoke text =>
      have hlast := hgood.logout ht id hid y hy hyt t htm hti hl
      rw [hf] at hlast
      obtain ⟨row, hrow, hrid, hrf⟩ : ∃ row ∈ w.state.refreshTokens, row.id = id ∧
          row.familyId = f := by
        rcases List.mem_cons.mp hy with rfl | hy
        · exact ⟨t, htm, hti, hf⟩
        · obtain ⟨row, hrow, hrid, hrf, -⟩ := hpast y hy t htm
          exact ⟨row, hrow, hrid.trans hti, hrf.trans hf⟩
      exact dead_of_tokenRevoke hx htr ht rfl hid hkill hrow hrid hrf hlast
    | _ => exact absurd hid (by simp [AuthOp.revokes?])

/-! ## Every run -/

/-- Killed families are dead, and saw no exchange since. -/
structure Settled (w : World (auth T P)) : Prop where
  keeps : ∀ y ∈ w.trace, Keeps y.before w.state
  ended : ∀ l x past f, w.trace = l ++ x :: past → Kills f x past →
    Dead f w ∧ ∀ y ∈ l, exchanges? y ≠ some f

/-- The tables of a state that did not change them. -/
theorem Settled.same {s s' : AuthStore T} {l : List (Entry (auth T P))}
    (htok : s'.refreshTokens = s.refreshTokens) (h : Settled ⟨s, l⟩) : Settled ⟨s', l⟩ where
  keeps y hy t ht := by
    obtain ⟨t', ht', h'⟩ := h.keeps y hy t ht
    exact ⟨t', htok ▸ ht', h'⟩
  ended l₁ x past f hl hkill := by
    obtain ⟨hd, hno⟩ := h.ended l₁ x past f hl hkill
    exact ⟨⟨htok ▸ hd.revoked, htok ▸ hd.notLive, hd.flight⟩, hno⟩

theorem Settled.step (hk : Knows i call o w) (hx : (auth T P).Exec i call o w r w')
    (htr : w'.trace = x :: w.trace) (hgood : GivesWay x w.trace) (hs : Settled w) :
    Settled w' where
  keeps y hy := by
    have hkeep := keeps_exec hk hx htr hgood
    rcases List.mem_cons.mp (htr ▸ hy) with rfl | hy
    · obtain ⟨took, htr', -⟩ := auth_exec_cases hx
      obtain rfl := (List.cons.inj (htr.symm.trans htr')).1
      exact hkeep
    · exact (hs.keeps y hy).trans hkeep
  ended l z past f hl hkill := by
    rw [htr] at hl
    cases l with
    | nil =>
      obtain ⟨rfl, rfl⟩ := List.cons.inj hl
      exact ⟨dead_of_kills hk hx htr hgood hs.keeps hkill, by simp⟩
    | cons y l =>
      obtain ⟨rfl, htl⟩ := List.cons.inj hl
      obtain ⟨hd, hno⟩ := hs.ended l z past f htl hkill
      refine ⟨hd.step hk hx htr hgood, fun y hy => ?_⟩
      rcases List.mem_cons.mp hy with rfl | hy
      · intro hex
        obtain ⟨ht, ⟨d, hop, rfl⟩, -⟩ := exchanges?_eq_some.mp hex
        obtain ⟨took, htr', -⟩ := auth_exec_cases hx
        obtain rfl := (List.cons.inj (htr.symm.trans htr')).1
        obtain rfl : took = true := ht
        obtain rfl : o = .tokenInsert d := hop
        exact hd.not_insert hk hgood
      · exact hno y hy

end Revocation

open Revocation

/-- **Revocation is permanent** in every run in which refreshes in flight give way to it. -/
theorem auth_revoked_for_good {now : T} {c : Config (auth T P)}
    (hc : (auth T P).Reach ((auth T P).Good GivesWay) ((auth T P).init (.empty now)) c) :
    RevokedForGood c := by
  have hsettled : Settled c.toWorld :=
    hc.follow_good (fun c' hc' i call o hw => knows_of_waits (hc'.mono fun _ _ _ => trivial) hw)
      ⟨by simp [Machine.init], by simp [Machine.init]⟩
      (fun _ _ _ _ hs => Settled.same (auth_start_tables hs).1)
      (fun _ _ _ _ hv => Settled.same (auth_env_tables hv).1)
      fun i call o w r w' x hk hx htr hgood => Settled.step hk hx htr hgood
  refine ⟨fun l x past f hl hkill => (hsettled.ended l x past f hl hkill).2,
    fun y hy t ht hr => ?_⟩
  obtain ⟨t', ht', hid, -, hr'⟩ := hsettled.keeps y hy t ht
  exact ⟨t', ht', hid, hr' hr⟩

/-- A replay of the token 40, once it is used. -/
def replayed (i : Nat) : List (Event (auth ℤ sample)) :=
  .spawn i (.refresh cookie40) :: answer i [{}, {}]

/-- A request with the cookie of the successor 41. -/
def cookie41 : Request := { refreshToken := some "41:t" }

/-- A refresh, a replay of its token, and a refresh with the successor, which is refused. -/
theorem auth_revoked_for_good_replayed : ∃ c,
    (auth ℤ sample).replay ((auth ℤ sample).init (.empty 0))
      (signedIn ++ rotation 2 ++ rotated 2 41 ++ replayed 3 ++
        .spawn 4 (.refresh cookie41) :: answer 4 [{}]) = some c ∧
    c.threads 4 = some ⟨.refresh cookie41,
      .throw (.UnauthorizedException "Refresh token has been revoked"), false⟩ ∧
    RevokedForGood c := by
  obtain ⟨c, hr, ht, hg⟩ : ∃ c, (auth ℤ sample).replay ((auth ℤ sample).init (.empty 0))
      (signedIn ++ rotation 2 ++ rotated 2 41 ++ replayed 3 ++
        .spawn 4 (.refresh cookie41) :: answer 4 [{}]) = some c ∧
      c.threads 4 = some ⟨.refresh cookie41,
        .throw (.UnauthorizedException "Refresh token has been revoked"), false⟩ ∧
      AllGood GivesWay c.trace := ⟨_, rfl, rfl, by decide⟩
  exact ⟨c, hr, ht, auth_revoked_for_good (.of_allGood (.of_replay .init hr) hg)⟩

/-- A refresh saves its token; a replay revokes the family; the refresh issues the successor, and
the successor is exchanged. -/
theorem auth_revoked_family_lives : ∃ c,
    (auth ℤ sample).Reachable ((auth ℤ sample).init (.empty 0)) c ∧
    (∃ a, c.Returned 4 (.refresh cookie41) a) ∧ ¬ RevokedForGood c := by
  obtain ⟨c, hr, ha, ⟨x, past, hl, hx⟩, y, l, hy, hex⟩ : ∃ c,
      (auth ℤ sample).replay ((auth ℤ sample).init (.empty 0))
        (signedIn ++ rotation 2 ++ (rotated 2 41).take 1 ++ replayed 3 ++ (rotated 2 41).drop 1 ++
          .spawn 4 (.refresh cookie41) :: answer 4 [{}, {}, {}] ++ rotated 4 42) = some c ∧
      (∃ a, c.Returned 4 (.refresh cookie41) a) ∧
      (∃ x past, c.trace.drop 16 = x :: past ∧ Kills 30 x past) ∧
      ∃ y l, c.trace.take 16 = y :: l ∧ exchanges? y = some 30 :=
    ⟨_, rfl, ⟨_, rfl⟩, ⟨_, _, rfl, rfl, .inl rfl⟩, _, _, rfl, rfl⟩
  refine ⟨c, .of_replay .init hr, ha, fun h => ?_⟩
  have htrace : c.trace = c.trace.take 16 ++ x :: past := by
    rw [← hl, List.take_append_drop]
  exact h.ended (c.trace.take 16) x past 30 htrace hx y (hy ▸ List.mem_cons_self) hex

end BoltBet
