import BoltBet.Async.Guarded
import BoltBet.Identity.Footprint

/-!
# Exchanges of refresh tokens

`refresh` reads a token, compares the secret, and then saves the token as used, whatever the row
says by then: two calls that read the token before either saves it both go on to issue a successor
(`auth_exchanged_twice`).

* `lastIn f`: the last write of the family `f`, a new token or a save that found its row unused.
  While it is a save, that exchange is pending and no token of the family is unused; the successor
  ends it.
* `Exchange.Own`: a thread whose save found its row unused finds that exchange pending until it
  issues the successor, and a thread issues one token at most.
* `auth_exchanged_once`: so, when only such threads issue successors, each token has one successor
  and each family one live token at most.
-/

namespace BoltBet

open Async

/-- The id of the token that a request presents. -/
def Request.presents (P : Platform) (req : Request) : Option Uuid :=
  (req.refreshToken.bind cookieParts).bind fun parts => P.uuidOf parts.1

/-- Neither used nor revoked. -/
def RefreshToken.live {T : Type} (t : RefreshToken T) : Bool := !t.used && !t.revoked

/-- The family of the token that an operation writes. -/
def AuthOp.family? {T : Type} : AuthOp T → Option Uuid
  | .tokenInsert d => some d.familyId
  | .tokenSave t => some t.familyId
  | _ => none

/-- The operations that need no knowledge of the tokens. -/
def AuthOp.Quiet {T : Type} (o : AuthOp T) : Prop := o.family? = none ∧ ∀ f, o ≠ .familyRevoke f

theorem AuthOp.Reads.quiet {T : Type} {o : AuthOp T} (h : o.Reads) : o.Quiet := by
  cases o with
  | tokenInsert d => exact h.elim
  | tokenSave e => exact h.elim
  | familyRevoke f => exact h.elim
  | _ => exact ⟨rfl, fun f hf => by cases hf⟩

/-- Only `login` and `refresh` write tokens of a family. -/
theorem AuthFootprint.quiet {T : Type} {call : AuthCall} {o : AuthOp T}
    (h : AuthFootprint call o) (hlogin : ∀ dto req, call ≠ .login dto req)
    (hrefresh : ∀ req, call ≠ .refresh req) : o.Quiet := by
  cases h with
  | reads _ _ h => exact h.quiet
  | login dto req => exact absurd rfl (hlogin dto req)
  | refresh req | tokenSave req | familyRevoke req => exact absurd rfl (hrefresh req)
  | emits tag p => cases p <;> exact ⟨rfl, fun f h => by cases h⟩
  | _ => exact ⟨rfl, fun f h => by cases h⟩

variable {T : Type} [Ring T] [LinearOrder T] [FloorRing T] {P : Platform}

/-- A refresh call that presents the token `p` issued a successor. -/
def issues (p : Uuid) (x : Entry (auth T P)) : Bool :=
  match x.call, x.op with
  | .refresh req, .tokenInsert _ => x.took && req.presents P == some p
  | _, _ => false

/-- **Each token is exchanged at most once**, and each family has at most one live token. -/
structure ExchangedOnce (c : Config (auth T P)) : Prop where
  successor : ∀ p, (c.trace.filter (issues p)).length ≤ 1
  live : ∀ f, (c.state.refreshTokens.filter fun t => t.familyId = f ∧ t.live).length ≤ 1

/-- The row that a save writes. -/
def AuthOp.saved? : AuthOp T → Option (RefreshToken T)
  | .tokenSave t => some t
  | _ => none

omit [Ring T] [LinearOrder T] [FloorRing T] in
theorem AuthOp.saved?_eq_some {o : AuthOp T} {t : RefreshToken T} :
    o.saved? = some t ↔ o = .tokenSave t := by
  cases o <;> simp [saved?]

/-- The token that an insert writes. -/
def AuthOp.inserted? : AuthOp T → Option (RefreshTokenDraft T)
  | .tokenInsert d => some d
  | _ => none

/-- A save finds its row unused. -/
def FindsUnused (x : Entry (auth T P)) : Prop :=
  ∀ t ∈ x.op.saved?, ∀ row ∈ x.before.refreshTokens, row.id = t.id → row.used = false

instance (x : Entry (auth T P)) : Decidable (FindsUnused x) :=
  inferInstanceAs (Decidable (∀ t ∈ x.op.saved?, _))

/-- **The condition**: who inserts a token has found the row unused that it saved before. -/
def InsertsFresh (x : Entry (auth T P)) (past : List (Entry (auth T P))) : Prop :=
  x.took = true → ∀ _d ∈ x.op.inserted?, ∀ y ∈ past, y.tid = x.tid → y.took = true → FindsUnused y

instance (x : Entry (auth T P)) (past : List (Entry (auth T P))) :
    Decidable (InsertsFresh x past) :=
  inferInstanceAs (Decidable (x.took = true → ∀ _d ∈ x.op.inserted?, ∀ y ∈ past, _))

/-! ## The last write of a family -/

/-- The family of which an operation writes a new token, or saves a token that was unused. -/
def writes? (x : Entry (auth T P)) : Option Uuid := if FindsUnused x then x.op.family? else none

/-- The last operation that wrote a family. -/
def lastIn (f : Uuid) (l : List (Entry (auth T P))) : Option (Entry (auth T P)) :=
  l.find? fun x => x.took && writes? x == some f

section LastIn

variable {f : Uuid} {x y : Entry (auth T P)} {l : List (Entry (auth T P))}

theorem writes?_eq_some : writes? x = some f ↔ FindsUnused x ∧ x.op.family? = some f := by
  unfold writes?
  split <;> simp [*]

theorem writes?_quiet (h : x.op.family? = none) : writes? x = none := by
  unfold writes?
  rw [h, ite_self]

theorem findsUnused_iff {e : RefreshToken T} (ho : x.op = .tokenSave e) : FindsUnused x ↔
    ∀ row ∈ x.before.refreshTokens, row.id = e.id → row.used = false := by
  simp [FindsUnused, ho, AuthOp.saved?]

theorem writes?_insert {d : RefreshTokenDraft T} (ho : x.op = .tokenInsert d) :
    writes? x = some d.familyId := by
  refine writes?_eq_some.mpr ⟨fun t ht => ?_, by rw [ho]; rfl⟩
  exact absurd (AuthOp.saved?_eq_some.mp ht) (by simp [ho])

theorem lastIn_cons_self (ht : x.took = true) (hf : writes? x = some f) :
    lastIn f (x :: l) = some x := by
  unfold lastIn
  rw [List.find?_cons_of_pos]
  simp [ht, hf]

theorem lastIn_cons_ne (h : x.took = true → writes? x ≠ some f) :
    lastIn f (x :: l) = lastIn f l := by
  unfold lastIn
  rw [List.find?_cons_of_neg]
  simpa using h

theorem lastIn_mem (h : lastIn f l = some x) : x ∈ l := List.mem_of_find?_eq_some h

theorem lastIn_some (h : lastIn f l = some x) : x.took = true ∧ writes? x = some f := by
  simpa using List.find?_some h

theorem issues_iff {p : Uuid} :
    issues p x = true ↔ x.took = true ∧ (∃ d, x.op = .tokenInsert d) ∧
      ∃ req, x.call = .refresh req ∧ req.presents P = some p := by
  unfold issues
  split
  · rename_i req d hcall hop
    simp [hcall, hop]
  · rename_i hne
    refine iff_of_false (by simp) ?_
    rintro ⟨-, ⟨d, hop⟩, req, hcall, -⟩
    exact hne req d hcall hop

end LastIn

namespace Exchange

/-! ## What holds and what threads know -/

/-- What holds in every world. -/
structure Inv (w : World (auth T P)) : Prop where
  ids : w.state.TokenIds
  drawn : (w.state.drawn.map Prod.snd).Nodup
  /-- A family was drawn by a thread that inserted its first token. -/
  born : ∀ t ∈ w.state.refreshTokens, ∃ x ∈ w.trace, x.took = true ∧ (∃ d, x.op = .tokenInsert d) ∧
    (x.tid, t.familyId) ∈ w.state.drawn
  one : ∀ t ∈ w.state.refreshTokens, ∀ t' ∈ w.state.refreshTokens, t.used = false →
    t'.used = false → t.familyId = t'.familyId → t.id = t'.id
  pending : ∀ f x e, lastIn f w.trace = some x → x.op = .tokenSave e →
    ∀ t ∈ w.state.refreshTokens, t.familyId = f → t.used = true
  saved : ∀ x ∈ w.trace, x.took = true → ∀ e, x.op = .tokenSave e →
    ∃ t ∈ w.state.refreshTokens, t.id = e.id ∧ t.familyId = e.familyId ∧ t.used = true
  /-- An exchange that issued its successor is over. -/
  issued : ∀ y ∈ w.trace, ∀ p, issues p y = true →
    (∃ t ∈ w.state.refreshTokens, t.id = p ∧ t.used = true) ∧
      ∀ f x e, lastIn f w.trace = some x → x.op = .tokenSave e → e.id ≠ p
  once : ∀ p, (w.trace.filter (issues p)).length ≤ 1

/-- What lasts: the past, drawn values, and the ids and families of tokens. -/
structure Le (w w' : World (auth T P)) : Prop where
  trace : w.trace <:+ w'.trace
  drawn : w.state.drawn ⊆ w'.state.drawn
  rows : ∀ t ∈ w.state.refreshTokens, ∃ t' ∈ w'.state.refreshTokens,
    t'.id = t.id ∧ t'.familyId = t.familyId

/-- What only thread `i` changes. -/
structure Own (i : Nat) (w : World (auth T P)) : Prop where
  pending : ∀ x ∈ w.trace, x.tid = i → x.took = true → FindsUnused x → ∀ e, x.op = .tokenSave e →
    lastIn e.familyId w.trace = some x
  first : ∀ x ∈ w.trace, x.tid = i → x.took = true → ∀ d, x.op ≠ .tokenInsert d

/-- There is a token with this id, of this family. -/
def HasRow (id f : Uuid) (w : World (auth T P)) : Prop :=
  ∃ t ∈ w.state.refreshTokens, t.id = id ∧ t.familyId = f

/-- Thread `i` saved a token of the family, which its request presents. -/
def SavedBy (i : Nat) (call : AuthCall) (f : Uuid) (w : World (auth T P)) : Prop :=
  ∃ x ∈ w.trace, x.tid = i ∧ x.took = true ∧ ∃ e, x.op = .tokenSave e ∧ e.familyId = f ∧
    ∃ req, call = .refresh req ∧ req.presents P = some e.id

/-- What a thread knows of the token it writes. -/
def At (i : Nat) (call : AuthCall) (w : World (auth T P)) : AuthOp T → Prop
  | .tokenSave e => e.used = true ∧ e.revoked = false ∧ HasRow e.id e.familyId w ∧
    ∃ req, call = .refresh req ∧ req.presents P = some e.id
  | .tokenInsert d => SavedBy i call d.familyId w ∨
    (∀ req, call ≠ .refresh req) ∧ (i, d.familyId) ∈ w.state.drawn
  | .familyRevoke f => ∃ t ∈ w.state.refreshTokens, t.familyId = f
  | _ => True

/-- What a thread knows while it waits. -/
def Known (i : Nat) (call : AuthCall) (o : AuthOp T) (w : World (auth T P)) : Prop :=
  Own i w ∧ At i call w o

variable {i j : Nat} {call call' : AuthCall} {o o' : AuthOp T} {w w' w'' : World (auth T P)}
  {r : Except AuthErr o.Res}

theorem Le.refl (w : World (auth T P)) : Le w w where
  trace := List.suffix_rfl
  drawn := List.Subset.refl _
  rows t ht := ⟨t, ht, rfl, rfl⟩

theorem Le.trans (h : Le w w') (h' : Le w' w'') : Le w w'' where
  trace := h.trace.trans h'.trace
  drawn := List.Subset.trans h.drawn h'.drawn
  rows t ht := by
    obtain ⟨t', ht', hid, hf⟩ := h.rows t ht
    obtain ⟨t'', ht'', hid', hf'⟩ := h'.rows t' ht'
    exact ⟨t'', ht'', hid'.trans hid, hf'.trans hf⟩

theorem HasRow.later {id f : Uuid} (h : HasRow id f w) (hle : Le w w') : HasRow id f w' := by
  obtain ⟨t, ht, hid, hf⟩ := h
  obtain ⟨t', ht', hid', hf'⟩ := hle.rows t ht
  exact ⟨t', ht', hid'.trans hid, hf'.trans hf⟩

theorem SavedBy.later {f : Uuid} (h : SavedBy i call f w) (hle : Le w w') :
    SavedBy i call f w' := by
  obtain ⟨x, hx, h⟩ := h
  exact ⟨x, hle.trace.subset hx, h⟩

theorem At.later (h : At i call w o) (hle : Le w w') : At i call w' o := by
  cases o with
  | tokenSave e => exact ⟨h.1, h.2.1, h.2.2.1.later hle, h.2.2.2⟩
  | tokenInsert d => exact h.imp (fun h => h.later hle) fun h => ⟨h.1, hle.drawn h.2⟩
  | familyRevoke f =>
    obtain ⟨t, ht, hf⟩ := h
    obtain ⟨t', ht', -, hf'⟩ := hle.rows t ht
    exact ⟨t', ht', hf'.trans hf⟩
  | _ => trivial

/-! ## One operation -/

/-- A token changed in nothing but `revoked`, which is never cleared. -/
structure Like (t t' : RefreshToken T) : Prop where
  id : t'.id = t.id
  familyId : t'.familyId = t.familyId
  used : t'.used = t.used
  revoked : t.revoked = true → t'.revoked = true

omit [Ring T] [LinearOrder T] [FloorRing T] in
theorem Like.refl (t : RefreshToken T) : Like t t := ⟨rfl, rfl, rfl, fun h => h⟩

/-- A token that is as used as it was. -/
structure Alike (t t' : RefreshToken T) : Prop where
  id : t'.id = t.id
  familyId : t'.familyId = t.familyId
  used : t'.used = t.used

omit [Ring T] [LinearOrder T] [FloorRing T] in
theorem Like.alike {t t' : RefreshToken T} (h : Like t t') : Alike t t' :=
  ⟨h.id, h.familyId, h.used⟩

/-- **What an operation does to the refresh tokens and to the last writes.** -/
theorem exec_cases (hx : (auth T P).Exec i call o w r w') :
    ∃ took, w'.trace = ⟨i, call, o, took, w.state⟩ :: w.trace ∧
      w.state.drawn ⊆ w'.state.drawn ∧
      (((∀ t' ∈ w'.state.refreshTokens, ∃ t ∈ w.state.refreshTokens, Like t t') ∧
          (∀ t ∈ w.state.refreshTokens, ∃ t' ∈ w'.state.refreshTokens, Like t t') ∧
          (took = true → o.family? = none)) ∨
        (took = true ∧ ∃ d id now, o = .tokenInsert d ∧
          w'.state.refreshTokens = w.state.refreshTokens ++ [d.row id now]) ∨
        (took = true ∧ ∃ e, o = .tokenSave e ∧ w'.state.refreshTokens =
          w.state.refreshTokens.map fun t => if t.id = e.id then e else t)) := by
  obtain ⟨took, htr, ⟨ht, ch, a, hs⟩ | ⟨hf, hs⟩⟩ := auth_exec_cases hx
  · have he := AuthStore.exec_effect hs
    refine ⟨took, htr, he.drawn_subset, ?_⟩
    rcases he.tokens_cases with ⟨hsame, hins, hsave⟩ | ⟨d, rfl, -, hnew⟩ | ⟨e, rfl, hsave⟩ |
      ⟨p, hop, hrev⟩
    · refine .inl ⟨?_, ?_, fun _ => ?_⟩
      · rw [hsame]
        exact fun t ht => ⟨t, ht, .refl t⟩
      · rw [hsame]
        exact fun t ht => ⟨t, ht, .refl t⟩
      · cases o with
        | tokenInsert d => exact absurd rfl (hins d)
        | tokenSave t => exact absurd rfl (hsave t)
        | _ => rfl
    · exact .inr (.inl ⟨ht, d, _, _, rfl, hnew⟩)
    · exact .inr (.inr ⟨ht, e, rfl, hsave⟩)
    · have hlike : ∀ t : RefreshToken T,
          Like t (if p t then { t with revoked := true } else t) := by
        intro t
        by_cases hp : p t
        · rw [if_pos hp]
          exact ⟨rfl, rfl, rfl, fun _ => rfl⟩
        · rw [if_neg hp]
          exact .refl t
      refine .inl ⟨?_, ?_, fun _ => ?_⟩
      · rw [hrev]
        intro t' ht'
        obtain ⟨t, ht, rfl⟩ := List.mem_map.mp ht'
        exact ⟨t, ht, hlike t⟩
      · rw [hrev]
        exact fun t ht => ⟨_, List.mem_map_of_mem ht, hlike t⟩
      · rcases hop with ⟨text, id, rfl, -, -⟩ | ⟨f, rfl, -⟩ <;> rfl
  · refine ⟨took, htr, by rw [hs]; exact List.Subset.refl _, .inl ⟨?_, ?_, ?_⟩⟩
    · rw [hs]
      exact fun t ht => ⟨t, ht, .refl t⟩
    · rw [hs]
      exact fun t ht => ⟨t, ht, .refl t⟩
    · exact fun ht => absurd (ht.symm.trans hf) (by simp)

section Quiet

variable {x : Entry (auth T P)} (htr : w'.trace = x :: w.trace)
  (hquiet : x.took = true → writes? x = none)
include htr hquiet

theorem lastIn_quiet (f : Uuid) : lastIn f w'.trace = lastIn f w.trace := by
  rw [htr]
  refine lastIn_cons_ne fun ht => ?_
  rw [hquiet ht]
  simp

theorem issues_quiet {y : Entry (auth T P)} (hy : y ∈ w'.trace) {p : Uuid}
    (h : issues p y = true) : y ∈ w.trace := by
  rcases List.mem_cons.mp (htr ▸ hy) with rfl | hy
  · obtain ⟨ht, ⟨d, hop⟩, -⟩ := issues_iff.mp h
    exact absurd (hquiet ht) (by simp [writes?_insert hop])
  · exact hy

/-- An operation that writes no family. -/
theorem Inv.quiet (h : Inv w) (hids : w'.state.TokenIds)
    (hdrawn : (w'.state.drawn.map Prod.snd).Nodup) (hsub : w.state.drawn ⊆ w'.state.drawn)
    (hback : ∀ t' ∈ w'.state.refreshTokens, ∃ t ∈ w.state.refreshTokens, Alike t t')
    (hfor : ∀ t ∈ w.state.refreshTokens, ∃ t' ∈ w'.state.refreshTokens, Alike t t')
    (hsaves : x.took = true → ∀ e, x.op = .tokenSave e →
      ∃ t ∈ w'.state.refreshTokens, t.id = e.id ∧ t.familyId = e.familyId ∧ t.used = true) :
    Inv w' where
  ids := hids
  drawn := hdrawn
  born t' ht' := by
    obtain ⟨t, ht, -, hf, -⟩ := hback t' ht'
    obtain ⟨y, hy, htook, hop, hd⟩ := h.born t ht
    exact ⟨y, htr ▸ List.mem_cons_of_mem _ hy, htook, hop, hsub (hf ▸ hd)⟩
  one t ht t' ht' hu hu' hf := by
    obtain ⟨t₁, ht₁, hid₁, hf₁, hu₁⟩ := hback t ht
    obtain ⟨t₂, ht₂, hid₂, hf₂, hu₂⟩ := hback t' ht'
    rw [hid₁, hid₂]
    exact h.one t₁ ht₁ t₂ ht₂ (hu₁ ▸ hu) (hu₂ ▸ hu') (hf₁.symm.trans (hf.trans hf₂))
  pending f y e hl ho t ht hf := by
    obtain ⟨t₁, ht₁, -, hf₁, hu₁⟩ := hback t ht
    rw [lastIn_quiet htr hquiet] at hl
    exact hu₁.trans (h.pending f y e hl ho t₁ ht₁ (hf₁.symm.trans hf))
  saved y hy htook e ho := by
    rcases List.mem_cons.mp (htr ▸ hy) with rfl | hy
    · exact hsaves htook e ho
    · obtain ⟨t, ht, hid, hf, hu⟩ := h.saved y hy htook e ho
      obtain ⟨t', ht', hid', hf', hu'⟩ := hfor t ht
      exact ⟨t', ht', hid'.trans hid, hf'.trans hf, hu'.trans hu⟩
  issued y hy p hp := by
    obtain ⟨⟨t, ht, hid, hu⟩, hne⟩ := h.issued y (issues_quiet htr hquiet hy hp) p hp
    obtain ⟨t', ht', hid', -, hu'⟩ := hfor t ht
    refine ⟨⟨t', ht', hid'.trans hid, hu'.trans hu⟩, fun f z e hl => ?_⟩
    rw [lastIn_quiet htr hquiet] at hl
    exact hne f z e hl
  once p := by
    have hx : issues p x = false := by
      by_contra hp
      rw [Bool.not_eq_false] at hp
      obtain ⟨ht, ⟨d, hop⟩, -⟩ := issues_iff.mp hp
      exact absurd (hquiet ht) (by simp [writes?_insert hop])
    rw [htr, List.filter_cons_of_neg (by simp [hx])]
    exact h.once p

end Quiet

/-- What only `j` changes, another thread leaves alone, unless it writes the family of a pending
exchange of `j`. -/
theorem Own.other {x : Entry (auth T P)} (h : Own j w) (htr : w'.trace = x :: w.trace)
    (hx : x.tid ≠ j) (hne : ∀ y ∈ w.trace, y.tid = j → y.took = true → FindsUnused y →
      ∀ e, y.op = .tokenSave e → x.took = true → writes? x ≠ some e.familyId) : Own j w' where
  pending y hy hj ht hu e ho := by
    rcases List.mem_cons.mp (htr ▸ hy) with rfl | hy
    · exact absurd hj hx
    · rw [htr, lastIn_cons_ne (hne y hy hj ht hu e ho)]
      exact h.pending y hy hj ht hu e ho
  first y hy hj ht := by
    rcases List.mem_cons.mp (htr ▸ hy) with rfl | hy
    · exact absurd hj hx
    · exact h.first y hy hj ht

/-- An operation that writes a family is the last one of that family, and of no other. -/
theorem lastIn_write {x : Entry (auth T P)} {f : Uuid} (htr : w'.trace = x :: w.trace)
    (htook : x.took = true) (hfam : writes? x = some f) :
    lastIn f w'.trace = some x ∧ ∀ g, g ≠ f → lastIn g w'.trace = lastIn g w.trace := by
  rw [htr]
  refine ⟨lastIn_cons_self htook hfam, fun g hg => lastIn_cons_ne fun _ => ?_⟩
  rw [hfam]
  exact fun he => hg (Option.some.inj he).symm

/-- The family of a token of the past is drawn by the call that inserted its first token. -/
theorem Inv.born_later (h : Inv w) (hpast : ∀ y ∈ w.trace, y ∈ w'.trace)
    (hsub : w.state.drawn ⊆ w'.state.drawn) {t : RefreshToken T} {f : Uuid}
    (ht : t ∈ w.state.refreshTokens) (hf : t.familyId = f) :
    ∃ y ∈ w'.trace, y.took = true ∧ (∃ d, y.op = .tokenInsert d) ∧
      (y.tid, f) ∈ w'.state.drawn := by
  obtain ⟨y, hy, hyt, hyo, hyd⟩ := h.born t ht
  exact ⟨y, hpast y hy, hyt, hyo, hsub (hf ▸ hyd)⟩

/-- The token of a pending exchange is a used one of its family. -/
theorem Inv.saved_last (h : Inv w) {f : Uuid} {y : Entry (auth T P)} {e : RefreshToken T}
    (hl : lastIn f w.trace = some y) (ho : y.op = .tokenSave e) :
    ∃ t ∈ w.state.refreshTokens, t.id = e.id ∧ t.familyId = f ∧ t.used = true := by
  obtain ⟨htook, hwrites⟩ := lastIn_some hl
  obtain ⟨t, ht, hid, hf, hu⟩ := h.saved y (lastIn_mem hl) htook e ho
  have hfam := (writes?_eq_some.mp hwrites).2
  rw [ho] at hfam
  exact ⟨t, ht, hid, hf.trans (Option.some.inj hfam), hu⟩

/-! ### A save -/

section Save

variable {x : Entry (auth T P)} {e : RefreshToken T} (h : Inv w) (htr : w'.trace = x :: w.trace)
  (htook : x.took = true) (hop : x.op = .tokenSave e) (hrow : HasRow e.id e.familyId w)
  (hunused : ∀ row ∈ w.state.refreshTokens, row.id = e.id → row.used = false)
include h hrow hunused

/-- A pending exchange of the family has no unused token to save. -/
theorem not_pending_of_unused {y : Entry (auth T P)} {e' : RefreshToken T}
    (hl : lastIn e.familyId w.trace = some y) (ho : y.op = .tokenSave e') : False := by
  obtain ⟨row, hr, hid, hf⟩ := hrow
  have hu := h.pending e.familyId y e' hl ho row hr hf
  exact absurd ((hunused row hr hid).symm.trans hu) (by simp)

include htr htook hop in
/-- A save that finds its row unused. -/
theorem Inv.save (hwrites : writes? x = some e.familyId) (hu : e.used = true)
    (hids : w'.state.TokenIds) (hdrawn : (w'.state.drawn.map Prod.snd).Nodup)
    (hsub : w.state.drawn ⊆ w'.state.drawn)
    (htok : w'.state.refreshTokens =
      w.state.refreshTokens.map fun t => if t.id = e.id then e else t) : Inv w' := by
  obtain ⟨row, hr, hrid, hrf⟩ := hrow
  have hru := hunused row hr hrid
  have hback : ∀ t ∈ w'.state.refreshTokens,
      t = e ∨ (t ∈ w.state.refreshTokens ∧ t.id ≠ e.id) := by
    intro t ht
    obtain ⟨t₀, ht₀, rfl⟩ := List.mem_map.mp (htok ▸ ht)
    by_cases hid : t₀.id = e.id
    · exact .inl (if_pos hid)
    · rw [if_neg hid]
      exact .inr ⟨ht₀, hid⟩
  have hsaved : e ∈ w'.state.refreshTokens := by
    rw [htok]
    exact List.mem_map.mpr ⟨row, hr, if_pos hrid⟩
  have hfor : ∀ t ∈ w.state.refreshTokens, t.id ≠ e.id → t ∈ w'.state.refreshTokens := by
    intro t ht hid
    rw [htok]
    exact List.mem_map.mpr ⟨t, ht, if_neg hid⟩
  obtain ⟨hself, hlast⟩ := lastIn_write htr htook hwrites
  have hnot : ∀ p, issues p x = false := by
    intro p
    by_contra hp
    rw [Bool.not_eq_false] at hp
    obtain ⟨-, ⟨d, hins⟩, -⟩ := issues_iff.mp hp
    exact absurd (hop.symm.trans hins) (by simp)
  have hused : ∀ t ∈ w'.state.refreshTokens, t.familyId = e.familyId → t.used = true := by
    intro t ht hf
    rcases hback t ht with rfl | ⟨ht, hid⟩
    · exact hu
    · by_contra hn
      rw [Bool.not_eq_true] at hn
      exact hid ((h.one t ht row hr hn hru (hf.trans hrf.symm)).trans hrid)
  refine ⟨hids, hdrawn, ?born, ?one, ?pending, ?saved, ?issued, ?once⟩
  case born =>
    intro t ht
    have hpast : ∀ y ∈ w.trace, y ∈ w'.trace := fun y hy => htr ▸ List.mem_cons_of_mem _ hy
    rcases hback t ht with rfl | ⟨ht, -⟩
    · exact h.born_later hpast hsub hr hrf
    · exact h.born_later hpast hsub ht rfl
  case one =>
    intro t ht t' ht' hn hn' hf
    rcases hback t ht with rfl | ⟨ht, -⟩
    · exact absurd (hu.symm.trans hn) (by simp)
    · rcases hback t' ht' with rfl | ⟨ht', -⟩
      · exact absurd (hu.symm.trans hn') (by simp)
      · exact h.one t ht t' ht' hn hn' hf
  case pending =>
    intro f y e' hl ho t ht hf
    by_cases hfe : f = e.familyId
    · exact hused t ht (hf.trans hfe)
    · rcases hback t ht with rfl | ⟨ht, -⟩
      · exact absurd hf.symm hfe
      · exact h.pending f y e' (hlast f hfe ▸ hl) ho t ht hf
  case saved =>
    intro y hy hyt e' ho
    rcases List.mem_cons.mp (htr ▸ hy) with rfl | hy
    · obtain rfl := AuthOp.tokenSave.inj (hop.symm.trans ho)
      exact ⟨e, hsaved, rfl, rfl, hu⟩
    · obtain ⟨t, ht, hid, hf, htu⟩ := h.saved y hy hyt e' ho
      by_cases hte : t.id = e.id
      · exact absurd ((hunused t ht hte).symm.trans htu) (by simp)
      · exact ⟨t, hfor t ht hte, hid, hf, htu⟩
  case issued =>
    intro y hy p hp
    rcases List.mem_cons.mp (htr ▸ hy) with rfl | hy
    · exact absurd ((hnot p).symm.trans hp) (by simp)
    · obtain ⟨⟨t, ht, rfl, htu⟩, hne⟩ := h.issued y hy p hp
      have hte : t.id ≠ e.id := fun hte => absurd ((hunused t ht hte).symm.trans htu) (by simp)
      refine ⟨⟨t, hfor t ht hte, rfl, htu⟩, fun f z e' hl ho => ?_⟩
      by_cases hfe : f = e.familyId
      · obtain rfl := Option.some.inj (hself.symm.trans (hfe ▸ hl))
        obtain rfl := AuthOp.tokenSave.inj (hop.symm.trans ho)
        exact hte.symm
      · exact hne f z e' (hlast f hfe ▸ hl) ho
  case once =>
    intro p
    rw [htr, List.filter_cons_of_neg (by simp [hnot p])]
    exact h.once p

end Save

/-! ### A new token -/

section Insert

variable {d : RefreshTokenDraft T}

/-- A new family has no token yet. -/
theorem no_token_of_drawn (h : Inv w) (hown : Own i w) {f : Uuid} (hd : (i, f) ∈ w.state.drawn)
    {t : RefreshToken T} (ht : t ∈ w.state.refreshTokens) : t.familyId ≠ f := by
  rintro rfl
  obtain ⟨y, hy, hyt, ⟨d, hyo⟩, hyd⟩ := h.born t ht
  have hij : (y.tid, t.familyId) = (i, t.familyId) := List.inj_on_of_nodup_map h.drawn hyd hd rfl
  exact hown.first y hy (congrArg Prod.fst hij) hyt d hyo

/-- Thread `i` may insert: its saves found their rows unused. -/
def Fresh (i : Nat) (l : List (Entry (auth T P))) : Prop :=
  ∀ y ∈ l, y.tid = i → y.took = true → FindsUnused y

/-- The exchange that thread `i` ends is its own. -/
theorem own_pending (hown : Own i w) (hfresh : Fresh i w.trace) {f : Uuid}
    (hs : SavedBy i call f w) :
    ∃ y e, lastIn f w.trace = some y ∧ y.tid = i ∧ y ∈ w.trace ∧ y.took = true ∧
      y.op = .tokenSave e ∧ e.familyId = f ∧
      ∃ req, call = .refresh req ∧ req.presents P = some e.id := by
  obtain ⟨y, hy, hyi, hyt, e, ho, rfl, hreq⟩ := hs
  have hl := hown.pending y hy hyi hyt (hfresh y hy hyi hyt) e ho
  exact ⟨y, e, hl, hyi, hy, hyt, ho, rfl, hreq⟩

/-- The family of a new token has no unused token. -/
theorem used_of_insert (h : Inv w) (hown : Own i w) (hfresh : Fresh i w.trace)
    (hat : At i call w (.tokenInsert d)) :
    ∀ t ∈ w.state.refreshTokens, t.familyId = d.familyId → t.used = true := by
  intro t ht hf
  rcases hat with hs | ⟨-, hd⟩
  · obtain ⟨y, e, hl, -, -, -, ho, -⟩ := own_pending hown hfresh hs
    exact h.pending d.familyId y e hl ho t ht hf
  · exact absurd hf (no_token_of_drawn h hown hd ht)

/-- The pending exchange of a family, if there is one, is that of the thread that inserts. -/
theorem pending_of_insert (h : Inv w) (hown : Own i w) (hfresh : Fresh i w.trace)
    (hat : At i call w (.tokenInsert d)) {y : Entry (auth T P)} {e : RefreshToken T}
    (hl : lastIn d.familyId w.trace = some y) (ho : y.op = .tokenSave e) : y.tid = i := by
  rcases hat with hs | ⟨-, hd⟩
  · obtain ⟨z, e', hl', hz, -⟩ := own_pending hown hfresh hs
    exact Option.some.inj (hl.symm.trans hl') ▸ hz
  · obtain ⟨t, ht, -, hf, -⟩ := h.saved_last hl ho
    exact absurd hf (no_token_of_drawn h hown hd ht)

/-- An insert that issues a successor ends the pending exchange of the token presented. -/
theorem pending_of_issues {x : Entry (auth T P)} {s : AuthStore T} {p : Uuid} (hown : Own i w)
    (hfresh : Fresh i w.trace) (hat : At i call w (.tokenInsert d))
    (hx : x = ⟨i, call, .tokenInsert d, true, s⟩) (hp : issues p x = true) :
    ∃ y e, lastIn d.familyId w.trace = some y ∧ y ∈ w.trace ∧
      y.took = true ∧ y.op = .tokenSave e ∧ e.familyId = d.familyId ∧ e.id = p := by
  obtain ⟨-, -, req, hcall, hreq⟩ := issues_iff.mp hp
  rw [hx] at hcall
  rcases hat with hs | ⟨hn, -⟩
  · obtain ⟨y, e, hl, -, hy, hyt, ho, hf, req', hcall', hreq'⟩ := own_pending hown hfresh hs
    obtain rfl := AuthCall.refresh.inj (hcall.symm.trans hcall')
    exact ⟨y, e, hl, hy, hyt, ho, hf, Option.some.inj (hreq'.symm.trans hreq)⟩
  · exact absurd hcall (hn req)

/-- A new token: the successor that a pending exchange ends with, or the first of a family. -/
theorem Inv.insert {x : Entry (auth T P)} (h : Inv w) (hown : Own i w) (hfresh : Fresh i w.trace)
    (hat : At i call w (.tokenInsert d)) (htr : w'.trace = x :: w.trace)
    (hx : x = ⟨i, call, .tokenInsert d, true, w.state⟩) (hids : w'.state.TokenIds)
    (hdrawn : (w'.state.drawn.map Prod.snd).Nodup) (hsub : w.state.drawn ⊆ w'.state.drawn)
    {id : Uuid} {now : T}
    (htok : w'.state.refreshTokens = w.state.refreshTokens ++ [d.row id now]) : Inv w' := by
  have hused := used_of_insert h hown hfresh hat
  have hback : ∀ t ∈ w'.state.refreshTokens, t ∈ w.state.refreshTokens ∨ t = d.row id now := by
    intro t ht
    rw [htok, List.mem_append, List.mem_singleton] at ht
    exact ht
  have hfor : ∀ t ∈ w.state.refreshTokens, t ∈ w'.state.refreshTokens := by
    intro t ht
    rw [htok]
    exact List.mem_append_left _ ht
  have hpast : ∀ y ∈ w.trace, y ∈ w'.trace := fun y hy => htr ▸ List.mem_cons_of_mem _ hy
  obtain ⟨hself, hlast⟩ := lastIn_write htr (f := d.familyId) (by rw [hx])
    (writes?_insert (by rw [hx]))
  -- a pending exchange after the insert is of another family, and was pending before
  have hpend : ∀ f y e, lastIn f w'.trace = some y → y.op = .tokenSave e →
      f ≠ d.familyId ∧ lastIn f w.trace = some y := by
    intro f y e hl ho
    by_cases hf : f = d.familyId
    · obtain rfl := Option.some.inj (hself.symm.trans (hf ▸ hl))
      rw [hx] at ho
      exact absurd ho (by simp)
    · exact ⟨hf, hlast f hf ▸ hl⟩
  refine ⟨hids, hdrawn, ?born, ?one, ?pending, ?saved, ?issued, ?once⟩
  case born =>
    intro t ht
    rcases hback t ht with ht | rfl
    · exact h.born_later hpast hsub ht rfl
    · rcases hat with ⟨y, hy, -, hyt, e, ho, hf, -⟩ | ⟨-, hd⟩
      · obtain ⟨t, ht, -, htf, -⟩ := h.saved y hy hyt e ho
        exact h.born_later hpast hsub ht (htf.trans hf)
      · exact ⟨x, htr ▸ List.mem_cons_self, by rw [hx], ⟨d, by rw [hx]⟩, by
          rw [hx]
          exact hsub hd⟩
  case one =>
    intro t ht t' ht' hn hn' hf
    rcases hback t ht with ht | rfl
    · rcases hback t' ht' with ht' | rfl
      · exact h.one t ht t' ht' hn hn' hf
      · exact absurd (hn.symm.trans (hused t ht hf)) (by simp)
    · rcases hback t' ht' with ht' | rfl
      · exact absurd (hn'.symm.trans (hused t' ht' hf.symm)) (by simp)
      · rfl
  case pending =>
    intro f y e hl ho t ht hf
    obtain ⟨hfd, hl⟩ := hpend f y e hl ho
    rcases hback t ht with ht | rfl
    · exact h.pending f y e hl ho t ht hf
    · exact absurd hf.symm hfd
  case saved =>
    intro y hy hyt e ho
    rcases List.mem_cons.mp (htr ▸ hy) with rfl | hy
    · rw [hx] at ho
      exact absurd ho (by simp)
    · obtain ⟨t, ht, h⟩ := h.saved y hy hyt e ho
      exact ⟨t, hfor t ht, h⟩
  case issued =>
    intro y hy p hp
    rcases List.mem_cons.mp (htr ▸ hy) with rfl | hy
    · -- the exchange that ends here is that of the token presented
      obtain ⟨z, e, hl, hz, hzt, hzo, hzf, hep⟩ := pending_of_issues hown hfresh hat hx hp
      obtain ⟨t, ht, hid, hf, hu⟩ := h.saved z hz hzt e hzo
      refine ⟨⟨t, hfor t ht, hid.trans hep, hu⟩, fun f y' e' hl' ho' hid' => ?_⟩
      obtain ⟨hfd, hl'⟩ := hpend f y' e' hl' ho'
      obtain ⟨t', ht', hid₂, hf₂, -⟩ := h.saved_last hl' ho'
      obtain rfl := h.ids.eq ht ht' ((hid.trans hep).trans (hid'.symm.trans hid₂.symm))
      exact hfd (hf₂.symm.trans (hf.trans hzf))
    · obtain ⟨⟨t, ht, hid, hu⟩, hne⟩ := h.issued y hy p hp
      exact ⟨⟨t, hfor t ht, hid, hu⟩, fun f z e hl ho => hne f z e (hpend f z e hl ho).2 ho⟩
  case once =>
    intro p
    rw [htr]
    by_cases hp : issues p x = true
    · -- an earlier end of this exchange would have left it not pending
      have hnone : w.trace.filter (issues p) = [] := by
        rw [List.filter_eq_nil_iff]
        intro y hy hyp
        obtain ⟨z, e, hl, -, -, hzo, -, hep⟩ := pending_of_issues hown hfresh hat hx hp
        exact (h.issued y hy p hyp).2 _ z e hl hzo hep
      rw [List.filter_cons_of_pos hp, hnone]
      exact le_refl 1
    · rw [List.filter_cons_of_neg hp]
      exact h.once p

end Insert

/-! ## The discipline -/

/-- What a thread knows survives an operation of another thread. -/
theorem known_exec {x : Entry (auth T P)} (h : Inv w) (hk : Known i call o w)
    (hx : (auth T P).Exec i call o w r w') (htr : w'.trace = x :: w.trace)
    (hgood : InsertsFresh x w.trace) (hle : Le w w') (hj : j ≠ i) (hkj : Known j call' o' w) :
    Known j call' o' w' := by
  obtain ⟨took, htr', -⟩ := exec_cases hx
  obtain rfl := (List.cons.inj (htr.symm.trans htr')).1
  refine ⟨hkj.1.other htr hj.symm fun y hy hyj hyt hyu e ho ht hwrites => ?_, hkj.2.later hle⟩
  have hl := hkj.1.pending y hy hyj hyt hyu e ho
  obtain ⟨hu, hfam⟩ := writes?_eq_some.mp hwrites
  cases o with
  | tokenInsert d =>
    exact hj (hyj ▸ pending_of_insert h hk.1 (hgood ht d rfl) hk.2 (Option.some.inj hfam ▸ hl) ho)
  | tokenSave e' =>
    obtain ⟨-, -, hrow, -⟩ := hk.2
    exact not_pending_of_unused h hrow ((findsUnused_iff rfl).mp hu) (Option.some.inj hfam ▸ hl) ho
  | _ => exact absurd hfam (by simp [AuthOp.family?])

/-- A save that finds its row used leaves the tokens as used as they were. -/
theorem Inv.stale {x : Entry (auth T P)} {e : RefreshToken T} (h : Inv w)
    (htr : w'.trace = x :: w.trace) (hop : x.op = .tokenSave e) (hbefore : x.before = w.state)
    (hrow : HasRow e.id e.familyId w) (hstale : ¬ FindsUnused x) (hu : e.used = true)
    (hids : w'.state.TokenIds) (hdrawn : (w'.state.drawn.map Prod.snd).Nodup)
    (hsub : w.state.drawn ⊆ w'.state.drawn) (htok : w'.state.refreshTokens =
      w.state.refreshTokens.map fun t => if t.id = e.id then e else t) : Inv w' := by
  obtain ⟨row, hr, hrid, hrf⟩ := hrow
  have hru : row.used = true := by
    rw [findsUnused_iff hop, hbefore] at hstale
    push Not at hstale
    obtain ⟨row', hr', hid', hu'⟩ := hstale
    obtain rfl := h.ids.eq hr hr' (hrid.trans hid'.symm)
    simpa using hu'
  have halike : ∀ t ∈ w.state.refreshTokens, Alike t (if t.id = e.id then e else t) := by
    intro t ht
    by_cases hid : t.id = e.id
    · obtain rfl := h.ids.eq hr ht (hrid.trans hid.symm)
      rw [if_pos hid]
      exact ⟨hid.symm, hrf.symm, hu.trans hru.symm⟩
    · rw [if_neg hid]
      exact ⟨rfl, rfl, rfl⟩
  refine h.quiet htr (fun _ => if_neg hstale) hids hdrawn hsub (fun t' ht' => ?_) (fun t ht => ?_)
    fun _ e' ho => ?_
  · obtain ⟨t, ht, rfl⟩ := List.mem_map.mp (htok ▸ ht')
    exact ⟨t, ht, halike t ht⟩
  · rw [htok]
    exact ⟨_, List.mem_map_of_mem ht, halike t ht⟩
  · obtain rfl := AuthOp.tokenSave.inj (hop.symm.trans ho)
    rw [htok]
    exact ⟨e, List.mem_map.mpr ⟨row, hr, if_pos hrid⟩, rfl, rfl, hu⟩

theorem exec {x : Entry (auth T P)} (h : Inv w) (hk : Known i call o w)
    (hx : (auth T P).Exec i call o w r w') (htr : w'.trace = x :: w.trace)
    (hgood : InsertsFresh x w.trace) :
    Inv w' ∧ Le w w' ∧
      ∀ j call' o', j ≠ i → Known j call' o' w → Known j call' o' w' := by
  have hids : w'.state.TokenIds := by
    rcases auth_exec_effect hx with hs | ⟨ch, he⟩
    · exact hs ▸ h.ids
    · exact he.tokenIds h.ids
  have hdrawn : (w'.state.drawn.map Prod.snd).Nodup := by
    rcases auth_exec_effect hx with hs | ⟨ch, he⟩
    · exact hs ▸ h.drawn
    · exact he.drawn_nodup h.drawn
  have hall : Inv w' ∧ Le w w' := by
    obtain ⟨took, htr', hsub, ⟨hback, hfor, hquiet⟩ | ⟨ht, d, id, now, rfl, htok⟩ |
      ⟨ht, e, rfl, htok⟩⟩ := exec_cases hx
    all_goals obtain rfl := (List.cons.inj (htr.symm.trans htr')).1
    · refine ⟨h.quiet htr (fun ht => writes?_quiet (hquiet ht)) hids hdrawn hsub (fun t' ht' => ?_)
        (fun t ht => ?_) fun ht e ho => ?_, htr ▸ List.suffix_cons _ _, hsub, fun t ht => ?_⟩
      · obtain ⟨t, ht, hlike⟩ := hback t' ht'
        exact ⟨t, ht, hlike.alike⟩
      · obtain ⟨t', ht', hlike⟩ := hfor t ht
        exact ⟨t', ht', hlike.alike⟩
      · have hnone := hquiet ht
        rw [show o = .tokenSave e from ho] at hnone
        exact absurd hnone (by simp [AuthOp.family?])
      · obtain ⟨t', ht', hlike⟩ := hfor t ht
        exact ⟨t', ht', hlike.id, hlike.familyId⟩
    · refine ⟨h.insert hk.1 (hgood ht d rfl) hk.2 htr (by rw [ht]) hids hdrawn hsub htok,
        htr ▸ List.suffix_cons _ _, hsub, fun t ht => ⟨t, ?_, rfl, rfl⟩⟩
      rw [htok]
      exact List.mem_append_left _ ht
    · obtain ⟨hu, -, hrow, -⟩ := hk.2
      have hsaved : Inv w' := by
        by_cases hfind : FindsUnused (⟨i, call, .tokenSave e, took, w.state⟩ : Entry (auth T P))
        · exact h.save htr ht rfl hrow ((findsUnused_iff rfl).mp hfind)
            (writes?_eq_some.mpr ⟨hfind, rfl⟩) hu hids hdrawn hsub htok
        · exact h.stale htr rfl rfl hrow hfind hu hids hdrawn hsub htok
      refine ⟨hsaved, htr ▸ List.suffix_cons _ _, hsub, fun t ht => ?_⟩
      by_cases hid : t.id = e.id
      · obtain ⟨row, hr, hrid, hrf⟩ := hrow
        obtain rfl := h.ids.eq ht hr (hid.trans hrid.symm)
        exact ⟨e, by rw [htok]; exact List.mem_map.mpr ⟨t, ht, if_pos hid⟩, hid.symm, hrf.symm⟩
      · exact ⟨t, by rw [htok]; exact List.mem_map.mpr ⟨t, ht, if_neg hid⟩, rfl, rfl⟩
  exact ⟨hall.1, hall.2, fun j call' o' hj => known_exec h hk hx htr hgood hall.2 hj⟩

/-- Nothing here depends on more than the refresh tokens and the drawn values. -/
theorem same {s s' : AuthStore T} {l : List (Entry (auth T P))}
    (htok : s'.refreshTokens = s.refreshTokens) (hdrawn : s'.drawn = s.drawn) (h : Inv ⟨s, l⟩) :
    Inv ⟨s', l⟩ ∧ Le (P := P) ⟨s, l⟩ ⟨s', l⟩ ∧
      ∀ i call o, Known (P := P) i call o ⟨s, l⟩ → Known (P := P) i call o ⟨s', l⟩ := by
  have hle : Le (P := P) ⟨s, l⟩ ⟨s', l⟩ := by
    refine ⟨List.suffix_rfl, ?_, fun t ht => ⟨t, ?_, rfl, rfl⟩⟩
    · show s.drawn ⊆ s'.drawn
      rw [hdrawn]
      exact List.Subset.refl _
    · show t ∈ s'.refreshTokens
      rw [htok]
      exact ht
  refine ⟨?_, hle, fun i call o hk => ⟨⟨hk.1.pending, hk.1.first⟩, hk.2.later hle⟩⟩
  constructor
  · show (s'.refreshTokens.map RefreshToken.id).Nodup
    rw [htok]
    exact h.ids
  all_goals simp only [htok, hdrawn]
  · exact h.drawn
  · exact h.born
  · exact h.one
  · exact h.pending
  · exact h.saved
  · exact h.issued
  · exact h.once

/-- The discipline of refresh tokens. -/
def discipline : Guarded (auth T P) where
  good := InsertsFresh
  inv := Inv
  le := Le
  K := Known
  refl := Le.refl
  trans := Le.trans
  exec := exec
  start hs h := by
    obtain ⟨htok, hdrawn, -⟩ := auth_start_tables hs
    exact same htok hdrawn h
  env hv h := by
    obtain ⟨htok, hdrawn, -⟩ := auth_env_tables hv
    exact same htok hdrawn h

/-! ## The programs -/

theorem known_of_quiet (ho : o.Quiet) (hown : Own i w) : Known i call o w := by
  refine ⟨hown, ?_⟩
  cases o with
  | tokenInsert d => exact absurd ho.1 (by simp [AuthOp.family?])
  | tokenSave e => exact absurd ho.1 (by simp [AuthOp.family?])
  | familyRevoke f => exact absurd rfl (ho.2 f)
  | _ => trivial

theorem own_of_quiet (ho : o.family? = none) (hk : Known i call o w)
    (hx : (auth T P).Exec i call o w r w') : Own i w' := by
  obtain ⟨took, htr, -⟩ := exec_cases hx
  constructor
  · intro y hy hyi hyt hyu e hyo
    rcases List.mem_cons.mp (htr ▸ hy) with rfl | hy
    · exact absurd ho (by simp [show o = _ from hyo, AuthOp.family?])
    · have hnone : writes? (⟨i, call, o, took, w.state⟩ : Entry (auth T P)) = none :=
        writes?_quiet ho
      rw [htr, lastIn_cons_ne fun _ => by simp [hnone]]
      exact hk.1.pending y hy hyi hyt hyu e hyo
  · intro y hy hyi hyt d hyo
    rcases List.mem_cons.mp (htr ▸ hy) with rfl | hy
    · exact absurd ho (by simp [show o = _ from hyo, AuthOp.family?])
    · exact hk.1.first y hy hyi hyt d hyo

variable {α : Type}

/-- A program of quiet operations. -/
theorem safe_quiet {p : Prog (AuthSig T) α} (hp : p.All AuthOp.Quiet) {J : World (auth T P) → Prop}
    (hJ : discipline.Lasts J) (hown : Own i w) (hw : J w) :
    discipline.Safe i call (fun _ w' => Own i w' ∧ J w') p w :=
  Guarded.safe_of_all (Own i) known_of_quiet (fun ho => own_of_quiet ho.1) hp hJ hown hw

/-- The family of a token that a call is about to insert. -/
def Family (i : Nat) (call : AuthCall) (f : Uuid) (w : World (auth T P)) : Prop :=
  SavedBy i call f w ∨ (∀ req, call ≠ .refresh req) ∧ (i, f) ∈ w.state.drawn

theorem lasts_family (f : Uuid) :
    (discipline (T := T) (P := P)).Lasts (Family i call f) :=
  fun hle h => h.imp (fun h => h.later hle) fun h => ⟨h.1, hle.drawn h.2⟩

/-- One operation that only reads. -/
theorem safe_read (o : AuthOp T) (ho : o.Reads) {J : World (auth T P) → Prop}
    (hJ : discipline.Lasts J) (hown : Own i w) (hw : J w) :
    discipline.Safe i call (fun _ w' => Own i w' ∧ J w') (Auth.op o) w :=
  safe_quiet (Auth.all_op ho.quiet) hJ hown hw

theorem safe_issueAccessToken (user : User) {J : World (auth T P) → Prop}
    (hJ : discipline.Lasts J) (hown : Own i w) (hw : J w) :
    discipline.Safe i call (fun _ w' => Own i w' ∧ J w')
      (IdentityService.issueAccessToken user) w := by
  have hp : (IdentityService.issueAccessToken user : Prog (AuthSig T) String).All AuthOp.Quiet :=
    Auth.all_issueAccessToken ⟨rfl, fun f h => by cases h⟩
      (fun claims => ⟨rfl, fun f h => by cases h⟩) user
  exact safe_quiet hp hJ hown hw

/-- The family of a new token: the one whose token the thread saved, or a new one. -/
theorem safe_familyOf (f : Option Uuid) (hf : ∀ f' ∈ f, SavedBy i call f' w)
    (hcall : f = none → ∀ req, call ≠ .refresh req) (hown : Own i w) :
    discipline.Safe i call (fun r w' => Own i w' ∧ ∀ f', r = .ok f' → Family i call f' w')
      (IdentityService.familyOf f) w := by
  cases f with
  | some f =>
    refine Guarded.safe_ret ⟨hown, fun f' hf' => ?_⟩
    obtain rfl := Except.ok.inj hf'
    exact .inl (hf f rfl)
  | none =>
    have hquiet : (AuthOp.randomUUID : AuthOp T).Quiet := ⟨rfl, fun f h => by cases h⟩
    refine Guarded.safe_op (J := fun _ => True) (fun _ h => h) trivial (known_of_quiet hquiet hown)
      fun {w₁ r w₂} _ hk _ hx _ _ _ => ⟨own_of_quiet hquiet.1 hk hx, fun f hr => ?_⟩
    subst hr
    obtain ⟨ch, hs, -⟩ := auth_exec_ok hx
    simp only [AuthStore.exec] at hs
    split at hs
    · exact absurd hs (by simp)
    · obtain ⟨hf, hst⟩ := Prod.mk.inj (Option.some.inj hs)
      obtain rfl := Except.ok.inj hf
      exact .inr ⟨hcall rfl, hst ▸ List.mem_cons_self⟩

/-- A refresh token of its family. -/
theorem safe_issueRefreshToken (user : User) (req : Request) (f : Option Uuid)
    (hf : ∀ f' ∈ f, SavedBy i call f' w) (hcall : f = none → ∀ req, call ≠ .refresh req)
    (hown : Own i w) :
    discipline.Safe i call (fun _ _ => True)
      (IdentityService.issueRefreshToken P user req f) w := by
  have hlasts : discipline.Lasts fun w : World (auth T P) => ∀ f' ∈ f, SavedBy i call f' w :=
    fun hle h f' hf' => (h f' hf').later hle
  unfold IdentityService.issueRefreshToken
  refine Guarded.safe_seq (safe_read .randomBytes trivial hlasts hown hf)
    (fun secret w₁ h₁ => ?_) (by simp)
  refine Guarded.safe_seq (safe_read (.bcryptHash _ _) trivial hlasts h₁.1 h₁.2)
    (fun hash w₂ h₂ => ?_) (by simp)
  refine Guarded.safe_seq (safe_familyOf f h₂.2 hcall h₂.1) (fun f' w₃ h₃ => ?_) (by simp)
  refine Guarded.safe_seq (safe_read .clock trivial (lasts_family f') h₃.1 (h₃.2 f' rfl))
    (fun now w₄ h₄ => ?_) (by simp)
  refine Guarded.safe_seq (Guarded.safe_op (J := fun _ => True) (fun _ h => h) trivial ⟨h₄.1, h₄.2⟩
    (Q := fun _ _ => True) fun _ _ _ _ _ _ _ => trivial) (fun saved w₅ _ => ?_) (by simp)
  exact Guarded.safe_ret trivial

/-- A save that took effect, and found its row unused, opens the exchange of its thread. -/
theorem own_of_save {e : RefreshToken T} {a : RefreshToken T} (h : Inv w)
    (hk : Known i call (.tokenSave e) w)
    (hx : (auth T P).Exec i call (.tokenSave e) w (.ok a) w') :
    Own i w' ∧ SavedBy i call e.familyId w' := by
  obtain ⟨ch, -, htr⟩ := auth_exec_ok hx
  obtain ⟨hown, -, -, hrow, hreq⟩ := hk
  refine ⟨⟨fun y hy hyi hyt hyu e' ho => ?_, fun y hy hyi hyt d ho => ?_⟩,
    _, htr ▸ List.mem_cons_self, rfl, rfl, e, rfl, rfl, hreq⟩
  · rcases List.mem_cons.mp (htr ▸ hy) with rfl | hy
    · obtain rfl := AuthOp.tokenSave.inj ho
      rw [htr]
      exact lastIn_cons_self rfl (writes?_eq_some.mpr ⟨hyu, rfl⟩)
    · have hl := hown.pending y hy hyi hyt hyu e' ho
      rw [htr, lastIn_cons_ne]
      · exact hl
      · rintro - hwrites
        obtain ⟨hu, hfam⟩ := writes?_eq_some.mp hwrites
        exact not_pending_of_unused h hrow ((findsUnused_iff rfl).mp hu)
          (Option.some.inj hfam ▸ hl) ho
  · rcases List.mem_cons.mp (htr ▸ hy) with rfl | hy
    · exact absurd ho (by simp)
    · exact hown.first y hy hyi hyt d ho

theorem safe_rotate (req : Request) (stored : RefreshToken T) (user : Option User)
    (hlive : stored.revoked = false) (hrow : HasRow stored.id stored.familyId w)
    (hcall : call = .refresh req) (hreq : req.presents P = some stored.id) (hown : Own i w) :
    discipline.Safe i call (fun _ _ => True) (IdentityService.rotate P req stored user) w := by
  have hlasts : discipline.Lasts (SavedBy (T := T) (P := P) i call stored.familyId) :=
    fun hle h => h.later hle
  unfold IdentityService.rotate
  refine Guarded.safe_seq (Guarded.safe_op (J := fun _ => True) (fun _ h => h) trivial
    ⟨hown, rfl, hlive, hrow, req, hcall, hreq⟩ (Q := fun r w' => ∀ a, r = .ok a →
      Own i w' ∧ SavedBy i call stored.familyId w') fun {w₁ r w₂} hinv hk _ hx _ _ _ a hr => ?_)
    (fun a w₁ h₁ => ?_) (by simp)
  · subst hr
    exact own_of_save (e := { stored with used := true }) hinv hk hx
  · obtain ⟨hown₁, hsaved₁⟩ := h₁ a rfl
    cases user with
    | none => exact Guarded.safe_throw trivial
    | some user =>
      refine Guarded.safe_seq (safe_issueAccessToken user hlasts hown₁ hsaved₁)
        (fun token w₂ h₂ => ?_) (by simp)
      refine Guarded.safe_seq (safe_issueRefreshToken user req (some stored.familyId)
        (fun f hf => Option.some.inj hf ▸ h₂.2) (by simp) h₂.1) (fun _ w₃ _ => ?_) (by simp)
      exact Guarded.safe_ret trivial

theorem safe_exchange (req : Request) (rawSecret : String) (stored : RefreshToken T)
    (user : Option User) (hrow : HasRow stored.id stored.familyId w)
    (hcall : call = .refresh req) (hreq : req.presents P = some stored.id) (hown : Own i w) :
    discipline.Safe i call (fun _ _ => True)
      (IdentityService.exchange P req rawSecret stored user) w := by
  have hlasts : discipline.Lasts (HasRow (T := T) (P := P) stored.id stored.familyId) :=
    fun hle h => h.later hle
  unfold IdentityService.exchange
  split
  · exact Guarded.safe_throw trivial
  · rename_i hlive
    rw [Bool.not_eq_true] at hlive
    split
    · obtain ⟨t, ht, -, hf⟩ := hrow
      refine Guarded.safe_seq (Guarded.safe_op (J := fun _ => True) (fun _ h => h) trivial
        ⟨hown, t, ht, hf⟩ (Q := fun _ _ => True) fun _ _ _ _ _ _ _ => trivial)
        (fun _ w₁ _ => ?_) (by simp)
      exact Guarded.safe_throw trivial
    · refine Guarded.safe_seq (safe_read .clock trivial hlasts hown hrow)
        (fun now w₁ h₁ => ?_) (by simp)
      split
      · exact Guarded.safe_throw trivial
      · refine Guarded.safe_seq (safe_read (.bcryptCompare _ _) trivial hlasts h₁.1 h₁.2)
          (fun found w₂ h₂ => ?_) (by simp)
        split
        · exact safe_rotate req stored user hlive h₂.2 hcall hreq h₂.1
        · exact Guarded.safe_throw trivial

/-- A token that a lookup answers is a row. -/
theorem found_of_tokenFindOne {text : String} {x : Option (RefreshToken T × Option User)}
    (hx : (auth T P).Exec i call (.tokenFindOne text) w (.ok x) w') :
    ∃ id, P.uuidOf text = some id ∧ w'.state = w.state ∧
      x = (w.state.token id).map fun t => (t, w.state.users.find? (·.id = t.userId)) := by
  obtain ⟨ch, hs, -⟩ := auth_exec_ok hx
  simp only [AuthStore.exec] at hs
  split at hs
  · exact absurd (Prod.mk.inj (Option.some.inj hs)).1 (by simp)
  · rename_i id hid
    obtain ⟨hr, hs⟩ := Prod.mk.inj (Option.some.inj hs)
    exact ⟨id, hid, hs.symm, (Except.ok.inj hr).symm⟩

theorem safe_refresh (req : Request) (hcall : call = .refresh req) (hown : Own i w) :
    discipline.Safe i call (fun _ _ => True) (IdentityService.refresh (T := T) P req) w := by
  unfold IdentityService.refresh
  split
  · exact Guarded.safe_throw trivial
  · exact Guarded.safe_throw trivial
  · rename_i rawCookie _ hcookie
    split
    · exact Guarded.safe_throw trivial
    · rename_i tokenId rawSecret hparts
      have hquiet : (AuthOp.tokenFindOne tokenId : AuthOp T).Quiet :=
        AuthOp.Reads.quiet (o := .tokenFindOne tokenId) trivial
      refine Guarded.safe_seq (Guarded.safe_op (J := fun _ => True) (fun _ h => h) trivial
        (known_of_quiet hquiet hown) (Q := fun r w' => Own i w' ∧ ∀ t u, r = .ok (some (t, u)) →
          HasRow t.id t.familyId w' ∧ req.presents P = some t.id)
        fun {w₁ r w₂} _ hk _ hx _ _ _ => ⟨own_of_quiet hquiet.1 hk hx, fun t u hr => ?_⟩)
        (fun found w₁ h₁ => ?_) (by simp)
      · subst hr
        obtain ⟨id, hid, hs, hfound⟩ := found_of_tokenFindOne hx
        obtain ⟨t', ht', heq⟩ := Option.map_eq_some_iff.mp hfound.symm
        obtain rfl := (Prod.mk.inj heq).1
        refine ⟨⟨t', hs ▸ AuthStore.token_mem ht', rfl, rfl⟩, ?_⟩
        simp [Request.presents, hcookie, hparts, hid, AuthStore.token_id ht']
      · split
        · exact Guarded.safe_throw trivial
        · rename_i stored user
          obtain ⟨hrow, hreq⟩ := h₁.2 stored user rfl
          exact safe_exchange req rawSecret stored user hrow hcall hreq h₁.1

theorem safe_login (dto : LoginDto) (req : Request) (hcall : ∀ req', call ≠ .refresh req')
    (hown : Own i w) :
    discipline.Safe i call (fun _ _ => True) (IdentityService.login (T := T) P dto req) w := by
  have hlasts : discipline.Lasts fun _ : World (auth T P) => True := fun _ h => h
  unfold IdentityService.login
  refine Guarded.safe_seq (safe_read (.userFindOne _) trivial hlasts hown trivial)
    (fun found w₁ h₁ => ?_) (by simp)
  refine Guarded.safe_seq (safe_read (.bcryptCompare _ _) trivial hlasts h₁.1 trivial)
    (fun valid w₂ h₂ => ?_) (by simp)
  split
  · refine Guarded.safe_seq (safe_issueAccessToken _ hlasts h₂.1 trivial)
      (fun token w₃ h₃ => ?_) (by simp)
    refine Guarded.safe_seq (safe_issueRefreshToken _ req none (by simp) (fun _ => hcall) h₃.1)
      (fun _ w₄ _ => ?_) (by simp)
    exact Guarded.safe_ret trivial
  · exact Guarded.safe_throw trivial

/-- Every call follows the discipline. -/
theorem safe_body (hown : Own i w) :
    discipline.Safe i call (fun _ _ => True) (call.body P : Prog (AuthSig T) _) w := by
  have hmap : ∀ {α : Type} {p : Prog (AuthSig T) α} (f : α → AuthReply),
      discipline.Safe (M := auth T P) i call (fun _ _ => True) p w →
      discipline.Safe i call (fun _ _ => True) (f <$> p) w := by
    intro α p f hp
    rw [map_eq_pure_bind]
    exact Guarded.safe_seq hp (fun a w' _ => Guarded.safe_ret trivial) (by simp)
  have hquiet : (∀ o : AuthOp T, AuthFootprint call o → o.Quiet) →
      discipline.Safe i call (fun _ _ => True) (call.body P : Prog (AuthSig T) _) w := fun h =>
    (safe_quiet ((auth_footprint P call).mono h) (J := fun _ => True) (fun _ h => h) hown
      trivial).mono fun _ _ _ => trivial
  cases call with
  | login dto req => exact hmap _ (safe_login dto req (by simp) hown)
  | refresh req => exact hmap _ (safe_refresh req rfl hown)
  | _ => exact hquiet fun o ho => ho.quiet (by simp) (by simp)

theorem inv_empty (now : T) : Inv (P := P) ⟨.empty now, []⟩ := by
  constructor
  · exact List.nodup_nil
  · exact List.nodup_nil
  all_goals simp [AuthStore.empty, lastIn]

/-- What holds in every run that meets the condition. -/
theorem inv_of_reach {now : T} {c : Config (auth T P)}
    (hc : (auth T P).Reach ((auth T P).Good InsertsFresh) ((auth T P).init (.empty now)) c) :
    Inv c.toWorld :=
  (discipline.reach (fun _ _ _ _ => True) (fun _ _ _ _ _ _ h => h)
    (fun _ _ _ _ hfresh => safe_body ⟨fun x hx hi => absurd hi (hfresh x hx),
      fun x hx hi => absurd hi (hfresh x hx)⟩) (inv_empty now) hc).1

end Exchange

/-- **Each token is exchanged at most once** in every run in which only those insert who found their
rows unused, and each family has at most one live token in every state of it. -/
theorem auth_exchanged_once {now : T} {c : Config (auth T P)}
    (hc : (auth T P).Reach ((auth T P).Good InsertsFresh) ((auth T P).init (.empty now)) c) :
    ExchangedOnce c := by
  have hinv := Exchange.inv_of_reach hc
  refine ⟨hinv.once, fun f => ?_⟩
  have hnodup : (c.state.refreshTokens.filter fun t => t.familyId = f ∧ t.live).Nodup :=
    (List.Nodup.of_map _ hinv.ids).filter _
  have hmem : ∀ t ∈ c.state.refreshTokens.filter fun t => t.familyId = f ∧ t.live,
      t ∈ c.state.refreshTokens ∧ t.familyId = f ∧ t.used = false := by
    intro t ht
    simp only [List.mem_filter, RefreshToken.live, decide_eq_true_eq, Bool.and_eq_true,
      Bool.not_eq_true'] at ht
    exact ⟨ht.1, ht.2.1, ht.2.2.1⟩
  rcases hl : c.state.refreshTokens.filter fun t => t.familyId = f ∧ t.live with
    _ | ⟨a, _ | ⟨b, l⟩⟩
  · rw [hl]
    exact Nat.zero_le 1
  · rw [hl]
    exact le_refl 1
  · rw [hl] at hnodup hmem
    obtain ⟨ha, haf, hau⟩ := hmem a (by simp)
    obtain ⟨hb, hbf, hbu⟩ := hmem b (by simp)
    have hab : a = b := hinv.ids.eq ha hb (hinv.one a ha b hb hau hbu (haf.trans hbf.symm))
    exact absurd hnodup (by simp [hab])

/-- A login, and one refresh with its cookie. -/
theorem auth_exchanged_once_rotated : ∃ c, (auth ℤ sample).replay ((auth ℤ sample).init (.empty 0))
      (signedIn ++ rotation 2 ++ rotated 2 41) = some c ∧ c.state.refreshTokens.length = 2 ∧
    ExchangedOnce c := by
  obtain ⟨c, hr, hl, hg⟩ : ∃ c, (auth ℤ sample).replay ((auth ℤ sample).init (.empty 0))
      (signedIn ++ rotation 2 ++ rotated 2 41) = some c ∧ c.state.refreshTokens.length = 2 ∧
      AllGood InsertsFresh c.trace := ⟨_, rfl, rfl, by decide⟩
  exact ⟨c, hr, hl, auth_exchanged_once (.of_allGood (.of_replay .init hr) hg)⟩

/-- Two refreshes with one cookie: both compare the secret before either saves the token. -/
theorem auth_exchanged_twice : ∃ c, (auth ℤ sample).Reachable ((auth ℤ sample).init (.empty 0)) c ∧
    (∃ a b, c.Returned 2 (.refresh cookie40) a ∧ c.Returned 3 (.refresh cookie40) b) ∧
    ¬ ExchangedOnce c := by
  obtain ⟨c, hr, ha, hb, hl⟩ : ∃ c, (auth ℤ sample).replay ((auth ℤ sample).init (.empty 0))
      (signedIn ++ rotation 2 ++ rotation 3 ++ rotated 2 41 ++ rotated 3 42) = some c ∧
      (∃ a, c.Returned 2 (.refresh cookie40) a) ∧ (∃ b, c.Returned 3 (.refresh cookie40) b) ∧
      (c.state.refreshTokens.filter fun t => t.familyId = 30 ∧ t.live).length = 2 :=
    ⟨_, rfl, ⟨_, rfl⟩, ⟨_, rfl⟩, rfl⟩
  obtain ⟨a, ha⟩ := ha
  obtain ⟨b, hb⟩ := hb
  refine ⟨c, .of_replay .init hr, ⟨a, b, ha, hb⟩, fun h => ?_⟩
  have hle := h.live 30
  omega

end BoltBet
