import BoltBet.Identity.History

/-!
# Who issued and who used a refresh token

Facts of every run of `auth`, under no condition.

* `Custody.Inv`: tokens keep their ids and families, every family was drawn, and a token is used
  only by a save of it.
* `Issued n p`: thread `n` inserted the token `p`. Only one thread did (`Issued.unique`), and that
  stays so (`issued_later`).
* `saves_found`, `revokes_found`, `inserts_saved`: a thread saves a token that it found unused,
  revokes the family of one that it found used, and issues once, into a family that it drew or of
  which it saved a token.
-/

namespace BoltBet

open Async Auth Exchange

variable {T : Type} [Ring T] [LinearOrder T] [FloorRing T] {P : Platform}

/-- The token that a lookup finds. -/
def AuthOp.finds? (P : Platform) (s : AuthStore T) : AuthOp T → Option (RefreshToken T)
  | .tokenFindOne text => (P.uuidOf text).bind s.token
  | _ => none

omit [Ring T] [LinearOrder T] [FloorRing T] in
theorem AuthOp.finds?_eq_some {o : AuthOp T} {s : AuthStore T} {t : RefreshToken T} :
    o.finds? P s = some t ↔ ∃ text id, o = .tokenFindOne text ∧ P.uuidOf text = some id ∧
      s.token id = some t := by
  cases o with
  | tokenFindOne text =>
    simp only [finds?, Option.bind_eq_some_iff]
    refine ⟨fun ⟨id, hid, ht⟩ => ⟨text, id, rfl, hid, ht⟩, ?_⟩
    rintro ⟨text', id, ho, hid, ht⟩
    obtain rfl := AuthOp.tokenFindOne.inj ho
    exact ⟨id, hid, ht⟩
  | _ => simp [finds?]

omit [Ring T] [LinearOrder T] [FloorRing T] in
theorem AuthOp.finds?_mem {o : AuthOp T} {s : AuthStore T} {t : RefreshToken T}
    (h : o.finds? P s = some t) : t ∈ s.refreshTokens := by
  obtain ⟨-, id, -, -, ht⟩ := finds?_eq_some.mp h
  exact AuthStore.token_mem ht

namespace Custody

/-- Tokens keep their ids and families. -/
def Rows (s s' : AuthStore T) : Prop :=
  ∀ t ∈ s.refreshTokens, ∃ t' ∈ s'.refreshTokens, t'.id = t.id ∧ t'.familyId = t.familyId

omit [Ring T] [LinearOrder T] [FloorRing T] in
theorem Rows.refl (s : AuthStore T) : Rows s s := fun t ht => ⟨t, ht, rfl, rfl⟩

omit [Ring T] [LinearOrder T] [FloorRing T] in
theorem Rows.trans {s s' s'' : AuthStore T} (h : Rows s s') (h' : Rows s' s'') : Rows s s'' := by
  intro t ht
  obtain ⟨t', ht', hid, hf⟩ := h t ht
  obtain ⟨t'', ht'', hid', hf'⟩ := h' t' ht'
  exact ⟨t'', ht'', hid'.trans hid, hf'.trans hf⟩

/-- What holds in every world. -/
structure Inv (w : World (auth T P)) : Prop where
  ids : w.state.TokenIds
  rows : ∀ y ∈ w.trace, Rows y.before w.state
  drawn : (w.state.drawn.map Prod.snd).Nodup
  drawnBy : ∀ x ∈ w.state.drawn, ∃ y ∈ w.trace, y.tid = x.1
  /-- A family was drawn by a thread that inserted its first token. -/
  born : ∀ t ∈ w.state.refreshTokens, ∃ y ∈ w.trace, y.took = true ∧ (∃ d, y.op = .tokenInsert d) ∧
    (y.tid, t.familyId) ∈ w.state.drawn
  used : ∀ t ∈ w.state.refreshTokens, t.used = true → ∃ y ∈ w.trace, y.took = true ∧
    ∃ e, y.op = .tokenSave e ∧ e.id = t.id

/-- Thread `i` found this token by a lookup of its request. -/
def Found (i : Nat) (call : AuthCall) (t : RefreshToken T) (w : World (auth T P)) : Prop :=
  (∃ req, call = .refresh req ∧ req.presents P = some t.id) ∧
    ∃ y ∈ w.trace, y.tid = i ∧ y.took = true ∧ y.op.finds? P y.before = some t

/-- Thread `i` saved a token of the family. -/
def SavedIn (i : Nat) (f : Uuid) (l : List (Entry (auth T P))) : Prop :=
  ∃ y ∈ l, y.tid = i ∧ y.took = true ∧ ∃ e, y.op = .tokenSave e ∧ e.familyId = f

variable {now : T} {i : Nat} {call : AuthCall} {c c' : Config (auth T P)}
  {l : List (Seen (AuthSig T))} {t : RefreshToken T}

/-- Tokens are of families that were drawn. -/
theorem Inv.families {w : World (auth T P)} (h : Inv w) :
    ∀ t ∈ w.state.refreshTokens, t.familyId ∈ w.state.drawn.map Prod.snd := by
  intro t ht
  obtain ⟨y, -, -, -, hd⟩ := h.born t ht
  exact List.mem_map_of_mem hd

/-- A family that a thread drew has no token before the thread inserts one. -/
theorem Inv.no_token {w : World (auth T P)} (h : Inv w) {f : Uuid} (hd : (i, f) ∈ w.state.drawn)
    (hno : ∀ y ∈ w.trace, y.tid = i → ∀ d, y.op ≠ .tokenInsert d) :
    ∀ t ∈ w.state.refreshTokens, t.familyId ≠ f := by
  rintro t ht rfl
  obtain ⟨y, hy, -, ⟨d, hyo⟩, hyd⟩ := h.born t ht
  have hyi : (y.tid, t.familyId) = (i, t.familyId) := List.inj_on_of_nodup_map h.drawn hyd hd rfl
  exact hno y hy (congrArg Prod.fst hyi) d hyo

/-- A lookup that was answered. -/
theorem found_of_saw (hl : (auth T P).Recalls ((auth T P).init (.empty now)) i call l c)
    {text : String} {u : Option User} (h : Saw l (.tokenFindOne text) (some (t, u))) :
    Found i call t c.toWorld := by
  have hran := hl.ran _ h
  obtain ⟨y, hy, hi, -, ho, ht, ch, s, hx⟩ := hran.entry
  simp only [AuthStore.exec] at hx
  split at hx
  · exact absurd (Prod.mk.inj (Option.some.inj hx)).1 (by simp)
  · rename_i id hid
    have hfound := Except.ok.inj (Prod.mk.inj (Option.some.inj hx)).1
    obtain ⟨t', ht', heq⟩ := Option.map_eq_some_iff.mp hfound
    obtain rfl := (Prod.mk.inj heq).1
    refine ⟨?_, y, hy, hi, ht, by simp [ho, AuthOp.finds?, hid, ht']⟩
    obtain ⟨c₁, c₂, m, h₁, hw, -⟩ := hran
    obtain ⟨l₁, -, -, req, hcall, hp⟩ := Machine.along_waits auth_along h₁ hw
    exact ⟨req, hcall, by rw [hp, hid, AuthStore.token_id ht']⟩

/-- A token that was found is still there. -/
theorem Found.row (h : Found i call t c.toWorld) (hinv : Inv c.toWorld) :
    HasRow t.id t.familyId c.toWorld := by
  obtain ⟨-, y, hy, -, -, hf⟩ := h
  exact hinv.rows y hy t (AuthOp.finds?_mem hf)

/-! ## Every run -/

/-- Values stay drawn. -/
theorem drawn_step {e : Event (auth T P)} (hs : (auth T P).step c e = some c') :
    c.state.drawn ⊆ c'.state.drawn := by
  rcases Machine.step_cases hs with ⟨i, call, s, -, -, hst, rfl⟩ |
    ⟨i, m, call, o, k, r, w', -, -, hx, rfl⟩ | ⟨i, call, o, k, -, -, rfl⟩ | ⟨v, s, -, hv, rfl⟩
  · obtain ⟨-, hd, -⟩ := auth_start_tables hst
    exact hd ▸ List.Subset.refl _
  · obtain ⟨took, -, hsub, -⟩ := exec_cases hx
    exact hsub
  · exact List.Subset.refl _
  · obtain ⟨-, hd, -⟩ := auth_env_tables hv
    exact hd ▸ List.Subset.refl _

/-- A value that was drawn, was drawn by its thread. -/
theorem drawn_of_ran {f : Uuid} (h : (auth T P).Ran ((auth T P).init (.empty now)) i call
    ⟨.randomUUID, .ok f⟩ c) : (i, f) ∈ c.state.drawn := by
  obtain ⟨c₁, c₂, m, h₁, hw, hs, hx, h₂⟩ := h
  refine Machine.Reach.keeps (J := fun c : Config (auth T P) => (i, f) ∈ c.state.drawn)
    (h₁.step _ trivial hs) h₂ (fun _ hs hJ => drawn_step hs hJ) ?_
  obtain ⟨ch, he, -⟩ := auth_exec_ok hx
  simp only [AuthStore.exec] at he
  split at he
  · exact absurd he (by simp)
  · obtain ⟨hf, hst⟩ := Prod.mk.inj (Option.some.inj he)
    obtain rfl := Except.ok.inj hf
    exact hst ▸ List.mem_cons_self

theorem drawn_of_saw (hl : (auth T P).Recalls ((auth T P).init (.empty now)) i call l c) {f : Uuid}
    (h : Saw l .randomUUID f) : (i, f) ∈ c.state.drawn := drawn_of_ran (hl.ran _ h)

/-! ### What waiting threads found -/

variable {o : AuthOp T} {r : Except AuthErr o.Res} {w w' : World (auth T P)}

section Waits

variable (hc : (auth T P).Reachable ((auth T P).init (.empty now)) c)
include hc

theorem saves_found {e : RefreshToken T} (hw : c.Waits i call (.tokenSave e)) :
    ∃ t, Found i call t c.toWorld ∧ t.used = false ∧ e = { t with used := true } := by
  obtain ⟨l, hl, text, t, u, hsaw, hu, -, he⟩ := Machine.along_waits auth_along hc hw
  exact ⟨t, found_of_saw hl hsaw, hu, he⟩

theorem revokes_found {f : Uuid} (hw : c.Waits i call (.familyRevoke f)) :
    ∃ t, Found i call t c.toWorld ∧ t.used = true ∧ t.familyId = f := by
  obtain ⟨l, hl, text, t, u, hsaw, hu, hf⟩ := Machine.along_waits auth_along hc hw
  exact ⟨t, found_of_saw hl hsaw, hu, hf.symm⟩

theorem inserts_saved {d : RefreshTokenDraft T} (hw : c.Waits i call (.tokenInsert d)) :
    ((i, d.familyId) ∈ c.state.drawn ∧ ∀ y ∈ c.trace, y.tid = i → ∀ d', y.op ≠ .tokenInsert d') ∨
      (∃ req, call = .refresh req) ∧ SavedIn i d.familyId c.trace := by
  obtain ⟨l, hl, hno, hsaw | ⟨text, t, u, saved, hsaw, hsave, hf⟩⟩ :=
    Machine.along_waits auth_along hc hw
  · refine .inl ⟨drawn_of_saw hl hsaw, fun y hy hi d' ho => ?_⟩
    obtain ⟨x, hx, hxo⟩ := hl.own y hy hi
    exact hno x hx d' (hxo.trans ho)
  · obtain ⟨⟨req, hcall, -⟩, -⟩ := found_of_saw hl hsaw
    obtain ⟨y, hy, hi, -, ho, ht, -⟩ := (hl.ran _ hsave).entry
    exact .inr ⟨⟨req, hcall⟩, y, hy, hi, ht, _, ho, hf⟩

/-- A thread looks a token up before it does anything else. -/
theorem lookup_first {text : String} (hw : c.Waits i call (.tokenFindOne text)) :
    (∃ req, call = .refresh req ∧ req.presents P = P.uuidOf text) ∧ ∀ y ∈ c.trace, y.tid ≠ i := by
  obtain ⟨l, hl, rfl, hreq⟩ := Machine.along_waits auth_along hc hw
  refine ⟨hreq, fun y hy hi => ?_⟩
  obtain ⟨x, hx, -⟩ := hl.own y hy hi
  exact absurd hx (by simp)

end Waits

theorem Found.later (h : Found i call t w) (hle : w.trace <:+ w'.trace) : Found i call t w' := by
  obtain ⟨hreq, y, hy, hfound⟩ := h
  exact ⟨hreq, y, hle.subset hy, hfound⟩

/-- Saved tokens were found before. -/
theorem saved_found (hc : (auth T P).Reachable ((auth T P).init (.empty now)) c)
    {y : Entry (auth T P)} (hy : y ∈ c.trace) {e : RefreshToken T} (ho : y.op = .tokenSave e) :
    ∃ t, Found y.tid y.call t c.toWorld ∧ t.used = false ∧ e = { t with used := true } := by
  obtain ⟨c₁, h₁, hw, -, hr⟩ := Machine.waited_of_trace hc hy
  obtain ⟨t, ht, hu, he⟩ := saves_found h₁ (ho ▸ hw)
  exact ⟨t, ht.later hr.trace_suffix, hu, he⟩

/-- Families are revoked for a used token that was found before. -/
theorem revoked_found (hc : (auth T P).Reachable ((auth T P).init (.empty now)) c)
    {y : Entry (auth T P)} (hy : y ∈ c.trace) {f : Uuid} (ho : y.op = .familyRevoke f) :
    ∃ t, Found y.tid y.call t c.toWorld ∧ t.used = true ∧ t.familyId = f := by
  obtain ⟨c₁, h₁, hw, -, hr⟩ := Machine.waited_of_trace hc hy
  obtain ⟨t, ht, hu, hf⟩ := revokes_found h₁ (ho ▸ hw)
  exact ⟨t, ht.later hr.trace_suffix, hu, hf⟩

/-! ### The invariant -/

/-- A save keeps the family of its row. -/
theorem rows_exec (hids : w.state.TokenIds) (hx : (auth T P).Exec i call o w r w')
    (hsave : ∀ e, o = .tokenSave e → HasRow e.id e.familyId w) : Rows w.state w'.state := by
  intro t ht
  obtain ⟨took, -, -, ⟨-, hfor, -⟩ | ⟨-, d, id, now, -, htok⟩ | ⟨-, e, ho, htok⟩⟩ := exec_cases hx
  · obtain ⟨t', ht', hlike⟩ := hfor t ht
    exact ⟨t', ht', hlike.id, hlike.familyId⟩
  · exact ⟨t, htok ▸ List.mem_append_left _ ht, rfl, rfl⟩
  · by_cases hid : t.id = e.id
    · obtain ⟨row, hr, hrid, hrf⟩ := hsave e ho
      obtain rfl := hids.eq hr ht (hrid.trans hid.symm)
      exact ⟨e, htok ▸ List.mem_map.mpr ⟨row, hr, if_pos hid⟩, hid.symm, hrf.symm⟩
    · exact ⟨t, htok ▸ List.mem_map.mpr ⟨t, ht, if_neg hid⟩, rfl, rfl⟩

/-- Used tokens are saved ones. -/
theorem used_exec (h : Inv w) (hx : (auth T P).Exec i call o w r w') :
    ∀ t ∈ w'.state.refreshTokens, t.used = true → ∃ y ∈ w'.trace, y.took = true ∧
      ∃ e, y.op = .tokenSave e ∧ e.id = t.id := by
  intro t ht hu
  have hold : ∀ t₀ ∈ w.state.refreshTokens, t₀.used = true → t₀.id = t.id → ∃ y ∈ w'.trace,
      y.took = true ∧ ∃ e, y.op = .tokenSave e ∧ e.id = t.id := by
    intro t₀ ht₀ hu₀ hid
    obtain ⟨y, hy, hyt, e, ho, he⟩ := h.used t₀ ht₀ hu₀
    obtain ⟨took, htr⟩ := hx.entry
    exact ⟨y, htr ▸ List.mem_cons_of_mem _ hy, hyt, e, ho, he.trans hid⟩
  obtain ⟨took, htr, -, ⟨hback, -, -⟩ | ⟨-, d, id, now, -, htok⟩ | ⟨hto, e, ho, htok⟩⟩ :=
    exec_cases hx
  · obtain ⟨t₀, ht₀, hlike⟩ := hback t ht
    exact hold t₀ ht₀ (hlike.used.symm.trans hu) hlike.id.symm
  · rw [htok, List.mem_append, List.mem_singleton] at ht
    rcases ht with ht | rfl
    · exact hold t ht hu rfl
    · exact absurd hu (by simp [RefreshTokenDraft.row])
  · rw [htok] at ht
    obtain ⟨t₀, ht₀, rfl⟩ := List.mem_map.mp ht
    by_cases hid : t₀.id = e.id
    · rw [if_pos hid]
      exact ⟨_, htr ▸ List.mem_cons_self, hto, e, ho, rfl⟩
    · have heq : (if t₀.id = e.id then e else t₀) = t₀ := if_neg hid
      exact hold t₀ ht₀ (heq ▸ hu) (congrArg RefreshToken.id heq).symm

/-- Who draws a family inserts its first token. -/
theorem born_exec (h : Inv w) (hx : (auth T P).Exec i call o w r w')
    (hsave : ∀ e, o = .tokenSave e → HasRow e.id e.familyId w)
    (hins : ∀ d, o = .tokenInsert d → (i, d.familyId) ∈ w.state.drawn ∨
      ∃ t ∈ w.state.refreshTokens, t.familyId = d.familyId) :
    ∀ t ∈ w'.state.refreshTokens, ∃ y ∈ w'.trace, y.took = true ∧ (∃ d, y.op = .tokenInsert d) ∧
      (y.tid, t.familyId) ∈ w'.state.drawn := by
  intro t ht
  obtain ⟨took, htr, hsub, hcases⟩ := exec_cases hx
  have hold : ∀ t₀ ∈ w.state.refreshTokens, t₀.familyId = t.familyId → ∃ y ∈ w'.trace,
      y.took = true ∧ (∃ d, y.op = .tokenInsert d) ∧ (y.tid, t.familyId) ∈ w'.state.drawn := by
    intro t₀ ht₀ hf
    obtain ⟨y, hy, hyt, hyo, hyd⟩ := h.born t₀ ht₀
    exact ⟨y, htr ▸ List.mem_cons_of_mem _ hy, hyt, hyo, hf ▸ hsub hyd⟩
  rcases hcases with ⟨hback, -, -⟩ | ⟨hto, d, id, now, ho, htok⟩ | ⟨-, e, ho, htok⟩
  · obtain ⟨t₀, ht₀, hlike⟩ := hback t ht
    exact hold t₀ ht₀ hlike.familyId.symm
  · rw [htok, List.mem_append, List.mem_singleton] at ht
    rcases ht with ht | rfl
    · exact hold t ht rfl
    · rcases hins d ho with hd | ⟨t₀, ht₀, hf⟩
      · exact ⟨_, htr ▸ List.mem_cons_self, hto, ⟨d, ho⟩, hsub hd⟩
      · exact hold t₀ ht₀ hf
  · rw [htok] at ht
    obtain ⟨t₀, ht₀, rfl⟩ := List.mem_map.mp ht
    by_cases hid : t₀.id = e.id
    · obtain ⟨row, hr, -, hrf⟩ := hsave e ho
      exact hold row hr (hrf.trans (by rw [if_pos hid]))
    · exact hold t₀ ht₀ (by rw [if_neg hid])

theorem inv_exec (hc : (auth T P).Reachable ((auth T P).init (.empty now)) c)
    (hw : c.Waits i call o) (hx : (auth T P).Exec i call o c.toWorld r c'.toWorld)
    (h : Inv c.toWorld) : Inv c'.toWorld := by
  have hsave : ∀ e, o = .tokenSave e → HasRow e.id e.familyId c.toWorld := by
    rintro e rfl
    obtain ⟨t, ht, -, rfl⟩ := saves_found hc hw
    exact ht.row h
  have hrows := rows_exec h.ids hx hsave
  have heff := auth_exec_effect hx
  obtain ⟨took, htr⟩ := hx.entry
  constructor
  · rcases heff with hs | ⟨ch, he⟩
    · exact hs ▸ h.ids
    · exact he.tokenIds h.ids
  · intro y hy
    rcases List.mem_cons.mp (htr ▸ hy) with rfl | hy
    · exact hrows
    · exact (h.rows y hy).trans hrows
  · rcases heff with hs | ⟨ch, he⟩
    · exact hs ▸ h.drawn
    · exact he.drawn_nodup h.drawn
  · have hold : ∀ x ∈ c.state.drawn, ∃ y ∈ c'.trace, y.tid = x.1 := by
      intro x hx
      obtain ⟨y, hy, hyx⟩ := h.drawnBy x hx
      exact ⟨y, htr ▸ List.mem_cons_of_mem _ hy, hyx⟩
    intro x hx
    rcases heff with hs | ⟨ch, he⟩
    · exact hold x (hs ▸ hx)
    · rcases he.drawn_cases with hd | ⟨-, -, hd⟩
      · exact hold x (hd ▸ hx)
      · rcases List.mem_cons.mp (hd ▸ hx) with rfl | hx
        · exact ⟨_, htr ▸ List.mem_cons_self, rfl⟩
        · exact hold x hx
  · refine born_exec h hx hsave ?_
    rintro d rfl
    rcases inserts_saved hc hw with ⟨hd, -⟩ | ⟨-, y, hy, -, -, e, ho, hf⟩
    · exact .inl hd
    · obtain ⟨t, ht, -, rfl⟩ := saved_found hc hy ho
      obtain ⟨row, hr, -, hrf⟩ := ht.row h
      exact .inr ⟨row, hr, hrf.trans hf⟩
  · exact used_exec h hx

/-- The tables of a state that did not change them. -/
theorem Inv.same {s s' : AuthStore T} {l : List (Entry (auth T P))}
    (htok : s'.refreshTokens = s.refreshTokens) (hdrawn : s'.drawn = s.drawn) (h : Inv ⟨s, l⟩) :
    Inv ⟨s', l⟩ where
  ids := by
    unfold AuthStore.TokenIds
    exact htok ▸ h.ids
  rows y hy t ht := by
    obtain ⟨t', ht', h'⟩ := h.rows y hy t ht
    exact ⟨t', htok ▸ ht', h'⟩
  drawn := hdrawn ▸ h.drawn
  drawnBy := hdrawn ▸ h.drawnBy
  born := by
    intro t ht
    exact hdrawn ▸ h.born t (htok ▸ ht)
  used := htok ▸ h.used

/-- **What holds in every run.** -/
theorem reach (hc : (auth T P).Reachable ((auth T P).init (.empty now)) c) : Inv c.toWorld := by
  refine hc.follow ?_ (fun call s s' l hs h => ?_) (fun v s s' l hv h => ?_)
    fun hc _ hw _ hx h => inv_exec hc hw hx h
  · constructor
    · exact List.nodup_nil
    · simp [Machine.init]
    · exact List.nodup_nil
    all_goals simp [Machine.init, AuthStore.empty]
  · obtain ⟨htok, hdrawn, -⟩ := auth_start_tables hs
    exact h.same htok hdrawn
  · obtain ⟨htok, hdrawn, -⟩ := auth_env_tables hv
    exact h.same htok hdrawn

/-! ## Who issued a token -/

/-- Thread `n` inserted the token `p`: it ran the last operation that did not find it there. -/
def Issued (n : Nat) (p : Uuid) (w : World (auth T P)) : Prop :=
  (∃ t ∈ w.state.refreshTokens, t.id = p) ∧
    (w.trace.find? fun y => (y.before.token p).isNone).map Entry.tid = some n

/-- One thread issued a token. -/
theorem Issued.unique {n n' : Nat} {p : Uuid} (h : Issued n p w) (h' : Issued n' p w) : n = n' :=
  Option.some.inj (h.2.symm.trans h'.2)

theorem Issued.same {n : Nat} {p : Uuid} {s s' : AuthStore T} {l : List (Entry (auth T P))}
    (htok : s'.refreshTokens = s.refreshTokens) (h : Issued n p ⟨s, l⟩) : Issued n p ⟨s', l⟩ :=
  ⟨htok ▸ h.1, h.2⟩

theorem issued_exec {n : Nat} {p : Uuid} (hrows : Rows w.state w'.state)
    (hx : (auth T P).Exec i call o w r w') (h : Issued n p w) : Issued n p w' := by
  obtain ⟨⟨t, ht, rfl⟩, hfind⟩ := h
  obtain ⟨t', ht', hid, -⟩ := hrows t ht
  obtain ⟨took, htr⟩ := hx.entry
  refine ⟨⟨t', ht', hid⟩, ?_⟩
  rw [htr, List.find?_cons_of_neg]
  · exact hfind
  · have hsome : (w.state.token t.id).isSome = true := by
      unfold AuthStore.token
      exact List.find?_isSome.mpr ⟨t, ht, by simp⟩
    simp [Option.isSome_iff_ne_none.mp hsome]

/-- No step loses a token. -/
theorem rows_step {e : Event (auth T P)}
    (hc : (auth T P).Reachable ((auth T P).init (.empty now)) c)
    (hs : (auth T P).step c e = some c') : Rows c.state c'.state := by
  have hinv' := reach (hc.step e trivial hs)
  have hsame : ∀ {s : AuthStore T}, s.refreshTokens = c.state.refreshTokens → Rows c.state s :=
    fun htok t ht => ⟨t, htok ▸ ht, rfl, rfl⟩
  rcases Machine.step_cases hs with ⟨i, call, s, -, -, hst, rfl⟩ |
    ⟨i, m, call, o, k, r, w', -, -, hx, rfl⟩ | ⟨i, call, o, k, -, -, rfl⟩ | ⟨v, s, -, hv, rfl⟩
  · exact hsame (auth_start_tables hst).1
  · obtain ⟨took, htr⟩ := hx.entry
    exact hinv'.rows _ (htr ▸ List.mem_cons_self)
  · exact .refl _
  · exact hsame (auth_env_tables hv).1

/-- Who issued a token stays so. -/
theorem issued_step {n : Nat} {p : Uuid} {e : Event (auth T P)}
    (hc : (auth T P).Reachable ((auth T P).init (.empty now)) c)
    (hs : (auth T P).step c e = some c') (h : Issued n p c.toWorld) : Issued n p c'.toWorld := by
  have hrows := rows_step hc hs
  rcases Machine.step_cases hs with ⟨i, call, s, -, -, hst, rfl⟩ |
    ⟨i, m, call, o, k, r, w', -, -, hx, rfl⟩ | ⟨i, call, o, k, -, -, rfl⟩ | ⟨v, s, -, hv, rfl⟩
  · exact h.same (auth_start_tables hst).1
  · exact issued_exec hrows hx h
  · exact h
  · exact h.same (auth_env_tables hv).1

/-- A token that a thread inserted, it issued. -/
theorem issued_of_saw (hl : (auth T P).Recalls ((auth T P).init (.empty now)) i call l c)
    {d : RefreshTokenDraft T} {row : RefreshToken T} (h : Saw l (.tokenInsert d) row) :
    Issued i row.id c.toWorld ∧ HasRow row.id d.familyId c.toWorld := by
  obtain ⟨c₁, c₂, m, h₁, hw, hs, hx, h₂⟩ := hl.ran _ h
  refine Machine.Reach.keeps (J := fun c : Config (auth T P) =>
      Issued i row.id c.toWorld ∧ HasRow row.id d.familyId c.toWorld) (h₁.step _ trivial hs) h₂
    (fun hc hs hJ => ⟨issued_step hc hs hJ.1, ?_⟩) ?_
  · obtain ⟨t, ht, hid, hf⟩ := hJ.2
    obtain ⟨t', ht', hid', hf'⟩ := rows_step hc hs t ht
    exact ⟨t', ht', hid'.trans hid, hf'.trans hf⟩
  · obtain ⟨ch, he, htr⟩ := auth_exec_ok hx
    simp only [AuthStore.exec] at he
    split at he
    · exact absurd (Prod.mk.inj (Option.some.inj he)).1 (by simp)
    · rename_i hfresh
      obtain ⟨hrow, hst⟩ := Prod.mk.inj (Option.some.inj he)
      obtain rfl := Except.ok.inj hrow
      have hmem : d.row ch.fresh c₁.state.now ∈ c₂.state.refreshTokens := by
        rw [← hst]
        exact List.mem_append_right _ List.mem_cons_self
      refine ⟨⟨⟨_, hmem, rfl⟩, ?_⟩, _, hmem, rfl, rfl⟩
      rw [htr, List.find?_cons_of_pos]
      · rfl
      · simpa [RefreshTokenDraft.row] using hfresh

end Custody

end BoltBet
