import BoltBet.Web.Online

/-!
# One refresh for each cookie

Every request that gets a 401 sends a refresh of its own. Two of them may present one cookie, and
the second then looks like a theft (`browser_family_revoked`).

* `Honest`: what holds of the browser and the API while no cookie is exchanged twice.
* `Honest.browser_same`, `Honest.send`, `Honest.arrive`, `Honest.api_same`, `Honest.run`: each kind
  of step keeps it.
* `browser_never_revoked`: so theft detection never strikes then.
-/

namespace BoltBet

open Async Custody Exchange

variable {T : Type} [Ring T] [LinearOrder T] [FloorRing T] {P : Platform}

/-- The call of a refresh is over, and it left its token unused. -/
def Spared (d : Config (auth T P)) (n : Nat) : Prop :=
  d.Over n ∧ ∀ z ∈ d.trace, z.tid = n → z.took = true → z.op.saved? = none

instance (d : Config (auth T P)) (n : Nat) : Decidable (Spared d n) :=
  inferInstanceAs (Decidable (_ ∧ ∀ z ∈ d.trace, _))

/-- **The condition**: a cookie goes with a refresh only when every earlier refresh that it went
with is over and left its token unused. -/
def SingleFlight (c : Config web) (d : Config (auth T P)) (e : Event web) : Prop :=
  ∀ x ∈ sends? c e, x.2 = .refresh → ∀ y ∈ c.state.sent, y.2.url = .refresh →
    ∀ cookie ∈ c.state.refreshToken, y.2.req.refreshToken = some cookie → Spared d y.1

instance (c : Config web) (d : Config (auth T P)) (e : Event web) :
    Decidable (SingleFlight c d e) :=
  inferInstanceAs (Decidable (∀ x ∈ sends? c e, x.2 = .refresh → ∀ y ∈ c.state.sent, _))

/-- **Theft detection never strikes the browser**: none of its refreshes revokes a family, and
nobody revokes a family of it. -/
structure NeverRevoked (s : Browser) (d : Config (auth T P)) : Prop where
  branch : ∀ z ∈ d.trace, ∀ f, z.op = .familyRevoke f → ∀ x ∈ s.sent, x.1 ≠ z.tid
  family : ∀ z ∈ d.trace, ∀ f, z.op = .familyRevoke f → ¬ Ours s d f

/-- Ids are read back from their texts, which hold no colon. -/
structure Platform.ReadsIds (P : Platform) : Prop where
  uuidOf : ∀ id, P.uuidOf (P.uuidText id) = some id
  colon : ∀ id, ':' ∉ (P.uuidText id).toList

theorem cookieToken_refreshCookie (hP : P.ReadsIds) (id : Uuid) (secret : String) :
    cookieToken P (refreshCookie (P.uuidText id) secret) = some id := by
  unfold cookieToken
  rw [cookieParts_refreshCookie (hP.colon id)]
  exact hP.uuidOf id

/-! ## The invariant -/

/-- Thread `n` used the token `p` up. -/
def UsedUp (n : Nat) (p : Uuid) (d : Config (auth T P)) : Prop :=
  ∃ z ∈ d.trace, z.tid = n ∧ z.took = true ∧ ∃ e, z.op = .tokenSave e ∧ e.id = p

/-- What holds of a browser and the API. -/
structure Honest (s : Browser) (d : Config (auth T P)) : Prop where
  calls : ∀ x ∈ s.sent, ∀ call, d.Started x.1 call → call = x.2.call
  arrivedSent : ∀ y ∈ s.arrived, y.1 ∈ s.sent.map Prod.fst
  answered : ∀ y ∈ s.arrived, Answers d y.1 y.2
  jar : ∀ cookie, s.refreshToken = some cookie → ∃ y ∈ s.arrived, y.2.setCookie = .set cookie
  cookies : ∀ x ∈ s.sent, ∀ cookie, x.2.req.refreshToken = some cookie →
    ∃ y ∈ s.arrived, y.2.setCookie = .set cookie
  /-- The browser finds its own tokens, unused. -/
  finds : ∀ z ∈ d.trace, z.took = true → ∀ t ∈ z.op.finds? P z.before, ∀ x ∈ s.sent,
    x.1 = z.tid → Ours s d t.familyId ∧ t.used = false
  /-- Nobody else finds a token of it. -/
  others : ∀ z ∈ d.trace, z.took = true → ∀ t ∈ z.op.finds? P z.before,
    (∀ x ∈ s.sent, x.1 ≠ z.tid) → ¬ Ours s d t.familyId
  /-- Of two refreshes with one cookie, one is over and left its token unused. -/
  alone : ∀ x ∈ s.sent, x.2.url = .refresh → ∀ x' ∈ s.sent, x'.2.url = .refresh → x'.1 ≠ x.1 →
    ∀ cookie, x.2.req.refreshToken = some cookie → x'.2.req.refreshToken = some cookie →
    Spared d x.1 ∨ Spared d x'.1

/-- A refresh that spared its token makes no difference any more. -/
theorem spared_step {d d' : Config (auth T P)} {e : Event (auth T P)}
    (hs : (auth T P).step d e = some d') {n : Nat} (h : Spared d n) : Spared d' n := by
  refine ⟨Machine.over_step hs h.1, ?_⟩
  rcases Machine.step_cases hs with ⟨i, call, s, -, -, -, rfl⟩ |
    ⟨i, m, call, o, k, r, w', -, hi, hx, rfl⟩ | ⟨i, call, o, k, -, -, rfl⟩ | ⟨v, s, -, -, rfl⟩
  · exact h.2
  · obtain ⟨took, htr⟩ := hx.entry
    intro z hz hzn
    rcases List.mem_cons.mp (htr ▸ hz) with rfl | hz
    · obtain rfl : i = n := hzn
      exact absurd ⟨k, hi⟩ (Config.waiting_eq_none.mp h.1.2 call o)
    · exact h.2 z hz hzn
  · exact h.2
  · exact h.2

theorem presents_iff {req : Request} {p : Uuid} : req.presents P = some p ↔
    ∃ cookie, req.refreshToken = some cookie ∧ cookieToken P cookie = some p := by
  unfold Request.presents cookieToken
  rw [Option.bind_assoc, Option.bind_eq_some_iff]

namespace Honest

variable {s s' : Browser} {c c' : Config web} {d d' : Config (auth T P)} {now : T} {n : Nat}
  {r : Response} {p f : Uuid} {call : AuthCall} {t : RefreshToken T}

/-- The thread that presents a token of the browser is a refresh of the browser. -/
theorem finder (h : Honest s d) (hd : (auth T P).Reachable ((auth T P).init (.empty now)) d)
    (hfound : Found n call t d.toWorld) (hstart : d.Started n call)
    (hrow : HasRow t.id f d.toWorld) (hf : Ours s d f) :
    ∃ x ∈ s.sent, x.1 = n ∧ x.2.url = .refresh ∧ x.2.req.presents P = some t.id := by
  have hinv := reach hd
  obtain ⟨row, hr, hid, rfl⟩ := hrow
  obtain ⟨row', hr', hid', hf'⟩ := hfound.row hinv
  obtain rfl := hinv.ids.eq hr hr' (hid.trans hid'.symm)
  obtain ⟨⟨req, rfl, hp⟩, z, hz, rfl, hzt, hzf⟩ := hfound
  by_contra hno
  refine h.others z hz hzt t hzf (fun x hx hxz => hno ?_) (hf' ▸ hf)
  obtain ⟨hurl, hreq⟩ := WebRequest.call_eq_refresh (h.calls x hx _ (hxz ▸ hstart)).symm
  exact ⟨x, hx, hxz, hurl, hreq ▸ hp⟩

/-- Who used up a token of the browser is a refresh of the browser that presents it. -/
theorem user (h : Honest s d) (hd : (auth T P).Reachable ((auth T P).init (.empty now)) d)
    (hrow : HasRow p f d.toWorld) (hf : Ours s d f) (hu : UsedUp n p d) :
    ∃ x ∈ s.sent, x.1 = n ∧ x.2.url = .refresh ∧ x.2.req.presents P = some p := by
  obtain ⟨z, hz, rfl, -, e, ho, rfl⟩ := hu
  obtain ⟨t, hfound, -, rfl⟩ := saved_found hd hz ho
  exact h.finder (t := t) hd hfound (Machine.entry_started hd z hz) hrow hf

/-- A cookie carries the id of a token that the answering call issued, of a family of the
browser. -/
theorem issued (hP : P.ReadsIds) (h : Honest s d)
    (hd : (auth T P).Reachable ((auth T P).init (.empty now)) d) (hn : n ∈ s.sent.map Prod.fst)
    (ha : Answers d n r) {cookie : String} (hr : r.setCookie = .set cookie)
    (hp : cookieToken P cookie = some p) :
    Issued n p d.toWorld ∧ ∃ f, HasRow p f d.toWorld ∧ Ours s d f := by
  obtain ⟨call, dto, hret⟩ := ha.cookie hr
  obtain ⟨l, hl, dr, row, secret, hsaw, rfl, horigin⟩ := Machine.along_returned auth_along hd hret
  rw [cookieToken_refreshCookie hP] at hp
  obtain rfl := Option.some.inj hp
  obtain ⟨hissued, hrow⟩ := issued_of_saw hl hsaw
  obtain ⟨x, hx, rfl⟩ := List.mem_map.mp hn
  refine ⟨hissued, dr.familyId, hrow, ?_⟩
  rcases horigin with hdrawn | ⟨text, t, u, saved, hfind, -, hf⟩
  · exact ⟨x, hx, drawn_of_saw hl hdrawn⟩
  · obtain ⟨-, z, hz, hzi, hzt, hzf⟩ := found_of_saw hl hfind
    exact hf ▸ (h.finds z hz hzt t hzf x hx hzi.symm).1

/-- A cookie that arrived. -/
theorem held (hP : P.ReadsIds) (h : Honest s d)
    (hd : (auth T P).Reachable ((auth T P).init (.empty now)) d) {cookie : String}
    (hc : ∃ y ∈ s.arrived, y.2.setCookie = .set cookie) (hp : cookieToken P cookie = some p) :
    ∃ f, HasRow p f d.toWorld ∧ Ours s d f := by
  obtain ⟨y, hy, hset⟩ := hc
  exact (h.issued hP hd (h.arrivedSent y hy) (h.answered y hy) hset hp).2

/-- One cookie carries a token. -/
theorem cookie_unique (hP : P.ReadsIds) (h : Honest s d)
    (hd : (auth T P).Reachable ((auth T P).init (.empty now)) d) {cookie cookie' : String}
    (hc : ∃ y ∈ s.arrived, y.2.setCookie = .set cookie)
    (hc' : ∃ y ∈ s.arrived, y.2.setCookie = .set cookie') (hp : cookieToken P cookie = some p)
    (hp' : cookieToken P cookie' = some p) : cookie = cookie' := by
  obtain ⟨y, hy, hset⟩ := hc
  obtain ⟨y', hy', hset'⟩ := hc'
  have hissued := (h.issued hP hd (h.arrivedSent y hy) (h.answered y hy) hset hp).1
  have hissued' := (h.issued hP hd (h.arrivedSent y' hy') (h.answered y' hy') hset' hp').1
  obtain ⟨call, dto, hret⟩ := (h.answered y hy).cookie hset
  obtain ⟨call', dto', hret'⟩ := (h.answered y' hy').cookie hset'
  rw [Config.returned_iff] at hret hret'
  rw [← hissued.unique hissued', hret] at hret'
  exact (AuthReply.tokens.inj (Prod.mk.inj (Option.some.inj hret')).2).2

/-- The token that a request of the browser presents. -/
theorem presented (hP : P.ReadsIds) (h : Honest s d)
    (hd : (auth T P).Reachable ((auth T P).init (.empty now)) d) {x : Nat × WebRequest}
    (hx : x ∈ s.sent) (hp : x.2.req.presents P = some p) :
    ∃ f, HasRow p f d.toWorld ∧ Ours s d f := by
  obtain ⟨cookie, hcookie, hpc⟩ := presents_iff.mp hp
  exact h.held hP hd (h.cookies x hx cookie hcookie) hpc

/-! ## Steps of the browser -/

/-- Nothing that matters changed. -/
theorem browser_same (h : Honest s d) (hcookie : s'.refreshToken = s.refreshToken)
    (hsent : s'.sent = s.sent) (harr : s'.arrived = s.arrived) : Honest s' d := by
  cases s
  cases s'
  obtain rfl := hcookie
  obtain rfl := hsent
  obtain rfl := harr
  exact ⟨h.calls, h.arrivedSent, h.answered, h.jar, h.cookies, h.finds, h.others, h.alone⟩

/-- A request is sent. -/
theorem send (h : Honest s d)
    (hd : (auth T P).Reachable ((auth T P).init (.empty now)) d) (hfree : d.threads n = none)
    {ch : WebChoice} {url : Endpoint} {authorization : Option String}
    (hok : url = .refresh → ∀ y ∈ s.sent, y.2.url = .refresh → ∀ cookie ∈ s.refreshToken,
      y.2.req.refreshToken = some cookie → Spared d y.1)
    (hcookie : s'.refreshToken = s.refreshToken) (harr : s'.arrived = s.arrived)
    (hsent : s'.sent = (n, s.outgoing ch url authorization) :: s.sent) : Honest s' d := by
  have hentry : ∀ z ∈ d.trace, z.tid ≠ n := by
    rintro z hz rfl
    obtain ⟨q, b, hstart⟩ := Machine.entry_started hd z hz
    exact absurd (hfree.symm.trans hstart) (by simp)
  have hmem : ∀ {x}, x ∈ s'.sent → x = (n, s.outgoing ch url authorization) ∨ x ∈ s.sent := by
    intro x hx
    exact List.mem_cons.mp (hsent ▸ hx)
  have hold : ∀ {x}, x ∈ s.sent → x ∈ s'.sent := fun hx => hsent ▸ List.mem_cons_of_mem _ hx
  have hours : ∀ f, Ours s' d f ↔ Ours s d f := by
    refine fun f => ⟨?_, fun ⟨x, hx, hf⟩ => ⟨x, hold hx, hf⟩⟩
    rintro ⟨x, hx, hf⟩
    rcases hmem hx with rfl | hx
    · obtain ⟨z, hz, hzn⟩ := (reach hd).drawnBy _ hf
      exact absurd hzn (hentry z hz)
    · exact ⟨x, hx, hf⟩
  have hjar : ∀ cookie, (s.outgoing ch url authorization).req.refreshToken = some cookie →
      s.refreshToken = some cookie := by
    intro cookie hc
    simp only [Browser.outgoing] at hc
    split at hc
    · exact hc
    · exact absurd hc (by simp)
  constructor
  · intro x hx call hcall
    rcases hmem hx with rfl | hx
    · obtain ⟨q, b, hstart⟩ := hcall
      exact absurd (hfree.symm.trans hstart) (by simp)
    · exact h.calls x hx call hcall
  · intro y hy
    rw [hsent]
    exact List.mem_cons_of_mem _ (h.arrivedSent y (harr ▸ hy))
  · exact harr ▸ h.answered
  · rw [hcookie, harr]
    exact h.jar
  · rw [harr]
    intro x hx cookie hc
    rcases hmem hx with rfl | hx
    · exact h.jar cookie (hjar cookie hc)
    · exact h.cookies x hx cookie hc
  · intro z hz hzt t ht x hx hxz
    rw [hours]
    rcases hmem hx with rfl | hx
    · exact absurd hxz.symm (hentry z hz)
    · exact h.finds z hz hzt t ht x hx hxz
  · intro z hz hzt t ht hno
    rw [hours]
    exact h.others z hz hzt t ht fun x hx => hno x (hold hx)
  · intro x hx hurl x' hx' hurl' hne cookie hc hc'
    rcases hmem hx with rfl | hx
    · rcases hmem hx' with rfl | hx'
      · exact absurd rfl hne
      · exact .inr (hok hurl x' hx' hurl' cookie (hjar cookie hc) hc')
    · rcases hmem hx' with rfl | hx'
      · exact .inl (hok hurl' x hx hurl cookie (hjar cookie hc') hc)
      · exact h.alone x hx hurl x' hx' hurl' hne cookie hc hc'

/-- A response arrives. -/
theorem arrive (h : Honest s d) (ha : Answers d n r) (hn : n ∈ s.sent.map Prod.fst)
    (hcookie : s'.refreshToken = Browser.store s.refreshToken r.setCookie)
    (hsent : s'.sent = s.sent) (harr : s'.arrived = (n, r) :: s.arrived) : Honest s' d := by
  have hours : ∀ f, Ours s' d f ↔ Ours s d f := by
    intro f
    unfold Ours
    rw [hsent]
  have hold : ∀ {y}, y ∈ s.arrived → y ∈ s'.arrived := fun hy => harr ▸ List.mem_cons_of_mem _ hy
  have hlater : ∀ {cookie}, (∃ y ∈ s.arrived, y.2.setCookie = .set cookie) →
      ∃ y ∈ s'.arrived, y.2.setCookie = .set cookie := fun ⟨y, hy, hset⟩ => ⟨y, hold hy, hset⟩
  constructor
  · exact hsent ▸ h.calls
  · intro y hy
    rw [hsent]
    rcases List.mem_cons.mp (harr ▸ hy) with rfl | hy
    · exact hn
    · exact h.arrivedSent y hy
  · intro y hy
    rcases List.mem_cons.mp (harr ▸ hy) with rfl | hy
    · exact ha
    · exact h.answered y hy
  · intro cookie hc
    rw [hcookie] at hc
    cases hr : r.setCookie with
    | keep =>
      rw [hr] at hc
      exact hlater (h.jar cookie hc)
    | set cookie' =>
      rw [hr] at hc
      obtain rfl := Option.some.inj hc
      exact ⟨_, harr ▸ List.mem_cons_self, hr⟩
    | clear =>
      rw [hr] at hc
      exact absurd hc (by simp [Browser.store])
  · intro x hx cookie hc
    exact hlater (h.cookies x (hsent ▸ hx) cookie hc)
  · intro z hz hzt t ht x hx
    rw [hours]
    exact h.finds z hz hzt t ht x (hsent ▸ hx)
  · intro z hz hzt t ht hno
    rw [hours]
    exact h.others z hz hzt t ht fun x hx => hno x (hsent ▸ hx)
  · rw [hsent]
    exact h.alone

/-! ## Steps of the API -/

/-- A step that runs no operation. -/
theorem api_same (h : Honest s d) {e : Event (auth T P)} (hs : (auth T P).step d e = some d')
    (htr : d'.trace = d.trace) (hdrawn : d'.state.drawn = d.state.drawn)
    (hcalls : ∀ x ∈ s.sent, ∀ call, d'.Started x.1 call → call = x.2.call) : Honest s d' := by
  have hours : ∀ f, Ours s d' f ↔ Ours s d f := by
    intro f
    unfold Ours
    rw [hdrawn]
  exact {
    calls := hcalls
    arrivedSent := h.arrivedSent
    answered := fun y hy => answers_step hs (h.answered y hy)
    jar := h.jar
    cookies := h.cookies
    finds := fun z hz hzt t ht x hx hxz => by
      rw [hours]
      exact h.finds z (htr ▸ hz) hzt t ht x hx hxz
    others := fun z hz hzt t ht hno => by
      rw [hours]
      exact h.others z (htr ▸ hz) hzt t ht hno
    alone := fun x hx hurl x' hx' hurl' hne cookie hc hc' =>
      (h.alone x hx hurl x' hx' hurl' hne cookie hc hc').imp (spared_step hs) (spared_step hs) }

/-- **An operation of the API.** -/
theorem run (hP : P.ReadsIds) (h : Honest c.state d)
    (hd : (auth T P).Reachable ((auth T P).init (.empty now)) d) {o : AuthOp T}
    {m : Mode AuthChoice AuthErr} {a : Except AuthErr o.Res}
    (hs : (auth T P).step d (.run n m) = some d') (hw : d.Waits n call o)
    (hexec : (auth T P).Exec n call o d.toWorld a d'.toWorld) (hok : apiAllowed c d (.run n m)) :
    Honest c.state d' := by
  have hinv := reach hd
  have hinv' := reach (hd.step _ trivial hs)
  have hsub := drawn_step hs
  obtain ⟨took, htr⟩ := hexec.entry
  have hmono : ∀ {f}, Ours c.state d f → Ours c.state d' f := fun ⟨x, hx, hf⟩ => ⟨x, hx, hsub hf⟩
  have hback : ∀ {t : RefreshToken T}, t.familyId ∈ d.state.drawn.map Prod.snd →
      Ours c.state d' t.familyId → Ours c.state d t.familyId := by
    rintro t hf ⟨x, hx, hxd⟩
    obtain ⟨y, hy, hyf⟩ := List.mem_map.mp hf
    have heq := List.inj_on_of_nodup_map hinv'.drawn (hsub hy) hxd hyf
    exact ⟨x, hx, heq ▸ hy⟩
  constructor
  · intro x hx call hcall
    rcases (Machine.started_iff hs).mp hcall with hcall | he
    · exact h.calls x hx call hcall
    · exact absurd he (by simp)
  · exact h.arrivedSent
  · exact fun y hy => answers_step hs (h.answered y hy)
  · exact h.jar
  · exact h.cookies
  · intro z hz hzt t ht x hx hxz
    rcases List.mem_cons.mp (htr ▸ hz) with rfl | hz
    · obtain ⟨text, id, rfl, hid, htoken⟩ := AuthOp.finds?_eq_some.mp ht
      obtain ⟨⟨req, rfl, hp⟩, hfirst⟩ := lookup_first hd hw
      have hxn : x.1 = n := hxz
      have hcall := h.calls x hx _ (hxn ▸ hw.started)
      obtain ⟨hurl, rfl⟩ := WebRequest.call_eq_refresh hcall.symm
      have hpt : x.2.req.presents P = some t.id := by
        rw [hp, hid, AuthStore.token_id htoken]
      obtain ⟨f, ⟨row, hr, hrid, rfl⟩, hf⟩ := h.presented hP hd hx hpt
      obtain rfl := hinv.ids.eq hr (AuthStore.token_mem htoken) hrid
      refine ⟨hmono hf, ?_⟩
      by_contra hu
      rw [Bool.not_eq_false] at hu
      -- another refresh with this cookie used the token up
      obtain ⟨y, hy, hyt, e, ho, he⟩ := hinv.used row hr hu
      obtain ⟨x', hx', hxy, hurl', hpt'⟩ := h.user hd ⟨row, hr, rfl, rfl⟩ hf
        ⟨y, hy, rfl, hyt, e, ho, he⟩
      obtain ⟨cookie, hc, hpc⟩ := presents_iff.mp hpt
      obtain ⟨cookie', hc', hpc'⟩ := presents_iff.mp hpt'
      obtain rfl := h.cookie_unique hP hd (h.cookies x hx cookie hc) (h.cookies x' hx' cookie' hc')
        hpc hpc'
      have hne : x'.1 ≠ x.1 := fun heq => hfirst y hy (hxy.symm.trans (heq.trans hxn))
      rcases h.alone x hx hurl x' hx' hurl' hne cookie hc hc' with ⟨hover, -⟩ | ⟨-, hnone⟩
      · exact Config.waiting_eq_none.mp hover.2 _ _ (hxn ▸ hw)
      · exact absurd (hnone y hy hxy.symm hyt) (by simp [ho, AuthOp.saved?])
    · obtain ⟨hf, hu⟩ := h.finds z hz hzt t ht x hx hxz
      exact ⟨hmono hf, hu⟩
  · intro z hz hzt t ht hno hf
    rcases List.mem_cons.mp (htr ▸ hz) with rfl | hz
    · refine hok hno (call, o) hw.waiting t ht (hback ?_ hf)
      exact hinv.families t (AuthOp.finds?_mem ht)
    · refine h.others z hz hzt t ht hno (hback ?_ hf)
      obtain ⟨row, hr, -, hrf⟩ := hinv.rows z hz t (AuthOp.finds?_mem ht)
      exact hrf ▸ hinv.families row hr
  · exact fun x hx hurl x' hx' hurl' hne cookie hc hc' =>
      (h.alone x hx hurl x' hx' hurl' hne cookie hc hc').imp (spared_step hs) (spared_step hs)

end Honest

/-! ## Every run -/

section Runs

variable {c : Config web} {d : Config (auth T P)} {now : T}

/-- The browser and the API stay honest while no cookie goes with two refreshes. -/
theorem honest (hP : P.ReadsIds) (h : ((online T P).when SingleFlight).Reach (web.init {})
    ((auth T P).init (.empty now)) c d) : Honest c.state d := by
  refine h.follow (I := fun _ => True) (K := (auth T P).Reachable ((auth T P).init (.empty now)))
    (J := fun c d => Honest c.state d) (fun _ => trivial) id ?_ ?_ ?_
  · constructor <;> simp [Machine.init]
  · rintro c c' d e - hd ih ⟨hallowed, hok⟩ hs
    rcases web_step_cases hs with ⟨hne, hcookie, harr, hsent | ⟨ch, url, au, hsends, -, hsent⟩⟩ |
      ⟨n, r, rfl, hn, -, hcookie, hsent, harr⟩
    · exact ih.browser_same hcookie hsent harr
    · exact ih.send hd (webAllowed_sends hallowed hsends) (hok _ hsends) hcookie harr hsent
    · exact ih.arrive hallowed hn hcookie hsent harr
  · rintro c d d' e - hd hd' ih hallowed hs
    rcases Machine.step_cases hs with ⟨i, call, s, rfl, hi, hst, rfl⟩ |
      ⟨i, m, call, o, k, a, w', rfl, hi, hx, rfl⟩ | ⟨i, call, o, k, rfl, hi, rfl⟩ |
      ⟨v, s, rfl, hv, rfl⟩
    · obtain ⟨-, hdrawn, -⟩ := auth_start_tables hst
      refine ih.api_same hs rfl hdrawn fun x hx call' hcall => ?_
      rcases (Machine.started_iff hs).mp hcall with hcall | he
      · exact ih.calls x hx call' hcall
      · obtain ⟨hxi, rfl⟩ := Event.spawn.inj he
        exact hallowed x hx hxi.symm
    · exact ih.run hP hd hs ⟨k, hi⟩ hx hallowed
    · refine ih.api_same hs rfl rfl fun x hx call' hcall => ?_
      rcases (Machine.started_iff hs).mp hcall with hcall | he
      · exact ih.calls x hx call' hcall
      · exact absurd he (by simp)
    · obtain ⟨-, hdrawn, -⟩ := auth_env_tables hv
      refine ih.api_same hs rfl hdrawn fun x hx call' hcall => ?_
      rcases (Machine.started_iff hs).mp hcall with hcall | he
      · exact ih.calls x hx call' hcall
      · exact absurd he (by simp)

/-- **Theft detection never strikes an honest browser** that sends no cookie with two refreshes,
unless the first of them is over and left its token unused. -/
theorem browser_never_revoked (hP : P.ReadsIds)
    (h : ((online T P).when SingleFlight).Reach (web.init {})
      ((auth T P).init (.empty now)) c d) : NeverRevoked c.state d := by
  have hhonest := honest hP h
  have hfound : ∀ z ∈ d.trace, ∀ f, z.op = .familyRevoke f → ∃ y ∈ d.trace, y.tid = z.tid ∧
      y.took = true ∧ ∃ t ∈ y.op.finds? P y.before, t.used = true ∧ t.familyId = f := by
    intro z hz f ho
    obtain ⟨t, ⟨-, y, hy, hyz, hyt, hyf⟩, hu, hf⟩ := revoked_found h.snd hz ho
    exact ⟨y, hy, hyz, hyt, t, hyf, hu, hf⟩
  have hforeign : ∀ z ∈ d.trace, ∀ f, z.op = .familyRevoke f → ∀ x ∈ c.state.sent,
      x.1 ≠ z.tid := by
    intro z hz f ho x hx hxz
    obtain ⟨y, hy, hyz, hyt, t, ht, hu, -⟩ := hfound z hz f ho
    have hunused := (hhonest.finds y hy hyt t ht x hx (hxz.trans hyz.symm)).2
    exact absurd (hunused.symm.trans hu) (by simp)
  refine ⟨hforeign, fun z hz f ho => ?_⟩
  obtain ⟨y, hy, hyz, hyt, t, ht, -, rfl⟩ := hfound z hz f ho
  exact hhonest.others y hy hyt t ht fun x hx => hyz ▸ hforeign z hz _ ho x hx

end Runs

/-! ## Small runs -/

/-- The libraries of `sample`, with ids written in tally marks. -/
def tally : Platform :=
  { sample with
    uuidText := fun id => String.ofList (List.replicate id '0')
    uuidOf := fun text => if text.toList.all (· = '0') then some text.toList.length else none }

theorem tally_readsIds : tally.ReadsIds where
  uuidOf id := by simp [tally]
  colon id := by simp [tally, List.mem_replicate]

/-- Steps of the browser and of the API. -/
abbrev OnlineStep := Event web ⊕ Event (auth ℤ tally)

/-- Thread `i` of the browser runs operations that answer these choices. -/
def browses (i : Nat) (l : List WebChoice) : List OnlineStep :=
  l.map fun ch => .inl (.run i (.ok ch))

/-- Thread `n` of the API runs operations that answer these choices. -/
def serves (n : Nat) (l : List AuthChoice) : List OnlineStep :=
  l.map fun ch => .inr (.run n (.ok ch))

/-- User 7 registers and logs in as request 1: the family 3 gets the token 4. -/
def logsIn : List OnlineStep :=
  .inr (.spawn 0 (.register ⟨"c@d.e", "password34", by decide, by decide⟩)) ::
  serves 0 [{}, {}, { fresh := 7 }] ++
  .inl (.spawn 0 ⟨.login ⟨"c@d.e", "password34"⟩, true⟩) :: browses 0 [{}, { id := 1 }] ++
  .inr (.spawn 1 (.login ⟨"c@d.e", "password34"⟩ {})) ::
  serves 1 [{}, {}, { fresh := 2 }, {}, { secret := "s" }, {}, { fresh := 3 }, {},
    { fresh := 4 }] ++
  [.inl (.env (.arrive 1 {
    status := 200, body := some { accessToken := some "2" }, setCookie := .set "0000:s" }))]

/-- Request `n` of thread `i` is answered with a 401. -/
def refused (i n : Nat) : List OnlineStep :=
  .inl (.spawn i ⟨.other false, false⟩) :: browses i [{}, { id := n }] ++
  [.inr (.spawn n (.route false {})), .inl (.env (.arrive n {
    status := 401, body := some { message := some "No token provided" } }))] ++
  browses i [{}]

/-- Thread `i` sends the refresh `n`, with this cookie. -/
def refreshes (i n : Nat) (cookie : String) : List OnlineStep :=
  browses i [{ id := n }] ++ [.inr (.spawn n (.refresh { refreshToken := some cookie }))]

/-- The refresh `n` is answered with the token `id`. -/
def renewed (n jti id : Nat) (cookie : String) : List OnlineStep :=
  serves n [{}, {}, {}, {}, { fresh := jti }, {}, { secret := "t" }, {}, {}, { fresh := id }] ++
  [.inl (.env (.arrive n {
    status := 200, body := some { accessToken := some (toString jti) },
    setCookie := .set cookie }))]

/-- One refresh after the other. -/
def oneByOne : List OnlineStep :=
  logsIn ++ refused 1 2 ++ refreshes 1 3 "0000:s" ++ renewed 3 5 6 "000000:t" ++
  browses 1 [{}, {}, { id := 4 }] ++
  .inl (.spawn 2 ⟨.refresh, true⟩) :: browses 2 [{}] ++ refreshes 2 5 "000000:t" ++
  renewed 5 8 9 "000000000:t"

/-- Two requests are refused, and both refresh with the cookie of the login. -/
def bothRefresh : List OnlineStep :=
  logsIn ++ refused 1 2 ++ refused 2 3 ++ refreshes 1 4 "0000:s" ++ refreshes 2 5 "0000:s" ++
  serves 4 [{}, {}, {}, {}] ++ serves 5 [{}, {}]

set_option maxRecDepth 2000 in
/-- A request that is refused and sent again, and a second refresh with the new cookie. -/
theorem browser_never_revoked_one_by_one : ∃ c d,
    Link.replay web (auth ℤ tally) (web.init {}) ((auth ℤ tally).init (.empty 0)) oneByOne =
      some (c, d) ∧ c.state.refreshToken = some "000000000:t" ∧ NeverRevoked c.state d := by
  obtain ⟨c, d, hr, hj⟩ : ∃ c d,
      Link.replay web (auth ℤ tally) (web.init {}) ((auth ℤ tally).init (.empty 0)) oneByOne =
        some (c, d) ∧ c.state.refreshToken = some "000000000:t" := ⟨_, _, rfl, rfl⟩
  have hallows : ((online ℤ tally).when SingleFlight).Allows (web.init {})
      ((auth ℤ tally).init (.empty 0)) oneByOne := by decide
  exact ⟨c, d, hr, hj, browser_never_revoked tally_readsIds (.of_replay .init hr hallows)⟩

/-- The second refresh finds the token of the login used, and revokes the family. -/
theorem browser_family_revoked : ∃ c d, (online ℤ tally).Reach (web.init {})
      ((auth ℤ tally).init (.empty 0)) c d ∧
    (∀ t ∈ d.state.refreshTokens, t.revoked = true) ∧ ¬ NeverRevoked c.state d := by
  obtain ⟨c, d, hr, hrev, z, hz, hop, x, hx, hxz⟩ : ∃ c d,
      Link.replay web (auth ℤ tally) (web.init {}) ((auth ℤ tally).init (.empty 0)) bothRefresh =
        some (c, d) ∧ (∀ t ∈ d.state.refreshTokens, t.revoked = true) ∧
      ∃ z, d.trace.head? = some z ∧ z.op = .familyRevoke 3 ∧ ∃ x, c.state.sent.head? = some x ∧
        x.1 = z.tid := ⟨_, _, rfl, by decide, _, rfl, rfl, _, rfl, rfl⟩
  have hallows : (online ℤ tally).Allows (web.init {}) ((auth ℤ tally).init (.empty 0))
      bothRefresh := by decide
  refine ⟨c, d, .of_replay .init hr hallows, hrev, fun h => ?_⟩
  exact h.branch z (List.mem_of_head? hz) 3 hop x (List.mem_of_head? hx) hxz

end BoltBet
