import BoltBet.Async.Link
import BoltBet.Identity.Custody
import BoltBet.Web.Client

/-!
# A browser and the API

`online` links the browser with `auth`. The API serves what the browser sent (`WebRequest.call`),
and a response arrives after its call ended (`Answers`), both with any delay. Others use the API
too, but nobody else presents a token of a family that the browser started (`Ours`).

`web_step_cases` says what a step of the browser can do, and `answers_step` that an ended call
stays ended.
-/

namespace BoltBet

open Async

/-- The status of a thrown error. -/
def AuthErr.status : AuthErr → Nat
  | .UnauthorizedException _ => 401
  | .ConflictException _ => 409
  | _ => 500

/-- The message of a thrown error. -/
def AuthErr.text : AuthErr → String
  | .UnauthorizedException message => message
  | .ConflictException message => message
  | _ => "Internal server error"

/-- The responses to a call that threw. -/
def AuthErr.Gives (e : AuthErr) (r : Response) : Prop :=
  r.status = e.status ∧ r.body = some { message := some e.text } ∧ r.setCookie = .keep

/-- The responses to a call that returned. What a route does behind the guard is left open. -/
def AuthReply.Gives : AuthReply → Response → Prop
  | .registered, r => r.status = 201 ∧ r.setCookie = .keep
  | .tokens dto cookie, r => r.status = 200 ∧
      r.body = some { accessToken := some dto.accessToken } ∧ r.setCookie = .set cookie
  | .loggedOut _, r => r.status = 204 ∧ r.setCookie = .clear
  | .allowed _, r => r.setCookie = .keep
  | .handled, _ => False

instance (e : AuthErr) (r : Response) : Decidable (e.Gives r) :=
  inferInstanceAs (Decidable (_ ∧ _))

instance : ∀ (a : AuthReply) (r : Response), Decidable (a.Gives r)
  | .registered, r => inferInstanceAs (Decidable (r.status = 201 ∧ r.setCookie = .keep))
  | .tokens dto cookie, r => inferInstanceAs (Decidable (r.status = 200 ∧
      r.body = some { accessToken := some dto.accessToken } ∧ r.setCookie = .set cookie))
  | .loggedOut _, r => inferInstanceAs (Decidable (r.status = 204 ∧ r.setCookie = .clear))
  | .allowed _, r => inferInstanceAs (Decidable (r.setCookie = .keep))
  | .handled, _ => inferInstanceAs (Decidable False)

/-- The request that a step of the browser sends: its number and endpoint. -/
def sends? (c : Config web) : Event web → Option (Nat × Endpoint)
  | .run i m =>
    match c.waiting i, m.choice? with
    | some (_, .send url _), some ch => some (ch.id, url)
    | _, _ => none
  | _ => none

/-- The id of the token in a cookie. -/
def cookieToken (P : Platform) (cookie : String) : Option Uuid :=
  (cookieParts cookie).bind fun parts => P.uuidOf parts.1

variable {T : Type} [Ring T] [LinearOrder T] [FloorRing T] {P : Platform}

/-- The call of thread `n` ended, and this is the response. -/
def Answers (d : Config (auth T P)) (n : Nat) (r : Response) : Prop :=
  match d.threads n with
  | some ⟨_, .ret a, false⟩ => a.Gives r
  | some ⟨_, .throw e, false⟩ => e.Gives r
  | _ => False

instance (d : Config (auth T P)) (n : Nat) (r : Response) : Decidable (Answers d n r) := by
  unfold Answers
  split <;> infer_instance

/-- The browser started this family. -/
def Ours (s : Browser) (d : Config (auth T P)) (f : Uuid) : Prop :=
  ∃ x ∈ s.sent, (x.1, f) ∈ d.state.drawn

instance (s : Browser) (d : Config (auth T P)) (f : Uuid) : Decidable (Ours s d f) :=
  inferInstanceAs (Decidable (∃ x ∈ s.sent, (x.1, f) ∈ d.state.drawn))

/-- A step of the browser: requests get numbers of their own, and a response arrives when its call
has ended. -/
def webAllowed (c : Config web) (d : Config (auth T P)) : Event web → Prop
  | .env (.arrive n r) => Answers d n r
  | e => ∀ x ∈ sends? c e, (d.threads x.1).isNone = true

/-- A step of the API: it serves what was sent, and no other request presents a token of a family
of the browser. -/
def apiAllowed (c : Config web) (d : Config (auth T P)) : Event (auth T P) → Prop
  | .spawn n call => ∀ x ∈ c.state.sent, x.1 = n → call = x.2.call
  | .run n _ => (∀ x ∈ c.state.sent, x.1 ≠ n) → ∀ y ∈ d.waiting n,
      ∀ t ∈ y.2.finds? P d.state, ¬ Ours c.state d t.familyId
  | _ => True

instance : ∀ (c : Config web) (d : Config (auth T P)) e, Decidable (webAllowed c d e)
  | _, d, .env (.arrive n r) => inferInstanceAs (Decidable (Answers d n r))
  | c, d, .spawn i call =>
    inferInstanceAs (Decidable (∀ x ∈ sends? c (.spawn i call), (d.threads x.1).isNone = true))
  | c, d, .run i m =>
    inferInstanceAs (Decidable (∀ x ∈ sends? c (.run i m), (d.threads x.1).isNone = true))
  | c, d, .crash i =>
    inferInstanceAs (Decidable (∀ x ∈ sends? c (.crash i), (d.threads x.1).isNone = true))

instance : ∀ (c : Config web) (d : Config (auth T P)) e, Decidable (apiAllowed c d e)
  | c, _, .spawn n call =>
    inferInstanceAs (Decidable (∀ x ∈ c.state.sent, x.1 = n → call = x.2.call))
  | c, d, .run n _ => inferInstanceAs (Decidable ((∀ x ∈ c.state.sent, x.1 ≠ n) →
      ∀ y ∈ d.waiting n, ∀ t ∈ y.2.finds? P d.state, ¬ Ours c.state d t.familyId))
  | _, _, .crash _ => inferInstanceAs (Decidable True)
  | _, _, .env _ => inferInstanceAs (Decidable True)

/-- **The browser and the API.** -/
abbrev online (T : Type) [Ring T] [LinearOrder T] [FloorRing T] (P : Platform) :
    Link web (auth T P) where
  left := webAllowed
  right := apiAllowed

theorem WebRequest.call_eq_refresh {q : WebRequest} {req : Request} (h : q.call = .refresh req) :
    q.url = .refresh ∧ q.req = req := by
  unfold WebRequest.call at h
  split at h
  · exact absurd h (by simp)
  · exact absurd h (by simp)
  · rename_i hurl
    exact ⟨hurl, AuthCall.refresh.inj h⟩
  · exact absurd h (by simp)
  · exact absurd h (by simp)

/-! ## Steps -/

section Steps

variable {c c' : Config web} {d d' : Config (auth T P)} {n : Nat} {r : Response}

/-- A number that is sent is new to the API. -/
theorem webAllowed_sends {e : Event web} (h : webAllowed c d e) {x : Nat × Endpoint}
    (hx : sends? c e = some x) : d.threads x.1 = none := by
  cases e with
  | env v => exact absurd hx (by simp [sends?])
  | run i m => exact Option.isNone_iff_eq_none.mp (h x hx)
  | spawn i call => exact absurd hx (by simp [sends?])
  | crash i => exact absurd hx (by simp [sends?])

/-- What an operation of the browser does: it sends a request, or touches neither the cookie nor
what was sent and arrived. -/
theorem exec_browser {ch : WebChoice} {o : WebOp} {s s' : Browser} {a : Except WebErr o.Res}
    (h : s.exec ch o = some (a, s')) :
    s'.refreshToken = s.refreshToken ∧ s'.arrived = s.arrived ∧
      (s'.sent = s.sent ∨ ∃ url authorization, o = .send url authorization ∧
        ch.id ∉ s.sent.map Prod.fst ∧
        s'.sent = (ch.id, s.outgoing ch url authorization) :: s.sent) := by
  cases o with
  | send url authorization =>
    simp only [Browser.exec] at h
    split at h
    · exact absurd h (by simp)
    · rename_i hnew
      obtain ⟨-, rfl⟩ := Prod.mk.inj (Option.some.inj h)
      exact ⟨rfl, rfl, .inr ⟨url, authorization, rfl, hnew, rfl⟩⟩
  | receive n =>
    obtain ⟨x, -, hx⟩ := Option.map_eq_some_iff.mp h
    obtain ⟨-, rfl⟩ := Prod.mk.inj hx
    exact ⟨rfl, rfl, .inl rfl⟩
  | getAccessToken | setCredentials | clearCredentials =>
    obtain ⟨-, rfl⟩ := Prod.mk.inj (Option.some.inj h)
    exact ⟨rfl, rfl, .inl rfl⟩

/-- What running an operation does. -/
theorem web_run_cases {i : Nat} {m : Mode WebChoice WebErr}
    (hs : web.step c (.run i m) = some c') :
    c'.state.refreshToken = c.state.refreshToken ∧ c'.state.arrived = c.state.arrived ∧
      (c'.state.sent = c.state.sent ∨ ∃ ch url authorization,
        sends? c (.run i m) = some (ch.id, url) ∧ ch.id ∉ c.state.sent.map Prod.fst ∧
        c'.state.sent = (ch.id, c.state.outgoing ch url authorization) :: c.state.sent) := by
  obtain ⟨call, o, k, hi⟩ : ∃ call o k, c.threads i = some ⟨call, .await o k, false⟩ := by
    rcases Machine.step_cases hs with ⟨_, _, _, he, -⟩ | ⟨j, m', call, o, k, r, w', he, hi, -⟩ |
      ⟨_, _, _, _, he, -⟩ | ⟨_, _, he, -⟩
    · exact absurd he (by simp)
    · obtain ⟨rfl, rfl⟩ := Event.run.inj he
      exact ⟨call, o, k, hi⟩
    · exact absurd he (by simp)
    · exact absurd he (by simp)
  have hwait : c.waiting i = some (call, o) := Config.Waits.waiting ⟨k, hi⟩
  obtain ⟨r, w', ⟨m', s, b, rfl, hx, rfl⟩, rfl⟩ := Machine.step_run hs hi
  have hran : ∀ ch (a : Except WebErr o.Res), m'.choice? = some ch →
      c.state.exec ch o = some (a, s) → s.refreshToken = c.state.refreshToken ∧
      s.arrived = c.state.arrived ∧ (s.sent = c.state.sent ∨ ∃ ch url authorization,
        sends? c (.run i m') = some (ch.id, url) ∧ ch.id ∉ c.state.sent.map Prod.fst ∧
        s.sent = (ch.id, c.state.outgoing ch url authorization) :: c.state.sent) := by
    intro ch a hm ha
    obtain ⟨hcookie, harr, hsent | ⟨url, authorization, rfl, hnew, hsent⟩⟩ := exec_browser ha
    · exact ⟨hcookie, harr, .inl hsent⟩
    · refine ⟨hcookie, harr, .inr ⟨ch, url, authorization, ?_, hnew, hsent⟩⟩
      simp [sends?, hwait, hm]
  cases m' with
  | ok ch =>
    obtain ⟨⟨a, s₁⟩, ha, hx⟩ := Option.map_eq_some_iff.mp hx
    obtain ⟨-, hx⟩ := Prod.mk.inj hx
    obtain ⟨rfl, -⟩ := Prod.mk.inj hx
    exact hran ch a rfl ha
  | fail e =>
    obtain ⟨-, hx⟩ := Prod.mk.inj (Option.some.inj hx)
    obtain ⟨rfl, -⟩ := Prod.mk.inj hx
    exact ⟨rfl, rfl, .inl rfl⟩
  | lost ch e =>
    obtain ⟨⟨a, s₁⟩, ha, hx⟩ := Option.map_eq_some_iff.mp hx
    obtain ⟨-, hx⟩ := Prod.mk.inj hx
    obtain ⟨rfl, -⟩ := Prod.mk.inj hx
    exact hran ch a rfl ha

/-- **What a step of the browser can do**: nothing that matters, send a request, or store a
response. -/
theorem web_step_cases {e : Event web} (hs : web.step c e = some c') :
    ((∀ n r, e ≠ .env (.arrive n r)) ∧ c'.state.refreshToken = c.state.refreshToken ∧
      c'.state.arrived = c.state.arrived ∧
      (c'.state.sent = c.state.sent ∨ ∃ ch url authorization, sends? c e = some (ch.id, url) ∧
        ch.id ∉ c.state.sent.map Prod.fst ∧
        c'.state.sent = (ch.id, c.state.outgoing ch url authorization) :: c.state.sent)) ∨
    ∃ n r, e = .env (.arrive n r) ∧ n ∈ c.state.sent.map Prod.fst ∧
      n ∉ c.state.arrived.map Prod.fst ∧
      c'.state.refreshToken = Browser.store c.state.refreshToken r.setCookie ∧
      c'.state.sent = c.state.sent ∧ c'.state.arrived = (n, r) :: c.state.arrived := by
  rcases Machine.step_cases hs with ⟨i, call, s, rfl, -, hst, rfl⟩ | ⟨i, m, -, -, -, -, -, rfl, -⟩ |
    ⟨i, call, o, k, rfl, -, rfl⟩ | ⟨v, s, rfl, hv, rfl⟩
  · obtain rfl := Option.some.inj hst
    exact .inl ⟨by simp, rfl, rfl, .inl rfl⟩
  · exact .inl ⟨by simp, web_run_cases hs⟩
  · exact .inl ⟨by simp, rfl, rfl, .inl rfl⟩
  · cases v with
    | arrive n r =>
      simp only [Browser.arrive] at hv
      split at hv
      · rename_i hn
        obtain rfl := Option.some.inj hv
        exact .inr ⟨n, r, rfl, hn.1, hn.2, rfl, rfl, rfl⟩
      · exact absurd hv (by simp)

/-- A call that was answered has ended. -/
theorem Answers.ended (h : Answers d n r) :
    ∃ t, d.threads n = some t ∧ t.crashed = false ∧ ∀ o k, t.prog ≠ .await o k := by
  unfold Answers at h
  split at h
  · rename_i call a ht
    exact ⟨_, ht, rfl, by simp⟩
  · rename_i call e ht
    exact ⟨_, ht, rfl, by simp⟩
  · exact h.elim

theorem Answers.not_waits (h : Answers d n r) {call : AuthCall} {o : AuthOp T} :
    ¬ d.Waits n call o := by
  rintro ⟨k, hk⟩
  obtain ⟨t, ht, -, hne⟩ := h.ended
  obtain rfl := Option.some.inj (hk.symm.trans ht)
  exact hne o k rfl

/-- An ended call stays ended. -/
theorem answers_step {e : Event (auth T P)} (hs : (auth T P).step d e = some d')
    (h : Answers d n r) : Answers d' n r := by
  obtain ⟨t, ht, -⟩ := h.ended
  have ht' := Machine.thread_step hs ht fun _ _ => h.not_waits
  unfold Answers at h ⊢
  rw [ht', ← ht]
  exact h

/-- A cookie is the answer of a call that issued tokens. -/
theorem Answers.cookie (h : Answers d n r) {cookie : String} (hr : r.setCookie = .set cookie) :
    ∃ call dto, d.Returned n call (.tokens dto cookie) := by
  unfold Answers at h
  split at h
  · rename_i call a ht
    cases a with
    | tokens dto cookie' =>
      obtain ⟨-, -, hset⟩ := h
      obtain rfl := SetCookie.set.inj (hset.symm.trans hr)
      exact ⟨call, dto, ht⟩
    | registered => exact absurd (h.2.symm.trans hr) (by simp)
    | loggedOut p => exact absurd (h.2.symm.trans hr) (by simp)
    | allowed p =>
      have hkeep : r.setCookie = .keep := h
      exact absurd (hkeep.symm.trans hr) (by simp)
    | handled => exact h.elim
  · obtain ⟨-, -, hkeep⟩ := h
    exact absurd (hkeep.symm.trans hr) (by simp)
  · exact h.elim

end Steps

end BoltBet
