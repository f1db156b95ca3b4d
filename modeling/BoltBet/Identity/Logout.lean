import BoltBet.Async.Alone
import BoltBet.Identity.Custody
import Mathlib.Data.Rat.Floor

/-!
# Logout leaves no gap

Three clocks meet. `logout` subtracts the floor of the time it read from `exp`; Redis keeps the key
for that many seconds from the moment the `SET` takes effect; `verifyAsync` compares `exp` with the
floor of the time it runs at. The key goes no earlier than the token expires.

* `Access`: no two signed tokens share a `jti`, and a blacklisted one is blacklisted until it
  expires.
* `Shut s jti`: at this moment a token with this `jti` has expired or is blacklisted.
* **`logout_leaves_no_gap`**: once `logout` has returned, the guard and the gateway reject the
  token at every moment.
-/

namespace BoltBet

open Async Auth

variable {T : Type} [Ring T] [LinearOrder T] [FloorRing T] {P : Platform}

/-! ## Specification -/

/-- A token with this `jti` in its payload. -/
def AuthStore.Carries (s : AuthStore T) (token : String) (jti : Uuid) : Prop :=
  ∃ p, s.payloadOf token = some p ∧ p.jti = jti

/-- At this moment both checks reject every token with this `jti`. -/
structure Rejects (P : Platform) (s : AuthStore T) (jti : Uuid) : Prop where
  /-- The guard of a route that is not public throws. -/
  guard : ∀ i req token, JwtAuthGuard.extractToken req.authorization = some token →
    s.Carries token jti → (auth T P).Always i (fun _ => True)
      (fun x _ => ∀ user, x ≠ some (.ok user)) (JwtAuthGuard.canActivate false req) s
  /-- A socket joins no room, and is closed. -/
  gateway : ∀ i socket token, s.Carries token jti → (auth T P).Always i (fun _ => True)
    (fun x s' => s'.rooms ⊆ s.rooms ∧ (x = some (.ok ()) → socket ∉ s'.connected))
    (RealtimeGateway.handleConnection socket (some token)) s

/-- After a logout that returned, both checks reject its token. -/
def LogoutHolds (c : Config (auth T P)) : Prop :=
  ∀ i req p, c.Returned i (.logout req) (.loggedOut p) → Rejects P c.state p.jti

/-! ## One moment -/

/-- The signed tokens with this `jti` have expired, or are blacklisted. -/
def Shut (s : AuthStore T) (jti : Uuid) : Prop :=
  ∀ e ∈ s.signed, e.2.jti = jti → e.2.exp ≤ ⌊s.now⌋ ∨ s.blacklisted jti = true

section Moment

variable {s s' : AuthStore T} {i : Nat} {m : Mode AuthChoice AuthErr} {took : Bool}
  {token : String} {jti : Uuid} {p : JwtPayload}

omit [Ring T] [LinearOrder T] [FloorRing T] in
theorem AuthStore.mem_signed (h : s.payloadOf token = some p) : (token, p) ∈ s.signed := by
  obtain ⟨e, he, rfl⟩ := Option.map_eq_some_iff.mp h
  have htoken : e.1 = token := by simpa using List.find?_some he
  rw [← htoken]
  exact List.mem_of_find?_eq_some he

/-- What `verifyAsync` accepts was signed and has not expired. -/
theorem AuthStore.verify_ok (h : s.verify token = .ok p) :
    s.payloadOf token = some p ∧ ⌊s.now⌋ < p.exp := by
  unfold verify at h
  split at h
  · exact absurd h (by simp)
  · rename_i p' hp
    split at h
    · exact absurd h (by simp)
    · rename_i hexp
      obtain rfl := Except.ok.inj h
      exact ⟨hp, not_le.mp hexp⟩

/-- One operation, run alone. -/
theorem always_auth_op {o : AuthOp T} {Q : Option (Except AuthErr o.Res) → AuthStore T → Prop}
    (hstop : Q none s)
    (h : ∀ m r s₁ took, (auth T P).answer i m o s = some (r, s₁, took) → Q (some r) s₁) :
    (auth T P).Always i (fun _ => True) Q (op o) s :=
  Machine.always_perform hstop fun m r s₁ took _ ha => h m r s₁ took ha

theorem answer_verifyAsync {r : Except AuthErr JwtPayload}
    (h : (auth T P).answer i m (.verifyAsync token) s = some (r, s', took)) :
    s' = s ∧ ∀ p, r = .ok p → s.verify token = .ok p := by
  rcases Machine.answer_cases h with ⟨ch, r₀, hx, hr, -⟩ | ⟨e, rfl, rfl, -⟩
  · obtain ⟨rfl, rfl⟩ := Prod.mk.inj (Option.some.inj hx)
    rcases hr with rfl | ⟨e, rfl⟩
    · exact ⟨rfl, fun p hp => hp⟩
    · exact ⟨rfl, fun p hp => absurd hp (by simp)⟩
  · exact ⟨rfl, fun p hp => absurd hp (by simp)⟩

theorem answer_blacklistGet {r : Except AuthErr (Option String)}
    (h : (auth T P).answer i m (.blacklistGet jti) s = some (r, s', took)) :
    s' = s ∧ (r = .ok none → s.blacklisted jti = false) := by
  rcases Machine.answer_cases h with ⟨ch, r₀, hx, hr, -⟩ | ⟨e, rfl, rfl, -⟩
  · obtain ⟨rfl, rfl⟩ := Prod.mk.inj (Option.some.inj hx)
    refine ⟨rfl, fun hnone => ?_⟩
    rcases hr with rfl | ⟨e, rfl⟩
    · by_cases hb : s.blacklisted jti = true
      · simp [hb] at hnone
      · exact Bool.not_eq_true _ ▸ hb
    · exact absurd hnone (by simp)
  · exact ⟨rfl, fun hnone => absurd hnone (by simp)⟩

theorem answer_disconnect {socket : Nat} {r : Except AuthErr Unit}
    (h : (auth T P).answer i m (.disconnect socket) s = some (r, s', took)) :
    s'.rooms ⊆ s.rooms ∧ (r = .ok () → socket ∉ s'.connected) := by
  rcases Machine.answer_cases h with ⟨ch, r₀, hx, -⟩ | ⟨e, rfl, rfl, -⟩
  · obtain ⟨rfl, rfl⟩ := Prod.mk.inj (Option.some.inj hx)
    exact ⟨List.filter_subset_self _, fun _ => by simp [AuthStore.close]⟩
  · exact ⟨List.Subset.refl _, fun hr => absurd hr (by simp)⟩

/-- A token that verifies while its `jti` is shut is blacklisted. -/
theorem Shut.blacklisted (h : Shut s jti) (hc : s.Carries token jti)
    (hv : s.verify token = .ok p) : s.blacklisted p.jti = true := by
  obtain ⟨hp, hexp⟩ := AuthStore.verify_ok hv
  obtain ⟨p', hp', rfl⟩ := hc
  obtain rfl := Option.some.inj (hp.symm.trans hp')
  rcases h _ (AuthStore.mem_signed hp) rfl with hle | hb
  · exact absurd hle (not_le.mpr hexp)
  · exact hb

variable (hshut : Shut s jti) (hcarries : s.Carries token jti)
include hshut hcarries

theorem Shut.verified : (auth T P).Always i (fun _ => True)
    (fun x s' => s' = s ∧ ∀ p, x = some (.ok p) → s.blacklisted p.jti = true)
    (op (.verifyAsync token)) s := by
  refine always_auth_op ⟨rfl, by simp⟩ fun m r s₁ took ha => ?_
  obtain ⟨rfl, hr⟩ := answer_verifyAsync ha
  refine ⟨rfl, fun p hp => hshut.blacklisted hcarries (hr p ?_)⟩
  exact Option.some.inj hp

theorem Shut.guard (req : Request)
    (htoken : JwtAuthGuard.extractToken req.authorization = some token) :
    (auth T P).Always i (fun _ => True) (fun x _ => ∀ user, x ≠ some (.ok user))
      (JwtAuthGuard.canActivate false req) s := by
  unfold JwtAuthGuard.canActivate
  simp only [htoken, Bool.false_eq_true, if_false]
  split
  · rename_i h
    exact absurd h (by simp)
  · exact Machine.always_throw (by simp)
  · rename_i h
    obtain rfl := Option.some.inj h
    refine Machine.always_seq (Q := fun x s' => s' = s ∧
        ∀ p, x = some (.ok p) → s.blacklisted p.jti = true)
      (Machine.always_try (hshut.verified hcarries) (fun p s' h => h)
        (fun e s' h => Machine.always_throw ⟨h.1, by simp⟩) fun s' h => h)
      (fun payload s' h => ?_) (by simp) (by simp)
    obtain ⟨rfl, hb⟩ := h
    have hblacklisted := hb payload rfl
    refine Machine.always_map (Machine.always_seq (Q := fun x s' => x = some (.ok none) → False)
      (always_auth_op (o := .blacklistGet payload.jti) (by simp) fun m r s₁ took ha hr => ?_)
      (fun found s' h => ?_) (by simp [Except.map]) (by simp))
    · have hnot := (answer_blacklistGet ha).2 (Option.some.inj hr)
      exact absurd (hblacklisted.symm.trans hnot) (by simp)
    · cases found with
      | none => exact (h rfl).elim
      | some _ => exact Machine.always_throw (by simp [Except.map])

theorem Shut.gateway (socket : Nat) : (auth T P).Always i (fun _ => True)
    (fun x s' => s'.rooms ⊆ s.rooms ∧ (x = some (.ok ()) → socket ∉ s'.connected))
    (RealtimeGateway.handleConnection socket (some token)) s := by
  have hclose : (auth T P).Always i (fun _ => True)
      (fun x s' => s'.rooms ⊆ s.rooms ∧ (x = some (.ok ()) → socket ∉ s'.connected))
      (op (.disconnect socket)) s := by
    refine always_auth_op (o := .disconnect socket) ⟨List.Subset.refl _, by simp⟩
      fun m r s₁ took ha => ?_
    obtain ⟨hrooms, hgone⟩ := answer_disconnect ha
    exact ⟨hrooms, fun hr => hgone (Option.some.inj hr)⟩
  unfold RealtimeGateway.handleConnection
  split
  · exact hclose
  · exact hclose
  · rename_i h
    obtain rfl := Option.some.inj h
    refine Machine.always_seq (Q := fun x s' => s' = s ∧
        ∀ p, x = some (.ok (some p)) → s.blacklisted p.jti = true)
      (Machine.always_try (Q := fun x s' => s' = s ∧
        ∀ p, x = some (.ok (some p)) → s.blacklisted p.jti = true) ?_ (fun p s' h => h)
        (fun e s' h => Machine.always_ret ⟨h.1, by simp⟩) fun s' h => h)
      (fun verified s' h => ?_) (fun e s' h => ⟨h.1 ▸ List.Subset.refl _, by simp⟩)
      (fun s' h => ⟨h.1 ▸ List.Subset.refl _, by simp⟩)
    · refine Machine.always_map ((hshut.verified hcarries).mono fun x s' h => ⟨h.1, fun p hp => ?_⟩)
      obtain ⟨r, rfl, hr⟩ := Option.map_eq_some_iff.mp hp
      cases r with
      | error e => exact absurd hr (by simp [Except.map])
      | ok p' =>
        obtain rfl := Option.some.inj (Except.ok.inj hr)
        exact h.2 p' rfl
    · obtain ⟨rfl, hb⟩ := h
      cases verified with
      | none => exact hclose
      | some payload =>
        have hblacklisted := hb payload rfl
        refine Machine.always_seq (Q := fun x s₁ => s₁ = s' ∧ x ≠ some (.ok none))
          (always_auth_op (o := .blacklistGet payload.jti) ⟨rfl, by simp⟩
            fun m r s₁ took ha => ?_) (fun found s₁ h => ?_)
          (fun e s₁ h => ⟨h.1 ▸ List.Subset.refl _, by simp⟩)
          (fun s₁ h => ⟨h.1 ▸ List.Subset.refl _, by simp⟩)
        · obtain ⟨rfl, hnot⟩ := answer_blacklistGet ha
          refine ⟨rfl, fun hr => ?_⟩
          exact absurd (hblacklisted.symm.trans (hnot (Option.some.inj hr))) (by simp)
        · obtain ⟨rfl, hsome⟩ := h
          cases found with
          | none => exact (hsome rfl).elim
          | some _ => exact hclose

omit hcarries in
theorem Shut.rejects : Rejects P s jti where
  guard _ req _ htoken hcarries := hshut.guard hcarries req htoken
  gateway _ socket _ hcarries := hshut.gateway hcarries socket

end Moment

/-! ## Every run -/

/-- What holds of the access tokens in every world. -/
structure Access (w : World (auth T P)) : Prop where
  clock : ∀ x ∈ w.trace, x.before.now ≤ w.state.now
  signed : ∀ x ∈ w.trace, x.before.signed ⊆ w.state.signed
  signer : ∀ e ∈ w.state.signed, ∃ x ∈ w.trace, ∃ claims, x.op = .signAsync claims ∧
    claims.jti = e.2.jti
  unique : ∀ e ∈ w.state.signed, ∀ e' ∈ w.state.signed, e.2.jti = e'.2.jti → e = e'
  blacklist : ∀ x ∈ w.trace, x.took = true → ∀ jti ttl, x.op = .blacklistSet jti ttl →
    ∃ e ∈ w.state.signed, e.2.jti = jti ∧ ∃ gone, w.state.blacklist jti = some gone ∧
      (e.2.exp : T) ≤ gone

/-- The tables of a state that did not change them. -/
theorem Access.same {s s' : AuthStore T} {l : List (Entry (auth T P))}
    (hsigned : s'.signed = s.signed) (hblacklist : s'.blacklist = s.blacklist)
    (hnow : s.now ≤ s'.now) (h : Access ⟨s, l⟩) : Access ⟨s', l⟩ where
  clock x hx := (h.clock x hx).trans hnow
  signed x hx := hsigned ▸ h.signed x hx
  signer := hsigned ▸ h.signer
  unique := hsigned ▸ h.unique
  blacklist x hx ht jti ttl ho := by
    obtain ⟨e, he, hj, gone, hg, hle⟩ := h.blacklist x hx ht jti ttl ho
    exact ⟨e, hsigned ▸ he, hj, gone, hblacklist ▸ hg, hle⟩

section Runs

variable {now : T} {i : Nat} {call : AuthCall} {o : AuthOp T} {r : Except AuthErr o.Res}
  {c c' : Config (auth T P)} {l : List (Seen (AuthSig T))} {p : JwtPayload}

/-- A time that was read has come. -/
theorem Access.now_of_saw (h : Access c.toWorld)
    (hl : (auth T P).Recalls ((auth T P).init (.empty now)) i call l c) {n : T}
    (hsaw : Saw l .clock n) : n ≤ c.state.now := by
  obtain ⟨x, hx, -, -, -, -, ch, s, hexec⟩ := (hl.ran _ hsaw).entry
  obtain rfl : x.before.now = n := Except.ok.inj (Prod.mk.inj (Option.some.inj hexec)).1
  exact h.clock x hx

/-- A payload that was verified was signed. -/
theorem Access.signed_of_saw (h : Access c.toWorld)
    (hl : (auth T P).Recalls ((auth T P).init (.empty now)) i call l c) {token : String}
    (hsaw : Verified l token p) : (token, p) ∈ c.state.signed := by
  obtain ⟨x, hx, -, -, -, -, ch, s, hexec⟩ := (hl.ran _ hsaw).entry
  have hverify : x.before.verify token = .ok p := (Prod.mk.inj (Option.some.inj hexec)).1
  exact h.signed x hx (AuthStore.mem_signed (AuthStore.verify_ok hverify).1)

section Step

variable (hc : (auth T P).Reachable ((auth T P).init (.empty now)) c)
include hc

/-- The `jti` of a token to sign is on no signed token: its thread drew it, and signs once. -/
theorem Access.sign_fresh (h : Access c.toWorld) {claims : JwtClaims}
    (hw : c.Waits i call (.signAsync claims)) : ∀ e ∈ c.state.signed, e.2.jti ≠ claims.jti := by
  intro e he hjti
  obtain ⟨l, hl, hsaw, hfirst⟩ := Machine.along_waits auth_along hc hw
  obtain ⟨x, hx, claims', ho, hx'⟩ := h.signer e he
  obtain ⟨c₁, h₁, hw₁, -, hr⟩ := Machine.waited_of_trace hc hx
  obtain ⟨l₁, hl₁, hsaw₁, -⟩ := Machine.along_waits auth_along h₁ (ho ▸ hw₁)
  have hmine : (i, claims.jti) ∈ c.state.drawn := Custody.drawn_of_saw hl hsaw
  have htheirs : (x.tid, claims'.jti) ∈ c.state.drawn :=
    Custody.drawn_of_ran ((hl₁.ran _ hsaw₁).later hr)
  have hsame : (x.tid, claims'.jti) = (i, claims.jti) :=
    List.inj_on_of_nodup_map (Custody.reach hc).drawn htheirs hmine (hx'.trans hjti)
  obtain ⟨y, hy, hyo⟩ := hl.own x hx (Prod.mk.inj hsame).1
  exact hfirst y hy claims' (hyo.trans ho)

variable [IsStrictOrderedRing T]

/-- A key set while the token is signed stays until it expires. -/
theorem Access.blacklist_lasts (h : Access c.toWorld) {jti : Uuid} {ttl : Int}
    (hw : c.Waits i call (.blacklistSet jti ttl)) :
    ∃ e ∈ c.state.signed, e.2.jti = jti ∧ (e.2.exp : T) ≤ c.state.now + ttl := by
  obtain ⟨l, hl, token, p, n, hverified, hclock, rfl, rfl, -⟩ :=
    Machine.along_waits auth_along hc hw
  refine ⟨(token, p), h.signed_of_saw hl hverified, rfl, ?_⟩
  have hn : (⌊n⌋ : T) ≤ c.state.now := (Int.floor_le n).trans (h.now_of_saw hl hclock)
  calc (p.exp : T) = ⌊n⌋ + ((p.exp - ⌊n⌋ : Int) : T) := by push_cast; abel
    _ ≤ c.state.now + ((p.exp - ⌊n⌋ : Int) : T) := by gcongr

theorem Access.blacklist_exec (h : Access c.toWorld) (hw : c.Waits i call o)
    (hx : (auth T P).Exec i call o c.toWorld r c'.toWorld) :
    ∀ x ∈ c'.trace, x.took = true → ∀ jti ttl, x.op = .blacklistSet jti ttl →
      ∃ e ∈ c'.state.signed, e.2.jti = jti ∧ ∃ gone, c'.state.blacklist jti = some gone ∧
        (e.2.exp : T) ≤ gone := by
  intro x hx' ht jti ttl ho
  obtain ⟨took, htr, ⟨rfl, ch, a, he⟩ | ⟨rfl, hs⟩⟩ := auth_exec_cases hx
  · have heff := AuthStore.exec_effect he
    have hsub := heff.signed_subset
    rcases heff.blacklist_cases with ⟨hb, hne⟩ | ⟨jti₁, ttl₁, rfl, hb⟩
    · rcases List.mem_cons.mp (htr ▸ hx') with rfl | hx'
      · exact absurd ho (hne jti ttl)
      · obtain ⟨e, he, hj, gone, hg, hle⟩ := h.blacklist x hx' ht jti ttl ho
        exact ⟨e, hsub he, hj, gone, hb ▸ hg, hle⟩
    · by_cases hj : jti = jti₁
      · obtain ⟨e, he, hej, hle⟩ := h.blacklist_lasts hc hw
        refine ⟨e, hsub he, hej.trans hj.symm, _, ?_, hle⟩
        rw [hb, hj, Function.update_self]
      · rcases List.mem_cons.mp (htr ▸ hx') with rfl | hx'
        · exact absurd (AuthOp.blacklistSet.inj ho).1.symm hj
        · obtain ⟨e, he, hej, gone, hg, hle⟩ := h.blacklist x hx' ht jti ttl ho
          refine ⟨e, hsub he, hej, gone, ?_, hle⟩
          rw [hb, Function.update_of_ne hj, hg]
  · rcases List.mem_cons.mp (htr ▸ hx') with rfl | hx'
    · exact absurd ht (by simp)
    · exact hs ▸ h.blacklist x hx' ht jti ttl ho

theorem Access.exec (h : Access c.toWorld) (hw : c.Waits i call o)
    (hx : (auth T P).Exec i call o c.toWorld r c'.toWorld) : Access c'.toWorld := by
  obtain ⟨took, htr, -⟩ := auth_exec_cases hx
  obtain ⟨hnow, hsigned⟩ : c'.state.now = c.state.now ∧ (c'.state.signed = c.state.signed ∨
      ∃ claims, o = .signAsync claims ∧ ∃ e : String × JwtPayload, e.2.jti = claims.jti ∧
        c'.state.signed = e :: c.state.signed) := by
    rcases auth_exec_effect hx with hs | ⟨ch, he⟩
    · exact ⟨congrArg AuthStore.now hs, .inl (congrArg AuthStore.signed hs)⟩
    · rcases he.signed_cases with hs | ⟨claims, ho, hs⟩
      · exact ⟨he.now_eq, .inl hs⟩
      · exact ⟨he.now_eq, .inr ⟨claims, ho, _, rfl, hs⟩⟩
  have hsub : c.state.signed ⊆ c'.state.signed := by
    rcases hsigned with hs | ⟨claims, -, e, -, hs⟩
    · exact hs ▸ List.Subset.refl _
    · exact hs ▸ List.subset_cons_self ..
  refine ⟨fun x hx' => ?_, fun x hx' => ?_, fun e he => ?_, ?_, h.blacklist_exec hc hw hx⟩
  · rw [hnow]
    rcases List.mem_cons.mp (htr ▸ hx') with rfl | hx'
    · exact le_rfl
    · exact h.clock x hx'
  · rcases List.mem_cons.mp (htr ▸ hx') with rfl | hx'
    · exact hsub
    · exact List.Subset.trans (h.signed x hx') hsub
  · have hold : ∀ e ∈ c.state.signed, ∃ x ∈ c'.trace, ∃ claims, x.op = .signAsync claims ∧
        claims.jti = e.2.jti := by
      intro e he
      obtain ⟨x, hx', hsign⟩ := h.signer e he
      exact ⟨x, htr ▸ List.mem_cons_of_mem _ hx', hsign⟩
    rcases hsigned with hs | ⟨claims, rfl, e', he', hs⟩
    · exact hold e (hs ▸ he)
    · rcases List.mem_cons.mp (hs ▸ he) with rfl | he
      · exact ⟨_, htr ▸ List.mem_cons_self, claims, rfl, he'.symm⟩
      · exact hold e he
  · rcases hsigned with hs | ⟨claims, rfl, e₀, he₀, hs⟩
    · exact hs ▸ h.unique
    · have hfresh := h.sign_fresh hc hw
      intro e he e' he' hjti
      rcases List.mem_cons.mp (hs ▸ he) with rfl | he <;>
        rcases List.mem_cons.mp (hs ▸ he') with rfl | he'
      · rfl
      · exact absurd (hjti.symm.trans he₀) (hfresh e' he')
      · exact absurd (hjti.trans he₀) (hfresh e he)
      · exact h.unique e he e' he' hjti

theorem access : Access c.toWorld := by
  refine hc.follow ?_ (fun call s s' l hst h => ?_) (fun v s s' l hv h => ?_)
    fun {c c' i m call o r} hc _ hw _ hx h => h.exec hc hw hx
  · constructor <;> simp [Machine.init, AuthStore.empty]
  · obtain ⟨-, -, hs, hb, hn⟩ := auth_start_tables hst
    exact h.same hs hb hn.ge
  · obtain ⟨-, -, hs, hb, hn⟩ := auth_env_tables hv
    exact h.same hs hb hn

/-- **Logout leaves no gap.** -/
theorem logout_leaves_no_gap : LogoutHolds c := by
  intro i req p hret
  have h := access hc
  obtain ⟨l, hl, token, n, hverified, hclock, hset⟩ := Machine.along_returned auth_along hc hret
  have hsigned : (token, p) ∈ c.state.signed := h.signed_of_saw hl hverified
  refine Shut.rejects fun e he hjti => ?_
  obtain rfl := h.unique e he _ hsigned hjti
  have hn : n ≤ c.state.now := h.now_of_saw hl hclock
  rcases le_or_gt p.exp ⌊n⌋ with hexp | hlive
  · exact .inl (hexp.trans (Int.floor_le_floor hn))
  · -- the key was set, and stays until the token expires
    obtain ⟨x, hx, -, -, ho, ht, -⟩ := (hl.ran _ (hset hlive)).entry
    obtain ⟨e, he, hjti, gone, hgone, hle⟩ := h.blacklist x hx ht _ _ ho
    obtain rfl := h.unique e he _ hsigned hjti
    rcases le_or_gt p.exp ⌊c.state.now⌋ with hexp | hnow
    · exact .inl hexp
    · right
      unfold AuthStore.blacklisted
      rw [hgone]
      exact decide_eq_true ((Int.floor_lt.mp hnow).trans_le hle)

end Step

end Runs

/-- A request with the access token 20. -/
def bearer20 : Request := { authorization := some "Bearer 20" }

/-- Thread `i` runs operations that answer these choices. -/
def replies (i : Nat) (l : List AuthChoice) : List (Event (auth ℚ sample)) :=
  l.map fun ch => .run i (.ok ch)

/-- User 7 logs in at time 1/2 and logs out, and time passes until 1799/2. -/
def logsOut : List (Event (auth ℚ sample)) :=
  .spawn 0 (.register ⟨"e@f.g", "password56", by decide, by decide⟩) ::
  replies 0 [{}, {}, { fresh := 7 }] ++
  .env (.tick (1 / 2)) :: .spawn 1 (.login ⟨"e@f.g", "password56"⟩ {}) ::
  replies 1 [{}, {}, { fresh := 20 }, {}, { secret := "s" }, {}, { fresh := 30 }, {},
    { fresh := 40 }] ++
  .spawn 2 (.logout bearer20) :: replies 2 [{}, {}, {}] ++ .env (.tick (5 / 2)) ::
  replies 2 [{}] ++ [.env (.tick (1799 / 2))]

/-- Half a second before it expires, the token is rejected. -/
theorem logout_leaves_no_gap_late : ∃ c,
    (auth ℚ sample).replay ((auth ℚ sample).init (.empty 0)) logsOut = some c ∧
    (c.state.payloadOf "20").map JwtPayload.exp = some 900 ∧ c.state.now = 1799 / 2 ∧
    Rejects sample c.state 20 := by
  obtain ⟨c, hr, h⟩ := Machine.exists_of_replay (fun c : Config (auth ℚ sample) =>
    (c.state.payloadOf "20").map JwtPayload.exp = some 900 ∧ c.state.now = 1799 / 2 ∧
    c.result? 2 = some (.logout bearer20, .loggedOut ⟨⟨7, .USER, "free", 20⟩, 0, 900⟩))
    (show ((auth ℚ sample).replay ((auth ℚ sample).init (.empty 0)) logsOut).any _ = true by
      decide +kernel)
  obtain ⟨hp, hnow, hret⟩ := of_decide_eq_true h
  exact ⟨c, hr, hp, hnow,
    logout_leaves_no_gap (.of_replay .init hr) 2 _ _ (Config.returned_iff.mpr hret)⟩

end BoltBet
