import BoltBet.Async.Guarded
import BoltBet.Async.History
import BoltBet.Edge.Auth

/-!
# The cache of the gateway and the identity service

A request may pass on a cached result. The key of the cache is the claim `jti` of the presented
token, which is read before any signature is checked, so a token with a copied claim hits the
entry of another one (`cache_serves_forged`).

* `CacheAgrees c`: every request that passed presented a token that the identity service accepted
  with these headers, in this call or in one at most 30 seconds earlier.
* `HitsOwn`: a read that finds a cached result finds one that was cached for the same token.
* **`cache_agrees`**: in every run of such reads, `CacheAgrees` holds.
-/

namespace BoltBet

open Async

namespace EdgeAuth

variable {T : Type} (N : Openresty T)

/-! ## Specification -/

section Specification

variable [LinearOrder T] [Ring T]

/-- The identity service accepted the header of an executed subrequest, with these headers. -/
def Accepted (x : Entry (edge N)) (header : LuaString) (user : UserHeaders) : Prop :=
  x.took = true ∧ x.op = .capture header ∧ (N.verify x.before.now header).status = 200 ∧
    user = (N.verify x.before.now header).user

/-- **The cache agrees with verification.** -/
def CacheAgrees (c : Config (edge N)) : Prop :=
  ∀ i call user, c.Returned i call (.pass user) → ∃ header token, call = [header] ∧
    bearerToken header = some token ∧
    ((∃ x ∈ c.trace, x.tid = i ∧ Accepted N x header user) ∨
      ∃ y ∈ c.trace, y.tid = i ∧ ∃ z ∈ c.trace, ∃ header', z.call = [header'] ∧
        bearerToken header' = some token ∧
        (∃ x ∈ c.trace, x.tid = z.tid ∧ Accepted N x header' user) ∧
        z.before.now ≤ y.before.now ∧ y.before.now ≤ z.before.now + 30)

/-- The executed operation set a key. -/
def setsKey (key : LuaString) (x : Entry (edge N)) : Bool :=
  x.took && match x.op with
    | .setex key' _ _ => key' = key
    | _ => false

/-- The token of a request with one header `Authorization`. -/
def presented : List LuaString → Option LuaString
  | [header] => bearerToken header
  | _ => none

/-- A read that finds a value that the gateway set finds one set for the same token. -/
def HitsOwn (x : Entry (edge N)) (past : List (Entry (edge N))) : Prop :=
  match x.op with
  | .get key => x.took = true → (x.before.live key).isSome = true →
      ∀ z ∈ past.find? (setsKey N key), presented z.call = presented x.call
  | _ => True

instance (x : Entry (edge N)) (past : List (Entry (edge N))) : Decidable (HitsOwn N x past) := by
  unfold HitsOwn
  split <;> infer_instance

end Specification

variable {N}

/-! ## What a request has seen -/

section Along

variable {l : List (Seen EdgeSig)} {call : List LuaString} {α : Type}

/-- A request has read this cached value. -/
def ReadCache (l : List (Seen EdgeSig)) (key cached : LuaString) : Prop :=
  Saw l (EdgeOp.get key) (some cached)

/-- A request has this answer of the identity service. -/
def Verified (l : List (Seen EdgeSig)) (header : LuaString) (res : VerifyResponse) : Prop :=
  Saw l (EdgeOp.capture header) res ∧ res.status = 200

variable (N) in
/-- What a request has seen when it caches a result. -/
def Grounds (call : List LuaString) (l : List (Seen EdgeSig)) : EdgeOp → Prop
  | .setex _ seconds value => seconds = 30 ∧ ∃ header res, call = [header] ∧
      Verified l header res ∧
      value = N.cjsonEncode (res.userId.getD []) (res.userTier.getD []) (res.userRole.getD [])
  | _ => True

variable (N) in
/-- What a request has seen when it passes. -/
def Passed (header : LuaString) (l : List (Seen EdgeSig)) (user : UserHeaders) : Prop :=
  (∃ res, Verified l header res ∧ user = res.user) ∨
    ∃ key cached value, lua "auth:cache:" <+: key ∧ ReadCache l key cached ∧
      N.cjsonDecode cached = .ok value ∧ userHeaders value = .ok user

variable (N) in
/-- What a request has seen when it ends. -/
def Ends (call : List LuaString) (l : List (Seen EdgeSig)) : Except LuaErr CheckReply → Prop
  | .ok (.pass user) => ∃ header token, call = [header] ∧ bearerToken header = some token ∧
      Passed N header l user
  | _ => True

theorem along_connect {G : List (Seen EdgeSig) → EdgeOp → Prop} (hG : G l .connect) :
    connect.Along G (fun l' r => l <:+ l' ∧ ∃ ok, r = .ok ok) l := by
  refine ⟨hG, fun r => ?_⟩
  cases r <;> exact ⟨List.suffix_cons _ _, _, rfl⟩

theorem along_get {G : List (Seen EdgeSig) → EdgeOp → Prop} {key : LuaString}
    (hG : G l (.get key)) : (get key).Along G (fun l' r => l <:+ l' ∧
      ∃ found, r = .ok found ∧ ∀ v, found = some v → ReadCache l' key v) l := by
  refine ⟨hG, fun r => ?_⟩
  cases r with
  | ok v => exact ⟨List.suffix_cons _ _, v, rfl, fun v' hv => hv ▸ saw_head⟩
  | error e => exact ⟨List.suffix_cons _ _, none, rfl, fun v' hv => absurd hv (by simp)⟩

theorem along_capture {G : List (Seen EdgeSig) → EdgeOp → Prop} {header : LuaString}
    (hG : G l (.capture header)) : (capture header).Along G
      (fun l' r => ∃ res, r = .ok res ∧ (res.status = 200 → Verified l' header res)) l := by
  refine ⟨hG, fun r => ?_⟩
  cases r with
  | ok res => exact ⟨res, rfl, fun h200 => ⟨saw_head, h200⟩⟩
  | error e => exact ⟨{ status := 502 }, rfl, fun h200 => absurd h200 (by simp)⟩

/-- The keys of cached results, and no others, carry their name. -/
theorem cacheKey_named {jti : LuaValue} {key : LuaString} (h : cacheKey jti = .ok key) :
    lua "auth:cache:" <+: key := by
  unfold cacheKey LuaValue.concat at h
  split at h
  · exact ⟨_, Except.ok.inj h⟩
  · exact ⟨_, Except.ok.inj h⟩
  · exact absurd h (by simp)

theorem along_lookup (jti : LuaValue) {header token : LuaString}
    (htoken : bearerToken header = some token) :
    (lookup N jti).Along (Grounds N [header])
      (fun l' r => ∀ reply, r = .ok (some reply) → Ends N [header] l' (.ok reply)) l := by
  unfold lookup
  refine Prog.along_ofExcept_bind (fun bkey _ => ?_) (by simp)
  refine Prog.Along.bind (along_get trivial) (fun found l₁ _ => ?_) (by simp)
  split
  · rintro reply hreply
    obtain rfl := Option.some.inj (Except.ok.inj hreply)
    trivial
  · refine Prog.along_ofExcept_bind (fun key hkey => ?_) (by simp)
    refine Prog.Along.bind (along_get trivial) (fun found l₂ h₂ => ?_) (by simp)
    cases found with
    | none => simp [Prog.Along]
    | some cached =>
      obtain ⟨-, found, hfound, hread⟩ := h₂
      have hread : ReadCache l₂ key cached := hread cached (Except.ok.inj hfound).symm
      simp only []
      split
      · simp [Prog.Along]
      · rename_i value hdecode
        split
        · refine Prog.along_ofExcept_bind (fun user huser => ?_) (by simp)
          intro reply hreply
          obtain rfl := Option.some.inj (Except.ok.inj hreply)
          exact ⟨header, token, rfl, htoken,
            .inr ⟨key, cached, value, cacheKey_named hkey, hread, hdecode, huser⟩⟩
        · simp [Prog.Along]

theorem along_verify (jti : LuaValue) {header token : LuaString}
    (htoken : bearerToken header = some token) :
    (verify N header jti).Along (Grounds N [header]) (Ends N [header]) l := by
  unfold verify
  refine Prog.Along.bind (along_capture trivial) (fun res l₁ h₁ => ?_) (fun _ _ _ => trivial)
  by_cases h200 : res.status = 200
  · have hver : Verified l₁ header res := by
      obtain ⟨res', hres, hver⟩ := h₁
      obtain rfl := Except.ok.inj hres
      exact hver h200
    have hend : ∀ l', l₁ <:+ l' → Ends N [header] l' (.ok (.pass res.user)) := fun l' hl =>
      ⟨header, token, rfl, htoken, .inl ⟨res, ⟨hver.1.later hl, h200⟩, rfl⟩⟩
    simp only [h200, ne_eq, not_true_eq_false, if_false]
    refine Prog.Along.bind (along_connect trivial) (fun ok l₂ h₂ => ?_) (fun _ _ _ => trivial)
    split
    · refine Prog.along_ofExcept_bind (fun key hkey => ?_) (fun _ _ => trivial)
      have hgrounds : Grounds N [header] l₂ (.setex key 30
          (N.cjsonEncode (res.userId.getD []) (res.userTier.getD []) (res.userRole.getD []))) :=
        ⟨rfl, header, res, rfl, ⟨hver.1.later h₂.1, h200⟩, rfl⟩
      exact ⟨hgrounds, fun r => hend _ (h₂.1.trans (List.suffix_cons _ _))⟩
    · exact hend _ h₂.1
  · simp only [h200, ne_eq, not_false_eq_true, if_true]
    trivial

/-- **Every request caches what it verified, and passes on what it verified or read.** -/
theorem check_along (call : List LuaString) :
    (check N call).Along (Grounds N call) (Ends N call) [] := by
  unfold check
  split
  · trivial
  · rename_i header
    split
    · trivial
    · rename_i token htoken
      refine Prog.along_ofExcept_bind (fun jti? _ => ?_) (fun _ _ => trivial)
      split
      · trivial
      · rename_i jti _
        refine Prog.Along.bind (along_connect trivial) (fun ok l₁ h₁ => ?_) (fun _ _ _ => trivial)
        split
        · refine Prog.Along.bind (along_lookup jti htoken) (fun reply l₂ h₂ => ?_)
            (fun _ _ _ => trivial)
          split
          · exact h₂ _ rfl
          · exact along_verify jti htoken
        · exact along_verify jti htoken
  · trivial

end Along

/-! ## Every run -/

section Runs

variable [LinearOrder T] [Ring T] {i : Nat} {call : List LuaString} {o : EdgeOp}
  {w w' : World (edge N)} {r : Except LuaErr o.Res}

/-- An operation sets its key, or leaves Redis alone. -/
theorem edge_exec_cases (h : (edge N).Exec i call o w r w') :
    ∃ took, w'.trace = ⟨i, call, o, took, w.state⟩ :: w.trace ∧ w'.state.now = w.state.now ∧
      ((∃ key seconds v, took = true ∧ o = .setex key seconds v ∧ w'.state.redis =
          Function.update w.state.redis key (some (v, w.state.now + (seconds : Nat)))) ∨
        (∀ key, setsKey N key ⟨i, call, o, took, w.state⟩ = false) ∧
          w'.state.redis = w.state.redis) := by
  rcases h.cases with ⟨ch, r₀, s, hs, -, rfl⟩ | ⟨e, -, rfl⟩
  · refine ⟨_, rfl, ?_⟩
    cases o with
    | setex key seconds v =>
      obtain ⟨rfl, rfl⟩ := Prod.mk.inj (Option.some.inj hs)
      exact ⟨rfl, .inl ⟨key, seconds, v, rfl, rfl, rfl⟩⟩
    | connect | get | capture =>
      obtain ⟨rfl, rfl⟩ := Prod.mk.inj (Option.some.inj hs)
      exact ⟨rfl, .inr ⟨fun key => by simp [setsKey], rfl⟩⟩
  · exact ⟨false, rfl, rfl, .inr ⟨fun key => by simp [setsKey], rfl⟩⟩

/-- A cached value is the one set last, and goes when that operation said. -/
structure Current (w : World (edge N)) : Prop where
  clock : ∀ x ∈ w.trace, x.before.now ≤ w.state.now
  cached : ∀ key, lua "auth:cache:" <+: key → ∀ v gone, w.state.redis key = some (v, gone) →
    ∃ z, w.trace.find? (setsKey N key) = some z ∧ ∃ seconds, z.op = .setex key seconds v ∧
      gone = z.before.now + (seconds : Nat)

theorem Current.exec (hw : Current w) (h : (edge N).Exec i call o w r w') : Current w' := by
  obtain ⟨took, htr, hnow, hset⟩ := edge_exec_cases h
  constructor
  · intro x hx
    rw [hnow]
    rcases List.mem_cons.mp (htr ▸ hx) with rfl | hx
    · exact le_rfl
    · exact hw.clock x hx
  · intro key hkey v gone hv
    rw [htr, List.find?_cons]
    rcases hset with ⟨key', seconds, v', rfl, rfl, hredis⟩ | ⟨hno, hredis⟩
    · rw [hredis] at hv
      by_cases hk : key = key'
      · subst hk
        rw [Function.update_self] at hv
        obtain ⟨rfl, rfl⟩ := Prod.mk.inj (Option.some.inj hv)
        have hset : setsKey N key ⟨i, call, .setex key seconds v', true, w.state⟩ = true := by
          simp [setsKey]
        rw [hset]
        exact ⟨_, rfl, seconds, rfl, rfl⟩
      · rw [Function.update_of_ne hk] at hv
        have hno : setsKey N key ⟨i, call, .setex key' seconds v', true, w.state⟩ = false := by
          simp [setsKey, Ne.symm hk]
        rw [hno]
        exact hw.cached key hkey v gone hv
    · rw [hno key]
      exact hw.cached key hkey v gone (hredis ▸ hv)

theorem Current.env {v : EdgeEnv T} {s s' : EdgeStore T} {l : List (Entry (edge N))}
    (hw : Current ⟨s, l⟩) (h : v.step s = some s') : Current ⟨s', l⟩ := by
  cases v with
  | tick now =>
    simp only [EdgeEnv.step] at h
    split at h
    · rename_i hnow
      obtain rfl := Option.some.inj h
      exact ⟨fun x hx => (hw.clock x hx).trans hnow, hw.cached⟩
    · exact absurd h (by simp)
  | write key value gone =>
    simp only [EdgeEnv.step] at h
    split at h
    · exact absurd h (by simp)
    · rename_i hnamed
      obtain rfl := Option.some.inj h
      refine ⟨hw.clock, fun key' hkey v gone' hv => hw.cached key' hkey v gone' ?_⟩
      have hk : key' ≠ key := by
        rintro rfl
        exact hnamed hkey
      exact (Function.update_of_ne hk _ _).symm.trans hv
  | drop key =>
    obtain rfl := Option.some.inj h
    refine ⟨hw.clock, fun key' hkey v gone' hv => hw.cached key' hkey v gone' ?_⟩
    by_cases hk : key' = key
    · rw [hk] at hv
      exact absurd hv (by simp)
    · exact (Function.update_of_ne hk _ _).symm.trans hv

variable {now : T} {c : Config (edge N)}

theorem current (hc : (edge N).Reachable ((edge N).init (.empty now)) c) : Current c.toWorld := by
  refine hc.follow ⟨fun x hx => ?_, fun key _ v gone hv => ?_⟩ (fun call s s' l hst hw => ?_)
    (fun v s s' l hv hw => hw.env hv) fun {c c' i m call o r} _ _ _ _ hx hw => hw.exec hx
  · exact absurd hx (by simp [Machine.init])
  · exact absurd hv (by simp [Machine.init, EdgeStore.empty])
  · obtain rfl := Option.some.inj hst
    exact hw

/-- What a request saw verified was accepted. -/
theorem accepted_of_saw {l : List (Seen EdgeSig)} {header : LuaString} {res : VerifyResponse}
    (hl : (edge N).Recalls ((edge N).init (.empty now)) i call l c)
    (h : Verified l header res) : ∃ x ∈ c.trace, x.tid = i ∧ Accepted N x header res.user := by
  obtain ⟨x, hx, hi, -, hop, ht, ch, s, hexec⟩ := (hl.ran _ h.1).entry
  obtain rfl : N.verify x.before.now header = res :=
    Except.ok.inj (Prod.mk.inj (Option.some.inj hexec)).1
  exact ⟨x, hx, hi, ht, hop, h.2, rfl⟩

/-- The operation that set a cached value which has not gone: it wrote a result that its request had
verified, 30 seconds ago at most. -/
theorem setter_of_live (hc : (edge N).Reachable ((edge N).init (.empty now)) c)
    {key cached : LuaString} (hkey : lua "auth:cache:" <+: key)
    (hlive : c.state.live key = some cached) :
    ∃ z header, ∃ res : VerifyResponse,
      c.trace.find? (setsKey N key) = some z ∧ z.call = [header] ∧
      (∃ x ∈ c.trace, x.tid = z.tid ∧ Accepted N x header res.user) ∧
      cached = N.cjsonEncode (res.userId.getD []) (res.userTier.getD []) (res.userRole.getD []) ∧
      c.state.now < z.before.now + 30 := by
  obtain ⟨⟨cached', gone⟩, hentry, rfl⟩ := Option.map_eq_some_iff.mp hlive
  obtain ⟨hredis, hgone⟩ := Option.filter_eq_some_iff.mp hentry
  obtain ⟨z, hfind, seconds, hop, rfl⟩ := (current hc).cached key hkey _ _ hredis
  obtain ⟨c', hc', hwait, hbefore, hr'⟩ :=
    Machine.waited_of_trace hc (List.mem_of_find?_eq_some hfind)
  obtain ⟨l', hl', hgrounds⟩ := Machine.along_waits check_along hc' hwait
  rw [hop] at hgrounds
  obtain ⟨rfl, header, res, hcall, hver, rfl⟩ := hgrounds
  obtain ⟨x, hx, hxi, hacc⟩ := accepted_of_saw hl' hver
  refine ⟨z, header, res, hfind, hcall, ⟨x, hr'.trace_suffix.subset hx, hxi, hacc⟩, rfl, ?_⟩
  simpa using of_decide_eq_true hgone

omit [LinearOrder T] [Ring T] in
/-- A cached user reads back. -/
theorem decode_user (hN : N.ReadsUsers) (res : VerifyResponse) : ∃ value,
    N.cjsonDecode (N.cjsonEncode (res.userId.getD []) (res.userTier.getD [])
      (res.userRole.getD [])) = .ok value ∧ userHeaders value = .ok res.user := by
  obtain ⟨get, hget, hsub, htier, hrole⟩ := hN (res.userId.getD []) (res.userTier.getD [])
    (res.userRole.getD [])
  refine ⟨.table get, hget, ?_⟩
  simp only [userHeaders, field, LuaValue.index, Except.map, hsub, htier, hrole]
  rfl

omit [LinearOrder T] [Ring T] in
/-- The headers of a user read back. -/
theorem userHeaders_encoded (hN : N.ReadsUsers) {res : VerifyResponse} {value : LuaValue}
    {user : UserHeaders} (hdecode : N.cjsonDecode (N.cjsonEncode (res.userId.getD [])
      (res.userTier.getD []) (res.userRole.getD [])) = .ok value)
    (huser : userHeaders value = .ok user) : user = res.user := by
  obtain ⟨value', hvalue, hheaders⟩ := decode_user hN res
  obtain rfl := Except.ok.inj (hdecode.symm.trans hvalue)
  exact Except.ok.inj (huser.symm.trans hheaders)

/-- **The cache agrees with verification** in every run whose hits find what was cached for the
same token. -/
theorem cache_agrees (hN : N.ReadsUsers)
    (hc : (edge N).Reach ((edge N).Good (HitsOwn N)) ((edge N).init (.empty now)) c) :
    CacheAgrees N c := by
  intro i call user hret
  have hreach : (edge N).Reachable ((edge N).init (.empty now)) c := hc.mono fun _ _ _ => trivial
  obtain ⟨l, hl, header, token, rfl, htoken, hpass⟩ :=
    Machine.along_returned check_along hreach hret
  refine ⟨header, token, rfl, htoken, ?_⟩
  rcases hpass with ⟨res, hver, rfl⟩ | ⟨key, cached, value, hkey, hread, hdecode, huser⟩
  · exact .inl (accepted_of_saw hl hver)
  · right
    -- the read, and the state it ran on
    obtain ⟨c₁, c₂, m, h₁, hw₁, hs, hx, h₂⟩ := hl.ran _ hread
    obtain ⟨ch, s, hexec, hw₂⟩ := hx.ok_cases
    have hlive : c₁.state.live key = some cached :=
      Except.ok.inj (Prod.mk.inj (Option.some.inj hexec)).1
    -- the operation that set it
    obtain ⟨z, header', res, hfind, hcall, hacc, rfl, hgone⟩ := setter_of_live h₁ hkey hlive
    have hz : z ∈ c₁.trace := List.mem_of_find?_eq_some hfind
    obtain ⟨x, hx', hxi, hacc⟩ := hacc
    obtain rfl := userHeaders_encoded hN hdecode huser
    -- the read is on the trace, and found what was cached for the same token
    have htr₂ : c₂.trace = ⟨i, [header], .get key, true, c₁.state⟩ :: c₁.trace := by rw [hw₂]
    have hsuffix : c₂.trace <:+ c.trace := h₂.trace_suffix
    have hall : AllGood (HitsOwn N) c₂.trace := hc.allGood.of_suffix hsuffix
    rw [htr₂] at hall
    have hgood : HitsOwn N ⟨i, [header], .get key, true, c₁.state⟩ c₁.trace := hall.1
    have hsame : presented z.call = presented [header] :=
      hgood rfl (by rw [hlive]; rfl) z hfind
    have hold : c₁.trace <:+ c.trace := (List.suffix_cons _ _).trans (htr₂ ▸ hsuffix)
    refine ⟨⟨i, [header], .get key, true, c₁.state⟩,
      hsuffix.subset (htr₂ ▸ List.mem_cons_self), rfl, z, hold.subset hz, header', hcall, ?_,
      ⟨x, hold.subset hx', hxi, hacc⟩, (current h₁).clock z hz, hgone.le⟩
    rw [hcall] at hsame
    exact hsame.trans htoken

end Runs

/-! ## Small runs -/

/-- The signed token is verified and cached; 20 seconds later a request presents these claims under
`signature`. -/
def twoRequests (signature : String) : List (Event (edge sampleEdge)) :=
  .spawn 0 [header7 "c2ln"] :: List.replicate 6 (.run 0 (.ok ())) ++
    .env (.tick 20) :: .spawn 1 [header7 signature] :: List.replicate 3 (.run 1 (.ok ()))

/-- The header a request passed with, and the identity it got. -/
def passed? (c : Config (edge sampleEdge)) (i : Nat) :
    Option (List LuaString × LuaString × LuaString) :=
  match c.result? i with
  | some (call, .pass ⟨.string id, _, .string role⟩) => some (call, id, role)
  | _ => none

theorem returned_of_passed {c : Config (edge sampleEdge)} {i : Nat} {call : List LuaString}
    {id role : LuaString} (h : passed? c i = some (call, id, role)) :
    ∃ tier, c.Returned i call (.pass ⟨.string id, tier, .string role⟩) := by
  unfold passed? at h
  split at h
  · rename_i tier _ ht
    obtain ⟨rfl, rfl, rfl⟩ : _ = call ∧ _ = id ∧ _ = role := by simpa using h
    exact ⟨tier, Config.returned_iff.mpr ht⟩
  · exact absurd h (by simp)

/-- The second request passes on the result of the first one. -/
theorem cache_agrees_second : ∃ c,
    (edge sampleEdge).replay ((edge sampleEdge).init (.empty 0)) (twoRequests "c2ln") = some c ∧
    passed? c 1 = some ([header7 "c2ln"], lua "7", lua "USER") ∧ CacheAgrees sampleEdge c := by
  obtain ⟨c, hr, hp⟩ := Machine.exists_of_replay (fun c : Config (edge sampleEdge) =>
    passed? c 1 = some ([header7 "c2ln"], lua "7", lua "USER") ∧
      AllGood (HitsOwn sampleEdge) c.trace)
    (show ((edge sampleEdge).replay ((edge sampleEdge).init (.empty 0))
      (twoRequests "c2ln")).any _ = true by decide +kernel)
  obtain ⟨hp, hg⟩ := of_decide_eq_true hp
  exact ⟨c, hr, hp, cache_agrees sampleEdge_readsUsers (.of_allGood (.of_replay .init hr) hg)⟩

/-- A token that nobody signed passes as user 7. -/
theorem cache_serves_forged : ∃ c,
    (edge sampleEdge).Reachable ((edge sampleEdge).init (.empty 0)) c ∧
    passed? c 1 = some ([header7 "Zm9y"], lua "7", lua "USER") ∧
    (∀ t, (sampleEdge.verify t (header7 "Zm9y")).status = 401) ∧ ¬ CacheAgrees sampleEdge c := by
  obtain ⟨c, hr, hp⟩ := Machine.exists_of_replay (fun c : Config (edge sampleEdge) =>
    passed? c 1 = some ([header7 "Zm9y"], lua "7", lua "USER") ∧
      c.trace.all fun x => match x.op with
        | .capture header => header = header7 "c2ln"
        | _ => true)
    (show ((edge sampleEdge).replay ((edge sampleEdge).init (.empty 0))
      (twoRequests "Zm9y")).any _ = true by decide +kernel)
  obtain ⟨hp, hall⟩ := of_decide_eq_true hp
  have hne : header7 "Zm9y" ≠ header7 "c2ln" := by decide
  have hcaptured : ∀ x ∈ c.trace, ∀ header user, Accepted sampleEdge x header user →
      header = header7 "c2ln" := by
    rintro x hx header user ⟨-, hop, -⟩
    simpa [hop] using List.all_eq_true.mp hall x hx
  refine ⟨c, .of_replay .init hr, hp, fun t => by simp [sampleEdge, hne], fun h => ?_⟩
  obtain ⟨tier, hret⟩ := returned_of_passed hp
  obtain ⟨header, token, hcall, htoken, ⟨x, hx, -, hacc⟩ |
    ⟨y, -, -, z, -, header', -, htoken', ⟨x, hx, -, hacc⟩, -⟩⟩ := h 1 _ _ hret
  · obtain rfl := List.singleton_inj.mp hcall
    exact hne (hcaptured x hx _ _ hacc)
  · obtain rfl := List.singleton_inj.mp hcall
    obtain rfl := hcaptured x hx _ _ hacc
    exact absurd (htoken.trans htoken'.symm) (by decide)

end EdgeAuth

end BoltBet
