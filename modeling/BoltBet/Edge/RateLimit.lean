import BoltBet.Async.History
import BoltBet.Edge.Lua

/-!
# `rate_limit.lua`

`M.check` of the rate limiter, as a program over ephemeral Redis, and `gateway`, which runs any
number of requests through it. Four locations call it, with the limits 5, 60, 60 and 120, and the
key of the counter is `rate:ip:` and the address: the locations share it.

* A command of the Redis client raises nothing: it answers `nil` and a reason when it fails.
* `INCR` of a key that is not there creates it without an expiry; `EXPIRE` gives it one. Redis may
  lose a key at any time.
* `lifetime key l`: the requests counted since the key was created, the last one first.
* `LimitsTraffic`: a request is rejected only when more requests than its limit were counted, and
  the first of them are admitted. **`ip_traffic`**: it holds where the requests from the address
  count, to whatever location.
* Left out: logging, and `set_keepalive`, whose result nothing reads.
-/

namespace BoltBet

open Async

/-- The locations that call `rate_limit.check`. -/
inductive Location where
  /-- `/v1/auth/`. -/
  | auth
  /-- `/v1/bets`. -/
  | bets
  /-- `/v1/wallet`. -/
  | wallet
  /-- `~ ^/v1/(events|markets)`. -/
  | markets
  deriving DecidableEq, Repr

/-- The limit a location calls it with. -/
def Location.limit : Location → Nat
  | .auth => 5
  | .bets => 60
  | .wallet => 60
  | .markets => 120

/-- A request: where it goes, and `ngx.var.remote_addr`. -/
structure RateCall where
  location : Location
  remoteAddr : LuaString
  deriving DecidableEq, Repr

/-- What `M.check` does with a request. -/
inductive RateReply where
  | pass
  | exit (status : Nat) (retryAfter contentType body : LuaString)
  deriving DecidableEq, Repr

/-- The operations of `M.check`. -/
inductive RateOp where
  /-- `red:connect("redis-ephemeral", 6379)`. -/
  | connect
  | incr (key : LuaString)
  | expire (key : LuaString) (seconds : Nat)
  deriving DecidableEq

/-- What an operation answers. -/
abbrev RateOp.Res : RateOp → Type
  | .connect => Unit
  | .incr _ => Nat
  | .expire .. => Bool

/-- The signature of `M.check`. -/
abbrev RateSig : Sig LuaErr := ⟨RateOp, RateOp.Res⟩

namespace RateLimit

/-- `"rate:ip:" .. ngx.var.remote_addr`. -/
def rateKey (remoteAddr : LuaString) : LuaString := lua "rate:ip:" ++ remoteAddr

/-- `local ok, err = red:connect("redis-ephemeral", 6379)`. -/
def connect : Prog RateSig Bool := .await .connect fun
  | .ok _ => .ret true
  | .error _ => .ret false

/-- `local count, err = red:incr(key)`. -/
def incr (key : LuaString) : Prog RateSig (Option Nat) := .await (.incr key) fun
  | .ok count => .ret (some count)
  | .error _ => .ret none

/-- `red:expire(key, seconds)`, whose result nothing reads. -/
def expire (key : LuaString) (seconds : Nat) : Prog RateSig Unit :=
  .await (.expire key seconds) fun _ => .ret ()

/-- The response of the script that ends a request. -/
def tooMany : RateReply :=
  .exit 429 (lua "60") (lua "application/json")
    (lua ("\x7b\"error\":\"too_many_requests\",\"message\":\"Rate limit exceeded. " ++
      "Try again in 60 seconds.\",\"retry_after\":60\x7d"))

/-- The first request of a window sets its expiry. -/
def setExpiry (key : LuaString) (count : Nat) : Prog RateSig Unit :=
  if count = 1 then expire key 60 else .ret ()

/-- The end of `M.check`, with the count of the request. -/
def judge (limit : Nat) (key : LuaString) (count : Nat) : Prog RateSig RateReply := do
  setExpiry key count
  if count > limit then return tooMany else return .pass

/-- **`M.check`.** -/
def check (limit : Nat) (remoteAddr : LuaString) : Prog RateSig RateReply := do
  if ← connect then
    match ← incr (rateKey remoteAddr) with
    | none => return .pass
    | some count => judge limit (rateKey remoteAddr) count
  else return .pass

end RateLimit

/-! ## The gateway under load -/

/-- The clock and ephemeral Redis: a counter, and the moment it goes, if it has one. -/
structure RateStore (T : Type) where
  now : T
  redis : LuaString → Option (Nat × Option T)

/-- Before anything happened. -/
def RateStore.empty {T : Type} (now : T) : RateStore T := ⟨now, fun _ => none⟩

/-- The steps of the surroundings. -/
inductive RateEnv (T : Type) where
  /-- Time passes. -/
  | tick (now : T)
  /-- Redis loses a key. -/
  | drop (key : LuaString)

section Machine

variable {T : Type} [LinearOrder T]

/-- The counter of a key that has not gone. -/
def RateStore.counter (s : RateStore T) (key : LuaString) : Option (Nat × Option T) :=
  (s.redis key).filter fun entry => entry.2.all (s.now < ·)

/-- The count of a key, 0 when it is not there. -/
def RateStore.count (s : RateStore T) (key : LuaString) : Nat :=
  ((s.counter key).map Prod.fst).getD 0

/-- One step of the surroundings; time does not go back. -/
def RateEnv.step : RateEnv T → RateStore T → Option (RateStore T)
  | .tick now, s => if s.now ≤ now then some { s with now } else none
  | .drop key, s => some { s with redis := Function.update s.redis key none }

variable [Ring T]

/-- One operation. -/
def RateOp.exec (o : RateOp) (s : RateStore T) : Option (Except LuaErr o.Res × RateStore T) :=
  match o with
  | .connect => some (.ok (), s)
  | .incr key =>
    let count := s.count key + 1
    some (.ok count, { s with
      redis := Function.update s.redis key (some (count, (s.counter key).bind Prod.snd)) })
  | .expire key seconds =>
    match s.counter key with
    | none => some (.ok false, s)
    | some (count, _) =>
      some (.ok true, { s with
        redis := Function.update s.redis key (some (count, some (s.now + seconds))) })

/-- **The rate limiter.** -/
abbrev gateway (T : Type) [LinearOrder T] [Ring T] : Machine RateSig where
  Call := RateCall
  Out := RateReply
  State := RateStore T
  Choice := Unit
  Env := RateEnv T
  body := fun call => RateLimit.check call.location.limit call.remoteAddr
  start := fun _ s => some s
  exec := fun _ _ o s => o.exec s
  env := RateEnv.step

end Machine

namespace RateLimit

variable {T : Type} [LinearOrder T]

/-! ## Specification -/

section Specification

variable [Ring T]

/-- An executed operation counted a request. -/
def Counts (key : LuaString) (x : Entry (gateway T)) : Prop := x.took = true ∧ x.op = .incr key

instance (key : LuaString) (x : Entry (gateway T)) : Decidable (Counts key x) :=
  inferInstanceAs (Decidable (_ ∧ _))

/-- The requests counted since the key was created, the last one first. -/
def lifetime (key : LuaString) : List (Entry (gateway T)) → List (Entry (gateway T))
  | [] => []
  | x :: l =>
    if Counts key x then
      if (x.before.counter key).isSome then x :: lifetime key l else [x]
    else lifetime key l

/-- **Limits count traffic**, of the requests that `same` picks: one is rejected only when more than
its limit were counted in the lifetime of the key, itself included, and while there are no more it
is admitted. -/
structure LimitsTraffic (same : RateCall → RateCall → Bool) (c : Config (gateway T)) : Prop where
  rejected : ∀ i call status retryAfter contentType body,
    c.Returned i call (.exit status retryAfter contentType body) →
    ∃ x l, (x :: l) <:+ c.trace ∧ x.tid = i ∧ Counts (rateKey call.remoteAddr) x ∧
      call.location.limit <
        ((lifetime (rateKey call.remoteAddr) (x :: l)).filter fun y => same call y.call).length
  admitted : ∀ i call reply, c.Returned i call reply → ∀ x l, (x :: l) <:+ c.trace → x.tid = i →
    Counts (rateKey call.remoteAddr) x →
    ((lifetime (rateKey call.remoteAddr) (x :: l)).filter fun y => same call y.call).length ≤
      call.location.limit → reply = .pass

/-- Each limit counts the requests to its own group of locations. -/
def OwnTraffic (c : Config (gateway T)) : Prop :=
  LimitsTraffic (fun call call' => call'.location.limit = call.location.limit) c

/-- Each limit counts the requests to all of them. -/
def IpTraffic (c : Config (gateway T)) : Prop := LimitsTraffic (fun _ _ => true) c

end Specification

/-! ## What a request has seen -/

section Along

variable {l : List (Seen RateSig)} {G : List (Seen RateSig) → RateOp → Prop}

/-- An operation of `INCR`. -/
def IsIncr (o : RateOp) : Prop := ∃ key, o = .incr key

/-- A request counts itself once. -/
def CountsOnce (l : List (Seen RateSig)) (o : RateOp) : Prop := IsIncr o → ∀ x ∈ l, ¬ IsIncr x.op

/-- What a request has seen when it ends: its count exceeds the limit, or it passes. -/
def Judged (call : RateCall) (l : List (Seen RateSig)) : Except LuaErr RateReply → Prop
  | .ok reply => reply = .pass ∨ reply = tooMany ∧
      ∃ count, Saw l (.incr (rateKey call.remoteAddr)) count ∧ call.location.limit < count
  | .error _ => False

theorem along_judge (call : RateCall) {count : Nat}
    (hsaw : Saw l (.incr (rateKey call.remoteAddr)) count) :
    (judge call.location.limit (rateKey call.remoteAddr) count).Along CountsOnce (Judged call)
      l := by
  have hexpiry : (setExpiry (rateKey call.remoteAddr) count).Along CountsOnce
      (fun l' r => l <:+ l' ∧ r = .ok ()) l := by
    unfold setExpiry
    split
    · exact ⟨fun ⟨key, hkey⟩ => absurd hkey (by simp), fun r => ⟨List.suffix_cons _ _, rfl⟩⟩
    · exact ⟨List.suffix_rfl, rfl⟩
  refine Prog.Along.bind hexpiry (fun _ l' hl => ?_) fun e l' hl => absurd hl.2 (by simp)
  split
  · rename_i hgt
    exact .inr ⟨rfl, count, hsaw.later hl.1, hgt⟩
  · exact .inl rfl

/-- **A request counts itself once, and is rejected on the count it saw.** -/
theorem check_along (call : RateCall) :
    (check call.location.limit call.remoteAddr).Along CountsOnce (Judged call) [] := by
  refine ⟨fun _ => by simp, fun r => ?_⟩
  cases r with
  | error e => exact .inl rfl
  | ok u =>
    refine ⟨fun _ x hx => ?_, fun r => ?_⟩
    · obtain rfl := List.mem_singleton.mp hx
      rintro ⟨key, hkey⟩
      exact absurd hkey (by simp)
    · cases r with
      | error e => exact .inl rfl
      | ok count => exact along_judge call saw_head

end Along

/-! ## The counter -/

section Counter

variable {key : LuaString}

theorem counter_of_redis {s s' : RateStore T} (hnow : s'.now = s.now)
    (h : s'.redis key = s.redis key) : s'.counter key = s.counter key := by
  unfold RateStore.counter
  rw [hnow, h]

theorem counter_some {s : RateStore T} {count : Nat} {gone : Option T} :
    s.counter key = some (count, gone) ↔
      s.redis key = some (count, gone) ∧ ∀ t, gone = some t → s.now < t := by
  unfold RateStore.counter
  rw [Option.filter_eq_some_iff]
  cases gone <;> simp

theorem count_some {s : RateStore T} {count : Nat} {gone : Option T}
    (h : s.counter key = some (count, gone)) : s.count key = count := by
  unfold RateStore.count
  rw [h]
  rfl

/-- The surroundings keep a counter, or let it go. -/
theorem gateway_env_cases {v : RateEnv T} {s s' : RateStore T} (h : v.step s = some s')
    (key : LuaString) :
    s.now ≤ s'.now ∧ (s'.redis key = s.redis key ∨ s'.redis key = none) := by
  cases v with
  | tick now =>
    simp only [RateEnv.step] at h
    split at h
    · rename_i hle
      obtain rfl := Option.some.inj h
      exact ⟨hle, .inl rfl⟩
    · exact absurd h (by simp)
  | drop key' =>
    obtain rfl := Option.some.inj h
    refine ⟨le_rfl, ?_⟩
    by_cases hk : key = key'
    · subst hk
      exact .inr (Function.update_self ..)
    · exact .inl (Function.update_of_ne hk _ _)

/-- A counter that is there is one that was. -/
theorem counter_env {v : RateEnv T} {s s' : RateStore T} (h : v.step s = some s')
    {entry : Nat × Option T} (hs : s'.counter key = some entry) : s.counter key = some entry := by
  obtain ⟨hnow, hkeep | hgone⟩ := gateway_env_cases h key
  · obtain ⟨count, gone⟩ := entry
    obtain ⟨hredis, hlive⟩ := counter_some.mp hs
    exact counter_some.mpr ⟨hkeep ▸ hredis, fun t ht => hnow.trans_lt (hlive t ht)⟩
  · obtain ⟨count, gone⟩ := entry
    exact absurd ((counter_some.mp hs).1.symm.trans hgone) (by simp)

variable [Ring T] {i : Nat} {call : RateCall} {o : RateOp} {w w' : World (gateway T)}
  {r : Except LuaErr o.Res}

/-- **What one operation does to a counter.** -/
theorem gateway_exec_cases (hx : (gateway T).Exec i call o w r w') (key : LuaString) :
    ∃ took, w'.trace = ⟨i, call, o, took, w.state⟩ :: w.trace ∧ w'.state.now = w.state.now ∧
      ((Counts key ⟨i, call, o, took, w.state⟩ ∧ w'.state.redis key =
          some (w.state.count key + 1, (w.state.counter key).bind Prod.snd)) ∨
        (¬ Counts key ⟨i, call, o, took, w.state⟩ ∧ ((∃ seconds count gone, took = true ∧
            o = .expire key seconds ∧ w.state.counter key = some (count, gone) ∧
            w'.state.redis key = some (count, some (w.state.now + (seconds : Nat)))) ∨
          w'.state.redis key = w.state.redis key))) := by
  rcases hx.cases with ⟨ch, r₀, s, hs, -, rfl⟩ | ⟨e, -, rfl⟩
  · refine ⟨_, rfl, ?_⟩
    cases o with
    | connect =>
      obtain ⟨rfl, rfl⟩ := Prod.mk.inj (Option.some.inj hs)
      exact ⟨rfl, .inr ⟨by simp [Counts], .inr rfl⟩⟩
    | incr key' =>
      obtain ⟨rfl, rfl⟩ := Prod.mk.inj (Option.some.inj hs)
      refine ⟨rfl, ?_⟩
      by_cases hk : key = key'
      · subst hk
        exact .inl ⟨⟨rfl, rfl⟩, Function.update_self ..⟩
      · exact .inr ⟨fun h => hk (RateOp.incr.inj h.2).symm, .inr (Function.update_of_ne hk _ _)⟩
    | expire key' seconds =>
      simp only [RateOp.exec] at hs
      split at hs <;> obtain ⟨rfl, rfl⟩ := Prod.mk.inj (Option.some.inj hs)
      · exact ⟨rfl, .inr ⟨by simp [Counts], .inr rfl⟩⟩
      · rename_i count gone hcounter
        refine ⟨rfl, .inr ⟨by simp [Counts], ?_⟩⟩
        by_cases hk : key = key'
        · subst hk
          exact .inl ⟨seconds, count, gone, rfl, rfl, hcounter, Function.update_self ..⟩
        · exact .inr (Function.update_of_ne hk _ _)
  · exact ⟨false, rfl, rfl, .inr ⟨by simp [Counts], .inr rfl⟩⟩

theorem lifetime_of_not {x : Entry (gateway T)} {l : List (Entry (gateway T))}
    (h : ¬ Counts key x) : lifetime key (x :: l) = lifetime key l := if_neg h

variable (key) in
theorem lifetime_sublist (l : List (Entry (gateway T))) : (lifetime key l).Sublist l := by
  induction l with
  | nil => exact .slnil
  | cons x l ih =>
    rw [lifetime]
    split
    · split
      · exact ih.cons_cons x
      · exact (List.nil_sublist l).cons_cons x
    · exact ih.cons x

/-- The counter of a key is the number of requests counted in its lifetime. -/
def CountsLifetime (key : LuaString) (w : World (gateway T)) : Prop :=
  ∀ count gone, w.state.counter key = some (count, gone) → (lifetime key w.trace).length = count

/-- A counted request is the one that its count says. -/
theorem CountsLifetime.incr (h : CountsLifetime key w) {x : Entry (gateway T)}
    (hbefore : x.before = w.state) (hx : Counts key x) :
    (lifetime key (x :: w.trace)).length = w.state.count key + 1 := by
  rw [lifetime, if_pos hx, hbefore]
  cases hcounter : w.state.counter key with
  | none =>
    rw [if_neg (by simp)]
    unfold RateStore.count
    rw [hcounter]
    rfl
  | some entry =>
    rw [if_pos (by simp), List.length_cons, h entry.1 entry.2 hcounter, count_some hcounter]

theorem CountsLifetime.exec (h : CountsLifetime key w) (hx : (gateway T).Exec i call o w r w') :
    CountsLifetime key w' := by
  intro count gone hcounter
  obtain ⟨took, htr, hnow, hcases⟩ := gateway_exec_cases hx key
  obtain ⟨hredis, hlive⟩ := counter_some.mp hcounter
  rw [htr]
  rcases hcases with ⟨hincr, hadd⟩ | ⟨hnot, ⟨seconds, n, gone', -, -, hold, hexpire⟩ | hsame⟩
  · rw [h.incr rfl hincr]
    exact (Prod.mk.inj (Option.some.inj (hadd.symm.trans hredis))).1
  · rw [lifetime_of_not hnot]
    exact (h n gone' hold).trans (Prod.mk.inj (Option.some.inj (hexpire.symm.trans hredis))).1
  · rw [lifetime_of_not hnot]
    exact h count gone ((counter_of_redis hnow hsame).symm.trans hcounter)

theorem countsLifetime {now : T} {c : Config (gateway T)}
    (hc : (gateway T).Reachable ((gateway T).init (.empty now)) c) :
    CountsLifetime key c.toWorld := by
  refine hc.follow (J := CountsLifetime key) (fun count gone h => ?_) (fun call s s' l hst hJ => ?_)
    (fun v s s' l hv hJ count gone h => hJ count gone (counter_env hv h))
    fun _ _ _ _ hx hJ => hJ.exec hx
  · exact absurd (counter_some.mp h).1 (by simp [Machine.init, RateStore.empty])
  · obtain rfl := Option.some.inj hst
    exact hJ

/-- **Each count is the place of its request in the lifetime.** -/
theorem lifetime_length {now : T} {c : Config (gateway T)}
    (hc : (gateway T).Reachable ((gateway T).init (.empty now)) c) {x : Entry (gateway T)}
    {l : List (Entry (gateway T))} (hl : (x :: l) <:+ c.trace) (hx : Counts key x) :
    (lifetime key (x :: l)).length = x.before.count key + 1 := by
  obtain ⟨t, ht⟩ := hl
  obtain ⟨c', hc', hw⟩ := Machine.world_of_trace hc ht.symm
  have hcounts : CountsLifetime key c'.toWorld := countsLifetime hc'
  rw [hw] at hcounts
  exact hcounts.incr rfl hx

end Counter

/-! ## Every run -/

section Runs

variable [Ring T] {now : T} {c : Config (gateway T)}

/-- A request counts itself at most once. -/
theorem counts_unique (hc : (gateway T).Reachable ((gateway T).init (.empty now)) c)
    {x x' : Entry (gateway T)} {l l' : List (Entry (gateway T))} {key key' : LuaString}
    (hl : (x :: l) <:+ c.trace) (hl' : (x' :: l') <:+ c.trace) (hx : Counts key x)
    (hx' : Counts key' x') (hi : x.tid = x'.tid) : x :: l = x' :: l' := by
  have hbody : ∀ call : RateCall, (check call.location.limit call.remoteAddr).Along CountsOnce
      (fun _ _ => True) [] := fun call => (check_along call).mono fun _ _ _ => trivial
  have hmem : ∀ {x : Entry (gateway T)} {l l'}, (x :: l) <:+ l' → x ∈ l' := fun h =>
    h.subset List.mem_cons_self
  rcases List.suffix_or_suffix_of_suffix hl hl' with h | h <;>
    rcases List.suffix_cons_iff.mp h with heq | h
  · exact heq
  · exact absurd ⟨key, hx.2⟩ (Machine.once_of_along hc hbody hl' ⟨key', hx'.2⟩ x (hmem h) hi)
  · exact heq.symm
  · exact absurd ⟨key', hx'.2⟩ (Machine.once_of_along hc hbody hl ⟨key, hx.2⟩ x' (hmem h) hi.symm)

/-- **A request is rejected on its count.** -/
theorem rejected_count (hc : (gateway T).Reachable ((gateway T).init (.empty now)) c) {i : Nat}
    {call : RateCall} {reply : RateReply} (hret : c.Returned i call reply)
    (hreply : reply ≠ .pass) :
    ∃ x l, (x :: l) <:+ c.trace ∧ x.tid = i ∧ Counts (rateKey call.remoteAddr) x ∧
      call.location.limit < x.before.count (rateKey call.remoteAddr) + 1 := by
  obtain ⟨seen, hseen, rfl | ⟨rfl, count, hsaw, hlt⟩⟩ :=
    Machine.along_returned check_along hc hret
  · exact absurd rfl hreply
  · obtain ⟨c₁, c₂, m, h₁, -, -, hx, h₂⟩ := hseen.ran _ hsaw
    obtain ⟨ch, s, hexec, hw⟩ := hx.ok_cases
    have hcount : c₁.state.count (rateKey call.remoteAddr) + 1 = count :=
      Except.ok.inj (Prod.mk.inj (Option.some.inj hexec)).1
    have htr : c₂.trace =
        ⟨i, call, .incr (rateKey call.remoteAddr), true, c₁.state⟩ :: c₁.trace := by rw [hw]
    exact ⟨_, _, htr ▸ h₂.trace_suffix, rfl, ⟨rfl, rfl⟩, hcount ▸ hlt⟩

/-- **Limits count the traffic of an address**: in every run a request is rejected only when more
requests than its limit were counted, and the first of them are admitted. -/
theorem ip_traffic (hc : (gateway T).Reachable ((gateway T).init (.empty now)) c) :
    IpTraffic c := by
  have hall : ∀ l : List (Entry (gateway T)), l.filter (fun _ => true) = l := fun l =>
    List.filter_eq_self.mpr fun _ _ => rfl
  constructor
  · intro i call status retryAfter contentType body hret
    obtain ⟨x, l, hl, hi, hx, hlt⟩ := rejected_count hc hret (by simp)
    refine ⟨x, l, hl, hi, hx, ?_⟩
    rw [hall, lifetime_length hc hl hx]
    exact hlt
  · intro i call reply hret x l hl hi hx hle
    rw [hall, lifetime_length hc hl hx] at hle
    by_contra hreply
    obtain ⟨x', l', hl', hi', hx', hlt⟩ := rejected_count hc hret hreply
    -- a thread counts itself once, so the two are the same request
    obtain ⟨rfl, -⟩ := List.cons.inj (counts_unique hc hl hl' hx hx' (hi.trans hi'.symm))
    exact absurd hlt (not_lt.mpr hle)

end Runs

/-! ## Small runs -/

/-- Requests from one address, each after the one before; the first of them sets the expiry. -/
def requests (addr : LuaString) (first : Location) (others : List Location) :
    List (Event (gateway ℤ)) :=
  [.spawn 0 ⟨first, addr⟩, .run 0 (.ok ()), .run 0 (.ok ()), .run 0 (.ok ())] ++
    others.zipIdx.flatMap fun x =>
      [.spawn (x.2 + 1) ⟨x.1, addr⟩, .run (x.2 + 1) (.ok ()), .run (x.2 + 1) (.ok ())]

/-- The sixth login within a minute is rejected. -/
theorem ip_traffic_six : ∃ c, (gateway ℤ).replay ((gateway ℤ).init (.empty 0))
      (requests (lua "10.0.0.7") .auth (List.replicate 5 .auth)) = some c ∧
    c.result? 4 = some (⟨.auth, lua "10.0.0.7"⟩, .pass) ∧
    c.result? 5 = some (⟨.auth, lua "10.0.0.7"⟩, tooMany) ∧ IpTraffic c := by
  obtain ⟨c, hr, hp⟩ := Machine.exists_of_replay (fun c : Config (gateway ℤ) =>
    c.result? 4 = some (⟨.auth, lua "10.0.0.7"⟩, .pass) ∧
      c.result? 5 = some (⟨.auth, lua "10.0.0.7"⟩, tooMany))
    (show ((gateway ℤ).replay ((gateway ℤ).init (.empty 0))
      (requests (lua "10.0.0.7") .auth (List.replicate 5 .auth))).any _ = true by decide +kernel)
  obtain ⟨h4, h5⟩ := of_decide_eq_true hp
  exact ⟨c, hr, h4, h5, ip_traffic (.of_replay .init hr)⟩

/-- After five requests to `/v1/markets` the first login is rejected. -/
theorem markets_lock_login : ∃ c, (gateway ℤ).Reachable ((gateway ℤ).init (.empty 0)) c ∧
    c.result? 5 = some (⟨.auth, lua "10.0.0.7"⟩, tooMany) ∧ ¬ OwnTraffic c := by
  obtain ⟨c, hr, hp⟩ := Machine.exists_of_replay (fun c : Config (gateway ℤ) =>
    c.result? 5 = some (⟨.auth, lua "10.0.0.7"⟩, tooMany) ∧
      (c.trace.filter fun y => decide (y.call.location.limit = 5)).length ≤ 5)
    (show ((gateway ℤ).replay ((gateway ℤ).init (.empty 0)) (requests (lua "10.0.0.7") .markets
      (List.replicate 4 .markets ++ [.auth]))).any _ = true by decide +kernel)
  obtain ⟨h5, hfew⟩ := of_decide_eq_true hp
  refine ⟨c, .of_replay .init hr, h5, fun h => ?_⟩
  obtain ⟨x, l, hl, -, -, hlt⟩ := h.rejected 5 _ _ _ _ _ (Config.returned_iff.mpr h5)
  have hle := ((lifetime_sublist (rateKey (lua "10.0.0.7")) (x :: l)).trans
    hl.sublist).filter fun y => decide (y.call.location.limit = 5)
  exact absurd (hlt.trans_le (hle.length_le.trans hfew)) (lt_irrefl 5)

end RateLimit

end BoltBet
