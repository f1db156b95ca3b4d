import BoltBet.Edge.RateLimit
import Mathlib.Algebra.Order.Ring.Int
import Mathlib.Data.Nat.Cast.Defs

/-!
# Does a lockout end?

The counter is created by `INCR` and gets its expiry by `EXPIRE`, which is sent once, by the request
that counted 1. When that request does not learn its count, or its `EXPIRE` fails, the counter has
no expiry, no later request gives it one, and the address stays locked out.

* `Expires`: every counter goes within 60 seconds, or a request is about to set its expiry.
* `LockoutEnds`: that, and an address that was silent for 60 seconds has its whole allowance again.
* `SetsExpiry`: the `INCR` that creates a counter is answered, and the `EXPIRE` of a counter without
  an expiry takes effect.
* **`lockout_ends_iff`**: `LockoutEnds` holds throughout a run exactly when all steps of the run
  meet `SetsExpiry`.
-/

namespace BoltBet

open Async

namespace RateLimit

variable {T : Type} [LinearOrder T] [Ring T]

/-! ## Specification -/

/-- A request is about to set the expiry of a key. -/
def Setting (c : Config (gateway T)) (key : LuaString) : Prop :=
  ∃ i call, c.Waits i call (.expire key 60)

/-- Every counter goes within 60 seconds, or a request is about to set its expiry. -/
def Expires (c : Config (gateway T)) : Prop :=
  ∀ addr count gone, c.state.counter (rateKey addr) = some (count, gone) →
    (∃ t, gone = some t ∧ t ≤ c.state.now + 60) ∨ Setting c (rateKey addr)

/-- No request from an address is on its way. -/
def Silent (c : Config (gateway T)) (addr : LuaString) : Prop :=
  ∀ i call o, c.Waits i call o → call.remoteAddr ≠ addr

/-- A step that starts no request from an address. -/
def Spares (addr : LuaString) : Event (gateway T) → Prop
  | .spawn _ call => call.remoteAddr ≠ addr
  | _ => True

/-- How many requests were counted. -/
def counted (key : LuaString) (l : List (Entry (gateway T))) : Nat :=
  (l.filter fun x => Counts key x).length

/-- **A lockout always ends.** -/
structure LockoutEnds (c : Config (gateway T)) : Prop where
  expires : Expires c
  /-- After 60 seconds of silence, a request that comes then is rejected only when more than its
  limit were counted since. -/
  again : ∀ addr c₁ c₂, Silent c addr → (gateway T).Reach (fun _ e => Spares addr e) c c₁ →
    c.state.now + 60 ≤ c₁.state.now → (gateway T).Reachable c₁ c₂ →
    ∀ i call reply, call.remoteAddr = addr → c₁.threads i = none → c₂.Returned i call reply →
      reply ≠ .pass →
      counted (rateKey addr) c₁.trace + call.location.limit < counted (rateKey addr) c₂.trace

/-- Another request is about to set the expiry of a key. -/
def OtherSets (c : Config (gateway T)) (i : Nat) (key : LuaString) : Prop :=
  ∃ j call, j ≠ i ∧ c.Waits j call (.expire key 60)

/-- When thread `i` does not set the expiry it is about to set, the counter has one, is not there,
or another request is about to set it. -/
def CanSkip (c : Config (gateway T)) (i : Nat) : Prop :=
  ∀ call key seconds, c.Waits i call (.expire key seconds) →
    (∀ count, c.state.counter key ≠ some (count, none)) ∨ OtherSets c i key

/-- **Every created counter gets its expiry**: the `INCR` that creates it is answered, and the
`EXPIRE` takes effect. -/
def SetsExpiry (c : Config (gateway T)) : Event (gateway T) → Prop
  | .run i (.lost _ _) => ∀ call key, c.Waits i call (.incr key) →
      c.state.counter key ≠ none ∨ OtherSets c i key
  | .run i (.fail _) => CanSkip c i
  | .crash i => CanSkip c i
  | _ => True

/-! ## The program -/

/-- How a request goes on after an operation. -/
structure GoesOn (call : RateCall) (o : RateOp) (k : Except LuaErr o.Res → Prog RateSig RateReply) :
    Prop where
  failed : ∀ e, ∃ a, k (.error e) = .ret a
  incr : ∀ key, o = .incr key → key = rateKey call.remoteAddr
  first : ∀ key, (h : o = .incr key) → ∃ k', k (h ▸ .ok 1) = .await (.expire key 60) k'
  expire : ∀ key seconds, o = .expire key seconds →
    key = rateKey call.remoteAddr ∧ seconds = 60 ∧ ∀ r, ∃ a, k r = .ret a

theorem judge_each (call : RateCall) (count : Nat) :
    (judge call.location.limit (rateKey call.remoteAddr) count).Each (GoesOn call) := by
  have hend : ∃ a, (if count > call.location.limit then .ret tooMany else .ret .pass :
      Prog RateSig RateReply) = .ret a := by
    split
    · exact ⟨_, rfl⟩
    · exact ⟨_, rfl⟩
  obtain ⟨a, ha⟩ := hend
  unfold judge setExpiry
  by_cases hcount : count = 1
  · rw [if_pos hcount]
    refine ⟨⟨fun e => ⟨a, ha⟩, by simp, by simp, fun key seconds h => ?_⟩, fun r => ha ▸ trivial⟩
    obtain ⟨rfl, rfl⟩ := RateOp.expire.inj h
    exact ⟨rfl, rfl, fun r => ⟨a, ha⟩⟩
  · rw [if_neg hcount]
    exact ha ▸ trivial

/-- **How every request goes on.** -/
theorem check_each (call : RateCall) :
    (check call.location.limit call.remoteAddr).Each (GoesOn call) := by
  refine ⟨⟨fun e => ⟨_, rfl⟩, by simp, by simp, by simp⟩, fun r => ?_⟩
  cases r with
  | error e => trivial
  | ok u =>
    refine ⟨⟨fun e => ⟨_, rfl⟩, fun key h => ?_, fun key h => ?_, by simp⟩, fun r => ?_⟩
    · exact (RateOp.incr.inj h).symm
    · obtain rfl := RateOp.incr.inj h
      exact ⟨_, rfl⟩
    · cases r with
      | error e => trivial
      | ok count => exact judge_each call count

section Steps

variable {now : T} {c c' : Config (gateway T)} {e : Event (gateway T)} {i : Nat} {call : RateCall}
  {key : LuaString}

/-- What a waiting request is about to do, and how it goes on. -/
theorem goesOn {ok : Config (gateway T) → Event (gateway T) → Prop}
    (hc : (gateway T).Reach ok ((gateway T).init (.empty now)) c) {o : RateOp}
    {k : Except LuaErr o.Res → Prog RateSig RateReply}
    (hi : c.threads i = some ⟨call, .await o k, false⟩) : GoesOn call o k :=
  ((gateway T).each_thread (fun call => check_each call) hc hi).1

/-- A thread waits for one operation. -/
theorem waits_unique {o o' : RateOp} {k : Except LuaErr o.Res → Prog RateSig RateReply}
    (hi : c.threads i = some ⟨call, .await o k, false⟩) {call' : RateCall}
    (hw : c.Waits i call' o') : o' = o := by
  obtain ⟨k', hk'⟩ := hw
  have hp := congrArg Thread.prog (Option.some.inj (hi.symm.trans hk'))
  exact (Prog.await.inj hp).1.symm

/-- Who waits after thread `j` has gone on: `j`, or who waited before. -/
theorem setting_update {j : Nat} {w : World (gateway T)} {t : Thread (gateway T)} :
    Setting ⟨w, Function.update c.threads j (some t)⟩ key ↔
      (∃ k, t.crashed = false ∧ t.prog = .await (.expire key 60) k) ∨ OtherSets c j key := by
  constructor
  · rintro ⟨i, call, k, hk⟩
    rcases thread_update hk with ⟨rfl, rfl⟩ | ⟨hij, hk⟩
    · exact .inl ⟨k, rfl, rfl⟩
    · exact .inr ⟨i, call, hij, k, hk⟩
  · rintro (⟨k, hcr, hp⟩ | ⟨i, call, hij, k, hk⟩)
    · obtain ⟨call, p, b⟩ := t
      obtain rfl : b = false := hcr
      obtain rfl : p = .await (.expire key 60) k := hp
      exact ⟨j, call, k, Function.update_self ..⟩
    · exact ⟨i, call, k, (Function.update_of_ne hij _ _).trans hk⟩

/-- A thread that is not about to set the expiry of a key leaves it to who is. -/
theorem otherSets_of_setting (h : Setting c key) (hi : ∀ call, ¬ c.Waits i call (.expire key 60)) :
    OtherSets c i key := by
  obtain ⟨j, call, hw⟩ := h
  exact ⟨j, call, fun hj => hi call (hj ▸ hw), hw⟩

end Steps

/-! ## Counters without an expiry -/

/-- A counter without an expiry. -/
def Untimed (s : RateStore T) (key : LuaString) : Prop :=
  ∃ count, s.counter key = some (count, none)

section Untimed

variable {i : Nat} {call : RateCall} {o : RateOp} {w w' : World (gateway T)} {key : LuaString}
  {r : Except LuaErr o.Res}

/-- A counter without an expiry had none before, or has just been created. -/
theorem untimed_exec (hx : (gateway T).Exec i call o w r w') (h : Untimed w'.state key) :
    Untimed w.state key ∨ w.state.counter key = none ∧ o = .incr key := by
  obtain ⟨count, hcount⟩ := h
  obtain ⟨took, -, hnow, hcases⟩ := gateway_exec_cases hx key
  have hredis := (counter_some.mp hcount).1
  rcases hcases with ⟨hincr, hadd⟩ | ⟨-, ⟨seconds, n, gone, -, -, -, hexpire⟩ | hsame⟩
  · have hgone := (Prod.mk.inj (Option.some.inj (hadd.symm.trans hredis))).2
    cases hcounter : w.state.counter key with
    | none => exact .inr ⟨rfl, hincr.2⟩
    | some entry =>
      obtain ⟨n, gone⟩ := entry
      rw [hcounter] at hgone
      obtain rfl : gone = none := hgone
      exact .inl ⟨n, hcounter⟩
  · exact absurd (Prod.mk.inj (Option.some.inj (hexpire.symm.trans hredis))).2 (by simp)
  · exact .inl ⟨count, (counter_of_redis hnow hsame).symm.trans hcount⟩

/-- `INCR` creates a counter without an expiry. -/
theorem untimed_incr {s s' : RateStore T} {r : Except LuaErr Nat}
    (h : RateOp.exec (.incr key) s = some (r, s')) (hnone : s.counter key = none) :
    r = .ok 1 ∧ Untimed s' key := by
  obtain ⟨rfl, rfl⟩ := Prod.mk.inj (Option.some.inj h)
  have hcount : s.count key = 0 := by
    unfold RateStore.count
    rw [hnone]
    rfl
  refine ⟨by rw [hcount], s.count key + 1, counter_some.mpr ⟨?_, by simp⟩⟩
  rw [hnone]
  exact Function.update_self ..

/-- After `EXPIRE` the counter has an expiry, or is not there. -/
theorem not_untimed_expire {s s' : RateStore T} {seconds : Nat} {r : Except LuaErr Bool}
    (h : RateOp.exec (.expire key seconds) s = some (r, s')) : ¬ Untimed s' key := by
  rintro ⟨count, hcount⟩
  simp only [RateOp.exec] at h
  split at h <;> obtain ⟨rfl, rfl⟩ := Prod.mk.inj (Option.some.inj h)
  · rename_i hnone
    exact absurd (hcount.symm.trans hnone) (by simp)
  · have hredis := (counter_some.mp hcount).1.symm.trans (Function.update_self ..)
    exact absurd (Prod.mk.inj (Option.some.inj hredis)).2 (by simp)

end Untimed

/-! ## One step -/

/-- For every counter without an expiry, a request is about to set it. -/
def Pends (c : Config (gateway T)) : Prop :=
  ∀ addr, Untimed c.state (rateKey addr) → Setting c (rateKey addr)

section Step

variable {now : T} {c c' : Config (gateway T)} {e : Event (gateway T)} {i : Nat} {call : RateCall}
  {o : RateOp} {k : Except LuaErr o.Res → Prog RateSig RateReply}

/-- A thread stops without setting an expiry. -/
theorem pends_skip (hp : Pends c) (hi : c.threads i = some ⟨call, .await o k, false⟩)
    (hk : GoesOn call o k) {w : World (gateway T)} (hw : w.state = c.state)
    {t : Thread (gateway T)}
    (ht : ∀ key k', ¬ (t.crashed = false ∧ t.prog = .await (.expire key 60) k')) :
    Pends ⟨w, Function.update c.threads i (some t)⟩ ↔ CanSkip c i := by
  constructor
  · intro hp' call' key seconds hwait
    have ho := waits_unique hi hwait
    obtain ⟨rfl, rfl, -⟩ := hk.expire key seconds ho.symm
    by_cases hu : Untimed c.state (rateKey call.remoteAddr)
    · rcases setting_update.mp (hp' call.remoteAddr (hw ▸ hu)) with ⟨k', h⟩ | h
      · exact absurd h (ht _ k')
      · exact .inr h
    · exact .inl fun count hcount => hu ⟨count, hcount⟩
  · intro hskip addr hu
    have hu : Untimed c.state (rateKey addr) := hw ▸ hu
    refine setting_update.mpr (.inr ?_)
    by_cases hwait : ∃ call', c.Waits i call' (.expire (rateKey addr) 60)
    · obtain ⟨call', hwait⟩ := hwait
      obtain ⟨count, hcount⟩ := hu
      exact (hskip call' _ _ hwait).resolve_left fun h => h count hcount
    · exact otherSets_of_setting (hp addr hu) fun call' hw => hwait ⟨call', hw⟩

/-- Counters that were there before are looked after, when a thread has run another operation. -/
theorem pends_other (hp : Pends c) (hi : c.threads i = some ⟨call, .await o k, false⟩)
    {addr : LuaString} (ho : ∀ seconds, o ≠ .expire (rateKey addr) seconds)
    (hu : Untimed c.state (rateKey addr)) : OtherSets c i (rateKey addr) :=
  otherSets_of_setting (hp addr hu) fun _ hw => ho 60 (waits_unique hi hw).symm

/-- An operation that answered, or whose answer was lost. -/
theorem pends_run (hp : Pends c) (hi : c.threads i = some ⟨call, .await o k, false⟩)
    (hk : GoesOn call o k) {s : RateStore T} {r₀ r : Except LuaErr o.Res} {took : Bool}
    (hx : o.exec c.state = some (r₀, s)) (hr : r = r₀ ∨ ∃ e, r = .error e) :
    Pends ⟨⟨s, ⟨i, call, o, took, c.state⟩ :: c.trace⟩,
        Function.update c.threads i (some ⟨call, k r, false⟩)⟩ ↔
      (r ≠ r₀ → ∀ key, o = .incr key → c.state.counter key ≠ none ∨ OtherSets c i key) := by
  have hexec : (gateway T).Exec i call o c.toWorld r₀ _ :=
    ⟨.ok (), s, r₀.toBool, by simp [Machine.answer, hx], rfl⟩
  constructor
  · rintro hp' hne key rfl
    by_cases hnone : c.state.counter key = none
    · obtain rfl := hk.incr key rfl
      obtain ⟨-, hu⟩ := untimed_incr hx hnone
      rcases setting_update.mp (hp' call.remoteAddr hu) with ⟨k', -, hprog⟩ | h
      · obtain ⟨e, rfl⟩ := hr.resolve_left hne
        obtain ⟨a, hret⟩ := hk.failed e
        exact absurd (hret.symm.trans hprog) (by simp)
      · exact .inr h
    · exact .inl hnone
  · intro hok addr hu
    rcases untimed_exec hexec hu with hold | ⟨hnone, rfl⟩
    · refine setting_update.mpr (.inr (pends_other hp hi (fun seconds ho => ?_) hold))
      subst ho
      exact not_untimed_expire hx hu
    · obtain ⟨rfl, -⟩ := untimed_incr hx hnone
      refine setting_update.mpr ?_
      rcases hr with rfl | ⟨e, rfl⟩
      · obtain ⟨k', hawait⟩ := hk.first _ rfl
        exact .inl ⟨k', rfl, hawait⟩
      · exact .inr ((hok (by simp) _ rfl).resolve_left (not_not.mpr hnone))

/-- **One step**: it leaves nobody without an expiry exactly when it meets `SetsExpiry`. -/
theorem pends_step (hc : (gateway T).Reachable ((gateway T).init (.empty now)) c) (hp : Pends c)
    (hs : (gateway T).step c e = some c') : Pends c' ↔ SetsExpiry c e := by
  rcases Machine.step_cases hs with ⟨i, call, s, rfl, hi, hst, rfl⟩ |
    ⟨i, m, call, o, k, _, _, rfl, hi, -, -⟩ | ⟨i, call, o, k, rfl, hi, rfl⟩ | ⟨v, s, rfl, hv, rfl⟩
  · obtain rfl := Option.some.inj hst
    refine iff_of_true (fun addr hu => setting_update.mpr (.inr ?_)) trivial
    refine otherSets_of_setting (hp addr hu) ?_
    rintro call' ⟨k, hk⟩
    exact absurd (hi.symm.trans hk) (by simp)
  · have hk := goesOn hc hi
    obtain ⟨r, w', ⟨m', s, took, hm, ha, rfl⟩, rfl⟩ := Machine.step_run hs hi
    obtain rfl : m' = m := hm
    cases m' with
    | fail e =>
      obtain ⟨rfl, rfl, rfl⟩ : .error e = r ∧ c.state = s ∧ false = took := by
        simpa [Machine.answer] using ha
      refine pends_skip hp hi hk rfl fun key k' h => ?_
      obtain ⟨a, hret⟩ := hk.failed e
      exact absurd (hret.symm.trans h.2) (by simp)
    | ok ch =>
      obtain ⟨⟨r₀, s₀⟩, hx, he⟩ := Option.map_eq_some_iff.mp ha
      obtain ⟨rfl, rfl, rfl⟩ : r₀ = r ∧ s₀ = s ∧ r₀.toBool = took := by simpa using he
      exact (pends_run hp hi hk hx (.inl rfl)).trans (iff_of_true (fun h => absurd rfl h) trivial)
    | lost ch e =>
      obtain ⟨⟨r₀, s₀⟩, hx, he⟩ := Option.map_eq_some_iff.mp ha
      obtain ⟨rfl, rfl, rfl⟩ : .error e = r ∧ s₀ = s ∧ r₀.toBool = took := by simpa using he
      refine (pends_run hp hi hk hx (.inr ⟨e, rfl⟩)).trans
        ⟨fun h call' key hw => ?_, fun h _ key ho => ?_⟩
      · have ho := waits_unique hi hw
        subst ho
        have hanswer := (Prod.mk.inj (Option.some.inj hx)).1
        exact h (fun hr => absurd (hr.trans hanswer.symm) (by simp)) key rfl
      · subst ho
        exact h call key ⟨k, hi⟩
  · exact pends_skip hp hi (goesOn hc hi) rfl (by simp)
  · refine iff_of_true (fun addr hu => hp addr ?_) trivial
    obtain ⟨count, hcount⟩ := hu
    exact ⟨count, counter_env hv hcount⟩

end Step

/-! ## The clock -/

section Clock

variable [IsStrictOrderedRing T] {now : T} {c c₁ : Config (gateway T)}

/-- No expiry is more than 60 seconds away. -/
theorem expiry_le (hc : (gateway T).Reachable ((gateway T).init (.empty now)) c) {key : LuaString}
    {count : Nat} {t : T} (h : c.state.counter key = some (count, some t)) :
    t ≤ c.state.now + 60 := by
  refine hc.follow (J := fun w : World (gateway T) => ∀ count t,
      w.state.counter key = some (count, some t) → t ≤ w.state.now + 60) (fun count t h => ?_)
    (fun call s s' l hst hJ => ?_) (fun v s s' l hv hJ count t h => ?_)
    (fun {c c' i m call o r} hc _ hw _ hx hJ count t h => ?_) count t h
  · exact absurd (counter_some.mp h).1 (by simp [Machine.init, RateStore.empty])
  · obtain rfl := Option.some.inj hst
    exact hJ
  · have hnow := (gateway_env_cases hv key).1
    exact (hJ count t (counter_env hv h)).trans (by gcongr)
  · obtain ⟨k, hi⟩ := hw
    obtain ⟨took, -, hnow, hcases⟩ := gateway_exec_cases hx key
    have hredis := (counter_some.mp h).1
    rw [hnow]
    rcases hcases with ⟨-, hadd⟩ | ⟨-, ⟨seconds, n, gone, -, rfl, -, hexpire⟩ | hsame⟩
    · have hgone := (Prod.mk.inj (Option.some.inj (hadd.symm.trans hredis))).2
      obtain ⟨⟨n, gone⟩, hcounter, rfl⟩ := Option.bind_eq_some_iff.mp hgone
      exact hJ n t hcounter
    · obtain ⟨-, rfl, -⟩ := (goesOn hc hi).expire key seconds rfl
      have ht := (Prod.mk.inj (Option.some.inj (hexpire.symm.trans hredis))).2
      obtain rfl := Option.some.inj ht
      rw [Nat.cast_ofNat]
    · exact hJ count t ((counter_of_redis hnow hsame).symm.trans h)

/-- What is left to see to: the counters without an expiry. -/
theorem expires_iff (hc : (gateway T).Reachable ((gateway T).init (.empty now)) c) :
    Expires c ↔ Pends c := by
  constructor
  · rintro h addr ⟨count, hcount⟩
    exact (h addr count none hcount).resolve_left (by simp)
  · intro h addr count gone hcount
    cases gone with
    | none => exact .inr (h addr ⟨count, hcount⟩)
    | some t => exact .inl ⟨t, rfl, expiry_le hc hcount⟩

end Clock

/-! ## After a silence -/

section Silence

variable {now : T} {c c₁ c₂ : Config (gateway T)} {addr : LuaString} {key : LuaString}

theorem rateKey_inj {addr' : LuaString} (h : rateKey addr = rateKey addr') : addr = addr' :=
  List.append_cancel_left h

/-- While an address is silent, its counter stays or goes. -/
theorem silent_counter (hc : (gateway T).Reachable ((gateway T).init (.empty now)) c)
    (hsilent : Silent c addr) (h : (gateway T).Reach (fun _ e => Spares addr e) c c₁) :
    Silent c₁ addr ∧ ∀ entry, c₁.state.counter (rateKey addr) = some entry →
      c.state.counter (rateKey addr) = some entry := by
  induction h with
  | init => exact ⟨hsilent, fun _ => id⟩
  | @step c₁ c₂ e h he hs ih =>
    obtain ⟨hsil, hkeep⟩ := ih
    have hc₁ : (gateway T).Reachable _ c₁ := hc.trans (h.mono fun _ _ _ => trivial)
    have hupdate : ∀ {j call p b} {w : World (gateway T)}, call.remoteAddr ≠ addr →
        Silent ⟨w, Function.update c₁.threads j (some ⟨call, p, b⟩)⟩ addr := by
      rintro j call p b w hcall i call' o ⟨k, hk⟩
      rcases thread_update hk with ⟨rfl, ht⟩ | ⟨-, hk⟩
      · obtain ⟨rfl, -⟩ := Thread.mk.inj ht
        exact hcall
      · exact hsil i call' o ⟨k, hk⟩
    rcases Machine.step_cases hs with ⟨i, call, s, rfl, hi, hst, rfl⟩ |
      ⟨i, m, call, o, k, r, w', rfl, hi, hx, rfl⟩ | ⟨i, call, o, k, rfl, hi, rfl⟩ |
      ⟨v, s, rfl, hv, rfl⟩
    · obtain rfl := Option.some.inj hst
      exact ⟨hupdate he, hkeep⟩
    · have hcall := hsil i call o ⟨k, hi⟩
      refine ⟨hupdate hcall, fun entry hentry => hkeep entry ?_⟩
      have hk := goesOn hc₁ hi
      obtain ⟨took, -, hnow, hcases⟩ := gateway_exec_cases hx (rateKey addr)
      rcases hcases with ⟨⟨-, rfl⟩, -⟩ | ⟨-, ⟨seconds, n, gone, -, rfl, -, -⟩ | hsame⟩
      · exact absurd (rateKey_inj (hk.incr _ rfl)).symm hcall
      · exact absurd (rateKey_inj (hk.expire _ _ rfl).1).symm hcall
      · exact (counter_of_redis hnow hsame).symm.trans hentry
    · exact ⟨hupdate (hsil i call o ⟨k, hi⟩), hkeep⟩
    · exact ⟨hsil, fun entry hentry => hkeep entry (counter_env hv hentry)⟩

/-- After 60 seconds of silence the counter is gone. -/
theorem counter_gone [IsStrictOrderedRing T]
    (hc : (gateway T).Reachable ((gateway T).init (.empty now)) c) (hp : Pends c)
    (hsilent : Silent c addr) (h : (gateway T).Reach (fun _ e => Spares addr e) c c₁)
    (hnow : c.state.now + 60 ≤ c₁.state.now) : c₁.state.counter (rateKey addr) = none := by
  obtain ⟨-, hkeep⟩ := silent_counter hc hsilent h
  refine Option.eq_none_iff_forall_ne_some.mpr fun ⟨count, gone⟩ hcount => ?_
  have hold := hkeep _ hcount
  cases gone with
  | none =>
    obtain ⟨i, call, k, hi⟩ := hp addr ⟨count, hold⟩
    have haddr := rateKey_inj ((goesOn hc hi).expire _ _ rfl).1
    exact hsilent i call _ ⟨k, hi⟩ haddr.symm
  | some t =>
    have hlt := (counter_some.mp hcount).2 t rfl
    exact absurd (hlt.trans_le ((expiry_le hc hold).trans hnow)) (lt_irrefl _)

theorem counted_cons {x : Entry (gateway T)} {l : List (Entry (gateway T))} :
    counted key (x :: l) = if Counts key x then counted key l + 1 else counted key l := by
  unfold counted
  by_cases hx : Counts key x
  · rw [List.filter_cons_of_pos (by simpa using hx), if_pos hx, List.length_cons]
  · rw [List.filter_cons_of_neg (by simpa using hx), if_neg hx]

theorem counted_mono {l l' : List (Entry (gateway T))} (h : l <:+ l') :
    counted key l ≤ counted key l' := (h.sublist.filter _).length_le

/-- A counter that was gone counts the requests since. -/
structure CountsSince (key : LuaString) (w₁ w : World (gateway T)) : Prop where
  past : w₁.trace <:+ w.trace
  counter : ∀ count gone, w.state.counter key = some (count, gone) →
    count + counted key w₁.trace ≤ counted key w.trace
  each : ∀ x l, (x :: l) <:+ w.trace → w₁.trace <:+ l → Counts key x →
    x.before.count key + 1 + counted key w₁.trace ≤ counted key (x :: l)

theorem CountsSince.count {w₁ w : World (gateway T)} (h : CountsSince key w₁ w) :
    w.state.count key + counted key w₁.trace ≤ counted key w.trace := by
  cases hcounter : w.state.counter key with
  | none =>
    unfold RateStore.count
    rw [hcounter]
    simpa using counted_mono h.past
  | some entry =>
    obtain ⟨count, gone⟩ := entry
    rw [count_some hcounter]
    exact h.counter count gone hcounter

theorem CountsSince.exec {w₁ w w' : World (gateway T)} (h : CountsSince key w₁ w) {i : Nat}
    {call : RateCall} {o : RateOp} {r : Except LuaErr o.Res}
    (hx : (gateway T).Exec i call o w r w') : CountsSince key w₁ w' := by
  obtain ⟨took, htr, hnow, hcases⟩ := gateway_exec_cases hx key
  have hcount := h.count
  constructor
  · exact h.past.trans (htr ▸ List.suffix_cons _ _)
  · intro count gone hcounter
    have hredis := (counter_some.mp hcounter).1
    rw [htr, counted_cons]
    rcases hcases with ⟨hincr, hadd⟩ | ⟨hnot, ⟨seconds, n, gone', -, -, hold, hexpire⟩ | hsame⟩
    · have hn := (Prod.mk.inj (Option.some.inj (hadd.symm.trans hredis))).1
      rw [if_pos hincr]
      omega
    · have hn := (Prod.mk.inj (Option.some.inj (hexpire.symm.trans hredis))).1
      rw [if_neg hnot]
      exact hn ▸ h.counter n gone' hold
    · rw [if_neg hnot]
      exact h.counter count gone ((counter_of_redis hnow hsame).symm.trans hcounter)
  · intro x l hl hpast hcounts
    rcases List.suffix_cons_iff.mp (htr ▸ hl) with heq | hl
    · obtain ⟨rfl, rfl⟩ := List.cons.inj heq
      rw [counted_cons, if_pos hcounts]
      show w.state.count key + 1 + _ ≤ _
      omega
    · exact h.each x l hl hpast hcounts

/-- **A counter that was gone counts the requests since**, in every run from there. -/
theorem countsSince (hgone : c₁.state.counter key = none) (h : (gateway T).Reachable c₁ c₂) :
    CountsSince key c₁.toWorld c₂.toWorld := by
  refine h.follow (J := CountsSince key c₁.toWorld) ?_ (fun call s s' l hst hJ => ?_)
    (fun v s s' l hv hJ => ?_) fun _ _ _ _ hx hJ => hJ.exec hx
  · refine ⟨List.suffix_rfl, fun count gone hcount => ?_, fun x l hl hpast => ?_⟩
    · exact absurd (hgone.symm.trans hcount) (by simp)
    · have hlen : l.length + 1 ≤ l.length := (hl.trans hpast).length_le
      omega
  · obtain rfl := Option.some.inj hst
    exact hJ
  · exact ⟨hJ.past, fun count gone hcount => hJ.counter count gone (counter_env hv hcount), hJ.each⟩

end Silence

/-! ## Every run -/

section Runs

variable [IsStrictOrderedRing T] {now : T} {c : Config (gateway T)}

/-- Where every counter is looked after, a lockout ends. -/
theorem lockoutEnds_of_pends (hc : (gateway T).Reachable ((gateway T).init (.empty now)) c)
    (hp : Pends c) : LockoutEnds c := by
  refine ⟨(expires_iff hc).mpr hp, ?_⟩
  rintro addr c₁ c₂ hsilent h₁ hnow h₂ i call reply rfl hnone hret hreply
  have hc₁ : (gateway T).Reachable _ c₁ := hc.trans (h₁.mono fun _ _ _ => trivial)
  have hsince := countsSince (counter_gone hc hp hsilent h₁ hnow) h₂
  obtain ⟨x, l, hl, rfl, hx, hlt⟩ := rejected_count (hc₁.trans h₂) hret hreply
  -- the request came after the silence
  have hnew : x ∉ c₁.trace := by
    intro hx
    obtain ⟨p, b, hthread⟩ := Machine.entry_started hc₁ x hx
    exact absurd (hnone.symm.trans hthread) (by simp)
  have hpast : c₁.trace <:+ l := by
    rcases List.suffix_or_suffix_of_suffix hl hsince.past with h | h
    · exact absurd (h.subset List.mem_cons_self) hnew
    · rcases List.suffix_cons_iff.mp h with heq | h
      · exact absurd (heq ▸ List.mem_cons_self) hnew
      · exact h
  have heach := hsince.each x l hl hpast hx
  have hmono : counted (rateKey call.remoteAddr) (x :: l) ≤
      counted (rateKey call.remoteAddr) c₂.trace := counted_mono hl
  omega

/-- **A lockout ends throughout a run exactly when every created counter gets its expiry.** -/
theorem lockout_ends_iff {es : List (Event (gateway T))}
    (hr : (gateway T).replay ((gateway T).init (.empty now)) es = some c) :
    (∀ es' c', es' <+: es → (gateway T).replay ((gateway T).init (.empty now)) es' = some c' →
      LockoutEnds c') ↔ (gateway T).Meets SetsExpiry ((gateway T).init (.empty now)) es := by
  have h0 : Pends ((gateway T).init (RateStore.empty now)) := by
    rintro addr ⟨count, hcount⟩
    exact absurd (counter_some.mp hcount).1 (by simp [Machine.init, RateStore.empty])
  rw [← Machine.throughout_iff (P := Pends) pends_step .init h0 hr]
  refine forall_congr' fun es' => forall_congr' fun c' => imp_congr_right fun _ => ?_
  refine forall_congr' fun hr' => ?_
  have hc' := Machine.Reach.of_replay .init hr'
  exact ⟨fun h => (expires_iff hc').mp h.expires, lockoutEnds_of_pends hc'⟩

end Runs

/-- No operation fails or loses its answer, and no request crashes. -/
def smooth : Event (gateway T) → Bool
  | .run _ (.ok _) => true
  | .run _ _ => false
  | .crash _ => false
  | _ => true

theorem setsExpiry_of_smooth {e : Event (gateway T)} (h : smooth e = true)
    (c : Config (gateway T)) : SetsExpiry c e := by
  cases e with
  | spawn | env => trivial
  | crash i => exact absurd h (by simp [smooth])
  | run i m =>
    cases m with
    | ok ch => trivial
    | fail | lost => exact absurd h (by simp [smooth])

/-! ## Small runs -/

/-- Six logins, of which the first does not set the expiry. A day later there is a seventh. -/
def lockedOut : List (Event (gateway ℤ)) :=
  [.spawn 0 ⟨.auth, lua "10.0.0.7"⟩, .run 0 (.ok ()), .run 0 (.ok ()),
    .run 0 (.fail (.failed "timeout"))] ++
  ([1, 2, 3, 4, 5].flatMap fun i =>
    [.spawn i ⟨.auth, lua "10.0.0.7"⟩, .run i (.ok ()), .run i (.ok ())]) ++
  [.env (.tick 86400), .spawn 6 ⟨.auth, lua "10.0.0.7"⟩, .run 6 (.ok ()), .run 6 (.ok ())]

/-- The seventh login is rejected, and nobody will set the expiry. -/
theorem lockout_never_ends : ∃ c, (gateway ℤ).Reachable ((gateway ℤ).init (.empty 0)) c ∧
    c.state.now = 86400 ∧ c.result? 6 = some (⟨.auth, lua "10.0.0.7"⟩, tooMany) ∧
    ¬ LockoutEnds c := by
  obtain ⟨c, hr, hp⟩ := Machine.exists_of_replay (fun c : Config (gateway ℤ) =>
    c.state.now = 86400 ∧ c.result? 6 = some (⟨.auth, lua "10.0.0.7"⟩, tooMany) ∧
      c.state.counter (rateKey (lua "10.0.0.7")) = some (7, none) ∧
      ∀ i ∈ lockedOut.filterMap Event.spawns?, c.waiting i = none)
    (show ((gateway ℤ).replay ((gateway ℤ).init (.empty 0)) lockedOut).any _ = true by
      decide +kernel)
  obtain ⟨hnow, h6, hcounter, hquiet⟩ := of_decide_eq_true hp
  refine ⟨c, .of_replay .init hr, hnow, h6, fun h => ?_⟩
  rcases h.expires _ _ _ hcounter with ⟨t, ht, -⟩ | ⟨i, call, hw⟩
  · exact absurd ht (by simp)
  · exact Machine.quiet_of_replay hr hquiet i call _ hw

/-- Six logins in a minute, and two minutes of silence. -/
def sixLogins : List (Event (gateway ℤ)) :=
  requests (lua "10.0.0.7") .auth (List.replicate 5 .auth) ++ [.env (.tick 120)]

/-- The sixth login is rejected, and the lockout ends. -/
theorem lockout_ends_again : ∃ c,
    (gateway ℤ).replay ((gateway ℤ).init (.empty 0)) sixLogins = some c ∧
    c.result? 5 = some (⟨.auth, lua "10.0.0.7"⟩, tooMany) ∧ LockoutEnds c := by
  obtain ⟨c, hr, hp⟩ := Machine.exists_of_replay (fun c : Config (gateway ℤ) =>
    c.result? 5 = some (⟨.auth, lua "10.0.0.7"⟩, tooMany))
    (show ((gateway ℤ).replay ((gateway ℤ).init (.empty 0)) sixLogins).any _ = true by
      decide +kernel)
  have hsmooth : sixLogins.all smooth = true := by decide
  refine ⟨c, hr, of_decide_eq_true hp, ?_⟩
  refine (lockout_ends_iff hr).mpr ?_ sixLogins c List.prefix_rfl hr
  exact Machine.meets_of_forall (fun e he => setsExpiry_of_smooth
    (List.all_eq_true.mp hsmooth e he)) _

end RateLimit

end BoltBet
