import BoltBet.Async.Alone

/-!
# Histories: calls that run alone, one after the other

`M.Serial ok P s₀ l s`: the calls of `l` ran, each from its start to its end before the next one
started, and between them the surroundings stepped; it began in `s₀` and left `s`. Every operation
ended as `ok` says, and every call, with the history before it and the states around it, meets `P`.

* `Serial.keeps`: what each call and each step of the surroundings keeps, holds after any history.
* `Serial.reach`: a history is a run of the pool in which the `n`-th call is thread `n`.
* `Completes Q`: a run that was not cut short ends in `Q`; with a rule for each way to build a
  program.
-/

namespace Async

variable {ε : Type} {S : Sig ε}

/-- The calls that ran and how each of them ended, the last one first. -/
abbrev Machine.History (M : Machine S) := List (M.Call × Except ε M.Out)

/-- Calls one after the other: see the head of the file. -/
inductive Machine.Serial (M : Machine S) (ok : Mode M.Choice ε → Prop)
    (P : M.History → M.State → M.Call → Except ε M.Out → M.State → Prop) (s₀ : M.State) :
    M.History → M.State → Prop
  | init : Machine.Serial M ok P s₀ [] s₀
  | env {l : M.History} {s s' : M.State} {v : M.Env} (h : Machine.Serial M ok P s₀ l s)
      (hv : M.env v s = some s') : Machine.Serial M ok P s₀ l s'
  | call {l : M.History} {s s₁ s' : M.State} {call : M.Call} {r : Except ε M.Out}
      {ms : List (Mode M.Choice ε)} (h : Machine.Serial M ok P s₀ l s)
      (hstart : M.start call s = some s₁) (hms : ∀ m ∈ ms, ok m)
      (hrun : M.Runs l.length (M.body call) s₁ ms (some r) s') (hP : P l s call r s') :
      Machine.Serial M ok P s₀ ((call, r) :: l) s'

variable {M : Machine S} {ok : Mode M.Choice ε → Prop}
  {P : M.History → M.State → M.Call → Except ε M.Out → M.State → Prop} {s₀ s : M.State}
  {l : M.History}

/-- **The induction over a history.** -/
theorem Machine.Serial.keeps {J : M.History → M.State → Prop} (h : M.Serial ok P s₀ l s)
    (hinit : J [] s₀)
    (henv : ∀ l s v s', J l s → M.env v s = some s' → J l s')
    (hcall : ∀ l s s₁ s' call r, M.Serial ok P s₀ l s → J l s → M.start call s = some s₁ →
      (∃ ms, (∀ m ∈ ms, ok m) ∧ M.Runs l.length (M.body call) s₁ ms (some r) s') →
      P l s call r s' → J ((call, r) :: l) s') : J l s := by
  induction h with
  | init => exact hinit
  | env _ hv ih => exact henv _ _ _ _ ih hv
  | call h hstart hms hrun hP ih => exact hcall _ _ _ _ _ _ h ih hstart ⟨_, hms, hrun⟩ hP

/-- The whole run of a program, by thread `i` of a pool. -/
theorem Machine.Runs.reach_thread {i : Nat} {s s' : M.State} {ms : List (Mode M.Choice ε)}
    {x : Option (Except ε M.Out)} {c₀ c : Config M} {p : Prog S M.Out} (call : M.Call)
    (h : M.Runs i p s ms x s') (hc : M.Reachable c₀ c) (hs : c.state = s)
    (hi : c.threads i = some ⟨call, p, false⟩) :
    ∃ c' p', M.Reachable c₀ c' ∧ c'.state = s' ∧ c'.threads i = some ⟨call, p', false⟩ ∧
      p'.outcome = x ∧ ∀ j, j ≠ i → c'.threads j = c.threads j := by
  induction h generalizing c with
  | ret a s | throw e s | stop o k s => exact ⟨c, _, hc, hs, hi, rfl, fun _ _ => rfl⟩
  | @await o k s s₁ s' m ms r took x ha _ ih =>
    subst hs
    have hstep : M.step c (.run i m) = some ⟨⟨s₁, ⟨i, call, o, took, c.state⟩ :: c.trace⟩,
        Function.update c.threads i (some ⟨call, k r, false⟩)⟩ := by
      simp only [step, hi, ha, Option.map_some]
    obtain ⟨c', p', hc', hs', hi', hx, hothers⟩ :=
      ih (.step _ hc trivial hstep) rfl (Function.update_self ..)
    exact ⟨c', p', hc', hs', hi', hx, fun j hj =>
      (hothers j hj).trans (Function.update_of_ne hj ..)⟩

/-- **A history is a run of the pool.** In the end no call is under way, and thread `n` has run the
`n`-th call. -/
theorem Machine.Serial.reach (h : M.Serial ok P s₀ l s) :
    ∃ c, M.Reachable (M.init s₀) c ∧ c.state = s ∧
      (∀ i, l.length ≤ i → c.threads i = none) ∧
      ∀ i x, l.reverse[i]? = some x → c.Ended i x.1 x.2 := by
  induction h with
  | init => exact ⟨_, .init, rfl, fun _ _ => rfl, fun i x hx => absurd hx (by simp)⟩
  | @env l s s' v _ hv ih =>
    obtain ⟨c, hc, rfl, hnone, hends⟩ := ih
    refine ⟨⟨⟨s', c.trace⟩, c.threads⟩, .step (.env v) hc trivial ?_, rfl, hnone, hends⟩
    simp only [step, hv, Option.map_some]
  | @call l s s₁ s' call r ms _ hstart _ hrun _ ih =>
    obtain ⟨c, hc, rfl, hnone, hends⟩ := ih
    have hspawn : M.step c (.spawn l.length call) = some ⟨⟨s₁, c.trace⟩,
        Function.update c.threads l.length (some ⟨call, M.body call, false⟩)⟩ := by
      simp only [step, hnone _ le_rfl, hstart, Option.map_some]
    obtain ⟨c', p', hc', hs', hi', hx, hothers⟩ := hrun.reach_thread call
      (.step _ hc trivial hspawn) rfl (Function.update_self ..)
    have hother : ∀ j, j ≠ l.length → c'.threads j = c.threads j := fun j hj =>
      (hothers j hj).trans (Function.update_of_ne hj ..)
    refine ⟨c', hc', hs', fun i hi => ?_, fun i x hi => ?_⟩
    · rw [List.length_cons] at hi
      rw [hother i (by omega)]
      exact hnone i (by omega)
    · rw [List.reverse_cons] at hi
      by_cases hlast : i = l.length
      · subst hlast
        rw [List.getElem?_append_right (by simp)] at hi
        obtain rfl : (call, r) = x := by simpa using hi
        exact ⟨p', hi', hx⟩
      · have hlt : i < l.length := by
          obtain ⟨hlt, -⟩ := List.getElem?_eq_some_iff.mp hi
          simp at hlt
          omega
        rw [List.getElem?_append_left (by simpa using hlt)] at hi
        obtain ⟨p, hp, ho⟩ := hends i x hi
        exact ⟨p, (hother i hlast).trans hp, ho⟩

/-! ## Complete runs -/

section Completes

variable {α β : Type} {i : Nat}

/-- The outcome of a run that was not cut short. -/
def Completes {σ : Type} (Q : Except ε α → σ → Prop) (x : Option (Except ε α)) (s : σ) : Prop :=
  ∀ r, x = some r → Q r s

theorem completes_none {σ : Type} {Q : Except ε α → σ → Prop} {s : σ} : Completes Q none s :=
  fun _ h => absurd h (by simp)

theorem completes_some {σ : Type} {Q : Except ε α → σ → Prop} {r : Except ε α} {s : σ} :
    Completes Q (some r) s ↔ Q r s :=
  ⟨fun h => h r rfl, fun h _ hr => Option.some.inj hr ▸ h⟩

theorem Machine.completes_ret {Q : Except ε α → M.State → Prop} {a : α} (h : Q (.ok a) s) :
    M.Always i ok (Completes Q) (.ret a) s := always_ret (completes_some.mpr h)

theorem Machine.completes_throw {Q : Except ε α → M.State → Prop} {e : ε} (h : Q (.error e) s) :
    M.Always i ok (Completes Q) (.throw e : Prog S α) s := always_throw (completes_some.mpr h)

theorem Machine.completes_bind {Q : Except ε α → M.State → Prop} {Q' : Except ε β → M.State → Prop}
    {p : Prog S α} {f : α → Prog S β} (hp : M.Always i ok (Completes Q) p s)
    (hok : ∀ a s', Q (.ok a) s' → M.Always i ok (Completes Q') (f a) s')
    (herr : ∀ e s', Q (.error e) s' → Q' (.error e) s') :
    M.Always i ok (Completes Q') (p >>= f) s :=
  always_seq hp (fun a s' h => hok a s' (completes_some.mp h))
    (fun e s' h => completes_some.mpr (herr e s' (completes_some.mp h))) fun _ _ => completes_none

theorem Machine.completes_try {Q Q' : Except ε α → M.State → Prop} {p : Prog S α}
    {h : ε → Prog S α} (hp : M.Always i ok (Completes Q) p s)
    (hok : ∀ a s', Q (.ok a) s' → Q' (.ok a) s')
    (herr : ∀ e s', Q (.error e) s' → M.Always i ok (Completes Q') (h e) s') :
    M.Always i ok (Completes Q') (p.tryCatch h) s :=
  always_try hp (fun a s' h => completes_some.mpr (hok a s' (completes_some.mp h)))
    (fun e s' h => herr e s' (completes_some.mp h)) fun _ _ => completes_none

theorem Machine.completes_map {Q : Except ε β → M.State → Prop} {p : Prog S α} {f : α → β}
    (hp : M.Always i ok (Completes fun r => Q (r.map f)) p s) :
    M.Always i ok (Completes Q) (f <$> p) s := by
  refine always_map (hp.mono fun x s' h => ?_)
  cases x with
  | none => exact completes_none
  | some r =>
    have hr : Q (r.map f) s' := h r rfl
    exact completes_some.mpr hr

end Completes

end Async
