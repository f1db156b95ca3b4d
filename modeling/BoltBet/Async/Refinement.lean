import BoltBet.Async.Rely

/-!
# Operations that are programs themselves

An `Impl` of a machine `M` carries out each operation of `M` as a program of its own, statement by
statement, on its own state. Other threads run in between, and any statement may fail.

* `Carries`: the rest of an operation does one of two things. It takes effect in one statement,
  as `M` says, and what it returns is what `M` answers there; or it has no effect and throws.
* `carries_bind`, `carries_tryCatch`, `carries_perform`: how an operation is made of statements.
* **`Impl.refines`**: every run of the implementation comes to what a run of `M` comes to: the same
  state, and each call that ended has ended alike.

An operation that throws after it took effect is one whose answer got lost. Which error it will
throw is still open when it takes effect, so a configuration stands for a family of configurations
of `M`: one for each way in which the operations under way may end.
-/

namespace Async

variable {ε : Type} {S T : Sig ε} {M : Machine S} {α β : Type}

/-- An implementation of `M` over the signature `T`. -/
structure Impl (M : Machine S) (T : Sig ε) where
  State : Type
  Choice : Type
  Env : Type
  /-- The state of `M` that a state stands for. -/
  abs : State → M.State
  program : (o : S.Op) → Prog T (S.Res o)
  start : M.Call → State → Option State
  exec : Nat → Choice → (o : T.Op) → State → Option (Except ε (T.Res o) × State)
  env : Env → State → Option State
  /-- No operation is answered without a statement. -/
  awaits : ∀ o, ∃ o' k, program o = .await o' k
  start_abs : ∀ {call t t'}, start call t = some t' → M.start call (abs t) = some (abs t')
  /-- The surroundings do what those of `M` can do, or nothing that shows. -/
  env_abs : ∀ {v t t'}, env v t = some t' →
    abs t' = abs t ∨ ∃ v', M.env v' (abs t) = some (abs t')

/-- How far an operation has come: it has not taken effect, or it has, with this answer. -/
abbrev Phase (S : Sig ε) (o : S.Op) := Option (Except ε (S.Res o))

/-- What a statement does to the operation `o` of thread `i`: nothing, or all of it. -/
inductive Moves (M : Machine S) (i : Nat) (o : S.Op) (s : M.State) :
    Phase S o → Phase S o → M.State → Prop
  | stay (ph : Phase S o) : Moves M i o s ph ph s
  | effect {ch : M.Choice} {r : Except ε (S.Res o)} {s' : M.State}
      (h : M.exec i ch o s = some (r, s')) : Moves M i o s none (some r) s'

/-- An operation may end so: with its answer or an error, and with an error only when it had no
effect. -/
def Phase.Ends {o : S.Op} : Phase S o → Except ε (S.Res o) → Prop
  | none, r => ∃ e, r = .error e
  | some r, r' => r' = r ∨ ∃ e, r' = .error e

namespace Impl

variable (I : Impl M T)

/-- The implementation as a machine. -/
abbrev machine : Machine T where
  Call := M.Call
  Out := M.Out
  State := I.State
  Choice := I.Choice
  Env := I.Env
  body call := (M.body call).expand I.program
  start := I.start
  exec := I.exec
  env := I.env

/-- Thread `i` may run the rest of the operation `o`: see the head of the file. -/
def Carries (D : Rules I.machine) (i : Nat) (call : M.Call) (o : S.Op)
    (Q : Phase S o → Except ε α → World I.machine → Prop) :
    Prog T α → Phase S o → World I.machine → Prop
  | .ret a, ph, w => Q ph (.ok a) w
  | .throw e, ph, w => Q ph (.error e) w
  | .await o' k, ph, w => ∀ w₁, D.rely i call o' w w₁ → D.inv w₁ →
      ∀ r w₂, D.cond i call o' w₁ r w₂ → I.machine.ExecIn D.modes i call o' w₁ r w₂ →
        D.inv w₂ ∧ D.guar i call o' w₁ w₂ ∧
        ∃ ph', Moves M i o (I.abs w₁.state) ph ph' (I.abs w₂.state) ∧
          Carries D i call o Q (k r) ph' w₂

/-- The whole operation `o`. -/
def CarriesOut (D : Rules I.machine) (i : Nat) (call : M.Call) (o : S.Op)
    (w : World I.machine) : Prop :=
  I.Carries D i call o (fun ph r _ => ph.Ends r) (I.program o) none w

variable {I} {D : Rules I.machine} {i : Nat} {call : M.Call} {o : S.Op}

/-! ## The rules -/

/-- The rest of an operation stays so while others interfere. -/
theorem Carries.rely {Q : Phase S o → Except ε α → World I.machine → Prop} {o' : T.Op}
    {k : Except ε (T.Res o') → Prog T α} {ph : Phase S o} {w w' : World I.machine}
    (h : I.Carries D i call o Q (.await o' k) ph w) (hrel : D.rely i call o' w w') :
    I.Carries D i call o Q (.await o' k) ph w' := fun w₁ hrel' => h w₁ (D.rely_trans hrel hrel')

/-- What carries out an operation is safe. -/
theorem Carries.safe {Q : Phase S o → Except ε α → World I.machine → Prop} {p : Prog T α}
    {ph : Phase S o} {w : World I.machine} (h : I.Carries D i call o Q p ph w) :
    D.Safe i call (fun _ _ => True) p w := by
  induction p generalizing ph w with
  | ret a => trivial
  | throw e => trivial
  | await o' k ih =>
    intro w₁ hrel hinv r w₂ hcond hx
    obtain ⟨hi, hg, ph', -, hs⟩ := h w₁ hrel hinv r w₂ hcond hx
    exact ⟨hi, hg, ih r hs⟩

/-- Run `p`, then `f` on what it returns. -/
theorem carries_bind {p : Prog T α} {f : α → Prog T β}
    {Q : Phase S o → Except ε α → World I.machine → Prop}
    {Q' : Phase S o → Except ε β → World I.machine → Prop} {ph : Phase S o}
    {w : World I.machine} (hp : I.Carries D i call o Q p ph w)
    (hok : ∀ ph a w', Q ph (.ok a) w' → I.Carries D i call o Q' (f a) ph w')
    (herr : ∀ ph e w', Q ph (.error e) w' → Q' ph (.error e) w') :
    I.Carries D i call o Q' (p >>= f) ph w := by
  induction p generalizing ph w with
  | ret a => exact hok _ a _ hp
  | throw e => exact herr _ e _ hp
  | await o' k ih =>
    intro w₁ hrel hinv r w₂ hcond hx
    obtain ⟨hi, hg, ph', hm, hs⟩ := hp w₁ hrel hinv r w₂ hcond hx
    exact ⟨hi, hg, ph', hm, ih r hs⟩

/-- Run `p`, and `h` on what it throws. -/
theorem carries_tryCatch {p : Prog T α} {h : ε → Prog T α}
    {Q Q' : Phase S o → Except ε α → World I.machine → Prop} {ph : Phase S o}
    {w : World I.machine} (hp : I.Carries D i call o Q p ph w)
    (hok : ∀ ph a w', Q ph (.ok a) w' → Q' ph (.ok a) w')
    (herr : ∀ ph e w', Q ph (.error e) w' → I.Carries D i call o Q' (h e) ph w') :
    I.Carries D i call o Q' (p.tryCatch h) ph w := by
  induction p generalizing ph w with
  | ret a => exact hok _ a _ hp
  | throw e => exact herr _ e _ hp
  | await o' k ih =>
    intro w₁ hrel hinv r w₂ hcond hx
    obtain ⟨hi, hg, ph', hm, hs⟩ := hp w₁ hrel hinv r w₂ hcond hx
    exact ⟨hi, hg, ph', hm, ih r hs⟩

/-- One statement. -/
theorem carries_perform {o' : T.Op} {Q : Phase S o → Except ε (T.Res o') → World I.machine → Prop}
    {ph : Phase S o} {w : World I.machine}
    (h : ∀ w₁, D.rely i call o' w w₁ → D.inv w₁ →
      ∀ r w₂, D.cond i call o' w₁ r w₂ → I.machine.ExecIn D.modes i call o' w₁ r w₂ →
        D.inv w₂ ∧ D.guar i call o' w₁ w₂ ∧
        ∃ ph', Moves M i o (I.abs w₁.state) ph ph' (I.abs w₂.state) ∧ Q ph' r w₂) :
    I.Carries D i call o Q (Prog.perform o') ph w := by
  intro w₁ hrel hinv r w₂ hcond hx
  obtain ⟨hi, hg, ph', hm, hq⟩ := h w₁ hrel hinv r w₂ hcond hx
  refine ⟨hi, hg, ph', hm, ?_⟩
  cases r <;> exact hq

/-! ## The simulation -/

/-- What is left of a call after its operation `o` has come to this phase and will throw as `f`
says, if it does. -/
def reached (o : S.Op) (k : Except ε (S.Res o) → Prog S α) (f : Option ε) :
    Phase S o → Prog S α
  | none => .await o k
  | some r => k (f.elim r .error)

/-- What is left of a call, here and in `M`, however the operation under way will end. -/
def Shape (I : Impl M T) (D : Rules I.machine) (i : Nat) (call : M.Call) (w : World I.machine)
    (p' : Prog T M.Out) (p : Option ε → Prog S M.Out) : Prop :=
  (∃ a, p' = .ret a ∧ p = fun _ => .ret a) ∨ (∃ e, p' = .throw e ∧ p = fun _ => .throw e) ∨
  ∃ o k o' k' ph, I.Carries D i call o (fun ph r _ => ph.Ends r) (.await o' k') ph w ∧
    (p' = .await o' fun r => (k' r).attempt >>= fun r => (k r).expand I.program) ∧
    p = fun f => reached o k f ph

/-- A thread, here and in `M`. A crashed one does not wait in `M` either. -/
def Stands (I : Impl M T) (D : Rules I.machine) (i : Nat) (w : World I.machine) :
    Option (Thread I.machine) → (Option ε → Option (Thread M)) → Prop
  | none, g => g = fun _ => none
  | some ⟨call, p', false⟩, g => ∃ p, (g = fun f => some ⟨call, p f, false⟩) ∧
      I.Shape D i call w p' p
  | some ⟨call, _, true⟩, g => ∀ f, ∃ p crashed, g f = some ⟨call, p, crashed⟩ ∧
      (crashed = false → p.pending = none)

/-- `c` stands for a configuration of `M` for each way in which the operations under way end. -/
def Simulates (I : Impl M T) (D : Rules I.machine) (a₀ : Config M) (c : Config I.machine) : Prop :=
  ∃ g : Nat → Option ε → Option (Thread M), (∀ i, I.Stands D i c.toWorld (c.threads i) (g i)) ∧
    ∀ fut : Nat → Option ε, ∃ a, M.Reachable a₀ a ∧ a.state = I.abs c.state ∧
      a.threads = fun i => g i (fut i)

theorem Shape.rely {w w' : World I.machine} {p' : Prog T M.Out} {p : Option ε → Prog S M.Out}
    (h : I.Shape D i call w p' p) (hrel : ∀ o' k', p' = .await o' k' → D.rely i call o' w w') :
    I.Shape D i call w' p' p := by
  rcases h with h | h | ⟨o, k, o', k', ph, hc, rfl, rfl⟩
  · exact .inl h
  · exact .inr (.inl h)
  · exact .inr (.inr ⟨o, k, o', k', ph, hc.rely (hrel _ _ rfl), rfl, rfl⟩)

/-- A thread that did not step. -/
theorem Stands.rely {w w' : World I.machine} {t : Option (Thread I.machine)}
    {g : Option ε → Option (Thread M)} (h : I.Stands D i w t g)
    (hrel : ∀ call o' k', t = some ⟨call, .await o' k', false⟩ → D.rely i call o' w w') :
    I.Stands D i w' t g := by
  match t with
  | none => exact h
  | some ⟨call, p', true⟩ => exact h
  | some ⟨call, p', false⟩ =>
    obtain ⟨p, hg, hs⟩ := h
    exact ⟨p, hg, hs.rely fun o' k' hp => hrel call o' k' (hp ▸ rfl)⟩

/-- A call, or what is left of it between two operations. -/
theorem shape_expand (hcarry : ∀ i call o w, I.CarriesOut D i call o w) (w : World I.machine)
    (p : Prog S M.Out) : I.Shape D i call w (p.expand I.program) fun _ => p := by
  cases p with
  | ret a => exact .inl ⟨a, rfl, rfl⟩
  | throw e => exact .inr (.inl ⟨e, rfl, rfl⟩)
  | await o k =>
    obtain ⟨o', k', hprog⟩ := I.awaits o
    have hc := hcarry i call o w
    unfold CarriesOut at hc
    rw [hprog] at hc
    refine .inr (.inr ⟨o, k, o', k', none, hc, ?_, rfl⟩)
    rw [Prog.expand_await, hprog]
    rfl

/-- Running what a thread waits for. -/
theorem step_of_answer {a : Config M} {k : Except ε (S.Res o) → Prog S M.Out}
    {m : Mode M.Choice ε} {r : Except ε (S.Res o)} {s : M.State} {took : Bool}
    (hi : a.threads i = some ⟨call, .await o k, false⟩)
    (hx : M.answer i m o a.state = some (r, s, took)) :
    ∃ a', M.step a (.run i m) = some a' ∧ a'.state = s ∧
      a'.threads = Function.update a.threads i (some ⟨call, k r, false⟩) := by
  refine ⟨⟨⟨s, ⟨i, call, o, took, a.state⟩ :: a.trace⟩,
    Function.update a.threads i (some ⟨call, k r, false⟩)⟩, ?_, rfl, rfl⟩
  simp only [Machine.step, hi, hx, Option.map_some]

/-- What a statement does to an operation, a step of `M` does, or nothing. -/
theorem advance {a₀ a : Config M} (ha : M.Reachable a₀ a) {k : Except ε (S.Res o) → Prog S M.Out}
    {f : Option ε} {ph ph' : Phase S o} {s : M.State}
    (hi : a.threads i = some ⟨call, reached o k f ph, false⟩) (hm : Moves M i o a.state ph ph' s) :
    ∃ a', M.Reachable a₀ a' ∧ a'.state = s ∧
      a'.threads = Function.update a.threads i (some ⟨call, reached o k f ph', false⟩) := by
  cases hm with
  | stay => exact ⟨a, ha, rfl, (Function.update_eq_self_iff.mpr hi.symm).symm⟩
  | @effect ch r _ hx =>
    cases f with
    | none =>
      obtain ⟨a', hs, hstate, hthreads⟩ := step_of_answer hi (M.answer_ok hx)
      exact ⟨a', .step _ ha trivial hs, hstate, hthreads⟩
    | some e =>
      obtain ⟨a', hs, hstate, hthreads⟩ := step_of_answer hi (M.answer_lost (e := e) hx)
      exact ⟨a', .step _ ha trivial hs, hstate, hthreads⟩

/-- An operation that had no effect and throws. -/
theorem give_up {a₀ a : Config M} (ha : M.Reachable a₀ a) {k : Except ε (S.Res o) → Prog S M.Out}
    (hi : a.threads i = some ⟨call, .await o k, false⟩) (e : ε) :
    ∃ a', M.Reachable a₀ a' ∧ a'.state = a.state ∧
      a'.threads = Function.update a.threads i (some ⟨call, k (.error e), false⟩) := by
  obtain ⟨a', hs, hstate, hthreads⟩ := step_of_answer hi (m := .fail e) rfl
  exact ⟨a', .step _ ha trivial hs, hstate, hthreads⟩

/-- **A statement of thread `i`** that was answered: what the thread comes to, and how each
configuration of `M` gets there. -/
theorem shape_run (hcarry : ∀ i call o w, I.CarriesOut D i call o w) {w w' : World I.machine}
    {o' : T.Op} {k' : Except ε (T.Res o') → Prog T M.Out} {p : Option ε → Prog S M.Out}
    (h : I.Shape D i call w (.await o' k') p) (hinv : D.inv w)
    {r : Except ε (T.Res o')} (hcond : D.cond i call o' w r w')
    (hx : I.machine.ExecIn D.modes i call o' w r w') :
    ∃ p₁, I.Shape D i call w' (k' r) p₁ ∧ ∀ f, ∃ f₁, ∀ {a₀ a : Config M}, M.Reachable a₀ a →
      a.state = I.abs w.state → a.threads i = some ⟨call, p f₁, false⟩ →
      ∃ a', M.Reachable a₀ a' ∧ a'.state = I.abs w'.state ∧
        a'.threads = Function.update a.threads i (some ⟨call, p₁ f, false⟩) := by
  rcases h with ⟨a, ha, -⟩ | ⟨e, he, -⟩ | ⟨o, k, o₁, k₁, ph, hc, hp', rfl⟩
  · exact absurd ha (by simp)
  · exact absurd he (by simp)
  obtain ⟨rfl, hk⟩ := Prog.await.inj hp'
  obtain rfl := eq_of_heq hk
  obtain ⟨-, -, ph', hm, hc'⟩ := hc w (D.rely_refl _ _ _ _) hinv r w' hcond hx
  -- the statement itself, in a configuration of `M` where the operation will end as `f` says
  have hadvance : ∀ f {a₀ a : Config M}, M.Reachable a₀ a → a.state = I.abs w.state →
      a.threads i = some ⟨call, reached o k f ph, false⟩ →
      ∃ a', M.Reachable a₀ a' ∧ a'.state = I.abs w'.state ∧
        a'.threads = Function.update a.threads i (some ⟨call, reached o k f ph', false⟩) := by
    intro f a₀ a ha hstate hi
    exact advance ha hi (hstate ▸ hm)
  cases hq : k₁ r with
  | await o₂ k₂ =>
    rw [hq] at hc'
    refine ⟨fun f => reached o k f ph', .inr (.inr ⟨o, k, o₂, k₂, ph', hc', ?_, rfl⟩), fun f =>
      ⟨f, hadvance f⟩⟩
    dsimp only
    rw [hq]
    rfl
  | ret x =>
    rw [hq] at hc'
    obtain ⟨r₀, rfl⟩ : ∃ r₀, ph' = some r₀ := by
      cases ph' with
      | none => exact absurd hc' (by simp [Carries, Phase.Ends])
      | some r₀ => exact ⟨r₀, rfl⟩
    obtain rfl : r₀ = .ok x := by
      rcases hc' with h | ⟨e, h⟩
      · exact h.symm
      · exact absurd h (by simp)
    refine ⟨fun _ => k (.ok x), ?_, fun f => ⟨none, fun ha hstate hi => hadvance none ha hstate hi⟩⟩
    dsimp only
    rw [hq]
    exact shape_expand hcarry w' _
  | throw e =>
    rw [hq] at hc'
    refine ⟨fun _ => k (.error e), ?_, fun f => ⟨some e, fun {a₀ a} ha hstate hi => ?_⟩⟩
    · dsimp only
      rw [hq]
      exact shape_expand hcarry w' _
    · obtain ⟨a₁, ha₁, hstate₁, hthreads₁⟩ := hadvance (some e) ha hstate hi
      cases ph' with
      | some r₀ => exact ⟨a₁, ha₁, hstate₁, hthreads₁⟩
      | none =>
        have hi₁ : a₁.threads i = some ⟨call, .await o k, false⟩ := by
          rw [hthreads₁]
          exact Function.update_self ..
        obtain ⟨a₂, ha₂, hstate₂, hthreads₂⟩ := give_up ha₁ hi₁ e
        refine ⟨a₂, ha₂, hstate₂.trans hstate₁, ?_⟩
        rw [hthreads₂, hthreads₁, Function.update_idem]

/-- A crash, in `M`: what is not suspended is left alone. -/
theorem crash {a₀ a : Config M} (ha : M.Reachable a₀ a) {p : Prog S M.Out}
    (hi : a.threads i = some ⟨call, p, false⟩) : ∃ a', M.Reachable a₀ a' ∧ a'.state = a.state ∧
      a'.threads = Function.update a.threads i (some ⟨call, p, p.pending.isSome⟩) := by
  have hended : p.pending.isSome = false → ∃ a', M.Reachable a₀ a' ∧ a'.state = a.state ∧
      a'.threads = Function.update a.threads i (some ⟨call, p, p.pending.isSome⟩) := by
    intro hp
    refine ⟨a, ha, rfl, ?_⟩
    rw [hp]
    exact (Function.update_eq_self_iff.mpr hi.symm).symm
  cases p with
  | ret x => exact hended rfl
  | throw e => exact hended rfl
  | await o k =>
    refine ⟨⟨a.toWorld, Function.update a.threads i (some ⟨call, .await o k, true⟩)⟩,
      .step (.crash i) ha trivial ?_, rfl, rfl⟩
    simp only [Machine.step, hi]

/-- Thread `i` steps, and the others are left as they are. -/
theorem simulates_update {a₀ : Config M} {c : Config I.machine} {w' : World I.machine}
    {t : Thread I.machine} {g : Nat → Option ε → Option (Thread M)}
    (hg : ∀ j, I.Stands D j c.toWorld (c.threads j) (g j))
    (hfut : ∀ fut : Nat → Option ε, ∃ a, M.Reachable a₀ a ∧ a.state = I.abs c.state ∧
      a.threads = fun j => g j (fut j))
    (hrel : ∀ j call o' k', j ≠ i → c.threads j = some ⟨call, .await o' k', false⟩ →
      D.rely j call o' c.toWorld w')
    {γ : Option ε → Option (Thread M)} (hstands : I.Stands D i w' (some t) γ)
    (hstep : ∀ f, ∃ f₁, ∀ {a : Config M}, M.Reachable a₀ a → a.state = I.abs c.state →
      a.threads i = g i f₁ → ∃ a', M.Reachable a₀ a' ∧ a'.state = I.abs w'.state ∧
        a'.threads = Function.update a.threads i (γ f)) :
    I.Simulates D a₀ ⟨w', Function.update c.threads i (some t)⟩ := by
  refine ⟨Function.update g i γ, fun j => ?_, fun fut => ?_⟩
  · by_cases hj : j = i
    · subst hj
      simpa using hstands
    · simp only [Function.update_of_ne hj]
      exact (hg j).rely fun call o' k' => hrel j call o' k' hj
  · obtain ⟨f₁, hstep⟩ := hstep (fut i)
    obtain ⟨a, ha, hstate, hthreads⟩ := hfut (Function.update fut i f₁)
    have hi : a.threads i = g i f₁ := by
      rw [hthreads]
      simp
    obtain ⟨a', ha', hstate', hthreads'⟩ := hstep ha hstate hi
    refine ⟨a', ha', hstate', ?_⟩
    rw [hthreads', hthreads]
    funext j
    by_cases hj : j = i
    · subst hj
      simp
    · simp [Function.update_of_ne hj]

/-- **A step of the implementation.** -/
theorem simulates_step (hD : D.Sound (fun _ _ => True) fun _ _ _ _ => True)
    (hcarry : ∀ i call o w, I.CarriesOut D i call o w) {a₀ : Config M} {c c' : Config I.machine}
    {e : Event I.machine} (hgood : Rules.Sound.Good D (fun _ _ _ _ => True) c)
    (h : I.Simulates D a₀ c) (hs : I.machine.step c e = some c') : I.Simulates D a₀ c' := by
  have hgood' := hD.good_step hgood trivial hs
  obtain ⟨g, hg, hfut⟩ := h
  rcases I.machine.step_cases hs with ⟨i, call, s, rfl, hi, hst, rfl⟩ |
    ⟨i, m, call, o, k, -, -, rfl, hi, -, -⟩ | ⟨i, call, o, k, rfl, hi, rfl⟩ |
    ⟨v, s, rfl, hv, rfl⟩
  · -- a call starts
    obtain ⟨-, -, hrel⟩ := hD.start c i call s trivial hgood.1 hi hst
    have hnone : g i = fun _ => none := by
      have hstands := hg i
      rwa [hi] at hstands
    refine simulates_update hg hfut (fun j call' o' k' _ hj => hrel j call' o' ⟨k', hj⟩)
      (γ := fun _ => some ⟨call, M.body call, false⟩)
      ⟨fun _ => M.body call, rfl, shape_expand hcarry _ _⟩ fun f => ⟨none, ?_⟩
    intro a ha hstate hai
    rw [hnone] at hai
    refine ⟨⟨⟨I.abs s, a.trace⟩, Function.update a.threads i (some ⟨call, M.body call, false⟩)⟩,
      .step (.spawn i call) ha trivial ?_, rfl, rfl⟩
    simp only [Machine.step, hai, hstate, I.start_abs hst, Option.map_some]
  · -- a statement runs
    obtain ⟨r, w', hx, rfl⟩ := I.machine.step_run hs hi
    have hguar := hD.guar_step hgood trivial ⟨k, hi⟩ hx
    obtain ⟨p, hgi, hshape⟩ : ∃ p, (g i = fun f => some ⟨call, p f, false⟩) ∧
        I.Shape D i call c.toWorld (.await o k) p := by
      have hstands := hg i
      rwa [hi] at hstands
    obtain ⟨p₁, hshape₁, hstep⟩ := shape_run hcarry hshape hgood.1
      (hD.cond c i m call o r w' trivial ⟨k, hi⟩ hx)
      (hx.mono fun _ h => h ▸ hD.modes c i m trivial)
    refine simulates_update hg hfut (fun j call' o' k' hj hj' => ?_)
      (γ := fun f => some ⟨call, p₁ f, false⟩) ⟨p₁, rfl, hshape₁⟩ fun f => ?_
    · exact hD.rely c i m call o r w' trivial ⟨k, hi⟩ hx hgood.1 hgood'.1 hguar j call' o' hj
        ⟨k', hj'⟩
    · obtain ⟨f₁, hf₁⟩ := hstep f
      exact ⟨f₁, fun ha hstate hai => hf₁ ha hstate (hai.trans (congrFun hgi f₁))⟩
  · -- a process crashes
    obtain ⟨p, hgi, -⟩ : ∃ p, (g i = fun f => some ⟨call, p f, false⟩) ∧
        I.Shape D i call c.toWorld (.await o k) p := by
      have hstands := hg i
      rwa [hi] at hstands
    refine simulates_update hg hfut (fun j call' o' _ _ _ => D.rely_refl j call' o' c.toWorld)
      (γ := fun f => some ⟨call, p f, (p f).pending.isSome⟩)
      (fun f => ⟨p f, _, rfl, by simp⟩) fun f => ⟨f, fun ha hstate hai => ?_⟩
    obtain ⟨a', ha', hstate', hthreads⟩ := crash ha (hai.trans (congrFun hgi f))
    exact ⟨a', ha', hstate'.trans hstate, hthreads⟩
  · -- the surroundings step
    obtain ⟨-, hrel⟩ := hD.env c v s trivial hgood.1 hv
    refine ⟨g, fun i => (hg i).rely fun call o' k' hi => hrel i call o' ⟨k', hi⟩, fun fut => ?_⟩
    obtain ⟨a, ha, hstate, hthreads⟩ := hfut fut
    rcases I.env_abs hv with heq | ⟨v', hv'⟩
    · exact ⟨a, ha, hstate.trans heq.symm, hthreads⟩
    · refine ⟨⟨⟨I.abs s, a.trace⟩, a.threads⟩, .step (.env v') ha trivial ?_, rfl, hthreads⟩
      simp only [Machine.step, hstate, hv', Option.map_some]

/-- What a configuration of the implementation has come to, this one of `M` has. -/
structure ComesTo (I : Impl M T) (c : Config I.machine) (a : Config M) : Prop where
  state : a.state = I.abs c.state
  started : ∀ i call, a.Started i call ↔ c.Started i call
  returned : ∀ i call x, c.Returned i call x → a.Returned i call x
  threw : ∀ i call e, c.threads i = some ⟨call, .throw e, false⟩ →
    a.threads i = some ⟨call, .throw e, false⟩
  quiet : c.Quiet → a.Quiet

section Stands

variable {w : World I.machine} {g : Option ε → Option (Thread M)} {f : Option ε}

theorem Stands.started {t : Option (Thread I.machine)} (h : I.Stands D i w t g) :
    (∃ p crashed, g f = some ⟨call, p, crashed⟩) ↔ ∃ p crashed, t = some ⟨call, p, crashed⟩ := by
  match t with
  | none =>
    obtain rfl : g = fun _ => none := h
    simp
  | some ⟨call', p', false⟩ =>
    obtain ⟨p, rfl, -⟩ := h
    simp
  | some ⟨call', p', true⟩ =>
    obtain ⟨p, crashed, hg, -⟩ := h f
    rw [hg]
    simp

theorem Stands.returned {x : M.Out} (h : I.Stands D i w (some ⟨call, .ret x, false⟩) g) :
    g f = some ⟨call, .ret x, false⟩ := by
  obtain ⟨p, rfl, ⟨a, ha, rfl⟩ | ⟨e, he, -⟩ | ⟨o, k, o', k', ph, -, he, -⟩⟩ := h
  · obtain rfl := Prog.ret.inj ha
    rfl
  · exact absurd he (by simp)
  · exact absurd he (by simp)

theorem Stands.threw {e : ε} (h : I.Stands D i w (some ⟨call, .throw e, false⟩) g) :
    g f = some ⟨call, .throw e, false⟩ := by
  obtain ⟨p, rfl, ⟨a, ha, -⟩ | ⟨e', he, rfl⟩ | ⟨o, k, o', k', ph, -, he, -⟩⟩ := h
  · exact absurd ha (by simp)
  · obtain rfl := Prog.throw.inj he
    rfl
  · exact absurd he (by simp)

/-- A thread that does not wait does not wait in `M`. -/
theorem Stands.quiet {t : Option (Thread I.machine)} (h : I.Stands D i w t g)
    (ht : ∀ call o' k', t ≠ some ⟨call, .await o' k', false⟩) (call : M.Call) (o : S.Op)
    (k : Except ε (S.Res o) → Prog S M.Out) : g f ≠ some ⟨call, .await o k, false⟩ := by
  match t with
  | none =>
    obtain rfl : g = fun _ => none := h
    simp
  | some ⟨call', .ret x, false⟩ => simp [Stands.returned h]
  | some ⟨call', .throw e, false⟩ => simp [Stands.threw h]
  | some ⟨call', .await o' k', false⟩ => exact absurd rfl (ht call' o' k')
  | some ⟨call', p', true⟩ =>
    obtain ⟨p, crashed, hg, hp⟩ := h f
    rw [hg]
    rintro he
    obtain ⟨-, rfl, rfl⟩ := Thread.mk.inj (Option.some.inj he)
    exact absurd (hp rfl) (by simp [Prog.pending])

end Stands

/-- **Refinement.** What the implementation comes to, `M` can come to. -/
theorem refines (hD : D.Sound (fun _ _ => True) fun _ _ _ _ => True)
    (hcarry : ∀ i call o w, I.CarriesOut D i call o w) {t : I.State}
    (h0 : D.inv (⟨t, []⟩ : World I.machine)) {c : Config I.machine}
    (h : I.machine.Reachable (I.machine.init t) c) :
    ∃ a, M.Reachable (M.init (I.abs t)) a ∧ I.ComesTo c a := by
  have hsim : I.Simulates D (M.init (I.abs t)) c := by
    induction h with
    | init => exact ⟨fun _ _ => none, fun _ => rfl, fun _ => ⟨_, .init, rfl, rfl⟩⟩
    | step e hc _ hs ih => exact simulates_step hD hcarry (hD.reach h0 hc) ih hs
  obtain ⟨g, hg, hfut⟩ := hsim
  obtain ⟨a, ha, hstate, hthreads⟩ := hfut fun _ => none
  have hai : ∀ i, a.threads i = g i none := fun i => congrFun hthreads i
  refine ⟨a, ha, hstate, fun i call => ?_, fun i call x hi => ?_, fun i call e hi => ?_,
    fun hc i call o hw => ?_⟩
  · unfold Config.Started
    rw [hai]
    exact (hg i).started
  · have hstands := hg i
    rw [hi] at hstands
    exact (hai i).trans hstands.returned
  · have hstands := hg i
    rw [hi] at hstands
    exact (hai i).trans hstands.threw
  · obtain ⟨k, hk⟩ := hw
    exact (hg i).quiet (fun call o' k' hi => hc i call o' ⟨k', hi⟩) call o k
      ((hai i).symm.trans hk)

end Impl

end Async
