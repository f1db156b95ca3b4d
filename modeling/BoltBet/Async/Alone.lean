import BoltBet.Async.Pool

/-!
# A program that runs alone

`M.Runs i p s ms x s'`: thread `i` runs `p` from the state `s`, nobody else steps, and its
operations end as `ms` says. It ends in `s'` with the outcome `x`: a result, an error, or `none`
when it stopped at an await, as a crash leaves it.

* `runs_bind`, `runs_tryCatch`, `runs_perform`: how a run of a program is made of runs of its
  parts.
* `Runs.of_replay`: a thread of a pool that alone takes steps runs so; `reach_end`: one that need
  not wait can be run to its end.
* `evaluate`, `finish`, `finishBy`: runs computed, from a list of endings, from a stream of them, or
  from a rule that says how each operation ends.
* `Beside`: two runs of one program under two such rules, from two states; with a rule for each way
  to build a program.
* `Always`, with a rule for each way to build a program: every run ends in `Q`; `always_expand` for
  operations that are programs themselves.
* `Restarts`: what is left after any number of runs that stopped.
-/

namespace Async

variable {ε : Type} {S : Sig ε} {α β : Type}

/-- A run of a program alone: see the head of the file. -/
inductive Machine.Runs (M : Machine S) (i : Nat) {α : Type} :
    Prog S α → M.State → List (Mode M.Choice ε) → Option (Except ε α) → M.State → Prop
  | ret (a : α) (s : M.State) : Machine.Runs M i (.ret a) s [] (some (.ok a)) s
  | throw (e : ε) (s : M.State) : Machine.Runs M i (.throw e) s [] (some (.error e)) s
  | stop (o : S.Op) (k : Except ε (S.Res o) → Prog S α) (s : M.State) :
    Machine.Runs M i (.await o k) s [] none s
  | await {o : S.Op} {k : Except ε (S.Res o) → Prog S α} {s s₁ s' : M.State}
      {m : Mode M.Choice ε} {ms : List (Mode M.Choice ε)} {r : Except ε (S.Res o)} {took : Bool}
      {x : Option (Except ε α)} (h : M.answer i m o s = some (r, s₁, took))
      (hk : Machine.Runs M i (k r) s₁ ms x s') : Machine.Runs M i (.await o k) s (m :: ms) x s'

variable {M : Machine S} {i : Nat} {s s' : M.State} {ms : List (Mode M.Choice ε)}

theorem Machine.runs_ret {a : α} {x : Option (Except ε α)} :
    M.Runs i (.ret a) s ms x s' ↔ ms = [] ∧ x = some (.ok a) ∧ s' = s := by
  constructor
  · intro h
    cases h
    exact ⟨rfl, rfl, rfl⟩
  · rintro ⟨rfl, rfl, rfl⟩
    exact .ret a s'

theorem Machine.runs_throw {e : ε} {x : Option (Except ε α)} :
    M.Runs i (.throw e) s ms x s' ↔ ms = [] ∧ x = some (.error e) ∧ s' = s := by
  constructor
  · intro h
    cases h
    exact ⟨rfl, rfl, rfl⟩
  · rintro ⟨rfl, rfl, rfl⟩
    exact .throw e s'

theorem Machine.runs_await {o : S.Op} {k : Except ε (S.Res o) → Prog S α}
    {x : Option (Except ε α)} :
    M.Runs i (.await o k) s ms x s' ↔ (ms = [] ∧ x = none ∧ s' = s) ∨
      ∃ m ms' r s₁ took, ms = m :: ms' ∧ M.answer i m o s = some (r, s₁, took) ∧
        M.Runs i (k r) s₁ ms' x s' := by
  constructor
  · intro h
    cases h with
    | stop => exact .inl ⟨rfl, rfl, rfl⟩
    | await h hk => exact .inr ⟨_, _, _, _, _, rfl, h, hk⟩
  · rintro (⟨rfl, rfl, rfl⟩ | ⟨m, ms', r, s₁, took, rfl, h, hk⟩)
    · exact .stop o k s'
    · exact .await h hk

/-- The parts of a run of `p >>= f`: `p` ends with a result and `f` goes on, or `p` throws or
stops. -/
theorem Machine.runs_bind {p : Prog S α} {f : α → Prog S β} {x : Option (Except ε β)} :
    M.Runs i (p >>= f) s ms x s' ↔
      (∃ a s₁ ms₁ ms₂, ms = ms₁ ++ ms₂ ∧ M.Runs i p s ms₁ (some (.ok a)) s₁ ∧
        M.Runs i (f a) s₁ ms₂ x s') ∨
      (∃ e, M.Runs i p s ms (some (.error e)) s' ∧ x = some (.error e)) ∨
      (M.Runs i p s ms none s' ∧ x = none) := by
  induction p generalizing s ms with
  | ret a =>
    rw [Prog.ret_bind]
    constructor
    · exact fun h => .inl ⟨a, s, [], ms, rfl, .ret a s, h⟩
    · rintro (⟨a', s₁, ms₁, ms₂, rfl, h, hf⟩ | ⟨e, h, -⟩ | ⟨h, -⟩)
      · obtain ⟨rfl, ha, rfl⟩ := runs_ret.mp h
        obtain rfl := Except.ok.inj (Option.some.inj ha)
        exact hf
      · exact absurd (runs_ret.mp h).2.1 (by simp)
      · exact absurd (runs_ret.mp h).2.1 (by simp)
  | throw e =>
    rw [Prog.throw_bind]
    constructor
    · intro h
      obtain ⟨rfl, rfl, rfl⟩ := runs_throw.mp h
      exact .inr (.inl ⟨e, .throw e s', rfl⟩)
    · rintro (⟨a', s₁, ms₁, ms₂, rfl, h, -⟩ | ⟨e', h, rfl⟩ | ⟨h, -⟩)
      · exact absurd (runs_throw.mp h).2.1 (by simp)
      · obtain ⟨rfl, he, rfl⟩ := runs_throw.mp h
        obtain rfl := Except.error.inj (Option.some.inj he)
        exact .throw e' s'
      · exact absurd (runs_throw.mp h).2.1 (by simp)
  | await o k ih =>
    rw [Prog.await_bind]
    constructor
    · intro h
      rcases runs_await.mp h with ⟨rfl, rfl, rfl⟩ | ⟨m, ms', r, s₁, took, rfl, ha, hk⟩
      · exact .inr (.inr ⟨.stop o k s', rfl⟩)
      · rcases (ih r).mp hk with ⟨a, s₂, ms₁, ms₂, rfl, hp, hf⟩ | ⟨e, hp, hx⟩ | ⟨hp, hx⟩
        · exact .inl ⟨a, s₂, m :: ms₁, ms₂, rfl, .await ha hp, hf⟩
        · exact .inr (.inl ⟨e, .await ha hp, hx⟩)
        · exact .inr (.inr ⟨.await ha hp, hx⟩)
    · rintro (⟨a, s₁, ms₁, ms₂, rfl, hp, hf⟩ | ⟨e, hp, rfl⟩ | ⟨hp, rfl⟩)
      · rcases runs_await.mp hp with ⟨-, hx, -⟩ | ⟨m, ms', r, s₂, took, rfl, ha, hk⟩
        · exact absurd hx (by simp)
        · exact .await ha ((ih r).mpr (.inl ⟨a, s₁, ms', ms₂, rfl, hk, hf⟩))
      · rcases runs_await.mp hp with ⟨-, hx, -⟩ | ⟨m, ms', r, s₂, took, rfl, ha, hk⟩
        · exact absurd hx (by simp)
        · exact .await ha ((ih r).mpr (.inr (.inl ⟨e, hk, rfl⟩)))
      · rcases runs_await.mp hp with ⟨rfl, -, rfl⟩ | ⟨m, ms', r, s₂, took, rfl, ha, hk⟩
        · exact .stop o _ s'
        · exact .await ha ((ih r).mpr (.inr (.inr ⟨hk, rfl⟩)))

/-- The parts of a run of `try { p } catch (e) { h e }`. -/
theorem Machine.runs_tryCatch {p : Prog S α} {h : ε → Prog S α} {x : Option (Except ε α)} :
    M.Runs i (p.tryCatch h) s ms x s' ↔
      (∃ a, M.Runs i p s ms (some (.ok a)) s' ∧ x = some (.ok a)) ∨
      (∃ e s₁ ms₁ ms₂, ms = ms₁ ++ ms₂ ∧ M.Runs i p s ms₁ (some (.error e)) s₁ ∧
        M.Runs i (h e) s₁ ms₂ x s') ∨
      (M.Runs i p s ms none s' ∧ x = none) := by
  induction p generalizing s ms with
  | ret a =>
    rw [Prog.tryCatch_ret]
    constructor
    · intro h
      obtain ⟨rfl, rfl, rfl⟩ := runs_ret.mp h
      exact .inl ⟨a, .ret a s', rfl⟩
    · rintro (⟨a', h, rfl⟩ | ⟨e, s₁, ms₁, ms₂, rfl, h, -⟩ | ⟨h, -⟩)
      · exact h
      · exact absurd (runs_ret.mp h).2.1 (by simp)
      · exact absurd (runs_ret.mp h).2.1 (by simp)
  | throw e =>
    rw [Prog.tryCatch_throw]
    constructor
    · exact fun h => .inr (.inl ⟨e, s, [], ms, rfl, .throw e s, h⟩)
    · rintro (⟨a', h, -⟩ | ⟨e', s₁, ms₁, ms₂, rfl, h, hh⟩ | ⟨h, -⟩)
      · exact absurd (runs_throw.mp h).2.1 (by simp)
      · obtain ⟨rfl, he, rfl⟩ := runs_throw.mp h
        obtain rfl := Except.error.inj (Option.some.inj he)
        exact hh
      · exact absurd (runs_throw.mp h).2.1 (by simp)
  | await o k ih =>
    rw [Prog.tryCatch_await]
    constructor
    · intro h
      rcases runs_await.mp h with ⟨rfl, rfl, rfl⟩ | ⟨m, ms', r, s₁, took, rfl, ha, hk⟩
      · exact .inr (.inr ⟨.stop o k s', rfl⟩)
      · rcases (ih r).mp hk with ⟨a, hp, hx⟩ | ⟨e, s₂, ms₁, ms₂, rfl, hp, hh⟩ | ⟨hp, hx⟩
        · exact .inl ⟨a, .await ha hp, hx⟩
        · exact .inr (.inl ⟨e, s₂, m :: ms₁, ms₂, rfl, .await ha hp, hh⟩)
        · exact .inr (.inr ⟨.await ha hp, hx⟩)
    · rintro (⟨a, hp, rfl⟩ | ⟨e, s₁, ms₁, ms₂, rfl, hp, hh⟩ | ⟨hp, rfl⟩)
      · rcases runs_await.mp hp with ⟨-, hx, -⟩ | ⟨m, ms', r, s₂, took, rfl, ha, hk⟩
        · exact absurd hx (by simp)
        · exact .await ha ((ih r).mpr (.inl ⟨a, hk, rfl⟩))
      · rcases runs_await.mp hp with ⟨-, hx, -⟩ | ⟨m, ms', r, s₂, took, rfl, ha, hk⟩
        · exact absurd hx (by simp)
        · exact .await ha ((ih r).mpr (.inr (.inl ⟨e, s₁, ms', ms₂, rfl, hk, hh⟩)))
      · rcases runs_await.mp hp with ⟨rfl, -, rfl⟩ | ⟨m, ms', r, s₂, took, rfl, ha, hk⟩
        · exact .stop o _ s'
        · exact .await ha ((ih r).mpr (.inr (.inr ⟨hk, rfl⟩)))

/-- One operation: it ended, or the run stopped before it. -/
theorem Machine.runs_perform {o : S.Op} {x : Option (Except ε (S.Res o))} :
    M.Runs i (Prog.perform o) s ms x s' ↔ (ms = [] ∧ x = none ∧ s' = s) ∨
      ∃ m r took, ms = [m] ∧ M.answer i m o s = some (r, s', took) ∧ x = some r := by
  have hof : ∀ {r : Except ε (S.Res o)} {s₁ ms'}, M.Runs i (Prog.ofExcept r) s₁ ms' x s' ↔
      ms' = [] ∧ x = some r ∧ s' = s₁ := by
    rintro (e | a) s₁ ms'
    · exact runs_throw
    · exact runs_ret
  unfold Prog.perform
  rw [runs_await]
  constructor
  · rintro (h | ⟨m, ms', r, s₁, took, rfl, ha, hk⟩)
    · exact .inl h
    · obtain ⟨rfl, rfl, rfl⟩ := hof.mp hk
      exact .inr ⟨m, r, took, rfl, ha, rfl⟩
  · rintro (h | ⟨m, r, took, rfl, ha, rfl⟩)
    · exact .inl h
    · exact .inr ⟨m, [], r, s', took, rfl, ha, hof.mpr ⟨rfl, rfl, rfl⟩⟩

/-- A run that throws, of a program that awaits `o` first: either `o` throws, or it answers and the
rest throws. -/
theorem Machine.Runs.throw_cases {o : S.Op} {f : S.Res o → Prog S α} {e : ε}
    (h : M.Runs i (Prog.perform o >>= f) s ms (some (.error e)) s') :
    (∃ m took, ms = [m] ∧ M.answer i m o s = some (.error e, s', took)) ∨
    ∃ ch a s₁ ms', ms = .ok ch :: ms' ∧ M.exec i ch o s = some (.ok a, s₁) ∧
      M.Runs i (f a) s₁ ms' (some (.error e)) s' := by
  rcases runs_bind.mp h with ⟨a, s₁, ms₁, ms₂, rfl, hp, hf⟩ | ⟨e', hp, he⟩ | ⟨-, hx⟩
  · rcases runs_perform.mp hp with ⟨-, hx, -⟩ | ⟨m, r, took, rfl, ha, hr⟩
    · exact absurd hx (by simp)
    · obtain rfl := Option.some.inj hr
      cases m with
      | ok ch =>
        obtain ⟨⟨r, s₂⟩, hx, he⟩ := Option.map_eq_some_iff.mp ha
        obtain ⟨rfl, rfl, -⟩ : r = .ok a ∧ s₂ = s₁ ∧ _ := by simpa using he
        exact .inr ⟨ch, a, s₂, ms₂, rfl, hx, hf⟩
      | fail e' => simp [answer] at ha
      | lost ch e' => simp [answer] at ha
  · obtain rfl := Except.error.inj (Option.some.inj he)
    rcases runs_perform.mp hp with ⟨-, hx, -⟩ | ⟨m, r, took, rfl, ha, hr⟩
    · exact absurd hx (by simp)
    · obtain rfl := Option.some.inj hr
      exact .inl ⟨m, took, rfl, ha⟩
  · exact absurd hx (by simp)

/-- What every operation of a program keeps, its runs keep. -/
theorem Machine.Runs.keeps {P : S.Op → Prop} {J : M.State → Prop} {p : Prog S α}
    (hp : p.All P) (hJ : ∀ {o m r s₁ s₂ took}, P o → J s₁ →
      M.answer i m o s₁ = some (r, s₂, took) → J s₂) {x : Option (Except ε α)}
    (h : M.Runs i p s ms x s') (hs : J s) : J s' := by
  induction h with
  | ret | throw | stop => exact hs
  | await ha hk ih => exact ih (hp.2 _) (hJ hp.1 hs ha)

/-- Run `p` alone; `none` when the operations do not end as `ms` says. -/
def Machine.evaluate (M : Machine S) (i : Nat) {α : Type} :
    Prog S α → M.State → List (Mode M.Choice ε) → Option (Option (Except ε α) × M.State)
  | .ret a, s, [] => some (some (.ok a), s)
  | .throw e, s, [] => some (some (.error e), s)
  | .await _ _, s, [] => some (none, s)
  | .await o k, s, m :: ms =>
    (M.answer i m o s).bind fun x => Machine.evaluate M i (k x.1) x.2.1 ms
  | _, _, _ :: _ => none

theorem Machine.Runs.of_evaluate {p : Prog S α} {x : Option (Except ε α)}
    (h : M.evaluate i p s ms = some (x, s')) : M.Runs i p s ms x s' := by
  induction ms generalizing p s with
  | nil =>
    cases p <;> obtain ⟨rfl, rfl⟩ := Prod.mk.inj (Option.some.inj h)
    · exact .ret _ s
    · exact .throw _ s
    · exact .stop _ _ s
  | cons m ms ih =>
    cases p with
    | ret a | throw e => exact absurd h (by simp [evaluate])
    | await o k =>
      obtain ⟨⟨r, s₁, took⟩, ha, hx⟩ := Option.bind_eq_some_iff.mp h
      exact .await ha (ih hx)

/-! ## To the end -/

/-- Run `p` alone to its end; its operations end as the stream says, as many as it awaits. `none`
when one of them has to wait. -/
def Machine.finish (M : Machine S) (i : Nat) {α : Type} :
    Prog S α → M.State → (Nat → Mode M.Choice ε) → Option (Except ε α × M.State)
  | .ret a, s, _ => some (.ok a, s)
  | .throw e, s, _ => some (.error e, s)
  | .await o k, s, ms => (M.answer i (ms 0) o s).bind fun x =>
    Machine.finish M i (k x.1) x.2.1 fun n => ms (n + 1)

section Finish

variable {φ : Nat → Mode M.Choice ε}

/-- Running to the end is a run. -/
theorem Machine.Runs.of_finish {p : Prog S α} {r : Except ε α}
    (h : M.finish i p s φ = some (r, s')) :
    ∃ n, M.Runs i p s ((List.range n).map φ) (some r) s' := by
  induction p generalizing s φ with
  | ret a =>
    obtain ⟨rfl, rfl⟩ := Prod.mk.inj (Option.some.inj h)
    exact ⟨0, .ret a s⟩
  | throw e =>
    obtain ⟨rfl, rfl⟩ := Prod.mk.inj (Option.some.inj h)
    exact ⟨0, .throw e s⟩
  | await o k ih =>
    obtain ⟨⟨r₁, s₁, took⟩, ha, hk⟩ := Option.bind_eq_some_iff.mp h
    obtain ⟨n, hn⟩ := ih r₁ hk
    refine ⟨n + 1, ?_⟩
    rw [List.range_succ_eq_map, List.map_cons, List.map_map]
    exact .await ha hn

theorem Machine.finish_perform {o : S.Op} {f : S.Res o → Prog S α} {r : Except ε (S.Res o)}
    {took : Bool} (h : M.answer i (φ 0) o s = some (r, s', took)) :
    M.finish i (Prog.perform o >>= f) s φ =
      M.finish i (Prog.ofExcept r >>= f) s' fun n => φ (n + 1) := by
  show (M.answer i (φ 0) o s).bind _ = _
  rw [h]
  rfl

/-- **Two runs side by side.** Operations that cannot tell two related states apart lead to the
same outcome. -/
theorem Machine.finish_related {R : M.State → M.State → Prop} {P : S.Op → Prop} {p : Prog S α}
    (hp : p.All P) (hR : ∀ o m s t, P o → R s t → ∃ r s₁ t₁ took,
      M.answer i m o s = some (r, s₁, took) ∧ M.answer i m o t = some (r, t₁, took) ∧ R s₁ t₁)
    {t : M.State} (h : R s t) :
    ∃ r s' t', M.finish i p s φ = some (r, s') ∧ M.finish i p t φ = some (r, t') ∧ R s' t' := by
  induction p generalizing s t φ with
  | ret a => exact ⟨_, s, t, rfl, rfl, h⟩
  | throw e => exact ⟨_, s, t, rfl, rfl, h⟩
  | await o k ih =>
    obtain ⟨r, s₁, t₁, took, hs, ht, h₁⟩ := hR o (φ 0) s t hp.1 h
    obtain ⟨r', s', t', hs', ht', h'⟩ := ih r (hp.2 r) (φ := fun n => φ (n + 1)) h₁
    refine ⟨r', s', t', ?_, ?_, h'⟩
    · show (M.answer i (φ 0) o s).bind _ = _
      rw [hs]
      exact hs'
    · show (M.answer i (φ 0) o t).bind _ = _
      rw [ht]
      exact ht'

end Finish

/-! ## By operation -/

/-- Run `p` alone to its end; each operation ends as `f` says of it. `none` when one of them has to
wait. -/
def Machine.finishBy (M : Machine S) (i : Nat) (f : S.Op → Mode M.Choice ε) {α : Type} :
    Prog S α → M.State → Option (Except ε α × M.State)
  | .ret a, s => some (.ok a, s)
  | .throw e, s => some (.error e, s)
  | .await o k, s => (M.answer i (f o) o s).bind fun x => Machine.finishBy M i f (k x.1) x.2.1

section FinishBy

variable {f : S.Op → Mode M.Choice ε}

theorem Machine.finishBy_await {o : S.Op} {k : Except ε (S.Res o) → Prog S α} {r : Except ε α} :
    M.finishBy i f (.await o k) s = some (r, s') ↔
      ∃ r₁ s₁ took, M.answer i (f o) o s = some (r₁, s₁, took) ∧
        M.finishBy i f (k r₁) s₁ = some (r, s') := by
  show (M.answer i (f o) o s).bind _ = _ ↔ _
  rw [Option.bind_eq_some_iff]
  constructor
  · rintro ⟨⟨r₁, s₁, took⟩, ha, hk⟩
    exact ⟨r₁, s₁, took, ha, hk⟩
  · rintro ⟨r₁, s₁, took, ha, hk⟩
    exact ⟨⟨r₁, s₁, took⟩, ha, hk⟩

/-- `p` ends with a result and `g` goes on, or `p` throws. -/
theorem Machine.finishBy_bind {p : Prog S α} {g : α → Prog S β} {r : Except ε β} :
    M.finishBy i f (p >>= g) s = some (r, s') ↔
      (∃ a s₁, M.finishBy i f p s = some (.ok a, s₁) ∧ M.finishBy i f (g a) s₁ = some (r, s')) ∨
      ∃ e, M.finishBy i f p s = some (.error e, s') ∧ r = .error e := by
  induction p generalizing s with
  | ret a =>
    rw [Prog.ret_bind]
    constructor
    · exact fun h => .inl ⟨a, s, rfl, h⟩
    · rintro (⟨a', s₁, ha, h⟩ | ⟨e, ha, -⟩)
      · obtain ⟨hr, rfl⟩ := Prod.mk.inj (Option.some.inj ha)
        obtain rfl := Except.ok.inj hr
        exact h
      · exact absurd (Prod.mk.inj (Option.some.inj ha)).1 (by simp)
  | throw e =>
    rw [Prog.throw_bind]
    constructor
    · intro h
      obtain ⟨rfl, rfl⟩ := Prod.mk.inj (Option.some.inj h)
      exact .inr ⟨e, rfl, rfl⟩
    · rintro (⟨a, s₁, ha, -⟩ | ⟨e', ha, rfl⟩)
      · exact absurd (Prod.mk.inj (Option.some.inj ha)).1 (by simp)
      · obtain ⟨he, rfl⟩ := Prod.mk.inj (Option.some.inj ha)
        obtain rfl := Except.error.inj he
        rfl
  | await o k ih =>
    rw [Prog.await_bind, finishBy_await]
    constructor
    · rintro ⟨r₁, s₁, took, ha, hk⟩
      rcases (ih r₁).mp hk with ⟨a, s₂, hp, hg⟩ | ⟨e, hp, he⟩
      · exact .inl ⟨a, s₂, finishBy_await.mpr ⟨r₁, s₁, took, ha, hp⟩, hg⟩
      · exact .inr ⟨e, finishBy_await.mpr ⟨r₁, s₁, took, ha, hp⟩, he⟩
    · rintro (⟨a, s₂, hp, hg⟩ | ⟨e, hp, he⟩)
      · obtain ⟨r₁, s₁, took, ha, hk⟩ := finishBy_await.mp hp
        exact ⟨r₁, s₁, took, ha, (ih r₁).mpr (.inl ⟨a, s₂, hk, hg⟩)⟩
      · obtain ⟨r₁, s₁, took, ha, hk⟩ := finishBy_await.mp hp
        exact ⟨r₁, s₁, took, ha, (ih r₁).mpr (.inr ⟨e, hk, he⟩)⟩

/-- `p` ends with a result, or throws and `h` goes on. -/
theorem Machine.finishBy_tryCatch {p : Prog S α} {h : ε → Prog S α} {r : Except ε α} :
    M.finishBy i f (p.tryCatch h) s = some (r, s') ↔
      (∃ a, M.finishBy i f p s = some (.ok a, s') ∧ r = .ok a) ∨
      ∃ e s₁, M.finishBy i f p s = some (.error e, s₁) ∧
        M.finishBy i f (h e) s₁ = some (r, s') := by
  induction p generalizing s with
  | ret a =>
    rw [Prog.tryCatch_ret]
    constructor
    · intro hr
      obtain ⟨rfl, rfl⟩ := Prod.mk.inj (Option.some.inj hr)
      exact .inl ⟨a, rfl, rfl⟩
    · rintro (⟨a', ha, rfl⟩ | ⟨e, s₁, ha, -⟩)
      · exact ha
      · exact absurd (Prod.mk.inj (Option.some.inj ha)).1 (by simp)
  | throw e =>
    rw [Prog.tryCatch_throw]
    constructor
    · exact fun hr => .inr ⟨e, s, rfl, hr⟩
    · rintro (⟨a, ha, -⟩ | ⟨e', s₁, ha, hr⟩)
      · exact absurd (Prod.mk.inj (Option.some.inj ha)).1 (by simp)
      · obtain ⟨he, rfl⟩ := Prod.mk.inj (Option.some.inj ha)
        obtain rfl := Except.error.inj he
        exact hr
  | await o k ih =>
    rw [Prog.tryCatch_await, finishBy_await]
    constructor
    · rintro ⟨r₁, s₁, took, ha, hk⟩
      rcases (ih r₁).mp hk with ⟨a, hp, hr⟩ | ⟨e, s₂, hp, hh⟩
      · exact .inl ⟨a, finishBy_await.mpr ⟨r₁, s₁, took, ha, hp⟩, hr⟩
      · exact .inr ⟨e, s₂, finishBy_await.mpr ⟨r₁, s₁, took, ha, hp⟩, hh⟩
    · rintro (⟨a, hp, hr⟩ | ⟨e, s₂, hp, hh⟩)
      · obtain ⟨r₁, s₁, took, ha, hk⟩ := finishBy_await.mp hp
        exact ⟨r₁, s₁, took, ha, (ih r₁).mpr (.inl ⟨a, hk, hr⟩)⟩
      · obtain ⟨r₁, s₁, took, ha, hk⟩ := finishBy_await.mp hp
        exact ⟨r₁, s₁, took, ha, (ih r₁).mpr (.inr ⟨e, s₂, hk, hh⟩)⟩

theorem Machine.finishBy_perform {o : S.Op} {r : Except ε (S.Res o)} :
    M.finishBy i f (Prog.perform o) s = some (r, s') ↔
      ∃ took, M.answer i (f o) o s = some (r, s', took) := by
  have hof : ∀ {r₁ : Except ε (S.Res o)} {s₁}, M.finishBy i f (Prog.ofExcept r₁) s₁ =
      some (r, s') ↔ r₁ = r ∧ s₁ = s' := by
    rintro (e | a) s₁
    · exact Option.some_inj.trans Prod.ext_iff
    · exact Option.some_inj.trans Prod.ext_iff
  unfold Prog.perform
  rw [finishBy_await]
  constructor
  · rintro ⟨r₁, s₁, took, ha, hk⟩
    obtain ⟨rfl, rfl⟩ := hof.mp hk
    exact ⟨took, ha⟩
  · rintro ⟨took, ha⟩
    exact ⟨r, s', took, ha, hof.mpr ⟨rfl, rfl⟩⟩

end FinishBy

/-! ## Under two rules -/

section Beside

variable {f g : S.Op → Mode M.Choice ε} {t : M.State} {R : M.State → M.State → Prop}

/-- `p` runs to its end from `s` under `f` and from `t` under `g`; the two ends are in `Q`. -/
def Machine.Beside (M : Machine S) (i : Nat) (f g : S.Op → Mode M.Choice ε)
    (Q : Except ε α → Except ε α → M.State → M.State → Prop) (p : Prog S α) (s t : M.State) :
    Prop :=
  ∃ x y s' t', M.finishBy i f p s = some (x, s') ∧ M.finishBy i g p t = some (y, t') ∧ Q x y s' t'

/-- One outcome, in states related by `R`. -/
def Agrees {σ : Type} (R : σ → σ → Prop) (x y : Except ε α) (s t : σ) : Prop := x = y ∧ R s t

/-- Neither throws, and the states are related by `R`. -/
def Done {σ : Type} (R : σ → σ → Prop) (x y : Except ε PUnit) (s t : σ) : Prop :=
  x = .ok ⟨⟩ ∧ y = .ok ⟨⟩ ∧ R s t

theorem Machine.Beside.mono {Q Q' : Except ε α → Except ε α → M.State → M.State → Prop}
    {p : Prog S α} (h : M.Beside i f g Q p s t) (hQ : ∀ x y s' t', Q x y s' t' → Q' x y s' t') :
    M.Beside i f g Q' p s t := by
  obtain ⟨x, y, s', t', hs, ht, hq⟩ := h
  exact ⟨x, y, s', t', hs, ht, hQ x y s' t' hq⟩

theorem Machine.beside_ret {Q : Except ε α → Except ε α → M.State → M.State → Prop} {a : α}
    (h : Q (.ok a) (.ok a) s t) : M.Beside i f g Q (.ret a) s t :=
  ⟨_, _, s, t, rfl, rfl, h⟩

theorem Machine.beside_throw {Q : Except ε α → Except ε α → M.State → M.State → Prop} {e : ε}
    (h : Q (.error e) (.error e) s t) : M.Beside i f g Q (.throw e) s t :=
  ⟨_, _, s, t, rfl, rfl, h⟩

/-- One operation, which may end in two ways. -/
theorem Machine.beside_perform {o : S.Op}
    {Q : Except ε (S.Res o) → Except ε (S.Res o) → M.State → M.State → Prop}
    {x y : Except ε (S.Res o)} {s' t' : M.State} {a b : Bool}
    (hs : M.answer i (f o) o s = some (x, s', a)) (ht : M.answer i (g o) o t = some (y, t', b))
    (hq : Q x y s' t') : M.Beside i f g Q (Prog.perform o) s t :=
  ⟨x, y, s', t', finishBy_perform.mpr ⟨a, hs⟩, finishBy_perform.mpr ⟨b, ht⟩, hq⟩

/-- Run `p`, whose two runs agree, then `k`. -/
theorem Machine.Beside.bind {p : Prog S α} {k : α → Prog S β}
    {Q : Except ε β → Except ε β → M.State → M.State → Prop}
    (hp : M.Beside i f g (Agrees R) p s t)
    (hok : ∀ a s' t', M.finishBy i f p s = some (.ok a, s') → R s' t' →
      M.Beside i f g Q (k a) s' t')
    (herr : ∀ e s' t', M.finishBy i f p s = some (.error e, s') → R s' t' →
      Q (.error e) (.error e) s' t') : M.Beside i f g Q (p >>= k) s t := by
  obtain ⟨x, y, s₁, t₁, hs, ht, rfl, hR⟩ := hp
  cases x with
  | ok a =>
    obtain ⟨x, y, s', t', hs', ht', hq⟩ := hok a s₁ t₁ hs hR
    exact ⟨x, y, s', t', finishBy_bind.mpr (.inl ⟨a, s₁, hs, hs'⟩),
      finishBy_bind.mpr (.inl ⟨a, t₁, ht, ht'⟩), hq⟩
  | error e =>
    exact ⟨_, _, s₁, t₁, finishBy_bind.mpr (.inr ⟨e, hs, rfl⟩),
      finishBy_bind.mpr (.inr ⟨e, ht, rfl⟩), herr e s₁ t₁ hs hR⟩

/-- Run `p`, neither run of which throws, then `k`. -/
theorem Machine.Beside.andThen {p : Prog S PUnit} {k : PUnit → Prog S β}
    {Q : Except ε β → Except ε β → M.State → M.State → Prop} (hp : M.Beside i f g (Done R) p s t)
    (hk : ∀ s' t', R s' t' → M.Beside i f g Q (k ⟨⟩) s' t') : M.Beside i f g Q (p >>= k) s t := by
  obtain ⟨x, y, s₁, t₁, hs, ht, rfl, rfl, hR⟩ := hp
  obtain ⟨x, y, s', t', hs', ht', hq⟩ := hk s₁ t₁ hR
  exact ⟨x, y, s', t', finishBy_bind.mpr (.inl ⟨_, s₁, hs, hs'⟩),
    finishBy_bind.mpr (.inl ⟨_, t₁, ht, ht'⟩), hq⟩

/-- A program whose errors are swallowed. -/
theorem Machine.Beside.swallow {p : Prog S PUnit}
    (hp : M.Beside i f g (fun _ _ => R) p s t) :
    M.Beside i f g (Done R) (p.tryCatch fun _ => .ret ⟨⟩) s t := by
  obtain ⟨x, y, s', t', hs, ht, hR⟩ := hp
  have hend : ∀ {h : S.Op → Mode M.Choice ε} {z : Except ε PUnit} {u u' : M.State},
      M.finishBy i h p u = some (z, u') →
      M.finishBy i h (p.tryCatch fun _ => .ret ⟨⟩) u = some (.ok ⟨⟩, u') := by
    intro h z u u' hz
    cases z with
    | ok a => exact finishBy_tryCatch.mpr (.inl ⟨a, hz, rfl⟩)
    | error e => exact finishBy_tryCatch.mpr (.inr ⟨e, u', hz, rfl⟩)
  exact ⟨_, _, s', t', hend hs, hend ht, rfl, rfl, hR⟩

/-- A loop, no round of which throws. -/
theorem Machine.beside_forM {body : β → Prog S PUnit}
    (hf : ∀ b s t, R s t → M.Beside i f g (Done R) (body b) s t) (l : List β) (h : R s t) :
    M.Beside i f g (Done R) (l.forM body) s t := by
  induction l generalizing s t with
  | nil => exact beside_ret ⟨rfl, rfl, h⟩
  | cons b bs ih =>
    rw [Prog.forM_cons]
    exact (hf b s t h).andThen fun _ _ hR => ih hR

/-- Operations that answer alike from related states. -/
theorem Machine.beside_of_all {P : S.Op → Prop} {p : Prog S α} (hp : p.All P)
    (hR : ∀ o s t, P o → R s t → ∃ r s₁ t₁ a b, M.answer i (f o) o s = some (r, s₁, a) ∧
      M.answer i (g o) o t = some (r, t₁, b) ∧ R s₁ t₁) (h : R s t) :
    M.Beside i f g (Agrees R) p s t := by
  induction p generalizing s t with
  | ret a => exact beside_ret ⟨rfl, h⟩
  | throw e => exact beside_throw ⟨rfl, h⟩
  | await o k ih =>
    obtain ⟨r, s₁, t₁, a, b, hs, ht, h₁⟩ := hR o s t hp.1 h
    obtain ⟨x, y, s', t', hs', ht', hq⟩ := ih r (hp.2 r) h₁
    exact ⟨x, y, s', t', finishBy_await.mpr ⟨r, s₁, a, hs, hs'⟩,
      finishBy_await.mpr ⟨r, t₁, b, ht, ht'⟩, hq⟩

end Beside

/-! ## Every run -/

/-- Every run of `p` alone from `s` whose operations end as `ok` allows ends in `Q`. A crash is an
end too. -/
def Machine.Always (M : Machine S) (i : Nat) (ok : Mode M.Choice ε → Prop)
    (Q : Option (Except ε α) → M.State → Prop) (p : Prog S α) (s : M.State) : Prop :=
  ∀ ms x s', (∀ m ∈ ms, ok m) → M.Runs i p s ms x s' → Q x s'

section Always

variable {ok : Mode M.Choice ε → Prop}

theorem Machine.Always.mono {Q Q' : Option (Except ε α) → M.State → Prop} {p : Prog S α}
    (h : M.Always i ok Q p s) (hQ : ∀ x s', Q x s' → Q' x s') : M.Always i ok Q' p s :=
  fun ms x s' hms hr => hQ x s' (h ms x s' hms hr)

theorem Machine.always_ret {Q : Option (Except ε α) → M.State → Prop} {a : α}
    (h : Q (some (.ok a)) s) : M.Always i ok Q (.ret a) s := by
  intro ms x s' _ hr
  obtain ⟨-, rfl, rfl⟩ := runs_ret.mp hr
  exact h

theorem Machine.always_throw {Q : Option (Except ε α) → M.State → Prop} {e : ε}
    (h : Q (some (.error e)) s) : M.Always i ok Q (.throw e : Prog S α) s := by
  intro ms x s' _ hr
  obtain ⟨-, rfl, rfl⟩ := runs_throw.mp hr
  exact h

/-- One operation: a crash before it, and each of its answers. -/
theorem Machine.always_perform {o : S.Op} {Q : Option (Except ε (S.Res o)) → M.State → Prop}
    (hstop : Q none s)
    (h : ∀ m r s₁ took, ok m → M.answer i m o s = some (r, s₁, took) → Q (some r) s₁) :
    M.Always i ok Q (Prog.perform o) s := by
  intro ms x s' hms hr
  rcases runs_perform.mp hr with ⟨-, rfl, rfl⟩ | ⟨m, r, took, rfl, ha, rfl⟩
  · exact hstop
  · exact h m r s' took (hms m List.mem_cons_self) ha

/-- Run `p`, then `f` on what it returns. -/
theorem Machine.always_seq {p : Prog S α} {f : α → Prog S β}
    {Q : Option (Except ε α) → M.State → Prop} {Q' : Option (Except ε β) → M.State → Prop}
    (hp : M.Always i ok Q p s) (hok : ∀ a s', Q (some (.ok a)) s' → M.Always i ok Q' (f a) s')
    (herr : ∀ e s', Q (some (.error e)) s' → Q' (some (.error e)) s')
    (hstop : ∀ s', Q none s' → Q' none s') : M.Always i ok Q' (p >>= f) s := by
  intro ms x s' hms hr
  rcases runs_bind.mp hr with ⟨a, s₁, ms₁, ms₂, rfl, h₁, h₂⟩ | ⟨e, h, rfl⟩ | ⟨h, rfl⟩
  · have hq := hp ms₁ _ s₁ (fun m hm => hms m (List.mem_append_left _ hm)) h₁
    exact hok a s₁ hq ms₂ x s' (fun m hm => hms m (List.mem_append_right _ hm)) h₂
  · exact herr e s' (hp ms _ s' hms h)
  · exact hstop s' (hp ms _ s' hms h)

/-- The run does not throw: it returns with `Q`, or stops with `R`. -/
def Returns {σ : Type} (Q : α → σ → Prop) (R : σ → Prop) : Option (Except ε α) → σ → Prop
  | some (.ok a), s => Q a s
  | some (.error _), _ => False
  | none, s => R s

/-- Run `p`, which does not throw, then `f` on what it returns. -/
theorem Machine.always_then {p : Prog S α} {f : α → Prog S β} {Q : α → M.State → Prop}
    {R : M.State → Prop} {Q' : Option (Except ε β) → M.State → Prop}
    (hp : M.Always i ok (Returns Q R) p s) (hok : ∀ a s', Q a s' → M.Always i ok Q' (f a) s')
    (hstop : ∀ s', R s' → Q' none s') : M.Always i ok Q' (p >>= f) s :=
  always_seq hp hok (fun _ _ h => h.elim) hstop

/-- Run `p`, and `h` on what it throws. -/
theorem Machine.always_try {p : Prog S α} {h : ε → Prog S α}
    {Q Q' : Option (Except ε α) → M.State → Prop} (hp : M.Always i ok Q p s)
    (hok : ∀ a s', Q (some (.ok a)) s' → Q' (some (.ok a)) s')
    (herr : ∀ e s', Q (some (.error e)) s' → M.Always i ok Q' (h e) s')
    (hstop : ∀ s', Q none s' → Q' none s') : M.Always i ok Q' (p.tryCatch h) s := by
  intro ms x s' hms hr
  rcases runs_tryCatch.mp hr with ⟨a, h₁, rfl⟩ | ⟨e, s₁, ms₁, ms₂, rfl, h₁, h₂⟩ | ⟨h₁, rfl⟩
  · exact hok a s' (hp ms _ s' hms h₁)
  · have hq := hp ms₁ _ s₁ (fun m hm => hms m (List.mem_append_left _ hm)) h₁
    exact herr e s₁ hq ms₂ x s' (fun m hm => hms m (List.mem_append_right _ hm)) h₂
  · exact hstop s' (hp ms _ s' hms h₁)

/-- The result of `p`, wrapped. -/
theorem Machine.always_map {p : Prog S α} {f : α → β} {Q : Option (Except ε β) → M.State → Prop}
    (hp : M.Always i ok (fun x => Q (x.map fun r => r.map f)) p s) :
    M.Always i ok Q (f <$> p) s := by
  rw [map_eq_pure_bind]
  exact always_seq hp (fun _ _ h => always_ret h) (fun _ _ h => h) fun _ h => h

/-- A loop: `J` relates what is left of the list and the state. -/
theorem Machine.always_forM {f : β → Prog S PUnit} {J : List β → M.State → Prop}
    {R : M.State → Prop}
    (hf : ∀ b bs s, J (b :: bs) s → M.Always i ok (Returns (fun _ => J bs) R) (f b) s)
    {l : List β} (hs : J l s) : M.Always i ok (Returns (fun _ => J []) R) (l.forM f) s := by
  induction l generalizing s with
  | nil => exact always_ret hs
  | cons b bs ih =>
    rw [Prog.forM_cons]
    exact always_then (hf b bs s hs) (fun _ _ h => ih h) fun _ h => h

/-- The outcome of `p` as a result. -/
theorem Machine.always_attempt {p : Prog S α}
    {Q : Option (Except ε (Except ε α)) → M.State → Prop}
    (hp : M.Always i ok (fun x => match x with
      | some r => Q (some (.ok r))
      | none => Q none) p s) : M.Always i ok Q p.attempt s := by
  induction p generalizing s with
  | ret a => exact always_ret (hp [] _ s (by simp) (.ret a s))
  | throw e => exact always_ret (hp [] _ s (by simp) (.throw e s))
  | await o k ih =>
    intro ms x s' hms hr
    rcases runs_await.mp hr with ⟨rfl, rfl, rfl⟩ | ⟨m, ms', r, s₁, took, rfl, ha, hk⟩
    · exact hp [] none s' (by simp) (.stop o k s')
    · refine ih r (fun ms x s' hms' hr' => ?_) ms' x s'
        (fun m' hm' => hms m' (List.mem_cons_of_mem m hm')) hk
      refine hp (m :: ms) x s' (fun m' hm' => ?_) (.await ha hr')
      rcases List.mem_cons.mp hm' with rfl | hm'
      · exact hms m' List.mem_cons_self
      · exact hms' m' hm'

/-- **Operations refined to programs.** The program of each operation either does the operation, or
is stopped before it did anything that `abs` sees; then it leaves `left`. So what holds of every run
of `p` holds of every run of its expansion. -/
theorem Machine.always_expand {T : Sig ε} {N : Machine T} {h : (o : S.Op) → Prog T (S.Res o)}
    (abs : N.State → M.State) (idle left : N.State → Prop) {ok' : Mode N.Choice ε → Prop}
    {P : S.Op → Prop} (hop : ∀ o, P o → ∀ t, idle t → N.Always i ok' (fun x t' => match x with
      | some r => idle t' ∧ ∃ m took, ok m ∧ M.answer i m o (abs t) = some (r, abs t', took)
      | none => left t' ∧ abs t' = abs t) (h o) t)
    {Q : Option (Except ε α) → M.State → Prop} {p : Prog S α} (hp : p.All P) {t : N.State}
    (ht : idle t) (hQ : M.Always i ok Q p (abs t)) :
    N.Always i ok' (fun x t' => Q x (abs t') ∧ match x with
      | some _ => idle t'
      | none => left t') (p.expand h) t := by
  induction p generalizing t with
  | ret a => exact always_ret ⟨hQ [] _ _ (by simp) (.ret a _), ht⟩
  | throw e => exact always_throw ⟨hQ [] _ _ (by simp) (.throw e _), ht⟩
  | await o k ih =>
    rw [Prog.expand_await]
    refine always_seq (Q := fun x t' => match x with
      | some (.ok r) => idle t' ∧ ∃ m took, ok m ∧
          M.answer i m o (abs t) = some (r, abs t', took)
      | some (.error _) => False
      | none => left t' ∧ abs t' = abs t) (always_attempt ((hop o hp.1 t ht).mono ?_)) ?_ ?_ ?_
    · rintro (_ | r) t' hx <;> exact hx
    · rintro r t' ⟨hidle, m, took, hm, ha⟩
      refine ih r (hp.2 r) hidle fun ms x s' hms hr => ?_
      refine hQ (m :: ms) x s' (fun m' hm' => ?_) (.await ha hr)
      rcases List.mem_cons.mp hm' with rfl | hm'
      · exact hm
      · exact hms m' hm'
    · exact fun _ _ h => h.elim
    · exact fun t' hx => ⟨hQ [] none _ (by simp) (hx.2 ▸ .stop o k _), hx.1⟩

/-! ## Again after a crash -/

/-- Runs of `p` one after the other, each of which stopped; `lose i` is what becomes of the state
when thread `i` is gone. -/
inductive Machine.Restarts (M : Machine S) (ok : Mode M.Choice ε → Prop)
    (lose : Nat → M.State → M.State) (p : Prog S α) (s : M.State) : M.State → Prop
  | refl : Machine.Restarts M ok lose p s s
  | again {i : Nat} {ms : List (Mode M.Choice ε)} {s₁ s₂ : M.State}
      (h : Machine.Restarts M ok lose p s s₁) (hms : ∀ m ∈ ms, ok m)
      (hr : M.Runs i p s₁ ms none s₂) : Machine.Restarts M ok lose p s (lose i s₂)

/-- What every run of `p` keeps, wherever it stops. -/
theorem Machine.Restarts.keeps {lose : Nat → M.State → M.State} {p : Prog S α} {J : M.State → Prop}
    (hJ : ∀ i s, J s → M.Always i ok (fun x s' => x = none → J (lose i s')) p s)
    (h : M.Restarts ok lose p s s') (hs : J s) : J s' := by
  induction h with
  | refl => exact hs
  | @again i ms s₁ s₂ _ hms hr ih => exact hJ i s₁ ih ms none s₂ hms hr rfl

end Always

/-- The outcome of what is left of a program. -/
def Prog.outcome : Prog S α → Option (Except ε α)
  | .ret a => some (.ok a)
  | .throw e => some (.error e)
  | .await _ _ => none

/-- A thread that alone takes steps runs its program alone. -/
theorem Machine.Runs.of_replay {c c' : Config M} {call : M.Call} {p : Prog S M.Out}
    (hi : c.threads i = some ⟨call, p, false⟩) (hr : M.replay c (ms.map (.run i)) = some c') :
    ∃ p', c'.threads i = some ⟨call, p', false⟩ ∧ M.Runs i p c.state ms p'.outcome c'.state := by
  induction ms generalizing c p with
  | nil =>
    obtain rfl := Option.some.inj hr
    refine ⟨p, hi, ?_⟩
    cases p with
    | ret a => exact .ret a c.state
    | throw e => exact .throw e c.state
    | await o k => exact .stop o k c.state
  | cons m ms ih =>
    obtain ⟨c₁, h₁, h₂⟩ := Option.bind_eq_some_iff.mp hr
    simp only [step, hi] at h₁
    cases p with
    | ret a => exact absurd h₁ (by simp)
    | throw e => exact absurd h₁ (by simp)
    | await o k =>
      obtain ⟨⟨r, s₁, took⟩, ha, rfl⟩ := Option.map_eq_some_iff.mp h₁
      obtain ⟨p', hp', hruns⟩ := ih (p := k r) (Function.update_self ..) h₂
      exact ⟨p', hp', .await ha hruns⟩

/-- A run of a program alone is a run of the pool in which the other threads wait. -/
theorem Machine.Runs.reach {c₀ c : Config M} {call : M.Call} {p : Prog S M.Out}
    {x : Option (Except ε M.Out)} (h : M.Runs i p c.state ms x s') (hc : M.Reachable c₀ c)
    (hi : c.threads i = some ⟨call, p, false⟩) :
    ∃ c' p', M.Reachable c₀ c' ∧ c.trace <:+ c'.trace ∧ c'.state = s' ∧
      c'.threads i = some ⟨call, p', false⟩ ∧ p'.outcome = x := by
  generalize hs : c.state = s at h
  induction h generalizing c with
  | ret a s | throw e s | stop o k s =>
    exact ⟨c, _, hc, List.suffix_rfl, hs, hi, rfl⟩
  | @await o k s s₁ s' m ms r took x ha _ ih =>
    subst hs
    have hstep : M.step c (.run i m) = some ⟨⟨s₁, ⟨i, call, o, took, c.state⟩ :: c.trace⟩,
        Function.update c.threads i (some ⟨call, k r, false⟩)⟩ := by
      simp only [step, hi, ha, Option.map_some]
    obtain ⟨c', p', hc', htr, hrest⟩ :=
      ih (.step _ hc trivial hstep) (Function.update_self ..) rfl
    exact ⟨c', p', hc', (List.suffix_cons _ _).trans htr, hrest⟩

/-- Call `call` ran as thread `i` and ended with `r`. -/
def Config.Ended (c : Config M) (i : Nat) (call : M.Call) (r : Except ε M.Out) : Prop :=
  ∃ p, c.threads i = some ⟨call, p, false⟩ ∧ p.outcome = some r

/-- **A thread that need not wait** can be run to its end, while the others wait. -/
theorem Machine.reach_end {ok : Config M → Event M → Prop} {P : S.Op → Prop} {J : M.State → Prop}
    {call : M.Call} (hrun : ∀ {c : Config M} {o}, c.Waits i call o → P o → J c.state →
      ∃ m r s took, ok c (.run i m) ∧ M.answer i m o c.state = some (r, s, took) ∧ J s)
    {p : Prog S M.Out} (hp : p.Each fun o _ => P o) {c : Config M}
    (hi : c.threads i = some ⟨call, p, false⟩) (hJ : J c.state) :
    ∃ c' r, M.Reach ok c c' ∧ c'.Ended i call r ∧ J c'.state ∧
      ∀ j, j ≠ i → c'.threads j = c.threads j := by
  induction p generalizing c with
  | ret a => exact ⟨c, .ok a, .init, ⟨_, hi, rfl⟩, hJ, fun _ _ => rfl⟩
  | throw e => exact ⟨c, .error e, .init, ⟨_, hi, rfl⟩, hJ, fun _ _ => rfl⟩
  | await o k ih =>
    obtain ⟨m, r, s, took, hok, ha, hs⟩ := hrun ⟨k, hi⟩ hp.1 hJ
    obtain ⟨c₁, hstep, hi₁, rfl, hothers₁⟩ : ∃ c₁, M.step c (.run i m) = some c₁ ∧
        c₁.threads i = some ⟨call, k r, false⟩ ∧ c₁.state = s ∧
        ∀ j, j ≠ i → c₁.threads j = c.threads j := by
      refine ⟨⟨⟨s, ⟨i, call, o, took, c.state⟩ :: c.trace⟩,
        Function.update c.threads i (some ⟨call, k r, false⟩)⟩, ?_, Function.update_self .., rfl,
        fun j hj => Function.update_of_ne hj ..⟩
      simp only [step, hi, ha, Option.map_some]
    obtain ⟨c', r', hc', hend, hJ', hothers⟩ := ih r (hp.2 r) hi₁ hs
    exact ⟨c', r', (Machine.Reach.step _ .init hok hstep).trans hc', hend, hJ',
      fun j hj => (hothers j hj).trans (hothers₁ j hj)⟩

theorem Prog.outcome_ok {p : Prog S α} {a : α} (h : p.outcome = some (.ok a)) : p = .ret a := by
  cases p with
  | ret b => exact congrArg _ (Except.ok.inj (Option.some.inj h))
  | throw e => exact absurd h (by simp [outcome])
  | await o k => exact absurd h (by simp [outcome])

end Async
