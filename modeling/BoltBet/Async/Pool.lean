import BoltBet.Async.Prog
import Mathlib.Data.List.Chain
import Mathlib.Logic.Function.Basic

/-!
# Pools: any number of programs over one shared state

A `Machine` runs calls. Each call is a program (`body`), every awaited operation is one atomic
step on the shared state (`exec`), and the environment may step too (`env`). `exec` answers
`none` when the operation has to wait (a lock held by another program).

An event resolves everything left open, so `step` is a function and a run is a list of events
(`replay`): which call starts, which program goes on, how its operation ends, who crashes.

* **The end of an operation** (`Mode`): it takes effect and answers (`ok`); it throws without
  effect (`fail`); it takes effect but its answer is lost, so it throws (`lost`).
* **Crashes**: a crashed program never runs again. Whatever it did stays.
* **The trace**: every executed operation is recorded with the state it ran on, so what happened
  earlier in a run is a property of its last configuration.

`Reach ok c₀ c`: `c` is reached from `c₀` by steps that all satisfy `ok`.
-/

namespace Async

variable {ε : Type} {S : Sig ε}

/-- How an awaited operation ends. -/
inductive Mode (χ ε : Type) where
  | ok (ch : χ)
  | fail (e : ε)
  | lost (ch : χ) (e : ε)

/-- The choice an operation was run with, unless it failed. -/
def Mode.choice? {χ ε : Type} : Mode χ ε → Option χ
  | .ok ch => some ch
  | .lost ch _ => some ch
  | .fail _ => none

/-- Calls, their programs, and the meaning of the operations on a shared state. -/
structure Machine (S : Sig ε) where
  Call : Type
  Out : Type
  State : Type
  /-- What the surroundings choose when an operation runs: fresh ids, the clock, row orders. -/
  Choice : Type
  /-- Steps of the surroundings alone. -/
  Env : Type
  body : Call → Prog S Out
  /-- What starting a call does to the state; `none` when it cannot start. -/
  start : Call → State → Option State
  exec : Nat → Choice → (o : S.Op) → State → Option (Except ε (S.Res o) × State)
  env : Env → State → Option State

variable {M : Machine S}

/-- A started call: what is left of its program, and whether its process crashed. -/
structure Thread (M : Machine S) where
  call : M.Call
  prog : Prog S M.Out
  crashed : Bool

/-- An executed operation: who ran it, whether it took effect, and the state before it. -/
structure Entry (M : Machine S) where
  tid : Nat
  call : M.Call
  op : S.Op
  took : Bool
  before : M.State

/-- The shared state and the operations executed so far, the last one first. -/
structure World (M : Machine S) where
  state : M.State
  trace : List (Entry M)

/-- A configuration: the world and the calls started so far. -/
structure Config (M : Machine S) extends World M where
  threads : Nat → Option (Thread M)

/-- A step of a run. -/
inductive Event (M : Machine S) where
  | spawn (i : Nat) (call : M.Call)
  | run (i : Nat) (m : Mode M.Choice ε)
  | crash (i : Nat)
  | env (e : M.Env)

namespace Config

/-- Call `call` runs as thread `i` and is suspended at the operation `o`. -/
def Waits (c : Config M) (i : Nat) (call : M.Call) (o : S.Op) : Prop :=
  ∃ k, c.threads i = some ⟨call, .await o k, false⟩

/-- Call `call` ran as thread `i` and returned `a`. -/
def Returned (c : Config M) (i : Nat) (call : M.Call) (a : M.Out) : Prop :=
  c.threads i = some ⟨call, .ret a, false⟩

/-- The call of thread `i` and what it answered. -/
def result? (c : Config M) (i : Nat) : Option (M.Call × M.Out) :=
  match c.threads i with
  | some ⟨call, .ret a, false⟩ => some (call, a)
  | _ => none

/-- What thread `i` waits for. -/
def waiting (c : Config M) (i : Nat) : Option (M.Call × S.Op) :=
  match c.threads i with
  | some ⟨call, .await o _, false⟩ => some (call, o)
  | _ => none

/-- A condition on the operations that run: `cond` holds of each where it runs. -/
def When (cond : Config M → Nat → M.Call → S.Op → Prop) (c : Config M) : Event M → Prop
  | .run i _ => ∀ x ∈ c.waiting i, cond c i x.1 x.2
  | _ => True

/-- Call `call` was started as thread `i`. -/
def Started (c : Config M) (i : Nat) (call : M.Call) : Prop :=
  ∃ p crashed, c.threads i = some ⟨call, p, crashed⟩

/-- The call of thread `i` was started and runs no further: it returned, threw or crashed. -/
def Over (c : Config M) (i : Nat) : Prop := (c.threads i).isSome = true ∧ c.waiting i = none

/-- No call is suspended: every one returned, threw or crashed. -/
def Quiet (c : Config M) : Prop := ∀ i call o, ¬ c.Waits i call o

end Config

/-- Nothing has been started yet. -/
def Machine.init (M : Machine S) (s : M.State) : Config M := ⟨⟨s, []⟩, fun _ => none⟩

/-- The answer to an operation, the state after it, and whether it took effect. -/
def Machine.answer (M : Machine S) (i : Nat) (m : Mode M.Choice ε) (o : S.Op) (s : M.State) :
    Option (Except ε (S.Res o) × M.State × Bool) :=
  match m with
  | .ok ch => (M.exec i ch o s).map fun x => (x.1, x.2, x.1.toBool)
  | .fail e => some (.error e, s, false)
  | .lost ch e => (M.exec i ch o s).map fun x => (.error e, x.2, x.1.toBool)

/-- An operation that ends so takes effect. -/
def Machine.took (M : Machine S) (i : Nat) (m : Mode M.Choice ε) (o : S.Op) (s : M.State) : Bool :=
  (M.answer i m o s).any (·.2.2)

/-- A condition on the operations that take effect: `cond` holds of each where it runs. -/
def Config.WhenTook (cond : Config M → Nat → M.Call → S.Op → Prop) (c : Config M) :
    Event M → Prop
  | .run i m => ∀ x ∈ c.waiting i, M.took i m x.2 c.state = true → cond c i x.1 x.2
  | _ => True

/-- **One step of the pool.** -/
def Machine.step (M : Machine S) (c : Config M) : Event M → Option (Config M)
  | .spawn i call =>
    match c.threads i with
    | some _ => none
    | none => (M.start call c.state).map fun s =>
        ⟨⟨s, c.trace⟩, Function.update c.threads i (some ⟨call, M.body call, false⟩)⟩
  | .run i m =>
    match c.threads i with
    | some ⟨call, .await o k, false⟩ => (M.answer i m o c.state).map fun x =>
        ⟨⟨x.2.1, ⟨i, call, o, x.2.2, c.state⟩ :: c.trace⟩,
          Function.update c.threads i (some ⟨call, k x.1, false⟩)⟩
    | _ => none
  | .crash i =>
    match c.threads i with
    | some ⟨call, .await o k, false⟩ =>
      some ⟨c.toWorld, Function.update c.threads i (some ⟨call, .await o k, true⟩)⟩
    | _ => none
  | .env e => (M.env e c.state).map fun s => ⟨⟨s, c.trace⟩, c.threads⟩

/-- Run the events in order; `none` when one of them is not possible. -/
def Machine.replay (M : Machine S) (c : Config M) : List (Event M) → Option (Config M)
  | [] => some c
  | e :: es => (M.step c e).bind fun c' => M.replay c' es

/-- The configurations reached from `c₀` by steps that satisfy `ok`. -/
inductive Machine.Reach (M : Machine S) (ok : Config M → Event M → Prop) (c₀ : Config M) :
    Config M → Prop
  | init : Machine.Reach M ok c₀ c₀
  | step {c c' : Config M} (e : Event M) : Machine.Reach M ok c₀ c → ok c e →
      M.step c e = some c' → Machine.Reach M ok c₀ c'

/-- The configurations of all runs from `c₀`. -/
abbrev Machine.Reachable (M : Machine S) (c₀ : Config M) : Config M → Prop :=
  M.Reach (fun _ _ => True) c₀

/-- Every step of the run `es` from `c` satisfies `ok`. -/
def Machine.Meets (M : Machine S) (ok : Config M → Event M → Prop) :
    Config M → List (Event M) → Prop
  | _, [] => True
  | c, e :: es => ok c e ∧ ∀ c' ∈ M.step c e, Machine.Meets M ok c' es

instance Machine.decidableMeets (ok : Config M → Event M → Prop) [∀ c e, Decidable (ok c e)] :
    ∀ c es, Decidable (M.Meets ok c es)
  | _, [] => inferInstanceAs (Decidable True)
  | c, e :: es =>
    have : DecidablePred fun c' => M.Meets ok c' es := fun c' => Machine.decidableMeets ok c' es
    inferInstanceAs (Decidable (ok c e ∧ ∀ c' ∈ M.step c e, M.Meets ok c' es))

/-- The step `e` from `c` executes the operation `x`. -/
def Machine.Executes (M : Machine S) (c : Config M) (e : Event M) (x : Entry M) : Prop :=
  ∃ c', M.step c e = some c' ∧ c'.trace = x :: c.trace

/-- The states of the run, the last one first: the current one and those operations ran on. -/
def World.history (w : World M) : List M.State := w.state :: w.trace.map Entry.before

/-- The operations executed since the last one of thread `i`, the last one first. -/
def World.since (w : World M) (i : Nat) : List (Entry M) := w.trace.takeWhile (·.tid ≠ i)

/-- The operations executed after one that satisfies `p`, the last one first. -/
def executedAfter (p : Entry M → Bool) : List (Entry M) → List (Entry M)
  | [] => []
  | x :: l => if l.any p then x :: executedAfter p l else []

theorem mem_executedAfter {p : Entry M → Bool} {l l₀ : List (Entry M)} {x : Entry M}
    (h : ∃ s ∈ l₀, p s = true) (hx : x ∈ l) : x ∈ executedAfter p (l ++ l₀) := by
  have hany : ∀ l : List (Entry M), (l ++ l₀).any p = true := by
    intro l
    obtain ⟨s, hs, hp⟩ := h
    exact List.any_eq_true.mpr ⟨s, List.mem_append_right l hs, hp⟩
  induction l with
  | nil => exact absurd hx (by simp)
  | cons y l ih =>
    rw [List.cons_append, executedAfter, if_pos (hany l)]
    rcases List.mem_cons.mp hx with rfl | hx
    · exact List.mem_cons_self
    · exact List.mem_cons_of_mem _ (ih hx)

theorem executedAfter_suffix {p : Entry M → Bool} {l l' : List (Entry M)} (h : l <:+ l') :
    executedAfter p l ⊆ executedAfter p l' := by
  have hnone : ∀ l : List (Entry M), l.any p = false → executedAfter p l = [] := by
    intro l hl
    cases l with
    | nil => rfl
    | cons x l =>
      rw [List.any_cons, Bool.or_eq_false_iff] at hl
      rw [executedAfter, if_neg (by simp [hl.2])]
  obtain ⟨t, rfl⟩ := h
  induction t with
  | nil => exact fun x hx => hx
  | cons y t ih =>
    intro x hx
    rw [List.cons_append, executedAfter]
    split
    · exact List.mem_cons_of_mem _ (ih hx)
    · rename_i hany
      rw [Bool.not_eq_true] at hany
      exact absurd (hnone _ hany ▸ ih hx) (by simp)

/-! ## Runs -/

theorem Config.Waits.waiting {c : Config M} {i : Nat} {call : M.Call} {o : S.Op}
    (h : c.Waits i call o) : c.waiting i = some (call, o) := by
  obtain ⟨k, hk⟩ := h
  unfold Config.waiting
  rw [hk]

theorem Config.waiting_eq_none {c : Config M} {i : Nat} :
    c.waiting i = none ↔ ∀ call o, ¬ c.Waits i call o := by
  constructor
  · intro h call o hw
    exact absurd (h.symm.trans hw.waiting) (by simp)
  · intro h
    unfold Config.waiting
    split
    · rename_i call o k hi
      exact absurd ⟨k, hi⟩ (h call o)
    · rfl

theorem Config.returned_iff {c : Config M} {i : Nat} {call : M.Call} {a : M.Out} :
    c.Returned i call a ↔ c.result? i = some (call, a) := by
  unfold Config.Returned Config.result?
  constructor
  · intro h
    rw [h]
  · intro h
    split at h
    · rename_i ht
      obtain ⟨rfl, rfl⟩ := Prod.mk.inj (Option.some.inj h)
      exact ht
    · exact absurd h (by simp)

theorem Config.When.run {cond : Config M → Nat → M.Call → S.Op → Prop} {c : Config M} {i : Nat}
    {m : Mode M.Choice ε} (h : c.When cond (.run i m)) {call : M.Call} {o : S.Op}
    (hw : c.Waits i call o) : cond c i call o := h (call, o) hw.waiting

instance (cond : Config M → Nat → M.Call → S.Op → Prop)
    [∀ c i call o, Decidable (cond c i call o)] (c : Config M) :
    ∀ e, Decidable (c.When cond e)
  | .run i _ => inferInstanceAs (Decidable (∀ x ∈ c.waiting i, cond c i x.1 x.2))
  | .spawn _ _ => inferInstanceAs (Decidable True)
  | .crash _ => inferInstanceAs (Decidable True)
  | .env _ => inferInstanceAs (Decidable True)

instance (cond : Config M → Nat → M.Call → S.Op → Prop)
    [∀ c i call o, Decidable (cond c i call o)] (c : Config M) :
    ∀ e, Decidable (c.WhenTook cond e)
  | .run i _ => inferInstanceAs (Decidable (∀ x ∈ c.waiting i, _ → cond c i x.1 x.2))
  | .spawn _ _ => inferInstanceAs (Decidable True)
  | .crash _ => inferInstanceAs (Decidable True)
  | .env _ => inferInstanceAs (Decidable True)

instance (c : Config M) (i : Nat) : Decidable (c.Over i) :=
  decidable_of_iff ((c.threads i).isSome = true ∧ (c.waiting i).isNone = true)
    (and_congr_right fun _ => Option.isNone_iff_eq_none)

/-- An operation of another thread is one since the last of `i`. -/
theorem World.since_ne {w w' : World M} {e : Entry M} {i : Nat} (h : e.tid ≠ i)
    (hw : w'.trace = e :: w.trace) : w'.since i = e :: w.since i := by
  unfold World.since
  rw [hw]
  exact List.takeWhile_cons_of_pos (by simpa using h)

theorem World.mem_trace_of_since {w : World M} {i : Nat} {e : Entry M} (h : e ∈ w.since i) :
    e ∈ w.trace := (List.takeWhile_sublist _).subset h

/-- The operation `o` of call `call` in thread `i` takes the world from `w` to `w'` and answers
`r`. -/
def Machine.Exec (M : Machine S) (i : Nat) (call : M.Call) (o : S.Op) (w : World M)
    (r : Except ε (S.Res o)) (w' : World M) : Prop :=
  ∃ m s b, M.answer i m o w.state = some (r, s, b) ∧
    w' = ⟨s, ⟨i, call, o, b, w.state⟩ :: w.trace⟩

/-- The same, where the operation ends as `P` allows. -/
def Machine.ExecIn (M : Machine S) (P : Mode M.Choice ε → Prop) (i : Nat) (call : M.Call)
    (o : S.Op) (w : World M) (r : Except ε (S.Res o)) (w' : World M) : Prop :=
  ∃ m s b, P m ∧ M.answer i m o w.state = some (r, s, b) ∧
    w' = ⟨s, ⟨i, call, o, b, w.state⟩ :: w.trace⟩

theorem Machine.ExecIn.exec {P : Mode M.Choice ε → Prop} {i : Nat} {call : M.Call} {o : S.Op}
    {w w' : World M} {r : Except ε (S.Res o)} (h : M.ExecIn P i call o w r w') :
    M.Exec i call o w r w' := by
  obtain ⟨m, s, b, -, hx⟩ := h
  exact ⟨m, s, b, hx⟩

theorem Machine.ExecIn.mono {P P' : Mode M.Choice ε → Prop} (hP : ∀ m, P m → P' m) {i : Nat}
    {call : M.Call} {o : S.Op} {w w' : World M} {r : Except ε (S.Res o)}
    (h : M.ExecIn P i call o w r w') : M.ExecIn P' i call o w r w' := by
  obtain ⟨m, s, b, hm, hx⟩ := h
  exact ⟨m, s, b, hP m hm, hx⟩

/-- The entry an executed operation leaves on the trace. -/
theorem Machine.Exec.entry {i : Nat} {call : M.Call} {o : S.Op} {w w' : World M}
    {r : Except ε (S.Res o)} (h : M.Exec i call o w r w') :
    ∃ took, w'.trace = ⟨i, call, o, took, w.state⟩ :: w.trace := by
  obtain ⟨m, s, b, -, rfl⟩ := h
  exact ⟨b, rfl⟩

/-- **What a step can do**, case by case. -/
theorem Machine.step_cases {c c' : Config M} {e : Event M} (h : M.step c e = some c') :
    (∃ i call s, e = .spawn i call ∧ c.threads i = none ∧ M.start call c.state = some s ∧
      c' = ⟨⟨s, c.trace⟩, Function.update c.threads i (some ⟨call, M.body call, false⟩)⟩) ∨
    (∃ i m call o k r w', e = .run i m ∧ c.threads i = some ⟨call, .await o k, false⟩ ∧
      M.Exec i call o c.toWorld r w' ∧
      c' = ⟨w', Function.update c.threads i (some ⟨call, k r, false⟩)⟩) ∨
    (∃ i call o k, e = .crash i ∧ c.threads i = some ⟨call, .await o k, false⟩ ∧
      c' = ⟨c.toWorld, Function.update c.threads i (some ⟨call, .await o k, true⟩)⟩) ∨
    (∃ v s, e = .env v ∧ M.env v c.state = some s ∧ c' = ⟨⟨s, c.trace⟩, c.threads⟩) := by
  cases e with
  | spawn i call =>
    simp only [step] at h
    split at h
    · exact absurd h (by simp)
    · rename_i hi
      obtain ⟨s, hs, rfl⟩ := Option.map_eq_some_iff.mp h
      exact .inl ⟨i, call, s, rfl, hi, hs, rfl⟩
  | run i m =>
    simp only [step] at h
    split at h
    · rename_i call o k hi
      obtain ⟨⟨r, s, b⟩, hx, rfl⟩ := Option.map_eq_some_iff.mp h
      exact .inr (.inl ⟨i, m, call, o, k, r, _, rfl, hi, ⟨m, s, b, hx, rfl⟩, rfl⟩)
    · exact absurd h (by simp)
  | crash i =>
    simp only [step] at h
    split at h
    · rename_i call o k hi
      exact .inr (.inr (.inl ⟨i, call, o, k, rfl, hi, (Option.some.inj h).symm⟩))
    · exact absurd h (by simp)
  | env v =>
    obtain ⟨s, hs, rfl⟩ := Option.map_eq_some_iff.mp h
    exact .inr (.inr (.inr ⟨v, s, rfl, hs, rfl⟩))

/-- A step that runs an operation ends it as the step says. -/
theorem Machine.step_run {c c' : Config M} {i : Nat} {m : Mode M.Choice ε} {call : M.Call}
    {o : S.Op} {k : Except ε (S.Res o) → Prog S M.Out}
    (h : M.step c (.run i m) = some c') (hi : c.threads i = some ⟨call, .await o k, false⟩) :
    ∃ r w', M.ExecIn (· = m) i call o c.toWorld r w' ∧
      c' = ⟨w', Function.update c.threads i (some ⟨call, k r, false⟩)⟩ := by
  simp only [step, hi] at h
  obtain ⟨⟨r, s, b⟩, hx, rfl⟩ := Option.map_eq_some_iff.mp h
  exact ⟨r, _, ⟨m, s, b, rfl, hx, rfl⟩, rfl⟩

/-- The past stays. -/
theorem Machine.trace_step {c c' : Config M} {e : Event M} (h : M.step c e = some c') :
    c.trace <:+ c'.trace := by
  rcases M.step_cases h with ⟨i, call, s, -, -, -, rfl⟩ | ⟨i, m, call, o, k, r, w', -, -, hx, rfl⟩ |
    ⟨i, call, o, k, -, -, rfl⟩ | ⟨v, s, -, -, rfl⟩
  · exact List.suffix_rfl
  · obtain ⟨took, htr⟩ := hx.entry
    exact htr ▸ List.suffix_cons _ _
  · exact List.suffix_rfl
  · exact List.suffix_rfl

/-- A thread runs one call. -/
theorem Config.Started.unique {c : Config M} {i : Nat} {call call' : M.Call}
    (h : c.Started i call) (h' : c.Started i call') : call = call' := by
  obtain ⟨p, b, hi⟩ := h
  obtain ⟨p', b', hi'⟩ := h'
  exact congrArg Thread.call (Option.some.inj (hi.symm.trans hi'))

theorem Config.Waits.started {c : Config M} {i : Nat} {call : M.Call} {o : S.Op}
    (h : c.Waits i call o) : c.Started i call := by
  obtain ⟨k, hk⟩ := h
  exact ⟨_, _, hk⟩

/-- Only spawning starts a call, and no call is forgotten. -/
theorem Machine.started_iff {c c' : Config M} {e : Event M} (h : M.step c e = some c') {i : Nat}
    {call : M.Call} : c'.Started i call ↔ c.Started i call ∨ e = .spawn i call := by
  have hupdate : ∀ {j : Nat} {call₀ : M.Call} {p p' : Prog S M.Out} {b b' : Bool} {w : World M},
      c.threads j = some ⟨call₀, p, b⟩ →
      (Config.Started ⟨w, Function.update c.threads j (some ⟨call₀, p', b'⟩)⟩ i call ↔
        c.Started i call) := by
    intro j call₀ p p' b b' w hj
    unfold Config.Started
    by_cases hi : i = j
    · subst hi
      simp [hj]
    · simp [Function.update_of_ne hi]
  rcases M.step_cases h with ⟨j, call₀, s, rfl, hj, -, rfl⟩ |
    ⟨j, m, call₀, o, k, r, w', rfl, hj, -, rfl⟩ | ⟨j, call₀, o, k, rfl, hj, rfl⟩ |
    ⟨v, s, rfl, -, rfl⟩
  · unfold Config.Started
    by_cases hi : i = j
    · subst hi
      simp [hj, eq_comm]
    · simp [Function.update_of_ne hi, Ne.symm hi]
  · simpa using hupdate hj
  · simpa using hupdate hj
  · simp [Config.Started]

/-- The threads a run starts. -/
def Event.spawns? : Event M → Option Nat
  | .spawn i _ => some i
  | _ => none

/-- A call that is not suspended stays as it is. -/
theorem Machine.thread_step {c c' : Config M} {e : Event M} (h : M.step c e = some c') {i : Nat}
    {t : Thread M} (ht : c.threads i = some t) (hended : ∀ call o, ¬ c.Waits i call o) :
    c'.threads i = some t := by
  have hother : ∀ {j : Nat} {u : Thread M}, i ≠ j →
      Function.update c.threads j (some u) i = some t :=
    fun hij => (Function.update_of_ne hij _ _).trans ht
  rcases M.step_cases h with ⟨j, call₀, s, rfl, hj, -, rfl⟩ |
    ⟨j, m, call₀, o, k, r, w', rfl, hj, -, rfl⟩ | ⟨j, call₀, o, k, rfl, hj, rfl⟩ |
    ⟨v, s, rfl, -, rfl⟩
  · refine hother ?_
    rintro rfl
    exact absurd (hj.symm.trans ht) (by simp)
  · refine hother ?_
    rintro rfl
    exact hended call₀ o ⟨k, hj⟩
  · refine hother ?_
    rintro rfl
    exact hended call₀ o ⟨k, hj⟩
  · exact ht

/-- Nothing more happens in a call that is over. -/
theorem Machine.over_step {c c' : Config M} {e : Event M} (h : M.step c e = some c') {i : Nat}
    (ho : c.Over i) : c'.Over i := by
  obtain ⟨t, ht⟩ := Option.isSome_iff_exists.mp ho.1
  have hended := Config.waiting_eq_none.mp ho.2
  have ht' := Machine.thread_step h ht hended
  refine ⟨ht' ▸ rfl, Config.waiting_eq_none.mpr ?_⟩
  rintro call o ⟨k, hk⟩
  exact hended call o ⟨k, ht.trans (ht'.symm.trans hk)⟩

/-- What a call returned stays returned. -/
theorem Machine.returned_step {c c' : Config M} {e : Event M} (h : M.step c e = some c') {i : Nat}
    {call : M.Call} {a : M.Out} (ha : c.Returned i call a) : c'.Returned i call a := by
  refine Machine.thread_step h ha ?_
  rintro call' o ⟨k, hk⟩
  exact absurd (hk.symm.trans ha) (by simp)

/-- Who is started is started by a step of the run. -/
theorem Machine.started_of_replay {c c' : Config M} {es : List (Event M)}
    (hr : M.replay c es = some c') {i : Nat} {call : M.Call} (h : c'.Started i call) :
    c.Started i call ∨ i ∈ es.filterMap Event.spawns? := by
  induction es generalizing c with
  | nil => exact .inl (Option.some.inj hr ▸ h)
  | cons e es ih =>
    obtain ⟨c₁, h₁, h₂⟩ := Option.bind_eq_some_iff.mp hr
    rcases ih h₂ with h | h
    · rcases (M.started_iff h₁).mp h with h | rfl
      · exact .inl h
      · exact .inr (List.mem_filterMap.mpr ⟨_, List.mem_cons_self, rfl⟩)
    · obtain ⟨e', he', hi⟩ := List.mem_filterMap.mp h
      exact .inr (List.mem_filterMap.mpr ⟨e', List.mem_cons_of_mem _ he', hi⟩)

/-- After a run none of whose threads waits, all is quiet. -/
theorem Machine.quiet_of_replay {s : M.State} {c : Config M} {es : List (Event M)}
    (hr : M.replay (M.init s) es = some c)
    (h : ∀ i ∈ es.filterMap Event.spawns?, c.waiting i = none) : c.Quiet := by
  rintro i call o hw
  rcases M.started_of_replay hr hw.started with ⟨p, b, hi⟩ | hi
  · exact absurd hi (by simp [Machine.init])
  · exact absurd (hw.waiting.symm.trans (h i hi)) (by simp)

/-- An executed operation is one of a call that was started. -/
theorem Machine.entry_started {s : M.State} {ok : Config M → Event M → Prop} {c : Config M}
    (h : M.Reach ok (M.init s) c) : ∀ x ∈ c.trace, c.Started x.tid x.call := by
  induction h with
  | init => exact fun x hx => absurd hx (by simp [Machine.init])
  | step e _ _ hs ih =>
    have hold : ∀ {x : Entry M}, x ∈ _ → _ := fun hx => (M.started_iff hs).mpr (.inl (ih _ hx))
    intro x hx
    rcases M.step_cases hs with ⟨i, call, s, rfl, -, -, rfl⟩ |
      ⟨i, m, call, o, k, r, w', rfl, hi, ⟨m', s', b, -, rfl⟩, rfl⟩ |
      ⟨i, call, o, k, rfl, -, rfl⟩ | ⟨v, s, rfl, -, rfl⟩
    · exact hold hx
    · rcases List.mem_cons.mp hx with rfl | hx
      · exact (M.started_iff hs).mpr (.inl (Config.Waits.started ⟨k, hi⟩))
      · exact hold hx
    · exact hold hx
    · exact hold hx

/-- The threads when one of them was replaced. -/
theorem thread_update {threads : Nat → Option (Thread M)} {i j : Nat} {t u : Thread M}
    (h : Function.update threads j (some u) i = some t) :
    i = j ∧ u = t ∨ i ≠ j ∧ threads i = some t := by
  by_cases hij : i = j
  · subst hij
    rw [Function.update_self] at h
    exact .inl ⟨rfl, Option.some.inj h⟩
  · exact .inr ⟨hij, (Function.update_of_ne hij _ _).symm.trans h⟩

/-- What is left of a call is a part of its program. -/
theorem Machine.each_thread {P : M.Call → (o : S.Op) → (Except ε (S.Res o) → Prog S M.Out) → Prop}
    (hbody : ∀ call, (M.body call).Each (P call)) {s : M.State} {ok : Config M → Event M → Prop}
    {c : Config M} (h : M.Reach ok (M.init s) c) {i : Nat} {t : Thread M}
    (ht : c.threads i = some t) : t.prog.Each (P t.call) := by
  induction h generalizing i t with
  | init => exact absurd ht (by simp [Machine.init])
  | step e _ _ hs ih =>
    rcases M.step_cases hs with ⟨j, call, s, rfl, -, -, rfl⟩ |
      ⟨j, m, call, o, k, r, w', rfl, hj, -, rfl⟩ | ⟨j, call, o, k, rfl, hj, rfl⟩ |
      ⟨v, s, rfl, -, rfl⟩
    · rcases thread_update ht with ⟨-, rfl⟩ | ⟨-, ht⟩
      · exact hbody call
      · exact ih ht
    · rcases thread_update ht with ⟨-, rfl⟩ | ⟨-, ht⟩
      · exact (ih hj).2 r
      · exact ih ht
    · rcases thread_update ht with ⟨-, rfl⟩ | ⟨-, ht⟩
      · have hold := ih hj
        exact hold
      · exact ih ht
    · exact ih ht

/-- A call waits for operations of its program only. -/
theorem Machine.waits_all {P : M.Call → S.Op → Prop} (hbody : ∀ call, (M.body call).All (P call))
    {s : M.State} {ok : Config M → Event M → Prop} {c : Config M} (h : M.Reach ok (M.init s) c)
    {i : Nat} {call : M.Call} {o : S.Op} (hw : c.Waits i call o) : P call o := by
  obtain ⟨k, hk⟩ := hw
  exact (M.each_thread (P := fun call o _ => P call o)
    (fun call => .of_all (fun _ _ => id) (hbody call)) h hk).1

/-- An operation that is answered. -/
theorem Machine.answer_ok {i : Nat} {ch : M.Choice} {o : S.Op} {s s' : M.State}
    {r : Except ε (S.Res o)} (h : M.exec i ch o s = some (r, s')) :
    M.answer i (.ok ch) o s = some (r, s', r.toBool) := by
  simp [answer, h]

/-- An operation whose answer is lost. -/
theorem Machine.answer_lost {i : Nat} {ch : M.Choice} {e : ε} {o : S.Op} {s s' : M.State}
    {r : Except ε (S.Res o)} (h : M.exec i ch o s = some (r, s')) :
    M.answer i (.lost ch e) o s = some (.error e, s', r.toBool) := by
  simp [answer, h]

/-- The ways an operation can end. -/
theorem Machine.answer_cases {i : Nat} {m : Mode M.Choice ε} {o : S.Op} {s s' : M.State}
    {r : Except ε (S.Res o)} {took : Bool} (h : M.answer i m o s = some (r, s', took)) :
    (∃ ch r₀, M.exec i ch o s = some (r₀, s') ∧ (r = r₀ ∨ ∃ e, r = .error e) ∧
      took = r₀.toBool) ∨
    (∃ e, r = .error e ∧ s' = s ∧ took = false) := by
  cases m with
  | ok ch =>
    obtain ⟨x, hx, he⟩ := Option.map_eq_some_iff.mp h
    obtain ⟨rfl, rfl, rfl⟩ : x.1 = r ∧ x.2 = s' ∧ x.1.toBool = took := by simpa using he
    exact .inl ⟨ch, _, hx, .inl rfl, rfl⟩
  | fail e =>
    obtain ⟨rfl, rfl, rfl⟩ : .error e = r ∧ s = s' ∧ false = took := by
      simpa [answer] using h
    exact .inr ⟨e, rfl, rfl, rfl⟩
  | lost ch e =>
    obtain ⟨x, hx, he⟩ := Option.map_eq_some_iff.mp h
    obtain ⟨rfl, rfl, rfl⟩ : .error e = r ∧ x.2 = s' ∧ x.1.toBool = took := by simpa using he
    exact .inl ⟨ch, _, hx, .inr ⟨e, rfl⟩, rfl⟩

/-- The same, by whether the mode comes with a choice. -/
theorem Machine.answer_choice {i : Nat} {m : Mode M.Choice ε} {o : S.Op} {s s' : M.State}
    {r : Except ε (S.Res o)} {took : Bool} (h : M.answer i m o s = some (r, s', took)) :
    (∃ ch r₀, m.choice? = some ch ∧ M.exec i ch o s = some (r₀, s') ∧ took = r₀.toBool) ∨
      m.choice? = none ∧ s' = s ∧ took = false := by
  cases m with
  | ok ch =>
    obtain ⟨x, hx, he⟩ := Option.map_eq_some_iff.mp h
    obtain ⟨-, rfl, rfl⟩ : x.1 = r ∧ x.2 = s' ∧ x.1.toBool = took := by simpa using he
    exact .inl ⟨ch, _, rfl, hx, rfl⟩
  | fail e =>
    obtain ⟨-, rfl, rfl⟩ : .error e = r ∧ s = s' ∧ false = took := by simpa [answer] using h
    exact .inr ⟨rfl, rfl, rfl⟩
  | lost ch e =>
    obtain ⟨x, hx, he⟩ := Option.map_eq_some_iff.mp h
    obtain ⟨-, rfl, rfl⟩ : .error e = r ∧ x.2 = s' ∧ x.1.toBool = took := by simpa using he
    exact .inl ⟨ch, _, rfl, hx, rfl⟩

/-- An operation that is marked as such on the trace took effect. -/
theorem Machine.ExecIn.took {i : Nat} {call : M.Call} {o : S.Op} {w w' : World M}
    {m : Mode M.Choice ε} {r : Except ε (S.Res o)} (h : M.ExecIn (· = m) i call o w r w')
    (htr : w'.trace = ⟨i, call, o, true, w.state⟩ :: w.trace) :
    M.took i m o w.state = true := by
  obtain ⟨_, s, b, rfl, hx, rfl⟩ := h
  obtain rfl : b = true := congrArg Entry.took (List.cons.inj htr).1
  unfold Machine.took
  rw [hx]
  rfl

theorem Config.WhenTook.run {cond : Config M → Nat → M.Call → S.Op → Prop} {c : Config M}
    {i : Nat} {m : Mode M.Choice ε} (h : c.WhenTook cond (.run i m)) {call : M.Call} {o : S.Op}
    {r : Except ε (S.Res o)} {w' : World M} (hw : c.Waits i call o)
    (hx : M.ExecIn (· = m) i call o c.toWorld r w')
    (htr : w'.trace = ⟨i, call, o, true, c.state⟩ :: c.trace) : cond c i call o :=
  h (call, o) hw.waiting (hx.took htr)

/-- The cases of one operation: it ran, with or without its answer, or it failed. -/
theorem Machine.Exec.cases {i : Nat} {call : M.Call} {o : S.Op} {w w' : World M}
    {r : Except ε (S.Res o)} (h : M.Exec i call o w r w') :
    (∃ ch r₀ s, M.exec i ch o w.state = some (r₀, s) ∧ (r = r₀ ∨ ∃ e, r = .error e) ∧
      w' = ⟨s, ⟨i, call, o, r₀.toBool, w.state⟩ :: w.trace⟩) ∨
    (∃ e, r = .error e ∧ w' = ⟨w.state, ⟨i, call, o, false, w.state⟩ :: w.trace⟩) := by
  obtain ⟨m, s, b, hm, rfl⟩ := h
  rcases M.answer_cases hm with ⟨ch, r₀, hx, hr, rfl⟩ | ⟨e, rfl, rfl, rfl⟩
  · exact .inl ⟨ch, r₀, s, hx, hr, rfl⟩
  · exact .inr ⟨e, rfl, rfl⟩

/-- An operation that answers a result took effect. -/
theorem Machine.Exec.ok_cases {i : Nat} {call : M.Call} {o : S.Op} {w w' : World M}
    {a : S.Res o} (h : M.Exec i call o w (.ok a) w') :
    ∃ ch s, M.exec i ch o w.state = some (.ok a, s) ∧
      w' = ⟨s, ⟨i, call, o, true, w.state⟩ :: w.trace⟩ := by
  rcases h.cases with ⟨ch, r₀, s, hx, rfl | ⟨e, he⟩, rfl⟩ | ⟨e, he, -⟩
  · exact ⟨ch, s, hx, rfl⟩
  · exact absurd he (by simp)
  · exact absurd he (by simp)

/-- Only where the step says so an operation answers a result. -/
theorem Machine.ExecIn.ok_mode {i : Nat} {call : M.Call} {o : S.Op} {w w' : World M}
    {m : Mode M.Choice ε} {a : S.Res o} (h : M.ExecIn (· = m) i call o w (.ok a) w') :
    ∃ ch, m = .ok ch := by
  obtain ⟨_, s, b, rfl, hx, -⟩ := h
  cases ‹Mode M.Choice ε› with
  | ok ch => exact ⟨ch, rfl⟩
  | fail e => simp [answer] at hx
  | lost ch e => simp [answer] at hx

theorem Machine.Reach.mono {ok ok' : Config M → Event M → Prop} (hok : ∀ c e, ok c e → ok' c e)
    {c₀ c : Config M} (h : M.Reach ok c₀ c) : M.Reach ok' c₀ c := by
  induction h with
  | init => exact .init
  | step e _ he hs ih => exact .step e ih (hok _ _ he) hs

/-- **A property that once lost stays lost holds at the end of a run iff every step kept it.** -/
theorem Machine.iff_meets {c₀ : Config M} {P : Config M → Prop}
    {ok : Config M → Event M → Prop}
    (hstep : ∀ {c c' e}, M.Reachable c₀ c → P c → M.step c e = some c' → (P c' ↔ ok c e))
    (hlost : ∀ {c c' e}, M.step c e = some c' → P c' → P c) {es : List (Event M)}
    {c c' : Config M} (h : M.Reachable c₀ c) (hc : P c) (hr : M.replay c es = some c') :
    P c' ↔ M.Meets ok c es := by
  have hback : ∀ {es c}, M.replay c es = some c' → P c' → P c := by
    intro es
    induction es with
    | nil => intro c hr hP; exact Option.some.inj hr ▸ hP
    | cons e es ih =>
      intro c hr hP
      obtain ⟨c₁, h₁, h₂⟩ := Option.bind_eq_some_iff.mp hr
      exact hlost h₁ (ih h₂ hP)
  induction es generalizing c with
  | nil => exact ⟨fun _ => trivial, fun _ => Option.some.inj hr ▸ hc⟩
  | cons e es ih =>
    obtain ⟨c₁, h₁, h₂⟩ := Option.bind_eq_some_iff.mp hr
    have hreach : M.Reachable c₀ c₁ := .step e h trivial h₁
    constructor
    · intro hP
      have hP₁ := hback h₂ hP
      refine ⟨(hstep h hc h₁).mp hP₁, fun c₂ he => ?_⟩
      obtain rfl := Option.some.inj (h₁.symm.trans he)
      exact (ih hreach hP₁ h₂).mp hP
    · rintro ⟨hok, hm⟩
      exact (ih hreach ((hstep h hc h₁).mpr hok) h₂).mpr (hm c₁ h₁)

/-- **What each step keeps exactly when it satisfies `ok`, holds throughout a run exactly when every
step does.** -/
theorem Machine.throughout_iff {c₀ : Config M} {P : Config M → Prop}
    {ok : Config M → Event M → Prop}
    (hstep : ∀ {c c' e}, M.Reachable c₀ c → P c → M.step c e = some c' → (P c' ↔ ok c e))
    {es : List (Event M)} {c c' : Config M} (h : M.Reachable c₀ c) (hc : P c)
    (hr : M.replay c es = some c') :
    (∀ es' c', es' <+: es → M.replay c es' = some c' → P c') ↔ M.Meets ok c es := by
  induction es generalizing c with
  | nil =>
    refine iff_of_true (fun es' c₁ hes hr' => ?_) trivial
    obtain rfl := List.prefix_nil.mp hes
    exact Option.some.inj hr' ▸ hc
  | cons e es ih =>
    obtain ⟨c₁, h₁, h₂⟩ := Option.bind_eq_some_iff.mp hr
    have hreach : M.Reachable c₀ c₁ := .step e h trivial h₁
    have hcons : ∀ es', M.replay c (e :: es') = M.replay c₁ es' := by
      intro es'
      show (M.step c e).bind _ = _
      rw [h₁, Option.bind_some]
    constructor
    · intro hall
      have hc₁ : P c₁ := hall [e] c₁ ⟨es, rfl⟩ ((hcons []).trans rfl)
      refine ⟨(hstep h hc h₁).mp hc₁, fun c₂ he => ?_⟩
      obtain rfl := Option.some.inj (h₁.symm.trans he)
      refine (ih hreach hc₁ h₂).mp fun es' c' hes hr' => ?_
      exact hall (e :: es') c' ((List.prefix_cons_inj e).mpr hes) ((hcons es').trans hr')
    · rintro ⟨hok, hm⟩ es' c' hes hr'
      have hc₁ : P c₁ := (hstep h hc h₁).mpr hok
      cases es' with
      | nil => exact Option.some.inj hr' ▸ hc
      | cons e' es' =>
        obtain ⟨rfl, htail⟩ := List.cons_prefix_cons.mp hes
        exact (ih hreach hc₁ h₂).mpr (hm c₁ h₁) es' c' htail ((hcons es').symm.trans hr')

/-- A condition on the operations that run is one on the operations that were executed. -/
theorem Machine.meets_when_iff {P : Nat → M.Call → S.Op → M.State → Prop} {s : M.State}
    {es : List (Event M)} {c : Config M} (hr : M.replay (M.init s) es = some c) :
    M.Meets (Config.When fun c i call o => P i call o c.state) (M.init s) es ↔
      ∀ x ∈ c.trace, P x.tid x.call x.op x.before := by
  refine (Machine.iff_meets (P := fun c => ∀ x ∈ c.trace, P x.tid x.call x.op x.before)
    (fun _ hc h => ?_) (fun h hc x hx => hc x ((M.trace_step h).subset hx)) .init
    (fun x hx => absurd hx (by simp [Machine.init])) hr).symm
  rcases M.step_cases h with ⟨i, call, s, rfl, -, -, rfl⟩ |
    ⟨i, m, call, o, k, r, w', rfl, hi, hx, rfl⟩ | ⟨i, call, o, k, rfl, -, rfl⟩ | ⟨v, s, rfl, -, rfl⟩
  · exact iff_of_true hc trivial
  · obtain ⟨took, htr⟩ := hx.entry
    have hw := Config.Waits.waiting ⟨k, hi⟩
    simp only [htr, List.forall_mem_cons, Config.When, hw, Option.mem_def, Option.some.injEq,
      forall_eq']
    exact and_iff_left hc
  · exact iff_of_true hc trivial
  · exact iff_of_true hc trivial

/-- Where no process crashes, no thread has. -/
theorem Machine.not_crashed {s : M.State} {ok : Config M → Event M → Prop}
    (hok : ∀ c i, ¬ ok c (.crash i)) {c : Config M} (h : M.Reach ok (M.init s) c) {i : Nat}
    {t : Thread M} (ht : c.threads i = some t) : t.crashed = false := by
  induction h with
  | init => exact absurd ht (by simp [Machine.init])
  | step e _ he hs ih =>
    rcases M.step_cases hs with ⟨j, call, s, rfl, -, -, rfl⟩ |
      ⟨j, m, call, o, k, r, w', rfl, -, -, rfl⟩ | ⟨j, call, o, k, rfl, -, rfl⟩ |
      ⟨v, s, rfl, -, rfl⟩
    · rcases thread_update ht with ⟨-, rfl⟩ | ⟨-, ht⟩
      · rfl
      · exact ih ht
    · rcases thread_update ht with ⟨-, rfl⟩ | ⟨-, ht⟩
      · rfl
      · exact ih ht
    · exact absurd he (hok _ j)
    · exact ih ht

/-- A run whose steps satisfy `ok` wherever they are taken. -/
theorem Machine.meets_of_forall {ok : Config M → Event M → Prop} {es : List (Event M)}
    (h : ∀ e ∈ es, ∀ c, ok c e) (c : Config M) : M.Meets ok c es := by
  induction es generalizing c with
  | nil => trivial
  | cons e es ih =>
    have htail : ∀ e' ∈ es, ∀ c, ok c e' := fun e' he => h e' (List.mem_cons_of_mem e he)
    exact ⟨h e List.mem_cons_self c, fun c' _ => ih htail c'⟩

theorem Machine.Reach.trans {ok : Config M → Event M → Prop} {c₀ c c' : Config M}
    (h : M.Reach ok c₀ c) (h' : M.Reach ok c c') : M.Reach ok c₀ c' := by
  induction h' with
  | init => exact h
  | step e _ he hs ih => exact .step e ih he hs

/-- The past of a run. -/
theorem Machine.Reach.trace_suffix {ok : Config M → Event M → Prop} {c c' : Config M}
    (h : M.Reach ok c c') : c.trace <:+ c'.trace := by
  induction h with
  | init => exact List.suffix_rfl
  | step e _ _ hs ih => exact ih.trans (M.trace_step hs)

/-- What every step keeps, a run from a reached configuration keeps. -/
theorem Machine.Reach.keeps {c₀ c c' : Config M} {J : Config M → Prop} (hc : M.Reachable c₀ c)
    (h : M.Reachable c c')
    (hstep : ∀ {c c' e}, M.Reachable c₀ c → M.step c e = some c' → J c → J c') (hJ : J c) :
    J c' := by
  induction h with
  | init => exact hJ
  | step e h' _ hs ih => exact hstep (hc.trans h') hs ih

/-- **Following a run**: what holds of the world at first, and is kept by starting a call, by the
surroundings, and by running what a thread waits for. -/
theorem Machine.Reach.follow {ok : Config M → Event M → Prop} {J : World M → Prop}
    {c₀ c : Config M} (h : M.Reach ok c₀ c) (hinit : J c₀.toWorld)
    (hstart : ∀ call s s' l, M.start call s = some s' → J ⟨s, l⟩ → J ⟨s', l⟩)
    (henv : ∀ v s s' l, M.env v s = some s' → J ⟨s, l⟩ → J ⟨s', l⟩)
    (hexec : ∀ {c c' i m call o r}, M.Reach ok c₀ c → ok c (.run i m) → c.Waits i call o →
      M.step c (.run i m) = some c' → M.Exec i call o c.toWorld r c'.toWorld → J c.toWorld →
      J c'.toWorld) : J c.toWorld := by
  induction h with
  | init => exact hinit
  | step e hc he hs ih =>
    rcases M.step_cases hs with ⟨i, call, s, rfl, -, hst, rfl⟩ |
      ⟨i, m, call, o, k, r, w', rfl, hwait, hx, rfl⟩ | ⟨i, call, o, k, rfl, -, rfl⟩ |
      ⟨v, s, rfl, hv, rfl⟩
    · exact hstart call _ _ _ hst ih
    · exact hexec hc he ⟨k, hwait⟩ hs hx ih
    · exact ih
    · exact henv v _ _ _ hv ih

/-- Each step of a run starts in a configuration that the run reached. -/
theorem Machine.Reach.reached {ok : Config M → Event M → Prop} {c₀ c : Config M}
    (h : M.Reach ok c₀ c) : M.Reach (fun c e => M.Reach ok c₀ c ∧ ok c e) c₀ c := by
  induction h with
  | init => exact .init
  | step e hc he hs ih => exact .step e ih ⟨hc, he⟩ hs

/-- A run that can be replayed and whose steps satisfy `ok` is such a run. -/
theorem Machine.Reach.of_meets {ok : Config M → Event M → Prop} {c₀ c c' : Config M}
    {es : List (Event M)} (h : M.Reach ok c₀ c) (hr : M.replay c es = some c')
    (hm : M.Meets ok c es) : M.Reach ok c₀ c' := by
  induction es generalizing c with
  | nil => exact Option.some.inj hr ▸ h
  | cons e es ih =>
    obtain ⟨c₁, h₁, h₂⟩ := Option.bind_eq_some_iff.mp hr
    exact ih (.step e h hm.1 h₁) h₂ (hm.2 c₁ h₁)

/-- A run that can be replayed is a run. -/
theorem Machine.Reach.of_replay {c₀ c c' : Config M} {es : List (Event M)}
    (h : M.Reachable c₀ c) (hr : M.replay c es = some c') : M.Reachable c₀ c' := by
  induction es generalizing c with
  | nil => exact Option.some.inj hr ▸ h
  | cons e es ih =>
    obtain ⟨c₁, h₁, h₂⟩ := Option.bind_eq_some_iff.mp hr
    exact ih (.step e h trivial h₁) h₂

/-- What a run comes to, computed. -/
theorem Machine.exists_of_replay {c₀ : Config M} {es : List (Event M)} (p : Config M → Bool)
    (h : (M.replay c₀ es).any p = true) : ∃ c, M.replay c₀ es = some c ∧ p c = true :=
  (Option.any_eq_true p _).mp h

/-! ## Histories -/

/-- Each operation ran in a configuration that the run passed. -/
theorem Machine.world_of_trace {s : M.State} {c : Config M} (h : M.Reachable (M.init s) c)
    {x : Entry M} {l l' : List (Entry M)} (hl : c.trace = l ++ x :: l') :
    ∃ c', M.Reachable (M.init s) c' ∧ c'.toWorld = ⟨x.before, l'⟩ := by
  induction h generalizing l with
  | init => exact absurd hl (by simp [Machine.init])
  | @step c₁ _ e hc _ hs ih =>
    rcases M.step_cases hs with ⟨i, call, s, rfl, -, -, rfl⟩ |
      ⟨i, m, call, o, k, r, w', rfl, -, ⟨m', s', b, -, rfl⟩, rfl⟩ |
      ⟨i, call, o, k, rfl, -, rfl⟩ | ⟨v, s, rfl, -, rfl⟩
    · exact ih hl
    · cases l with
      | nil =>
        obtain ⟨rfl, rfl⟩ := List.cons.inj hl
        exact ⟨c₁, hc, rfl⟩
      | cons y l => exact ih (List.cons.inj hl).2
    · exact ih hl
    · exact ih hl

/-- Each operation ran when its thread waited for it. -/
theorem Machine.waited_of_trace {s : M.State} {c : Config M} (h : M.Reachable (M.init s) c)
    {x : Entry M} (hx : x ∈ c.trace) : ∃ c', M.Reachable (M.init s) c' ∧
      c'.Waits x.tid x.call x.op ∧ c'.state = x.before ∧ M.Reachable c' c := by
  induction h with
  | init => exact absurd hx (by simp [Machine.init])
  | @step c₁ c₂ e hc _ hs ih =>
    have hold : x ∈ c₁.trace → ∃ c', M.Reachable (M.init s) c' ∧
        c'.Waits x.tid x.call x.op ∧ c'.state = x.before ∧ M.Reachable c' c₂ := by
      intro hx
      obtain ⟨c', hc', hw, hb, hr⟩ := ih hx
      exact ⟨c', hc', hw, hb, hr.step e trivial hs⟩
    rcases M.step_cases hs with ⟨i, call, s, rfl, -, -, rfl⟩ |
      ⟨i, m, call, o, k, r, w', rfl, hwait, hexec, rfl⟩ |
      ⟨i, call, o, k, rfl, -, rfl⟩ | ⟨v, s, rfl, -, rfl⟩
    · exact hold hx
    · obtain ⟨took, htr⟩ := hexec.entry
      have hx' : x ∈ w'.trace := hx
      rcases List.mem_cons.mp (htr ▸ hx') with rfl | hx
      · exact ⟨c₁, hc, ⟨k, hwait⟩, rfl, .step _ .init trivial hs⟩
      · exact hold hx
    · exact hold hx
    · exact hold hx

/-- The states of a run are states of configurations it passed. -/
theorem Machine.state_of_history {s : M.State} {c : Config M} (h : M.Reachable (M.init s) c)
    {s₁ : M.State} (hs : s₁ ∈ c.history) : ∃ c', M.Reachable (M.init s) c' ∧ c'.state = s₁ := by
  rcases List.mem_cons.mp hs with rfl | hs
  · exact ⟨c, h, rfl⟩
  · obtain ⟨x, hx, rfl⟩ := List.mem_map.mp hs
    obtain ⟨l, l', hl⟩ := List.append_of_mem hx
    obtain ⟨c', hc', hw⟩ := M.world_of_trace h hl
    exact ⟨c', hc', congrArg World.state hw⟩

/-- **Consecutive states** are related, when operations relate them and the steps between two
operations change nothing of it. -/
theorem Machine.isChain_history {s : M.State} {R : M.State → M.State → Prop}
    (hexec : ∀ {c i call o r w'}, M.Reachable (M.init s) c → c.Waits i call o →
      M.Exec i call o c.toWorld r w' → R c.state w'.state)
    (hstart : ∀ {call s₀ s₁ s₂}, M.start call s₁ = some s₂ → R s₀ s₁ → R s₀ s₂)
    (henv : ∀ {v s₀ s₁ s₂}, M.env v s₁ = some s₂ → R s₀ s₁ → R s₀ s₂)
    {c : Config M} (h : M.Reachable (M.init s) c) :
    c.history.IsChain fun later earlier => R earlier later := by
  have hlast : ∀ {s₁ s₂ : M.State} {l : List M.State}, (∀ s₀, R s₀ s₁ → R s₀ s₂) →
      (s₁ :: l).IsChain (fun later earlier => R earlier later) →
      (s₂ :: l).IsChain fun later earlier => R earlier later := by
    intro s₁ s₂ l h hl
    cases l with
    | nil => exact .singleton s₂
    | cons s₀ l =>
      rw [List.isChain_cons_cons] at hl ⊢
      exact ⟨h s₀ hl.1, hl.2⟩
  induction h with
  | init => exact .singleton s
  | step e hc _ hs ih =>
    rcases M.step_cases hs with ⟨i, call, s, rfl, -, hst, rfl⟩ |
      ⟨i, m, call, o, k, r, w', rfl, hi, hx, rfl⟩ | ⟨i, call, o, k, rfl, -, rfl⟩ |
      ⟨v, s, rfl, hv, rfl⟩
    · exact hlast (fun _ => hstart hst) ih
    · have hR := hexec hc ⟨k, hi⟩ hx
      obtain ⟨m', s', b, -, rfl⟩ := hx
      exact List.isChain_cons_cons.mpr ⟨hR, ih⟩
    · exact ih
    · exact hlast (fun _ => henv hv) ih

end Async
