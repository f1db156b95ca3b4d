import BoltBet.Async.Rely

/-!
# Calls one after the other

`OneOf P`: a call of `P` starts only when no call of `P` is suspended.

* `waits_unique`: then one call of `P` is suspended at most.
* `Among`, `Reach.oneOf`, `Reach.sequential`: a way to see that a run is one of them.
* `Rules.sound_sequential`: when this holds of all calls, a thread relies on nothing but what
  starting a call and the surroundings leave alone.
-/

namespace Async

variable {ε : Type} {S : Sig ε} {M : Machine S}

/-- Calls of `P` do not overlap. -/
def Config.OneOf (P : M.Call → Prop) (c : Config M) (e : Event M) : Prop :=
  ∀ i call, e = .spawn i call → P call → ∀ j call' o, c.Waits j call' o → ¬ P call'

/-- Calls do not overlap. -/
abbrev Config.Sequential : Config M → Event M → Prop := Config.OneOf fun _ => True

/-- A call is suspended because it was, or it has just been started. -/
theorem Machine.waits_before {c c' : Config M} {e : Event M} (h : M.step c e = some c') {i : Nat}
    {call : M.Call} {o : S.Op} (hw : c'.Waits i call o) :
    (∃ o', c.Waits i call o') ∨ e = .spawn i call := by
  obtain ⟨k, hk⟩ := hw
  rcases M.step_cases h with ⟨j, call₀, s, rfl, -, -, rfl⟩ |
    ⟨j, m, call₀, o₀, k₀, r, w', rfl, hj, -, rfl⟩ | ⟨j, call₀, o₀, k₀, rfl, hj, rfl⟩ |
    ⟨v, s, rfl, -, rfl⟩
  · rcases thread_update hk with ⟨rfl, ht⟩ | ⟨-, hk⟩
    · obtain ⟨rfl, -⟩ := Thread.mk.inj ht
      exact .inr rfl
    · exact .inl ⟨o, k, hk⟩
  · rcases thread_update hk with ⟨rfl, ht⟩ | ⟨-, hk⟩
    · obtain ⟨rfl, -⟩ := Thread.mk.inj ht
      exact .inl ⟨o₀, k₀, hj⟩
    · exact .inl ⟨o, k, hk⟩
  · rcases thread_update hk with ⟨-, ht⟩ | ⟨-, hk⟩
    · exact absurd ht (by simp)
    · exact .inl ⟨o, k, hk⟩
  · exact .inl ⟨o, k, hk⟩

/-- **One call of `P` is suspended at most.** -/
theorem Machine.waits_unique {P : M.Call → Prop} {s : M.State} {c : Config M}
    (h : M.Reach (Config.OneOf P) (M.init s) c) {i j : Nat} {call call' : M.Call} {o o' : S.Op}
    (hi : c.Waits i call o) (hj : c.Waits j call' o') (hP : P call) (hP' : P call') : i = j := by
  induction h generalizing i j call call' o o' with
  | init =>
    obtain ⟨k, hk⟩ := hi
    exact absurd hk (by simp [Machine.init])
  | step e _ hone hs ih =>
    rcases M.waits_before hs hi with ⟨o₁, hi₁⟩ | rfl
    · rcases M.waits_before hs hj with ⟨o₂, hj₂⟩ | rfl
      · exact ih hi₁ hj₂ hP hP'
      · exact absurd hP (hone j call' rfl hP' i call o₁ hi₁)
    · rcases M.waits_before hs hj with ⟨o₂, hj₂⟩ | he
      · exact absurd hP' (hone i call rfl hP j call' o₂ hj₂)
      · exact (Event.spawn.inj he).1

/-- Calls run as threads of `l` only, and start when all of these are over. -/
def Config.Among (l : List Nat) (c : Config M) : Event M → Prop
  | .spawn i _ => i ∈ l ∧ ∀ j ∈ l, (c.waiting j).isNone = true
  | _ => True

instance (l : List Nat) (c : Config M) : ∀ e, Decidable (Config.Among l c e)
  | .spawn i _ => inferInstanceAs (Decidable (i ∈ l ∧ ∀ j ∈ l, (c.waiting j).isNone = true))
  | .run _ _ => inferInstanceAs (Decidable True)
  | .crash _ => inferInstanceAs (Decidable True)
  | .env _ => inferInstanceAs (Decidable True)

section Among

variable {l : List Nat} {ok : Config M → Event M → Prop} {c₀ c : Config M}

/-- The threads of such a run. -/
theorem Machine.Reach.started_among (h : M.Reach (fun c e => Config.Among l c e ∧ ok c e) c₀ c)
    (h₀ : ∀ i call, c₀.Started i call → i ∈ l) : ∀ i call, c.Started i call → i ∈ l := by
  induction h with
  | init => exact h₀
  | step e _ hok hs ih =>
    intro i call hi
    rcases (M.started_iff hs).mp hi with hi | rfl
    · exact ih i call hi
    · exact hok.1.1

/-- In such a run calls do not overlap. -/
theorem Machine.Reach.oneOf {P : M.Call → Prop}
    (h : M.Reach (fun c e => Config.Among l c e ∧ ok c e) c₀ c)
    (h₀ : ∀ i call, c₀.Started i call → i ∈ l) :
    M.Reach (fun c e => Config.OneOf P c e ∧ ok c e) c₀ c := by
  refine h.reached.mono fun c e hok => ⟨fun i call he _ j call' o hw => ?_, hok.2.2⟩
  subst he
  have hover := hok.2.1.2 j (hok.1.started_among h₀ j call' hw.started)
  rw [hw.waiting] at hover
  exact absurd hover (by simp)

/-- Such a run is sequential. -/
theorem Machine.Reach.sequential {s : M.State} (h : M.Reach (Config.Among l) (M.init s) c) :
    M.Reach Config.Sequential (M.init s) c := by
  have hone := Machine.Reach.oneOf (M := M) (P := fun _ => True)
    (h.mono fun _ _ h => ⟨h, trivial⟩) fun i call hi => by
      obtain ⟨p, b, hi⟩ := hi
      exact absurd hi (by simp [Machine.init])
  exact hone.mono fun _ _ h => h.1

end Among

/-- **Sequential runs**: no other thread's operation disturbs a suspended call. -/
theorem Rules.sound_sequential {D : Rules M} {s : M.State}
    (hcond : ∀ i call o w r w', D.cond i call o w r w') (hmodes : ∀ m, D.modes m)
    (hstart : ∀ call s s' l, M.start call s = some s' → D.inv ⟨s, l⟩ →
      D.inv ⟨s', l⟩ ∧ ∀ i call' o, D.rely i call' o ⟨s, l⟩ ⟨s', l⟩)
    (henv : ∀ v s s' l, M.env v s = some s' → D.inv ⟨s, l⟩ →
      D.inv ⟨s', l⟩ ∧ ∀ i call o, D.rely i call o ⟨s, l⟩ ⟨s', l⟩)
    (hbody : ∀ i call w, D.inv w → D.Safe i call (fun _ _ => True) (M.body call) w) :
    D.Sound (fun c e => M.Reach Config.Sequential (M.init s) c ∧ Config.Sequential c e)
      fun _ _ _ _ => True where
  start c i call s' _ hinv _ hs := by
    obtain ⟨hinv', hrely⟩ := hstart call _ s' c.trace hs hinv
    exact ⟨hinv', hbody i call _ hinv', fun j call' o' _ => hrely j call' o'⟩
  env c v s' _ hinv hv := by
    obtain ⟨hinv', hrely⟩ := henv v _ s' c.trace hv hinv
    exact ⟨hinv', fun j call' o' _ => hrely j call' o'⟩
  cond _ i _ call o r w' _ _ _ := hcond i call o _ r w'
  modes _ _ m _ := hmodes m
  rely _ i _ _ _ _ _ hok hw _ _ _ _ j _ _ hj hwj :=
    absurd (M.waits_unique hok.1 hwj hw trivial trivial) hj
  post_run _ _ _ _ _ _ _ _ _ _ _ _ _ _ := trivial
  post_start _ _ _ _ _ _ _ _ _ := trivial
  post_env _ _ _ _ _ _ _ _ _ := trivial

end Async
