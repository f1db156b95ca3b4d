import BoltBet.Async.Knowledge

/-!
# Knowledge under a condition on the executed operations

A condition `good` on executed operations: who ran what, whether it took effect, on which state,
after which past. `Guarded` is a discipline like `Knowledge`, of runs whose operations were all
good, on which invariants and knowledge then rest.

`G.Safe Q p w`: as long as all operations are good, `p` may run from `w` and ends in `Q`
(`safe_ret`, `safe_seq`, `safe_try`, `safe_op`, `safe_of_all`). `Reach.follow_good` is the
induction over such a run.

**`Guarded.reach`**: what holds and what threads know in every configuration that good steps reach.
-/

namespace Async

variable {ε : Type} {S : Sig ε} {M : Machine S} {α β : Type}

/-- Every executed operation was good, after the past it had. -/
def AllGood (good : Entry M → List (Entry M) → Prop) : List (Entry M) → Prop
  | [] => True
  | x :: l => good x l ∧ AllGood good l

/-- What the step `e` executes is good. -/
def Machine.Good (M : Machine S) (good : Entry M → List (Entry M) → Prop) (c : Config M)
    (e : Event M) : Prop :=
  ∀ x, M.Executes c e x → good x c.trace

section AllGood

variable {good : Entry M → List (Entry M) → Prop}

theorem AllGood.of_suffix {l l' : List (Entry M)} (h : l <:+ l') (hg : AllGood good l') :
    AllGood good l := by
  obtain ⟨t, rfl⟩ := h
  induction t with
  | nil => exact hg
  | cons x t ih => exact ih hg.2

/-- Good steps execute good operations. -/
theorem Machine.Reach.allGood {s : M.State} {c : Config M}
    (h : M.Reach (M.Good good) (M.init s) c) :
    AllGood good c.trace := by
  induction h with
  | init => trivial
  | step e _ hgood hs ih =>
    rcases M.step_cases hs with ⟨i, call, s, rfl, -, -, rfl⟩ |
      ⟨i, m, call, o, k, r, w', rfl, -, hx, rfl⟩ | ⟨i, call, o, k, rfl, -, rfl⟩ |
      ⟨v, s, rfl, -, rfl⟩
    · exact ih
    · obtain ⟨took, htr⟩ := hx.entry
      rw [htr]
      exact ⟨hgood _ ⟨_, hs, htr⟩, ih⟩
    · exact ih
    · exact ih

/-- A run all of whose operations were good is a run of good steps. -/
theorem Machine.Reach.of_allGood {c₀ c : Config M} (h : M.Reachable c₀ c)
    (hg : AllGood good c.trace) : M.Reach (M.Good good) c₀ c := by
  induction h with
  | init => exact .init
  | @step c c' e _ _ hs ih =>
    refine .step e (ih (hg.of_suffix (M.trace_step hs))) (fun x ⟨c₂, hs₂, hx⟩ => ?_) hs
    obtain rfl := Option.some.inj (hs.symm.trans hs₂)
    rw [hx] at hg
    exact hg.1

/-- Following a run of good steps, with what waiting threads know along it. -/
theorem Machine.Reach.follow_good {K : Nat → M.Call → S.Op → World M → Prop} {J : World M → Prop}
    {c₀ c : Config M} (h : M.Reach (M.Good good) c₀ c)
    (hK : ∀ c, M.Reach (M.Good good) c₀ c → ∀ i call o, c.Waits i call o → K i call o c.toWorld)
    (hinit : J c₀.toWorld)
    (hstart : ∀ call s s' l, M.start call s = some s' → J ⟨s, l⟩ → J ⟨s', l⟩)
    (henv : ∀ v s s' l, M.env v s = some s' → J ⟨s, l⟩ → J ⟨s', l⟩)
    (hexec : ∀ i call o w r w' x, K i call o w → M.Exec i call o w r w' →
      w'.trace = x :: w.trace → good x w.trace → J w → J w') : J c.toWorld := by
  refine h.follow hinit hstart henv fun {c c' i m call o r} hc hgood hw hs hx hJ => ?_
  obtain ⟨took, htr⟩ := hx.entry
  exact hexec i call o _ r _ _ (hK c hc i call o hw) hx htr (hgood _ ⟨c', hs, htr⟩) hJ

instance decidableAllGood [∀ x l, Decidable (good x l)] : ∀ l, Decidable (AllGood good l)
  | [] => inferInstanceAs (Decidable True)
  | x :: l =>
    have : Decidable (AllGood good l) := decidableAllGood l
    inferInstanceAs (Decidable (good x l ∧ AllGood good l))

end AllGood

/-- What holds, what lasts, and what threads know, while all operations are good. -/
structure Guarded (M : Machine S) where
  good : Entry M → List (Entry M) → Prop
  inv : World M → Prop
  le : World M → World M → Prop
  K : Nat → M.Call → S.Op → World M → Prop
  refl : ∀ w, le w w
  trans : ∀ {w w₁ w₂}, le w w₁ → le w₁ w₂ → le w w₂
  exec : ∀ {i call o w r w' x}, inv w → K i call o w → M.Exec i call o w r w' →
    w'.trace = x :: w.trace → good x w.trace →
    inv w' ∧ le w w' ∧ ∀ j call' o', j ≠ i → K j call' o' w → K j call' o' w'
  start : ∀ {call s s' l}, M.start call s = some s' → inv ⟨s, l⟩ →
    inv ⟨s', l⟩ ∧ le ⟨s, l⟩ ⟨s', l⟩ ∧ ∀ j call' o', K j call' o' ⟨s, l⟩ → K j call' o' ⟨s', l⟩
  env : ∀ {v s s' l}, M.env v s = some s' → inv ⟨s, l⟩ →
    inv ⟨s', l⟩ ∧ le ⟨s, l⟩ ⟨s', l⟩ ∧ ∀ j call' o', K j call' o' ⟨s, l⟩ → K j call' o' ⟨s', l⟩

namespace Guarded

variable (G : Guarded M)

/-- The operations of a world were all good. -/
def Ok (w : World M) : Prop := AllGood G.good w.trace

/-- The discipline, with every fact under the condition. -/
def knowledge : Knowledge M where
  inv w := G.Ok w → G.inv w
  le w w' := w.trace <:+ w'.trace ∧ (G.Ok w' → G.le w w')
  K i call o w := G.Ok w → G.K i call o w
  cond _ _ _ _ _ _ := True
  refl w := ⟨List.suffix_rfl, fun _ => G.refl w⟩
  trans h h' := ⟨h.1.trans h'.1, fun hok =>
    G.trans (h.2 (AllGood.of_suffix h'.1 hok)) (h'.2 hok)⟩
  exec := by
    intro i call o w r w' hinv hK _ hx
    obtain ⟨took, htr⟩ := hx.entry
    have hall : G.Ok w' → G.Ok w ∧ (G.inv w' ∧ G.le w w' ∧
        ∀ j call' o', j ≠ i → G.K j call' o' w → G.K j call' o' w') := by
      intro hok
      unfold Ok at hok
      rw [htr] at hok
      exact ⟨hok.2, G.exec (hinv hok.2) (hK hok.2) hx htr hok.1⟩
    refine ⟨fun hok => (hall hok).2.1, ⟨htr ▸ List.suffix_cons _ _, fun hok => (hall hok).2.2.1⟩,
      fun j call' o' hj hk hok => ?_⟩
    obtain ⟨hokw, -, -, hkeep⟩ := hall hok
    exact hkeep j call' o' hj (hk hokw)
  start hs hinv := ⟨fun hok => (G.start hs (hinv hok)).1,
    ⟨List.suffix_rfl, fun hok => (G.start hs (hinv hok)).2.1⟩,
    fun j call' o' hk hok => (G.start hs (hinv hok)).2.2 j call' o' (hk hok)⟩
  env hv hinv := ⟨fun hok => (G.env hv (hinv hok)).1,
    ⟨List.suffix_rfl, fun hok => (G.env hv (hinv hok)).2.1⟩,
    fun j call' o' hk hok => (G.env hv (hinv hok)).2.2 j call' o' (hk hok)⟩

/-- Thread `i` may run `p` from `w`, as long as all operations are good. -/
def Safe (i : Nat) (call : M.Call) (Q : Except ε α → World M → Prop) (p : Prog S α)
    (w : World M) : Prop :=
  G.knowledge.rules.Safe i call (fun r w' => G.Ok w' → Q r w') p w

/-- `J` lasts. -/
def Lasts (J : World M → Prop) : Prop := ∀ {w w'}, G.le w w' → J w → J w'

variable {G} {i : Nat} {call : M.Call}

theorem Safe.mono {Q Q' : Except ε α → World M → Prop} (hQ : ∀ r w, Q r w → Q' r w)
    {p : Prog S α} {w : World M} (h : G.Safe i call Q p w) : G.Safe i call Q' p w := by
  refine Rules.Safe.mono (fun r w' hq hok => ?_) h
  exact hQ r w' (hq hok)

/-- Once an operation was not good, nothing is left to show. -/
theorem safe_of_not_ok {Q : Except ε α → World M → Prop} {p : Prog S α} {w : World M}
    (hw : ¬ G.Ok w) : G.Safe i call Q p w := by
  unfold Safe
  induction p generalizing w with
  | ret a => exact fun hok => absurd hok hw
  | throw e => exact fun hok => absurd hok hw
  | await o k ih =>
    intro w₁ hrel hinv r w₂ _ hx
    have hw₁ : ¬ G.Ok w₁ := fun hok => hw (AllGood.of_suffix hrel.1.1 hok)
    have hK : G.knowledge.K i call o w₁ := fun hok => absurd hok hw₁
    obtain ⟨hinv₂, hle, -⟩ := G.knowledge.exec hinv hK trivial hx.exec
    exact ⟨hinv₂, ⟨hK, hle⟩, ih r fun hok => hw₁ (AllGood.of_suffix hle.1 hok)⟩

theorem safe_ret {Q : Except ε α → World M → Prop} {a : α} {w : World M} (h : Q (.ok a) w) :
    G.Safe i call Q (.ret a) w := fun _ => h

theorem safe_throw {Q : Except ε α → World M → Prop} {e : ε} {w : World M} (h : Q (.error e) w) :
    G.Safe i call Q (.throw e) w := fun _ => h

/-- Run `p`, then `f` on what it returns. -/
theorem safe_seq {p : Prog S α} {f : α → Prog S β} {Q : Except ε α → World M → Prop}
    {Q' : Except ε β → World M → Prop} {w : World M} (hp : G.Safe i call Q p w)
    (hok : ∀ a w', Q (.ok a) w' → G.Safe i call Q' (f a) w')
    (herr : ∀ e w', Q (.error e) w' → Q' (.error e) w') : G.Safe i call Q' (p >>= f) w := by
  refine Rules.safe_seq hp (fun a w' hq => ?_) fun e w' hq hgood => herr e w' (hq hgood)
  by_cases hgood : G.Ok w'
  · exact hok a w' (hq hgood)
  · exact safe_of_not_ok hgood

/-- Run `p`, and `h` on what it throws. -/
theorem safe_try {p : Prog S α} {h : ε → Prog S α} {Q Q' : Except ε α → World M → Prop}
    {w : World M} (hp : G.Safe i call Q p w) (hok : ∀ a w', Q (.ok a) w' → Q' (.ok a) w')
    (herr : ∀ e w', Q (.error e) w' → G.Safe i call Q' (h e) w') :
    G.Safe i call Q' (p.tryCatch h) w := by
  refine Rules.safe_try hp (fun a w' hq hgood => hok a w' (hq hgood)) fun e w' hq => ?_
  by_cases hgood : G.Ok w'
  · exact herr e w' (hq hgood)
  · exact safe_of_not_ok hgood

/-- **Running an operation.** -/
theorem safe_op {o : S.Op} {J : World M → Prop} (hJ : G.Lasts J)
    {Q : Except ε (S.Res o) → World M → Prop} {w : World M} (hw : J w) (hK : G.K i call o w)
    (hQ : ∀ {w₁ r w₂}, G.inv w₁ → G.K i call o w₁ → J w₁ → M.Exec i call o w₁ r w₂ → G.Ok w₂ →
      G.inv w₂ → J w₂ → Q r w₂) :
    G.Safe i call Q (Prog.perform o) w := by
  refine Rules.safe_perform fun w₁ hrel hinv r w₂ _ hx => ?_
  have hK₁ : G.knowledge.K i call o w₁ := hrel.2 fun _ => hK
  obtain ⟨hinv₂, hle, -⟩ := G.knowledge.exec hinv hK₁ trivial hx.exec
  refine ⟨hinv₂, ⟨hK₁, hle⟩, fun hok₂ => ?_⟩
  have hok₁ : G.Ok w₁ := AllGood.of_suffix hle.1 hok₂
  have hJ₁ : J w₁ := hJ (hrel.1.2 hok₁) hw
  exact hQ (hinv hok₁) (hK₁ hok₁) hJ₁ hx.exec hok₂ (hinv₂ hok₂) (hJ (hle.2 hok₂) hJ₁)

/-- A program of one kind of operations, each of which leaves what its thread must know to run the
next one. -/
theorem safe_of_all {R : S.Op → Prop} (own : World M → Prop)
    (hK : ∀ {o w}, R o → own w → G.K i call o w)
    (hown : ∀ {o w r w'}, R o → G.K i call o w → M.Exec i call o w r w' → own w')
    {p : Prog S α} (hp : p.All R) {J : World M → Prop} (hJ : G.Lasts J) {w : World M}
    (ho : own w) (hw : J w) : G.Safe i call (fun _ w' => own w' ∧ J w') p w := by
  unfold Safe
  induction p generalizing w with
  | ret a => exact fun _ => ⟨ho, hw⟩
  | throw e => exact fun _ => ⟨ho, hw⟩
  | await o k ih =>
    intro w₁ hrel hinv r w₂ _ hx
    have hK₁ : G.knowledge.K i call o w₁ := hrel.2 fun _ => hK hp.1 ho
    obtain ⟨hinv₂, hle, -⟩ := G.knowledge.exec hinv hK₁ trivial hx.exec
    refine ⟨hinv₂, ⟨hK₁, hle⟩, ?_⟩
    by_cases hok₂ : G.Ok w₂
    · have hok₁ : G.Ok w₁ := AllGood.of_suffix hle.1 hok₂
      exact ih r (hp.2 r) (hown hp.1 (hK₁ hok₁) hx.exec) (hJ (hle.2 hok₂) (hJ (hrel.1.2 hok₁) hw))
    · exact safe_of_not_ok hok₂

/-- **Every configuration reached by good steps.** A call starts before its thread executed
anything. -/
theorem reach [Inhabited ε] (post : Nat → M.Call → Except ε M.Out → World M → Prop)
    (hpost : ∀ i call r, G.Lasts (post i call r))
    (hbody : ∀ i call w, G.inv w → (∀ x ∈ w.trace, x.tid ≠ i) →
      G.Safe i call (post i call) (M.body call) w)
    {s : M.State} (h0 : G.inv ⟨s, []⟩) {c : Config M}
    (h : M.Reach (M.Good G.good) (M.init s) c) :
    G.inv c.toWorld ∧ (∀ i call o, c.Waits i call o → G.K i call o c.toWorld) ∧
    ∀ i call a, c.Returned i call a → post i call (.ok a) c.toWorld := by
  have hlasts : ∀ i call r, G.knowledge.Lasts fun w => G.Ok w → post i call r w := by
    intro i call r w w' hle hp hok
    exact hpost i call r (hle.2 hok) (hp (AllGood.of_suffix hle.1 hok))
  have hstart : ∀ i call w, G.knowledge.inv w → (∀ x ∈ w.trace, x.tid ≠ i) →
      G.Safe i call (post i call) (M.body call) w := by
    intro i call w hinv hfresh
    by_cases hgood : G.Ok w
    · exact hbody i call w (hinv hgood) hfresh
    · exact safe_of_not_ok hgood
  obtain ⟨hinv, hK, hret⟩ := Knowledge.reach_fresh (D := G.knowledge) (fun _ => trivial) _
    (fun _ _ _ _ _ _ _ _ _ _ => trivial) hlasts hstart (fun _ => h0) h
  exact ⟨hinv h.allGood, fun i call o hw => hK i call o hw (fun _ _ => trivial) h.allGood,
    fun i call a ha => hret i call a ha h.allGood⟩

end Guarded

end Async
