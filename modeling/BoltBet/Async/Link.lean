import BoltBet.Async.Pool

/-!
# Two pools side by side

A `Link` runs two machines, one step of one of them at a time. What passes between them is what the
link allows: a step may depend on what the other side has come to.

* `Reach.fst`, `Reach.snd`: each side of a run is a run of its machine, so what holds of the
  machine alone holds of it in the link.
* `Reach.follow`: the induction over a run of the link, with what each side satisfies alone.
* `Reach.of_replay`: a run whose steps are all allowed can be replayed.
-/

namespace Async

variable {ε ε' : Type} {S : Sig ε} {S' : Sig ε'} {M : Machine S} {N : Machine S'}

/-- Which steps of either machine are allowed. -/
structure Link (M : Machine S) (N : Machine S') where
  left : Config M → Config N → Event M → Prop
  right : Config M → Config N → Event N → Prop

namespace Link

/-- The configurations that allowed steps reach. -/
inductive Reach (L : Link M N) (c₀ : Config M) (d₀ : Config N) : Config M → Config N → Prop
  | init : Reach L c₀ d₀ c₀ d₀
  | left {c c' : Config M} {d : Config N} (e : Event M) : Reach L c₀ d₀ c d → L.left c d e →
      M.step c e = some c' → Reach L c₀ d₀ c' d
  | right {c : Config M} {d d' : Config N} (e : Event N) : Reach L c₀ d₀ c d → L.right c d e →
      N.step d e = some d' → Reach L c₀ d₀ c d'

/-- The same link, under a condition on the steps of the left machine. -/
def when (L : Link M N) (ok : Config M → Config N → Event M → Prop) : Link M N where
  left c d e := L.left c d e ∧ ok c d e
  right := L.right

instance (L : Link M N) (ok : Config M → Config N → Event M → Prop) (c : Config M) (d : Config N)
    (e : Event M) [Decidable (L.left c d e)] [Decidable (ok c d e)] :
    Decidable ((L.when ok).left c d e) :=
  inferInstanceAs (Decidable (L.left c d e ∧ ok c d e))

instance (L : Link M N) (ok : Config M → Config N → Event M → Prop) (c : Config M) (d : Config N)
    (e : Event N) [Decidable (L.right c d e)] : Decidable ((L.when ok).right c d e) :=
  inferInstanceAs (Decidable (L.right c d e))

/-- Run the steps in order. -/
def replay (M : Machine S) (N : Machine S') (c : Config M) (d : Config N) :
    List (Event M ⊕ Event N) → Option (Config M × Config N)
  | [] => some (c, d)
  | .inl e :: es => (M.step c e).bind fun c' => replay M N c' d es
  | .inr e :: es => (N.step d e).bind fun d' => replay M N c d' es

/-- All steps of a run are allowed. -/
def Allows (L : Link M N) (c : Config M) (d : Config N) : List (Event M ⊕ Event N) → Prop
  | [] => True
  | .inl e :: es => L.left c d e ∧ ∀ c' ∈ M.step c e, Allows L c' d es
  | .inr e :: es => L.right c d e ∧ ∀ d' ∈ N.step d e, Allows L c d' es

instance decidableAllows (L : Link M N) [∀ c d e, Decidable (L.left c d e)]
    [∀ c d e, Decidable (L.right c d e)] : ∀ c d es, Decidable (L.Allows c d es)
  | _, _, [] => inferInstanceAs (Decidable True)
  | c, d, .inl e :: es =>
    have : DecidablePred fun c' => L.Allows c' d es := fun c' => decidableAllows L c' d es
    inferInstanceAs (Decidable (L.left c d e ∧ ∀ c' ∈ M.step c e, L.Allows c' d es))
  | c, d, .inr e :: es =>
    have : DecidablePred fun d' => L.Allows c d' es := fun d' => decidableAllows L c d' es
    inferInstanceAs (Decidable (L.right c d e ∧ ∀ d' ∈ N.step d e, L.Allows c d' es))

variable {L : Link M N} {c₀ c : Config M} {d₀ d : Config N}

/-- The left side of a run. -/
theorem Reach.fst (h : L.Reach c₀ d₀ c d) : M.Reachable c₀ c := by
  induction h with
  | init => exact .init
  | left e _ _ hs ih => exact .step e ih trivial hs
  | right _ _ _ _ ih => exact ih

/-- The right side of a run. -/
theorem Reach.snd (h : L.Reach c₀ d₀ c d) : N.Reachable d₀ d := by
  induction h with
  | init => exact .init
  | left _ _ _ _ ih => exact ih
  | right e _ _ hs ih => exact .step e ih trivial hs

/-- **Following a run**, with what each side satisfies in all its runs. -/
theorem Reach.follow {I : Config M → Prop} {K : Config N → Prop} {J : Config M → Config N → Prop}
    (h : L.Reach c₀ d₀ c d) (hI : ∀ {c}, M.Reachable c₀ c → I c)
    (hK : ∀ {d}, N.Reachable d₀ d → K d) (hinit : J c₀ d₀)
    (hleft : ∀ {c c' d e}, I c → K d → J c d → L.left c d e → M.step c e = some c' → J c' d)
    (hright : ∀ {c d d' e}, I c → K d → K d' → J c d → L.right c d e → N.step d e = some d' →
      J c d') : J c d := by
  induction h with
  | init => exact hinit
  | left e h hok hs ih => exact hleft (hI h.fst) (hK h.snd) ih hok hs
  | right e h hok hs ih =>
    exact hright (hI h.fst) (hK h.snd) (hK (.step e h.snd trivial hs)) ih hok hs

/-- A run that can be replayed and whose steps are all allowed. -/
theorem Reach.of_replay {es : List (Event M ⊕ Event N)} {c' : Config M} {d' : Config N}
    (h : L.Reach c₀ d₀ c d) (hr : replay M N c d es = some (c', d')) (ha : L.Allows c d es) :
    L.Reach c₀ d₀ c' d' := by
  induction es generalizing c d with
  | nil =>
    obtain ⟨rfl, rfl⟩ := Prod.mk.inj (Option.some.inj hr)
    exact h
  | cons e es ih =>
    cases e with
    | inl e =>
      obtain ⟨c₁, h₁, h₂⟩ := Option.bind_eq_some_iff.mp hr
      exact ih (.left e h ha.1 h₁) h₂ (ha.2 c₁ h₁)
    | inr e =>
      obtain ⟨d₁, h₁, h₂⟩ := Option.bind_eq_some_iff.mp hr
      exact ih (.right e h ha.1 h₁) h₂ (ha.2 d₁ h₁)

end Link

end Async
