import BoltBet.Async.Pool

/-!
# Terminal flags and stale writes

A `Flag` is a family of properties of the shared state that some operations set (`Sets`) and some
writes clear (`Unsets`). Threads check the flag and clear it later, by a write that no longer
checks, so the flag is terminal only if nobody set it in between.

`Known`: what a thread knows while it waits to run a clearing write is that a flag set by now was
set since its own last operation (the check). Others keep it (`known_exec`).

**`stays_iff`**: when threads know this, the flags set in a run stay set exactly when no clearing
write of it was overtaken (`Undisturbed`).
-/

namespace Async

variable {ε : Type} {S : Sig ε} {M : Machine S} {ι : Type}

/-- A family of flags, and what operations do to them. `Legal o s`: a thread that waits in `s` may
run `o`. -/
structure Flag (M : Machine S) (ι : Type) where
  Done : ι → M.State → Prop
  Sets : ι → S.Op → Prop
  Unsets : ι → S.Op → Prop
  Legal : S.Op → M.State → Prop
  sets : ∀ {i call o w r w' x a}, M.Exec i call o w r w' → w'.trace = x :: w.trace →
    Legal o w.state → x.took = true → Sets a o → Done a w'.state
  unsets : ∀ {i call o w r w' x a}, M.Exec i call o w r w' → w'.trace = x :: w.trace →
    x.took = true → Unsets a o → ¬ Done a w'.state
  keeps : ∀ {i call o w r w' x a}, M.Exec i call o w r w' → w'.trace = x :: w.trace →
    Done a w.state → (x.took = true → ¬ Unsets a o) → Done a w'.state
  made : ∀ {i call o w r w' x a}, M.Exec i call o w r w' → w'.trace = x :: w.trace →
    Legal o w.state → Done a w'.state → Done a w.state ∨ x.took = true ∧ Sets a o
  legal : ∀ {i call o w r w' o'}, M.Exec i call o w r w' → Legal o w.state →
    Legal o' w.state → Legal o' w'.state
  start : ∀ {call s s'}, M.start call s = some s' → (∀ a, Done a s' ↔ Done a s) ∧
    ∀ o, Legal o s → Legal o s'
  env : ∀ {v s s'}, M.env v s = some s' → (∀ a, Done a s' ↔ Done a s) ∧
    ∀ o, Legal o s → Legal o s'

namespace Flag

variable (F : Flag M ι)

/-- Flag `a` was set since the last operation of thread `i`. -/
def Overtaken (w : World M) (i : Nat) (a : ι) : Prop :=
  ∃ y ∈ w.since i, y.took = true ∧ F.Sets a y.op

/-- What a thread knows before its operation `o`. -/
def Known (i : Nat) (o : S.Op) (w : World M) : Prop :=
  F.Legal o w.state ∧ ∀ a, F.Unsets a o → F.Done a w.state → F.Overtaken w i a

/-- Every flag that was set stayed set. -/
def Stays (w : World M) : Prop :=
  w.history.Pairwise fun later earlier => ∀ a, F.Done a earlier → F.Done a later

/-- No clearing write of the step `e` was overtaken. -/
def Undisturbed (c : Config M) (e : Event M) : Prop :=
  ∀ x, M.Executes c e x → x.took = true → ∀ a, F.Unsets a x.op →
    ¬ F.Overtaken c.toWorld x.tid a

variable {F} {i j : Nat} {call : M.Call} {o o' : S.Op} {w w' : World M} {r : Except ε (S.Res o)}

theorem known_of_not_done (ho : F.Legal o w.state) (h : ∀ a, F.Unsets a o → ¬ F.Done a w.state) :
    F.Known i o w :=
  ⟨ho, fun a ha hd => absurd hd (h a ha)⟩

/-- What `j` knows survives an operation of another thread. -/
theorem known_exec (hx : M.Exec i call o w r w') (hj : j ≠ i) (ho : F.Known i o w)
    (hk : F.Known j o' w) : F.Known j o' w' := by
  obtain ⟨took, htr⟩ := hx.entry
  have hsince := World.since_ne (Ne.symm hj) htr
  refine ⟨F.legal hx ho.1 hk.1, fun a ha hd => ?_⟩
  rcases F.made hx htr ho.1 hd with hd | hset
  · obtain ⟨y, hy, hs⟩ := hk.2 a ha hd
    exact ⟨y, hsince ▸ List.mem_cons_of_mem _ hy, hs⟩
  · exact ⟨_, hsince ▸ List.mem_cons_self, hset⟩

/-- Knowledge depends on the flags and the past alone. -/
theorem known_same {s s' : M.State} {l : List (Entry M)}
    (h : (∀ a, F.Done a s' ↔ F.Done a s) ∧ ∀ o, F.Legal o s → F.Legal o s')
    (hk : F.Known i o ⟨s, l⟩) : F.Known i o ⟨s', l⟩ :=
  ⟨h.2 o hk.1, fun a ha hd => hk.2 a ha ((h.1 a).mp hd)⟩

/-! ## Runs -/

theorem stays_same {s s' : M.State} {l : List (Entry M)} (h : ∀ a, F.Done a s' ↔ F.Done a s) :
    F.Stays ⟨s', l⟩ ↔ F.Stays ⟨s, l⟩ := by
  unfold Stays World.history
  rw [List.pairwise_cons, List.pairwise_cons]
  refine and_congr_left fun _ => forall_congr' fun s₀ => imp_congr_right fun _ =>
    forall_congr' fun a => imp_congr_right fun _ => h a

/-- One operation keeps the flags exactly when it keeps those set right before it. -/
theorem stays_exec (hx : M.Exec i call o w r w') (hw : F.Stays w) :
    F.Stays w' ↔ ∀ a, F.Done a w.state → F.Done a w'.state := by
  obtain ⟨took, htr⟩ := hx.entry
  have hhist : w'.history = w'.state :: w.history := by
    unfold World.history
    rw [htr]
    rfl
  unfold Stays
  rw [hhist, List.pairwise_cons]
  constructor
  · intro h
    exact h.1 w.state List.mem_cons_self
  · intro h
    refine ⟨fun s hs a hd => h a ?_, hw⟩
    rcases List.mem_cons.mp hs with rfl | hs
    · exact hd
    · exact (List.pairwise_cons.mp hw).1 s hs a hd

theorem stays_back {c c' : Config M} {e : Event M} (hs : M.step c e = some c')
    (h : F.Stays c'.toWorld) : F.Stays c.toWorld := by
  rcases M.step_cases hs with ⟨i, call, s, rfl, -, hst, rfl⟩ |
    ⟨i, m, call, o, k, r, w', rfl, -, hx, rfl⟩ | ⟨i, call, o, k, rfl, -, rfl⟩ |
    ⟨v, s, rfl, hv, rfl⟩
  · exact (stays_same (F.start hst).1).mp h
  · obtain ⟨took, htr⟩ := hx.entry
    unfold Stays World.history at h ⊢
    rw [htr] at h
    exact (List.pairwise_cons.mp h).2
  · exact h
  · exact (stays_same (F.env hv).1).mp h

section Known

variable {s : M.State} (hK : ∀ {c}, M.Reachable (M.init s) c → ∀ {i call o}, c.Waits i call o →
  F.Known i o c.toWorld)
include hK

/-- While the flags stay, what was set is set. -/
theorem done_of_set {c : Config M} (hc : M.Reachable (M.init s) c) (hst : F.Stays c.toWorld)
    {y : Entry M} (hy : y ∈ c.trace) (ht : y.took = true) {a : ι} (ha : F.Sets a y.op) :
    F.Done a c.state := by
  induction hc with
  | init => exact absurd hy (by simp [Machine.init])
  | step e hc _ hs ih =>
    have ih := ih (stays_back hs hst)
    rcases M.step_cases hs with ⟨i, call, s, rfl, -, hstart, rfl⟩ |
      ⟨i, m, call, o, k, r, w', rfl, hi, hx, rfl⟩ | ⟨i, call, o, k, rfl, -, rfl⟩ |
      ⟨v, s, rfl, hv, rfl⟩
    · exact ((F.start hstart).1 a).mpr (ih hy)
    · obtain ⟨took, htr⟩ := hx.entry
      rcases List.mem_cons.mp (htr ▸ hy) with rfl | hy
      · exact F.sets hx htr (hK hc ⟨k, hi⟩).1 ht ha
      · exact (stays_exec hx (stays_back hs hst)).mp hst a (ih hy)
    · exact ih hy
    · exact ((F.env hv).1 a).mpr (ih hy)

/-- One step keeps the flags exactly when it is undisturbed. -/
theorem stays_step {c c' : Config M} {e : Event M} (hc : M.Reachable (M.init s) c)
    (hst : F.Stays c.toWorld) (hs : M.step c e = some c') :
    F.Stays c'.toWorld ↔ F.Undisturbed c e := by
  have hidle : c'.trace = c.trace → F.Undisturbed c e := by
    rintro htr x ⟨c₂, hs₂, hx⟩
    obtain rfl := Option.some.inj (hs.symm.trans hs₂)
    exact absurd (htr.symm.trans hx).symm (List.cons_ne_self x _)
  rcases M.step_cases hs with ⟨i, call, s, rfl, -, hstart, rfl⟩ |
    ⟨i, m, call, o, k, r, w', rfl, hi, hx, rfl⟩ | ⟨i, call, o, k, rfl, -, rfl⟩ |
    ⟨v, s, rfl, hv, rfl⟩
  · exact iff_of_true ((stays_same (F.start hstart).1).mpr hst) (hidle rfl)
  · obtain ⟨took, htr⟩ := hx.entry
    rw [stays_exec hx hst]
    constructor
    · rintro hkeep x ⟨c₂, hs₂, hx₂⟩ ht a ha ⟨y, hy, hty, hay⟩
      obtain rfl := Option.some.inj (hs.symm.trans hs₂)
      obtain rfl := (List.cons.inj (htr.symm.trans hx₂)).1
      have hdone := done_of_set hK hc hst (World.mem_trace_of_since hy) hty hay
      exact F.unsets hx htr ht ha (hkeep a hdone)
    · intro hu a hd
      refine F.keeps hx htr hd fun ht ha => ?_
      exact hu _ ⟨_, hs, htr⟩ ht a ha ((hK hc ⟨k, hi⟩).2 a ha hd)
  · exact iff_of_true hst (hidle rfl)
  · exact iff_of_true ((stays_same (F.env hv).1).mpr hst) (hidle rfl)

/-- **Flags stay set exactly when no clearing write was overtaken.** -/
theorem stays_iff {es : List (Event M)} {c : Config M} (hr : M.replay (M.init s) es = some c) :
    F.Stays c.toWorld ↔ M.Meets F.Undisturbed (M.init s) es :=
  M.iff_meets (P := fun c => F.Stays c.toWorld) (stays_step hK) stays_back .init
    (List.pairwise_singleton _ _) hr

end Known

end Flag

end Async
