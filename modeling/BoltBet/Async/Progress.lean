import BoltBet.Async.History
import Mathlib.Algebra.BigOperators.Group.Finset.Piecewise
import Mathlib.Logic.Hydra

/-!
# Coming to rest

Programs are finite trees, so a pool whose threads never block one another for good can always come
to rest.

* `Machine.Tracks`: what a thread's history says about the shared state, as `J i l s`, when the
  thread's own steps extend it and no other step breaks it. **`Tracks.step`** keeps it along every
  run.
* **`Machine.comes_to_rest`**: if wherever a thread waits, some thread can be taken one step
  further, every configuration leads to one in which no thread waits. Each step replaces one
  program by one of its continuations, and multisets of programs are well-founded under that.
-/

namespace Async

variable {ε : Type} {S : Sig ε} {M : Machine S}

/-! ## What a history says about the state -/

/-- `J` of a thread's history and the state survives every step. -/
structure Machine.Tracks (M : Machine S) (ok : Config M → Event M → Prop)
    (G : List (Seen S) → S.Op → Prop) (J : Nat → List (Seen S) → M.State → Prop) : Prop where
  start : ∀ {i l call s s'}, M.start call s = some s' → J i l s → J i l s'
  env : ∀ {i l v s s'}, M.env v s = some s' → J i l s → J i l s'
  own : ∀ {c : Config M} {i m call o r w' l}, ok c (.run i m) → c.Waits i call o →
    M.ExecIn (· = m) i call o c.toWorld r w' → G l o → J i l c.state → J i (⟨o, r⟩ :: l) w'.state
  other : ∀ {i j call o w r w' l}, i ≠ j → M.Exec j call o w r w' → J i l w.state → J i l w'.state

/-- Every thread has such a history, and goes on as its program does after it; a thread that was not
started has none. -/
structure Config.Knows (G : List (Seen S) → S.Op → Prop)
    (Q : List (Seen S) → Except ε M.Out → Prop) (J : Nat → List (Seen S) → M.State → Prop)
    (c : Config M) : Prop where
  idle : ∀ i, c.threads i = none → J i [] c.state
  thread : ∀ i t, c.threads i = some t → ∃ l, t.prog.Along G Q l ∧ J i l c.state

section Tracks

variable {ok : Config M → Event M → Prop} {G : List (Seen S) → S.Op → Prop}
  {Q : List (Seen S) → Except ε M.Out → Prop} {J : Nat → List (Seen S) → M.State → Prop}
  {c c' : Config M} {e : Event M}

/-- **Every step keeps what the histories say.** -/
theorem Machine.Tracks.step (hJ : M.Tracks ok G J) (hbody : ∀ call, (M.body call).Along G Q [])
    (h : c.Knows G Q J) (he : ok c e) (hs : M.step c e = some c') : c'.Knows G Q J := by
  rcases M.step_cases hs with ⟨i, call, s, rfl, hi, hst, rfl⟩ |
    ⟨i, m, call, o, k, -, -, rfl, hi, -, -⟩ | ⟨i, call, o, k, rfl, hi, rfl⟩ |
    ⟨v, s, rfl, hv, rfl⟩
  · refine ⟨fun j hj => ?_, fun j t ht => ?_⟩
    · have hj' : c.threads j = none := by
        by_cases hij : j = i
        · exact hij ▸ hi
        · exact (Function.update_of_ne hij _ _).symm.trans hj
      exact hJ.start hst (h.idle j hj')
    · rcases thread_update ht with ⟨rfl, rfl⟩ | ⟨-, ht⟩
      · exact ⟨[], hbody call, hJ.start hst (h.idle j hi)⟩
      · obtain ⟨l, hl, hjl⟩ := h.thread j t ht
        exact ⟨l, hl, hJ.start hst hjl⟩
  · obtain ⟨r, w', hx, rfl⟩ := M.step_run hs hi
    refine ⟨fun j hj => ?_, fun j t ht => ?_⟩
    · have hij : j ≠ i := by
        rintro rfl
        exact absurd ((Function.update_self ..).symm.trans hj) (by simp)
      exact hJ.other hij hx.exec (h.idle j ((Function.update_of_ne hij _ _).symm.trans hj))
    · rcases thread_update ht with ⟨rfl, rfl⟩ | ⟨hij, ht⟩
      · obtain ⟨l, hl, hjl⟩ := h.thread j _ hi
        exact ⟨_, hl.2 r, hJ.own he ⟨k, hi⟩ hx hl.1 hjl⟩
      · obtain ⟨l, hl, hjl⟩ := h.thread j t ht
        exact ⟨l, hl, hJ.other hij hx.exec hjl⟩
  · refine ⟨fun j hj => ?_, fun j t ht => ?_⟩
    · have hij : j ≠ i := by
        rintro rfl
        exact absurd ((Function.update_self ..).symm.trans hj) (by simp)
      exact h.idle j ((Function.update_of_ne hij _ _).symm.trans hj)
    · rcases thread_update ht with ⟨rfl, rfl⟩ | ⟨-, ht⟩
      · obtain ⟨l, hl, hjl⟩ := h.thread j _ hi
        exact ⟨l, hl, hjl⟩
      · exact h.thread j t ht
  · refine ⟨fun j hj => hJ.env hv (h.idle j hj), fun j t ht => ?_⟩
    obtain ⟨l, hl, hjl⟩ := h.thread j t ht
    exact ⟨l, hl, hJ.env hv hjl⟩

theorem Machine.Tracks.reach (hJ : M.Tracks ok G J)
    (hbody : ∀ call, (M.body call).Along G Q []) {c₀ : Config M} (h₀ : c₀.Knows G Q J)
    (h : M.Reach ok c₀ c) : c.Knows G Q J := by
  induction h with
  | init => exact h₀
  | step e _ he hs ih => exact hJ.step hbody ih he hs

end Tracks

/-! ## Termination -/

namespace Prog

variable {α : Type}

/-- A program after its next operation. -/
def Goes (p q : Prog S α) : Prop := ∃ o k r, q = .await o k ∧ p = k r

theorem goes_wf : WellFounded (Goes : Prog S α → Prog S α → Prop) := by
  refine ⟨fun p => ?_⟩
  induction p with
  | ret a =>
    refine ⟨_, ?_⟩
    rintro _ ⟨o, k, r, hq, -⟩
    exact absurd hq (by simp)
  | throw e =>
    refine ⟨_, ?_⟩
    rintro _ ⟨o, k, r, hq, -⟩
    exact absurd hq (by simp)
  | await o k ih =>
    refine ⟨_, ?_⟩
    rintro _ ⟨o', k', r, hq, rfl⟩
    obtain ⟨rfl, hk⟩ := Prog.await.inj hq
    obtain rfl := eq_of_heq hk
    exact ih r

end Prog

namespace Config

/-- One thread went one step further. -/
def Advances (c c' : Config M) : Prop :=
  ∃ i call o k r, c.threads i = some ⟨call, .await o k, false⟩ ∧
    c'.threads = Function.update c.threads i (some ⟨call, k r, false⟩)

/-- The programs of these threads. -/
def progs (c : Config M) (ids : Finset Nat) : Multiset (Prog S M.Out) :=
  ∑ i ∈ ids, ((c.threads i).map fun t => ({t.prog} : Multiset (Prog S M.Out))).getD 0

theorem progs_advance {c c' : Config M} (h : c.Advances c') {ids : Finset Nat}
    (hids : ∀ i t, c.threads i = some t → i ∈ ids) :
    Relation.CutExpand Prog.Goes (c'.progs ids) (c.progs ids) := by
  obtain ⟨i, call, o, k, r, hi, hc'⟩ := h
  have hmem : i ∈ ids := hids i _ hi
  have hrest : ∑ j ∈ ids.erase i, ((c'.threads j).map fun t => ({t.prog} : Multiset _)).getD 0 =
      ∑ j ∈ ids.erase i, ((c.threads j).map fun t => ({t.prog} : Multiset _)).getD 0 := by
    refine Finset.sum_congr rfl fun j hj => ?_
    rw [hc', Function.update_of_ne (Finset.ne_of_mem_erase hj)]
  unfold progs
  rw [← Finset.add_sum_erase ids _ hmem, ← Finset.add_sum_erase ids _ hmem, hrest, hc',
    Function.update_self, hi]
  exact Relation.cutExpand_single_add ⟨o, k, r, rfl, rfl⟩ _

/-- Only finitely many threads were ever started. -/
theorem exists_ids {s : M.State} {c : Config M} (h : M.Reachable (M.init s) c) :
    ∃ ids : Finset Nat, ∀ i t, c.threads i = some t → i ∈ ids := by
  induction h with
  | init => exact ⟨∅, fun i t ht => absurd ht (by simp [Machine.init])⟩
  | @step c _ e hc _ hs ih =>
    obtain ⟨ids, hids⟩ := ih
    have hinsert : ∀ i t j t', Function.update c.threads i (some t) j = some t' →
        j ∈ insert i ids := by
      intro i t j t' ht
      rcases thread_update ht with ⟨rfl, -⟩ | ⟨-, ht⟩
      · exact Finset.mem_insert_self j ids
      · exact Finset.mem_insert_of_mem (hids j t' ht)
    rcases M.step_cases hs with ⟨i, call, s, rfl, -, -, rfl⟩ |
      ⟨i, m, call, o, k, r, w', rfl, -, -, rfl⟩ | ⟨i, call, o, k, rfl, -, rfl⟩ |
      ⟨v, s, rfl, -, rfl⟩
    · exact ⟨insert i ids, hinsert i _⟩
    · exact ⟨insert i ids, hinsert i _⟩
    · exact ⟨insert i ids, hinsert i _⟩
    · exact ⟨ids, hids⟩

end Config

/-- **Whoever never gets stuck comes to rest.** -/
theorem Machine.comes_to_rest {ok : Config M → Event M → Prop} {P : Config M → Prop}
    (hstep : ∀ c, P c → ∀ i call o, c.Waits i call o →
      ∃ c', M.Reach ok c c' ∧ P c' ∧ c.Advances c')
    {ids : Finset Nat} {c : Config M} (hids : ∀ i t, c.threads i = some t → i ∈ ids) (hc : P c) :
    ∃ c', M.Reach ok c c' ∧ P c' ∧ c'.Quiet := by
  -- by induction on the programs that are left
  obtain ⟨ps, hps⟩ : ∃ ps, c.progs ids = ps := ⟨_, rfl⟩
  induction ps using Prog.goes_wf.cutExpand.induction generalizing c with
  | _ ps ih =>
    by_cases hquiet : c.Quiet
    · exact ⟨c, .init, hc, hquiet⟩
    · simp only [Config.Quiet, not_forall, not_not] at hquiet
      obtain ⟨i, call, o, hw⟩ := hquiet
      obtain ⟨c₁, h₁, hP₁, hadv⟩ := hstep c hc i call o hw
      have hids₁ : ∀ j t, c₁.threads j = some t → j ∈ ids := by
        obtain ⟨j', call', o', k', r', hj', hc₁⟩ := hadv
        intro j t ht
        rcases thread_update (hc₁ ▸ ht) with ⟨rfl, -⟩ | ⟨-, ht⟩
        · exact hids j _ hj'
        · exact hids j t ht
      have hless := hps ▸ c.progs_advance hadv hids
      obtain ⟨c', h', hP', hq⟩ := ih _ hless hids₁ hP₁ rfl
      exact ⟨c', h₁.trans h', hP', hq⟩

end Async
