import BoltBet.Async.Pool

/-!
# What threads have seen

A thread knows which operations it ran and how they ended. `Prog.Along G Q l p` follows a program
along every path: after the history `l`, each operation that `p` awaits satisfies `G`, and each end
`Q`. That is sequential: no other thread appears in it.

* `Along.bind`, `Along.tryCatch`, `along_perform`, `Along.of_all`: the rules, by the shape of the
  program.
* `Machine.Ran`: an earlier step of the run, by which a thread ran an operation to an answer.
* **`Machine.along_thread`**: in every reachable configuration, each thread has a history of
  operations that it ran, and goes on as its program does after that history.
-/

namespace Async

variable {ε : Type} {S : Sig ε} {α β : Type}

/-- An operation and how it ended, as its thread saw it. -/
structure Seen (S : Sig ε) where
  op : S.Op
  res : Except ε (S.Res op)

/-- The operation was run, and answered `a`. -/
def Saw (l : List (Seen S)) (o : S.Op) (a : S.Res o) : Prop := ⟨o, .ok a⟩ ∈ l

section Saw

variable {l l' : List (Seen S)} {o : S.Op} {a : S.Res o}

theorem saw_head : Saw (⟨o, .ok a⟩ :: l) o a := List.mem_cons_self

theorem Saw.cons (h : Saw l o a) {x : Seen S} : Saw (x :: l) o a := List.mem_cons_of_mem _ h

theorem Saw.later (h : Saw l o a) (hl : l <:+ l') : Saw l' o a := hl.subset h

end Saw

namespace Prog

/-- Along every path of a program: what it awaits satisfies `G`, and how it ends `Q`. -/
def Along (G : List (Seen S) → S.Op → Prop) (Q : List (Seen S) → Except ε α → Prop) :
    Prog S α → List (Seen S) → Prop
  | ret a, l => Q l (.ok a)
  | throw e, l => Q l (.error e)
  | await o k, l => G l o ∧ ∀ r, (k r).Along G Q (⟨o, r⟩ :: l)

variable {G : List (Seen S) → S.Op → Prop} {Q Q' : List (Seen S) → Except ε α → Prop}
  {R : List (Seen S) → Except ε β → Prop} {l : List (Seen S)}

theorem Along.mono (hQ : ∀ l r, Q l r → Q' l r) {p : Prog S α} (h : p.Along G Q l) :
    p.Along G Q' l := by
  induction p generalizing l with
  | ret a => exact hQ l _ h
  | throw e => exact hQ l _ h
  | await o k ih => exact ⟨h.1, fun r => ih r (h.2 r)⟩

/-- Run `p`, then `f` on what it returns. -/
theorem Along.bind {p : Prog S α} {f : α → Prog S β} (hp : p.Along G Q l)
    (hok : ∀ a l', Q l' (.ok a) → (f a).Along G R l')
    (herr : ∀ e l', Q l' (.error e) → R l' (.error e)) : (p >>= f).Along G R l := by
  induction p generalizing l with
  | ret a => exact hok a l hp
  | throw e => exact herr e l hp
  | await o k ih => exact ⟨hp.1, fun r => ih r (hp.2 r)⟩

theorem Along.map {p : Prog S α} {f : α → β} (hp : p.Along G Q l)
    (hok : ∀ a l', Q l' (.ok a) → R l' (.ok (f a)))
    (herr : ∀ e l', Q l' (.error e) → R l' (.error e)) : (f <$> p).Along G R l := by
  rw [map_eq_pure_bind]
  exact hp.bind hok herr

/-- Run `p`, and `h` on what it throws. -/
theorem Along.tryCatch {p : Prog S α} {h : ε → Prog S α} (hp : p.Along G Q l)
    (hok : ∀ a l', Q l' (.ok a) → Q' l' (.ok a))
    (herr : ∀ e l', Q l' (.error e) → (h e).Along G Q' l') : (p.tryCatch h).Along G Q' l := by
  induction p generalizing l with
  | ret a => exact hok a l hp
  | throw e => exact herr e l hp
  | await o k ih => exact ⟨hp.1, fun r => ih r (hp.2 r)⟩

/-- One operation. -/
theorem along_perform {o : S.Op} {Q : List (Seen S) → Except ε (S.Res o) → Prop} (hG : G l o)
    (hQ : ∀ r, Q (⟨o, r⟩ :: l) r) : (perform o).Along G Q l := by
  refine ⟨hG, fun r => ?_⟩
  cases r with
  | ok a => exact hQ (.ok a)
  | error e => exact hQ (.error e)

/-- One operation, and then the rest. -/
theorem along_perform_bind {o : S.Op} {f : S.Res o → Prog S β} (hG : G l o)
    (hok : ∀ a, (f a).Along G R (⟨o, .ok a⟩ :: l))
    (herr : ∀ e, R (⟨o, .error e⟩ :: l) (.error e)) : (perform o >>= f).Along G R l := by
  refine ⟨hG, fun r => ?_⟩
  cases r with
  | ok a => exact hok a
  | error e => exact herr e

/-- A value computed without an operation, and then the rest. -/
theorem along_ofExcept_bind {x : Except ε β} {f : β → Prog S α}
    {Q : List (Seen S) → Except ε α → Prop} (hok : ∀ a, x = .ok a → (f a).Along G Q l)
    (herr : ∀ e, x = .error e → Q l (.error e)) : (ofExcept x >>= f).Along G Q l := by
  cases x with
  | ok a => exact hok a rfl
  | error e => exact herr e rfl

/-- A program of operations that satisfy `G` after any history. -/
theorem Along.of_all {P : S.Op → Prop} (hG : ∀ l o, P o → G l o) {p : Prog S α} (hp : p.All P) :
    p.Along G (fun l' _ => l <:+ l' ∧ ∀ x ∈ l', x ∈ l ∨ P x.op) l := by
  induction p generalizing l with
  | ret a => exact ⟨List.suffix_rfl, fun x hx => .inl hx⟩
  | throw e => exact ⟨List.suffix_rfl, fun x hx => .inl hx⟩
  | await o k ih =>
    refine ⟨hG l o hp.1, fun r => (ih r (hp.2 r)).mono ?_⟩
    rintro l' - ⟨hle, hmem⟩
    refine ⟨(List.suffix_cons _ _).trans hle, fun x hx => ?_⟩
    rcases hmem x hx with h | h
    · rcases List.mem_cons.mp h with rfl | h
      · exact .inr hp.1
      · exact .inl h
    · exact .inr h

/-- The operations of a program are of its kind, besides what else holds along it. -/
theorem Along.recall {P : S.Op → Prop} {p : Prog S α} (h : p.Along G Q l) (hp : p.All P) :
    p.Along G (fun l' r => Q l' r ∧ l <:+ l' ∧ ∀ x ∈ l', x ∈ l ∨ P x.op) l := by
  induction p generalizing l with
  | ret a => exact ⟨h, List.suffix_rfl, fun x hx => .inl hx⟩
  | throw e => exact ⟨h, List.suffix_rfl, fun x hx => .inl hx⟩
  | await o k ih =>
    refine ⟨h.1, fun r => (ih r (h.2 r) (hp.2 r)).mono ?_⟩
    rintro l' res ⟨hQ, hle, hmem⟩
    refine ⟨hQ, (List.suffix_cons _ _).trans hle, fun x hx => ?_⟩
    rcases hmem x hx with hx | hx
    · rcases List.mem_cons.mp hx with rfl | hx
      · exact .inr hp.1
      · exact .inl hx
    · exact .inr hx

/-- The outcome of a program, which throws nothing any more. -/
theorem Along.attempt {p : Prog S α} (h : p.Along G Q l) :
    p.attempt.Along G (fun l' r => ∃ r', r = .ok r' ∧ Q l' r') l := by
  induction p generalizing l with
  | ret a => exact ⟨.ok a, rfl, h⟩
  | throw e => exact ⟨.error e, rfl, h⟩
  | await o k ih => exact ⟨h.1, fun r => ih r (h.2 r)⟩

/-- What the program of each operation keeps. -/
theorem Along.expand {T : Sig ε} {J : List (Seen S) → Prop} {h : (o : T.Op) → Prog S (T.Res o)}
    (hh : ∀ o l, J l → (h o).Along G (fun l' _ => J l') l) {p : Prog T α} (hl : J l) :
    (p.expand h).Along G (fun l' _ => J l') l := by
  induction p generalizing l with
  | ret a => exact hl
  | throw e => exact hl
  | await o k ih =>
    rw [expand_await]
    refine (hh o l hl).attempt.bind (fun r l' hr => ?_) fun e l' hr => ?_
    · obtain ⟨-, -, hJ⟩ := hr
      exact ih r hJ
    · obtain ⟨-, -, hJ⟩ := hr
      exact hJ

/-- A loop whose rounds all run after the history `l₀`. -/
theorem along_forM {f : β → Prog S PUnit} {l₀ : List (Seen S)} {bs : List β}
    (hf : ∀ b ∈ bs, ∀ l, l₀ <:+ l → (f b).Along G (fun l' _ => l₀ <:+ l') l) (hl : l₀ <:+ l) :
    (bs.forM f).Along G (fun l' _ => l₀ <:+ l') l := by
  induction bs generalizing l with
  | nil => exact hl
  | cons b bs ih =>
    refine Along.bind (hf b List.mem_cons_self l hl) (fun _ l' hl' => ?_) fun _ _ h => h
    exact ih (fun b' hb' => hf b' (List.mem_cons_of_mem b hb')) hl'

end Prog

/-! ## Histories in a run -/

variable {M : Machine S} {c₀ c c' : Config M} {i : Nat} {call : M.Call}

/-- An earlier step ran an operation of thread `i`, which ended so. -/
def Machine.Ran (M : Machine S) (c₀ : Config M) (i : Nat) (call : M.Call) (x : Seen S)
    (c : Config M) : Prop :=
  ∃ c₁ c₂ m, M.Reachable c₀ c₁ ∧ c₁.Waits i call x.op ∧ M.step c₁ (.run i m) = some c₂ ∧
    M.Exec i call x.op c₁.toWorld x.res c₂.toWorld ∧ M.Reachable c₂ c

theorem Machine.Ran.later {x : Seen S} (h : M.Ran c₀ i call x c) (hc : M.Reachable c c') :
    M.Ran c₀ i call x c' := by
  obtain ⟨c₁, c₂, m, h₁, hw, hs, hx, h₂⟩ := h
  exact ⟨c₁, c₂, m, h₁, hw, hs, hx, h₂.trans hc⟩

/-- An answered operation is on the trace. -/
theorem Machine.Ran.entry {o : S.Op} {a : S.Res o} (h : M.Ran c₀ i call ⟨o, .ok a⟩ c) :
    ∃ y ∈ c.trace, y.tid = i ∧ y.call = call ∧ y.op = o ∧ y.took = true ∧
      ∃ ch s, M.exec i ch o y.before = some (.ok a, s) := by
  obtain ⟨c₁, c₂, m, -, -, -, hx, h₂⟩ := h
  obtain ⟨ch, s, hs, hw⟩ := hx.ok_cases
  have hmem : (⟨i, call, o, true, c₁.state⟩ : Entry M) ∈ c₂.toWorld.trace := by
    rw [hw]
    exact List.mem_cons_self
  exact ⟨_, h₂.trace_suffix.subset hmem, rfl, rfl, rfl, rfl, ch, s, hs⟩

/-- What thread `i` has seen: it ran all of that, and nothing else. -/
structure Machine.Recalls (M : Machine S) (c₀ : Config M) (i : Nat) (call : M.Call)
    (l : List (Seen S)) (c : Config M) : Prop where
  ran : ∀ x ∈ l, M.Ran c₀ i call x c
  own : ∀ y ∈ c.trace, y.tid = i → ∃ x ∈ l, x.op = y.op

variable {l : List (Seen S)}

/-- A step of another thread, of the surroundings, or one that runs nothing. -/
theorem Machine.Recalls.other (h : M.Recalls c₀ i call l c) {e : Event M}
    (hs : M.step c e = some c') (hown : ∀ y ∈ c'.trace, y.tid = i → y ∈ c.trace) :
    M.Recalls c₀ i call l c' where
  ran x hx := (h.ran x hx).later (.step e .init trivial hs)
  own y hy hi := h.own y (hown y hy hi) hi

/-- **Every thread has a history**, and goes on as its program does after it. -/
theorem Machine.along_thread {G : M.Call → List (Seen S) → S.Op → Prop}
    {Q : M.Call → List (Seen S) → Except ε M.Out → Prop}
    (hbody : ∀ call, (M.body call).Along (G call) (Q call) []) {s : M.State}
    (h : M.Reachable (M.init s) c) {t : Thread M} (ht : c.threads i = some t) :
    ∃ l, M.Recalls (M.init s) i t.call l c ∧ t.prog.Along (G t.call) (Q t.call) l := by
  induction h generalizing i t with
  | init => exact absurd ht (by simp [Machine.init])
  | @step c c' e hc _ hs ih =>
    rcases M.step_cases hs with ⟨j, call, s', rfl, hj, -, rfl⟩ |
      ⟨j, m, call, o, k, r, w', rfl, hj, hx, rfl⟩ | ⟨j, call, o, k, rfl, hj, rfl⟩ |
      ⟨v, s', rfl, -, rfl⟩
    · rcases thread_update ht with ⟨rfl, rfl⟩ | ⟨-, ht⟩
      · refine ⟨[], ⟨fun x hx => absurd hx (by simp), fun y hy hi => ?_⟩, hbody call⟩
        obtain ⟨p, b, hold⟩ := M.entry_started hc y hy
        exact absurd (hold.symm.trans (hi ▸ hj)) (by simp)
      · obtain ⟨l, hl, hp⟩ := ih ht
        exact ⟨l, hl.other hs fun y hy _ => hy, hp⟩
    · obtain ⟨took, htr⟩ := hx.entry
      rcases thread_update ht with ⟨rfl, rfl⟩ | ⟨hij, ht⟩
      · obtain ⟨l, hl, hp⟩ := ih hj
        refine ⟨⟨o, r⟩ :: l, ⟨fun x hxl => ?_, fun y hy hi => ?_⟩, hp.2 r⟩
        · rcases List.mem_cons.mp hxl with rfl | hxl
          · exact ⟨c, _, m, hc, ⟨k, hj⟩, hs, hx, .init⟩
          · exact (hl.ran x hxl).later (.step _ .init trivial hs)
        · have hy' : y ∈ w'.trace := hy
          rcases List.mem_cons.mp (htr ▸ hy') with rfl | hy
          · exact ⟨_, List.mem_cons_self, rfl⟩
          · obtain ⟨x, hxl, hxo⟩ := hl.own y hy hi
            exact ⟨x, List.mem_cons_of_mem _ hxl, hxo⟩
      · obtain ⟨l, hl, hp⟩ := ih ht
        refine ⟨l, hl.other hs fun y hy hi => ?_, hp⟩
        have hy' : y ∈ w'.trace := hy
        rcases List.mem_cons.mp (htr ▸ hy') with rfl | hy
        · exact absurd hi.symm hij
        · exact hy
    · rcases thread_update ht with ⟨rfl, rfl⟩ | ⟨-, ht⟩
      · obtain ⟨l, hl, hp⟩ := ih hj
        exact ⟨l, hl.other hs fun y hy _ => hy, hp⟩
      · obtain ⟨l, hl, hp⟩ := ih ht
        exact ⟨l, hl.other hs fun y hy _ => hy, hp⟩
    · obtain ⟨l, hl, hp⟩ := ih ht
      exact ⟨l, hl.other hs fun y hy _ => hy, hp⟩

section Along

variable {G : M.Call → List (Seen S) → S.Op → Prop}
  {Q : M.Call → List (Seen S) → Except ε M.Out → Prop}
  (hbody : ∀ call, (M.body call).Along (G call) (Q call) []) {s : M.State}
include hbody

/-- What a waiting thread has seen. -/
theorem Machine.along_waits (h : M.Reachable (M.init s) c) {o : S.Op} (hw : c.Waits i call o) :
    ∃ l, M.Recalls (M.init s) i call l c ∧ G call l o := by
  obtain ⟨k, hk⟩ := hw
  obtain ⟨l, hl, hp⟩ := M.along_thread hbody h hk
  exact ⟨l, hl, hp.1⟩

/-- What a call that returned has seen. -/
theorem Machine.along_returned (h : M.Reachable (M.init s) c) {a : M.Out}
    (ha : c.Returned i call a) : ∃ l, M.Recalls (M.init s) i call l c ∧ Q call l (.ok a) :=
  M.along_thread hbody h ha

end Along

/-- **Once a thread.** A program that never awaits a second operation of `P` runs none: an operation
of `P` is the first that its thread ran. -/
theorem Machine.once_of_along {P : S.Op → Prop} {s : M.State} (h : M.Reachable (M.init s) c)
    (hbody : ∀ call, (M.body call).Along (fun l o => P o → ∀ x ∈ l, ¬ P x.op) (fun _ _ => True) [])
    {x : Entry M} {l : List (Entry M)} (hx : (x :: l) <:+ c.trace) (hP : P x.op) :
    ∀ y ∈ l, y.tid = x.tid → ¬ P y.op := by
  induction h with
  | init => exact absurd hx (by simp [Machine.init])
  | step e hc _ hs ih =>
    rcases M.step_cases hs with ⟨i, call, s, rfl, -, -, rfl⟩ |
      ⟨i, m, call, o, k, r, w', rfl, hwait, hexec, rfl⟩ | ⟨i, call, o, k, rfl, -, rfl⟩ |
      ⟨v, s, rfl, -, rfl⟩
    · exact ih hx
    · obtain ⟨took, htr⟩ := hexec.entry
      have hx' : (x :: l) <:+ w'.trace := hx
      rcases List.suffix_cons_iff.mp (htr ▸ hx') with heq | hx
      · obtain ⟨rfl, rfl⟩ := List.cons.inj heq
        intro y hy hi
        obtain ⟨seen, hseen, hG⟩ := M.along_waits hbody hc ⟨k, hwait⟩
        obtain ⟨z, hz, hzy⟩ := hseen.own y hy hi
        exact hzy ▸ hG hP z hz
      · exact ih hx
    · exact ih hx
    · exact ih hx

end Async
