import BoltBet.Async.Pool

/-!
# Rely–guarantee rules for pools

What a program knows at an `await` must survive the steps of every other program until its own
operation runs. A discipline `Rules` says what survives:

* `inv` holds in every world;
* `rely i call o w w'` is what thread `i`, suspended at `o`, may assume of any later world `w'`
  (a preorder, so that any number of steps of others is one `rely`);
* `cond i call o w r w'` is assumed whenever `o` runs, from `w` to `w'` with the answer `r` (a side
  condition on the run), and every operation ends as `modes` allows;
* `guar i call o w w'` is what the operation `o` of thread `i` promises, beyond its bare effect, to
  the threads that rely on it.

`Safe Q p w`: from `w`, every operation `p` awaits keeps `inv` and gives `guar`, however the
others interfere as `rely` allows, and `p` ends in `Q`. It is computed on the tree of `p`, with
one rule for each way to build a program (`safe_seq`, `safe_try`, `safe_perform`, `safe_forM`,
`safe_of_all`).

**`Rules.Sound.reach`**: when each call is `Safe` where it starts and each step gives the others
what they rely on, every reachable configuration satisfies `inv` and every running call is still
`Safe` there. `Rules.Sound.step` is the same for one more step.
-/

namespace Async

variable {ε : Type} {S : Sig ε} {M : Machine S} {α β : Type}

/-- A rely–guarantee discipline. -/
structure Rules (M : Machine S) where
  inv : World M → Prop
  guar : Nat → M.Call → S.Op → World M → World M → Prop
  rely : Nat → M.Call → S.Op → World M → World M → Prop
  cond : Nat → M.Call → (o : S.Op) → World M → Except ε (S.Res o) → World M → Prop
  modes : Mode M.Choice ε → Prop := fun _ => True
  rely_refl : ∀ i call o w, rely i call o w w
  rely_trans : ∀ {i call o w w₁ w₂}, rely i call o w w₁ → rely i call o w₁ w₂ →
    rely i call o w w₂

namespace Rules

variable (D : Rules M) (i : Nat) (call : M.Call)

/-- Thread `i` may run `p` from `w`: see the head of the file. -/
def Safe (Q : Except ε α → World M → Prop) : Prog S α → World M → Prop
  | .ret a, w => Q (.ok a) w
  | .throw e, w => Q (.error e) w
  | .await o k, w => ∀ w₁, D.rely i call o w w₁ → D.inv w₁ →
      ∀ r w₂, D.cond i call o w₁ r w₂ → M.ExecIn D.modes i call o w₁ r w₂ →
        D.inv w₂ ∧ D.guar i call o w₁ w₂ ∧ Safe Q (k r) w₂

variable {D i call}

theorem Safe.mono {Q Q' : Except ε α → World M → Prop} (hQ : ∀ r w, Q r w → Q' r w)
    {p : Prog S α} {w : World M} (h : D.Safe i call Q p w) : D.Safe i call Q' p w := by
  induction p generalizing w with
  | ret a => exact hQ _ _ h
  | throw e => exact hQ _ _ h
  | await o k ih =>
    intro w₁ hrel hinv r w₂ hcond hx
    obtain ⟨hi, hg, hs⟩ := h w₁ hrel hinv r w₂ hcond hx
    exact ⟨hi, hg, ih r hs⟩

/-- A program stays safe while others interfere. -/
theorem Safe.rely {Q : Except ε α → World M → Prop} {o : S.Op}
    {k : Except ε (S.Res o) → Prog S α} {w w' : World M} (h : D.Safe i call Q (.await o k) w)
    (hrel : D.rely i call o w w') : D.Safe i call Q (.await o k) w' :=
  fun w₁ hrel' => h w₁ (D.rely_trans hrel hrel')

/-- Safety of an `await` is that of what follows it. -/
theorem safe_await_congr {Q : Except ε α → World M → Prop} {Q' : Except ε β → World M → Prop}
    {o : S.Op} {k : Except ε (S.Res o) → Prog S α} {k' : Except ε (S.Res o) → Prog S β}
    {w : World M} (h : ∀ r w₂, D.Safe i call Q (k r) w₂ ↔ D.Safe i call Q' (k' r) w₂) :
    D.Safe i call Q (.await o k) w ↔ D.Safe i call Q' (.await o k') w := by
  simp only [Safe]
  refine forall_congr' fun w₁ => imp_congr_right fun _ => imp_congr_right fun _ =>
    forall_congr' fun r => forall_congr' fun w₂ => imp_congr_right fun _ =>
    imp_congr_right fun _ => ?_
  rw [h r w₂]

/-! ## The rules -/

theorem safe_bind {p : Prog S α} {f : α → Prog S β} {Q : Except ε β → World M → Prop}
    {w : World M} :
    D.Safe i call Q (p >>= f) w ↔ D.Safe i call (fun r w' => match r with
      | .ok a => D.Safe i call Q (f a) w'
      | .error e => Q (.error e) w') p w := by
  induction p generalizing w with
  | ret a => rfl
  | throw e => rfl
  | await o k ih =>
    rw [Prog.await_bind]
    exact safe_await_congr fun r _ => ih r

theorem safe_tryCatch {p : Prog S α} {h : ε → Prog S α} {Q : Except ε α → World M → Prop}
    {w : World M} :
    D.Safe i call Q (p.tryCatch h) w ↔ D.Safe i call (fun r w' => match r with
      | .ok a => Q (.ok a) w'
      | .error e => D.Safe i call Q (h e) w') p w := by
  induction p generalizing w with
  | ret a => rfl
  | throw e => rfl
  | await o k ih =>
    rw [Prog.tryCatch_await]
    exact safe_await_congr fun r _ => ih r

/-- Run `p`, then `f` on what it returns. -/
theorem safe_seq {p : Prog S α} {f : α → Prog S β} {Q : Except ε α → World M → Prop}
    {Q' : Except ε β → World M → Prop} {w : World M} (hp : D.Safe i call Q p w)
    (hok : ∀ a w', Q (.ok a) w' → D.Safe i call Q' (f a) w')
    (herr : ∀ e w', Q (.error e) w' → Q' (.error e) w') : D.Safe i call Q' (p >>= f) w := by
  refine safe_bind.mpr (hp.mono ?_)
  rintro (e | a) w' h
  · exact herr e w' h
  · exact hok a w' h

/-- Run `p`, and `h` on what it throws. -/
theorem safe_try {p : Prog S α} {h : ε → Prog S α} {Q Q' : Except ε α → World M → Prop}
    {w : World M} (hp : D.Safe i call Q p w) (hok : ∀ a w', Q (.ok a) w' → Q' (.ok a) w')
    (herr : ∀ e w', Q (.error e) w' → D.Safe i call Q' (h e) w') :
    D.Safe i call Q' (p.tryCatch h) w := by
  refine safe_tryCatch.mpr (hp.mono ?_)
  rintro (e | a) w' h
  · exact herr e w' h
  · exact hok a w' h

/-- One awaited operation: its step, and what each answer establishes. -/
theorem safe_perform {o : S.Op} {Q : Except ε (S.Res o) → World M → Prop} {w : World M}
    (h : ∀ w₁, D.rely i call o w w₁ → D.inv w₁ → ∀ r w₂, D.cond i call o w₁ r w₂ →
      M.ExecIn D.modes i call o w₁ r w₂ → D.inv w₂ ∧ D.guar i call o w₁ w₂ ∧ Q r w₂) :
    D.Safe i call Q (Prog.perform o) w := by
  intro w₁ hrel hinv r w₂ hcond hx
  obtain ⟨hi, hg, hq⟩ := h w₁ hrel hinv r w₂ hcond hx
  refine ⟨hi, hg, ?_⟩
  cases r <;> exact hq

/-- A loop: `J` relates what is left of the list and the world. -/
theorem safe_forM_rest {f : β → Prog S PUnit} {J : List β → World M → Prop}
    {Q : Except ε PUnit → World M → Prop}
    (hf : ∀ b bs w, J (b :: bs) w → D.Safe i call (fun r w' => match r with
      | .ok _ => J bs w'
      | .error e => Q (.error e) w') (f b) w)
    (hJ : ∀ w, J [] w → Q (.ok ⟨⟩) w) {l : List β} {w : World M} (hw : J l w) :
    D.Safe i call Q (l.forM f) w := by
  induction l generalizing w with
  | nil => exact hJ w hw
  | cons b bs ih =>
    rw [Prog.forM_cons]
    exact safe_seq (hf b bs w hw) (fun _ _ h => ih h) fun _ _ h => h

/-- A loop: each round keeps `J`, and a round that throws ends in `Q`. -/
theorem safe_forM {f : β → Prog S PUnit} {J : World M → Prop}
    {Q : Except ε PUnit → World M → Prop} {l : List β}
    (hf : ∀ b ∈ l, ∀ w, J w → D.Safe i call (fun r w' => match r with
      | .ok _ => J w'
      | .error e => Q (.error e) w') (f b) w)
    (hJ : ∀ w, J w → Q (.ok ⟨⟩) w) {w : World M} (hw : J w) :
    D.Safe i call Q (l.forM f) w := by
  refine safe_forM_rest (J := fun bs w => (∀ b ∈ bs, b ∈ l) ∧ J w) (fun b bs w h => ?_)
    (fun w h => hJ w h.2) ⟨fun _ hb => hb, hw⟩
  obtain ⟨hmem, hw⟩ := h
  refine (hf b (hmem b List.mem_cons_self) w hw).mono fun r w' hr => ?_
  cases r with
  | ok _ => exact ⟨fun b' hb' => hmem b' (List.mem_cons_of_mem b hb'), hr⟩
  | error e => exact hr

/-- A program all of whose operations are harmless is safe. -/
theorem safe_of_all {P : S.Op → Prop} {Q : Except ε α → World M → Prop} {p : Prog S α}
    (hp : p.All P) (hP : ∀ o, P o → ∀ w r w', D.inv w → D.cond i call o w r w' →
      M.Exec i call o w r w' → D.inv w' ∧ D.guar i call o w w')
    (hQ : ∀ r w, Q r w) {w : World M} : D.Safe i call Q p w := by
  induction p generalizing w with
  | ret a => exact hQ _ _
  | throw e => exact hQ _ _
  | await o k ih =>
    intro w₁ _ hinv r w₂ hcond hx
    obtain ⟨hi, hg⟩ := hP o hp.1 w₁ r w₂ hinv hcond hx.exec
    exact ⟨hi, hg, ih r (hp.2 r)⟩

theorem safe_attempt {p : Prog S α} {Q : Except ε (Except ε α) → World M → Prop} {w : World M} :
    D.Safe i call Q p.attempt w ↔ D.Safe i call (fun r => Q (.ok r)) p w := by
  induction p generalizing w with
  | ret a => rfl
  | throw e => rfl
  | await o k ih =>
    exact safe_await_congr fun r _ => ih r

/-- One operation that is replaced by its program. -/
theorem safe_expand_perform {T : Sig ε} {h : (o : T.Op) → Prog S (T.Res o)} {o : T.Op}
    {Q : Except ε (T.Res o) → World M → Prop} {w : World M} :
    D.Safe i call Q ((Prog.perform o).expand h) w ↔ D.Safe i call Q (h o) w := by
  rw [Prog.expand_perform]

/-- A program whose operations are replaced by safe programs is safe. -/
theorem safe_expand {T : Sig ε} {h : (o : T.Op) → Prog S (T.Res o)} {P : T.Op → Prop}
    {Q : Except ε α → World M → Prop} {p : Prog T α} (hp : p.All P)
    (hh : ∀ o, P o → ∀ w, D.Safe i call (fun _ _ => True) (h o) w) (hQ : ∀ r w, Q r w)
    {w : World M} : D.Safe i call Q (p.expand h) w := by
  induction p generalizing w with
  | ret a => exact hQ _ _
  | throw e => exact hQ _ _
  | await o k ih =>
    rw [Prog.expand_await]
    exact safe_seq (safe_attempt.mpr (hh o hp.1 w) : D.Safe i call (fun _ _ => True) _ w)
      (fun r w' _ => ih r (hp.2 r)) fun e w' _ => hQ _ w'

end Rules

/-! ## Soundness -/

/-- The steps that satisfy `ok` follow the discipline `D`, and each call that ends satisfies
`post`. -/
structure Rules.Sound (D : Rules M) (ok : Config M → Event M → Prop)
    (post : Nat → M.Call → Except ε M.Out → World M → Prop) : Prop where
  /-- A call starts safely, and starting it disturbs nobody. -/
  start : ∀ c i call s, ok c (.spawn i call) → D.inv c.toWorld → c.threads i = none →
    M.start call c.state = some s → D.inv ⟨s, c.trace⟩ ∧
      D.Safe i call (post i call) (M.body call) ⟨s, c.trace⟩ ∧
      ∀ j call' o', c.Waits j call' o' → D.rely j call' o' c.toWorld ⟨s, c.trace⟩
  env : ∀ c v s, ok c (.env v) → D.inv c.toWorld → M.env v c.state = some s →
    D.inv ⟨s, c.trace⟩ ∧
      ∀ j call' o', c.Waits j call' o' → D.rely j call' o' c.toWorld ⟨s, c.trace⟩
  cond : ∀ c i m call o r w', ok c (.run i m) → c.Waits i call o →
    M.ExecIn (· = m) i call o c.toWorld r w' → D.cond i call o c.toWorld r w'
  modes : ∀ c i m, ok c (.run i m) → D.modes m
  /-- An operation gives every other thread what it relies on. -/
  rely : ∀ c i m call o r w', ok c (.run i m) → c.Waits i call o →
    M.ExecIn (· = m) i call o c.toWorld r w' → D.inv c.toWorld → D.inv w' →
    D.guar i call o c.toWorld w' →
    ∀ j call' o', j ≠ i → c.Waits j call' o' → D.rely j call' o' c.toWorld w'
  /-- What a call ended with lasts while the others run. -/
  post_run : ∀ i call r j call' o w r' w', j ≠ i → D.inv w → M.Exec j call' o w r' w' →
    D.guar j call' o w w' → post i call r w → post i call r w'
  post_start : ∀ i call r call' w s, D.inv w → M.start call' w.state = some s →
    post i call r w → post i call r ⟨s, w.trace⟩
  post_env : ∀ i call r v w s, D.inv w → M.env v w.state = some s →
    post i call r w → post i call r ⟨s, w.trace⟩

namespace Rules.Sound

variable {D : Rules M} {ok : Config M → Event M → Prop}
  {post : Nat → M.Call → Except ε M.Out → World M → Prop}

/-- The invariant of a pool under `D`. -/
def Good (D : Rules M) (post : Nat → M.Call → Except ε M.Out → World M → Prop) (c : Config M) :
    Prop :=
  D.inv c.toWorld ∧ ∀ i call p, c.threads i = some ⟨call, p, false⟩ →
    D.Safe i call (post i call) p c.toWorld

/-- Safety of a thread that did not step. -/
theorem safe_other {w w' : World M} {i : Nat} {call : M.Call} {p : Prog S M.Out}
    (hs : D.Safe i call (post i call) p w)
    (hrel : ∀ o k, p = .await o k → D.rely i call o w w')
    (hpost : ∀ r, post i call r w → post i call r w') :
    D.Safe i call (post i call) p w' := by
  cases p with
  | ret a => exact hpost _ hs
  | throw e => exact hpost _ hs
  | await o k => exact hs.rely (hrel o k rfl)

theorem good_step (hD : D.Sound ok post) {c c' : Config M} {e : Event M} (hc : Good D post c)
    (hok : ok c e) (hs : M.step c e = some c') : Good D post c' := by
  obtain ⟨hinv, hthr⟩ := hc
  rcases M.step_cases hs with ⟨i, call, s, rfl, hi, hst, rfl⟩ |
    ⟨i, m, call, o, k, -, -, rfl, hi, -, -⟩ | ⟨i, call, o, k, rfl, hi, rfl⟩ |
    ⟨v, s, rfl, hv, rfl⟩
  · obtain ⟨hinv', hsafe, hrel⟩ := hD.start c i call s hok hinv hi hst
    refine ⟨hinv', fun j call' p hj => ?_⟩
    rcases thread_update hj with ⟨rfl, ht⟩ | ⟨-, hj⟩
    · obtain ⟨rfl, rfl, -⟩ := Thread.mk.inj ht
      exact hsafe
    · refine safe_other (hthr j call' p hj) (fun o k hp => hrel j call' o ⟨k, hp ▸ hj⟩)
        fun r => hD.post_start j call' r call c.toWorld s hinv hst
  · obtain ⟨r, w', hx, rfl⟩ := M.step_run hs hi
    obtain ⟨hinv', hguar, hsafe⟩ := hthr i call _ hi c.toWorld (D.rely_refl _ _ _ _) hinv r w'
      (hD.cond c i m call o r w' hok ⟨k, hi⟩ hx) (hx.mono fun _ h => h ▸ hD.modes c i m hok)
    refine ⟨hinv', fun j call' p hj => ?_⟩
    rcases thread_update hj with ⟨rfl, ht⟩ | ⟨hji, hj⟩
    · obtain ⟨rfl, rfl, -⟩ := Thread.mk.inj ht
      exact hsafe
    · refine safe_other (hthr j call' p hj) (fun o' k' hp => ?_)
        fun r' => hD.post_run j call' r' i call o c.toWorld r w' (Ne.symm hji) hinv hx.exec hguar
      exact hD.rely c i m call o r w' hok ⟨k, hi⟩ hx hinv hinv' hguar j call' o' hji
        ⟨k', hp ▸ hj⟩
  · refine ⟨hinv, fun j call' p hj => ?_⟩
    rcases thread_update hj with ⟨-, ht⟩ | ⟨-, hj⟩
    · exact absurd ht (by simp)
    · exact hthr j call' p hj
  · obtain ⟨hinv', hrel⟩ := hD.env c v s hok hinv hv
    refine ⟨hinv', fun j call' p hj => ?_⟩
    exact safe_other (hthr j call' p hj) (fun o k hp => hrel j call' o ⟨k, hp ▸ hj⟩)
      fun r => hD.post_env j call' r v c.toWorld s hinv hv

/-- **Soundness.** From a configuration without threads that satisfies `inv`, every reachable
configuration satisfies `inv`, and every running call is safe where it stands. -/
theorem reach (hD : D.Sound ok post) {s : M.State} (h0 : D.inv ⟨s, []⟩) {c : Config M}
    (h : M.Reach ok (M.init s) c) : Good D post c := by
  induction h with
  | init => exact ⟨h0, fun i call p hi => absurd hi (by simp [Machine.init])⟩
  | step e _ hok hs ih => exact hD.good_step ih hok hs

/-- An operation that runs in a reachable configuration gives its guarantee. -/
theorem guar_step (hD : D.Sound ok post) {c : Config M} (hc : Good D post c) {i : Nat}
    {m : Mode M.Choice ε} {call : M.Call} {o : S.Op} {r : Except ε (S.Res o)} {w' : World M}
    (hok : ok c (.run i m)) (hw : c.Waits i call o)
    (hx : M.ExecIn (· = m) i call o c.toWorld r w') :
    D.guar i call o c.toWorld w' := by
  obtain ⟨k, hi⟩ := hw
  exact (hc.2 i call _ hi c.toWorld (D.rely_refl _ _ _ _) hc.1 r w'
    (hD.cond c i m call o r w' hok ⟨k, hi⟩ hx) (hx.mono fun _ h => h ▸ hD.modes c i m hok)).2.1

/-- A call that returned satisfies its postcondition. -/
theorem returned {c : Config M} (hc : Good D post c) {i : Nat} {call : M.Call} {a : M.Out}
    (h : c.Returned i call a) : post i call (.ok a) c.toWorld :=
  hc.2 i call _ h

end Rules.Sound

end Async
