import BoltBet.Async.Rely

/-!
# What threads know

The common shape of a discipline: `inv` holds always, no step destroys the facts ordered by `le`,
and while a thread waits for the operation `o` it knows `K i call o`, which the others keep.
`cond` may be assumed of every operation that runs, with how it ended.

* `safe_op`: a thread runs an operation whose `K` it has shown, and keeps every fact `J` that `le`
  preserves.
* `reach`: in every reachable configuration `inv` holds, every waiting thread knows its `K`, and
  every returned call satisfies its postcondition; `reach_fresh` when calls start knowing that
  their thread is new.
-/

namespace Async

variable {ε : Type} {S : Sig ε} {M : Machine S} {α : Type}

/-- What holds, what lasts, and what threads know. -/
structure Knowledge (M : Machine S) where
  inv : World M → Prop
  le : World M → World M → Prop
  K : Nat → M.Call → S.Op → World M → Prop
  cond : Nat → M.Call → (o : S.Op) → World M → Except ε (S.Res o) → World M → Prop
  modes : Mode M.Choice ε → Prop := fun _ => True
  refl : ∀ w, le w w
  trans : ∀ {w w₁ w₂}, le w w₁ → le w₁ w₂ → le w w₂
  exec : ∀ {i call o w r w'}, inv w → K i call o w → cond i call o w r w' →
    M.Exec i call o w r w' →
    inv w' ∧ le w w' ∧ ∀ j call' o', j ≠ i → K j call' o' w → K j call' o' w'
  start : ∀ {call s s' l}, M.start call s = some s' → inv ⟨s, l⟩ →
    inv ⟨s', l⟩ ∧ le ⟨s, l⟩ ⟨s', l⟩ ∧ ∀ j call' o', K j call' o' ⟨s, l⟩ → K j call' o' ⟨s', l⟩
  env : ∀ {v s s' l}, M.env v s = some s' → inv ⟨s, l⟩ →
    inv ⟨s', l⟩ ∧ le ⟨s, l⟩ ⟨s', l⟩ ∧ ∀ j call' o', K j call' o' ⟨s, l⟩ → K j call' o' ⟨s', l⟩

namespace Knowledge

variable (D : Knowledge M)

/-- The rules of the discipline. -/
def rules : Rules M where
  inv := D.inv
  guar i call o w w' := D.K i call o w ∧ D.le w w'
  rely i call o w w' := D.le w w' ∧ (D.K i call o w → D.K i call o w')
  cond := D.cond
  modes := D.modes
  rely_refl _ _ _ w := ⟨D.refl w, id⟩
  rely_trans h h' := ⟨D.trans h.1 h'.1, h'.2 ∘ h.2⟩

/-- `J` lasts. -/
def Lasts (J : World M → Prop) : Prop := ∀ {w w'}, D.le w w' → J w → J w'

variable {D} {i : Nat} {call : M.Call}

/-- Running an operation, with all there is to know of it. -/
theorem safe_opIn {o : S.Op} {J : World M → Prop} (hJ : D.Lasts J)
    {Q : Except ε (S.Res o) → World M → Prop} {w : World M} (hw : J w) (hK : D.K i call o w)
    (hQ : ∀ {w₁ r w₂}, D.inv w₁ → D.cond i call o w₁ r w₂ → D.K i call o w₁ → J w₁ →
      M.ExecIn D.modes i call o w₁ r w₂ → D.inv w₂ → J w₂ → Q r w₂) :
    D.rules.Safe i call Q (Prog.perform o) w := by
  refine Rules.safe_perform fun w₁ hrel hinv r w₂ hcond hx => ?_
  have hK₁ : D.K i call o w₁ := hrel.2 hK
  obtain ⟨hinv₂, hle, -⟩ := D.exec hinv hK₁ hcond hx.exec
  exact ⟨hinv₂, ⟨hK₁, hle⟩, hQ hinv hcond hK₁ (hJ hrel.1 hw) hx hinv₂ (hJ hle (hJ hrel.1 hw))⟩

/-- **Running an operation.** -/
theorem safe_op {o : S.Op} {J : World M → Prop} (hJ : D.Lasts J)
    {Q : Except ε (S.Res o) → World M → Prop} {w : World M} (hw : J w) (hK : D.K i call o w)
    (hQ : ∀ {w₁ r w₂}, D.inv w₁ → D.cond i call o w₁ r w₂ → J w₁ → M.Exec i call o w₁ r w₂ →
      D.inv w₂ → J w₂ → Q r w₂) :
    D.rules.Safe i call Q (Prog.perform o) w :=
  safe_opIn hJ hw hK fun hinv hcond _ hw₁ hx => hQ hinv hcond hw₁ hx.exec

/-- Running an operation, when only its answer matters. -/
theorem safe_op' {o : S.Op} {Q : Except ε (S.Res o) → World M → Prop} {w : World M}
    (hK : D.K i call o w)
    (hQ : ∀ {w₁ r w₂}, D.inv w₁ → D.cond i call o w₁ r w₂ → M.Exec i call o w₁ r w₂ → D.inv w₂ →
      Q r w₂) :
    D.rules.Safe i call Q (Prog.perform o) w :=
  safe_op (J := fun _ => True) (fun _ h => h) trivial hK fun hi hc _ hx hi₂ _ => hQ hi hc hx hi₂

/-- A program whose operations need no knowledge keeps every fact that lasts. -/
theorem safe_of_all {P : S.Op → Prop} {p : Prog S α} (hp : p.All P)
    (hP : ∀ o, P o → ∀ w, D.K i call o w) {J : World M → Prop} (hJ : D.Lasts J) {w : World M}
    (hw : J w) : D.rules.Safe i call (fun _ => J) p w := by
  induction p generalizing w with
  | ret a => exact hw
  | throw e => exact hw
  | await o k ih =>
    rintro w₁ hrel hinv r w₂ hcond hx
    have hK₁ : D.K i call o w₁ := hP o hp.1 w₁
    obtain ⟨hinv₂, hle, -⟩ := D.exec hinv hK₁ hcond hx.exec
    exact ⟨hinv₂, ⟨hK₁, hle⟩, ih r (hp.2 r) (hJ hle (hJ hrel.1 hw))⟩

/-- A program whose operations need no knowledge is safe. -/
theorem safe_of_known {P : S.Op → Prop} (hP : ∀ o, P o → ∀ w, D.K i call o w) {p : Prog S α}
    (hp : p.All P) (w : World M) : D.rules.Safe i call (fun _ _ => True) p w :=
  safe_of_all hp hP (J := fun _ => True) (fun _ h => h) trivial

/-! ## Soundness -/

/-- When every call starts safely, the discipline is sound. -/
theorem sound_of_start {ok : Config M → Event M → Prop}
    {post : Nat → M.Call → Except ε M.Out → World M → Prop}
    (hmodes : ∀ c i m, ok c (.run i m) → D.modes m)
    (hok : ∀ c i m call o r w', ok c (.run i m) → c.Waits i call o →
      M.ExecIn (· = m) i call o c.toWorld r w' → D.cond i call o c.toWorld r w')
    (hpost : ∀ i call r, D.Lasts (post i call r))
    (hstart : ∀ c i call s, ok c (.spawn i call) → D.inv ⟨s, c.trace⟩ → c.threads i = none →
      D.rules.Safe i call (post i call) (M.body call) ⟨s, c.trace⟩) :
    D.rules.Sound ok post where
  start c i call s hc hinv hi hs := by
    obtain ⟨hinv', hle, hK⟩ := D.start hs hinv
    exact ⟨hinv', hstart c i call s hc hinv' hi, fun j call' o' _ => ⟨hle, hK j call' o'⟩⟩
  env c v s _ hinv hs := by
    obtain ⟨hinv', hle, hK⟩ := D.env hs hinv
    exact ⟨hinv', fun j call' o' _ => ⟨hle, hK j call' o'⟩⟩
  cond := hok
  modes := hmodes
  rely c i m call o r w' hok' hw hx hinv _ hk j call' o' hj _ := by
    obtain ⟨-, hle, hK⟩ := D.exec hinv hk.1 (hok c i m call o r w' hok' hw hx) hx.exec
    exact ⟨hle, hK j call' o' hj⟩
  post_run i call r j call' o w r' w' _ hinv hx hguar h := hpost i call r hguar.2 h
  post_start i call r call' w s hinv hs h := by
    obtain ⟨-, hle, -⟩ := D.start hs hinv
    exact hpost i call r hle h
  post_env i call r v w s hinv hs h := by
    obtain ⟨-, hle, -⟩ := D.env hs hinv
    exact hpost i call r hle h

theorem sound {ok : Config M → Event M → Prop}
    {post : Nat → M.Call → Except ε M.Out → World M → Prop}
    (hmodes : ∀ c i m, ok c (.run i m) → D.modes m)
    (hok : ∀ c i m call o r w', ok c (.run i m) → c.Waits i call o →
      M.ExecIn (· = m) i call o c.toWorld r w' → D.cond i call o c.toWorld r w')
    (hpost : ∀ i call r, D.Lasts (post i call r))
    (hbody : ∀ i call w, D.inv w → D.rules.Safe i call (post i call) (M.body call) w) :
    D.rules.Sound ok post :=
  sound_of_start hmodes hok hpost fun _ i call _ _ hinv _ => hbody i call _ hinv

/-- What holds in every reachable configuration. -/
theorem reach_inv {ok : Config M → Event M → Prop}
    (hmodes : ∀ c i m, ok c (.run i m) → D.modes m)
    (hok : ∀ c i m call o r w', ok c (.run i m) → c.Waits i call o →
      M.ExecIn (· = m) i call o c.toWorld r w' → D.cond i call o c.toWorld r w')
    (hbody : ∀ i call w, D.inv w → D.rules.Safe i call (fun _ _ => True) (M.body call) w)
    {s : M.State} (h0 : D.inv ⟨s, []⟩) {c : Config M} (h : M.Reach ok (M.init s) c) :
    D.inv c.toWorld :=
  ((sound hmodes hok (fun _ _ _ _ _ _ _ => trivial) hbody).reach h0 h).1

/-- What a reachable configuration satisfies, when operations may end in any way. -/
theorem reach_of_sound [Inhabited ε] {ok : Config M → Event M → Prop} (hmodes : ∀ m, D.modes m)
    {post : Nat → M.Call → Except ε M.Out → World M → Prop} (hD : D.rules.Sound ok post)
    {s : M.State} (h0 : D.inv ⟨s, []⟩) {c : Config M} (h : M.Reach ok (M.init s) c) :
    D.inv c.toWorld ∧
    (∀ i call o, c.Waits i call o → (∀ r w', D.cond i call o c.toWorld r w') →
      D.K i call o c.toWorld) ∧
    ∀ i call a, c.Returned i call a → post i call (.ok a) c.toWorld := by
  have hgood := hD.reach h0 h
  refine ⟨hgood.1, fun i call o ⟨k, hi⟩ hcond => ?_, fun i call a => Rules.Sound.returned hgood⟩
  -- a failing operation shows what the thread must know
  exact (hgood.2 i call _ hi c.toWorld ⟨D.refl _, id⟩ hgood.1 (.error default) _ (hcond _ _)
    ⟨.fail default, _, _, hmodes _, rfl, rfl⟩).2.1.1

/-- **Every reachable configuration**, when operations may end in any way. -/
theorem reach [Inhabited ε] {ok : Config M → Event M → Prop} (hmodes : ∀ m, D.modes m)
    (post : Nat → M.Call → Except ε M.Out → World M → Prop)
    (hok : ∀ c i m call o r w', ok c (.run i m) → c.Waits i call o →
      M.ExecIn (· = m) i call o c.toWorld r w' → D.cond i call o c.toWorld r w')
    (hpost : ∀ i call r, D.Lasts (post i call r))
    (hbody : ∀ i call w, D.inv w → D.rules.Safe i call (post i call) (M.body call) w)
    {s : M.State} (h0 : D.inv ⟨s, []⟩) {c : Config M} (h : M.Reach ok (M.init s) c) :
    D.inv c.toWorld ∧
    (∀ i call o, c.Waits i call o → (∀ r w', D.cond i call o c.toWorld r w') →
      D.K i call o c.toWorld) ∧
    ∀ i call a, c.Returned i call a → post i call (.ok a) c.toWorld :=
  reach_of_sound hmodes (sound (fun _ _ m _ => hmodes m) hok hpost hbody) h0 h

/-- The same, where a call starts before its thread executed anything. -/
theorem reach_fresh [Inhabited ε] {ok : Config M → Event M → Prop} (hmodes : ∀ m, D.modes m)
    (post : Nat → M.Call → Except ε M.Out → World M → Prop)
    (hok : ∀ c i m call o r w', ok c (.run i m) → c.Waits i call o →
      M.ExecIn (· = m) i call o c.toWorld r w' → D.cond i call o c.toWorld r w')
    (hpost : ∀ i call r, D.Lasts (post i call r))
    (hbody : ∀ i call w, D.inv w → (∀ x ∈ w.trace, x.tid ≠ i) →
      D.rules.Safe i call (post i call) (M.body call) w)
    {s : M.State} (h0 : D.inv ⟨s, []⟩) {c : Config M} (h : M.Reach ok (M.init s) c) :
    D.inv c.toWorld ∧
    (∀ i call o, c.Waits i call o → (∀ r w', D.cond i call o c.toWorld r w') →
      D.K i call o c.toWorld) ∧
    ∀ i call a, c.Returned i call a → post i call (.ok a) c.toWorld := by
  have hD : D.rules.Sound (fun c e => M.Reach ok (M.init s) c ∧ ok c e) post := by
    refine sound_of_start (fun _ _ m _ => hmodes m)
      (fun c i m call o r w' h => hok c i m call o r w' h.2) hpost
      fun c i call s' hc hinv hi => hbody i call _ hinv fun x hx hxi => ?_
    obtain ⟨p, b, hthread⟩ := M.entry_started hc.1 x hx
    exact absurd (hthread.symm.trans (hxi ▸ hi)) (by simp)
  exact reach_of_sound hmodes hD h0 h.reached

end Knowledge

end Async
