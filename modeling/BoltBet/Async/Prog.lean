import Mathlib.Logic.Basic

/-!
# Asynchronous programs, cut at their awaits

`Prog S α` is the tree of an `async` function: it returns, throws, or awaits one operation of the
signature `S` and continues with the answer, a result or an error. Between two awaits a program is
a pure function, so a tree says exactly where another program may run in between and where a
failure can strike.

* `Prog` is a lawful monad (`do`), with `throw` and `tryCatch` (`try`/`catch`): an error answered
  to an `await` inside the block reaches the handler.
* `expand h` replaces every awaited operation by a program over another signature.
* `All P` says that every operation the tree can ever await satisfies `P`; `Each P` also says how
  the tree goes on after it.
-/

namespace Async

/-- A signature: the operations and what each one answers, when it does not fail with an `ε`. -/
structure Sig (ε : Type) where
  Op : Type
  Res : Op → Type

/-- An asynchronous program over `S` with result `α`. -/
inductive Prog {ε : Type} (S : Sig ε) (α : Type) where
  | ret (a : α)
  | throw (e : ε)
  | await (o : S.Op) (k : Except ε (S.Res o) → Prog S α)

namespace Prog

variable {ε : Type} {S T : Sig ε} {α β γ : Type}

/-- Run `p`, then `f` on its result. -/
def bind : Prog S α → (α → Prog S β) → Prog S β
  | ret a, f => f a
  | throw e, _ => throw e
  | await o k, f => await o fun r => (k r).bind f

/-- `try { p } catch (e) { h e }`. -/
def tryCatch : Prog S α → (ε → Prog S α) → Prog S α
  | ret a, _ => ret a
  | throw e, h => h e
  | await o k, h => await o fun r => (k r).tryCatch h

/-- Return a result, throw an error. -/
def ofExcept : Except ε α → Prog S α
  | .ok a => ret a
  | .error e => throw e

/-- Await one operation; its error is thrown. -/
def perform (o : S.Op) : Prog S (S.Res o) := await o ofExcept

instance : Monad (Prog S) where
  pure := ret
  bind := bind

instance : MonadExceptOf ε (Prog S) where
  throw := throw
  tryCatch := tryCatch

theorem bind_ret (p : Prog S α) : p.bind ret = p := by
  induction p with
  | ret a => rfl
  | throw e => rfl
  | await o k ih => simp only [bind, ih]

theorem bind_assoc (p : Prog S α) (f : α → Prog S β) (g : β → Prog S γ) :
    (p.bind f).bind g = p.bind fun a => (f a).bind g := by
  induction p with
  | ret a => rfl
  | throw e => rfl
  | await o k ih => simp only [bind, ih]

instance : LawfulMonad (Prog S) :=
  LawfulMonad.mk' (m := Prog S) bind_ret (fun _ _ => rfl) bind_assoc

/-! ### `do` notation, unfolded -/

@[simp] theorem pure_eq (a : α) : (pure a : Prog S α) = ret a := rfl

@[simp] theorem ret_bind (a : α) (f : α → Prog S β) : (ret a >>= f) = f a := rfl

@[simp] theorem throw_bind (e : ε) (f : α → Prog S β) :
    ((throw e : Prog S α) >>= f) = throw e := rfl

@[simp] theorem await_bind (o : S.Op) (k : Except ε (S.Res o) → Prog S α)
    (f : α → Prog S β) : (await o k >>= f) = await o fun r => k r >>= f := rfl

@[simp] theorem tryCatch_ret (a : α) (h : ε → Prog S α) : (ret a).tryCatch h = ret a := rfl

@[simp] theorem tryCatch_throw (e : ε) (h : ε → Prog S α) :
    (throw e : Prog S α).tryCatch h = h e := rfl

@[simp] theorem tryCatch_await (o : S.Op) (k : Except ε (S.Res o) → Prog S α)
    (h : ε → Prog S α) : (await o k).tryCatch h = await o fun r => (k r).tryCatch h := rfl

@[simp] theorem forM_nil (f : β → Prog S PUnit) : ([] : List β).forM f = ret ⟨⟩ := rfl

@[simp] theorem forM_cons (b : β) (bs : List β) (f : β → Prog S PUnit) :
    (b :: bs).forM f = (f b >>= fun _ => bs.forM f) := rfl

/-- The operation a suspended program waits for. -/
def pending : Prog S α → Option S.Op
  | await o _ => some o
  | _ => none

/-! ### Operations as programs of another signature -/

/-- Run `p` and return its outcome, an error included. -/
def attempt : Prog S α → Prog S (Except ε α)
  | ret a => ret (.ok a)
  | throw e => ret (.error e)
  | await o k => await o fun r => (k r).attempt

/-- Replace every awaited operation by its program; what it returns or throws answers the
await. -/
def expand (h : (o : S.Op) → Prog T (S.Res o)) : Prog S α → Prog T α
  | ret a => ret a
  | throw e => throw e
  | await o k => (h o).attempt.bind fun r => (k r).expand h

theorem attempt_bind_tryCatch (p : Prog S α) (f : Except ε α → Prog S β)
    (g : ε → Prog S β) :
    (p.attempt >>= f).tryCatch g = p.attempt >>= fun r => (f r).tryCatch g := by
  induction p with
  | ret a => rfl
  | throw e => rfl
  | await o k ih => simp only [attempt, await_bind, tryCatch_await, ih]

theorem attempt_bind_ofExcept (p : Prog S α) : (p.attempt >>= ofExcept) = p := by
  induction p with
  | ret a => rfl
  | throw e => rfl
  | await o k ih => simp only [attempt, await_bind, ih]

variable (h : (o : S.Op) → Prog T (S.Res o))

@[simp] theorem expand_ret (a : α) : (ret a : Prog S α).expand h = ret a := rfl

@[simp] theorem expand_throw (e : ε) : (throw e : Prog S α).expand h = throw e := rfl

theorem expand_await (o : S.Op) (k : Except ε (S.Res o) → Prog S α) :
    (await o k).expand h = (h o).attempt >>= fun r => (k r).expand h := rfl

/-- `expand` runs the parts of a program in order. -/
@[simp] theorem expand_bind (p : Prog S α) (f : α → Prog S β) :
    (p >>= f).expand h = p.expand h >>= fun a => (f a).expand h := by
  induction p with
  | ret a => rfl
  | throw e => rfl
  | await o k ih =>
    rw [await_bind, expand_await, expand_await, LawfulMonad.bind_assoc]
    exact bind_congr ih

@[simp] theorem expand_perform (o : S.Op) : (perform o).expand h = h o := by
  have hk : ∀ r : Except ε (S.Res o), (ofExcept r : Prog S _).expand h = ofExcept r := by
    rintro (e | a) <;> rfl
  unfold perform
  rw [expand_await]
  exact (bind_congr hk).trans (attempt_bind_ofExcept (h o))

@[simp] theorem expand_map (f : α → β) (p : Prog S α) :
    (f <$> p).expand h = f <$> p.expand h := by
  rw [map_eq_pure_bind, map_eq_pure_bind, expand_bind]
  rfl

@[simp] theorem expand_tryCatch (p : Prog S α) (g : ε → Prog S α) :
    (p.tryCatch g).expand h = (p.expand h).tryCatch fun e => (g e).expand h := by
  induction p with
  | ret a => rfl
  | throw e => rfl
  | await o k ih =>
    rw [tryCatch_await, expand_await, expand_await, attempt_bind_tryCatch]
    exact bind_congr ih

/-! ### The operations of a program -/

/-- Every operation `p` can ever await satisfies `P`. -/
def All (P : S.Op → Prop) : Prog S α → Prop
  | ret _ => True
  | throw _ => True
  | await o k => P o ∧ ∀ r, (k r).All P

variable {P Q : S.Op → Prop}

theorem All.mono (hPQ : ∀ o, P o → Q o) {p : Prog S α} (h : p.All P) : p.All Q := by
  induction p with
  | ret a => trivial
  | throw e => trivial
  | await o k ih => exact ⟨hPQ o h.1, fun r => ih r (h.2 r)⟩

theorem all_true (p : Prog S α) : p.All fun _ => True := by
  induction p with
  | ret a => trivial
  | throw e => trivial
  | await o k ih => exact ⟨trivial, ih⟩

theorem All.bind {p : Prog S α} {f : α → Prog S β} (hp : p.All P) (hf : ∀ a, (f a).All P) :
    (p >>= f).All P := by
  induction p with
  | ret a => exact hf a
  | throw e => trivial
  | await o k ih => exact ⟨hp.1, fun r => ih r (hp.2 r)⟩

theorem All.map {p : Prog S α} {f : α → β} (hp : p.All P) : (f <$> p).All P := by
  rw [map_eq_pure_bind]
  exact hp.bind fun _ => trivial

theorem All.tryCatch {p : Prog S α} {h : ε → Prog S α} (hp : p.All P)
    (hh : ∀ e, (h e).All P) : (p.tryCatch h).All P := by
  induction p with
  | ret a => trivial
  | throw e => exact hh e
  | await o k ih => exact ⟨hp.1, fun r => ih r (hp.2 r)⟩

theorem All.perform {o : S.Op} (h : P o) : (perform o).All P :=
  ⟨h, fun r => by cases r <;> trivial⟩

/-- A value computed without an operation, and then the rest. -/
theorem All.ofExcept_bind {x : Except ε β} {f : β → Prog S α}
    (hf : ∀ b, x = .ok b → (f b).All P) : (ofExcept x >>= f).All P := by
  cases x with
  | ok b => exact hf b rfl
  | error e => trivial

theorem All.forM {l : List β} {f : β → Prog S PUnit} (hf : ∀ b ∈ l, (f b).All P) :
    (l.forM f).All P := by
  induction l with
  | nil => trivial
  | cons b bs ih =>
    exact All.bind (hf b List.mem_cons_self) fun _ =>
      ih fun b' hb' => hf b' (List.mem_cons_of_mem b hb')

/-- The operations of an expanded program are those of the parts put in. -/
theorem All.expand {R : T.Op → Prop} {h : (o : S.Op) → Prog T (S.Res o)} {p : Prog S α}
    (hp : p.All P) (hh : ∀ o, P o → (h o).All R) : (p.expand h).All R := by
  have hattempt : ∀ {β : Type} {q : Prog T β}, q.All R → q.attempt.All R := by
    intro β q hq
    induction q with
    | ret b => trivial
    | throw e => trivial
    | await o k ih => exact ⟨hq.1, fun r => ih r (hq.2 r)⟩
  induction p with
  | ret a => trivial
  | throw e => trivial
  | await o k ih =>
    rw [expand_await]
    exact (hattempt (hh o hp.1)).bind fun r => ih r (hp.2 r)

/-- Every operation `p` can ever await, with how `p` goes on after it, satisfies `P`. -/
def Each (P : (o : S.Op) → (Except ε (S.Res o) → Prog S α) → Prop) : Prog S α → Prop
  | ret _ => True
  | throw _ => True
  | await o k => P o k ∧ ∀ r, (k r).Each P

section Each

variable {R : S.Op → Prop} {P : (o : S.Op) → (Except ε (S.Res o) → Prog S β) → Prop}

/-- A part whose operations satisfy `P` however it goes on, and then the rest. -/
theorem Each.bind (hR : ∀ o k, R o → P o k) {p : Prog S α} {f : α → Prog S β} (hp : p.All R)
    (hf : ∀ a, (f a).Each P) : (p >>= f).Each P := by
  induction p with
  | ret a => exact hf a
  | throw e => trivial
  | await o k ih => exact ⟨hR o _ hp.1, fun r => ih r (hp.2 r)⟩

theorem Each.of_all (hR : ∀ o k, R o → P o k) {p : Prog S β} (hp : p.All R) : p.Each P := by
  induction p with
  | ret a => trivial
  | throw e => trivial
  | await o k ih => exact ⟨hR o k hp.1, fun r => ih r (hp.2 r)⟩

/-- One operation, and then the rest. -/
theorem Each.perform_bind {o : S.Op} {f : S.Res o → Prog S β}
    (ho : P o fun r => ofExcept r >>= f) (hf : ∀ a, (f a).Each P) :
    (perform o >>= f).Each P := by
  refine ⟨ho, fun r => ?_⟩
  cases r with
  | error e => trivial
  | ok a => exact hf a

end Each

end Prog

end Async
