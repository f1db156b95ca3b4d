import Mathlib.Algebra.BigOperators.Group.List.Basic
import Mathlib.Algebra.Order.Group.Int
import Mathlib.Tactic.Linarith

/-!
# Books: balances kept next to an append-only journal

A journal entry belongs to an owner, moves the owner's balance by `delta`, and records the balance
right `after` it. A book pairs a balance for each owner with the journal. It is `Consistent` when
each owner's balance is the total of the owner's entries, is never negative, and the recorded
balances are the running totals.

* `Consistent.post`: posting an entry whose recorded balance is the owner's balance plus its
  `delta`, and not negative, keeps a book consistent.
* `running_iff`: the recorded balances are the totals of the prefixes they end.
-/

namespace Ledger

/-- How an entry is read: whose it is, what it moves, and the balance it recorded. -/
structure Reading (τ κ : Type) where
  owner : τ → κ
  delta : τ → Int
  after : τ → Int

variable {τ κ : Type} (R : Reading τ κ)

/-- The total moved by a list of entries. -/
def total (l : List τ) : Int := (l.map R.delta).sum

/-- From balance `b` on, every entry records the balance right after it. -/
def Running : Int → List τ → Prop
  | _, [] => True
  | b, e :: es => R.after e = b + R.delta e ∧ Running (R.after e) es

variable {R}

@[simp] theorem total_nil : total R [] = 0 := rfl

theorem total_append (l l' : List τ) : total R (l ++ l') = total R l + total R l' := by
  simp [total]

theorem total_cons (e : τ) (l : List τ) : total R (e :: l) = R.delta e + total R l := by
  simp [total]

theorem total_singleton (e : τ) : total R [e] = R.delta e := by
  simp [total]

theorem running_append {b : Int} {l l' : List τ} :
    Running R b (l ++ l') ↔ Running R b l ∧ Running R (b + total R l) l' := by
  induction l generalizing b with
  | nil => simp [Running]
  | cons e es ih =>
    simp only [List.cons_append, Running, ih, total_cons, and_assoc]
    refine and_congr_right fun h => ?_
    rw [h, add_assoc]

/-- **The recorded balances are the totals of the prefixes they end.** -/
theorem running_iff {b : Int} {l : List τ} :
    Running R b l ↔ ∀ l₁ e l₂, l = l₁ ++ e :: l₂ → R.after e = b + total R (l₁ ++ [e]) := by
  constructor
  · rintro h l₁ e l₂ rfl
    have h₂ := (running_append.mp h).2
    rw [total_append, total_singleton, ← add_assoc]
    exact h₂.1
  · induction l generalizing b with
    | nil => exact fun _ => trivial
    | cons e es ih =>
      intro h
      have he : R.after e = b + R.delta e := by
        have := h [] e es rfl
        rwa [List.nil_append, total_singleton] at this
      refine ⟨he, ih fun l₁ x l₂ hes => ?_⟩
      have hx := h (e :: l₁) x l₂ (by rw [hes, List.cons_append])
      rw [hx, he, List.cons_append, total_cons, add_assoc]

/-! ## Books of many owners -/

variable [DecidableEq κ] (R) in
/-- The entries of `u`, in journal order. -/
def ofOwner (l : List τ) (u : κ) : List τ := l.filter fun e => R.owner e = u

variable [DecidableEq κ] (R) in
/-- A book is consistent: see the head of the file. -/
structure Consistent (balance : κ → Int) (l : List τ) : Prop where
  total_eq : ∀ u, balance u = total R (ofOwner R l u)
  nonneg : ∀ u, 0 ≤ balance u
  running : ∀ u, Running R 0 (ofOwner R l u)

variable [DecidableEq κ]

theorem ofOwner_append (l l' : List τ) (u : κ) :
    ofOwner R (l ++ l') u = ofOwner R l u ++ ofOwner R l' u := List.filter_append ..

theorem ofOwner_singleton_self (e : τ) : ofOwner R [e] (R.owner e) = [e] := by
  simp [ofOwner]

theorem ofOwner_singleton_ne {e : τ} {u : κ} (h : R.owner e ≠ u) : ofOwner R [e] u = [] := by
  simp [ofOwner, h]

/-- **Posting an entry.** -/
theorem Consistent.post {balance : κ → Int} {l : List τ} (h : Consistent R balance l) {e : τ}
    (hafter : R.after e = balance (R.owner e) + R.delta e) (hpos : 0 ≤ R.after e)
    {balance' : κ → Int} (hself : balance' (R.owner e) = R.after e)
    (hother : ∀ u, u ≠ R.owner e → balance' u = balance u) :
    Consistent R balance' (l ++ [e]) := by
  refine ⟨fun u => ?_, fun u => ?_, fun u => ?_⟩
  · rw [ofOwner_append, total_append]
    by_cases hu : u = R.owner e
    · subst hu
      rw [ofOwner_singleton_self, total_singleton, hself, hafter, h.total_eq]
    · rw [ofOwner_singleton_ne (Ne.symm hu), total_nil, hother u hu, h.total_eq, add_zero]
  · by_cases hu : u = R.owner e
    · subst hu
      rw [hself]
      exact hpos
    · rw [hother u hu]
      exact h.nonneg u
  · rw [ofOwner_append, running_append]
    refine ⟨h.running u, ?_⟩
    by_cases hu : u = R.owner e
    · subst hu
      rw [ofOwner_singleton_self, zero_add, ← h.total_eq]
      exact ⟨hafter, trivial⟩
    · rw [ofOwner_singleton_ne (Ne.symm hu)]
      trivial

/-- Books with the same balances are consistent together. -/
theorem Consistent.congr {balance balance' : κ → Int} {l : List τ} (h : Consistent R balance l)
    (hb : ∀ u, balance' u = balance u) : Consistent R balance' l := by
  rw [show balance' = balance from funext hb]
  exact h

theorem consistent_empty : Consistent R (fun _ => 0) ([] : List τ) :=
  ⟨fun _ => rfl, fun _ => le_refl _, fun _ => trivial⟩

end Ledger
