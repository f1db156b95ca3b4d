import Mathlib.Logic.Relation
import Mathlib.Tactic.Common

/-!
# Regular expressions with lookaround

Patterns over any alphabet, as a backtracking matcher reads them, and the global replacement.

* `Pattern.Takes p s t`: the pattern leads from the place `s` of a text to the place `t`.
* `Pattern.ends p s`: the places the matcher ends at, in the order it tries them.
* **`mem_ends`**: the matcher finds exactly what the pattern takes.
* `replace p w l`: the text `l` with `w` for each match, searched from the left; `replace_insert`
  is the case of a pattern that looks and takes nothing.
-/

namespace Regex

variable {α : Type}

/-- A place in a text: the character before it and what follows it. -/
structure Place (α : Type) where
  before : Option α
  rest : List α

/-- A pattern: `one` is a class of characters, `plus` the greedy `+`, `ahead` is `(?=…)`, `notAhead`
is `(?!…)` and `notBoundary` is `\B` for a class of word characters. -/
inductive Pattern (α : Type) where
  | empty
  | one (p : α → Bool)
  | seq (a b : Pattern α)
  | plus (a : Pattern α)
  | ahead (a : Pattern α)
  | notAhead (a : Pattern α)
  | notBoundary (word : α → Bool)

namespace Pattern

/-- `a{n}`. -/
def times (a : Pattern α) : Nat → Pattern α
  | 0 => empty
  | n + 1 => seq a (times a n)

/-! ## What a pattern means -/

/-- The pattern leads from one place to another. -/
def Takes : Pattern α → Place α → Place α → Prop
  | empty, s, t => t = s
  | one p, s, t => ∃ c cs, s.rest = c :: cs ∧ p c = true ∧ t = ⟨some c, cs⟩
  | seq a b, s, t => ∃ u, a.Takes s u ∧ b.Takes u t
  | plus a, s, t => ∃ u, a.Takes s u ∧ Relation.ReflTransGen a.Takes u t
  | ahead a, s, t => t = s ∧ ∃ u, a.Takes s u
  | notAhead a, s, t => t = s ∧ ¬∃ u, a.Takes s u
  | notBoundary word, s, t => t = s ∧ s.before.any word = s.rest.head?.any word

/-- A way that stays where it is, or goes forward. -/
def Forward (s t : Place α) : Prop := t = s ∨ t.rest.length < s.rest.length

theorem Forward.trans {s t u : Place α} (h₁ : Forward s t) (h₂ : Forward t u) : Forward s u := by
  rcases h₁ with rfl | h₁
  · exact h₂
  · rcases h₂ with rfl | h₂
    · exact .inr h₁
    · exact .inr (Nat.lt_trans h₂ h₁)

theorem forward_chain {R : Place α → Place α → Prop} (hR : ∀ s t, R s t → Forward s t)
    {s t : Place α} (h : Relation.ReflTransGen R s t) : Forward s t := by
  induction h with
  | refl => exact .inl rfl
  | tail _ hstep ih => exact ih.trans (hR _ _ hstep)

theorem Takes.forward {p : Pattern α} {s t : Place α} (h : p.Takes s t) : Forward s t := by
  induction p generalizing s t with
  | empty => exact .inl h
  | one p =>
    obtain ⟨c, cs, hs, -, rfl⟩ := h
    exact .inr (by simp [hs])
  | seq a b iha ihb =>
    obtain ⟨u, ha, hb⟩ := h
    exact (iha ha).trans (ihb hb)
  | plus a ih =>
    obtain ⟨u, ha, hu⟩ := h
    exact (ih ha).trans (forward_chain (fun _ _ => ih) hu)
  | ahead a | notAhead a | notBoundary word => exact .inl h.1

/-! ## The matcher -/

/-- Greedy repetition: another round that takes something is tried before stopping here. -/
def more (f : Place α → List (Place α)) : Nat → Place α → List (Place α)
  | 0, s => [s]
  | n + 1, s =>
    ((f s).filter fun u => u.rest.length < s.rest.length).flatMap (more f n) ++ [s]

/-- The places a match ends at, in the order the matcher tries them. -/
def ends : Pattern α → Place α → List (Place α)
  | empty, s => [s]
  | one p, s =>
    match s.rest with
    | [] => []
    | c :: cs => if p c then [⟨some c, cs⟩] else []
  | seq a b, s => (a.ends s).flatMap b.ends
  | plus a, s => (a.ends s).flatMap (more a.ends s.rest.length)
  | ahead a, s => if (a.ends s).isEmpty then [] else [s]
  | notAhead a, s => if (a.ends s).isEmpty then [s] else []
  | notBoundary word, s => if s.before.any word = s.rest.head?.any word then [s] else []

/-- With enough rounds the repetition ends wherever a chain of rounds leads: the rounds that take
nothing may be left out. -/
theorem mem_more {f : Place α → List (Place α)} (hf : ∀ s t, t ∈ f s → Forward s t) {n : Nat}
    {s t : Place α} (hn : s.rest.length ≤ n) :
    t ∈ more f n s ↔ Relation.ReflTransGen (fun s t => t ∈ f s) s t := by
  constructor
  · intro h
    clear hn
    induction n generalizing s with
    | zero => rw [List.mem_singleton.mp h]
    | succ n ih =>
      simp only [more, List.mem_append, List.mem_flatMap, List.mem_filter,
        List.mem_singleton] at h
      rcases h with ⟨u, ⟨hu, -⟩, ht⟩ | rfl
      · exact (ih ht).head hu
      · exact .refl
  · intro h
    induction h using Relation.ReflTransGen.head_induction_on generalizing n with
    | refl => cases n <;> simp [more]
    | @head s u hstep _ ih =>
      rcases hf s u hstep with rfl | hlt
      · exact ih hn
      · obtain ⟨n, rfl⟩ : ∃ m, n = m + 1 := ⟨n - 1, by omega⟩
        refine List.mem_append.mpr (.inl (List.mem_flatMap.mpr ⟨u, ?_, ih (by omega)⟩))
        exact List.mem_filter.mpr ⟨hstep, by simpa using hlt⟩

theorem isEmpty_ends {p : Pattern α} {s : Place α}
    (h : ∀ t, t ∈ p.ends s ↔ p.Takes s t) : (p.ends s).isEmpty = true ↔ ¬∃ u, p.Takes s u := by
  rw [List.isEmpty_iff, List.eq_nil_iff_forall_not_mem, not_exists]
  exact forall_congr' fun u => not_congr (h u)

/-- **The matcher finds exactly what the pattern takes.** -/
theorem mem_ends (p : Pattern α) (s t : Place α) : t ∈ p.ends s ↔ p.Takes s t := by
  induction p generalizing s t with
  | empty => simp [ends, Takes]
  | one p =>
    unfold ends Takes
    cases hs : s.rest with
    | nil => simp
    | cons c cs => by_cases hc : p c = true <;> simp [hc]
  | seq a b iha ihb => simp [ends, Takes, iha, ihb]
  | plus a ih =>
    have hf : ∀ s t, t ∈ a.ends s → Forward s t := fun s t h => ((ih s t).mp h).forward
    have hchain : (fun s t => t ∈ a.ends s) = a.Takes := by
      funext s t
      exact propext (ih s t)
    have hmore : ∀ u ∈ a.ends s, (t ∈ more a.ends s.rest.length u ↔
        Relation.ReflTransGen a.Takes u t) := by
      intro u hu
      rw [mem_more hf, hchain]
      rcases hf s u hu with rfl | hlt
      · exact Nat.le_refl _
      · exact Nat.le_of_lt hlt
    simp only [ends, Takes, List.mem_flatMap]
    exact exists_congr fun u => by rw [← ih s u]; exact and_congr_right (hmore u)
  | ahead a ih =>
    have h := isEmpty_ends fun t => ih s t
    unfold ends Takes
    by_cases he : ∃ u, a.Takes s u
    · simp [he, Bool.eq_false_iff.mpr fun e => h.mp e he]
    · simp [he, h.mpr he]
  | notAhead a ih =>
    have h := isEmpty_ends fun t => ih s t
    unfold ends Takes
    by_cases he : ∃ u, a.Takes s u
    · simp [he, Bool.eq_false_iff.mpr fun e => h.mp e he]
    · simp [he, h.mpr he]
  | notBoundary word =>
    unfold ends Takes
    by_cases hb : s.before.any word = s.rest.head?.any word <;> simp [hb]

end Pattern

/-! ## The global replacement -/

/-- The replacement from a place on, `skip` characters of which belong to the last match: an empty
match copies the character after it. -/
def replaceFrom (p : Pattern α) (w : List α) : Option α → Nat → List α → List α
  | before, 0, [] => if (p.ends ⟨before, []⟩).isEmpty then [] else w
  | before, 0, c :: cs =>
    match (p.ends ⟨before, c :: cs⟩).head? with
    | none => c :: replaceFrom p w (some c) 0 cs
    | some t =>
      match (c :: cs).length - t.rest.length with
      | 0 => w ++ c :: replaceFrom p w (some c) 0 cs
      | skip + 1 => w ++ replaceFrom p w (some c) skip cs
  | _, _ + 1, [] => []
  | _, skip + 1, c :: cs => replaceFrom p w (some c) skip cs

/-- `l.replace(/p/g, w)`. -/
def replace (p : Pattern α) (w l : List α) : List α := replaceFrom p w none 0 l

/-- A pattern that takes nothing leaves the text and inserts `w` wherever it matches. -/
theorem replaceFrom_cons {p : Pattern α} (hp : ∀ s t, p.Takes s t → t = s) (w : List α)
    (before : Option α) (c : α) (cs : List α) :
    replaceFrom p w before 0 (c :: cs) =
      (if (p.ends ⟨before, c :: cs⟩).isEmpty then [] else w) ++
        c :: replaceFrom p w (some c) 0 cs := by
  rw [replaceFrom]
  cases he : p.ends ⟨before, c :: cs⟩ with
  | nil => simp
  | cons t ts =>
    have ht : t = ⟨before, c :: cs⟩ := hp _ _ ((p.mem_ends _ _).mp (by simp [he]))
    simp [ht]

end Regex
