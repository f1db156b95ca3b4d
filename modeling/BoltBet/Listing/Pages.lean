import Mathlib.Data.List.Sort
import Mathlib.Tactic.Linarith

/-!
# Pages of a list that only its keys order

A query sees `rows` in some order in which the keys do not increase (`Orders`). Rows with one key
may stand in any order, and another query may see them in another one. Each page is cut out of the
order of its own query.

* `CutsTie`: a page ends between two rows with one key.
* `take_perm`: without such a page, the rows of the first pages are the same in every order, so the
  pages together are the rows (`pages_perm`).
* `exists_missing`: with such a page, some row is on no page.
-/

namespace Paging

variable {α κ : Type} [LinearOrder κ]

/-- The keys do not increase. -/
def Descending (key : α → κ) (l : List α) : Prop := l.Pairwise fun a b => key b ≤ key a

/-- An order in which a query may see the rows. -/
structure Orders (key : α → κ) (rows seen : List α) : Prop where
  perm : seen.Perm rows
  descending : Descending key seen

instance (key : α → κ) : DecidablePred (Descending key) :=
  fun l => inferInstanceAs (Decidable (l.Pairwise fun a b => key b ≤ key a))

/-- Page `p`, from 1, of this many rows each. -/
def page (limit p : Nat) (seen : List α) : List α := (seen.drop ((p - 1) * limit)).take limit

/-- Pages 1 to `n`, one after the other. -/
def concat (fetch : Nat → List α) (n : Nat) : List α :=
  (List.range n).flatMap fun p => fetch (p + 1)

/-- The number of pages. -/
def pageCount (n limit : Nat) : Nat := (n + limit - 1) / limit

/-- The rows before those with this key. -/
def before (key : α → κ) (rows : List α) (x : κ) : Nat := rows.countP fun a => x < key a

/-- The rows with this key. -/
def tied (key : α → κ) (rows : List α) (x : κ) : Nat := rows.countP fun a => key a = x

/-- A page ends between two rows with one key. -/
def CutsTie (key : α → κ) (rows : List α) (limit : Nat) : Prop :=
  ∃ row ∈ rows, ∃ k, before key rows (key row) < k * limit ∧
    k * limit < before key rows (key row) + tied key rows (key row)

variable {key : α → κ} {rows seen seen' l l' : List α} {a b : α} {limit n : Nat}

theorem concat_succ (fetch : Nat → List α) (n : Nat) :
    concat fetch (n + 1) = concat fetch n ++ fetch (n + 1) := by
  unfold concat
  rw [List.range_succ, List.flatMap_append, List.flatMap_singleton]

theorem mem_concat {fetch : Nat → List α} : a ∈ concat fetch n ↔ ∃ p < n, a ∈ fetch (p + 1) := by
  unfold concat
  rw [List.mem_flatMap]
  simp only [List.mem_range]

theorem le_pageCount (n : Nat) (h : 0 < limit) : n ≤ pageCount n limit * limit := by
  have hdiv := Nat.div_add_mod (n + limit - 1) limit
  have hmod := Nat.mod_lt (n + limit - 1) h
  rw [Nat.mul_comm] at hdiv
  unfold pageCount
  omega

theorem mem_take_of_page {p : Nat} (hp : 0 < p) (h : a ∈ page limit p l) :
    a ∈ l.take (p * limit) := by
  unfold page at h
  rw [List.take_drop, ← Nat.succ_mul, Nat.succ_eq_add_one, Nat.sub_add_cancel hp] at h
  exact List.mem_of_mem_drop h

theorem mem_drop_of_page {p : Nat} (h : a ∈ page limit (p + 1) l) : a ∈ l.drop (p * limit) :=
  List.mem_of_mem_take h

/-! ## Keys and positions -/

theorem before_add_tied (key : α → κ) (rows : List α) (x : κ) :
    before key rows x + tied key rows x = rows.countP fun a => x ≤ key a := by
  unfold before tied
  induction rows with
  | nil => rfl
  | cons a rows ih =>
    rw [List.countP_cons, List.countP_cons, List.countP_cons, ← ih]
    rcases lt_trichotomy x (key a) with h | h | h
    · simp only [h, h.le, h.ne', decide_true, decide_false, if_true]
      simp
      omega
    · simp only [h, lt_irrefl, le_refl, decide_true, decide_false, if_true]
      simp
      omega
    · simp only [not_lt.mpr h.le, not_le.mpr h, h.ne, decide_false]
      simp

/-- The rows at or above a key come first. -/
theorem filter_eq_take (h : Descending key l) (x : κ) :
    l.filter (fun a => x ≤ key a) = l.take (l.countP fun a => x ≤ key a) := by
  induction l with
  | nil => rfl
  | cons a l ih =>
    obtain ⟨ha, hl⟩ := List.pairwise_cons.mp h
    by_cases hx : x ≤ key a
    · rw [List.filter_cons_of_pos (by simpa using hx), List.countP_cons_of_pos (by simpa using hx),
        List.take_succ_cons, ih hl]
    · have hnone : ∀ b ∈ a :: l, ¬ (decide (x ≤ key b) = true) := by
        intro b hb hxb
        rcases List.mem_cons.mp hb with rfl | hb
        · exact hx (by simpa using hxb)
        · exact hx (le_trans (by simpa using hxb) (ha b hb))
      rw [List.filter_eq_nil_iff.mpr hnone, List.countP_eq_zero.mpr hnone, List.take_zero]

/-- The row at a position: the rows before its key stand before it, and those with its key reach
beyond it. -/
theorem position (h : Orders key rows (l ++ a :: l')) :
    before key rows (key a) ≤ l.length ∧
      l.length < before key rows (key a) + tied key rows (key a) := by
  obtain ⟨-, htail, hcross⟩ := List.pairwise_append.mp h.descending
  have hlast := (List.pairwise_cons.mp htail).1
  constructor
  · unfold before
    rw [← h.perm.countP_eq, List.countP_append]
    have hnone : (a :: l').countP (fun b => decide (key a < key b)) = 0 := by
      rw [List.countP_eq_zero]
      intro b hb hlt
      have hlt : key a < key b := by simpa using hlt
      rcases List.mem_cons.mp hb with rfl | hb
      · exact lt_irrefl _ hlt
      · exact not_lt.mpr (hlast b hb) hlt
    rw [hnone]
    exact List.countP_le_length
  · rw [before_add_tied, ← h.perm.countP_eq, List.countP_append]
    have hall : l.countP (fun b => decide (key a ≤ key b)) = l.length := by
      rw [List.countP_eq_length]
      intro b hb
      simpa using hcross b hb a List.mem_cons_self
    rw [hall, List.countP_cons_of_pos (by simp)]
    omega

/-- A position belongs to one key. -/
theorem key_unique {x y : κ} {i : Nat} (hx : before key rows x ≤ i)
    (hx' : i < before key rows x + tied key rows x) (hy : before key rows y ≤ i)
    (hy' : i < before key rows y + tied key rows y) : x = y := by
  have hlt : ∀ {x y : κ}, x < y →
      before key rows y + tied key rows y ≤ before key rows x := by
    intro x y hxy
    rw [before_add_tied]
    exact List.countP_mono_left fun a _ ha => by
      have ha : y ≤ key a := by simpa using ha
      simpa using lt_of_lt_of_le hxy ha
  rcases lt_trichotomy x y with h | h | h
  · have := hlt h
    omega
  · exact h
  · have := hlt h
    omega

/-! ## Without a cut -/

/-- The first rows, where a page ends, are the same in every order. -/
theorem take_perm (hcut : ¬ CutsTie key rows limit) (h : Orders key rows seen)
    (h' : Orders key rows seen') (k : Nat) :
    (seen.take (k * limit)).Perm (seen'.take (k * limit)) := by
  by_cases hall : rows.length ≤ k * limit
  · rw [List.take_of_length_le (h.perm.length_eq ▸ hall),
      List.take_of_length_le (h'.perm.length_eq ▸ hall)]
    exact h.perm.trans h'.perm.symm
  · rcases Nat.eq_zero_or_pos (k * limit) with hzero | hpos
    · rw [hzero]
      exact .refl _
    · -- the last row of the page decides which rows are on the pages so far
      have hlen : k * limit - 1 < seen.length := by
        rw [h.perm.length_eq]
        omega
      have hsplit : seen = seen.take (k * limit - 1) ++
          seen[k * limit - 1] :: seen.drop (k * limit - 1 + 1) := by
        rw [← List.drop_eq_getElem_cons hlen, List.take_append_drop]
      have hlast := hsplit ▸ h
      obtain ⟨hbefore, htied⟩ := position hlast
      rw [List.length_take_of_le hlen.le] at hbefore htied
      have hcount : (rows.countP fun a => key seen[k * limit - 1] ≤ key a) = k * limit := by
        rw [← before_add_tied]
        by_contra hne
        exact hcut ⟨_, h.perm.mem_iff.mp (List.getElem_mem hlen), k, by omega, by omega⟩
      have htake : ∀ {s : List α}, Orders key rows s →
          s.take (k * limit) = s.filter fun a => key seen[k * limit - 1] ≤ key a := by
        intro s hs
        rw [filter_eq_take hs.descending, hs.perm.countP_eq, hcount]
      rw [htake h, htake h']
      exact (h.perm.trans h'.perm.symm).filter _

/-- **Pages that fit together**: they hold the first rows of any one order. -/
theorem pages_perm (hcut : ¬ CutsTie key rows limit) {orders : Nat → List α}
    (h : ∀ p, Orders key rows (orders p)) (n : Nat) :
    (concat (fun p => page limit p (orders p)) n).Perm ((orders 0).take (n * limit)) := by
  induction n with
  | zero =>
    rw [Nat.zero_mul]
    exact .refl _
  | succ n ih =>
    rw [concat_succ]
    have hnext : page limit (n + 1) (orders (n + 1)) =
        ((orders (n + 1)).drop (n * limit)).take limit := rfl
    have hglue : (orders (n + 1)).take (n * limit) ++ page limit (n + 1) (orders (n + 1)) =
        (orders (n + 1)).take ((n + 1) * limit) := by
      rw [hnext, Nat.succ_mul, List.take_add]
    have hfirst := (ih.trans (take_perm hcut (h 0) (h (n + 1)) n)).append_right
      (page limit (n + 1) (orders (n + 1)))
    rw [hglue] at hfirst
    exact hfirst.trans (take_perm hcut (h (n + 1)) (h 0) (n + 1))

/-! ## With a cut -/

/-- Some order there is. -/
theorem orders_mergeSort (key : α → κ) (rows : List α) :
    Orders key rows (rows.mergeSort fun a b => key b ≤ key a) := by
  refine ⟨List.mergeSort_perm .., ?_⟩
  have h : (rows.mergeSort fun a b => key b ≤ key a).Pairwise fun a b =>
      decide (key b ≤ key a) = true :=
    List.pairwise_mergeSort
      (fun a b c hab hbc => by simpa using le_trans (by simpa using hbc) (by simpa using hab))
      (fun a b => by simpa using le_total (key b) (key a)) rows
  simpa [Descending] using h

/-- **A lost row**: two rows with one key, on two sides of the end of a page, change places between
the queries of the two pages. -/
theorem exists_missing (hrows : rows.Nodup) (hcut : CutsTie key rows limit) (n : Nat) :
    ∃ orders : Nat → List α, (∀ p, Orders key rows (orders p)) ∧
      ∃ b ∈ rows, b ∉ concat (fun p => page limit p (orders p)) n := by
  obtain ⟨row, hrow, k, hbefore, htied⟩ := hcut
  obtain ⟨l, hl⟩ : ∃ l, Orders key rows l := ⟨_, orders_mergeSort key rows⟩
  have hlen : k * limit < l.length := by
    rw [before_add_tied] at htied
    exact lt_of_lt_of_le htied (hl.perm.length_eq ▸ List.countP_le_length)
  have hlen' : k * limit - 1 < l.length := by omega
  obtain ⟨pre, a, b, post, rfl, hpre⟩ : ∃ pre a b post, l = pre ++ a :: b :: post ∧
      pre.length = k * limit - 1 := by
    refine ⟨l.take (k * limit - 1), l[k * limit - 1], l[k * limit], l.drop (k * limit + 1), ?_,
      List.length_take_of_le hlen'.le⟩
    have hnext : l[k * limit - 1] :: l.drop (k * limit) = l.drop (k * limit - 1) := by
      rw [List.drop_eq_getElem_cons hlen', Nat.sub_add_cancel (by omega)]
    rw [← List.drop_eq_getElem_cons hlen, hnext, List.take_append_drop]
  have hkey : key a = key b := by
    have ha := position hl
    have hl' : Orders key rows ((pre ++ [a]) ++ b :: post) := by simpa using hl
    have hb := position hl'
    rw [hpre] at ha
    rw [List.length_append, hpre, List.length_singleton] at hb
    have ha' := key_unique ha.1 ha.2 (y := key row) (by omega) (by omega)
    have hb' := key_unique hb.1 hb.2 (y := key row) (by omega) (by omega)
    exact ha'.trans hb'.symm
  have hswap : Orders key rows (pre ++ b :: a :: post) := by
    refine ⟨((List.Perm.swap a b post).append_left pre).trans hl.perm, ?_⟩
    obtain ⟨hpre, htail, hcross⟩ := List.pairwise_append.mp hl.descending
    obtain ⟨ha, htail⟩ := List.pairwise_cons.mp htail
    obtain ⟨hb, htail⟩ := List.pairwise_cons.mp htail
    refine List.pairwise_append.mpr ⟨hpre, ?_, fun x hx y hy => hcross x hx y ?_⟩
    · refine List.pairwise_cons.mpr ⟨?_, List.pairwise_cons.mpr ⟨fun y hy => ?_, htail⟩⟩
      · rintro y (_ | ⟨_, hy⟩)
        · exact hkey.le
        · exact hb y hy
      · exact ha y (List.mem_cons_of_mem b hy)
    · simp only [List.mem_cons] at hy ⊢
      tauto
  have hnodup := hl.perm.nodup_iff.mpr hrows
  refine ⟨fun p => if p ≤ k then pre ++ a :: b :: post else pre ++ b :: a :: post, fun p => ?_, b,
    hl.perm.mem_iff.mp (by simp), fun hmem => ?_⟩
  · dsimp only
    split_ifs
    · exact hl
    · exact hswap
  · obtain ⟨p, -, hp⟩ := mem_concat.mp hmem
    obtain ⟨hpre', htail, hcross⟩ := List.nodup_append.mp hnodup
    have hab : a ≠ b := fun hab => (List.nodup_cons.mp htail).1 (hab ▸ List.mem_cons_self)
    have hbpost : b ∉ post := (List.nodup_cons.mp (List.nodup_cons.mp htail).2).1
    have hbpre : b ∉ pre := fun hb => hcross b hb b (by simp) rfl
    by_cases hk : p + 1 ≤ k
    · -- up to the cut the pages are in the first order, and `a` is the last row
      have hp : b ∈ page limit (p + 1) (pre ++ a :: b :: post) := by simpa only [if_pos hk] using hp
      have hb := List.take_subset_take_left _ (Nat.mul_le_mul_right limit hk)
        (mem_take_of_page (Nat.succ_pos p) hp)
      have htake : (pre ++ a :: b :: post).take (k * limit) = pre ++ [a] := by
        rw [List.append_cons, List.take_left' (by simp [hpre]; omega)]
      rw [htake, List.mem_append, List.mem_singleton] at hb
      exact hb.elim hbpre hab.symm
    · -- beyond it they are in the second one, and `a` is the first row
      have hp : b ∈ page limit (p + 1) (pre ++ b :: a :: post) := by simpa only [if_neg hk] using hp
      have hb := List.drop_subset_drop_left _ (Nat.mul_le_mul_right limit (Nat.not_lt.mp hk))
        (mem_drop_of_page hp)
      have hdrop : (pre ++ b :: a :: post).drop (k * limit) = a :: post := by
        rw [List.append_cons, List.drop_left' (by simp [hpre]; omega)]
      rw [hdrop, List.mem_cons] at hb
      exact hb.elim hab.symm hbpost

end Paging
