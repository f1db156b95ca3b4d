import BoltBet.Format
import BoltBet.Text.Regex
import Mathlib.Data.List.Flatten
import Mathlib.Data.List.TakeWhile
import Mathlib.Tactic.IntervalCases

/-!
# Amounts of money as text

What `formatCents` displays, for an amount that is not negative.

* `thousands` is the regular expression of `formatCents`, and `formatCents_eq_replace` reads the
  function as the source writes it: one global replacement in the numeral.
* `Display` is the shape of an amount: a leading group of digits, groups of three, two decimals.
* **`formatCents_money`**: every amount is displayed in this shape and is read back from it, so that
  two amounts never look alike.
-/

namespace BoltBet

open Regex

/-! ## The regular expression -/

/-- `\d{3}`. -/
def threeDigits : Pattern Char := .times (.one Char.isDigit) 3

/-- `(\d{3})+(?!\d)`. -/
def wholeGroups : Pattern Char := .seq (.plus threeDigits) (.notAhead (.one Char.isDigit))

/-- `\B(?=(\d{3})+(?!\d))`. -/
def thousands : Pattern Char := .seq (.notBoundary isWordChar) (.ahead wholeGroups)

/-- How many digits come next. -/
def digitRun (l : List Char) : Nat := (l.takeWhile Char.isDigit).length

theorem digitRun_cons {c : Char} (hc : c.isDigit = true) (l : List Char) :
    digitRun (c :: l) = digitRun l + 1 := by
  unfold digitRun
  rw [List.takeWhile_cons_of_pos hc, List.length_cons]

theorem takes_threeDigits {s t : Place Char} : threeDigits.Takes s t ↔
    ∃ a b c cs, s.rest = a :: b :: c :: cs ∧ a.isDigit = true ∧ b.isDigit = true ∧
      c.isDigit = true ∧ t = ⟨some c, cs⟩ := by
  constructor
  · rintro ⟨u, ⟨a, as, hs, ha, rfl⟩, v, ⟨b, bs, hu, hb, rfl⟩, w, ⟨c, cs, hv, hc, rfl⟩, rfl⟩
    obtain rfl : as = b :: bs := hu
    obtain rfl : bs = c :: cs := hv
    exact ⟨a, b, c, cs, hs, ha, hb, hc, rfl⟩
  · rintro ⟨a, b, c, cs, hs, ha, hb, hc, rfl⟩
    exact ⟨_, ⟨a, _, hs, ha, rfl⟩, _, ⟨b, _, rfl, hb, rfl⟩, _, ⟨c, _, rfl, hc, rfl⟩, rfl⟩

theorem digitRun_threeDigits {s t : Place Char} (h : threeDigits.Takes s t) :
    digitRun s.rest = digitRun t.rest + 3 := by
  obtain ⟨a, b, c, cs, hs, ha, hb, hc, rfl⟩ := takes_threeDigits.mp h
  rw [hs, digitRun_cons ha, digitRun_cons hb, digitRun_cons hc]

theorem exists_digit {l : List Char} (h : 0 < digitRun l) :
    ∃ c cs, l = c :: cs ∧ c.isDigit = true ∧ digitRun l = digitRun cs + 1 := by
  cases l with
  | nil => simp [digitRun] at h
  | cons c cs =>
    by_cases hc : c.isDigit = true
    · exact ⟨c, cs, rfl, hc, digitRun_cons hc cs⟩
    · simp [digitRun, hc] at h

theorem exists_threeDigits {s : Place Char} (h : 3 ≤ digitRun s.rest) :
    ∃ t, threeDigits.Takes s t := by
  obtain ⟨a, as, hs, ha, hrun⟩ := exists_digit (l := s.rest) (by omega)
  obtain ⟨b, bs, rfl, hb, hrun'⟩ := exists_digit (l := as) (by omega)
  obtain ⟨c, cs, rfl, hc, -⟩ := exists_digit (l := bs) (by omega)
  exact ⟨_, takes_threeDigits.mpr ⟨a, b, c, cs, hs, ha, hb, hc, rfl⟩⟩

/-- Groups are taken off the digits ahead until less than three are left. -/
theorem exists_groups {s : Place Char} {n : Nat} (h : digitRun s.rest = 3 * n) :
    ∃ t, Relation.ReflTransGen threeDigits.Takes s t ∧ digitRun t.rest = 0 := by
  induction n generalizing s with
  | zero => exact ⟨s, .refl, h⟩
  | succ n ih =>
    obtain ⟨u, hu⟩ := exists_threeDigits (s := s) (by omega)
    have hrun := digitRun_threeDigits hu
    obtain ⟨t, ht, hzero⟩ := ih (s := u) (by omega)
    exact ⟨t, ht.head hu, hzero⟩

theorem digitRun_groups {s t : Place Char}
    (h : Relation.ReflTransGen threeDigits.Takes s t) :
    digitRun s.rest % 3 = digitRun t.rest % 3 := by
  induction h with
  | refl => rfl
  | tail _ hstep ih =>
    have hrun := digitRun_threeDigits hstep
    omega

theorem takes_notDigit {s t : Place Char} :
    (Pattern.notAhead (.one Char.isDigit)).Takes s t ↔ t = s ∧ digitRun s.rest = 0 := by
  refine and_congr Iff.rfl ⟨fun h => ?_, fun h => ?_⟩
  · by_contra hrun
    obtain ⟨c, cs, hs, hc, -⟩ := exists_digit (Nat.pos_of_ne_zero hrun)
    exact h ⟨_, c, cs, hs, hc, rfl⟩
  · rintro ⟨u, c, cs, hs, hc, rfl⟩
    rw [hs, digitRun_cons hc] at h
    omega

/-- **The lookahead sees a positive multiple of three digits.** -/
theorem takes_wholeGroups (s : Place Char) :
    (∃ t, wholeGroups.Takes s t) ↔ groupsOfThree s.rest = true := by
  have hgroups : groupsOfThree s.rest = true ↔ digitRun s.rest ≠ 0 ∧ digitRun s.rest % 3 = 0 := by
    simp [groupsOfThree, digitRun]
  rw [hgroups]
  constructor
  · rintro ⟨t, v, ⟨u, hu, hchain⟩, hend⟩
    have hrun := digitRun_threeDigits hu
    have hmod := digitRun_groups hchain
    obtain ⟨-, hzero⟩ := takes_notDigit.mp hend
    omega
  · rintro ⟨hpos, hmod⟩
    obtain ⟨u, hu⟩ := exists_threeDigits (s := s) (by omega)
    have hrun := digitRun_threeDigits hu
    obtain ⟨t, hchain, hzero⟩ := exists_groups (s := u) (n := digitRun u.rest / 3) (by omega)
    exact ⟨t, t, ⟨u, hu, hchain⟩, takes_notDigit.mpr ⟨rfl, hzero⟩⟩

theorem thousands_stays (s t : Place Char) (h : thousands.Takes s t) : t = s := by
  obtain ⟨u, ⟨rfl, -⟩, rfl, -⟩ := h
  rfl

theorem takes_thousands {before : Option Char} {c : Char} {cs : List Char} :
    (∃ t, thousands.Takes ⟨before, c :: cs⟩ t) ↔
      (before.any isWordChar == isWordChar c && groupsOfThree (c :: cs)) = true := by
  rw [Bool.and_eq_true, beq_iff_eq, ← takes_wholeGroups ⟨before, c :: cs⟩]
  constructor
  · rintro ⟨t, u, ⟨rfl, hb⟩, rfl, v, hv⟩
    exact ⟨hb, v, hv⟩
  · rintro ⟨hb, v, hv⟩
    exact ⟨_, _, ⟨rfl, hb⟩, rfl, v, hv⟩

theorem insertCommas_eq_replaceFrom (l : List Char) (before : Option Char) :
    insertCommas before l = replaceFrom thousands [','] before 0 l := by
  induction l generalizing before with
  | nil =>
    have hends : (thousands.ends ⟨before, []⟩).isEmpty = true := by
      rw [Pattern.isEmpty_ends fun t => Pattern.mem_ends _ _ _]
      rintro ⟨t, u, ⟨rfl, -⟩, -, hv⟩
      exact absurd ((takes_wholeGroups _).mp hv) (by simp [groupsOfThree])
    rw [insertCommas, replaceFrom, if_pos hends]
  | cons c cs ih =>
    rw [insertCommas, replaceFrom_cons thousands_stays, ih]
    have hends := Pattern.isEmpty_ends fun t => Pattern.mem_ends thousands ⟨before, c :: cs⟩ t
    rw [takes_thousands] at hends
    by_cases hcomma : (before.any isWordChar == isWordChar c && groupsOfThree (c :: cs)) = true
    · rw [if_pos hcomma, if_neg fun h => hends.mp h hcomma]
    · rw [if_neg hcomma, if_pos (hends.mpr hcomma)]

/-- **`formatCents` as the source writes it**:
`$${(cents / 100).toFixed(2).replace(/\B(?=(\d{3})+(?!\d))/g, ',')}`. -/
theorem formatCents_eq_replace (cents : Int) :
    formatCents cents = String.ofList ('$' :: replace thousands [','] (toFixed2 cents)) := by
  unfold formatCents replace
  rw [insertCommas_eq_replaceFrom]

/-! ## Grouping -/

/-- Every character is a digit. -/
def Digits (l : List Char) : Prop := ∀ d ∈ l, d.isDigit = true

/-- Groups of digits, a comma before each. -/
def commas (groups : List (List Char)) : List Char := groups.flatMap (',' :: ·)

/-- What an amount looks like: a leading group without a leading zero, groups of three digits and
two decimals. -/
structure Display where
  lead : List Char
  groups : List (List Char)
  decimals : List Char
  lead_digits : Digits lead
  lead_length : 1 ≤ lead.length ∧ lead.length ≤ 3
  lead_zero : lead.head? = some '0' → lead = ['0']
  groups_three : ∀ g ∈ groups, g.length = 3 ∧ Digits g
  decimals_two : decimals.length = 2 ∧ Digits decimals

/-- The text of a display. -/
def Display.text (d : Display) : String :=
  String.ofList ('$' :: d.lead ++ commas d.groups ++ '.' :: d.decimals)

/-- The digits of a display, read as a number once the dollar sign, the commas and the dot are
deleted. -/
def readCents (s : String) : ℕ :=
  Nat.ofDigitChars 10 (s.toList.filter fun c => c != '$' && c != ',' && c != '.') 0

theorem isWordChar_of_digit {c : Char} (hc : c.isDigit = true) : isWordChar c = true := by
  simp [isWordChar, Char.isAlphanum, hc]

theorem groupsOfThree_digits {ds : List Char} (h : Digits ds) (hne : ds ≠ []) (f : List Char) :
    groupsOfThree (ds ++ '.' :: f) = true ↔ ds.length % 3 = 0 := by
  have hrun : (ds ++ '.' :: f).takeWhile Char.isDigit = ds := by
    rw [List.takeWhile_append_of_pos h]
    simp
  have hlen : ds.length ≠ 0 := fun h0 => hne (List.length_eq_zero_iff.mp h0)
  unfold groupsOfThree
  rw [hrun]
  simp only [Bool.and_eq_true, bne_iff_ne, beq_iff_eq]
  exact and_iff_right hlen

/-- The two decimals stay as they are. -/
theorem insertCommas_decimals {before : Option Char} (hb : before.any isWordChar = true)
    {x y : Char} (hx : x.isDigit = true) (hy : y.isDigit = true) :
    insertCommas before ['.', x, y] = ['.', x, y] := by
  have hdot : isWordChar '.' = false := by decide
  have hone : groupsOfThree [y] = false := by simp [groupsOfThree, hy]
  simp [insertCommas, hb, hdot, isWordChar_of_digit hx, hone]

/-- Behind a digit, a comma comes first exactly when whole groups are left; the induction is on the
numeral, the groups form from its right end. -/
theorem insertCommas_digits {ds : List Char} (h : Digits ds) {before : Option Char}
    (hb : before.any isWordChar = true) {x y : Char} (hx : x.isDigit = true)
    (hy : y.isDigit = true) :
    ∃ lead groups, insertCommas before (ds ++ ['.', x, y]) = lead ++ commas groups ++ ['.', x, y] ∧
      ds = lead ++ groups.flatten ∧ lead.length = ds.length % 3 ∧ ∀ g ∈ groups, g.length = 3 := by
  induction ds generalizing before with
  | nil => exact ⟨[], [], insertCommas_decimals hb hx hy, rfl, rfl, by simp⟩
  | cons d ds ih =>
    have hd : d.isDigit = true := h d (by simp)
    have hword : (some d).any isWordChar = true := isWordChar_of_digit hd
    obtain ⟨lead, groups, heq, hds, hlen, hgroups⟩ := ih (fun e he => h e (by simp [he])) hword
    have hcomma : (before.any isWordChar == isWordChar d &&
        groupsOfThree (d :: (ds ++ ['.', x, y]))) = true ↔ (ds.length + 1) % 3 = 0 := by
      rw [hb, isWordChar_of_digit hd, ← List.length_cons (a := d),
        ← groupsOfThree_digits h (by simp) [x, y]]
      simp
    rw [List.cons_append, insertCommas, heq]
    by_cases hmod : (ds.length + 1) % 3 = 0
    · rw [if_pos (hcomma.mpr hmod)]
      refine ⟨[], (d :: lead) :: groups, by simp [commas], by simp [hds], ?_, ?_⟩
      · exact hmod.symm
      · rintro g (_ | ⟨_, hg⟩)
        · rw [List.length_cons]
          omega
        · exact hgroups g hg
    · rw [if_neg fun e => hmod (hcomma.mp e)]
      refine ⟨d :: lead, groups, by simp, by simp [hds], ?_, hgroups⟩
      rw [List.length_cons, List.length_cons]
      omega

/-- At the start of the numeral no comma is inserted. -/
theorem insertCommas_numeral {ds : List Char} (h : Digits ds) (hne : ds ≠ []) {x y : Char}
    (hx : x.isDigit = true) (hy : y.isDigit = true) :
    ∃ lead groups, insertCommas none (ds ++ ['.', x, y]) = lead ++ commas groups ++ ['.', x, y] ∧
      ds = lead ++ groups.flatten ∧ (1 ≤ lead.length ∧ lead.length ≤ 3) ∧
        ∀ g ∈ groups, g.length = 3 := by
  obtain ⟨d, ds, rfl⟩ := List.exists_cons_of_ne_nil hne
  have hrest : Digits ds := fun e he => h e (by simp [he])
  have hword : (some d).any isWordChar = true := isWordChar_of_digit (h d (by simp))
  obtain ⟨lead, groups, heq, hds, hlen, hgroups⟩ := insertCommas_digits hrest hword hx hy
  refine ⟨d :: lead, groups, ?_, by simp [hds], ?_, hgroups⟩
  · rw [List.cons_append, insertCommas, heq]
    simp [isWordChar_of_digit (h d (by simp))]
  · rw [List.length_cons]
    omega

/-! ## The numeral -/

theorem digitChar_isDigit {n : ℕ} (h : n < 10) : (Nat.digitChar n).isDigit = true := by
  interval_cases n <;> decide

theorem digits_toDigits (n : ℕ) : Digits (Nat.toDigits 10 n) := fun _ hd =>
  Nat.isDigit_of_mem_toDigits (by decide) (by decide) hd

/-- Only zero's numeral begins with a zero. -/
theorem head_toDigits {n : ℕ} (h : (Nat.toDigits 10 n).head? = some '0') : n = 0 := by
  induction n using Nat.strong_induction_on with
  | _ n ih =>
    by_cases hn : n < 10
    · rw [Nat.toDigits_of_lt_base hn] at h
      interval_cases n <;> first | rfl | exact absurd h (by decide)
    · rw [Nat.toDigits_of_base_le (by decide) (by omega),
        List.head?_append_of_ne_nil _ Nat.toDigits_ne_nil] at h
      have hzero := ih (n / 10) (by omega) h
      omega

theorem toFixed2_natCast (c : ℕ) : toFixed2 (c : Int) = Nat.toDigits 10 (c / 100) ++
    ['.', Nat.digitChar (c % 100 / 10), Nat.digitChar (c % 100 % 10)] := by
  unfold toFixed2
  simp

/-- Dollar sign, commas and dot are what is deleted. -/
theorem filter_display {lead : List Char} {groups : List (List Char)} {x y : Char}
    (h : Digits (lead ++ groups.flatten)) (hx : x.isDigit = true) (hy : y.isDigit = true) :
    ('$' :: (lead ++ commas groups ++ ['.', x, y])).filter
      (fun c => c != '$' && c != ',' && c != '.') = lead ++ groups.flatten ++ [x, y] := by
  have hkeep : ∀ c : Char, c.isDigit = true → (c != '$' && c != ',' && c != '.') = true := by
    intro c hc
    simp only [Bool.and_eq_true, bne_iff_ne]
    exact ⟨⟨fun e => by subst e; exact absurd hc (by decide),
      fun e => by subst e; exact absurd hc (by decide)⟩,
      fun e => by subst e; exact absurd hc (by decide)⟩
  have hdigits : ∀ l, Digits l →
      l.filter (fun c => c != '$' && c != ',' && c != '.') = l := fun l hl =>
    List.filter_eq_self.mpr fun c hc => hkeep c (hl c hc)
  have hgroups : ∀ gs : List (List Char), Digits gs.flatten →
      (commas gs).filter (fun c => c != '$' && c != ',' && c != '.') = gs.flatten := by
    intro gs hgs
    induction gs with
    | nil => rfl
    | cons g gs ih =>
      have hg := hdigits g fun c hc => hgs c (by simp [hc])
      have hrest := ih fun c hc => hgs c (List.mem_append_right g hc)
      unfold commas at hrest ⊢
      simp [hg, hrest]
  have hlead := hdigits lead fun c hc => h c (List.mem_append_left _ hc)
  have hall := hgroups groups fun c hc => h c (List.mem_append_right _ hc)
  have hxy := hdigits [x, y] (by intro c hc; simp at hc; rcases hc with rfl | rfl <;> assumption)
  rw [List.filter_cons_of_neg (by decide), List.filter_append, List.filter_append, hlead, hall,
    List.filter_cons_of_neg (by decide), hxy]

/-! ## The display of an amount -/

/-- The two pieces of `formatCents` for an amount of `c` cents: the whole part in groups, and the
cents. -/
theorem exists_display (c : ℕ) : ∃ d : Display, formatCents c = d.text ∧
    d.lead ++ d.groups.flatten = Nat.toDigits 10 (c / 100) ∧
    d.decimals = [Nat.digitChar (c % 100 / 10), Nat.digitChar (c % 100 % 10)] := by
  have hx : (Nat.digitChar (c % 100 / 10)).isDigit = true := digitChar_isDigit (by omega)
  have hy : (Nat.digitChar (c % 100 % 10)).isDigit = true := digitChar_isDigit (by omega)
  have hdigits := digits_toDigits (c / 100)
  obtain ⟨lead, groups, heq, hds, hlen, hgroups⟩ :=
    insertCommas_numeral hdigits Nat.toDigits_ne_nil hx hy
  have hzero : lead.head? = some '0' → lead = ['0'] := by
    intro h0
    obtain ⟨rest, rfl⟩ : ∃ rest, lead = '0' :: rest := by
      cases lead with
      | nil => simp at h0
      | cons a rest => exact ⟨rest, by simpa using h0⟩
    have hc : c / 100 = 0 := head_toDigits (by rw [hds]; rfl)
    rw [hc, Nat.toDigits_zero, List.cons_append] at hds
    have hrest := (List.append_eq_nil_iff.mp (List.cons.inj hds).2.symm).1
    rw [hrest]
  refine ⟨⟨lead, groups, _, fun d hd => hdigits d ?_, hlen, hzero,
    fun g hg => ⟨hgroups g hg, fun d hd => hdigits d ?_⟩, rfl, ?_⟩, ?_, hds.symm, rfl⟩
  · rw [hds]
    exact List.mem_append_left _ hd
  · rw [hds]
    exact List.mem_append_right _ (List.mem_flatten.mpr ⟨g, hg, hd⟩)
  · intro d hd
    rcases List.mem_pair.mp hd with rfl | rfl
    · exact hx
    · exact hy
  · unfold formatCents Display.text
    rw [toFixed2_natCast, heq]
    simp

theorem readCents_formatCents (c : ℕ) : readCents (formatCents c) = c := by
  have hx : (Nat.digitChar (c % 100 / 10)).isDigit = true := digitChar_isDigit (by omega)
  have hy : (Nat.digitChar (c % 100 % 10)).isDigit = true := digitChar_isDigit (by omega)
  obtain ⟨d, htext, hwhole, hcents⟩ := exists_display c
  have hdigits : Digits (d.lead ++ d.groups.flatten) := by
    rw [hwhole]
    exact digits_toDigits _
  have hlist : (formatCents c).toList = '$' :: (d.lead ++ commas d.groups ++
      ['.', Nat.digitChar (c % 100 / 10), Nat.digitChar (c % 100 % 10)]) := by
    rw [htext, Display.text, String.toList_ofList, hcents]
    simp
  unfold readCents
  rw [hlist, filter_display hdigits hx hy, hwhole, Nat.ofDigitChars_append,
    Nat.ofDigitChars_ten_toDigits, Nat.ofDigitChars_cons_digitChar_of_lt_ten (by omega),
    Nat.ofDigitChars_cons_digitChar_of_lt_ten (by omega), Nat.ofDigitChars_nil]
  omega

/-- **Money formatting is exact and reversible.** -/
theorem formatCents_money :
    (∀ c : ℕ, (∃ d : Display, formatCents c = d.text) ∧ readCents (formatCents c) = c) ∧
      ∀ c c' : ℕ, formatCents c = formatCents c' → c = c' := by
  refine ⟨fun c => ⟨?_, readCents_formatCents c⟩, fun c c' h => ?_⟩
  · obtain ⟨d, htext, -⟩ := exists_display c
    exact ⟨d, htext⟩
  · rw [← readCents_formatCents c, h, readCents_formatCents c']

end BoltBet
