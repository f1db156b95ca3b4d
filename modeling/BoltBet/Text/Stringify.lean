import BoltBet.Text.Json
import Mathlib.Tactic.IntervalCases

/-!
# Writing JSON

`stringify` writes a value without blanks, as JavaScript does: of a string it escapes what JSON has
to, and a code unit of a pair whose other half is missing.

* `isValue_stringify`: what is written is a text of the value.
* **`parse_stringify`**: every value reads back.
* `ascii_object`: an object of ASCII members is written in ASCII.
-/

namespace Json

/-! ## Strings -/

def hexDigit (n : Nat) : Char := if n < 10 then Char.ofNat (48 + n) else Char.ofNat (87 + n)

/-- `UnicodeEscape`. -/
def unicodeEscape (u : UInt16) : List Char :=
  ['\\', 'u', hexDigit (u.toNat / 4096), hexDigit (u.toNat / 256 % 16),
    hexDigit (u.toNat / 16 % 16), hexDigit (u.toNat % 16)]

/-- The code units with an escape of one character. -/
def shortEscape (u : UInt16) : Option Char :=
  if u = 0x08 then some 'b'
  else if u = 0x09 then some 't'
  else if u = 0x0A then some 'n'
  else if u = 0x0C then some 'f'
  else if u = 0x0D then some 'r'
  else if u = 0x22 then some '"'
  else if u = 0x5C then some '\\'
  else none

/-- The first half of a pair. -/
def Opens (u : UInt16) : Prop := 0xD800 ≤ u.toNat ∧ u.toNat < 0xDC00

/-- The second half of a pair. -/
def Closes (u : UInt16) : Prop := 0xDC00 ≤ u.toNat ∧ u.toNat < 0xE000

instance (u : UInt16) : Decidable (Opens u) := inferInstanceAs (Decidable (_ ∧ _))

instance (u : UInt16) : Decidable (Closes u) := inferInstanceAs (Decidable (_ ∧ _))

/-- A code unit that is not half of a pair. -/
def quoteUnit (u : UInt16) : List Char :=
  match shortEscape u with
  | some e => ['\\', e]
  | none =>
    if u.toNat < 0x20 ∨ Opens u ∨ Closes u then unicodeEscape u else [Char.ofNat u.toNat]

/-- The character of a pair. -/
def paired (u v : UInt16) : Char :=
  Char.ofNat (0x10000 + (u.toNat - 0xD800) * 0x400 + (v.toNat - 0xDC00))

/-- `QuoteJSONString`, without the quotes. -/
def quote : Units → List Char
  | [] => []
  | [u] => quoteUnit u
  | u :: v :: us =>
    if Opens u ∧ Closes v then paired u v :: quote us else quoteUnit u ++ quote (v :: us)

theorem hex_hexDigit {n : Nat} (h : n < 16) : hex (hexDigit n) = some n := by
  interval_cases n <;> rfl

theorem hex4_unicodeEscape (u : UInt16) : hex4 (hexDigit (u.toNat / 4096))
    (hexDigit (u.toNat / 256 % 16)) (hexDigit (u.toNat / 16 % 16)) (hexDigit (u.toNat % 16)) =
      some u := by
  have hu : u.toNat < 65536 := u.toNat_lt
  have hcode : ((u.toNat / 4096 * 16 + u.toNat / 256 % 16) * 16 + u.toNat / 16 % 16) * 16 +
      u.toNat % 16 = u.toNat := by omega
  unfold hex4
  rw [hex_hexDigit (by omega), hex_hexDigit (by omega), hex_hexDigit (by omega),
    hex_hexDigit (by omega)]
  show some (UInt16.ofNat _) = some u
  rw [hcode, UInt16.ofNat_toNat]

theorem escape_shortEscape {u : UInt16} {e : Char} (h : shortEscape u = some e) :
    escape e = some u := by
  unfold shortEscape at h
  split_ifs at h with h₁ h₂ h₃ h₄ h₅ h₆ h₇ <;> obtain rfl := Option.some.inj h <;> subst_vars <;> rfl

theorem toNat_char {n : Nat} (h : n.isValidChar) : (Char.ofNat n).toNat = n := by
  unfold Char.ofNat
  rw [dif_pos h]
  rfl

/-- A code unit that is no half of a pair is a character. -/
theorem units_ofNat {u : UInt16} (ho : ¬ Opens u) (hc : ¬ Closes u) :
    (Char.ofNat u.toNat).toNat = u.toNat ∧ units (Char.ofNat u.toNat) = [u] := by
  have hu : u.toNat < 65536 := u.toNat_lt
  have hvalid : u.toNat.isValidChar := by
    unfold Opens at ho
    unfold Closes at hc
    unfold Nat.isValidChar
    omega
  have hnat : (Char.ofNat u.toNat).toNat = u.toNat := toNat_char hvalid
  refine ⟨hnat, ?_⟩
  unfold units
  rw [hnat, if_pos hu, UInt16.ofNat_toNat]

/-- Two halves are a character. -/
theorem units_paired {u v : UInt16} (hu : Opens u) (hv : Closes v) :
    0x10000 ≤ (paired u v).toNat ∧ units (paired u v) = [u, v] := by
  unfold Opens at hu
  unfold Closes at hv
  have hvalid :
      (0x10000 + (u.toNat - 0xD800) * 0x400 + (v.toNat - 0xDC00)).isValidChar := by
    unfold Nat.isValidChar
    omega
  have hnat : (paired u v).toNat =
      0x10000 + (u.toNat - 0xD800) * 0x400 + (v.toNat - 0xDC00) :=
    toNat_char hvalid
  refine ⟨by omega, ?_⟩
  have hhigh : 0xD800 + (0x10000 + (u.toNat - 0xD800) * 0x400 + (v.toNat - 0xDC00) - 0x10000) /
      0x400 = u.toNat := by omega
  have hlow : 0xDC00 + (0x10000 + (u.toNat - 0xD800) * 0x400 + (v.toNat - 0xDC00) - 0x10000) %
      0x400 = v.toNat := by omega
  unfold units
  rw [hnat, if_neg (by omega), hhigh, hlow, UInt16.ofNat_toNat, UInt16.ofNat_toNat]

theorem isChars_quoteUnit {us : Units} {l : List Char} (u : UInt16) (h : IsChars us l) :
    IsChars (u :: us) (quoteUnit u ++ l) := by
  unfold quoteUnit
  cases he : shortEscape u with
  | some e => exact .escape (escape_shortEscape he) h
  | none =>
    show IsChars _ ((if _ then _ else _) ++ l)
    by_cases hhex : u.toNat < 0x20 ∨ Opens u ∨ Closes u
    · rw [if_pos hhex]
      exact .hex (hex4_unicodeEscape u) h
    · rw [if_neg hhex]
      obtain ⟨hlow, hopens, hcloses⟩ : ¬ u.toNat < 0x20 ∧ ¬ Opens u ∧ ¬ Closes u := by
        simpa only [not_or] using hhex
      obtain ⟨hnat, hunits⟩ := units_ofNat hopens hcloses
      have hne : ∀ c : Char, shortEscape (UInt16.ofNat c.toNat) ≠ none →
          Char.ofNat u.toNat ≠ c := by
        rintro c hc rfl
        rw [hnat, UInt16.ofNat_toNat] at hc
        exact hc he
      have hchar := IsChars.char (c := Char.ofNat u.toNat) (by omega) (hne '"' (by decide))
        (hne '\\' (by decide)) h
      rwa [hunits] at hchar

/-- What stands between the quotes is a text of the string. -/
theorem isChars_quote (us : Units) : IsChars us (quote us) := by
  induction us using quote.induct with
  | case1 => exact .nil
  | case2 u =>
    rw [quote, ← List.append_nil (quoteUnit u)]
    exact isChars_quoteUnit u .nil
  | case3 u v us h ih =>
    obtain ⟨hcode, hunits⟩ := units_paired h.1 h.2
    rw [quote, if_pos h]
    have hne : ∀ c : Char, c.toNat < 0x10000 → paired u v ≠ c := by
      rintro c hc rfl
      omega
    have hchar := IsChars.char (c := paired u v) (by omega) (hne '"' (by decide))
      (hne '\\' (by decide)) ih
    rwa [hunits] at hchar
  | case4 u v us h ih =>
    rw [quote, if_neg h]
    exact isChars_quoteUnit u ih

/-! ## Values -/

mutual

/-- `JSON.stringify(value)`. -/
def stringify : Value → List Char
  | .null => ['n', 'u', 'l', 'l']
  | .boolean true => ['t', 'r', 'u', 'e']
  | .boolean false => ['f', 'a', 'l', 's', 'e']
  | .number literal => literal
  | .string us => '"' :: quote us ++ ['"']
  | .array vs => '[' :: stringifyElements vs ++ [']']
  | .object ms => '\x7b' :: stringifyMembers ms ++ ['\x7d']

def stringifyElements : List Value → List Char
  | [] => []
  | [v] => stringify v
  | v :: vs => stringify v ++ ',' :: stringifyElements vs

def stringifyMembers : List (Units × Value) → List Char
  | [] => []
  | [(key, v)] => '"' :: quote key ++ '"' :: ':' :: stringify v
  | (key, v) :: ms => '"' :: quote key ++ '"' :: ':' :: stringify v ++ ',' :: stringifyMembers ms

end

mutual

/-- Every number is a literal of JSON. -/
def Numerals : Value → Prop
  | .number l => isNumber l = true
  | .array vs => NumeralsElements vs
  | .object ms => NumeralsMembers ms
  | _ => True

def NumeralsElements : List Value → Prop
  | [] => True
  | v :: vs => Numerals v ∧ NumeralsElements vs

def NumeralsMembers : List (Units × Value) → Prop
  | [] => True
  | (_, v) :: ms => Numerals v ∧ NumeralsMembers ms

end

/-! ## What is written is JSON -/

section Grammar

variable {v : Value} {vs : List Value} {key : Units} {ms : List (Units × Value)}
  {k l ls : List Char}

theorem blanks_nil : Blanks [] := fun _ hc => absurd hc (by simp)

theorem isElements_one (h : IsValue v l) : IsElements [v] l := by
  have h' := IsElements.one blanks_nil h blanks_nil
  rwa [List.nil_append, List.append_nil] at h'

theorem isElements_more (h : IsValue v l) (hs : IsElements vs ls) :
    IsElements (v :: vs) (l ++ ',' :: ls) := by
  have h' := IsElements.more blanks_nil h blanks_nil hs
  rwa [List.nil_append, List.append_nil] at h'

theorem isMembers_one (hk : IsChars key k) (h : IsValue v l) :
    IsMembers [(key, v)] ('"' :: k ++ '"' :: ':' :: l) := by
  have h' := IsMembers.one blanks_nil hk blanks_nil blanks_nil h blanks_nil
  simpa using h'

theorem isMembers_more (hk : IsChars key k) (h : IsValue v l) (hs : IsMembers ms ls) :
    IsMembers ((key, v) :: ms) ('"' :: k ++ '"' :: ':' :: l ++ ',' :: ls) := by
  have h' := IsMembers.more blanks_nil hk blanks_nil blanks_nil h blanks_nil hs
  simpa using h'

end Grammar

mutual

/-- **What is written is a text of the value.** -/
theorem isValue_stringify : ∀ v, Numerals v → IsValue v (stringify v)
  | .null, _ => .null
  | .boolean true, _ => .true
  | .boolean false, _ => .false
  | .number _, h => .number h
  | .string us, _ => .string (isChars_quote us)
  | .array [], _ => .noElements blanks_nil
  | .array (v :: vs), h => .array (isElements_stringify (v :: vs) (List.cons_ne_nil v vs) h)
  | .object [], _ => .noMembers blanks_nil
  | .object (m :: ms), h => .object (isMembers_stringify (m :: ms) (List.cons_ne_nil m ms) h)

theorem isElements_stringify : ∀ vs, vs ≠ [] → NumeralsElements vs →
    IsElements vs (stringifyElements vs)
  | [], hne, _ => absurd rfl hne
  | [v], _, h => isElements_one (isValue_stringify v h.1)
  | v :: v' :: vs, _, h => isElements_more (isValue_stringify v h.1)
    (isElements_stringify (v' :: vs) (List.cons_ne_nil v' vs) h.2)

theorem isMembers_stringify : ∀ ms, ms ≠ [] → NumeralsMembers ms →
    IsMembers ms (stringifyMembers ms)
  | [], hne, _ => absurd rfl hne
  | [(key, v)], _, h => isMembers_one (isChars_quote key) (isValue_stringify v h.1)
  | (key, v) :: m :: ms, _, h => isMembers_more (isChars_quote key) (isValue_stringify v h.1)
    (isMembers_stringify (m :: ms) (List.cons_ne_nil m ms) h.2)

end

/-- **Every value reads back.** -/
theorem parse_stringify {v : Value} (h : Numerals v) : parse (stringify v) = some v := by
  refine parse_iff.mpr ⟨[], stringify v, [], blanks_nil, isValue_stringify v h, blanks_nil, ?_⟩
  rw [List.nil_append, List.append_nil]

/-! ## ASCII -/

/-- Only ASCII characters. -/
def Ascii (l : List Char) : Prop := ∀ c ∈ l, c.toNat < 128

theorem ascii_of_all {l : List Char} (h : (l.all fun c => c.toNat < 128) = true) : Ascii l :=
  fun c hc => of_decide_eq_true (List.all_eq_true.mp h c hc)

theorem ascii_append {l l' : List Char} : Ascii (l ++ l') ↔ Ascii l ∧ Ascii l' :=
  List.forall_mem_append

theorem ascii_cons {c : Char} {l : List Char} : Ascii (c :: l) ↔ c.toNat < 128 ∧ Ascii l :=
  List.forall_mem_cons

theorem ascii_hexDigit {n : Nat} (h : n < 16) : (hexDigit n).toNat < 128 := by
  interval_cases n <;> decide

theorem ascii_quoteUnit {u : UInt16} (h : u.toNat < 128) : Ascii (quoteUnit u) := by
  unfold quoteUnit
  cases he : shortEscape u with
  | some e =>
    unfold shortEscape at he
    split_ifs at he <;> obtain rfl := Option.some.inj he <;> simp [Ascii]
  | none =>
    show Ascii (if _ then _ else _)
    split
    · have hdigit : ∀ n : Nat, n < 16 → (hexDigit n).toNat < 128 := fun n => ascii_hexDigit
      intro c hc
      simp only [unicodeEscape, List.mem_cons, List.not_mem_nil, or_false] at hc
      rcases hc with rfl | rfl | rfl | rfl | rfl | rfl
      · decide
      · decide
      all_goals exact hdigit _ (by omega)
    · intro c hc
      obtain rfl := List.mem_singleton.mp hc
      rw [toNat_char (.inl (by omega))]
      exact h

/-- An ASCII string is written in ASCII. -/
theorem ascii_quote {us : Units} (h : ∀ u ∈ us, u.toNat < 128) : Ascii (quote us) := by
  induction us using quote.induct with
  | case1 => exact fun _ hc => absurd hc (by simp [quote])
  | case2 u => exact ascii_quoteUnit (h u List.mem_cons_self)
  | case3 u v us hpair =>
    have hu := h u List.mem_cons_self
    have hopens := hpair.1.1
    omega
  | case4 u v us hpair ih =>
    rw [quote, if_neg hpair]
    exact ascii_append.mpr ⟨ascii_quoteUnit (h u List.mem_cons_self),
      ih fun w hw => h w (List.mem_cons_of_mem u hw)⟩

/-- The code units of an ASCII text. -/
theorem units_ascii {s : String} (h : Ascii s.toList) : ∀ u ∈ text s, u.toNat < 128 := by
  intro u hu
  obtain ⟨c, hc, hunit⟩ := List.mem_flatMap.mp hu
  have hcode := h c hc
  unfold units at hunit
  rw [if_pos (by omega)] at hunit
  obtain rfl := List.mem_singleton.mp hunit
  rw [UInt16.toNat_ofNat']
  omega

theorem ascii_string {s : String} (h : Ascii s.toList) : Ascii (stringify (.string (text s))) := by
  simp only [stringify, List.cons_append, ascii_cons, ascii_append]
  exact ⟨by decide, ascii_quote (units_ascii h), by decide, fun _ hc => absurd hc (by simp)⟩

theorem ascii_number {l : List Char} (h : isNumber l = true) : Ascii (stringify (.number l)) := by
  intro c hc
  have hnumeral := (isNumber_numerals h).2 c hc
  simp only [isNumeral, isDigit, Bool.or_eq_true, Bool.and_eq_true, decide_eq_true_eq] at hnumeral
  rcases hnumeral with ((((⟨-, h9⟩ | rfl) | rfl) | rfl) | rfl) | rfl
  · exact lt_of_le_of_lt (Char.le_def.mp h9) (by decide)
  all_goals decide

/-- An object of ASCII members is written in ASCII. -/
theorem ascii_object {ms : List (Units × Value)}
    (h : ∀ m ∈ ms, Ascii (quote m.1) ∧ Ascii (stringify m.2)) : Ascii (stringify (.object ms)) := by
  have hmember : ∀ {m : Units × Value}, Ascii (quote m.1) ∧ Ascii (stringify m.2) →
      Ascii ('"' :: quote m.1 ++ '"' :: ':' :: stringify m.2) := by
    rintro m ⟨hk, hv⟩
    simp only [List.cons_append, ascii_cons, ascii_append]
    exact ⟨by decide, hk, by decide, by decide, hv⟩
  have hmembers : Ascii (stringifyMembers ms) := by
    induction ms with
    | nil => exact fun _ hc => absurd hc (by simp [stringifyMembers])
    | cons m ms ih =>
      have hm := hmember (h m List.mem_cons_self)
      cases ms with
      | nil => exact hm
      | cons m' ms =>
        have hrest := ih fun x hx => h x (List.mem_cons_of_mem m hx)
        exact ascii_append.mpr ⟨hm, ascii_cons.mpr ⟨by decide, hrest⟩⟩
  simp only [stringify, List.cons_append, ascii_cons, ascii_append]
  exact ⟨by decide, hmembers, by decide, fun _ hc => absurd hc (by simp)⟩

end Json
