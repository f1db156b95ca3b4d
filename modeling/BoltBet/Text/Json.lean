import Mathlib.Data.List.TakeWhile

/-!
# JSON

The values and the grammar of JSON, and a parser that is neither too strict nor too lax.

* `Value`: a string is a list of UTF-16 code units, which need not be paired; a number is its
  literal.
* `IsValue v l`: the grammar derives the text `l` of the value `v`.
* `parse`: recursive descent over a list of characters, with fuel for every nesting the text can
  have.
* **`parse_iff`**: `parse l = some v` exactly when `l` is a text of `v`.
-/

namespace Json

/-- A text of JavaScript: its UTF-16 code units. -/
abbrev Units := List UInt16

/-- A JSON value. -/
inductive Value where
  | null
  | boolean (b : Bool)
  | number (literal : List Char)
  | string (units : Units)
  | array (elements : List Value)
  | object (members : List (Units × Value))

/-- The code units of a character. -/
def units (c : Char) : Units :=
  if c.toNat < 0x10000 then [UInt16.ofNat c.toNat]
  else [UInt16.ofNat (0xD800 + (c.toNat - 0x10000) / 0x400),
    UInt16.ofNat (0xDC00 + (c.toNat - 0x10000) % 0x400)]

/-- The code units of a text. -/
def text (s : String) : Units := s.toList.flatMap units

/-- The characters of a text. A unit that opens a pair is read with the next one. -/
def untext : Units → List Char
  | [] => []
  | [u] => [Char.ofNat u.toNat]
  | u :: v :: us =>
    if 0xD800 ≤ u.toNat ∧ u.toNat < 0xDC00 then
      Char.ofNat (0x10000 + (u.toNat - 0xD800) * 0x400 + (v.toNat - 0xDC00)) :: untext us
    else Char.ofNat u.toNat :: untext (v :: us)

theorem untext_cons {u : UInt16} (h : ¬(0xD800 ≤ u.toNat ∧ u.toNat < 0xDC00)) (us : Units) :
    untext (u :: us) = Char.ofNat u.toNat :: untext us := by
  cases us with
  | nil => rfl
  | cons v us => rw [untext, if_neg h]

theorem toNat_ofNat {n : Nat} (h : n < 0x10000) : (UInt16.ofNat n).toNat = n := by
  rw [UInt16.toNat_ofNat']
  exact Nat.mod_eq_of_lt h

/-- A character reads back. -/
theorem untext_units (c : Char) (us : Units) : untext (units c ++ us) = c :: untext us := by
  have hchar : Char.ofNat c.toNat = c := Char.ofNat_toNat c
  have hvalid : c.toNat < 0xD800 ∨ 0xDFFF < c.toNat ∧ c.toNat < 0x110000 := c.valid
  unfold units
  split
  · rename_i hlt
    have hu := toNat_ofNat hlt
    rw [List.singleton_append, untext_cons (by omega), hu, hchar]
  · rename_i hge
    have hhigh : (UInt16.ofNat (0xD800 + (c.toNat - 0x10000) / 0x400)).toNat =
        0xD800 + (c.toNat - 0x10000) / 0x400 := toNat_ofNat (by omega)
    have hlow : (UInt16.ofNat (0xDC00 + (c.toNat - 0x10000) % 0x400)).toNat =
        0xDC00 + (c.toNat - 0x10000) % 0x400 := toNat_ofNat (by omega)
    have hcode : 0x10000 + (0xD800 + (c.toNat - 0x10000) / 0x400 - 0xD800) * 0x400 +
        (0xDC00 + (c.toNat - 0x10000) % 0x400 - 0xDC00) = c.toNat := by omega
    rw [List.cons_append, List.singleton_append, untext, hhigh, hlow, if_pos (by omega), hcode,
      hchar]

theorem untext_flatMap (l : List Char) : untext (l.flatMap units) = l := by
  induction l with
  | nil => rfl
  | cons c l ih => rw [List.flatMap_cons, untext_units, ih]

/-- **A text reads back.** -/
theorem untext_text (s : String) : String.ofList (untext (text s)) = s := by
  rw [text, untext_flatMap, String.ofList_toList]

/-! ## Blanks, numbers and strings -/

def isBlank (c : Char) : Bool := c = ' ' || c = '\t' || c = '\n' || c = '\r'

/-- The text after its leading blanks. -/
def skip (l : List Char) : List Char := l.dropWhile isBlank

def isDigit (c : Char) : Bool := '0' ≤ c && c ≤ '9'

/-- A character that a number can have. -/
def isNumeral (c : Char) : Bool :=
  isDigit c || c = '-' || c = '+' || c = '.' || c = 'e' || c = 'E'

/-- The text after a sign, if it has one. -/
def unsign : List Char → List Char
  | '+' :: l => l
  | '-' :: l => l
  | l => l

/-- The end of a number: its exponent, if it has one. -/
def isExponent : List Char → Bool
  | [] => true
  | c :: l => (c = 'e' || c = 'E') && unsign l ≠ [] && (unsign l).all isDigit

/-- The end of a number after its integer part. -/
def isFraction : List Char → Bool
  | '.' :: l => l.takeWhile isDigit ≠ [] && isExponent (l.dropWhile isDigit)
  | l => isExponent l

/-- A number without its sign. No zero stands before another digit. -/
def isUnsigned (l : List Char) : Bool :=
  (l.takeWhile isDigit = ['0'] || l.takeWhile isDigit ≠ [] && l.head? ≠ some '0') &&
    isFraction (l.dropWhile isDigit)

/-- The literal of a number. -/
def isNumber : List Char → Bool
  | '-' :: l => isUnsigned l
  | l => isUnsigned l

/-- What a backslash and a character stand for. -/
def escape : Char → Option UInt16
  | '"' => some 0x22
  | '\\' => some 0x5C
  | '/' => some 0x2F
  | 'b' => some 0x08
  | 'f' => some 0x0C
  | 'n' => some 0x0A
  | 'r' => some 0x0D
  | 't' => some 0x09
  | _ => none

/-- A hexadecimal digit. -/
def hex (c : Char) : Option Nat :=
  if '0' ≤ c ∧ c ≤ '9' then some (c.toNat - 48)
  else if 'a' ≤ c ∧ c ≤ 'f' then some (c.toNat - 87)
  else if 'A' ≤ c ∧ c ≤ 'F' then some (c.toNat - 55)
  else none

/-- Four hexadecimal digits. -/
def hex4 (a b c d : Char) : Option UInt16 := do
  let a ← hex a
  let b ← hex b
  let c ← hex c
  let d ← hex d
  return UInt16.ofNat (((a * 16 + b) * 16 + c) * 16 + d)

/-- The code units up to the closing quote, and what follows it. -/
def chars : List Char → Option (Units × List Char)
  | [] => none
  | c :: l =>
    if c = '"' then some ([], l)
    else if c = '\\' then
      match l with
      | [] => none
      | e :: l =>
        if e = 'u' then
          match l with
          | a :: b :: c :: d :: l =>
            (hex4 a b c d).bind fun unit => (chars l).map fun x => (unit :: x.1, x.2)
          | _ => none
        else (escape e).bind fun unit => (chars l).map fun x => (unit :: x.1, x.2)
    else if c.toNat < 0x20 then none
    else (chars l).map fun x => (units c ++ x.1, x.2)

/-! ## The grammar -/

/-- The text between the quotes of a string. -/
inductive IsChars : Units → List Char → Prop
  | nil : IsChars [] []
  | char {c : Char} {us : Units} {l : List Char} (h : 0x20 ≤ c.toNat) (hq : c ≠ '"') (hb : c ≠ '\\')
    (hl : IsChars us l) : IsChars (units c ++ us) (c :: l)
  | escape {e : Char} {unit : UInt16} {us : Units} {l : List Char} (h : escape e = some unit)
    (hl : IsChars us l) : IsChars (unit :: us) ('\\' :: e :: l)
  | hex {a b c d : Char} {unit : UInt16} {us : Units} {l : List Char}
    (h : hex4 a b c d = some unit) (hl : IsChars us l) :
    IsChars (unit :: us) ('\\' :: 'u' :: a :: b :: c :: d :: l)

/-- Only blanks. -/
def Blanks (l : List Char) : Prop := ∀ c ∈ l, isBlank c = true

mutual

/-- The text of a value. -/
inductive IsValue : Value → List Char → Prop
  | null : IsValue .null ['n', 'u', 'l', 'l']
  | true : IsValue (.boolean true) ['t', 'r', 'u', 'e']
  | false : IsValue (.boolean false) ['f', 'a', 'l', 's', 'e']
  | number {l : List Char} (h : isNumber l = true) : IsValue (.number l) l
  | string {us : Units} {l : List Char} (h : IsChars us l) :
    IsValue (.string us) ('"' :: l ++ ['"'])
  | noElements {w : List Char} (h : Blanks w) : IsValue (.array []) ('[' :: w ++ [']'])
  | array {vs : List Value} {l : List Char} (h : IsElements vs l) :
    IsValue (.array vs) ('[' :: l ++ [']'])
  | noMembers {w : List Char} (h : Blanks w) : IsValue (.object []) ('{' :: w ++ ['}'])
  | object {ms : List (Units × Value)} {l : List Char} (h : IsMembers ms l) :
    IsValue (.object ms) ('{' :: l ++ ['}'])

/-- The texts of values, with commas between them. -/
inductive IsElements : List Value → List Char → Prop
  | one {v : Value} {w l w' : List Char} (hw : Blanks w) (h : IsValue v l) (hw' : Blanks w') :
    IsElements [v] (w ++ l ++ w')
  | more {v : Value} {vs : List Value} {w l w' ls : List Char} (hw : Blanks w) (h : IsValue v l)
    (hw' : Blanks w') (hs : IsElements vs ls) : IsElements (v :: vs) (w ++ l ++ w' ++ ',' :: ls)

/-- The texts of members, with commas between them. -/
inductive IsMembers : List (Units × Value) → List Char → Prop
  | one {key : Units} {v : Value} {w k w₁ w₂ l w' : List Char} (hw : Blanks w) (hk : IsChars key k)
    (h₁ : Blanks w₁) (h₂ : Blanks w₂) (h : IsValue v l) (hw' : Blanks w') :
    IsMembers [(key, v)] (w ++ '"' :: k ++ '"' :: w₁ ++ ':' :: w₂ ++ l ++ w')
  | more {key : Units} {v : Value} {ms : List (Units × Value)} {w k w₁ w₂ l w' ls : List Char}
    (hw : Blanks w) (hk : IsChars key k) (h₁ : Blanks w₁) (h₂ : Blanks w₂) (h : IsValue v l)
    (hw' : Blanks w') (hs : IsMembers ms ls) :
    IsMembers ((key, v) :: ms) (w ++ '"' :: k ++ '"' :: w₁ ++ ':' :: w₂ ++ l ++ w' ++ ',' :: ls)

end

/-- The text of a value, with blanks around it. -/
def IsText (v : Value) (l : List Char) : Prop :=
  ∃ w t w', Blanks w ∧ IsValue v t ∧ Blanks w' ∧ l = w ++ t ++ w'

/-! ## The parser -/

/-- A number, as far as its characters go. -/
def number (l : List Char) : Option (Value × List Char) :=
  if isNumber (l.takeWhile isNumeral) then
    some (.number (l.takeWhile isNumeral), l.dropWhile isNumeral)
  else none

mutual

/-- A value, and what follows it. -/
def value : Nat → List Char → Option (Value × List Char)
  | 0, _ => none
  | fuel + 1, l =>
    match l with
    | '"' :: l => (chars l).map fun x => (.string x.1, x.2)
    | '[' :: l =>
      match skip l with
      | ']' :: r => some (.array [], r)
      | _ => (elements fuel l).map fun x => (.array x.1, x.2)
    | '{' :: l =>
      match skip l with
      | '}' :: r => some (.object [], r)
      | _ => (members fuel l).map fun x => (.object x.1, x.2)
    | 'n' :: 'u' :: 'l' :: 'l' :: r => some (.null, r)
    | 't' :: 'r' :: 'u' :: 'e' :: r => some (.boolean true, r)
    | 'f' :: 'a' :: 'l' :: 's' :: 'e' :: r => some (.boolean false, r)
    | l => number l

/-- The rest of an array, its bracket included. -/
def elements : Nat → List Char → Option (List Value × List Char)
  | 0, _ => none
  | fuel + 1, l =>
    (value fuel (skip l)).bind fun x =>
      match skip x.2 with
      | ',' :: r => (elements fuel r).map fun y => (x.1 :: y.1, y.2)
      | ']' :: r => some ([x.1], r)
      | _ => none

/-- The rest of an object, its brace included. -/
def members : Nat → List Char → Option (List (Units × Value) × List Char)
  | 0, _ => none
  | fuel + 1, l =>
    match skip l with
    | '"' :: l =>
      (chars l).bind fun k =>
        match skip k.2 with
        | ':' :: l =>
          (value fuel (skip l)).bind fun x =>
            match skip x.2 with
            | ',' :: r => (members fuel r).map fun y => ((k.1, x.1) :: y.1, y.2)
            | '}' :: r => some ([(k.1, x.1)], r)
            | _ => none
        | _ => none
    | _ => none

end

/-- **Parse a text.** -/
def parse (l : List Char) : Option Value :=
  match value (2 * l.length + 1) (skip l) with
  | some (v, r) => if skip r = [] then some v else none
  | none => none

/-! ## Blanks, numbers and strings of the grammar -/

section Lexical

variable {c : Char} {l r w : List Char} {us : Units}

theorem skip_eq (l : List Char) : ∃ w, Blanks w ∧ l = w ++ skip l :=
  ⟨l.takeWhile isBlank, fun _ hc => List.mem_takeWhile_imp hc,
    (List.takeWhile_append_dropWhile).symm⟩

theorem skip_append (hw : Blanks w) : skip (w ++ l) = skip l :=
  List.dropWhile_append_of_pos hw

theorem skip_cons (hc : isBlank c = false) : skip (c :: l) = c :: l :=
  List.dropWhile_cons_of_neg (by simp [hc])

theorem skip_blanks (hw : Blanks w) : skip w = [] := List.dropWhile_eq_nil_iff.mpr hw

theorem chars_quote (l : List Char) : chars ('"' :: l) = some ([], l) := by
  rw [chars.eq_def]
  rfl

theorem chars_char (h : 0x20 ≤ c.toNat) (hq : c ≠ '"') (hb : c ≠ '\\') (l : List Char) :
    chars (c :: l) = (chars l).map fun x => (units c ++ x.1, x.2) := by
  rw [chars.eq_def]
  simp only [hq, hb, if_false, Nat.not_lt.mpr h]

theorem chars_escape {e : Char} (hu : e ≠ 'u') (l : List Char) : chars ('\\' :: e :: l) =
    (escape e).bind fun unit => (chars l).map fun x => (unit :: x.1, x.2) := by
  rw [chars.eq_def]
  simp only [hu, if_false, if_true, show ('\\' : Char) ≠ '"' by decide]

theorem chars_hex (a b c d : Char) (l : List Char) : chars ('\\' :: 'u' :: a :: b :: c :: d :: l) =
    (hex4 a b c d).bind fun unit => (chars l).map fun x => (unit :: x.1, x.2) := by
  rw [chars.eq_def]
  simp only [if_false, if_true, show ('\\' : Char) ≠ '"' by decide]

/-- What the parser reads of a string the grammar derives. -/
theorem chars_sound (h : chars l = some (us, r)) : ∃ t, IsChars us t ∧ l = t ++ '"' :: r := by
  induction l using chars.induct generalizing us r with
  | case1 => exact absurd h (by simp [chars])
  | case2 l =>
    obtain ⟨rfl, rfl⟩ := Prod.mk.inj (Option.some.inj ((chars_quote l).symm.trans h))
    exact ⟨[], .nil, rfl⟩
  | case3 => exact absurd h (by simp [chars])
  | case4 a b c d l _ ih =>
    rw [chars_hex] at h
    obtain ⟨unit, hu, h⟩ := Option.bind_eq_some_iff.mp h
    obtain ⟨⟨us', r'⟩, hl, he⟩ := Option.map_eq_some_iff.mp h
    obtain ⟨rfl, rfl⟩ := Prod.mk.inj he
    obtain ⟨t, ht, rfl⟩ := ih hl
    exact ⟨_, .hex hu ht, rfl⟩
  | case5 l hno _ =>
    rw [chars.eq_def] at h
    simp only [if_true, show ('\\' : Char) ≠ '"' by decide, if_false] at h
    exact absurd h (by simp)
  | case6 e l hu _ ih =>
    rw [chars_escape hu] at h
    obtain ⟨unit, he, h⟩ := Option.bind_eq_some_iff.mp h
    obtain ⟨⟨us', r'⟩, hl, heq⟩ := Option.map_eq_some_iff.mp h
    obtain ⟨rfl, rfl⟩ := Prod.mk.inj heq
    obtain ⟨t, ht, rfl⟩ := ih hl
    exact ⟨_, .escape he ht, rfl⟩
  | case7 c l hq hb hlt =>
    rw [chars.eq_def] at h
    simp only [hq, hb, hlt, if_false, if_true] at h
    exact absurd h (by simp)
  | case8 c l hq hb hge ih =>
    rw [chars_char (Nat.not_lt.mp hge) hq hb] at h
    obtain ⟨⟨us', r'⟩, hl, heq⟩ := Option.map_eq_some_iff.mp h
    obtain ⟨rfl, rfl⟩ := Prod.mk.inj heq
    obtain ⟨t, ht, rfl⟩ := ih hl
    exact ⟨_, .char (Nat.not_lt.mp hge) hq hb ht, rfl⟩

/-- What the grammar derives the parser reads. -/
theorem chars_complete (h : IsChars us l) (r : List Char) :
    chars (l ++ '"' :: r) = some (us, r) := by
  induction h with
  | nil => exact chars_quote r
  | char h hq hb _ ih =>
    rw [List.cons_append, chars_char h hq hb, ih]
    rfl
  | @escape e unit us l h _ ih =>
    have hu : e ≠ 'u' := by
      rintro rfl
      exact absurd h (by simp [escape])
    rw [List.cons_append, List.cons_append, chars_escape hu, h, Option.bind_some, ih]
    rfl
  | hex h _ ih =>
    simp only [List.cons_append]
    rw [chars_hex, h, Option.bind_some, ih]
    rfl

theorem isNumeral_of_digit (h : isDigit c = true) : isNumeral c = true := by
  simp [isNumeral, h]

theorem numerals_of_unsign (h : (unsign l).all isDigit = true) : ∀ c ∈ l, isNumeral c = true := by
  have hdigits : ∀ l : List Char, l.all isDigit = true → ∀ c ∈ l, isNumeral c = true :=
    fun l hl c hc => isNumeral_of_digit (List.all_eq_true.mp hl c hc)
  unfold unsign at h
  split at h
  · exact List.forall_mem_cons.mpr ⟨rfl, hdigits _ h⟩
  · exact List.forall_mem_cons.mpr ⟨rfl, hdigits _ h⟩
  · exact hdigits _ h

theorem isExponent_numerals (h : isExponent l = true) : ∀ c ∈ l, isNumeral c = true := by
  cases l with
  | nil => simp
  | cons e l =>
    rw [isExponent, Bool.and_eq_true, Bool.and_eq_true, Bool.or_eq_true, decide_eq_true_eq,
      decide_eq_true_eq] at h
    have he : isNumeral e = true := by
      rcases h.1.1 with rfl | rfl <;> rfl
    exact List.forall_mem_cons.mpr ⟨he, numerals_of_unsign h.2⟩

/-- What starts with digits consists of numerals when the rest does. -/
theorem numerals_of_dropWhile (h : ∀ c ∈ l.dropWhile isDigit, isNumeral c = true) :
    ∀ c ∈ l, isNumeral c = true := by
  intro c hc
  rw [← List.takeWhile_append_dropWhile (p := isDigit) (l := l)] at hc
  rcases List.mem_append.mp hc with hc | hc
  · exact isNumeral_of_digit (List.mem_takeWhile_imp hc)
  · exact h c hc

theorem isFraction_numerals (h : isFraction l = true) : ∀ c ∈ l, isNumeral c = true := by
  unfold isFraction at h
  split at h
  · rw [Bool.and_eq_true] at h
    exact List.forall_mem_cons.mpr ⟨rfl, numerals_of_dropWhile (isExponent_numerals h.2)⟩
  · exact isExponent_numerals h

theorem isUnsigned_numerals (h : isUnsigned l = true) : ∀ c ∈ l, isNumeral c = true := by
  unfold isUnsigned at h
  rw [Bool.and_eq_true] at h
  exact numerals_of_dropWhile (isFraction_numerals h.2)

/-- A number consists of numerals, and there is at least one. -/
theorem isNumber_numerals (h : isNumber l = true) : l ≠ [] ∧ ∀ c ∈ l, isNumeral c = true := by
  constructor
  · rintro rfl
    exact absurd h (by decide)
  · unfold isNumber at h
    split at h
    · exact List.forall_mem_cons.mpr ⟨rfl, isUnsigned_numerals h⟩
    · exact isUnsigned_numerals h

end Lexical

/-! ## Soundness -/

section Soundness

variable {fuel : Nat} {l r : List Char} {v : Value}

theorem number_sound (h : number l = some (v, r)) : ∃ t, IsValue v t ∧ l = t ++ r := by
  unfold number at h
  split at h
  · rename_i hn
    obtain ⟨rfl, rfl⟩ := Prod.mk.inj (Option.some.inj h)
    exact ⟨_, .number hn, List.takeWhile_append_dropWhile.symm⟩
  · exact absurd h (by simp)

/-- What the parsers read with some fuel, the grammar derives. -/
structure Sound (fuel : Nat) : Prop where
  value : ∀ l v r, value fuel l = some (v, r) → ∃ t, IsValue v t ∧ l = t ++ r
  elements : ∀ l vs r, elements fuel l = some (vs, r) → ∃ t, IsElements vs t ∧ l = t ++ ']' :: r
  members : ∀ l ms r, members fuel l = some (ms, r) → ∃ t, IsMembers ms t ∧ l = t ++ '}' :: r

theorem value_sound (ih : Sound fuel) (h : value (fuel + 1) l = some (v, r)) :
    ∃ t, IsValue v t ∧ l = t ++ r := by
  rw [value.eq_def] at h
  simp only [] at h
  split at h
  · obtain ⟨⟨us, r'⟩, hc, he⟩ := Option.map_eq_some_iff.mp h
    obtain ⟨rfl, rfl⟩ := Prod.mk.inj he
    obtain ⟨t, ht, rfl⟩ := chars_sound hc
    exact ⟨_, .string ht, by simp⟩
  · rename_i l
    split at h
    · rename_i r' hskip
      obtain ⟨rfl, rfl⟩ := Prod.mk.inj (Option.some.inj h)
      obtain ⟨w, hw, hl⟩ := skip_eq l
      exact ⟨_, .noElements hw, by rw [hl, hskip]; simp⟩
    · obtain ⟨⟨vs, r'⟩, hs, he⟩ := Option.map_eq_some_iff.mp h
      obtain ⟨rfl, rfl⟩ := Prod.mk.inj he
      obtain ⟨t, ht, rfl⟩ := ih.elements _ _ _ hs
      exact ⟨_, .array ht, by simp⟩
  · rename_i l
    split at h
    · rename_i r' hskip
      obtain ⟨rfl, rfl⟩ := Prod.mk.inj (Option.some.inj h)
      obtain ⟨w, hw, hl⟩ := skip_eq l
      exact ⟨_, .noMembers hw, by rw [hl, hskip]; simp⟩
    · obtain ⟨⟨ms, r'⟩, hs, he⟩ := Option.map_eq_some_iff.mp h
      obtain ⟨rfl, rfl⟩ := Prod.mk.inj he
      obtain ⟨t, ht, rfl⟩ := ih.members _ _ _ hs
      exact ⟨_, .object ht, by simp⟩
  · obtain ⟨rfl, rfl⟩ := Prod.mk.inj (Option.some.inj h)
    exact ⟨_, .null, rfl⟩
  · obtain ⟨rfl, rfl⟩ := Prod.mk.inj (Option.some.inj h)
    exact ⟨_, .true, rfl⟩
  · obtain ⟨rfl, rfl⟩ := Prod.mk.inj (Option.some.inj h)
    exact ⟨_, .false, rfl⟩
  · exact number_sound h

theorem elements_sound {vs : List Value} (ih : Sound fuel)
    (h : elements (fuel + 1) l = some (vs, r)) : ∃ t, IsElements vs t ∧ l = t ++ ']' :: r := by
  rw [elements.eq_def] at h
  obtain ⟨⟨v, r₁⟩, hv, h⟩ := Option.bind_eq_some_iff.mp h
  obtain ⟨t, ht, hl⟩ := ih.value _ _ _ hv
  obtain ⟨w, hw, hw'⟩ := skip_eq l
  obtain ⟨w₁, hw₁, hr⟩ := skip_eq r₁
  simp only [] at h
  split at h
  · rename_i r₂ hskip
    obtain ⟨⟨vs', r'⟩, hs, he⟩ := Option.map_eq_some_iff.mp h
    obtain ⟨rfl, rfl⟩ := Prod.mk.inj he
    obtain ⟨ts, hts, rfl⟩ := ih.elements _ _ _ hs
    exact ⟨_, .more hw ht hw₁ hts, by rw [hw', hl, hr, hskip]; simp⟩
  · rename_i r₂ hskip
    obtain ⟨rfl, rfl⟩ := Prod.mk.inj (Option.some.inj h)
    exact ⟨_, .one hw ht hw₁, by rw [hw', hl, hr, hskip]; simp⟩
  · exact absurd h (by simp)

theorem members_sound {ms : List (Units × Value)} (ih : Sound fuel)
    (h : members (fuel + 1) l = some (ms, r)) : ∃ t, IsMembers ms t ∧ l = t ++ '}' :: r := by
  rw [members.eq_def] at h
  simp only [] at h
  obtain ⟨w, hw, hw'⟩ := skip_eq l
  split at h
  · rename_i l₁ hquote
    obtain ⟨⟨key, r₁⟩, hk, h⟩ := Option.bind_eq_some_iff.mp h
    obtain ⟨k, hkey, hl₁⟩ := chars_sound hk
    obtain ⟨w₁, hw₁, hr₁⟩ := skip_eq r₁
    simp only [] at h
    split at h
    · rename_i l₂ hcolon
      obtain ⟨⟨v, r₂⟩, hv, h⟩ := Option.bind_eq_some_iff.mp h
      obtain ⟨t, ht, hl₂⟩ := ih.value _ _ _ hv
      obtain ⟨w₂, hw₂, hl₂'⟩ := skip_eq l₂
      obtain ⟨w₃, hw₃, hr₂⟩ := skip_eq r₂
      simp only [] at h
      split at h
      · rename_i r₃ hskip
        obtain ⟨⟨ms', r'⟩, hs, he⟩ := Option.map_eq_some_iff.mp h
        obtain ⟨rfl, rfl⟩ := Prod.mk.inj he
        obtain ⟨ts, hts, rfl⟩ := ih.members _ _ _ hs
        refine ⟨_, .more hw hkey hw₁ hw₂ ht hw₃ hts, ?_⟩
        rw [hw', hquote, hl₁, hr₁, hcolon, hl₂', hl₂, hr₂, hskip]
        simp
      · rename_i r₃ hskip
        obtain ⟨rfl, rfl⟩ := Prod.mk.inj (Option.some.inj h)
        refine ⟨_, .one hw hkey hw₁ hw₂ ht hw₃, ?_⟩
        rw [hw', hquote, hl₁, hr₁, hcolon, hl₂', hl₂, hr₂, hskip]
        simp
      · exact absurd h (by simp)
    · exact absurd h (by simp)
  · exact absurd h (by simp)

/-- **What the parsers read, the grammar derives.** -/
theorem sound (fuel : Nat) : Sound fuel := by
  induction fuel with
  | zero => exact ⟨by simp [value], by simp [elements], by simp [members]⟩
  | succ fuel ih =>
    exact ⟨fun _ _ _ => value_sound ih, fun _ _ _ => elements_sound ih,
      fun _ _ _ => members_sound ih⟩

end Soundness

/-! ## Completeness -/

section Completeness

variable {l r t w : List Char} {v : Value} {c : Char} {fuel : Nat}

/-- No number goes on here. -/
def Stops (l : List Char) : Prop := ∀ c ∈ l.head?, isNumeral c = false

theorem isNumeral_of_blank (hc : isBlank c = true) : isNumeral c = false := by
  simp only [isBlank, Bool.or_eq_true, decide_eq_true_eq] at hc
  rcases hc with ((rfl | rfl) | rfl) | rfl <;> rfl

theorem stops_blanks (hw : Blanks w) (hr : Stops r) : Stops (w ++ r) := by
  cases w with
  | nil => exact hr
  | cons b w =>
    rintro c hc
    obtain rfl : b = c := Option.some.inj hc
    exact isNumeral_of_blank (hw b List.mem_cons_self)

theorem stops_cons (hc : isNumeral c = false) : Stops (c :: r) := by
  rintro d hd
  obtain rfl : c = d := Option.some.inj hd
  exact hc

/-- **Where a value's text starts**: neither at a blank nor at a closing bracket. -/
theorem isValue_head (h : IsValue v t) :
    ∃ c r, t = c :: r ∧ isBlank c = false ∧ c ≠ ']' ∧ c ≠ '}' := by
  cases h with
  | number h =>
    obtain ⟨hne, hall⟩ := isNumber_numerals h
    obtain ⟨c, r, rfl⟩ := List.exists_cons_of_ne_nil hne
    have hc := hall c List.mem_cons_self
    refine ⟨c, r, rfl, ?_, ?_, ?_⟩
    · by_contra hb
      rw [Bool.not_eq_false] at hb
      rw [isNumeral_of_blank hb] at hc
      exact absurd hc (by simp)
    · rintro rfl
      exact absurd hc (by decide)
    · rintro rfl
      exact absurd hc (by decide)
  | _ => exact ⟨_, _, rfl, by decide, by decide, by decide⟩

theorem skip_value (hw : Blanks w) (h : IsValue v t) (r : List Char) :
    skip (w ++ (t ++ r)) = t ++ r := by
  obtain ⟨c, t', rfl, hb, -⟩ := isValue_head h
  rw [skip_append hw, List.cons_append, skip_cons hb]

theorem number_complete (h : isNumber t = true) (hr : Stops r) :
    number (t ++ r) = some (.number t, r) := by
  obtain ⟨-, hall⟩ := isNumber_numerals h
  have hnot : r.takeWhile isNumeral = [] ∧ r.dropWhile isNumeral = r := by
    cases r with
    | nil => exact ⟨rfl, rfl⟩
    | cons c r =>
      have hc := hr c rfl
      exact ⟨List.takeWhile_cons_of_neg (by simp [hc]), List.dropWhile_cons_of_neg (by simp [hc])⟩
  rw [number, List.takeWhile_append_of_pos hall, List.dropWhile_append_of_pos hall, hnot.1, hnot.2,
    List.append_nil, if_pos h]

/-- A numeral starts a number. -/
theorem value_number (hc : isNumeral c = true) (l : List Char) :
    value (fuel + 1) (c :: l) = number (c :: l) := by
  rw [value.eq_def]
  simp only []
  split
  case h_7 => rfl
  all_goals
    rename_i heq
    obtain ⟨rfl, -⟩ := List.cons.inj heq
    exact absurd hc (by decide)

/-- What the grammar derives, the parsers read with some fuel. -/
structure Complete (fuel : Nat) : Prop where
  value : ∀ v t r, IsValue v t → 2 * t.length + 1 ≤ fuel → Stops r →
    value fuel (t ++ r) = some (v, r)
  elements : ∀ vs t r, IsElements vs t → 2 * t.length + 2 ≤ fuel →
    elements fuel (t ++ ']' :: r) = some (vs, r)
  members : ∀ ms t r, IsMembers ms t → 2 * t.length + 2 ≤ fuel →
    members fuel (t ++ '}' :: r) = some (ms, r)

theorem skip_rest (hw : Blanks w) (hc : isBlank c = false) (l : List Char) :
    skip (w ++ c :: l) = c :: l := by
  rw [skip_append hw, skip_cons hc]

/-- Elements do not start with the bracket that closes an array. -/
theorem skip_elements {vs : List Value} (h : IsElements vs t) (r : List Char) :
    ∃ c l, skip (t ++ r) = c :: l ∧ c ≠ ']' := by
  have key : ∀ {v w t₁} (r : List Char), Blanks w → IsValue v t₁ →
      ∃ c l, skip (w ++ (t₁ ++ r)) = c :: l ∧ c ≠ ']' := by
    intro v w t₁ r hw hv
    obtain ⟨c, t', ht, hb, hc, -⟩ := isValue_head hv
    refine ⟨c, t' ++ r, ?_, hc⟩
    rw [skip_value hw hv, ht, List.cons_append]
  cases h with
  | one hw hv hw' => simpa only [List.append_assoc] using key _ hw hv
  | more hw hv hw' hs => simpa only [List.append_assoc, List.cons_append] using key _ hw hv

/-- Members start with a quote. -/
theorem skip_members {ms : List (Units × Value)} (h : IsMembers ms t) (r : List Char) :
    ∃ l, skip (t ++ r) = '"' :: l := by
  have key : ∀ {w : List Char} (l : List Char), Blanks w → skip (w ++ '"' :: l) = '"' :: l :=
    fun l hw => skip_rest hw rfl l
  cases h with
  | one hw => exact ⟨_, by simpa only [List.append_assoc, List.cons_append] using key _ hw⟩
  | more hw => exact ⟨_, by simpa only [List.append_assoc, List.cons_append] using key _ hw⟩

theorem value_complete (ih : Complete fuel) (h : IsValue v t) (hf : 2 * t.length + 1 ≤ fuel + 1)
    (hr : Stops r) : value (fuel + 1) (t ++ r) = some (v, r) := by
  cases h with
  | null => rw [value.eq_def]; rfl
  | true => rw [value.eq_def]; rfl
  | false => rw [value.eq_def]; rfl
  | number hn =>
    obtain ⟨c, t', rfl⟩ := List.exists_cons_of_ne_nil (isNumber_numerals hn).1
    rw [List.cons_append, value_number ((isNumber_numerals hn).2 c List.mem_cons_self),
      ← List.cons_append, number_complete hn hr]
  | @string us l hus =>
    have hl : '"' :: l ++ ['"'] ++ r = '"' :: (l ++ '"' :: r) := by simp
    rw [hl, value.eq_def]
    simp only [chars_complete hus, Option.map_some]
  | @noElements w hw =>
    have hl : '[' :: w ++ [']'] ++ r = '[' :: (w ++ ']' :: r) := by simp
    rw [hl, value.eq_def]
    simp only [skip_rest (c := ']') hw rfl]
  | @array vs l hs =>
    have hl : '[' :: l ++ [']'] ++ r = '[' :: (l ++ ']' :: r) := by simp
    obtain ⟨c, l', hskip, hc⟩ := skip_elements hs (']' :: r)
    have hlen : 2 * l.length + 2 ≤ fuel := by
      simp only [List.length_append, List.length_cons, List.length_nil] at hf
      omega
    rw [hl, value.eq_def]
    simp only [hskip]
    split
    · rename_i heq
      exact absurd (List.cons.inj heq).1 hc
    · rw [ih.elements _ _ _ hs hlen, Option.map_some]
  | @noMembers w hw =>
    have hl : '{' :: w ++ ['}'] ++ r = '{' :: (w ++ '}' :: r) := by simp
    rw [hl, value.eq_def]
    simp only [skip_rest (c := '}') hw rfl]
  | @object ms l hs =>
    have hl : '{' :: l ++ ['}'] ++ r = '{' :: (l ++ '}' :: r) := by simp
    obtain ⟨l', hskip⟩ := skip_members hs ('}' :: r)
    have hlen : 2 * l.length + 2 ≤ fuel := by
      simp only [List.length_append, List.length_cons, List.length_nil] at hf
      omega
    rw [hl, value.eq_def]
    simp only [hskip]
    rw [ih.members _ _ _ hs hlen, Option.map_some]
    rfl

theorem elements_complete {vs : List Value} (ih : Complete fuel) (h : IsElements vs t)
    (hf : 2 * t.length + 2 ≤ fuel + 1) :
    elements (fuel + 1) (t ++ ']' :: r) = some (vs, r) := by
  cases h with
  | @one v w l w' hw hv hw' =>
    have hl : w ++ l ++ w' ++ ']' :: r = w ++ (l ++ (w' ++ ']' :: r)) := by simp
    have hlen : 2 * l.length + 1 ≤ fuel := by
      simp only [List.length_append] at hf
      omega
    have hread : value fuel (l ++ (w' ++ ']' :: r)) = some (v, w' ++ ']' :: r) :=
      ih.value _ _ _ hv hlen (stops_blanks hw' (stops_cons (by decide)))
    rw [hl, elements.eq_def]
    simp only [skip_value hw hv, hread, Option.bind_some, skip_rest (c := ']') hw' rfl]
  | @more v vs w l w' ls hw hv hw' hs =>
    have hl : w ++ l ++ w' ++ ',' :: ls ++ ']' :: r =
        w ++ (l ++ (w' ++ ',' :: (ls ++ ']' :: r))) := by simp
    have hlen : 2 * l.length + 1 ≤ fuel ∧ 2 * ls.length + 2 ≤ fuel := by
      simp only [List.length_append, List.length_cons] at hf
      omega
    have hread : ∀ l', value fuel (l ++ (w' ++ ',' :: l')) = some (v, w' ++ ',' :: l') :=
      fun l' => ih.value _ _ _ hv hlen.1 (stops_blanks hw' (stops_cons (by decide)))
    rw [hl, elements.eq_def]
    simp only [skip_value hw hv, hread, Option.bind_some, skip_rest (c := ',') hw' rfl,
      ih.elements _ _ _ hs hlen.2, Option.map_some]

theorem members_complete {ms : List (Units × Value)} (ih : Complete fuel) (h : IsMembers ms t)
    (hf : 2 * t.length + 2 ≤ fuel + 1) :
    members (fuel + 1) (t ++ '}' :: r) = some (ms, r) := by
  cases h with
  | @one key v w k w₁ w₂ l w' hw hk h₁ h₂ hv hw' =>
    have hl : w ++ '"' :: k ++ '"' :: w₁ ++ ':' :: w₂ ++ l ++ w' ++ '}' :: r =
        w ++ '"' :: (k ++ '"' :: (w₁ ++ ':' :: (w₂ ++ (l ++ (w' ++ '}' :: r))))) := by simp
    have hlen : 2 * l.length + 1 ≤ fuel := by
      simp only [List.length_append, List.length_cons] at hf
      omega
    have hread : value fuel (l ++ (w' ++ '}' :: r)) = some (v, w' ++ '}' :: r) :=
      ih.value _ _ _ hv hlen (stops_blanks hw' (stops_cons (by decide)))
    rw [hl, members.eq_def]
    simp only [skip_rest (c := '"') hw rfl, chars_complete hk, Option.bind_some,
      skip_rest (c := ':') h₁ rfl, skip_value h₂ hv, hread, skip_rest (c := '}') hw' rfl]
  | @more key v ms w k w₁ w₂ l w' ls hw hk h₁ h₂ hv hw' hs =>
    have hl : w ++ '"' :: k ++ '"' :: w₁ ++ ':' :: w₂ ++ l ++ w' ++ ',' :: ls ++ '}' :: r =
        w ++ '"' ::
          (k ++ '"' :: (w₁ ++ ':' :: (w₂ ++ (l ++ (w' ++ ',' :: (ls ++ '}' :: r)))))) := by
      simp
    have hlen : 2 * l.length + 1 ≤ fuel ∧ 2 * ls.length + 2 ≤ fuel := by
      simp only [List.length_append, List.length_cons] at hf
      omega
    have hread : ∀ l', value fuel (l ++ (w' ++ ',' :: l')) = some (v, w' ++ ',' :: l') :=
      fun l' => ih.value _ _ _ hv hlen.1 (stops_blanks hw' (stops_cons (by decide)))
    rw [hl, members.eq_def]
    simp only [skip_rest (c := '"') hw rfl, chars_complete hk, Option.bind_some,
      skip_rest (c := ':') h₁ rfl, skip_value h₂ hv, hread, skip_rest (c := ',') hw' rfl,
      ih.members _ _ _ hs hlen.2, Option.map_some]

/-- **What the grammar derives, the parsers read**, when the fuel covers the text. -/
theorem complete (fuel : Nat) : Complete fuel := by
  induction fuel with
  | zero => exact ⟨by omega, by omega, by omega⟩
  | succ fuel ih =>
    exact ⟨fun _ _ _ => value_complete ih, fun _ _ _ => elements_complete ih,
      fun _ _ _ => members_complete ih⟩

end Completeness

/-- **The parser reads exactly the texts of the grammar.** -/
theorem parse_iff {l : List Char} {v : Value} : parse l = some v ↔ IsText v l := by
  obtain ⟨w, hw, hl⟩ := skip_eq l
  constructor
  · intro h
    unfold parse at h
    split at h
    · rename_i v' r hv
      split at h
      · rename_i hr
        obtain rfl := Option.some.inj h
        obtain ⟨t, ht, hsk⟩ := (sound _).value _ _ _ hv
        obtain ⟨w', hw', hr'⟩ := skip_eq r
        rw [hr, List.append_nil] at hr'
        subst hr'
        exact ⟨w, t, r, hw, ht, hw', by rw [hl, hsk, List.append_assoc]⟩
      · exact absurd h (by simp)
    · exact absurd h (by simp)
  · rintro ⟨w₁, t, w', hw₁, ht, hw', rfl⟩
    have hstops : Stops w' := by
      rw [← List.append_nil w']
      exact stops_blanks hw' (by rintro c hc; exact absurd hc (by simp))
    have hlen : 2 * t.length + 1 ≤ 2 * (w₁ ++ t ++ w').length + 1 := by
      simp only [List.length_append]
      omega
    rw [parse, List.append_assoc, skip_value hw₁ ht, ← List.append_assoc,
      (complete _).value _ _ _ ht hlen hstops]
    simp only [skip_blanks hw', if_true]

end Json
