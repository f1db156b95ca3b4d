import Mathlib.Data.List.Basic
import Mathlib.Logic.Function.Basic

/-!
# UTF-8

The bytes of a text, and the text of any bytes: a decoder replaces what is no character by U+FFFD,
one for each maximal part of a character. An ASCII text has one byte for each character, and
different ASCII characters have different bytes.
-/

namespace Utf8

/-- The UTF-8 encoding of a text. -/
def encode (s : String) : List UInt8 := s.toList.flatMap String.utf8EncodeChar

/-- Only ASCII characters. -/
def Ascii (s : String) : Prop := ∀ c ∈ s.toList, c.toNat < 128

-- Named, since a search may find the instance that goes through every character.
instance (s : String) : Decidable (Ascii s) :=
  List.decidableBAll (fun c : Char => c.toNat < 128) s.toList

theorem encode_append (s t : String) : encode (s ++ t) = encode s ++ encode t := by
  unfold encode
  rw [String.toList_append, List.flatMap_append]

/-- The byte of an ASCII character. -/
def asciiByte (c : Char) : UInt8 := UInt8.ofNat c.toNat

theorem encodeChar_ascii {c : Char} (h : c.toNat < 128) :
    String.utf8EncodeChar c = [asciiByte c] := by
  have hle : c.val.toNat ≤ 127 := Nat.le_of_lt_succ h
  unfold String.utf8EncodeChar asciiByte
  simp only [hle, if_true]
  rfl

theorem encode_ascii {s : String} (h : Ascii s) : encode s = s.toList.map asciiByte := by
  have hlist : ∀ l : List Char, (∀ c ∈ l, c.toNat < 128) →
      l.flatMap String.utf8EncodeChar = l.map asciiByte := by
    intro l hl
    induction l with
    | nil => rfl
    | cons c l ih =>
      have ih := ih fun d hd => hl d (List.mem_cons_of_mem c hd)
      rw [List.flatMap_cons, encodeChar_ascii (hl c List.mem_cons_self), ih, List.map_cons,
        List.singleton_append]
  exact hlist s.toList h

theorem asciiByte_inj {c d : Char} (hc : c.toNat < 128) (hd : d.toNat < 128)
    (h : asciiByte c = asciiByte d) : c = d := by
  have hnat : c.toNat % 256 = d.toNat % 256 := by
    have := congrArg UInt8.toNat h
    simpa [asciiByte] using this
  have heq : c.toNat = d.toNat := by omega
  rw [← Char.ofNat_toNat c, heq, Char.ofNat_toNat]

/-- Two lists of ASCII characters with the same bytes are the same. -/
theorem map_asciiByte_inj {l l' : List Char} (hl : ∀ c ∈ l, c.toNat < 128)
    (hl' : ∀ c ∈ l', c.toNat < 128) (h : l.map asciiByte = l'.map asciiByte) : l = l' := by
  induction l generalizing l' with
  | nil => exact (List.map_eq_nil_iff.mp h.symm).symm
  | cons c l ih =>
    cases l' with
    | nil => exact absurd h (by simp)
    | cons d l' =>
      obtain ⟨hb, ht⟩ := List.cons.inj h
      obtain rfl := asciiByte_inj (hl c List.mem_cons_self) (hl' d List.mem_cons_self) hb
      obtain rfl := ih (fun c hc => hl c (List.mem_cons_of_mem _ hc))
        (fun c hc => hl' c (List.mem_cons_of_mem _ hc)) ht
      rfl

/-- **A prefix of bytes**: after a common text, two ASCII texts agree on the first `n` bytes exactly
when they agree on the characters these bytes leave them. -/
theorem take_encode_iff {n : Nat} {common s t : String} (hs : Ascii s) (ht : Ascii t) :
    (encode (common ++ s)).take n = (encode (common ++ t)).take n ↔
      s.toList.take (n - (encode common).length) = t.toList.take (n - (encode common).length) := by
  rw [encode_append, encode_append, List.take_append, List.take_append, List.append_right_inj,
    encode_ascii hs, encode_ascii ht, ← List.map_take, ← List.map_take]
  constructor
  · exact map_asciiByte_inj (fun c hc => hs c (List.mem_of_mem_take hc))
      fun c hc => ht c (List.mem_of_mem_take hc)
  · exact fun h => by rw [h]

/-! ## Decoding -/

/-- The replacement character. -/
def replacement : Char := '\uFFFD'

/-- A character that has begun: the bytes it needs, its code so far, and the bounds of the next
byte. -/
structure Pending where
  needed : Nat
  code : Nat
  lower : Nat
  upper : Nat

/-- The first byte of a character: what is decoded, and what has begun. -/
def first (b : UInt8) : List Char × Option Pending :=
  let n := b.toNat
  if n < 0x80 then ([Char.ofNat n], none)
  else if n < 0xC2 then ([replacement], none)
  else if n < 0xE0 then ([], some ⟨1, n - 0xC0, 0x80, 0xBF⟩)
  else if n < 0xF0 then
    ([], some ⟨2, n - 0xE0, if n = 0xE0 then 0xA0 else 0x80, if n = 0xED then 0x9F else 0xBF⟩)
  else if n < 0xF5 then
    ([], some ⟨3, n - 0xF0, if n = 0xF0 then 0x90 else 0x80, if n = 0xF4 then 0x8F else 0xBF⟩)
  else ([replacement], none)

/-- The next byte of a character that has begun. A byte out of bounds is a first byte. -/
def next (p : Pending) (b : UInt8) : List Char × Option Pending :=
  if p.lower ≤ b.toNat ∧ b.toNat ≤ p.upper then
    let code := p.code * 64 + (b.toNat - 0x80)
    if p.needed = 1 then ([Char.ofNat code], none)
    else ([], some ⟨p.needed - 1, code, 0x80, 0xBF⟩)
  else (replacement :: (first b).1, (first b).2)

/-- Decode bytes, where a character may have begun. -/
def decodeFrom : Option Pending → List UInt8 → List Char
  | none, [] => []
  | some _, [] => [replacement]
  | none, b :: bs => (first b).1 ++ decodeFrom (first b).2 bs
  | some p, b :: bs => (next p b).1 ++ decodeFrom (next p b).2 bs

/-- **Decode bytes.** -/
def decode (bytes : List UInt8) : List Char := decodeFrom none bytes

theorem toNat_ofNat {n : Nat} (h : n < 256) : (UInt8.ofNat n).toNat = n := by
  rw [UInt8.toNat_ofNat']
  exact Nat.mod_eq_of_lt h

/-- The first byte of a character of two, three and four bytes. -/
theorem first_two {n : Nat} (h : 2 ≤ n) (hn : n < 0x20) :
    first (UInt8.ofNat (n + 0xC0)) = ([], some ⟨1, n, 0x80, 0xBF⟩) := by
  have hb : (UInt8.ofNat (n + 0xC0)).toNat = n + 0xC0 := toNat_ofNat (by omega)
  simp only [first, hb]
  rw [if_neg (by omega), if_neg (by omega), if_pos (by omega), Nat.add_sub_cancel]

theorem first_three {n : Nat} (hn : n < 0x10) : first (UInt8.ofNat (n + 0xE0)) =
    ([], some ⟨2, n, if n = 0 then 0xA0 else 0x80, if n = 0xD then 0x9F else 0xBF⟩) := by
  have hb : (UInt8.ofNat (n + 0xE0)).toNat = n + 0xE0 := toNat_ofNat (by omega)
  have h0 : n + 0xE0 = 0xE0 ↔ n = 0 := by omega
  have hD : n + 0xE0 = 0xED ↔ n = 0xD := by omega
  simp only [first, hb, h0, hD]
  rw [if_neg (by omega), if_neg (by omega), if_neg (by omega), if_pos (by omega),
    Nat.add_sub_cancel]

theorem first_four {n : Nat} (hn : n < 5) : first (UInt8.ofNat (n + 0xF0)) =
    ([], some ⟨3, n, if n = 0 then 0x90 else 0x80, if n = 4 then 0x8F else 0xBF⟩) := by
  have hb : (UInt8.ofNat (n + 0xF0)).toNat = n + 0xF0 := toNat_ofNat (by omega)
  have h0 : n + 0xF0 = 0xF0 ↔ n = 0 := by omega
  have h4 : n + 0xF0 = 0xF4 ↔ n = 4 := by omega
  simp only [first, hb, h0, h4]
  rw [if_neg (by omega), if_neg (by omega), if_neg (by omega), if_neg (by omega),
    if_pos (by omega), Nat.add_sub_cancel]

/-- A byte within bounds goes on with the character, and the last one ends it. -/
theorem decodeFrom_more {k code lower upper m : Nat} {bs : List UInt8} (hm : m < 64)
    (hl : lower ≤ m + 0x80) (hu : m + 0x80 ≤ upper) :
    decodeFrom (some ⟨k + 2, code, lower, upper⟩) (UInt8.ofNat (m + 0x80) :: bs) =
      decodeFrom (some ⟨k + 1, code * 64 + m, 0x80, 0xBF⟩) bs := by
  have hb : (UInt8.ofNat (m + 0x80)).toNat = m + 0x80 := toNat_ofNat (by omega)
  simp only [decodeFrom, next, hb]
  rw [if_pos ⟨hl, hu⟩, if_neg (by omega), Nat.add_sub_cancel]
  rfl

theorem decodeFrom_last {code lower upper m : Nat} {bs : List UInt8} (hm : m < 64)
    (hl : lower ≤ m + 0x80) (hu : m + 0x80 ≤ upper) :
    decodeFrom (some ⟨1, code, lower, upper⟩) (UInt8.ofNat (m + 0x80) :: bs) =
      Char.ofNat (code * 64 + m) :: decodeFrom none bs := by
  have hb : (UInt8.ofNat (m + 0x80)).toNat = m + 0x80 := toNat_ofNat (by omega)
  simp only [decodeFrom, next, hb]
  rw [if_pos ⟨hl, hu⟩, if_pos trivial, Nat.add_sub_cancel]
  rfl

/-- A character reads back. -/
theorem decodeFrom_encodeChar (c : Char) (bs : List UInt8) :
    decodeFrom none (String.utf8EncodeChar c ++ bs) = c :: decodeFrom none bs := by
  have hcons : ∀ b bs, decodeFrom none (b :: bs) = (first b).1 ++ decodeFrom (first b).2 bs :=
    fun _ _ => rfl
  have hchar : Char.ofNat c.val.toNat = c := Char.ofNat_toNat c
  have hvalid : c.val.toNat < 0xD800 ∨ 0xDFFF < c.val.toNat ∧ c.val.toNat < 0x110000 := c.valid
  simp only [String.utf8EncodeChar]
  generalize c.val.toNat = v at hchar hvalid ⊢
  split
  · have hb : (UInt8.ofNat v).toNat = v := toNat_ofNat (by omega)
    have hfirst : first (UInt8.ofNat v) = ([c], none) := by
      simp only [first, hb, hchar]
      rw [if_pos (by omega)]
    rw [List.singleton_append, hcons, hfirst]
    rfl
  · split
    · have hcode : v / 64 % 32 * 64 + v % 64 = v := by omega
      rw [List.cons_append, List.singleton_append, hcons, first_two (by omega) (by omega)]
      exact (decodeFrom_last (by omega) (by omega) (by omega)).trans (by rw [hcode, hchar])
    · split
      · have hcode : (v / 4096 % 16 * 64 + v / 64 % 64) * 64 + v % 64 = v := by omega
        rw [List.cons_append, List.cons_append, List.singleton_append, hcons,
          first_three (by omega)]
        refine (decodeFrom_more (by omega) ?_ ?_).trans
          ((decodeFrom_last (by omega) (by omega) (by omega)).trans (by rw [hcode, hchar]))
        · split <;> omega
        · split <;> omega
      · have hcode : ((v / 262144 % 8 * 64 + v / 4096 % 64) * 64 + v / 64 % 64) * 64 + v % 64 =
            v := by omega
        rw [List.cons_append, List.cons_append, List.cons_append, List.singleton_append, hcons,
          first_four (by omega)]
        refine (decodeFrom_more (by omega) ?_ ?_).trans
          ((decodeFrom_more (by omega) (by omega) (by omega)).trans
            ((decodeFrom_last (by omega) (by omega) (by omega)).trans (by rw [hcode, hchar])))
        · split <;> omega
        · split <;> omega

/-- **A text reads back.** -/
theorem decode_encode (s : String) : decode (encode s) = s.toList := by
  have hlist : ∀ l : List Char, decodeFrom none (l.flatMap String.utf8EncodeChar) = l := by
    intro l
    induction l with
    | nil => rfl
    | cons c l ih => rw [List.flatMap_cons, decodeFrom_encodeChar, ih]
  exact hlist s.toList

end Utf8
