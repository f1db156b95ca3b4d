import Mathlib.Data.List.Basic
import Mathlib.Data.UInt

/-!
# Base64

A byte string as digits of six bits, and back.

* `sextets`: three bytes are four digits; one or two bytes at the end are two or three digits.
* `Alphabet`: how digits are written and read. `standard` and `url` differ in the last two digits.
* `encode` writes the digits only; `encodePadded` fills the last four up.
* **`decode_encode`**, **`decodePadded_encodePadded`**: what was encoded reads back.
-/

namespace Base64

/-! ## Digits -/

/-- The digits of a byte string. -/
def sextets : List UInt8 → List (Fin 64)
  | [] => []
  | [a] => [.ofNat 64 (a.toNat / 4), .ofNat 64 (a.toNat * 16)]
  | [a, b] =>
    [.ofNat 64 (a.toNat / 4), .ofNat 64 (a.toNat * 16 + b.toNat / 16), .ofNat 64 (b.toNat * 4)]
  | a :: b :: c :: rest =>
    .ofNat 64 (a.toNat / 4) :: .ofNat 64 (a.toNat * 16 + b.toNat / 16) ::
      .ofNat 64 (b.toNat * 4 + c.toNat / 64) :: .ofNat 64 c.toNat :: sextets rest

/-- The bytes of digits; one digit alone is less than a byte. -/
def bytes : List (Fin 64) → Option (List UInt8)
  | [] => some []
  | [_] => none
  | [u, v] => some [.ofNat (u * 4 + v / 16)]
  | [u, v, w] => some [.ofNat (u * 4 + v / 16), .ofNat (v * 16 + w / 4)]
  | u :: v :: w :: x :: rest => (bytes rest).map fun l =>
    .ofNat (u * 4 + v / 16) :: .ofNat (v * 16 + w / 4) :: .ofNat (w * 64 + x) :: l

theorem byte_eq {n : Nat} {b : UInt8} (h : n % 256 = b.toNat) : UInt8.ofNat n = b := by
  rw [← UInt8.toNat_inj, UInt8.toNat_ofNat', ← h]

/-- The first byte of a block, whatever the four bits beside its last two are. -/
theorem first_byte (a : UInt8) {n : Nat} (hn : n < 16) :
    UInt8.ofNat (a.toNat / 4 % 64 * 4 + (a.toNat * 16 + n) % 64 / 16) = a := by
  have ha := a.toNat_lt
  exact byte_eq (by omega)

/-- The second byte of a block, whatever the two bits beside its last four are. -/
theorem second_byte (a b : UInt8) {n : Nat} (hn : n < 4) :
    UInt8.ofNat ((a.toNat * 16 + b.toNat / 16) % 64 * 16 + (b.toNat * 4 + n) % 64 / 4) = b := by
  have hb := b.toNat_lt
  exact byte_eq (by omega)

theorem third_byte (b c : UInt8) :
    UInt8.ofNat ((b.toNat * 4 + c.toNat / 64) % 64 * 64 + c.toNat % 64) = c := by
  have hc := c.toNat_lt
  exact byte_eq (by omega)

/-- **The digits of a byte string are read back**, block by block. -/
theorem bytes_sextets (l : List UInt8) : bytes (sextets l) = some l := by
  induction l using sextets.induct with
  | case1 => rfl
  | case2 a =>
    have hfirst := first_byte a (show 0 < 16 by decide)
    simp only [sextets, bytes, Fin.val_ofNat]
    rw [← Nat.add_zero (a.toNat * 16), hfirst]
  | case3 a b =>
    have hb : b.toNat / 16 < 16 := Nat.div_lt_of_lt_mul b.toNat_lt
    have hfirst := first_byte a hb
    have hsecond := second_byte a b (show 0 < 4 by decide)
    simp only [sextets, bytes, Fin.val_ofNat]
    rw [← Nat.add_zero (b.toNat * 4), hsecond, hfirst]
  | case4 a b c rest ih =>
    have hb : b.toNat / 16 < 16 := Nat.div_lt_of_lt_mul b.toNat_lt
    have hc : c.toNat / 64 < 4 := Nat.div_lt_of_lt_mul c.toNat_lt
    have hfirst := first_byte a hb
    have hsecond := second_byte a b hc
    have hthird := third_byte b c
    simp only [sextets, bytes, Fin.val_ofNat]
    rw [ih, hfirst, hsecond, hthird, Option.map_some]

/-- Four digits for three bytes; two or three for one or two. -/
theorem length_sextets (l : List UInt8) : (sextets l).length = (4 * l.length + 2) / 3 := by
  induction l using sextets.induct with
  | case1 => rfl
  | case2 a => simp [sextets]
  | case3 a b => simp [sextets]
  | case4 a b c rest ih =>
    simp only [sextets, List.length_cons, ih]
    omega

/-! ## Alphabets -/

/-- An alphabet for digits. -/
structure Alphabet (α : Type) where
  write : Fin 64 → α
  read : α → Option (Fin 64)
  read_write : ∀ n, read (write n) = some n

namespace Alphabet

variable {α : Type} (A : Alphabet α)

/-- The digits only. -/
def encode (l : List UInt8) : List α := (sextets l).map A.write

/-- The bytes of a text of digits. -/
def decode (text : List α) : Option (List UInt8) := (text.mapM A.read).bind bytes

/-- The digits, the last four filled up. -/
def encodePadded (pad : α) (l : List UInt8) : List α :=
  A.encode l ++ match l.length % 3 with
    | 1 => [pad, pad]
    | 2 => [pad]
    | _ => []

/-- The bytes of the digits in front of the padding. -/
def decodePadded [DecidableEq α] (pad : α) (text : List α) : Option (List UInt8) :=
  A.decode (text.takeWhile (· ≠ pad))

theorem mapM_read (digits : List (Fin 64)) : (digits.map A.write).mapM A.read = some digits := by
  induction digits with
  | nil => rfl
  | cons n digits ih =>
    rw [List.map_cons, List.mapM_cons, A.read_write, ih]
    rfl

/-- **What was encoded reads back.** -/
theorem decode_encode (l : List UInt8) : A.decode (A.encode l) = some l := by
  unfold decode encode
  rw [A.mapM_read, Option.bind_some, bytes_sextets]

/-- **What was encoded and padded reads back.** -/
theorem decodePadded_encodePadded [DecidableEq α] {pad : α} (hpad : A.read pad = none)
    (l : List UInt8) : A.decodePadded pad (A.encodePadded pad l) = some l := by
  have hdigits : ∀ x ∈ A.encode l, decide (x ≠ pad) = true := by
    intro x hx
    obtain ⟨n, -, rfl⟩ := List.mem_map.mp hx
    refine decide_eq_true fun h => ?_
    rw [← h, A.read_write] at hpad
    exact absurd hpad (by simp)
  have htext : (A.encodePadded pad l).takeWhile (· ≠ pad) = A.encode l := by
    unfold encodePadded
    rw [List.takeWhile_append_of_pos hdigits]
    split <;> simp
  unfold decodePadded
  rw [htext, A.decode_encode]

end Alphabet

/-! ## The two alphabets -/

/-- A digit as a byte; `x` and `y` are the last two. -/
def writeWith (x y : UInt8) (n : Fin 64) : UInt8 :=
  if n < 26 then .ofNat (65 + n)
  else if n < 52 then .ofNat (71 + n)
  else if n < 62 then .ofNat (n - 4)
  else if n = 62 then x
  else y

/-- The digit of a byte. -/
def readWith (x y b : UInt8) : Option (Fin 64) :=
  if 65 ≤ b ∧ b ≤ 90 then some (.ofNat 64 (b.toNat - 65))
  else if 97 ≤ b ∧ b ≤ 122 then some (.ofNat 64 (b.toNat - 71))
  else if 48 ≤ b ∧ b ≤ 57 then some (.ofNat 64 (b.toNat + 4))
  else if b = x then some 62
  else if b = y then some 63
  else none

/-- Base64: the last two digits are `+` and `/`. -/
def standard : Alphabet UInt8 := ⟨writeWith 43 47, readWith 43 47, by decide⟩

/-- Base64url: the last two digits are `-` and `_`. -/
def url : Alphabet UInt8 := ⟨writeWith 45 95, readWith 45 95, by decide⟩

end Base64
