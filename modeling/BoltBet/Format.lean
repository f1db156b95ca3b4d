import Mathlib.Data.String.Basic

/-!
# Display strings (`formatCents`, `formatOdds`)

`formatCents` of `WalletService.ts` and `BettingService.ts` is
`(cents / 100).toFixed(2).replace(/\B(?=(\d{3})+(?!\d))/g, ',')` after a dollar sign, `formatOdds`
is `(oddsInt / 100).toFixed(2)`. The argument is an integer number of hundredths, so `toFixed(2)`
is read as its exact numeral with two decimals.
-/

namespace BoltBet

/-- `(n / 100).toFixed(2)` for an integer `n`. -/
def toFixed2 (n : Int) : List Char :=
  let cents := n.natAbs % 100
  (if n < 0 then ['-'] else []) ++ (toString (n.natAbs / 100)).toList ++
    ['.', Nat.digitChar (cents / 10), Nat.digitChar (cents % 10)]

/-- `\w`, as the word boundary `\b` reads it. -/
def isWordChar (c : Char) : Bool := c.isAlphanum || c == '_'

/-- `(?=(\d{3})+(?!\d))`: the digits that follow are a positive multiple of three. -/
def groupsOfThree (rest : List Char) : Bool :=
  let n := (rest.takeWhile Char.isDigit).length
  n != 0 && n % 3 == 0

/-- `.replace(/\B(?=(\d{3})+(?!\d))/g, ',')`, with the character before the string: a comma at
every position that is no word boundary and has groups of three digits ahead. -/
def insertCommas (prev : Option Char) : List Char → List Char
  | [] => []
  | c :: cs =>
    (if prev.any isWordChar == isWordChar c && groupsOfThree (c :: cs) then [','] else []) ++
      c :: insertCommas (some c) cs

/-- `formatCents`: 1050 → "$10.50". -/
def formatCents (cents : Int) : String :=
  String.ofList ('$' :: insertCommas none (toFixed2 cents))

/-- `formatOdds`: 240 → "2.40". -/
def formatOdds (oddsInt : Int) : String := String.ofList (toFixed2 oddsInt)

end BoltBet
