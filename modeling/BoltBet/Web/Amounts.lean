import BoltBet.Number.Decimal
import BoltBet.Wallet.Types
import BoltBet.Betting.Types
import BoltBet.Market.Types

/-!
# Typed amounts (`wallet/page.tsx`, `markets/page.tsx`, `admin/markets/new/page.tsx`)

The three forms a person types money or odds into. Each reads its field with `parseFloat`, compares
the double with a bound and sends `Math.round(x * 100)`; the answer is shown with `formatCents` and
`formatOdds` of `utils.ts`, which divide by a hundred again. All of this is binary arithmetic, the
amounts of the service are integers.

* `handleDeposit`, `handlePlace` and `handleSubmit` are the handlers up to the request they send.
* `DepositDto.of?`, `PlaceBetDto.of?` are the checks of the service on the amount they get.
* **`typed_hundredths`**: a text that means `n` hundredths is sent as `n`, is refused exactly when
  `n` is out of the bound the page states, and is shown as the text that means `n` hundredths.
* `submitCents_near`: any other amount is sent to the cent.
-/

namespace BoltBet

open Double (nearest)

/-! ## The pages -/

/-- `String.prototype.trim`. -/
def trim (s : List Char) : List Char :=
  ((s.dropWhile Decimal.isSpace).reverse.dropWhile Decimal.isSpace).reverse

/-- What a handler does with what was typed: a toast and no request, or a request. -/
inductive Submitted (α : Type) where
  | refused (toast : String)
  | sent (payload : α)
  deriving DecidableEq

/-- The request, when there is one. -/
def Submitted.request {α : Type} : Submitted α → Option α
  | refused _ => none
  | sent payload => some payload

/-- The amount of a form in cents: `parseFloat`, its check, and `Math.round(dollars * 100)`. -/
def submitCents (amount : List Char) (toast : String) : Submitted Int :=
  match Decimal.parseFloat amount with
  | none => .refused toast
  | some dollars =>
    if dollars ≤ 0 then .refused toast else .sent (Math.round (nearest (dollars * 100)))

/-- `handleDeposit`, up to `await deposit(cents)`. -/
def handleDeposit (amount : List Char) : Submitted Int :=
  submitCents amount "Enter a valid amount."

/-- `handlePlace`, up to `await betMutation.mutateAsync(…)`. -/
def handlePlace (balanceCents : Int) (stakeInput : List Char) : Submitted Int :=
  match submitCents stakeInput "Enter a valid stake amount." with
  | .refused toast => .refused toast
  | .sent stakeCents =>
    if stakeCents > balanceCents then .refused "Insufficient balance." else .sent stakeCents

/-- `CreateMarketPayload`. -/
structure CreateMarketPayload where
  eventId : List Char
  name : List Char
  oddsInt : Int
  deriving DecidableEq

/-- `handleSubmit`, up to `createMutation.mutate(…)`. -/
def handleSubmit (eventId name oddsInput : List Char) : Submitted CreateMarketPayload :=
  match Decimal.parseFloat oddsInput with
  | none => .refused "Odds must be a number ≥ 1.01 (e.g. 2.40)."
  | some oddsFloat =>
    if oddsFloat < nearest (101 / 100) then .refused "Odds must be a number ≥ 1.01 (e.g. 2.40)."
    else .sent ⟨trim eventId, trim name, Math.round (nearest (oddsFloat * 100))⟩

/-! ## What is shown -/

/-- The hundredths next to `x`, as `toFixed(2)` and `Intl.NumberFormat` choose them. -/
def hundredths (x : ℚ) : ℤ := ⌊|x| * 100 + 1 / 2⌋

/-- `x.toFixed(2)` of a double. -/
def toFixed (x : ℚ) : List Char :=
  (if x < 0 then ['-'] else []) ++ toFixed2 (hundredths x)

/-- `new Intl.NumberFormat('en-US', { style: 'currency', currency: 'USD' }).format(x)`. -/
def currency (x : ℚ) : List Char :=
  (if x < 0 then ['-'] else []) ++ '$' :: insertCommas none (toFixed2 (hundredths x))

namespace Page

/-- `formatCents` of `utils.ts`. -/
def formatCents (cents : Int) : String := String.ofList (currency (nearest ((cents : ℚ) / 100)))

/-- `formatOdds` of `utils.ts`. -/
def formatOdds (oddsInt : Int) : String := String.ofList (toFixed (nearest ((oddsInt : ℚ) / 100)))

end Page

/-- What `handleDeposit` says when the request was answered. -/
def depositToast (cents : Int) (ok : Bool) : String :=
  if ok then "Deposited " ++ Page.formatCents cents ++ " successfully."
  else "Deposit failed. Please try again."

/-! ## The checks of the service -/

/-- `DepositDto` of a body, when it passes its decorators. -/
def DepositDto.of? (amountCents : Int) (clientMutationId : Uuid) : Option DepositDto :=
  if h : 100 ≤ amountCents ∧ amountCents ≤ 1000000 then
    some ⟨amountCents, clientMutationId, h.1, h.2⟩
  else none

/-- `PlaceBetDto` of a body, when it passes its decorators. -/
def PlaceBetDto.of? (marketId : Uuid) (stakeCents : Int) (clientMutationId : Uuid) :
    Option PlaceBetDto :=
  if h : 100 ≤ stakeCents ∧ stakeCents ≤ 1000000 then
    some ⟨marketId, stakeCents, clientMutationId, h.1, h.2⟩
  else none

/-! ## Hundredths through the pages -/

variable {n : ℤ} {s : List Char}

theorem nearest_hundredths_neg (hn : |n| < 2 ^ 50) : nearest ((n : ℚ) / 100) < 0 ↔ n < 0 := by
  have hlt := Double.nearest_hundredths_lt hn (by norm_num : |(0 : ℤ)| < 2 ^ 50)
  rwa [Int.cast_zero, zero_div, Double.nearest_zero] at hlt

theorem nearest_hundredths_nonpos (hn : |n| < 2 ^ 50) : nearest ((n : ℚ) / 100) ≤ 0 ↔ n ≤ 0 := by
  have hlt := Double.nearest_hundredths_lt (by norm_num : |(0 : ℤ)| < 2 ^ 50) hn
  rw [Int.cast_zero, zero_div, Double.nearest_zero] at hlt
  rw [← not_lt, ← not_lt, hlt]

theorem hundredths_nearest (hn : |n| < 2 ^ 50) :
    hundredths (nearest ((n : ℚ) / 100)) = (n.natAbs : ℤ) := by
  refine Math.round_eq ?_
  have hclose := Double.abs_hundredths_sub_lt hn
  have habs := abs_abs_sub_abs_le (nearest ((n : ℚ) / 100) * 100) n
  rw [abs_mul, abs_of_pos (by norm_num : (0 : ℚ) < 100)] at habs
  have hcast : ((n.natAbs : ℤ) : ℚ) = |(n : ℚ)| := by
    rw [Int.natCast_natAbs, Int.cast_abs]
  rw [hcast]
  linarith

/-- **`toFixed(2)` of a hundredth is its exact numeral.** -/
theorem toFixed_nearest (hn : |n| < 2 ^ 50) : toFixed (nearest ((n : ℚ) / 100)) = toFixed2 n := by
  unfold toFixed
  rw [hundredths_nearest hn, if_congr (nearest_hundredths_neg hn) rfl rfl]
  have hpos : ¬ ((n.natAbs : ℤ) < 0) := by omega
  unfold toFixed2
  rw [if_neg hpos, Int.natAbs_natCast, List.nil_append, List.append_assoc]

/-- The page and the service show an amount alike. -/
theorem page_formatCents (c : ℕ) (hc : |(c : ℤ)| < 2 ^ 50) :
    Page.formatCents c = formatCents c := by
  have hneg : ¬ nearest (((c : ℤ) : ℚ) / 100) < 0 := by
    rw [nearest_hundredths_neg hc]
    omega
  unfold Page.formatCents currency formatCents
  rw [hundredths_nearest hc, if_neg hneg, List.nil_append, Int.natAbs_natCast]

theorem parseFloat_eq {x : ℚ} (hs : Decimal.value s = some x) :
    Decimal.parseFloat s = some (nearest x) := by
  unfold Decimal.parseFloat
  rw [hs, Option.map_some]

theorem submitCents_hundredths (hs : Decimal.value s = some ((n : ℚ) / 100))
    (hn : |n| < 2 ^ 50) (toast : String) :
    submitCents s toast = if n ≤ 0 then .refused toast else .sent n := by
  unfold submitCents
  rw [parseFloat_eq hs]
  simp only [nearest_hundredths_nonpos hn, Double.round_hundredfold hn]

theorem handleSubmit_hundredths (hs : Decimal.value s = some ((n : ℚ) / 100))
    (hn : |n| < 2 ^ 50) (eventId name : List Char) :
    handleSubmit eventId name s =
      if n < 101 then .refused "Odds must be a number ≥ 1.01 (e.g. 2.40)."
      else .sent ⟨trim eventId, trim name, n⟩ := by
  have hbound : nearest ((n : ℚ) / 100) < nearest (101 / 100) ↔ n < 101 := by
    have hlt := Double.nearest_hundredths_lt hn (by norm_num : |(101 : ℤ)| < 2 ^ 50)
    rwa [Int.cast_ofNat] at hlt
  unfold handleSubmit
  rw [parseFloat_eq hs]
  simp only [hbound, Double.round_hundredfold hn]

/-- Any amount is sent to the cent. -/
theorem submitCents_near {x : ℚ} (hs : Decimal.value s = some x) (hx : 0 < x)
    (hsmall : x * 100 < 2 ^ 50) (toast : String) :
    ∃ cents : ℤ, submitCents s toast = .sent cents ∧ |(cents : ℚ) - x * 100| < 1 := by
  have habs : |x * 100| < 2 ^ 50 := by rwa [abs_of_pos (by linarith)]
  have hpos : 0 < nearest x := by
    have herr := abs_le.mp (Double.abs_nearest_sub_le_mul x)
    rw [abs_of_pos hx] at herr
    have hdiv : x / 2 ^ 53 < x := div_lt_self hx (by norm_num)
    linarith [herr.1]
  refine ⟨Math.round (nearest (nearest x * 100)), ?_, ?_⟩
  · unfold submitCents
    rw [parseFloat_eq hs]
    exact if_neg hpos.not_ge
  · have hround := Math.abs_round_sub_le (nearest (nearest x * 100))
    have hclose := (Double.abs_hundredfold_sub_lt habs).2
    have htri := abs_add_le (Math.round (nearest (nearest x * 100)) - nearest (nearest x * 100) : ℚ)
      (nearest (nearest x * 100) - x * 100)
    rw [sub_add_sub_cancel] at htri
    linarith

/-- **Typed hundredths are exact.** A text that means `n` hundredths is sent as `n` by each of the
three forms, and refused exactly outside the bounds they state; the service's DTO accepts this `n`
or, out of its own bounds, nothing; and both sides show `n` as the text of `n` hundredths. -/
theorem typed_hundredths (hs : Decimal.value s = some ((n : ℚ) / 100)) (hn : |n| < 2 ^ 50) :
    (handleDeposit s = (if n ≤ 0 then .refused "Enter a valid amount." else .sent n) ∧
      ∀ key, ((handleDeposit s).request.bind fun cents => DepositDto.of? cents key) =
        DepositDto.of? n key) ∧
    (∀ balanceCents,
      handlePlace balanceCents s =
        (if n ≤ 0 then .refused "Enter a valid stake amount."
          else if balanceCents < n then .refused "Insufficient balance." else .sent n) ∧
      ∀ marketId key,
        ((handlePlace balanceCents s).request.bind fun cents =>
          PlaceBetDto.of? marketId cents key) =
            if balanceCents < n then none else PlaceBetDto.of? marketId n key) ∧
    (∀ eventId name, handleSubmit eventId name s =
      if n < 101 then .refused "Odds must be a number ≥ 1.01 (e.g. 2.40)."
      else .sent ⟨trim eventId, trim name, n⟩) ∧
    (0 ≤ n → Page.formatCents n = formatCents n ∧ readCents (Page.formatCents n) = n.toNat) ∧
    Page.formatOdds n = formatOdds n ∧
    Decimal.value (Page.formatOdds n).toList = some ((n : ℚ) / 100) := by
  have hdeposit : handleDeposit s = if n ≤ 0 then .refused "Enter a valid amount." else .sent n :=
    submitCents_hundredths hs hn _
  have hplace : ∀ balanceCents, handlePlace balanceCents s =
      if n ≤ 0 then .refused "Enter a valid stake amount."
      else if balanceCents < n then .refused "Insufficient balance." else .sent n := by
    intro balanceCents
    unfold handlePlace
    rw [submitCents_hundredths hs hn]
    by_cases h0 : n ≤ 0
    · rw [if_pos h0, if_pos h0]
    · rw [if_neg h0, if_neg h0]
  have hodds : Page.formatOdds n = formatOdds n := by
    unfold Page.formatOdds formatOdds
    rw [toFixed_nearest hn]
  refine ⟨⟨hdeposit, fun key => ?_⟩, fun balanceCents => ⟨hplace balanceCents, fun m key => ?_⟩,
    handleSubmit_hundredths hs hn, fun h0 => ?_, hodds, ?_⟩
  · rw [hdeposit]
    by_cases h0 : n ≤ 0
    · rw [if_pos h0, Submitted.request, Option.bind_none, DepositDto.of?, dif_neg (by omega)]
    · rw [if_neg h0, Submitted.request, Option.bind_some]
  · rw [hplace]
    by_cases h0 : n ≤ 0
    · rw [if_pos h0, Submitted.request, Option.bind_none, PlaceBetDto.of?, dif_neg (by omega),
        ite_self]
    · rw [if_neg h0]
      by_cases hlow : balanceCents < n
      · rw [if_pos hlow, if_pos hlow, Submitted.request, Option.bind_none]
      · rw [if_neg hlow, if_neg hlow, Submitted.request, Option.bind_some]
  · obtain ⟨c, rfl⟩ := Int.eq_ofNat_of_zero_le h0
    have hsame := page_formatCents c hn
    exact ⟨hsame, by rw [hsame, readCents_formatCents, Int.toNat_natCast]⟩
  · rw [hodds, formatOdds, String.toList_ofList]
    exact Decimal.value_toFixed2 n

/-- `19.99 * 100` is `1998.9999999999998` in doubles. -/
theorem typed_hundredths_deposit :
    handleDeposit "19.99".toList = .sent 1999 ∧
      handlePlace 1998 "19.99".toList = .refused "Insufficient balance." := by
  have htext : "19.99".toList = toFixed2 1999 := by decide
  have htyped := typed_hundredths (s := "19.99".toList) (n := 1999)
    (by rw [htext]; exact Decimal.value_toFixed2 1999) (by norm_num)
  refine ⟨?_, ?_⟩
  · rw [htyped.1.1, if_neg (by decide)]
  · rw [(htyped.2.1 1998).1, if_neg (by decide), if_pos (by decide)]

end BoltBet
