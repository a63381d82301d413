/-
`quote-format.ts` and the amounts of `otc-ticket.ts`: a `bigint` of base
units as text with a decimal point, and back.

Both files have a formatter and a parser of their own. `null` is `none`
here, and so is what is thrown: the parsers catch it, and `formatAmount`
throws for a text that is no integer only. A `bigint` has no width.
-/
import M1n3Protocol.Lib.JsText

namespace M1n3Protocol.Web

open Js

-- ========================================================= quote-format.ts

structure QuoteToken where
  symbol : Text
  decimals : ℕ

def formatPriceInQuote (priceBaseUnits : ℤ) (quote : QuoteToken) : Text :=
  let dec := quote.decimals
  if dec = 0 then bigIntText priceBaseUnits ++ ' ' :: quote.symbol
  else
    let factor : ℤ := 10 ^ dec
    let whole := priceBaseUnits.tdiv factor
    let frac := priceBaseUnits.tmod factor
    if frac = 0 then bigIntText whole ++ ' ' :: quote.symbol
    else
      let fracPadded := dropTrailingZeros (padStart (bigIntText frac) dec '0')
      bigIntText whole ++ '.' :: fracPadded ++ ' ' :: quote.symbol

/-- `/^\d*\.?\d*$/.test(s)` -/
def digitsWithPoint (s : Text) : Bool :=
  match s.dropWhile Char.isDigit with
  | [] => true
  | c :: rest => c == '.' && rest.all Char.isDigit

def parseQuoteAmount (decimalString : Text) (quote : QuoteToken) :
    Option ℤ :=
  let trimmed := trim decimalString
  if trimmed = [] ∨ trimmed = ['.'] then none
  else if ¬ digitsWithPoint trimmed then none
  else
    let wholeRaw := (split '.' trimmed).getD 0 []
    let fracRaw := (split '.' trimmed).getD 1 []
    if quote.decimals < fracRaw.length then none
    else
      let whole := if wholeRaw = [] then ['0'] else wholeRaw
      let fracPadded := padEnd fracRaw quote.decimals '0'
      bigInt (whole ++ fracPadded)

-- ============================================================ otc-ticket.ts

inductive RawAmount
  | text (s : Text)
  | bigint (v : ℤ)

def RawAmount.toBigInt : RawAmount → Option ℤ
  | .text s => bigInt s
  | .bigint v => some v

def formatAmount (raw : RawAmount) (decimals : ℕ) : Option Text :=
  raw.toBigInt.map fun v =>
    if decimals = 0 then bigIntText v
    else
      let factor : ℤ := 10 ^ decimals
      let whole := v.tdiv factor
      let frac := v.tmod factor
      let fracStr :=
        dropTrailingZeros (padStart (bigIntText frac) decimals '0')
      if fracStr ≠ [] then bigIntText whole ++ '.' :: fracStr
      else bigIntText whole

def parseAmount (decStr : Text) (decimals : ℕ) : Option ℤ :=
  let whole := (split '.' decStr).getD 0 []
  let frac := (split '.' decStr).getD 1 []
  let padded := (frac ++ List.replicate decimals '0').take decimals
  let all := dropLeadingZeros (whole ++ padded)
  bigInt (if all = [] then ['0'] else all)

end M1n3Protocol.Web
