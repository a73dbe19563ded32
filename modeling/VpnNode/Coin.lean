import VpnNode.Text.Blank
import VpnNode.Text.Decimal
import VpnNode.Text.Split

/-!
# Prices

A price is an amount of coins of one denomination. A list of prices is written with
commas; blanks around a price and empty places between commas mean nothing.
-/

namespace VpnNode

/-- An amount of one denomination. -/
structure Coin where
  denom : String
  amount : Nat
  deriving DecidableEq, Repr

namespace Coin

/-- The first amount that is too large. -/
def amountLimit : Nat := 1 <<< 128

/-- What is wrong with the text of a price. -/
inductive Defect where
  | noDenom
  | noAmount
  | invalidDenom
  | amountTooLarge
  deriving DecidableEq, Repr

/-- A text that is no price, and why. -/
structure Fault where
  text : String
  defect : Defect
  deriving DecidableEq, Repr

def Fault.message (f : Fault) : String :=
  match f.defect with
  | .noDenom => s!"coin '{f.text}' has no denom"
  | .noAmount => s!"coin '{f.text}' has no amount"
  | .invalidDenom => s!"coin '{f.text}' has an invalid denom"
  | .amountTooLarge => s!"coin '{f.text}': number too large to fit in target type"

/-- The characters of a denomination. -/
def isDenomChar (c : Char) : Bool := c.isAlphanum || c == '/'

/-- Reads a price: its digits, then its denomination. -/
def ofChars (cs : List Char) : Except Defect Coin :=
  let digits := cs.takeWhile Char.isDigit
  let denom := cs.dropWhile Char.isDigit
  if denom.isEmpty then .error .noDenom
  else if digits.isEmpty then .error .noAmount
  else if !denom.all isDenomChar then .error .invalidDenom
  else if Decimal.value digits < amountLimit then
    .ok ⟨String.ofList denom, Decimal.value digits⟩
  else .error .amountTooLarge

/-- The texts of the prices of a list: what stands between commas, without blanks at
    the ends, unless nothing is left. -/
def parts (s : String) : List (List Char) :=
  ((Text.split ',' s.toList).map Text.trimChars).filter fun p => !p.isEmpty

/-- Reads a list of prices, up to the first fault. -/
def parseList (s : String) : Except Fault (List Coin) :=
  (parts s).mapM fun p => (ofChars p).mapError fun d => ⟨String.ofList p, d⟩

end VpnNode.Coin
