import MasterAI.DecimalText

namespace MasterAI

/-- The value of a letter or a digit, where it is a digit of the base. -/
def radixDigit (base : Nat) (c : Char) : Option Nat :=
  let value :=
    if c.isDigit then c.toNat - 48
    else if 'a' ≤ c ∧ c ≤ 'z' then c.toNat - 87
    else if 'A' ≤ c ∧ c ≤ 'Z' then c.toNat - 55
    else base
  if value < base then some value else none

/-- The prefix `0x`, where a digit follows. -/
def hexPrefix (text : List Char) : Bool :=
  match text with
  | '0' :: x :: c :: _ => (x = 'x' || x = 'X') && (radixDigit 16 c).isSome
  | _ => false

/-- The base that the text of a number tells where the conversion leaves it open, by 0. -/
def radixOf (base : Nat) (text : List Char) : Nat :=
  if base ≠ 0 then base
  else if hexPrefix text then 16
  else if text.head? = some '0' then 8
  else 10

/-- The sign and the magnitude of a number, by the rules of `strtol`. -/
def scanRadix (base : Nat) (text : List Char) : Option (Bool × Nat) :=
  let text := skipSpaces text
  let negative := text.head? = some '-'
  let body := if text.head? = some '-' ∨ text.head? = some '+' then text.tail else text
  let base := radixOf base body
  let body := if base = 16 ∧ hexPrefix body then body.drop 2 else body
  let digits := body.takeWhile fun c => (radixDigit base c).isSome
  if digits = [] then none
  else some (negative, (digits.filterMap (radixDigit base)).foldl (fun n d => base * n + d) 0)

def saturated : Bool × Nat → Int
  | (true, n) => -(min n 9223372036854775808 : Nat)
  | (false, n) => (min n 9223372036854775807 : Nat)

/-- The conversion `%i` into a 32-bit integer. -/
def scanAnyInt32 (text : List Char) : Option Int := (scanRadix 0 text).map fun n => wrapInt32 (saturated n)

/-- `strtol`. -/
def strtol (base : Nat) (text : List Char) : Int := ((scanRadix base text).map saturated).getD 0

end MasterAI
