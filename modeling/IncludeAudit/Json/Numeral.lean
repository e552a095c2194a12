/-! # Numbers of a JSON document

Numbers as a JSON document writes them, and which of them are too large to be kept. A document
only has to be told apart from one with an unusable number, so no value is computed.
-/
namespace IncludeAudit

/-- `n` rounded to 53 significant binary digits; a tie goes to the even neighbour. -/
def roundToDouble (n : Nat) : Nat :=
  if n < 1 <<< 53 then n
  else
    let unit := 1 <<< (n.log2 - 52)
    let quotient := n / unit
    let remainder := 2 * (n % unit)
    if remainder > unit ∨ (remainder = unit ∧ quotient % 2 = 1) then (quotient + 1) * unit
    else quotient * unit

/-- A number of a JSON document: the digits before and after the point, and the exponent of ten. -/
structure Numeral where
  negative : Bool
  whole : List Nat
  fraction : List Nat
  exponent : Int
deriving DecidableEq, Inhabited, Repr

namespace Numeral

/-- The digits of a number that fit into 64 bits, as a number, and how many of them there are. -/
def leading (significand : Nat) (taken : Nat) : List Nat → Nat × Nat
  | [] => (significand, taken)
  | d :: rest =>
    if 10 * significand + d < 1 <<< 64 then leading (10 * significand + d) (taken + 1) rest
    else (significand, taken)

/-- The leading digits as a whole number, and the power of ten it has to be multiplied by. -/
def scaled (n : Numeral) : Nat × Int :=
  let (whole, wholeTaken) := leading 0 0 n.whole
  let (significand, fractionTaken) := leading whole 0 n.fraction
  (significand, n.exponent + (n.whole.length - wholeTaken : Int) - (fractionTaken : Int))

/-- Whether the number stays below the largest double when its leading digits and the power of ten
are rounded to doubles before they are multiplied, and the product after that. -/
def isFinite (n : Numeral) : Bool :=
  let (significand, exponent) := n.scaled
  if significand = 0 ∨ exponent < 0 then true
  else if exponent > 308 then false
  else
    let power := roundToDouble (Nat.pow 10 exponent.toNat)
    roundToDouble (roundToDouble significand * power) < 1 <<< 1024

end Numeral

end IncludeAudit
