import ScriptMigration.Number.Core

/-! Doubles as the words of their IEEE 754 binary64 encoding, and the double nearest to a decimal.

A positive double with word `w` is `m * 2 ^ q` where `w = (q + 1074) * 2 ^ 52 + m` and `m < 2 ^ 53`,
so rounding the exact quotient to a whole `m` gives the word at once, carries and subnormal numbers
included. -/
namespace ScriptMigration

/-- A double, by its word. -/
structure Binary64 where
  word : UInt64
deriving DecidableEq, Repr, Hashable, Inhabited

namespace Binary64

def zero : Binary64 := ⟨0⟩

def infinity : Binary64 := ⟨0x7ff0000000000000⟩

def roundQuotient (num den : Nat) : Nat :=
  let quotient := num / den
  let rest := num % den
  if 2 * rest < den then quotient
  else if 2 * rest == den && quotient % 2 == 0 then quotient
  else quotient + 1

def leadingExponent (num den : Nat) : Int :=
  let guess : Int := (num.log2 : Int) - den.log2
  let reached :=
    if 0 ≤ guess then den * 2 ^ guess.toNat ≤ num else den ≤ num * 2 ^ (-guess).toNat
  if reached then guess else guess - 1

/-- The double nearest to a positive quotient; a half goes to the even significand, and a quotient
past the greatest double is infinite. -/
def ofQuotient (num den : Nat) : Binary64 :=
  let unit : Int := max (leadingExponent num den - 52) (-1074)
  let significand :=
    if 0 ≤ unit then roundQuotient num (den * 2 ^ unit.toNat)
    else roundQuotient (num * 2 ^ (-unit).toNat) den
  let word := (unit + 1074).toNat * 2 ^ (52 : Nat) + significand
  if word < infinity.word.toNat then ⟨word.toUInt64⟩ else infinity

/-- The double nearest to `digits * 10 ^ power`. Powers far outside the range of doubles are settled
by the number of digits alone. -/
def ofDecimal (digits : Nat) (power : Int) : Binary64 :=
  let magnitude : Int := (Nat.toDigits 10 digits).length + power
  if digits == 0 || magnitude < -400 then zero
  else if 400 < magnitude then infinity
  else if 0 ≤ power then ofQuotient (digits * 10 ^ power.toNat) 1
  else ofQuotient digits (10 ^ (-power).toNat)

end Binary64

end ScriptMigration
