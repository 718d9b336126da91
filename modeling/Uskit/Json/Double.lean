import Mathlib.Data.Rat.Defs
import Mathlib.Algebra.Order.Ring.Rat

namespace Uskit

/-! IEEE 754 binary64 values as bit patterns, with arithmetic that computes the
exact rational result and rounds it to nearest, ties to even. -/

structure Double where
  bits : BitVec 64
deriving DecidableEq, Repr

namespace Double

def negative (d : Double) : Bool :=
  d.bits.getLsbD 63

def biasedExponent (d : Double) : Nat :=
  (d.bits.toNat / 2 ^ 52) % 2 ^ 11

def fraction (d : Double) : Nat :=
  d.bits.toNat % 2 ^ 52

def isNan (d : Double) : Bool :=
  d.biasedExponent == 2047 && d.fraction != 0

def isInfinite (d : Double) : Bool :=
  d.biasedExponent == 2047 && d.fraction == 0

def isNanOrInf (d : Double) : Bool :=
  d.biasedExponent == 2047

def power (exponent : Int) : Rat :=
  if 0 ≤ exponent then (2 : Rat) ^ exponent.toNat
  else 1 / (2 : Rat) ^ (-exponent).toNat

/-- The value of a finite pattern. -/
def toRat (d : Double) : Rat :=
  let magnitude : Rat :=
    if d.biasedExponent = 0 then d.fraction * power (-1074)
    else (2 ^ 52 + d.fraction : Nat) * power (d.biasedExponent - 1075)
  if d.negative then -magnitude else magnitude

def pack (negative : Bool) (biased fraction : Nat) : Double :=
  ⟨BitVec.ofNat 64
    ((if negative then 2 ^ 63 else 0) + biased * 2 ^ 52 + fraction)⟩

def nan : Double := pack false 2047 (2 ^ 51)

def infinity (negative : Bool) : Double := pack negative 2047 0

def zero (negative : Bool) : Double := pack negative 0 0

def roundHalfEven (numerator denominator : Nat) : Nat :=
  let quotient := numerator / denominator
  let remainder := numerator % denominator
  if 2 * remainder < denominator then quotient
  else if denominator < 2 * remainder then quotient + 1
  else if quotient % 2 = 0 then quotient else quotient + 1

/-- The exponent of the last place of a positive rational: at least the one of
the subnormal numbers, else chosen so that 53 significant bits remain. -/
def lastPlace (magnitude : Rat) : Int :=
  let estimate : Int :=
    Nat.log2 magnitude.num.natAbs - Nat.log2 magnitude.den - 53
  let exponent :=
    if magnitude / power estimate < 2 ^ 53 then estimate else estimate + 1
  max exponent (-1074)

def ofMagnitude (negative : Bool) (magnitude : Rat) : Double :=
  let exponent := lastPlace magnitude
  let scaled := magnitude / power exponent
  let rounded := roundHalfEven scaled.num.natAbs scaled.den
  let (significand, exponent) :=
    if rounded = 2 ^ 53 then (2 ^ 52, exponent + 1) else (rounded, exponent)
  if 971 < exponent then infinity negative
  else if significand < 2 ^ 52 then pack negative 0 significand
  else pack negative (exponent + 1075).toNat (significand - 2 ^ 52)

/-- Round a rational; the flag is the sign of an exact zero. -/
def ofRat (value : Rat) (negativeZero : Bool) : Double :=
  if value = 0 then zero negativeZero
  else ofMagnitude (decide (value < 0)) (if value < 0 then -value else value)

def ofInt (value : Int) : Double :=
  ofRat value false

def neg (d : Double) : Double :=
  ⟨d.bits ^^^ BitVec.ofNat 64 (2 ^ 63)⟩

def add (a b : Double) : Double :=
  if a.isNan || b.isNan then nan
  else if a.isInfinite then
    if b.isInfinite && a.negative != b.negative then nan else a
  else if b.isInfinite then b
  else ofRat (a.toRat + b.toRat) (a.negative && b.negative)

def sub (a b : Double) : Double :=
  a.add b.neg

def mul (a b : Double) : Double :=
  let negative := a.negative != b.negative
  if a.isNan || b.isNan then nan
  else if a.isInfinite || b.isInfinite then
    if (!a.isInfinite && a.toRat == 0) || (!b.isInfinite && b.toRat == 0) then nan
    else infinity negative
  else ofRat (a.toRat * b.toRat) negative

def div (a b : Double) : Double :=
  let negative := a.negative != b.negative
  if a.isNan || b.isNan then nan
  else if a.isInfinite then
    if b.isInfinite then nan else infinity negative
  else if b.isInfinite then zero negative
  else if b.toRat = 0 then
    if a.toRat = 0 then nan else infinity negative
  else ofRat (a.toRat / b.toRat) negative

def lt (a b : Double) : Bool :=
  if a.isNan || b.isNan then false
  else if a.isInfinite then a.negative && !(b.isInfinite && b.negative)
  else if b.isInfinite then !b.negative
  else decide (a.toRat < b.toRat)

def le (a b : Double) : Bool :=
  !(a.isNan || b.isNan) && !b.lt a

end Double

end Uskit
