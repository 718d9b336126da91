import Uskit.Json.DiyFp
import Uskit.Json.Numeral

namespace Uskit

/-! `internal/dtoa.h`: the text of a double, in digits that `Grisu2` finds. -/

namespace Dtoa

open DiyFp

/-! The digits. -/

def digitChar (d : Nat) : Char :=
  Char.ofNat ('0'.toNat + d)

/-- `buffer[(*len)++] = d`, but for zeros in front. -/
def pushDigit (buffer : List Char) (d : Nat) : List Char :=
  if d ≠ 0 ∨ buffer ≠ [] then buffer ++ [digitChar d] else buffer

/-- `buffer[len - 1]--`. -/
def decrement (buffer : List Char) : List Char :=
  buffer.dropLast ++ (buffer.getLast?.map fun c => Char.ofNat (c.toNat - 1)).toList

/-- The condition of the loop in `GrisuRound`. -/
def roundsOn (delta tenKappa wpW rest : Nat) : Bool :=
  let next := (rest + tenKappa) % 2 ^ 64
  decide (rest < wpW) && decide (tenKappa ≤ subtract delta rest) &&
    (decide (next < wpW) || decide (subtract next wpW < subtract wpW rest))

/-- The last digit goes down at most nine times. -/
def grisuRound (delta tenKappa wpW : Nat) : (bound : Nat) → (rest : Nat) → List Char → List Char
  | 0, _, buffer => buffer
  | bound + 1, rest, buffer =>
      if roundsOn delta tenKappa wpW rest then
        grisuRound delta tenKappa wpW bound ((rest + tenKappa) % 2 ^ 64) (decrement buffer)
      else buffer

def countDecimalDigit32 (n : Nat) : Nat :=
  if n < 10 then 1
  else if n < 100 then 2
  else if n < 1000 then 3
  else if n < 10000 then 4
  else if n < 100000 then 5
  else if n < 1000000 then 6
  else if n < 10000000 then 7
  else if n < 100000000 then 8
  else 9

/-- The second loop of `DigitGen`, where `kappa` is `-index`; `delta` and `p2` are less than
`one.f` and `delta` grows, so that it returns within 19 turns. -/
def fractionDigits (shift wpW : Nat) (K : Int) :
    (bound : Nat) → (index p2 delta : Nat) → List Char → List Char × Int
  | 0, _, _, _, buffer => (buffer, K)
  | bound + 1, index, p2, delta, buffer =>
      let p2 := p2 * 10 % 2 ^ 64
      let delta := delta * 10 % 2 ^ 64
      let buffer := pushDigit buffer (p2 / 2 ^ shift)
      let p2 := p2 % 2 ^ shift
      let index := index + 1
      if p2 < delta then
        (grisuRound delta (2 ^ shift)
          (wpW * (if index < 9 then 10 ^ index else 0) % 2 ^ 64) 10 p2 buffer, K - index)
      else fractionDigits shift wpW K bound index p2 delta buffer

/-- The first loop of `DigitGen`, and the second one behind it. -/
def integralDigits (shift wpW delta p2 : Nat) (K : Int) :
    (kappa : Nat) → (p1 : Nat) → List Char → List Char × Int
  | 0, _, buffer => fractionDigits shift wpW K 20 0 p2 delta buffer
  | kappa + 1, p1, buffer =>
      let buffer := pushDigit buffer (p1 / 10 ^ kappa)
      let p1 := p1 % 10 ^ kappa
      let tmp := (shiftLeft p1 shift + p2) % 2 ^ 64
      if tmp ≤ delta then
        (grisuRound delta (shiftLeft (10 ^ kappa) shift) wpW 10 tmp buffer, K + kappa)
      else integralDigits shift wpW delta p2 K kappa p1 buffer

def digitGen (W Mp : DiyFp) (delta : Nat) (K : Int) : List Char × Int :=
  let shift := (-Mp.e).toNat
  let p1 := Mp.f / 2 ^ shift % 2 ^ 32
  let p2 := Mp.f % 2 ^ shift
  integralDigits shift (Mp.sub W).f delta p2 K (countDecimalDigit32 p1) p1 []

def grisu2 (value : Double) : List Char × Int :=
  let v := ofDouble value
  let (wM, wP) := v.normalizedBoundaries
  let (cMk, K) := getCachedPower wP.e
  let W := v.normalize.mul cMk
  let Wp := wP.mul cMk
  let Wm := wM.mul cMk
  let Wm := { Wm with f := (Wm.f + 1) % 2 ^ 64 }
  let Wp := { Wp with f := subtract Wp.f 1 }
  digitGen W Wp (subtract Wp.f Wm.f) K

/-! The text. -/

/-- Exponents have three digits at most. -/
def writeExponent (K : Int) : List Char :=
  let magnitude := K.natAbs
  (if K < 0 then ['-'] else []) ++
    if 100 ≤ magnitude then
      [digitChar (magnitude / 100), digitChar (magnitude % 100 / 10), digitChar (magnitude % 10)]
    else if 10 ≤ magnitude then [digitChar (magnitude / 10), digitChar (magnitude % 10)]
    else [digitChar magnitude]

/-- What is left of a text cut off behind position `i`, down to `least`, without the zeros at
its end. -/
def cutZeros (text : List Char) (least : Nat) : (i : Nat) → List Char
  | 0 => text.take (least + 1)
  | i + 1 =>
      if least < i + 1 then
        if text.getD (i + 1) '0' ≠ '0' then text.take (i + 2) else cutZeros text least i
      else text.take (least + 1)

def prettify (buffer : List Char) (k : Int) (maxDecimalPlaces : Nat) : List Char :=
  let kk := buffer.length + k
  if 0 ≤ k ∧ kk ≤ 21 then buffer ++ List.replicate k.toNat '0' ++ ['.', '0']
  else if 0 < kk ∧ kk ≤ 21 then
    let text := buffer.take kk.toNat ++ '.' :: buffer.drop kk.toNat
    if k + maxDecimalPlaces < 0 then cutZeros text (kk.toNat + 1) (kk.toNat + maxDecimalPlaces)
    else text
  else if -6 < kk ∧ kk ≤ 0 then
    let text := ['0', '.'] ++ List.replicate (-kk).toNat '0' ++ buffer
    if (maxDecimalPlaces : Int) < buffer.length - kk then cutZeros text 2 (maxDecimalPlaces + 1)
    else text
  else if kk < -maxDecimalPlaces then ['0', '.', '0']
  else if buffer.length = 1 then buffer ++ 'e' :: writeExponent (kk - 1)
  else buffer.take 1 ++ '.' :: buffer.drop 1 ++ 'e' :: writeExponent (kk - 1)

/-- `kDefaultMaxDecimalPlaces`. -/
def defaultMaxDecimalPlaces : Nat := 324

def isZero (d : Double) : Bool :=
  d.biasedExponent == 0 && d.fraction == 0

end Dtoa

open Dtoa in
def dtoa (value : Double) : String :=
  if isZero value then String.ofList ((if value.negative then ['-'] else []) ++ ['0', '.', '0'])
  else
    let minus := value.lt (Double.zero false)
    let digits := grisu2 (if minus then value.neg else value)
    String.ofList ((if minus then ['-'] else []) ++
      prettify digits.1 digits.2 defaultMaxDecimalPlaces)

end Uskit
