import Uskit.Json.Double

namespace Uskit

/-! `internal/diyfp.h`: numbers of a significand of 64 bits and an exponent. -/

structure DiyFp where
  f : Nat
  e : Int
deriving DecidableEq

namespace DiyFp

/-! Arithmetic of `uint64_t`. -/

def shiftLeft (a count : Nat) : Nat :=
  a * 2 ^ count % 2 ^ 64

def subtract (a b : Nat) : Nat :=
  (a + 2 ^ 64 - b) % 2 ^ 64

/-- The constructor from a `double`. -/
def ofDouble (d : Double) : DiyFp :=
  if d.biasedExponent ≠ 0 then
    { f := d.fraction + 2 ^ 52, e := (d.biasedExponent : Int) - 1075 }
  else { f := d.fraction, e := -1074 }

/-- `operator-`, of numbers with one exponent. -/
def sub (a b : DiyFp) : DiyFp :=
  { f := subtract a.f b.f, e := a.e }

/-- `operator*`: the upper half of the product, rounded. -/
def mul (a b : DiyFp) : DiyFp :=
  let p := a.f * b.f
  let h := p / 2 ^ 64
  let l := p % 2 ^ 64
  { f := (if l.testBit 63 then h + 1 else h) % 2 ^ 64, e := a.e + b.e + 64 }

/-- `Normalize`, for a significand that is not zero. -/
def normalize (a : DiyFp) : DiyFp :=
  let s := 63 - a.f.log2
  { f := shiftLeft a.f s, e := a.e - s }

/-- The loop of `NormalizeBoundary`, which would go on for ever from zero. -/
def raise : (bound : Nat) → DiyFp → DiyFp
  | 0, a => a
  | bound + 1, a =>
      if a.f.testBit 53 then a
      else raise bound { f := shiftLeft a.f 1, e := a.e - 1 }

def normalizeBoundary (a : DiyFp) : DiyFp :=
  let res := raise 64 a
  { f := shiftLeft res.f 10, e := res.e - 10 }

/-- The numbers half way to the neighbours, with one exponent. -/
def normalizedBoundaries (a : DiyFp) : DiyFp × DiyFp :=
  let pl := normalizeBoundary { f := (shiftLeft a.f 1 + 1) % 2 ^ 64, e := a.e - 1 }
  let mi : DiyFp :=
    if a.f = 2 ^ 52 then { f := subtract (shiftLeft a.f 2) 1, e := a.e - 2 }
    else { f := subtract (shiftLeft a.f 1) 1, e := a.e - 1 }
  ({ f := shiftLeft mi.f (mi.e - pl.e).toNat, e := pl.e }, pl)

/-! Powers of ten. -/

def kCachedPowersF : List Nat :=
  [ 0xfa8fd5a0081c0288, 0xbaaee17fa23ebf76, 0x8b16fb203055ac76, 0xcf42894a5dce35ea,
    0x9a6bb0aa55653b2d, 0xe61acf033d1a45df, 0xab70fe17c79ac6ca, 0xff77b1fcbebcdc4f,
    0xbe5691ef416bd60c, 0x8dd01fad907ffc3c, 0xd3515c2831559a83, 0x9d71ac8fada6c9b5,
    0xea9c227723ee8bcb, 0xaecc49914078536d, 0x823c12795db6ce57, 0xc21094364dfb5637,
    0x9096ea6f3848984f, 0xd77485cb25823ac7, 0xa086cfcd97bf97f4, 0xef340a98172aace5,
    0xb23867fb2a35b28e, 0x84c8d4dfd2c63f3b, 0xc5dd44271ad3cdba, 0x936b9fcebb25c996,
    0xdbac6c247d62a584, 0xa3ab66580d5fdaf6, 0xf3e2f893dec3f126, 0xb5b5ada8aaff80b8,
    0x87625f056c7c4a8b, 0xc9bcff6034c13053, 0x964e858c91ba2655, 0xdff9772470297ebd,
    0xa6dfbd9fb8e5b88f, 0xf8a95fcf88747d94, 0xb94470938fa89bcf, 0x8a08f0f8bf0f156b,
    0xcdb02555653131b6, 0x993fe2c6d07b7fac, 0xe45c10c42a2b3b06, 0xaa242499697392d3,
    0xfd87b5f28300ca0e, 0xbce5086492111aeb, 0x8cbccc096f5088cc, 0xd1b71758e219652c,
    0x9c40000000000000, 0xe8d4a51000000000, 0xad78ebc5ac620000, 0x813f3978f8940984,
    0xc097ce7bc90715b3, 0x8f7e32ce7bea5c70, 0xd5d238a4abe98068, 0x9f4f2726179a2245,
    0xed63a231d4c4fb27, 0xb0de65388cc8ada8, 0x83c7088e1aab65db, 0xc45d1df942711d9a,
    0x924d692ca61be758, 0xda01ee641a708dea, 0xa26da3999aef774a, 0xf209787bb47d6b85,
    0xb454e4a179dd1877, 0x865b86925b9bc5c2, 0xc83553c5c8965d3d, 0x952ab45cfa97a0b3,
    0xde469fbd99a05fe3, 0xa59bc234db398c25, 0xf6c69a72a3989f5c, 0xb7dcbf5354e9bece,
    0x88fcf317f22241e2, 0xcc20ce9bd35c78a5, 0x98165af37b2153df, 0xe2a0b5dc971f303a,
    0xa8d9d1535ce3b396, 0xfb9b7cd9a4a7443c, 0xbb764c4ca7a44410, 0x8bab8eefb6409c1a,
    0xd01fef10a657842c, 0x9b10a4e5e9913129, 0xe7109bfba19c0c9d, 0xac2820d9623bf429,
    0x80444b5e7aa7cf85, 0xbf21e44003acdd2d, 0x8e679c2f5e44ff8f, 0xd433179d9c8cb841,
    0x9e19db92b4e31ba9, 0xeb96bf6ebadf77d9, 0xaf87023b9bf0ee6b ]

def kCachedPowersE : List Int :=
  [ -1220, -1193, -1166, -1140, -1113, -1087, -1060, -1034, -1007, -980,
    -954, -927, -901, -874, -847, -821, -794, -768, -741, -715,
    -688, -661, -635, -608, -582, -555, -529, -502, -475, -449,
    -422, -396, -369, -343, -316, -289, -263, -236, -210, -183,
    -157, -130, -103, -77, -50, -24, 3, 30, 56, 83,
    109, 136, 162, 189, 216, 242, 269, 295, 322, 348,
    375, 402, 428, 455, 481, 508, 534, 561, 588, 614,
    641, 667, 694, 720, 747, 774, 800, 827, 853, 880,
    907, 933, 960, 986, 1013, 1039, 1066 ]

/-- From the least one, the powers of ten go up by eight. -/
def getCachedPowerByIndex (index : Nat) : DiyFp :=
  { f := kCachedPowersF.getD index 0, e := kCachedPowersE.getD index 0 }

end DiyFp

/-- The conversion to an integer, which cuts off the fraction. -/
def Double.truncate (d : Double) : Int :=
  if d.toRat < 0 then -(-d.toRat).floor else d.toRat.floor

namespace DiyFp

/-- A power of ten that takes the exponent near zero, and its exponent negated. -/
def getCachedPower (e : Int) : DiyFp × Int :=
  let log := Double.ofRat (30102999566398114 / 10 ^ 17) false
  let dk := ((Double.ofInt (-61 - e)).mul log).add (Double.ofInt 347)
  let k := dk.truncate
  let k := if (Double.zero false).lt (dk.sub (Double.ofInt k)) then k + 1 else k
  let index := (k / 8 + 1).toNat
  (getCachedPowerByIndex index, -(-348 + (index * 8 : Nat)))

end DiyFp

end Uskit
