import Dianemo.JsNumber

namespace Dianemo

/-- The UTF-16 code units of one Unicode scalar. -/
def charUnits (c : Char) : List UInt16 :=
  if c.toNat < 0x10000 then [UInt16.ofNat c.toNat]
  else [UInt16.ofNat (0xd800 + (c.toNat - 0x10000) / 0x400),
    UInt16.ofNat (0xdc00 + (c.toNat - 0x10000) % 0x400)]

/-- A string as JavaScript holds it. -/
def utf16 (s : String) : List UInt16 := s.toList.flatMap charUnits

def isHighSurrogate (x : UInt16) : Bool := 0xd800 ≤ x && x ≤ 0xdbff

def isLowSurrogate (x : UInt16) : Bool := 0xdc00 ≤ x && x ≤ 0xdfff

def isSurrogate (x : UInt16) : Bool := 0xd800 ≤ x && x ≤ 0xdfff

/-- The UTF-8 bytes of one code point. -/
def encodePoint (n : Nat) : List UInt8 :=
  if n < 0x80 then [UInt8.ofNat n]
  else if n < 0x800 then [UInt8.ofNat (0xc0 + n / 0x40), UInt8.ofNat (0x80 + n % 0x40)]
  else if n < 0x10000 then
    [UInt8.ofNat (0xe0 + n / 0x1000), UInt8.ofNat (0x80 + n / 0x40 % 0x40), UInt8.ofNat (0x80 + n % 0x40)]
  else
    [UInt8.ofNat (0xf0 + n / 0x40000), UInt8.ofNat (0x80 + n / 0x1000 % 0x40),
      UInt8.ofNat (0x80 + n / 0x40 % 0x40), UInt8.ofNat (0x80 + n % 0x40)]

/-- `TextEncoder.encode`: an unpaired surrogate encodes as U+FFFD. -/
def encode : List UInt16 → List UInt8
  | [] => []
  | [x] => encodePoint (if isSurrogate x then 0xfffd else x.toNat)
  | x :: y :: rest =>
    if isHighSurrogate x && isLowSurrogate y then
      encodePoint (0x10000 + (x.toNat - 0xd800) * 0x400 + (y.toNat - 0xdc00)) ++ encode rest
    else encodePoint (if isSurrogate x then 0xfffd else x.toNat) ++ encode (y :: rest)

def compareEncoded : List UInt8 → List UInt8 → Int
  | x :: xs, y :: ys => if x = y then compareEncoded xs ys else (x.toNat : Int) - y.toNat
  | xs, ys => (xs.length : Int) - ys.length

def compareBytes (a b : List UInt16) : Int := compareEncoded (encode a) (encode b)

/-- The scan of `compareMembers` from the first unit not yet compared; the
whole strings stay at hand for the fallback to bytes. -/
def compareUnits (a b : List UInt16) : List UInt16 → List UInt16 → Int
  | x :: xs, y :: ys =>
    if x = y then compareUnits a b xs ys
    else if isSurrogate x || isSurrogate y then compareBytes a b
    else (x.toNat : Int) - y.toNat
  | xs, ys => (xs.length : Int) - ys.length

def compareMembers (a b : List UInt16) : Int := compareUnits a b a b

end Dianemo
