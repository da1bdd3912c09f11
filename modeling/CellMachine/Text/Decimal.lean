/-!
Decimal text of binary floating point numbers.

A finite number is written with the fewest digits that read back as it; of two such decimals the
nearer, and of two equally near ones the greater. All comparisons are between natural numbers: every
finite number, and every midpoint between neighbours, is a whole multiple of 10 ^ -1100.
-/

namespace CellMachine.Text

/-- A number of the form `digits * 10 ^ exponent`. -/
structure Decimal where
  digits : Nat
  exponent : Int
  deriving Repr, DecidableEq, Inhabited

def unitPlaces : Nat := 1100

/-- A positive number `mantissa * 2 ^ (power - 1074)` as found in the bits of a finite number. -/
structure Binary where
  mantissa : Nat
  power : Nat
  deriving Repr, DecidableEq

/-- The leading bit of a mantissa, which the bits of a number leave out unless it is too small. -/
def hiddenBit : Nat := 0x10000000000000

def signBit : Nat := 0x8000000000000000

def Binary.ofBits (bits : UInt64) : Binary :=
  let fraction := bits.toNat % hiddenBit
  let biased := bits.toNat / hiddenBit % 2048
  if biased = 0 then ⟨fraction, 0⟩ else ⟨hiddenBit + fraction, biased - 1⟩

namespace Binary

/-- A quarter of the distance to the next greater number, in units of 10 ^ -1100. -/
def quarter (b : Binary) : Nat := Nat.pow 2 (b.power + 24) * Nat.pow 5 unitPlaces

/-- The number itself, in units of 10 ^ -1100. -/
def units (b : Binary) : Nat := 4 * b.mantissa * b.quarter

/-- The least value, in units of 10 ^ -1100, that may round to the number. -/
def lower (b : Binary) : Nat :=
  b.units - (if b.mantissa = hiddenBit ∧ b.power ≠ 0 then 1 else 2) * b.quarter

/-- The greatest value, in units of 10 ^ -1100, that may round to the number. -/
def upper (b : Binary) : Nat := b.units + 2 * b.quarter

/-- Whether a value in units of 10 ^ -1100 reads back as the number: it lies between the midpoints
to the neighbours, or on one of them when the mantissa is even. -/
def readsBack (b : Binary) (x : Nat) : Bool :=
  (b.lower < x && x < b.upper) || (b.mantissa % 2 == 0 && (x == b.lower || x == b.upper))

/-- The multiple of `grid` that is nearest to the number among those two around it that read back. -/
def nearest? (b : Binary) (grid : Nat) : Option Nat :=
  let below := b.units / grid
  let above := below + 1
  match b.readsBack (below * grid), b.readsBack (above * grid) with
  | true, true => some (if b.units - below * grid < above * grid - b.units then below else above)
  | true, false => some below
  | false, true => some above
  | false, false => none

/-- Moves trailing zeros into the exponent, at most `fuel` of them. -/
def dropZeros : Nat → Nat → Int → Decimal
  | 0, d, e => ⟨d, e⟩
  | fuel + 1, d, e => if d ≠ 0 ∧ d % 10 = 0 then dropZeros fuel (d / 10) (e + 1) else ⟨d, e⟩

def shortest (b : Binary) : Decimal :=
  let leading := (Nat.toDigits 10 b.units).length - 1
  let found := (List.range 17).findSome? fun i =>
    (b.nearest? (Nat.pow 10 (leading - i))).map fun d => (d, leading - i)
  match found with
  | some (d, place) => dropZeros 20 d ((place : Int) - unitPlaces)
  | none => dropZeros 2000 b.units (-(unitPlaces : Int))

end Binary

/-- The decisions left open by the digits of a number. -/
structure NumberFormat where
  /-- Which powers of ten of the leading digit are written without an exponent. -/
  isPlain : Int → Bool
  /-- Whether a whole number is written with `.0`. -/
  pointZero : Bool

namespace NumberFormat

def zeros (n : Nat) : List Char := List.replicate n '0'

def plain (f : NumberFormat) (ds : List Char) (exponent : Int) : List Char :=
  match exponent with
  | .ofNat e => ds ++ zeros e ++ (if f.pointZero then ['.', '0'] else [])
  | .negSucc e =>
    let places := e + 1
    if places < ds.length then ds.take (ds.length - places) ++ '.' :: ds.drop (ds.length - places)
    else '0' :: '.' :: zeros (places - ds.length) ++ ds

/-- One digit, the point, the other digits, and the power of ten. -/
def scientific (ds : List Char) (power : Int) : List Char :=
  let head := match ds with
    | [] => []
    | [d] => [d]
    | d :: rest => d :: '.' :: rest
  head ++ 'e' :: (toString power).toList

def decimal (f : NumberFormat) (d : Decimal) : List Char :=
  let ds := Nat.toDigits 10 d.digits
  let power := d.exponent + ((ds.length - 1 : Nat) : Int)
  if f.isPlain power then f.plain ds d.exponent else scientific ds power

def render (f : NumberFormat) (x : Float) : String :=
  let bits := x.toBits
  let negative := signBit ≤ bits.toNat
  if bits.toNat % signBit > 0x7ff0000000000000 then "NaN"
  else
    let magnitude :=
      if bits.toNat % signBit = 0x7ff0000000000000 then ['i', 'n', 'f']
      else if bits.toNat % signBit = 0 then f.plain ['0'] 0
      else f.decimal (Binary.ofBits bits).shortest
    String.ofList (if negative then '-' :: magnitude else magnitude)

end NumberFormat

end CellMachine.Text
