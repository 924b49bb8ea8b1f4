import PapyrusBackend.Number.Word

namespace PapyrusBackend

open Number

structure Single where
  bits : UInt32
  deriving DecidableEq, Inhabited

structure Double where
  bits : UInt64
  deriving DecidableEq, Inhabited

namespace Single

def negative (x : Single) : Bool := Layout.single.sign ≤ x.bits.toNat

def field (x : Single) : Nat := x.bits.toNat % Layout.single.sign

def magnitude (x : Single) : Magnitude := Layout.single.magnitude x.field

def ofField (negative : Bool) (field : Nat) : Single :=
  ⟨UInt32.ofNat (if negative then Layout.single.sign + field else field)⟩

def isNaN (x : Single) : Bool := Layout.single.infinity < x.field

def isZero (x : Single) : Bool := x.field = 0

/-- Equality of numbers: the two zeros agree, and nothing equals a NaN. -/
protected def beq (x y : Single) : Bool :=
  !x.isNaN && !y.isNaN && ((x.isZero && y.isZero) || x.bits == y.bits)

instance : BEq Single := ⟨Single.beq⟩

def ofInt (i : Int) : Single := ofField (i < 0) (Layout.single.nearest i.natAbs 1)

/-- The integer part, held within 32 bits; a NaN gives zero. -/
def toInt32 (x : Single) : Int32 :=
  match x.magnitude with
  | .nan _ => 0
  | .infinite => if x.negative then Int32.minValue else Int32.maxValue
  | .finite significand scale =>
    let (n, d) := shifted significand 1 scale
    let i : Int := n / d
    let i := if x.negative then -i else i
    Int32.ofInt (max Int32.minValue.toInt (min Int32.maxValue.toInt i))

def zero : Single := ⟨0⟩

def one : Single := ofInt 1

end Single

/-- Carries the magnitude of a word into another layout. A NaN keeps the leading bits of its payload
and becomes quiet. -/
def Number.Layout.convert (source target : Layout) (field : Nat) : Nat :=
  match source.magnitude field with
  | .infinite => target.infinity
  | .nan payload =>
    let kept := payload * .pow 2 target.fraction / .pow 2 source.fraction
    let quiet := Nat.pow 2 (target.fraction - 1)
    target.infinity + quiet + kept % quiet
  | .finite significand scale =>
    let (n, d) := shifted significand 1 scale
    target.nearest n d

def Double.toSingle (x : Double) : Single :=
  let bits := x.bits.toNat
  let sign := Layout.double.sign
  .ofField (sign ≤ bits) (Layout.double.convert .single (bits % sign))

def Single.toDouble (x : Single) : Double :=
  let field := Layout.single.convert .double x.field
  ⟨UInt64.ofNat (if x.negative then Layout.double.sign + field else field)⟩

end PapyrusBackend
