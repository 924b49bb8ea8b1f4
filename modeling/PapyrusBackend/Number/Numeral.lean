import PapyrusBackend.Number.Single
import PapyrusBackend.Text.Blank

namespace PapyrusBackend.Number

def natural? (cs : List Char) : Option Nat :=
  if cs.isEmpty || !cs.all Char.isDigit then none
  else some (cs.foldl (fun n c => 10 * n + (c.toNat - '0'.toNat)) 0)

def integer? : List Char → Option Int
  | '-' :: cs => (natural? cs).map fun n => -(n : Int)
  | '+' :: cs => (natural? cs).map fun n => (n : Int)
  | cs => (natural? cs).map fun n => (n : Int)

def readInt32? (s : String) : Option Int32 :=
  match integer? (Text.trimmed s) with
  | some i =>
    if Int32.minValue.toInt ≤ i ∧ i ≤ Int32.maxValue.toInt then some (Int32.ofInt i) else none
  | none => none

def significantDigits (cs : List Char) : Nat := (cs.dropWhile fun c => c = '0').length

/-- The magnitude field closest to `n * 10 ^ exponent`, where `n` has `width` significant digits.
Exponents far out of range are decided by their size alone. -/
def decimalField (n width : Nat) (exponent : Int) : Nat :=
  if n = 0 then 0
  else if 60 < exponent + width then Layout.single.infinity
  else if exponent + width < -60 then 0
  else if 0 ≤ exponent then Layout.single.nearest (n * .pow 10 exponent.toNat) 1
  else Layout.single.nearest n (.pow 10 (-exponent).toNat)

def decimalField? (cs : List Char) : Option Nat :=
  let whole := cs.takeWhile Char.isDigit
  let rest := cs.dropWhile Char.isDigit
  let (fraction, rest) := match rest with
    | '.' :: rest => (rest.takeWhile Char.isDigit, rest.dropWhile Char.isDigit)
    | rest => ([], rest)
  let digits := whole ++ fraction
  let field (n : Nat) (exponent : Int) : Nat :=
    decimalField n (significantDigits digits) (exponent - fraction.length)
  match natural? digits, rest with
  | none, _ => none
  | some n, [] => some (field n 0)
  | some n, c :: rest => if c = 'e' ∨ c = 'E' then (integer? rest).map (field n) else none

def specialField? (cs : List Char) : Option Nat :=
  let word := String.ofList (cs.map Char.toLower)
  if word == "nan" then some (Layout.single.infinity + .pow 2 22)
  else if word == "inf" || word == "infinity" then some Layout.single.infinity
  else none

def unsigned? (cs : List Char) : Option Nat :=
  (decimalField? cs).or (specialField? cs)

/-- The 32-bit number closest to the decimal that a text spells, blanks around it apart. -/
def readSingle? (s : String) : Option Single :=
  match Text.trimmed s with
  | '-' :: cs => (unsigned? cs).map (Single.ofField true)
  | '+' :: cs => (unsigned? cs).map (Single.ofField false)
  | cs => (unsigned? cs).map (Single.ofField false)

end PapyrusBackend.Number
