import PapyrusBackend.Number.Single

namespace PapyrusBackend.Number

structure Decimal where
  digits : Nat
  exponent : Int
  deriving DecidableEq

inductive Tie where
  | up
  | even
  deriving DecidableEq

def overCommon (n d c : Nat) (k : Int) : Nat × Nat :=
  if 0 ≤ k then (n, c * .pow 10 k.toNat * d) else (n * .pow 10 (-k).toNat, c * d)

/-- The greatest `e` with `10 ^ e ≤ n / d`, found by counting down from a bound above it. -/
def floorLogTen (n d : Nat) : Nat → Int → Int
  | 0, e => e
  | steps + 1, e =>
    let (a, b) := overCommon n d 1 e
    if b ≤ a then e else floorLogTen n d steps (e - 1)

/-- The numbers that read back as `n / d`: between `low / d` and `high / d`. -/
structure Interval where
  low : Nat
  high : Nat
  denominator : Nat
  closed : Bool

def Interval.contains (i : Interval) (c : Nat) (k : Int) : Bool :=
  let (low, mid) := overCommon i.low i.denominator c k
  let (high, mid') := overCommon i.high i.denominator c k
  if i.closed then low ≤ mid && mid' ≤ high else low < mid && mid' < high

/-- The better of the two neighbours of `n / d` on the grid of step `10 ^ k`, if one is inside. -/
def Interval.neighbour (i : Interval) (tie : Tie) (n : Nat) (k : Int) : Option Nat :=
  let (a, b) := overCommon n i.denominator 1 k
  let below := a / b
  let twice := 2 * (a % b)
  match i.contains below k, i.contains (below + 1) k with
  | false, false => none
  | true, false => some below
  | false, true => some (below + 1)
  | true, true =>
    if twice < b then some below
    else if b < twice then some (below + 1)
    else match tie with
      | .up => some (below + 1)
      | .even => some (below + below % 2)

def Interval.search (i : Interval) (tie : Tie) (n : Nat) : Nat → Int → Decimal
  | 0, k => ⟨n / i.denominator, k⟩
  | steps + 1, k =>
    match i.neighbour tie n k with
    | some c => ⟨c, k⟩
    | none => i.search tie n steps (k - 1)

def Decimal.strip : Nat → Decimal → Decimal
  | 0, x => x
  | steps + 1, x =>
    if x.digits ≠ 0 && x.digits % 10 = 0 then strip steps ⟨x.digits / 10, x.exponent + 1⟩ else x

/-- The fewest digits for a positive magnitude of the 32-bit layout. Nine always suffice. -/
def shortest (tie : Tie) (significand : Nat) (scale : Int) : Decimal :=
  let below := if significand = .pow 2 Layout.single.fraction then 1 else 2
  let (n, d) := shifted (4 * significand) 4 scale
  let unit := n / (4 * significand)
  let interval : Interval := ⟨n - below * unit, n + 2 * unit, d, significand % 2 = 0⟩
  let e := floorLogTen n d 100 45
  (interval.search tie n 10 e).strip 10

structure Style where
  /-- the exponents of the leading digit that are written without a power of ten -/
  positional : Int → Bool
  fraction : Bool
  plus : Bool
  tie : Tie
  nan : String
  infinite : String
  negativeInfinite : String

def zeros (n : Nat) : String := String.ofList (List.replicate n '0')

def positionalText (fraction : Bool) (x : Decimal) : String :=
  let digits := Nat.toDigits 10 x.digits
  let whole := digits.length + x.exponent
  if 0 ≤ x.exponent then
    String.ofList digits ++ zeros x.exponent.toNat ++ (if fraction then ".0" else "")
  else if 0 < whole then
    String.ofList (digits.take whole.toNat) ++ "." ++ String.ofList (digits.drop whole.toNat)
  else "0." ++ zeros (-whole).toNat ++ String.ofList digits

def scientificText (plus : Bool) (x : Decimal) : String :=
  let digits := Nat.toDigits 10 x.digits
  let exponent := digits.length - 1 + x.exponent
  let mantissa := match digits with
    | [] => ""
    | [c] => c.toString
    | c :: rest => c.toString ++ "." ++ String.ofList rest
  mantissa ++ "e" ++ (if plus && 0 ≤ exponent then "+" else "") ++ toString exponent

def Style.render (style : Style) (x : Single) : String :=
  match x.magnitude with
  | .nan _ => style.nan
  | .infinite => if x.negative then style.negativeInfinite else style.infinite
  | .finite significand scale =>
    let text :=
      if significand = 0 then positionalText style.fraction ⟨0, 0⟩
      else
        let decimal := shortest style.tie significand scale
        let leading : Int := (Nat.toDigits 10 decimal.digits).length - 1 + decimal.exponent
        if style.positional leading then positionalText style.fraction decimal
        else scientificText style.plus decimal
    if x.negative then "-" ++ text else text

end PapyrusBackend.Number
