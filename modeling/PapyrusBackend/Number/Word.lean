namespace PapyrusBackend.Number

structure Layout where
  fraction : Nat
  exponent : Nat

def Layout.single : Layout := ⟨23, 8⟩

def Layout.double : Layout := ⟨52, 11⟩

inductive Magnitude where
  | nan (payload : Nat)
  | infinite
  | finite (significand : Nat) (scale : Int)
  deriving DecidableEq

namespace Layout

def least (l : Layout) : Int := 2 - Int.pow 2 (l.exponent - 1) - l.fraction

def infinity (l : Layout) : Nat := (.pow 2 l.exponent - 1) * .pow 2 l.fraction

def sign (l : Layout) : Nat := .pow 2 (l.fraction + l.exponent)

def magnitude (l : Layout) (bits : Nat) : Magnitude :=
  let exponent := bits / .pow 2 l.fraction
  let fraction := bits % .pow 2 l.fraction
  if exponent = .pow 2 l.exponent - 1 then
    if fraction = 0 then .infinite else .nan fraction
  else if exponent = 0 then .finite fraction l.least
  else .finite (.pow 2 l.fraction + fraction) (l.least + (exponent - 1))

end Layout

/-- The integer closest to `n / d`; a half goes to the even neighbour. -/
def roundDiv (n d : Nat) : Nat :=
  let q := n / d
  let r := n % d
  if 2 * r < d then q else if d < 2 * r then q + 1 else q + q % 2

def shifted (n d : Nat) (k : Int) : Nat × Nat :=
  if 0 ≤ k then (n * .pow 2 k.toNat, d) else (n, d * .pow 2 (-k).toNat)

def floorLog (n d : Nat) : Int :=
  let e : Int := n.log2 - d.log2
  let (n, d) := shifted n d (-e)
  if n < d then e - 1 else e

/-- The magnitude field of the word closest to `n / d`. -/
def Layout.nearest (l : Layout) (n d : Nat) : Nat :=
  if n = 0 then 0
  else
    let scale := max (floorLog n d - l.fraction) l.least
    let (n, d) := shifted n d (-scale)
    min l.infinity ((scale - l.least).toNat * .pow 2 l.fraction + roundDiv n d)

end PapyrusBackend.Number
