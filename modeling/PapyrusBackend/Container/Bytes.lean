import PapyrusBackend.Generation

namespace PapyrusBackend.Container

def digits : Nat → Nat → List UInt8
  | 0, _ => []
  | width + 1, n => UInt8.ofNat n :: digits width (n / 256)

def value : List UInt8 → Nat
  | [] => 0
  | b :: rest => b.toNat + 256 * value rest

def toBytes (order : ByteOrder) (width n : Nat) : List UInt8 :=
  match order with
  | .big => (digits width n).reverse
  | .little => digits width n

def ofBytes (order : ByteOrder) (bytes : List UInt8) : Nat :=
  match order with
  | .big => value bytes.reverse
  | .little => value bytes

end PapyrusBackend.Container
