import Mathlib.Algebra.Group.Nat.Defs
import PapyrusBackend.Container.Bytes

namespace PapyrusBackend.Container

theorem length_digits (width n : Nat) : (digits width n).length = width := by
  induction width generalizing n with
  | zero => rfl
  | succ width ih => simp [digits, ih]

theorem value_digits (width n : Nat) : value (digits width n) = n % 256 ^ width := by
  induction width generalizing n with
  | zero => simp [digits, value, Nat.mod_one]
  | succ width ih =>
    have h : (UInt8.ofNat n).toNat = n % 256 := by simp
    rw [digits, value, ih, h, Nat.pow_succ, Nat.mul_comm (256 ^ width) 256, Nat.mod_mul]

theorem digits_value (bytes : List UInt8) : digits bytes.length (value bytes) = bytes := by
  induction bytes with
  | nil => rfl
  | cons b rest ih =>
    have hhead : UInt8.ofNat (b.toNat + 256 * value rest) = b := by
      apply UInt8.toNat_inj.mp
      have hb : b.toNat < 256 := b.toNat_lt
      rw [UInt8.toNat_ofNat']
      omega
    have htail : (b.toNat + 256 * value rest) / 256 = value rest := by
      have hb : b.toNat < 256 := b.toNat_lt
      omega
    rw [List.length_cons, value, digits, hhead, htail, ih]

theorem value_lt (bytes : List UInt8) : value bytes < 256 ^ bytes.length := by
  induction bytes with
  | nil => decide
  | cons b rest ih =>
    have hb : b.toNat < 256 := b.toNat_lt
    rw [value, List.length_cons, Nat.pow_succ]
    omega

theorem length_toBytes (order : ByteOrder) (width n : Nat) :
    (toBytes order width n).length = width := by
  cases order <;> simp [toBytes, length_digits]

theorem ofBytes_toBytes (order : ByteOrder) (width n : Nat) :
    ofBytes order (toBytes order width n) = n % 256 ^ width := by
  cases order <;> simp [toBytes, ofBytes, value_digits]

theorem ofBytes_lt (order : ByteOrder) {bytes : List UInt8} {width : Nat}
    (h : bytes.length = width) : ofBytes order bytes < 256 ^ width := by
  subst h
  cases order with
  | big =>
    have hv := value_lt bytes.reverse
    rwa [List.length_reverse] at hv
  | little => exact value_lt bytes

theorem toBytes_ofBytes (order : ByteOrder) {bytes : List UInt8} {width : Nat}
    (h : bytes.length = width) : toBytes order width (ofBytes order bytes) = bytes := by
  subst h
  cases order with
  | big =>
    have hd := digits_value bytes.reverse
    rw [List.length_reverse] at hd
    simp only [toBytes, ofBytes, hd, List.reverse_reverse]
  | little => exact digits_value bytes

end PapyrusBackend.Container
