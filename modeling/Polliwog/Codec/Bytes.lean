import Mathlib.Algebra.Order.Ring.Nat
import Mathlib.Tactic.Common

/-!
# Numbers as bytes
-/

namespace Codec

/-- Little endian, truncated to `width` bytes. -/
def littleEndian : (width : Nat) → Nat → List UInt8
  | 0, _ => []
  | width + 1, n => UInt8.ofNat n :: littleEndian width (n / 256)

def readLittleEndian : List UInt8 → Nat
  | [] => 0
  | b :: bs => b.toNat + 256 * readLittleEndian bs

@[simp] theorem length_littleEndian (width n : Nat) :
    (littleEndian width n).length = width := by
  induction width generalizing n with
  | zero => rfl
  | succ width ih => simp [littleEndian, ih]

theorem readLittleEndian_littleEndian {width n : Nat} (fits : n < 256 ^ width) :
    readLittleEndian (littleEndian width n) = n := by
  induction width generalizing n with
  | zero =>
      simp only [Nat.pow_zero] at fits
      simp only [littleEndian, readLittleEndian]
      omega
  | succ width ih =>
      have less : n / 256 < 256 ^ width := by
        rw [Nat.div_lt_iff_lt_mul (by decide)]
        simpa [Nat.pow_succ] using fits
      simp only [littleEndian, readLittleEndian, ih less, UInt8.toNat_ofNat']
      omega

end Codec
