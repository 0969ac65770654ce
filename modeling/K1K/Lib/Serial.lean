import Mathlib

/-!
# Serial numbers

The 32-bit numbers that stand for positions in a stream. They tell positions apart that are less
than 2³² away from each other, and their order if it is at most half of that.
-/

namespace K1K.Lib

def serial (base : BitVec 32) (position : Nat) : BitVec 32 := base + BitVec.ofNat 32 position

variable {base : BitVec 32} {a b : Nat}

@[simp]
theorem serial_zero (base : BitVec 32) : serial base 0 = base := by
  simp [serial]

theorem serial_add (base : BitVec 32) (a b : Nat) :
    serial base a + BitVec.ofNat 32 b = serial base (a + b) := by
  rw [serial, serial, BitVec.add_assoc, BitVec.ofNat_add]

theorem serial_injective (aSmall : a < 2 ^ 32) (bSmall : b < 2 ^ 32)
    (eq : serial base a = serial base b) : a = b := by
  simp only [serial] at eq
  bv_omega

theorem serial_sub_base (small : a < 2 ^ 32) : (serial base a - base).toNat = a := by
  simp only [serial]
  bv_omega

theorem serial_behind (less : a < b) (near : b ≤ a + 2 ^ 31) :
    ¬serial base a - serial base b < 0x80000000 := by
  simp only [serial]
  bv_omega

end K1K.Lib
