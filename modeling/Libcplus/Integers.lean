import Mathlib.Algebra.Group.Nat.Defs

-- Fixed-width integers: their bits, and the number that the bits stand for.
namespace Integers
variable {signed : Bool} {w n : Nat} {bits : BitVec w} {v : Int}

def read (signed : Bool) (bits : BitVec w) : Int := if signed then bits.toInt else bits.toNat

-- The numbers that a type of this width can represent.
def Holds (signed : Bool) (w : Nat) (v : Int) : Prop :=
  if signed then -(2^(w - 1) : Nat) ≤ v ∧ v < (2^(w - 1) : Nat) else 0 ≤ v ∧ v < (2^w : Nat)

instance (signed : Bool) (w : Nat) (v : Int) : Decidable (Holds signed w v) := by
  unfold Holds; infer_instance

theorem read_ofInt (positive : 0 < w) (fits : Holds signed w v) : read signed (BitVec.ofInt w v) = v := by
  cases signed with
  | false =>
      obtain ⟨lower,upper⟩ := fits
      have small : v % (2^w : Nat) = v := Int.emod_eq_of_lt lower upper
      simp only [read,Bool.false_eq_true,↓reduceIte,BitVec.toNat_ofInt,small]
      omega
  | true =>
      obtain ⟨lower,upper⟩ := fits
      refine BitVec.toInt_ofInt_eq_self positive ?_ ?_
      · simpa using lower
      · simpa using upper

theorem ofInt_read : BitVec.ofInt w (read signed bits) = bits := by
  cases signed with
  | false => simp [read]
  | true => simp [read]

theorem read_holds : Holds signed w (read signed bits) := by
  cases signed with
  | false => exact ⟨Int.natCast_nonneg _,Int.ofNat_lt.mpr bits.isLt⟩
  | true => exact ⟨by simpa [read] using bits.le_toInt,by simpa [read] using bits.toInt_lt⟩

-- Narrowing keeps the low bits, whatever the wider type was read as.
theorem ofInt_narrow (narrow : w ≤ n) :
    BitVec.ofInt w (read signed (BitVec.ofInt n v)) = BitVec.ofInt w v := by
  have divides : ((2^w : Nat) : Int) ∣ (2^n : Nat) := Int.ofNat_dvd.mpr (Nat.pow_dvd_pow 2 narrow)
  have low : read signed (BitVec.ofInt n v) % (2^n : Nat) = v % (2^n : Nat) := by
    cases signed with
    | false =>
        have nonneg : 0 ≤ v % (2^n : Nat) := Int.emod_nonneg _ (Int.ofNat_ne_zero.mpr (Nat.ne_of_gt (Nat.two_pow_pos n)))
        simp only [read,Bool.false_eq_true,↓reduceIte,BitVec.toNat_ofInt,Int.toNat_of_nonneg nonneg,
          Int.emod_emod]
    | true => simp only [read,↓reduceIte,BitVec.toInt_ofInt,Int.bmod_emod]
  apply BitVec.eq_of_toNat_eq
  rw [BitVec.toNat_ofInt,BitVec.toNat_ofInt,← Int.emod_emod_of_dvd _ divides,low,
    Int.emod_emod_of_dvd _ divides]

end Integers
