import Mathlib.Data.List.TakeWhile
import Mathlib.Data.Nat.Digits.Lemmas

-- Decimal numerals as text, the way printf writes and scanf reads them.
namespace Decimal

def digit (d : Nat) : UInt8 := .ofNat (48 + d)

def natural (n : Nat) : List UInt8 := if n = 0 then [digit 0] else (Nat.digits 10 n).reverse.map digit

def print (v : Int) : List UInt8 := if v < 0 then 45 :: natural v.natAbs else natural v.natAbs

def is_digit (c : UInt8) : Bool := 48 ≤ c && c ≤ 57
def is_space (c : UInt8) : Bool := c = 32 || (9 ≤ c && c ≤ 13)

-- The digits in front, if there are any; what follows them is not read.
def scan_natural (text : List UInt8) : Option Nat :=
  let front := text.takeWhile is_digit
  if front = [] then none else some (front.foldl (fun n c => 10 * n + (c.toNat - 48)) 0)

def scan (text : List UInt8) : Option Int :=
  match text.dropWhile is_space with
  | [] => none
  | c :: rest =>
    if c = 45 then (scan_natural rest).map fun n : Nat => -(n : Int)
    else if c = 43 then (scan_natural rest).map Int.ofNat
    else (scan_natural (c :: rest)).map Int.ofNat

theorem digit_toNat {d : Nat} (small : d < 10) : (digit d).toNat = 48 + d := by
  rw [digit,UInt8.toNat_ofNat']
  omega

theorem is_digit_digit {d : Nat} (small : d < 10) : is_digit (digit d) = true := by
  have value := digit_toNat small
  simp only [is_digit,Bool.and_eq_true,decide_eq_true_eq,UInt8.le_iff_toNat_le,value]
  exact ⟨by simp,by simp; omega⟩

-- A numeral is digits of a number below ten each, most significant first.
theorem natural_parts (n : Nat) : ∃ digits : List Nat, natural n = digits.reverse.map digit ∧
    digits ≠ [] ∧ (∀ d ∈ digits, d < 10) ∧ Nat.ofDigits 10 digits = n := by
  by_cases zero : n = 0
  · refine ⟨[0],?_,by simp,by simp,?_⟩
    · rw [natural,if_pos zero]
      rfl
    · rw [zero]
      rfl
  · refine ⟨Nat.digits 10 n,if_neg zero,Nat.digits_ne_nil_iff_ne_zero.mpr zero,?_,Nat.ofDigits_digits 10 n⟩
    exact fun d member => Nat.digits_lt_base (by decide) member

theorem natural_digits (n : Nat) : ∀ c ∈ natural n, is_digit c = true := by
  obtain ⟨digits,same,_,small,_⟩ := natural_parts n
  intro c member
  rw [same] at member
  obtain ⟨d,there,rfl⟩ := List.mem_map.mp member
  exact is_digit_digit (small d (List.mem_reverse.mp there))

theorem foldl_digits {digits : List Nat} (small : ∀ d ∈ digits, d < 10) :
    (digits.reverse.map digit).foldl (fun n c => 10 * n + (c.toNat - 48)) 0 = Nat.ofDigits 10 digits := by
  rw [List.foldl_map,List.foldl_reverse]
  induction digits with
  | nil => rfl
  | cons d rest ih =>
      have value := digit_toNat (small d List.mem_cons_self)
      rw [List.foldr_cons,ih fun e member => small e (List.mem_cons_of_mem _ member),value,Nat.ofDigits_cons]
      omega

theorem scan_natural_natural (n : Nat) : scan_natural (natural n) = some n := by
  obtain ⟨digits,same,some_digit,small,value⟩ := natural_parts n
  have front : (natural n).takeWhile is_digit = natural n :=
    List.takeWhile_eq_self_iff.mpr (natural_digits n)
  have nonempty : natural n ≠ [] := by simpa [same] using some_digit
  simp only [scan_natural,front,if_neg nonempty]
  rw [same,foldl_digits small,value]

theorem natural_cons (n : Nat) : ∃ c rest, natural n = c :: rest ∧ is_digit c = true := by
  obtain ⟨digits,same,some_digit,_,_⟩ := natural_parts n
  have nonempty : natural n ≠ [] := by simpa [same] using some_digit
  obtain ⟨c,rest,split⟩ := List.exists_cons_of_ne_nil nonempty
  exact ⟨c,rest,split,natural_digits n c (by rw [split]; exact List.mem_cons_self)⟩

theorem digit_plain {c : UInt8} (is : is_digit c = true) : is_space c = false ∧ c ≠ 45 ∧ c ≠ 43 := by
  simp only [is_digit,Bool.and_eq_true,decide_eq_true_eq,UInt8.le_iff_toNat_le] at is
  have lower : 48 ≤ c.toNat := is.1
  refine ⟨?_,?_,?_⟩
  · simp only [is_space,Bool.or_eq_false_iff,Bool.and_eq_false_imp,decide_eq_false_iff_not,decide_eq_true_eq,
      UInt8.le_iff_toNat_le]
    refine ⟨?_,fun _ => ?_⟩
    · rintro rfl
      exact absurd lower (by decide)
    · have thirteen : (13 : UInt8).toNat = 13 := rfl
      omega
  · rintro rfl
    exact absurd lower (by decide)
  · rintro rfl
    exact absurd lower (by decide)

-- What was printed is read back.
theorem scan_print (v : Int) : scan (print v) = some v := by
  have read := scan_natural_natural v.natAbs
  rw [print]
  split
  · have minus : (45 :: natural v.natAbs).dropWhile is_space = 45 :: natural v.natAbs := rfl
    have negated : -(v.natAbs : Int) = v := by omega
    simp only [scan,minus,↓reduceIte,read,Option.map_some,negated]
  · obtain ⟨c,rest,split,first⟩ := natural_cons v.natAbs
    obtain ⟨visible,minus,plus⟩ := digit_plain first
    rw [split] at read ⊢
    simp only [scan,List.dropWhile_cons,visible,Bool.false_eq_true,↓reduceIte,minus,plus,read,
      Option.map_some,Option.some.injEq,Int.ofNat_eq_natCast]
    omega

theorem natural_length {n k : Nat} (small : n < 10^k) (positive : 0 < k) : (natural n).length ≤ k := by
  rw [natural]
  split
  · exact positive
  · rw [List.length_map,List.length_reverse]
    exact (Nat.digits_length_le_iff (by decide) n).mpr small

theorem print_length {v : Int} {k : Nat} (small : v.natAbs < 10^k) (positive : 0 < k) : (print v).length ≤ k + 1 := by
  have length := natural_length small positive
  rw [print]
  split
  · rw [List.length_cons]
    omega
  · omega

theorem natural_nonzero (n : Nat) : ∀ c ∈ natural n, c ≠ 0 := by
  intro c member
  have is := natural_digits n c member
  rintro rfl
  exact absurd is (by decide)

theorem print_nonzero (v : Int) : ∀ c ∈ print v, c ≠ 0 := by
  intro c member
  rw [print] at member
  split at member
  · rcases List.mem_cons.mp member with rfl | later
    · decide
    · exact natural_nonzero _ c later
  · exact natural_nonzero _ c member

end Decimal
