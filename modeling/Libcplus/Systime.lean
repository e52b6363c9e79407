import Mathlib.Algebra.Group.Nat.Defs
import Mathlib.Algebra.Group.Int.Defs

-- The ticks of systime.c: milliseconds of the monotonic clock in a uint32_t.
namespace Libcplus.Systime

def UINT32_MAX : UInt32 := 0xFFFFFFFF

-- The tick of a time that does not wrap.
def tick (msec : Int) : UInt32 := .ofNat (msec % 2^32).toNat

def cplus_systime_diff_tick (early_msec late_msec : UInt32) : UInt32 :=
  if 0 ≠ early_msec then
    if late_msec < early_msec then UINT32_MAX - early_msec + late_msec + 1 else late_msec - early_msec
  else late_msec

-- `now` is what cplus_systime_get_tick answers.
def cplus_systime_elapsed_tick (msec now : UInt32) : UInt32 := cplus_systime_diff_tick msec now

def cplus_systime_compare_tick (msec1 msec2 : UInt32) : Int :=
  if msec1 = msec2 then 0
  else if msec1 > msec2 then
    if msec1 - msec2 < UINT32_MAX / 2 then 1 else -1
  else if msec2 - msec1 < UINT32_MAX / 2 then -1 else 1

variable {a b : Int} {early late : UInt32}

theorem tick_toNat (msec : Int) : ((tick msec).toNat : Int) = msec % 2^32 := by
  have small : (msec % 2^32).toNat < 2^32 := by omega
  rw [tick,UInt32.toNat_ofNat_of_lt' small]
  omega

-- The cases of the difference are those of one subtraction that wraps.
theorem diff_tick_sub (early late : UInt32) : cplus_systime_diff_tick early late = late - early := by
  have early_small := early.toNat_lt
  have late_small := late.toNat_lt
  unfold cplus_systime_diff_tick
  split
  · split
    · rename_i wrapped
      rw [UInt32.lt_iff_toNat_lt] at wrapped
      apply UInt32.toNat.inj
      simp only [UINT32_MAX,UInt32.toNat_add,UInt32.toNat_sub,UInt32.toNat_ofNat]
      omega
    · rfl
  · rename_i zero
    rw [← Decidable.not_not.mp zero,UInt32.sub_zero]

theorem diff_tick_exact (later : 0 ≤ b - a) (once : b - a < 2^32) :
    ((cplus_systime_diff_tick (tick a) (tick b)).toNat : Int) = b - a := by
  have early := tick_toNat a
  have late := tick_toNat b
  have small := (tick a).toNat_lt
  rw [diff_tick_sub,UInt32.toNat_sub]
  omega

-- The comparison of two ticks, as numbers.
theorem compare_tick_toNat (msec1 msec2 : UInt32) : cplus_systime_compare_tick msec1 msec2 =
    if msec1.toNat = msec2.toNat then 0
    else if msec2.toNat < msec1.toNat then
      if msec1.toNat - msec2.toNat < 2^31 - 1 then 1 else -1
    else if msec2.toNat - msec1.toNat < 2^31 - 1 then -1 else 1 := by
  have half : UINT32_MAX / 2 = 2147483647 := by decide
  unfold cplus_systime_compare_tick
  rw [half]
  by_cases same : msec1 = msec2
  · rw [if_pos same,if_pos (congrArg UInt32.toNat same)]
  · rw [if_neg same,if_neg fun equal => same (UInt32.toNat.inj equal)]
    by_cases greater : msec2.toNat < msec1.toNat
    · have difference := UInt32.toNat_sub_of_le msec1 msec2 (UInt32.le_iff_toNat_le.mpr (Nat.le_of_lt greater))
      rw [if_pos greater,if_pos (UInt32.lt_iff_toNat_lt.mpr greater)]
      simp only [UInt32.lt_iff_toNat_lt,difference]
      rfl
    · have difference := UInt32.toNat_sub_of_le msec2 msec1 (UInt32.le_iff_toNat_le.mpr (Nat.le_of_not_lt greater))
      rw [if_neg greater,if_neg fun more => greater (UInt32.lt_iff_toNat_lt.mp more)]
      simp only [UInt32.lt_iff_toNat_lt,difference]
      rfl

-- Just under half the range apart, and the tick has not wrapped in between.
def AtHalf (a b : Int) : Prop := (a - b).natAbs = 2^31 - 1 ∧ a / 2^32 = b / 2^32

theorem compare_tick_exact (near : (a - b).natAbs < 2^31) :
    cplus_systime_compare_tick (tick a) (tick b) = (a - b).sign ↔ ¬ AtHalf a b := by
  have first := tick_toNat a
  have second := tick_toNat b
  rw [compare_tick_toNat,AtHalf]
  rcases Int.lt_trichotomy a b with before | rfl | after
  · rw [Int.sign_eq_neg_one_of_neg (by omega),if_neg (by omega)]
    split
    · split <;> omega
    · split <;> omega
  · simp
  · rw [Int.sign_eq_one_of_pos (by omega),if_neg (by omega)]
    split
    · split <;> omega
    · split <;> omega

-- The two functions give the distance and the order of the times, unless these are just under half the range apart.
theorem ticks_exact (a b : Int) :
    ((0 ≤ b - a → b - a < 2^32 → ((cplus_systime_diff_tick (tick a) (tick b)).toNat : Int) = b - a) ∧
      ((a - b).natAbs < 2^31 → cplus_systime_compare_tick (tick a) (tick b) = (a - b).sign)) ↔ ¬ AtHalf a b := by
  constructor
  · intro ⟨_,ordered⟩ half
    have near : (a - b).natAbs < 2^31 := by
      rw [half.1]
      decide
    exact (compare_tick_exact near).mp (ordered near) half
  · intro free
    refine ⟨diff_tick_exact,fun near => ?_⟩
    exact (compare_tick_exact near).mpr free

theorem ticks_disagree :
    ¬ ∀ a b : Int, (0 ≤ b - a → b - a < 2^32 → ((cplus_systime_diff_tick (tick a) (tick b)).toNat : Int) = b - a) ∧
      ((a - b).natAbs < 2^31 → cplus_systime_compare_tick (tick a) (tick b) = (a - b).sign) := by
  intro every
  have ordered := (every 2147483647 0).2 (by decide)
  revert ordered
  decide

end Libcplus.Systime
