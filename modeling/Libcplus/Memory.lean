import Libcplus.Bytes
import Mathlib.Data.List.TakeWhile

namespace Libcplus.Memory
open Bytes

-- The build without __CPLUS_MEM_MANAGER__: cplus_malloc and cplus_realloc are
-- the system's, and a memory operation checks its arguments and nothing else.
def RSIZE_MAX_MEM : Nat := 256 * 2^20

-- The allocator's answer to one call: NULL, or a block with whatever bytes it holds.
abbrev Outcome := Option (Nat → UInt8)

def cplus_malloc (outcome : Outcome) (size : Nat) : Option (List UInt8) :=
  outcome.map fun garbage => (List.range size).map garbage

-- A realloc that fails has released the old block.
def cplus_realloc (outcome : Outcome) (old : List UInt8) (size : Nat) : Option (List UInt8) :=
  outcome.map fun garbage => old.take size ++ ((List.range size).drop old.length).map garbage

-- The result is whether the call returned a non-NULL pointer, and the
-- destination block after it; `none` is an access outside one of the blocks.
def cplus_mem_cpy_ex (dest : Option (List UInt8)) (start destsz : Nat)
    (src : Option (List UInt8)) (first count : Nat) : Option (Bool × Option (List UInt8)) :=
  match dest,src with
  | some block,some source =>
    if destsz = 0 ∨ destsz > RSIZE_MAX_MEM ∨ count = 0 ∨ count > destsz then some (false,dest)
    else (slice source first count).bind fun bytes =>
      (splice block start bytes).map fun written => (true,some written)
  | _,_ => some (false,dest)

-- The same without the size of the destination, from the start of both blocks.
def cplus_mem_cpy (dest src : Option (List UInt8)) (count : Nat) : Option (Option (List UInt8)) :=
  match dest,src with
  | some block,some source =>
    if count = 0 then some dest
    else (slice source 0 count).bind fun bytes => (splice block 0 bytes).map some
  | _,_ => some dest

-- The text in front of the first NUL. Without one a reader leaves the block.
def c_string (block : List UInt8) : Option (List UInt8) :=
  if 0 ∈ block then some (block.takeWhile (· ≠ 0)) else none

-- vsnprintf of a text: its length, and the destination with as much of it as
-- `size` bytes hold. With a size of zero the destination may be NULL.
def cplus_str_printf (dest : Option (List UInt8)) (size : Nat) (text : List UInt8) :
    Option (Nat × Option (List UInt8)) :=
  if size = 0 then some (text.length,dest)
  else dest.bind fun block => (splice block 0 (text.take (size - 1) ++ [0])).map fun written =>
    (text.length,some written)

def cplus_mem_set (dest : Option (List UInt8)) (value : UInt8) (count : Nat) :
    Option (Bool × Option (List UInt8)) :=
  match dest with
  | none => some (false,none)
  | some block =>
    if count > RSIZE_MAX_MEM ∨ count = 0 then some (false,dest)
    else (splice block 0 (List.replicate count value)).map fun written => (true,some written)

variable {dest src result : Option (List UInt8)} {start destsz first count size : Nat}
  {block source old : List UInt8} {outcome : Outcome} {done : Bool}

-- A buffer that is not there.
theorem no_block {P : List UInt8 → Prop} : ∀ block, (none : Option (List UInt8)) = some block → P block :=
  fun block missing => absurd missing.symm (Option.some_ne_none block)

theorem malloc_length (obtained : cplus_malloc outcome size = some block) :
    block.length = size := by
  cases outcome with
  | none => cases obtained
  | some garbage => cases obtained; simp

-- Only the allocator refuses.
theorem malloc_none_iff : cplus_malloc outcome size = none ↔ outcome = none := Option.map_eq_none_iff

theorem realloc_none_iff : cplus_realloc outcome old size = none ↔ outcome = none := Option.map_eq_none_iff

theorem realloc_length (obtained : cplus_realloc outcome old size = some block) :
    block.length = size := by
  cases outcome with
  | none => cases obtained
  | some garbage => cases obtained; simp; omega

-- A copy whose arguments the checks accept reads and writes whole ranges.
theorem mem_cpy_ex_copies (fits : start + count ≤ block.length)
    (there : first + count ≤ source.length) (positive : 0 < count) (room : count ≤ destsz)
    (small : destsz ≤ RSIZE_MAX_MEM) :
    ∃ written, splice block start ((source.drop first).take count) = some written ∧
      cplus_mem_cpy_ex (some block) start destsz (some source) first count =
        some (true,some written) := by
  have length : ((source.drop first).take count).length = count := by
    rw [List.length_take,List.length_drop]
    omega
  obtain ⟨written,done⟩ : ∃ written, splice block start ((source.drop first).take count) =
      some written := ⟨_,splice_some (by rw [length]; exact fits)⟩
  refine ⟨written,done,?_⟩
  have accepted : ¬ (destsz = 0 ∨ destsz > RSIZE_MAX_MEM ∨ count = 0 ∨ count > destsz) := by omega
  simp [cplus_mem_cpy_ex,accepted,slice_some there,done]

-- One that they refuse, or that has no source, leaves the destination as it was.
theorem mem_cpy_ex_refuses (refused : src = none ∨
      (destsz = 0 ∨ destsz > RSIZE_MAX_MEM ∨ count = 0 ∨ count > destsz)) :
    cplus_mem_cpy_ex (some block) start destsz src first count = some (false,some block) := by
  rcases refused with rfl | refused
  · rfl
  · cases src with
    | none => rfl
    | some source => simp only [cplus_mem_cpy_ex,if_pos refused]

-- What is in a buffer of its declared size after the copy to its start: none is made to
-- a buffer of more than 256 MB.
def copied_out (len : Nat) (block out : List UInt8) : List UInt8 :=
  if len ≤ out.length ∧ out.length ≤ RSIZE_MAX_MEM then block.take len ++ out.drop len else out

theorem mem_cpy_ex_out {out : List UInt8} {len : Nat} (positive : 0 < out.length) (within : len ≤ block.length) : ∃ done,
    cplus_mem_cpy_ex (some out) 0 out.length (some block) 0 len = some (done,some (copied_out len block out)) := by
  by_cases accepted : 0 < len ∧ len ≤ out.length ∧ out.length ≤ RSIZE_MAX_MEM
  · obtain ⟨written,spliced,copied⟩ : ∃ written, splice out 0 ((block.drop 0).take len) = some written ∧
        cplus_mem_cpy_ex (some out) 0 out.length (some block) 0 len = some (true,some written) :=
      mem_cpy_ex_copies (by omega) (by omega) accepted.1 accepted.2.1 accepted.2.2
    have length : (block.take len).length = len := by rw [List.length_take]; omega
    have same := (splice_parts spliced).2
    rw [List.drop_zero,length,Nat.zero_add,List.take_zero,List.nil_append] at same
    rw [copied_out,if_pos accepted.2,← same]
    exact ⟨true,copied⟩
  · refine ⟨false,?_⟩
    have kept : copied_out len block out = out := by
      unfold copied_out
      split
      · obtain rfl : len = 0 := by omega
        rfl
      · rfl
    rw [kept]
    exact mem_cpy_ex_refuses (.inr (by omega))

theorem copied_out_length {out : List UInt8} {len : Nat} (within : len ≤ block.length) : (copied_out len block out).length = out.length := by
  unfold copied_out
  split
  · rw [List.length_append,List.length_take,List.length_drop]
    omega
  · rfl

theorem mem_set_keeps (value : UInt8) (fits : count ≤ block.length) :
    ∃ done written, cplus_mem_set (some block) value count = some (done,some written) ∧
      written.length = block.length := by
  have room : 0 + (List.replicate count value).length ≤ block.length := by simpa using fits
  by_cases refused : count > RSIZE_MAX_MEM ∨ count = 0
  · exact ⟨false,block,by simp [cplus_mem_set,refused],rfl⟩
  · refine ⟨true,_,by simp only [cplus_mem_set,if_neg refused,splice_some room]; rfl,?_⟩
    exact splice_length (splice_some room)

theorem mem_cpy_copies (fits : count ≤ block.length) (there : count ≤ source.length) :
    cplus_mem_cpy (some block) (some source) count = some (some (source.take count ++ block.drop count)) := by
  rcases Nat.eq_zero_or_pos count with rfl | positive
  · rfl
  · have length : (source.take count).length = count := List.length_take_of_le (by omega)
    have read : slice source 0 count = some (source.take count) := slice_some (by omega)
    have written : splice block 0 (source.take count) = some (source.take count ++ block.drop count) := by
      rw [splice_some (by omega),length,Nat.zero_add,List.take_zero,List.nil_append]
    simp only [cplus_mem_cpy,if_neg (Nat.ne_of_gt positive),read,Option.bind_some,written,Option.map_some]

-- One that reads more than there is leaves the source.
theorem mem_cpy_leaves (outside : source.length < count) : cplus_mem_cpy (some block) (some source) count = none := by
  have read : slice source 0 count = none := if_neg (by omega)
  have some_bytes : ¬ count = 0 := by omega
  simp only [cplus_mem_cpy,if_neg some_bytes,read,Option.bind_none]

theorem plain_of_all {text : List UInt8} (plain : text.all (· != 0) = true) : ∀ c ∈ text, c ≠ 0 :=
  fun c member => by simpa using List.all_eq_true.mp plain c member

theorem c_string_text {text : List UInt8} (plain : ∀ c ∈ text, c ≠ 0) (rest : List UInt8) :
    c_string (text ++ [0] ++ rest) = some text := by
  have ends : (0 : UInt8) ∈ text ++ [0] ++ rest := by simp
  have keeps : ∀ c ∈ text, decide (c ≠ 0) = true := fun c member => decide_eq_true (plain c member)
  rw [c_string,if_pos ends,List.append_assoc,List.takeWhile_append_of_pos keeps]
  simp

theorem c_string_parts {text : List UInt8} (read : c_string block = some text) :
    (∀ c ∈ text, c ≠ 0) ∧ text.length < block.length := by
  unfold c_string at read
  split at read
  · rename_i ends
    cases read
    have plain : ∀ c ∈ block.takeWhile (· ≠ 0), c ≠ 0 := fun c member => by
      simpa using List.mem_takeWhile_imp member
    have shorter : (block.takeWhile (· ≠ 0)).length ≤ block.length := (List.takeWhile_sublist _).length_le
    refine ⟨plain,Nat.lt_of_le_of_ne shorter fun whole => ?_⟩
    have all : block.takeWhile (· ≠ 0) = block := (List.takeWhile_sublist _).eq_of_length whole
    exact plain 0 (all.symm ▸ ends) rfl
  · cases read

theorem c_string_none : c_string block = none ↔ 0 ∉ block := by
  unfold c_string
  split
  · exact iff_of_false nofun (not_not.mpr ‹0 ∈ block›)
  · exact iff_of_true rfl ‹0 ∉ block›

-- What follows the NUL does not matter.
theorem c_string_append (ends : 0 ∈ block) (rest : List UInt8) : c_string (block ++ rest) = c_string block := by
  obtain ⟨text,read⟩ : ∃ text, c_string block = some text := ⟨_,if_pos ends⟩
  have shorter := (c_string_parts read).2
  have whole : block.takeWhile (· ≠ 0) = text := Option.some.inj ((if_pos ends).symm.trans read)
  rw [read,c_string,if_pos (List.mem_append_left rest ends),List.takeWhile_append,whole,if_neg (Nat.ne_of_lt shorter)]

theorem c_string_cons (a : UInt8) (rest : List UInt8) :
    c_string (a :: rest) = if a = 0 then some [] else (c_string rest).map (a :: ·) := by
  by_cases zero : a = 0
  · subst zero
    rw [if_pos rfl,c_string,if_pos List.mem_cons_self]
    rfl
  · have same : 0 ∈ a :: rest ↔ 0 ∈ rest := by simp [List.mem_cons,Ne.symm zero]
    rw [if_neg zero,c_string,c_string]
    by_cases ends : 0 ∈ rest
    · rw [if_pos (same.mpr ends),if_pos ends,List.takeWhile_cons_of_pos (by simpa using zero)]
      rfl
    · rw [if_neg (mt same.mp ends),if_neg ends]
      rfl

theorem c_string_front {text : List UInt8} (read : c_string block = some text) :
    block.take (text.length + 1) = text ++ [0] := by
  induction block generalizing text with
  | nil => cases read
  | cons a rest ih =>
    rw [c_string_cons] at read
    split at read
    · rename_i zero
      cases read
      rw [zero]
      rfl
    · obtain ⟨later,found,rfl⟩ := Option.map_eq_some_iff.mp read
      rw [List.length_cons,List.take_succ_cons,ih found,List.cons_append]

-- A reader of the block then finds as much of the text as fits in front of the NUL.
theorem str_printf_truncates {text : List UInt8} (plain : ∀ c ∈ text, c ≠ 0) (positive : 0 < size)
    (fits : size ≤ block.length) :
    ∃ written, cplus_str_printf (some block) size text = some (text.length,some written) ∧
      written.length = block.length ∧ c_string written = some (text.take (size - 1)) := by
  have length : (text.take (size - 1) ++ [0]).length ≤ size := by
    rw [List.length_append,List.length_take,List.length_singleton]
    omega
  have written : splice block 0 (text.take (size - 1) ++ [0]) = some _ := splice_some (by omega)
  refine ⟨_,?_,splice_length written,?_⟩
  · simp only [cplus_str_printf,if_neg (Nat.ne_of_gt positive),Option.bind_some,written,Option.map_some]
  · rw [List.take_zero,List.nil_append]
    exact c_string_text (fun c member => plain c (List.mem_of_mem_take member)) _

-- A text that fits is found whole.
theorem str_printf_writes {text : List UInt8} (plain : ∀ c ∈ text, c ≠ 0) (room : text.length < size)
    (fits : size ≤ block.length) :
    ∃ written, cplus_str_printf (some block) size text = some (text.length,some written) ∧
      written.length = block.length ∧ c_string written = some text := by
  obtain ⟨written,printed,length,read⟩ := str_printf_truncates plain (Nat.zero_lt_of_lt room) fits
  rw [List.take_of_length_le (by omega)] at read
  exact ⟨written,printed,length,read⟩

-- What is printed lies at the start of the block, with the NUL behind it.
theorem str_printf_cut (text : List UInt8) (positive : 0 < size) (fits : size ≤ block.length) :
    cplus_str_printf (some block) size text = some (text.length,
      some (text.take (size - 1) ++ [0] ++ block.drop ((text.take (size - 1)).length + 1))) := by
  have length : (text.take (size - 1) ++ [0]).length = (text.take (size - 1)).length + 1 := by simp
  have cut : (text.take (size - 1)).length ≤ size - 1 := List.length_take_le _ _
  have written : splice block 0 (text.take (size - 1) ++ [0]) =
      some (text.take (size - 1) ++ [0] ++ block.drop ((text.take (size - 1)).length + 1)) := by
    rw [splice_some (by omega),length,Nat.zero_add,List.take_zero,List.nil_append]
  rw [cplus_str_printf,if_neg (Nat.ne_of_gt positive),Option.bind_some,written,Option.map_some]

theorem str_printf_length {text : List UInt8} {written : Nat}
    (printed : cplus_str_printf (some block) size text = some (written,result)) :
    ∃ after, result = some after ∧ after.length = block.length := by
  unfold cplus_str_printf at printed
  split at printed
  · cases printed
    exact ⟨block,rfl,rfl⟩
  · obtain ⟨after,spliced,same⟩ := Option.map_eq_some_iff.mp printed
    cases same
    exact ⟨after,rfl,splice_length spliced⟩

theorem mem_cpy_length {after : List UInt8} (copied : cplus_mem_cpy dest src count = some (some after)) :
    ∃ block, dest = some block ∧ after.length = block.length := by
  unfold cplus_mem_cpy at copied
  split at copied
  · split at copied
    · cases copied
      exact ⟨after,rfl,rfl⟩
    · obtain ⟨bytes,_,taken⟩ := Option.bind_eq_some_iff.mp copied
      obtain ⟨written,spliced,same⟩ := Option.map_eq_some_iff.mp taken
      cases same
      exact ⟨_,rfl,splice_length spliced⟩
  · cases copied
    exact ⟨after,rfl,rfl⟩

-- A copy over a whole block.
theorem mem_cpy_over {result : Option (List UInt8)} (whole : block.length = count)
    (copied : cplus_mem_cpy (some block) src count = some result) :
    ∃ after, result = some after ∧ after.length = count ∧ after = ((src.map (List.take count)).getD block) := by
  cases src with
  | none => cases copied; exact ⟨block,rfl,whole,rfl⟩
  | some source =>
    by_cases there : count ≤ source.length
    · have same := mem_cpy_copies (Nat.le_of_eq whole.symm) there
      rw [List.drop_of_length_le (Nat.le_of_eq whole),List.append_nil] at same
      cases copied.symm.trans same
      exact ⟨_,rfl,by rw [List.length_take]; omega,rfl⟩
    · rw [mem_cpy_leaves (by omega)] at copied
      cases copied

theorem mem_set_length {value : UInt8} (filled : cplus_mem_set (some block) value count = some (done,result)) :
    ∃ after, result = some after ∧ after.length = block.length := by
  unfold cplus_mem_set at filled
  split at filled
  · cases ‹some block = none›
  · rename_i same
    cases same
    split at filled
    · cases filled
      exact ⟨block,rfl,rfl⟩
    · obtain ⟨after,spliced,same⟩ := Option.map_eq_some_iff.mp filled
      cases same
      exact ⟨after,rfl,splice_length spliced⟩

theorem mem_cpy_ex_length
    (copied : cplus_mem_cpy_ex (some block) start destsz src first count = some (done,result)) :
    ∃ after, result = some after ∧ after.length = block.length := by
  cases src with
  | none => cases copied; exact ⟨block,rfl,rfl⟩
  | some source =>
    simp only [cplus_mem_cpy_ex] at copied
    split at copied
    · cases copied
      exact ⟨block,rfl,rfl⟩
    · obtain ⟨bytes,_,taken⟩ := Option.bind_eq_some_iff.mp copied
      obtain ⟨after,spliced,same⟩ := Option.map_eq_some_iff.mp taken
      cases same
      exact ⟨after,rfl,splice_length spliced⟩

end Libcplus.Memory
