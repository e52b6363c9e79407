import Libcplus.Data.Storage

namespace Libcplus.Data
open Bytes Memory Typedef Program Transition

variable {host : Host} {dt other : Data} {len n : Nat} {bufs : Pointer} {block out text : List UInt8}

section Text

-- A value as a text: true or false, a numeral, the string, or the bytes of the array.
def full_text : Value → Option (List UInt8)
  | .b b => some (if b then ascii "true" else ascii "false")
  | .integer type bits => some (Decimal.print (type.read bits))
  | .str _ bufs => bufs.bind c_string
  | .byte_array len bufs => bufs.map (List.take len)
  | _ => none

-- An answer for a buffer `out`: the whole text and a NUL in it, or CPLUS_FAIL when it
-- has no room for them. An answer at all says that nothing was written outside of it.
def Exported (text out : List UInt8) (answer : Except Stop ((Int × Pointer) × Data)) : Prop :=
  ∃ res written after, answer = .ok ((res,some written),after) ∧ written.length = out.length ∧
    if out.length < text.length + 1 then res = CPLUS_FAIL
    else res = text.length ∧ written.take (text.length + 1) = text ++ [0]

-- A string is cut by tmp_bufs. The NUL of an array is written over its last byte, and
-- cplus_mem_cpy_ex may refuse to copy the others.
def Exportable (text out : List UInt8) : Value → Prop
  | .str _ _ => text.length ≤ 255 ∨ out.length ≤ text.length ∧ text.length < 2^31
  | .byte_array _ _ =>
    (out.length ≤ text.length ∧ (text.length + 1 < 2^32 ∨ out.length = text.length)) ∨
      (0 < text.length ∧ text.length < out.length ∧ text.length < 2^31 ∧
        text.getLast? = some 0 ∧ out[text.length]? = some 0 ∧
        (out.length ≤ RSIZE_MAX_MEM ∨ out.take (text.length - 1) = text.dropLast))
  | _ => True

-- What is known of an answer decides whether it is the right one.
theorem exported_iff {answer : Except Stop ((Int × Pointer) × Data)} {res : Int} {written : List UInt8} {after : Data}
    (ran : answer = .ok ((res,some written),after)) (length : written.length = out.length) :
    Exported text out answer ↔ if out.length < text.length + 1 then res = CPLUS_FAIL
      else res = text.length ∧ written.take (text.length + 1) = text ++ [0] := by
  subst ran
  constructor
  · intro exported
    obtain ⟨_,_,_,same,_,told⟩ := exported
    cases same
    exact told
  · intro told
    exact ⟨_,_,_,rfl,length,told⟩

-- The text goes through tmp_bufs: 255 characters of it at most come out.
theorem print_out_iff (positive : 0 < out.length) (dt : Data) :
    Exported text out (print_out out.length (some out) text dt) ↔
      text.length ≤ 255 ∨ out.length ≤ text.length ∧ text.length < 2^31 := by
  by_cases short : text.length ≤ 255
  · refine iff_of_true ?_ (.inl short)
    have counted : (printed_length text + 1) % 2^32 = text.length + 1 := by
      rw [printed_length,if_pos (by omega)]
      omega
    have kept : text.take 255 = text := List.take_of_length_le short
    by_cases refused : out.length < text.length + 1
    · have ran : print_out out.length (some out) text dt = .ok ((CPLUS_FAIL,some out),dt) := by
        rw [print_out,counted,if_pos refused]
        rfl
      exact (exported_iff ran rfl).mpr ((if_pos refused).mpr rfl)
    · have whole : text.take (out.length - 1) = text := List.take_of_length_le (by omega)
      have printed := str_printf_cut text positive (Nat.le_refl out.length)
      rw [whole] at printed
      have ran : print_out out.length (some out) text dt =
          .ok ((text.length,some (text ++ [0] ++ out.drop (text.length + 1))),dt) := by
        rw [print_out,counted,if_neg refused,kept]
        exact access_ok printed rfl
      have length : (text ++ [0]).length = text.length + 1 := by simp
      refine (exported_iff ran ?_).mpr ((if_neg refused).mpr ⟨rfl,?_⟩)
      · rw [List.length_append,List.length_drop,length]
        omega
      · rw [← length,List.take_left]
  · by_cases refused : out.length < (printed_length text + 1) % 2^32
    · have ran : print_out out.length (some out) text dt = .ok ((CPLUS_FAIL,some out),dt) := by
        rw [print_out,if_pos refused]
        rfl
      have bounded : text.length < 2^31 ∧ out.length < text.length + 1 := by
        rw [printed_length] at refused
        split at refused
        · omega
        · omega
      rw [exported_iff ran rfl,if_pos bounded.2]
      exact iff_of_true rfl (.inr ⟨Nat.le_of_lt_succ bounded.2,bounded.1⟩)
    · -- The text is longer than tmp_bufs, and its first characters are printed.
      have cut : (text.take 255).length = 255 := by rw [List.length_take]; omega
      obtain ⟨written,printed⟩ : ∃ written,
          cplus_str_printf (some out) out.length (text.take 255) = some ((text.take 255).length,some written) :=
        ⟨_,str_printf_cut (text.take 255) positive (Nat.le_refl out.length)⟩
      rw [cut] at printed
      obtain ⟨_,same,length⟩ := str_printf_length printed
      cases same
      have ran : print_out out.length (some out) text dt = .ok ((255,some written),dt) := by
        rw [print_out,if_neg refused]
        exact access_ok printed rfl
      rw [exported_iff ran length]
      refine iff_of_false (fun told => ?_) fun bounded => ?_
      · split at told
        · cases told
        · have answered : (255 : Int) = text.length := told.1
          omega
      · rcases bounded with few | ⟨small,counts⟩
        · exact short few
        · rw [printed_length,if_pos counts] at refused
          omega

theorem int32_eq (counts : n < 2^32) : int32 n = if n < 2^31 then (n : Int) else n - 2^32 := by
  change (BitVec.ofInt 32 (n : Int)).toInt = _
  rw [BitVec.toInt_ofInt,Int.bmod]
  split
  · split <;> omega
  · split <;> omega

-- A NUL over the last byte of what was copied, and one behind it.
theorem ended_iff {front : List UInt8} (some_byte : text ≠ []) (length : front.length = text.length - 1) :
    front ++ [0] ++ out.take 1 = text ++ [0] ↔
      front = text.dropLast ∧ text.getLast? = some 0 ∧ out.head? = some 0 := by
  obtain ⟨start,c,rfl⟩ : ∃ start c, text = start ++ [c] := ⟨_,_,(List.dropLast_append_getLast some_byte).symm⟩
  have size : front.length = start.length := by simpa using length
  rw [List.dropLast_concat,List.getLast?_concat]
  cases out with
  | nil =>
    refine iff_of_false (fun same => ?_) fun ends => by simp at ends
    have lengths := congrArg List.length same
    simp [size] at lengths
  | cons d rest =>
    rw [List.append_assoc,List.append_assoc]
    constructor
    · intro same
      obtain ⟨rfl,tail⟩ := List.append_inj same size
      simp only [List.take_succ_cons,List.take_zero,List.singleton_append,List.cons.injEq,and_true] at tail
      exact ⟨rfl,congrArg some tail.1.symm,congrArg some tail.2⟩
    · rintro ⟨rfl,⟨⟩,⟨⟩⟩
      rfl

theorem copied_out_drop (within : len ≤ block.length) : (copied_out len block out).drop len = out.drop len := by
  unfold copied_out
  split
  · have length : (block.take len).length = len := by rw [List.length_take]; omega
    rw [List.drop_append_of_le_length (Nat.le_of_eq length.symm),List.drop_of_length_le (Nat.le_of_eq length),List.nil_append]
  · rfl

-- In front of its last byte the array comes out when the copy is made, or when the
-- buffer held the same bytes before.
theorem copied_out_front (within : len ≤ block.length) (room : len ≤ out.length) :
    (copied_out len block out).take (len - 1) = (block.take len).dropLast ↔
      out.length ≤ RSIZE_MAX_MEM ∨ out.take (len - 1) = (block.take len).dropLast := by
  have length : (block.take len).length = len := by rw [List.length_take]; omega
  unfold copied_out
  split
  · rename_i accepted
    refine iff_of_true ?_ (.inl accepted.2)
    rw [List.take_append_of_le_length (by omega),List.dropLast_eq_take,length]
  · rename_i refused
    have large : ¬ out.length ≤ RSIZE_MAX_MEM := fun small => refused ⟨room,small⟩
    exact (or_iff_right large).symm

section Arrays
variable (free : dt.spinlock = false) (held : dt.value = .byte_array len (some block)) (positive : 0 < out.length)
include held positive

-- What is done under the lock.
theorem get_as_string_array : cplus_data_get_as_string host out.length (some out) dt = spin (do
    if out.length < (len + 1) % 2^32 then return (CPLUS_FAIL,some out)
    else do
      let copied ← access (cplus_mem_cpy_ex (some out) 0 out.length (some block) 0 len)
      let ended ← access (copied.2.bind fun out => splice out ((len + 2^32 - 1) % 2^32) [0])
      return (int32 len,some ended)) dt := by
  have started : ¬ (out.length = 0 ∨ some out = none) := fun missing =>
    missing.elim (Nat.ne_of_gt positive) (Option.some_ne_none out)
  rw [cplus_data_get_as_string,if_neg started,run_bind,run_get,ok_bind]
  simp only [held]

include free

theorem get_as_string_refused (refused : out.length < (len + 1) % 2^32) :
    cplus_data_get_as_string host out.length (some out) dt = .ok ((CPLUS_FAIL,some out),dt) := by
  rw [get_as_string_array held positive]
  apply spin_answers free
  rw [if_pos refused]
  rfl

theorem get_as_string_ends (within : len ≤ block.length) (enough : ¬ out.length < (len + 1) % 2^32) :
    cplus_data_get_as_string host out.length (some out) dt =
      match splice (copied_out len block out) ((len + 2^32 - 1) % 2^32) [0] with
      | none => .error .crashes
      | some ended => .ok ((int32 len,some ended),dt) := by
  rw [get_as_string_array held positive]
  obtain ⟨done,copied⟩ := mem_cpy_ex_out positive within
  generalize (len + 2^32 - 1) % 2^32 = last
  generalize copied_out len block out = middle at copied
  cases ended : splice middle last [0] with
  | none =>
    apply spin_stops free
    rw [if_neg enough]
    refine access_ok copied ?_
    rw [Option.bind_some,ended]
    rfl
  | some written =>
    apply spin_answers free
    rw [if_neg enough]
    refine access_ok copied (access_ok ?_ rfl)
    rw [Option.bind_some,ended]

end Arrays

-- A buffer with room for an array that has bytes, and for a NUL.
theorem array_ended_iff (within : len ≤ block.length) (some_byte : 0 < len) (room : len + 1 ≤ out.length)
    (counts : len < 2^32) : ∃ written,
      splice (copied_out len block out) (len - 1) [0] = some written ∧ written.length = out.length ∧
      (int32 len = len ∧ written.take (len + 1) = block.take len ++ [0] ↔
        len < 2^31 ∧ (block.take len).getLast? = some 0 ∧ out[len]? = some 0 ∧
          (out.length ≤ RSIZE_MAX_MEM ∨ out.take (len - 1) = (block.take len).dropLast)) := by
  have kept : (copied_out len block out).length = out.length := copied_out_length within
  have length : (block.take len).length = len := by rw [List.length_take]; omega
  have front : ((copied_out len block out).take (len - 1)).length = len - 1 := by rw [List.length_take]; omega
  have last : len - 1 + [(0 : UInt8)].length = len := by
    rw [List.length_singleton]
    omega
  obtain ⟨written,ended⟩ : ∃ written, splice (copied_out len block out) (len - 1) [0] = some written :=
    ⟨_,splice_some (by omega)⟩
  have same := (splice_parts ended).2
  rw [last,copied_out_drop within] at same
  have taken : written.take (len + 1) =
      (copied_out len block out).take (len - 1) ++ [0] ++ (out.drop len).take 1 := by
    have size : ((copied_out len block out).take (len - 1) ++ [0]).length = len := by
      rw [List.length_append,front]
      exact last
    rw [same,List.take_append,size,List.take_of_length_le (by omega),Nat.add_sub_cancel_left]
  have nonempty : block.take len ≠ [] := fun empty => by rw [empty] at length; exact Nat.ne_of_lt some_byte length
  refine ⟨written,ended,(splice_length ended).trans kept,?_⟩
  rw [taken,ended_iff nonempty (by rw [front,length]),copied_out_front within (by omega),List.head?_drop,int32_eq counts]
  constructor
  · rintro ⟨small,before,zero,next⟩
    refine ⟨?_,zero,next,before⟩
    split at small
    · assumption
    · omega
  · rintro ⟨small,zero,next,before⟩
    exact ⟨if_pos small,before,zero,next⟩

-- The NUL of an array goes to the last of its bytes. In front of it are the bytes
-- of the array, or what the buffer held when cplus_mem_cpy_ex refuses to copy them.
theorem array_export_iff (free : dt.spinlock = false) (held : dt.value = .byte_array len (some block))
    (within : len ≤ block.length) (counted : len < 2^32) (positive : 0 < out.length) (counts : out.length < 2^32) :
    Exported (block.take len) out (cplus_data_get_as_string host out.length (some out) dt) ↔
      Exportable (block.take len) out dt.value := by
  have length : (block.take len).length = len := by rw [List.length_take]; omega
  rw [held]
  simp only [Exportable,length]
  by_cases refused : out.length < (len + 1) % 2^32
  · rw [exported_iff (get_as_string_refused free held positive refused) rfl,length]
    have small : out.length < len + 1 := by omega
    rw [if_pos small]
    exact iff_of_true rfl (.inl ⟨by omega,by omega⟩)
  · rw [get_as_string_ends free held positive within refused]
    have kept : (copied_out len block out).length = out.length := copied_out_length within
    have missed : ∀ last, out.length < last + 1 → splice (copied_out len block out) last [0] = none :=
      fun last outside => if_neg (by rw [kept]; exact Nat.not_le.mpr outside)
    have fails : ¬ Exported (block.take len) out (.error .crashes) := fun exported => by
      obtain ⟨_,_,_,same,_⟩ := exported
      cases same
    rcases Nat.eq_zero_or_pos len with rfl | some_byte
    · rw [missed _ (by omega)]
      exact iff_of_false fails (by omega)
    · have last : (len + 2^32 - 1) % 2^32 = len - 1 := by omega
      rw [last]
      by_cases room : len + 1 ≤ out.length
      · obtain ⟨written,ended,size,told⟩ := array_ended_iff within some_byte room counted
        rw [ended]
        simp only
        rw [exported_iff rfl size,length,if_neg (by omega),told]
        constructor
        · intro right
          exact .inr ⟨some_byte,by omega,right⟩
        · rintro (small | ⟨_,_,right⟩)
          · omega
          · exact right
      -- dt->value.byte_array.len + 1 is zero, and no buffer is too short.
      · have wraps : len + 1 = 2^32 := by omega
        by_cases whole : out.length = len
        · obtain ⟨written,ended⟩ : ∃ written, splice (copied_out len block out) (len - 1) [0] = some written :=
            ⟨_,splice_some (by rw [kept,whole,List.length_singleton]; omega)⟩
          rw [ended]
          simp only
          rw [exported_iff rfl ((splice_length ended).trans kept),length,if_pos (by omega),int32_eq counted]
          refine iff_of_true ?_ (.inl ⟨by omega,.inr whole⟩)
          rw [if_neg (by omega),CPLUS_FAIL]
          omega
        · rw [missed _ (by omega)]
          exact iff_of_false fails (by omega)

-- Every other value goes out as its text does.
theorem get_as_string_prints (free : dt.spinlock = false) (positive : 0 < out.length)
    (stored : full_text dt.value = some text) (no_array : dt.data_type ≠ .BYTE_ARRAY) :
    cplus_data_get_as_string host out.length (some out) dt = print_out out.length (some out) text dt := by
  have started : ¬ (out.length = 0 ∨ some out = none) := fun refused =>
    refused.elim (Nat.ne_of_gt positive) fun missing => Option.some_ne_none out missing
  rw [cplus_data_get_as_string,if_neg started]
  obtain ⟨is_valid,mode,key_len,key,_,code,size,value⟩ := dt
  cases free
  cases value with
  | b b => cases stored; rfl
  | integer type bits =>
    cases stored
    rw [← print_format (read_holds bits)]
    rfl
  | str len bufs =>
    have read : spin (access (bufs.bind c_string)) ⟨is_valid,mode,key_len,key,false,code,size,.str len bufs⟩ =
        .ok (text,⟨is_valid,mode,key_len,key,false,code,size,.str len bufs⟩) := by
      apply spin_answers rfl
      rw [show bufs.bind c_string = some text from stored]
      rfl
    exact bind_ok read
  | byte_array len bufs => exact absurd rfl no_array
  | _ => cases stored

-- The text is exported whole or refused, apart from strings of more than 255
-- characters and from arrays, whose last byte gives way to the NUL.
theorem export_exact (host : Host) (reached : Reached host dt) (stored : full_text dt.value = some text)
    (counted : text.length < 2^32) (positive : 0 < out.length) (counts : out.length < 2^32) :
    Exported text out (cplus_data_get_as_string host out.length (some out) dt) ↔ Exportable text out dt.value := by
  obtain ⟨holds,free⟩ := reached.sound
  have sized : Sized dt.bufs_size dt.value := holds
  by_cases array : dt.data_type = .BYTE_ARRAY
  · cases held : dt.value with
    | byte_array len bufs =>
      rw [held] at stored sized
      obtain ⟨block,rfl,rfl⟩ := Option.map_eq_some_iff.mp stored
      have within := Nat.le_trans sized.1 (sized.2 block rfl)
      have length : (block.take len).length = len := by rw [List.length_take]; omega
      rw [← held]
      exact array_export_iff free held within (length ▸ counted) positive counts
    | _ => rw [data_type,held] at array; cases array
  · rw [get_as_string_prints free positive stored array,print_out_iff positive]
    cases held : dt.value with
    | b b =>
      rw [held] at stored
      cases stored
      refine iff_of_true (.inl ?_) trivial
      cases b <;> decide
    | integer type bits =>
      rw [held] at stored
      cases stored
      have short := Decimal.print_length (holds_small (read_holds bits)) (by decide : 0 < 20)
      exact iff_of_true (.inl (by omega)) trivial
    | str len bufs => exact Iff.rfl
    | byte_array len bufs => exact absurd (congrArg Value.data_type held) array
    | _ => rw [held] at stored; cases stored

-- A number, in a buffer that has no byte to spare.
theorem number_exported : ∃ dt, Created dt ∧ ∀ host : Host, Reached host dt ∧ full_text dt.value = some [45,55] ∧
    ([45,55] : List UInt8).length < 2^32 ∧ 0 < ([1,1,1] : List UInt8).length ∧
    Exportable [45,55] [1,1,1] dt.value ∧ Exported [45,55] [1,1,1] (cplus_data_get_as_string host 3 (some [1,1,1]) dt) := by
  refine ⟨_,⟨.integer .INT16,some [249,255],none,0,none,none,none,rfl⟩,fun host => ?_⟩
  have reached : Reached host _ := .made ⟨.integer .INT16,some [249,255],none,0,none,none,none,rfl⟩
  have text : Decimal.print (-7) = [45,55] := by simp [Decimal.print,Decimal.natural]; rfl
  have stored := congrArg some text
  refine ⟨reached,stored,by decide,by decide,trivial,?_⟩
  exact (export_exact host reached stored (by decide) (by decide) (by decide)).mpr trivial

theorem string_reached (host : Host) (plain : ∀ c ∈ text, c ≠ 0) (small : text.length < 2^32 - 1) :
    ∃ dt, Reached host dt ∧ dt.data_type = .STRING ∧ full_text dt.value = some text := by
  have created : Reached host (blank .STRING) := .made ⟨.STRING,none,none,0,none,none,none,rfl⟩
  have sized : Sized 0 (.str 0 none) := ⟨by decide,no_block⟩
  obtain ⟨written,dt,ran,_,held,_,read⟩ := set_value_string created.sound.2 rfl sized small plain [] fun _ => 0
  refine ⟨dt,created.set_value ran,by rw [data_type,held]; rfl,?_⟩
  rw [held]
  refine read.trans (congrArg some (List.take_of_length_le ?_))
  rw [Capacity,if_pos rfl]
  exact Nat.le_refl _

-- An array of two bytes, in a buffer of four, and a string of 256 characters.
theorem export_cuts : (∃ dt, Created dt ∧ full_text dt.value = some [5,6] ∧ ∀ host : Host,
      cplus_data_get_as_string host 4 (some [1,1,1,1]) dt = .ok ((2,some [5,0,1,1]),dt) ∧
      ¬ Exported [5,6] [1,1,1,1] (cplus_data_get_as_string host 4 (some [1,1,1,1]) dt)) ∧
    ∀ host : Host, ∃ dt, Reached host dt ∧ full_text dt.value = some (List.replicate 256 97) ∧ 
      ¬ Exported (List.replicate 256 97) (List.replicate 257 0)
        (cplus_data_get_as_string host (List.replicate 257 (0 : UInt8)).length (some (List.replicate 257 0)) dt) := by
  constructor
  · refine ⟨_,⟨.BYTE_ARRAY,some [2,0,0,0],some [5,6],0,none,some fun _ => 0,none,rfl⟩,rfl,fun host => ?_⟩
    refine ⟨rfl,fun exported => ?_⟩
    have told := (exported_iff rfl rfl).mp exported
    revert told
    decide
  · intro host
    have plain : ∀ c ∈ List.replicate 256 (97 : UInt8), c ≠ 0 := fun c member => by
      rw [List.eq_of_mem_replicate member]
      decide
    have length : (List.replicate 256 (97 : UInt8)).length = 256 := List.length_replicate
    obtain ⟨dt,reached,text,stored⟩ := string_reached host plain (by rw [length]; decide)
    have no_array : dt.data_type ≠ .BYTE_ARRAY := by
      rw [text]
      decide
    have positive : 0 < (List.replicate 257 (0 : UInt8)).length := by
      rw [List.length_replicate]
      decide
    refine ⟨dt,reached,stored,fun exported => ?_⟩
    rw [get_as_string_prints reached.sound.2 positive stored no_array,print_out_iff positive,length] at exported
    rcases exported with short | ⟨small,_⟩
    · exact absurd short (by decide)
    · rw [List.length_replicate] at small
      exact absurd small (by decide)

end Text

section Bytes
variable {array_len : Nat} {stored : List UInt8}

-- The export of two objects, as the length and the bytes that the caller finds.
def SameExport (array_len : Nat) (out : List UInt8) (dt other : Data) : Prop :=
  ∃ answer, (cplus_data_get_as_byte_array array_len (some out) dt).map Prod.fst = .ok answer ∧
    (cplus_data_get_as_byte_array array_len (some out) other).map Prod.fst = .ok answer

-- What is in a buffer behind the text and its NUL, as far as the export goes.
def left_over (text : List UInt8) (array_len : Nat) : Value → List UInt8
  | .str _ (some block) => (block.take array_len).drop (text.length + 1)
  | _ => []

theorem copy_out_text (free : dt.spinlock = false) (held : dt.value = .str len (some block))
    (length : block.length = len) (positive : 0 < array_len) (fits : array_len ≤ out.length) :
    cplus_data_get_as_byte_array array_len (some out) dt =
      .ok ((int32 (min len array_len),some (block.take array_len ++ out.drop (min len array_len))),dt) := by
  have started : ¬ (array_len = 0 ∨ some out = none) := fun missing =>
    missing.elim (Nat.ne_of_gt positive) (Option.some_ne_none out)
  have count : (if len > array_len then array_len else len) = min len array_len := by split <;> omega
  have taken : block.take (min len array_len) = block.take array_len := List.take_eq_take_iff.mpr (by omega)
  have copied : cplus_mem_cpy (some out) (some block) (min len array_len) =
      some (some (block.take (min len array_len) ++ out.drop (min len array_len))) :=
    mem_cpy_copies (by omega) (by omega)
  rw [cplus_data_get_as_byte_array,if_neg started,run_bind,run_get,ok_bind]
  simp only [held]
  rw [copy_out,count,← taken]
  exact spin_answers free (access_ok copied rfl)

theorem string_parts (reached : Reached host dt) (string : dt.data_type = .STRING)
    (stored : full_text dt.value = some text) : ∃ len block, dt.value = .str len (some block) ∧ len < 2^32 ∧
      block.length = len ∧ block.take (text.length + 1) = text ++ [0] := by
  have sized : Sized dt.bufs_size dt.value := reached.sound.1
  cases held : dt.value with
  | str len bufs =>
    rw [held] at stored sized
    obtain ⟨block,rfl,read⟩ := Option.bind_eq_some_iff.mp stored
    exact ⟨len,block,rfl,sized.1,sized.2 block rfl,c_string_front read⟩
  | _ => rw [data_type,held] at string; cases string

theorem int32_inj {one two : Nat} (small : one < 2^32) (other : two < 2^32) (same : int32 one = int32 two) : one = two := by
  rw [int32_eq small,int32_eq other] at same
  split at same
  · split at same <;> omega
  · split at same <;> omega

-- Two buffers that start alike are alike up to here when they go on alike.
theorem take_eq_iff {front one two : List UInt8} (first : one.take front.length = front)
    (second : two.take front.length = front) (n : Nat) :
    one.take n = two.take n ↔ (one.take n).drop front.length = (two.take n).drop front.length := by
  constructor
  · intro same
    rw [same]
  · intro same
    have start : (one.take n).take front.length = (two.take n).take front.length := by
      rw [List.take_take,List.take_take,Nat.min_comm,← List.take_take,← List.take_take,first,second]
    rw [← List.take_append_drop front.length (one.take n),start,same,List.take_append_drop]

-- Of two strings with the same text the export is the same when the bytes behind the
-- text are. They are what longer texts left, or what the allocator handed out.
theorem byte_export_exact (host : Host) (one : Reached host dt) (two : Reached host other)
    (string : dt.data_type = .STRING) (string' : other.data_type = .STRING) (stored : full_text dt.value = some text)
    (stored' : full_text other.value = some text) (positive : 0 < array_len) (fits : array_len ≤ out.length) :
    SameExport array_len out dt other ↔ left_over text array_len dt.value = left_over text array_len other.value := by
  obtain ⟨len,block,held,small,length,front⟩ := string_parts one string stored
  obtain ⟨len',block',held',small',length',front'⟩ := string_parts two string' stored'
  have ran := copy_out_text one.sound.2 held length positive fits
  have ran' := copy_out_text two.sound.2 held' length' positive fits
  have size : (text ++ [0]).length = text.length + 1 := by simp
  rw [← size] at front front'
  rw [SameExport,ran,ran',held,held',left_over,left_over,← size,← take_eq_iff front front']
  constructor
  · intro same
    obtain ⟨answer,first,second⟩ := same
    have both := Except.ok.inj (first.trans second.symm)
    obtain ⟨counts,bytes⟩ := Prod.mk.inj both
    have counted : min len array_len = min len' array_len := int32_inj (by omega) (by omega) counts
    rw [counted] at bytes
    exact List.append_cancel_right (Option.some.inj bytes)
  · intro same
    have counted : min len array_len = min len' array_len := by
      have lengths := congrArg List.length same
      rw [List.length_take,List.length_take] at lengths
      omega
    rw [same,counted]
    exact ⟨_,rfl,rfl⟩

-- "ab" in a new string, and over "abcd".
def fresh : Data := {blank .STRING with is_valid := true,value := .str 3 (some [97,98,0])}
def reused : Data := {blank .STRING with is_valid := true,value := .str 5 (some [97,98,0,100,0])}

theorem fresh_reached (host : Host) : Reached host fresh := by
  have created : Reached host (blank .STRING) := .made ⟨.STRING,none,none,0,none,none,none,rfl⟩
  have taken : Steps host (blank .STRING) (.set_string 2 (some [97,98,0]) (some fun _ => 0)) fresh := rfl
  exact created.set rfl taken

theorem reused_reached (host : Host) : Reached host reused := by
  have created : Reached host (blank .STRING) := .made ⟨.STRING,none,none,0,none,none,none,rfl⟩
  obtain ⟨longer,first⟩ : ∃ longer,
      Steps host (blank .STRING) (.set_string 4 (some [97,98,99,100,0]) (some fun _ => 0)) longer := ⟨_,rfl⟩
  have second : Steps host longer (.set_string 2 (some [97,98,0]) (some fun _ => 0)) reused := by
    cases first
    rfl
  exact (created.set rfl first).set rfl second

-- An export of three bytes ends with the NUL.
theorem short_export : fresh.data_type = .STRING ∧ reused.data_type = .STRING ∧
    full_text fresh.value = some [97,98] ∧ full_text reused.value = some [97,98] ∧ ∀ host : Host,
      Reached host fresh ∧ Reached host reused ∧ (SameExport 3 [1,1,1] fresh reused ↔
        left_over [97,98] 3 fresh.value = left_over [97,98] 3 reused.value) := by
  refine ⟨rfl,rfl,rfl,rfl,fun host => ⟨fresh_reached host,reused_reached host,?_⟩⟩
  exact byte_export_exact host (fresh_reached host) (reused_reached host) rfl rfl rfl rfl (by decide) (by decide)

-- One of five bytes goes on with what is left of "abcd".
theorem export_remembers : full_text fresh.value = some [97,98] ∧ full_text reused.value = some [97,98] ∧
    (∀ host : Host, Reached host fresh ∧ Reached host reused) ∧
    cplus_data_get_as_byte_array 5 (some [1,1,1,1,1]) fresh = .ok ((3,some [97,98,0,1,1]),fresh) ∧
    cplus_data_get_as_byte_array 5 (some [1,1,1,1,1]) reused = .ok ((5,some [97,98,0,100,0]),reused) ∧
    ¬ SameExport 5 [1,1,1,1,1] fresh reused := by
  refine ⟨rfl,rfl,fun host => ⟨fresh_reached host,reused_reached host⟩,rfl,rfl,fun same => ?_⟩
  obtain ⟨answer,first,second⟩ := same
  have both : (Except.ok (3,some [97,98,0,1,1]) : Except Stop (Int × Pointer)) = .ok (5,some [97,98,0,100,0]) :=
    first.trans second.symm
  revert both
  decide

end Bytes

end Libcplus.Data
