import Libcplus.Data.Storage

namespace Libcplus.Data
open Bytes Memory Typedef Program

-- A value that is given to cplus_data_set_value whole, whatever the object held before.
inductive Content where
  | bool (b : Bool)
  | integer (type : IntType) (bits : BitVec type.bits)
  | pointer (p : BitVec 64)
  | string (text : List UInt8)
  | byte_array (source : List UInt8)
  deriving DecidableEq, Repr

namespace Content

def type : Content → CPLUS_DATA_TYPE
  | bool _ => .BOOL
  | integer type _ => .integer type
  | pointer _ => .POINTER
  | string _ => .STRING
  | byte_array _ => .BYTE_ARRAY

def value1 : Content → Pointer
  | bool b => some (bool_bytes b)
  | integer type bits => some (bytes type.size bits)
  | pointer p => some (bytes 8 p)
  | string text => some (littleEndian32 text.length)
  | byte_array source => some (littleEndian32 source.length)

def value2 : Content → Pointer
  | string text => some (text ++ [0])
  | byte_array source => some source
  | _ => none

-- A string ends at its first NUL, and the lengths are those of a uint32_t.
def Proper : Content → Prop
  | string text => (∀ c ∈ text, c ≠ 0) ∧ text.length < 2^32
  | byte_array source => source.length < 2^32
  | _ => True

-- The object has the type, and this is its value.
def Of : Content → Value → Prop
  | bool b,value => value = .b b
  | integer type bits,value => value = .integer type bits
  | pointer p,value => value = .p p
  | string text,value => ∃ len block, value = .str len (some block) ∧ c_string block = some text
  | byte_array source,value => ∃ block, value = .byte_array source.length (some block) ∧ block.take source.length = source

-- The object has the type; a string with its NUL is counted in 32 bits, and an array
-- is copied unless its room is too large, or it is there already.
def Fits (content : Content) (value : Value) : Prop :=
  value.data_type = content.type ∧
    match content,value with
    | string text,_ => text.length + 1 < 2^32
    | byte_array source,.byte_array len bufs => source = [] ∨ Capacity len bufs source.length ≤ RSIZE_MAX_MEM ∨
        ∃ old, bufs = some old ∧ old.take source.length = source
    | _,_ => True

variable {content : Content} {dt after : Data} {value : Value} {res : Int} {garbage : Nat → UInt8} {len need size : Nat}
  {bufs : Pointer} {block old source text : List UInt8} {alloc : Outcome} {value1 value2 : Pointer}

theorem of_type (of : content.Of value) : value.data_type = content.type := by
  cases content with
  | bool b => cases of; rfl
  | integer type bits => cases of; rfl
  | pointer p => cases of; rfl
  | string text => obtain ⟨_,_,rfl,_⟩ := of; rfl
  | byte_array source => obtain ⟨_,rfl,_⟩ := of; rfl

theorem holds_wellformed (holds : Holds dt) : Wellformed dt.value := by
  have sized : Sized dt.bufs_size dt.value := holds
  cases held : dt.value with
  | str len bufs =>
    rw [held] at sized
    cases bufs with
    | none => trivial
    | some block => exact Nat.le_of_eq (sized.2 block rfl).symm
  | byte_array len bufs =>
    rw [held] at sized
    cases bufs with
    | none => trivial
    | some block => exact Nat.le_trans sized.1 (sized.2 block rfl)
  | _ => trivial

-- A set operation leaves the type.
theorem set_value_type (holds : Holds dt) (ran : cplus_data_set_value value1 value2 alloc dt = .ok (res,after)) :
    after.value.data_type = dt.value.data_type :=
  ((set_value_fits value1 value2).answer ⟨rfl,holds_wellformed holds⟩ ran).1

-- A buffer with room begins as the old one did, or ends as the allocator left it.
theorem room_front (made : room (some garbage) len bufs need = (size,some block)) :
    (∃ old, bufs = some old ∧ block.take need = old.take need) ∨
      ((∀ old, bufs = some old → old.length < need) ∧
        (0 < need → block[need - 1]? = some (garbage (need - 1)))) := by
  cases bufs with
  | none =>
    obtain ⟨rfl,given⟩ := Prod.mk.inj made
    obtain rfl := Option.some.inj given
    refine .inr ⟨nofun,fun positive => ?_⟩
    rw [List.getElem?_map,List.getElem?_range (by omega)]
    rfl
  | some old =>
    rw [room] at made
    split at made
    · obtain ⟨rfl,given⟩ := Prod.mk.inj made
      obtain rfl := Option.some.inj given
      by_cases short : need ≤ old.length
      · refine .inl ⟨old,rfl,?_⟩
        rw [List.take_append_of_le_length (by rw [List.length_take]; omega),List.take_take,min_self]
      · refine .inr ⟨by rintro _ ⟨⟩; omega,fun positive => ?_⟩
        have front : (old.take need).length = old.length := by
          rw [List.length_take]
          omega
        have behind : old.length + (need - 1 - old.length) = need - 1 := by omega
        rw [List.getElem?_append_right (by omega),front,List.getElem?_map,List.getElem?_drop,behind,
          List.getElem?_range (by omega)]
        rfl
    · cases made
      exact .inl ⟨_,rfl,rfl⟩

theorem slice_whole (length : source.length = size) : slice source 0 size = some source := by
  rw [slice_some (by omega),List.drop_zero,List.take_of_length_le (Nat.le_of_eq length)]

-- A scalar that is given to an object of its type.
theorem scalar_put (free : dt.spinlock = false) (same : dt.value.data_type = content.type)
    (scalar : content.value2 = none) (alloc : Outcome) : ∃ after,
    cplus_data_set_value content.value1 content.value2 alloc dt = .ok (CPLUS_SUCCESS,after) ∧ content.Of after.value := by
  obtain ⟨is_valid,mode,key_len,key,lock,code,size,held⟩ := dt
  cases free
  cases content with
  | bool b =>
    cases held with
    | b old =>
      cases b
      · exact ⟨_,rfl,rfl⟩
      · exact ⟨_,rfl,rfl⟩
    | _ => cases same
  | integer type bits =>
    cases held with
    | integer other old =>
      cases same
      have read : slice (bytes type.size bits) 0 type.size = some (bytes type.size bits) :=
        slice_whole (littleEndian_length _ _)
      have unlocked : (⟨is_valid,mode,key_len,key,false,code,size,.integer type old⟩ : Data).spinlock = false := rfl
      have put : ∀ lock, (access (slice (bytes type.size bits) 0 type.size) >>= fun read =>
          put_value (.integer type (from_bytes type.bits read)))
            (⟨is_valid,mode,key_len,key,lock,code,size,.integer type old⟩ : Data) =
              .ok ((),⟨is_valid,mode,key_len,key,lock,code,size,.integer type bits⟩) := by
        intro lock
        refine access_ok read ?_
        rw [from_bytes_bytes]
        rfl
      have ran : guarded type.spins (access (slice (bytes type.size bits) 0 type.size) >>= fun read =>
          put_value (.integer type (from_bytes type.bits read)))
            (⟨is_valid,mode,key_len,key,false,code,size,.integer type old⟩ : Data) =
              .ok ((),⟨is_valid,mode,key_len,key,false,code,size,.integer type bits⟩) := by
        unfold guarded
        split
        · exact spin_ok unlocked (put true)
        · exact put false
      exact ⟨_,valid_ok ran,rfl⟩
    | _ => cases same
  | pointer p =>
    cases held with
    | p old =>
      refine ⟨⟨true,mode,key_len,key,false,code,size,.p p⟩,?_,rfl⟩
      have read : slice (bytes 8 p) 0 8 = some (bytes 8 p) := slice_whole (littleEndian_length _ _)
      have same : from_bytes 64 (bytes 8 p) = p := @from_bytes_bytes .UINT64 p
      have ran : (access (slice (bytes 8 p) 0 8) >>= fun read => do
          put_value (.p (from_bytes 64 read))
          set_valid) (⟨is_valid,mode,key_len,key,false,code,size,.p old⟩ : Data) =
            .ok (CPLUS_SUCCESS,⟨true,mode,key_len,key,false,code,size,.p p⟩) := by
        refine access_ok read ?_
        rw [same]
        rfl
      exact ran
    | _ => cases same
  | string text => cases scalar
  | byte_array source => cases scalar

-- An array over another.
theorem array_put (free : dt.spinlock = false) (holds : Holds dt) (held : dt.value = .byte_array len bufs)
    (counts : source.length < 2^32) :
    (∀ garbage, ∃ res after, cplus_data_set_value (byte_array source).value1 (byte_array source).value2 (some garbage) dt =
        .ok (res,after) ∧ (byte_array source).Of after.value) ↔
      (source = [] ∨ Capacity len bufs source.length ≤ RSIZE_MAX_MEM ∨
        ∃ old, bufs = some old ∧ old.take source.length = source) := by
  have sized : Sized dt.bufs_size (.byte_array len bufs) := held ▸ holds
  have put : ∀ garbage, ∃ block, room (some garbage) len bufs source.length = (Capacity len bufs source.length,some block) ∧
      ∃ after, cplus_data_set_value (byte_array source).value1 (byte_array source).value2 (some garbage) dt =
        .ok (CPLUS_SUCCESS,after) ∧
      ((byte_array source).Of after.value ↔
        (copied_over (Capacity len bufs source.length) source block).take source.length = source) := by
    intro garbage
    obtain ⟨block,after,made,_,ran,_,_,stored⟩ := set_value_array free held sized counts [] garbage
    rw [List.append_nil] at ran
    refine ⟨block,made,after,ran,?_⟩
    rw [stored]
    constructor
    · rintro ⟨_,same,front⟩
      cases same
      exact front
    · exact fun front => ⟨_,rfl,front⟩
  constructor
  · intro every
    by_cases copies : Capacity len bufs source.length ≤ RSIZE_MAX_MEM
    · exact .inr (.inl copies)
    rcases List.eq_nil_or_concat source with rfl | ⟨front,last,rfl⟩
    · exact .inl rfl
    -- The allocator leaves another byte where the last one should be.
    obtain ⟨block,made,after,ran,of_iff⟩ := put fun _ => if last = 0 then 1 else 0
    obtain ⟨res,after',again,of⟩ := every fun _ => if last = 0 then 1 else 0
    cases ran.symm.trans again
    have same := of_iff.mp of
    rw [copied_over,if_neg copies] at same
    refine .inr (.inr ?_)
    rcases room_front made with ⟨old,rfl,kept⟩ | ⟨_,left_over⟩
    · exact ⟨old,rfl,kept.symm.trans same⟩
    · have length : (front.concat last).length = front.length + 1 := List.length_concat
      have ends : (front.concat last)[front.length]? = some last := by simp
      have byte := left_over (by omega)
      rw [length,Nat.add_sub_cancel] at byte
      rw [← same,length,List.getElem?_take_of_lt (Nat.lt_succ_self _),byte] at ends
      have other : (if last = 0 then 1 else 0) = last := Option.some.inj ends
      split at other
      · rename_i zero
        exact absurd (other.trans zero) (by decide)
      · rename_i nonzero
        exact absurd other.symm nonzero
  · intro condition garbage
    obtain ⟨block,made,after,ran,of_iff⟩ := put garbage
    refine ⟨_,after,ran,of_iff.mpr ?_⟩
    rcases condition with rfl | copies | ⟨old,rfl,front⟩
    · rfl
    · exact copied_over_take copies
    · have whole : source.length ≤ old.length := by
        have lengths := congrArg List.length front
        rw [List.length_take] at lengths
        omega
      rcases room_front made with ⟨_,same,kept⟩ | ⟨short,_⟩
      · cases same
        unfold copied_over
        split
        · exact List.take_left
        · exact kept.trans front
      · exact absurd (short old rfl) (by omega)

-- A string over another.
theorem string_put (free : dt.spinlock = false) (holds : Holds dt) (held : dt.value = .str len bufs)
    (plain : ∀ c ∈ text, c ≠ 0) :
    (∀ garbage, ∃ res after, cplus_data_set_value (string text).value1 (string text).value2 (some garbage) dt =
        .ok (res,after) ∧ (string text).Of after.value) ↔ text.length + 1 < 2^32 := by
  have sized : Sized dt.bufs_size (.str len bufs) := held ▸ holds
  constructor
  · intro every
    obtain ⟨res,after,ran,len,block,stored,read⟩ := every fun _ => 0
    have kept : Sized after.bufs_size after.value := (set_value_stays _ _ _).answer holds ran
    rw [stored] at kept
    have shorter := (c_string_parts read).2
    have length := kept.2 block rfl
    have counted := kept.1
    omega
  · intro counts garbage
    obtain ⟨written,after,ran,_,stored,_,read⟩ :=
      set_value_string free held sized (n := text.length) (by omega) plain [] garbage
    rw [List.append_nil] at ran
    refine ⟨_,after,ran,_,written,stored,?_⟩
    have enough := capacity_enough len bufs (text.length + 1)
    rw [read,List.take_of_length_le (by omega)]

-- Every value over every other, and what it takes to be stored whole.
theorem overwrite_exact (free : dt.spinlock = false) (holds : Holds dt) (proper : content.Proper) :
    (∀ garbage, ∃ res after, cplus_data_set_value content.value1 content.value2 (some garbage) dt = .ok (res,after) ∧
      content.Of after.value) ↔ content.Fits dt.value := by
  by_cases same : dt.value.data_type = content.type
  · have scalars : content.value2 = none → ∀ garbage, ∃ res after,
        cplus_data_set_value content.value1 content.value2 (some garbage) dt = .ok (res,after) ∧
          content.Of after.value := by
      intro scalar garbage
      obtain ⟨after,ran,of⟩ := scalar_put free same scalar (some garbage)
      exact ⟨_,after,ran,of⟩
    unfold Fits
    rw [and_iff_right same]
    cases content with
    | string text =>
      cases held : dt.value with
      | str len bufs => exact string_put free holds held proper.1
      | _ => rw [held] at same; cases same
    | byte_array source =>
      cases held : dt.value with
      | byte_array len bufs => exact array_put free holds held proper
      | _ => rw [held] at same; cases same
    | bool b => exact iff_of_true (scalars rfl) trivial
    | integer type bits => exact iff_of_true (scalars rfl) trivial
    | pointer p => exact iff_of_true (scalars rfl) trivial
  · refine iff_of_false (fun every => ?_) fun fits => same fits.1
    obtain ⟨res,after,ran,of⟩ := every fun _ => 0
    exact same ((set_value_type holds ran).symm.trans (of_type of))

end Content

end Libcplus.Data
