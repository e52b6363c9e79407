import Libcplus.Data.Reached

namespace Libcplus.Data
open Bytes Memory Typedef Program Transition

variable {host : Host} {dt : Data} {len : Nat} {bufs : Pointer} {block : List UInt8} {type : IntType}

-- What a getter answers does not tell what its variable held.
def DependsOnly (host : Host) (type : IntType) (dt : Data) : Prop :=
  ∀ one two a b s t, getter host type one dt = .ok ((CPLUS_SUCCESS,a),s) →
    getter host type two dt = .ok ((CPLUS_SUCCESS,b),t) → a = b

-- An array has bytes for the whole of the variable.
def Covers (type : IntType) : Value → Prop
  | .byte_array len bufs => bufs ≠ none ∧ type.size ≤ len
  | _ => True

-- The variable of a getter that has read a number, or has not.
def told (value : BitVec type.bits) : Option (BitVec type.bits) → Int × BitVec type.bits
  | none => (CPLUS_FAIL,value)
  | some number => (CPLUS_SUCCESS,number)

theorem get_as_integer_text (format : Format) (held : dt.value = .str len bufs) (value : BitVec type.bits) :
    get_as_integer host type format value dt = spin (do
      let text ← access (bufs.bind c_string)
      return told value ((format.scan text).map fun number => type.cast (format.type.read number))) dt := by
  rw [get_as_integer,run_bind,run_get,ok_bind]
  simp only [held]
  refine congrArg (fun body => spin (access (bufs.bind c_string) >>= body) dt) (funext fun text => ?_)
  cases format.scan text with
  | none => rfl
  | some number => rfl

theorem get_as_integer_array (format : Format) (held : dt.value = .byte_array len bufs) (value : BitVec type.bits) :
    get_as_integer host type format value dt = spin (do
      let result ← fill_variable (bytes type.size value) len bufs
      return (CPLUS_SUCCESS,from_bytes type.bits result)) dt := by
  rw [get_as_integer,run_bind,run_get,ok_bind]
  simp only [held]

-- Apart from an array, the object alone decides what is read.
theorem getter_reads (host : Host) (free : dt.spinlock = false) (no_array : dt.data_type ≠ .BYTE_ARRAY)
    (type : IntType) : ∃ read : Except Stop (Option (BitVec type.bits) × Data),
      ∀ value, getter host type value dt = read.map fun found => (told value found.1,found.2) := by
  rw [getter_eq]
  cases held : dt.value with
  | str len bufs =>
    cases read : bufs.bind c_string with
    | none =>
      refine ⟨.error .crashes,fun value => ?_⟩
      rw [get_as_integer_text _ held,read]
      exact spin_stops free rfl
    | some text =>
      refine ⟨.ok ((type.format.scan text).map fun number => type.cast (type.format.type.read number),dt),fun value => ?_⟩
      rw [get_as_integer_text _ held]
      exact spin_answers free (access_ok read rfl)
  | byte_array len bufs => exact absurd (by rw [data_type,held]; rfl) no_array
  | integer source bits =>
    obtain ⟨_,_,_,_,_,_,_,_⟩ := dt
    cases free
    cases held
    cases source <;> exact ⟨.ok (some _,_),fun _ => rfl⟩
  | null =>
    obtain ⟨_,_,_,_,_,_,_,_⟩ := dt
    cases held
    exact ⟨.ok (none,_),fun _ => rfl⟩
  | unknown =>
    obtain ⟨_,_,_,_,_,_,_,_⟩ := dt
    cases held
    exact ⟨.ok (none,_),fun _ => rfl⟩
  | _ =>
    obtain ⟨_,_,_,_,_,_,_,_⟩ := dt
    cases free
    cases held
    exact ⟨.ok (some _,_),fun _ => rfl⟩

theorem depends_only (free : dt.spinlock = false) (no_array : dt.data_type ≠ .BYTE_ARRAY) :
    DependsOnly host type dt := by
  obtain ⟨read,reads⟩ := getter_reads host free no_array type
  intro one two a b s t first second
  rw [reads] at first second
  rcases read with reason | ⟨_ | number,after⟩
  · cases first
  · cases first
  · cases first
    cases second
    rfl

-- An array that is shorter than the variable is read into the front of it.
theorem fill_variable_front (value : List UInt8) (within : len ≤ block.length) :
    fill_variable value len (some block) dt = .ok (block.take (min len value.length) ++ value.drop (min len value.length),dt) := by
  have count : (if len > value.length then value.length else len) = min len value.length := by split <;> omega
  rw [fill_variable,count]
  exact access_ok (mem_cpy_copies (Nat.min_le_right _ _) (Nat.le_trans (Nat.min_le_left _ _) within)) rfl

theorem getter_array (host : Host) (free : dt.spinlock = false) (held : dt.value = .byte_array len (some block))
    (within : len ≤ block.length) (value : BitVec type.bits) :
    getter host type value dt = .ok ((CPLUS_SUCCESS,from_bytes type.bits
      (block.take (min len type.size) ++ littleEndian (type.size - min len type.size) (value.toNat / 2^(8 * min len type.size)))),dt) := by
  have size : (bytes type.size value).length = type.size := littleEndian_length _ _
  have filled := @fill_variable_front {dt with spinlock := true} len block (bytes type.size value) within
  rw [size] at filled
  rw [getter_eq,get_as_integer_array _ held,← littleEndian_drop]
  exact spin_answers free (bind_ok filled)

theorem from_bytes_inj {one two : List UInt8} (first : one.length = type.size) (second : two.length = type.size)
    (same : from_bytes type.bits one = from_bytes type.bits two) : readLittle one = readLittle two := by
  have small := readLittle_small one
  have other := readLittle_small two
  rw [first] at small
  rw [second] at other
  have numbers := congrArg BitVec.toNat same
  rw [from_bytes,from_bytes,BitVec.toNat_ofNat,BitVec.toNat_ofNat] at numbers
  rwa [Nat.mod_eq_of_lt small,Nat.mod_eq_of_lt other] at numbers

theorem getter_untouched (host : Host) (free : dt.spinlock = false) (held : dt.value = .byte_array len none)
    (value : BitVec type.bits) : getter host type value dt = .ok ((CPLUS_SUCCESS,value),dt) := by
  rw [getter_eq,get_as_integer_array _ held]
  refine (spin_answers free rfl).trans ?_
  rw [Option.getD_some,from_bytes_bytes]

-- The bytes that such an array leaves alone are those of the variable.
theorem getter_leaks (free : dt.spinlock = false) (held : dt.value = .byte_array len bufs)
    (within : ∀ block, bufs = some block → len ≤ block.length) (short : bufs = none ∨ len < type.size) :
    ¬ DependsOnly host type dt := by
  intro depends
  have wide : 1 < 2^type.bits := Nat.one_lt_two_pow (by cases type <;> decide)
  cases bufs with
  | none =>
    have same := depends _ _ _ _ _ _ (getter_untouched host free held (BitVec.ofNat type.bits 0))
      (getter_untouched host free held (BitVec.ofNat type.bits 1))
    have numbers := congrArg BitVec.toNat same
    rw [BitVec.toNat_ofNat,BitVec.toNat_ofNat,Nat.mod_eq_of_lt wide] at numbers
    cases numbers
  | some block =>
    have small : len < type.size := short.resolve_left (Option.some_ne_none block)
    have inside := within block rfl
    have front : (block.take len).length = len := by rw [List.length_take]; omega
    have kept : min len type.size = len := Nat.min_eq_left (Nat.le_of_lt small)
    have power : 2^(8 * len) < 2^type.bits := Nat.pow_lt_pow_right (by decide) (by rw [IntType.bits]; omega)
    have one := getter_array host free held inside (BitVec.ofNat type.bits 0)
    have two := getter_array host free held inside (BitVec.ofNat type.bits (2^(8 * len)))
    rw [BitVec.toNat_ofNat,Nat.mod_eq_of_lt (Nat.two_pow_pos _),Nat.zero_div] at one
    rw [BitVec.toNat_ofNat,Nat.mod_eq_of_lt power] at two
    rw [kept] at one two
    rw [Nat.div_self (Nat.two_pow_pos _)] at two
    have whole : ∀ n, (block.take len ++ littleEndian (type.size - len) n).length = type.size := fun n => by
      rw [List.length_append,front,littleEndian_length]
      omega
    have numbers := from_bytes_inj (whole 0) (whole 1) (depends _ _ _ _ _ _ one two)
    have space : 1 < 2^(8 * (type.size - len)) := Nat.one_lt_two_pow (by omega)
    rw [readLittle_append,readLittle_append,littleEndian_read _ 0 (Nat.two_pow_pos _),littleEndian_read _ 1 space,front] at numbers
    have positive := Nat.two_pow_pos (8 * len)
    rw [Nat.mul_zero,Nat.mul_one] at numbers
    omega

-- Two variables that hold different numbers tell a getter apart only by an array that
-- is too short for them.
theorem getter_exact (host : Host) (reached : Reached host dt) (type : IntType) :
    DependsOnly host type dt ↔ Covers type dt.value := by
  obtain ⟨holds,free⟩ := reached.sound
  have sized : Sized dt.bufs_size dt.value := holds
  by_cases array : dt.data_type = .BYTE_ARRAY
  · cases held : dt.value with
    | byte_array len bufs =>
      rw [held] at sized
      have within : ∀ block, bufs = some block → len ≤ block.length :=
        fun block there => Nat.le_trans sized.1 (sized.2 block there)
      constructor
      · intro depends
        refine ⟨fun missing => ?_,Nat.le_of_not_lt fun short => ?_⟩
        · exact getter_leaks free held within (.inl missing) depends
        · exact getter_leaks free held within (.inr short) depends
      · rintro ⟨there,enough⟩
        obtain ⟨block,rfl⟩ := Option.ne_none_iff_exists'.mp there
        intro one two a b s t first second
        rw [getter_array host free held (within block rfl),Nat.min_eq_right enough,Nat.sub_self] at first second
        cases first
        cases second
        rfl
    | _ => rw [data_type,held] at array; cases array
  · refine iff_of_true (depends_only free array) ?_
    cases held : dt.value with
    | byte_array len bufs => exact absurd (by rw [data_type,held]; rfl) array
    | _ => trivial

-- An array of the size of the variable.
theorem array_read : ∃ dt, Created dt ∧ dt.value = .byte_array 4 (some [1,2,3,4]) ∧ ∀ host : Host, Reached host dt ∧
    Covers .INT32 dt.value ∧ DependsOnly host .INT32 dt := by
  refine ⟨_,⟨.BYTE_ARRAY,some [4,0,0,0],some [1,2,3,4],0,none,some fun _ => 0,none,rfl⟩,rfl,fun host => ?_⟩
  have reached : Reached host _ :=
    .made ⟨.BYTE_ARRAY,some [4,0,0,0],some [1,2,3,4],0,none,some fun _ => 0,none,rfl⟩
  have covers : Covers .INT32 (.byte_array 4 (some [1,2,3,4])) := ⟨Option.some_ne_none _,Nat.le_refl 4⟩
  exact ⟨reached,covers,(getter_exact host reached .INT32).mpr covers⟩

-- An array of one byte.
theorem array_leaks : ∃ dt, Created dt ∧ dt.value = .byte_array 1 (some [9]) ∧ ∀ host : Host,
    cplus_data_get_as_int32 host 0 dt = .ok ((CPLUS_SUCCESS,9),dt) ∧
    cplus_data_get_as_int32 host 256 dt = .ok ((CPLUS_SUCCESS,265),dt) ∧ ¬ DependsOnly host .INT32 dt := by
  refine ⟨_,⟨.BYTE_ARRAY,some [1,0,0,0],some [9],0,none,some fun _ => 0,none,rfl⟩,rfl,fun host => ?_⟩
  refine ⟨rfl,rfl,fun depends => ?_⟩
  have same := depends 0 256 9 265 _ _ rfl rfl
  revert same
  decide

end Libcplus.Data
