import Libcplus.Data.Discipline

namespace Libcplus.Data
open Bytes Memory Typedef Program Transition

section Formats
variable {type Y : IntType} {v : Int}

-- A number is printed whole: its type fits in the type of its format.
theorem format_holds (holds : type.Holds v) : type.format.type.Holds v := by
  cases type <;> simp [IntType.Holds,Integers.Holds,IntType.format,Format.type,IntType.signed,IntType.bits,
    IntType.size] at holds ⊢ <;> omega

theorem read_cast (holds : type.Holds v) : type.read (type.cast v) = v := by
  refine Integers.read_ofInt ?_ holds
  cases type <;> decide

theorem cast_read (value : BitVec type.bits) : type.cast (type.read value) = value := Integers.ofInt_read

theorem read_holds (value : BitVec type.bits) : type.Holds (type.read value) := Integers.read_holds

theorem print_format (holds : type.Holds v) : type.format.print v = Decimal.print v := by
  rw [Format.print,read_cast (format_holds holds)]

theorem scan_format (v : Int) : Y.format.scan (Decimal.print v) = some (Y.format.type.cast v) := by
  rw [Format.scan,Decimal.scan_print]
  rfl

theorem holds_small (holds : type.Holds v) : v.natAbs < 10^20 := by
  cases type <;> simp [IntType.Holds,Integers.Holds,IntType.signed,IntType.bits,IntType.size] at holds <;> omega

theorem print_room (holds : type.Holds v) : (Decimal.print v).length + 1 < 2^32 := by
  have length := Decimal.print_length (holds_small holds) (by decide)
  omega

theorem cast_narrow (v : Int) : Y.cast (BitVec.ofInt 64 v).toInt = Y.cast v := by
  have narrow : Y.bits ≤ 64 := by cases Y <;> decide
  have same : (BitVec.ofInt 64 v).toInt = Integers.read true (BitVec.ofInt 64 v) := rfl
  rw [IntType.cast,same]
  exact Integers.ofInt_narrow narrow

theorem from_bytes_bytes (value : BitVec type.bits) : from_bytes type.bits (bytes type.size value) = value := by
  rw [from_bytes,bytes,littleEndian_read _ _ value.isLt,BitVec.ofNat_toNat,BitVec.setWidth_eq]

end Formats

section Buffers
variable {bufs : Pointer} {len : Nat}

-- The buffer of a value is at least as long as the value says.
def Wellformed : Value → Prop
  | .str len (some block) => len ≤ block.length
  | .byte_array len (some block) => len ≤ block.length
  | _ => True

-- An array that cplus_mem_cpy_ex can write to.
def Copies : Value → Prop
  | .byte_array len (some _) => len ≤ RSIZE_MAX_MEM
  | _ => True

theorem room_spec (garbage : Nat → UInt8) (need : Nat) (fits : ∀ block, bufs = some block → len ≤ block.length) :
    ∃ size block,
    room (some garbage) len bufs need = (size,some block) ∧ need ≤ size ∧ size ≤ block.length ∧
      (size = need ∨ bufs ≠ none ∧ size = len) := by
  rcases room_parts (some garbage) len bufs need with ⟨_,made⟩ | ⟨old,rfl,within,made⟩
  · obtain ⟨block,obtained⟩ := allocate_granted garbage bufs need
    rw [obtained] at made
    exact ⟨need,block,made,Nat.le_refl _,Nat.le_of_eq (allocate_length obtained).symm,.inl rfl⟩
  · exact ⟨len,old,made,within,fits old rfl,.inr ⟨Option.some_ne_none old,rfl⟩⟩

end Buffers

section Setters
variable {host : Host} {X Y : IntType} {dt after : Data} {α β : Type} {garbage : Nat → UInt8}

theorem spin_ok {body : Routine α} {a : α} (free : dt.spinlock = false)
    (ran : body {dt with spinlock := true} = .ok (a,after)) : spin body dt = .ok (a,{after with spinlock := false}) := by
  have taken : DATA_SPIN_LOCK dt = .ok ((),{dt with spinlock := true}) := by
    obtain ⟨_,_,_,_,_,_,_,_⟩ := dt
    cases free
    rfl
  rw [spin,bind_ok taken,bind_ok ran]
  rfl

-- The same for a body that leaves the object as it found it.
theorem spin_answers {body : Routine α} {a : α} (free : dt.spinlock = false)
    (ran : body {dt with spinlock := true} = .ok (a,{dt with spinlock := true})) : spin body dt = .ok (a,dt) := by
  rw [spin_ok free ran]
  obtain ⟨_,_,_,_,_,_,_,_⟩ := dt
  cases free
  rfl

-- One that ends without an answer leaves the lock taken.
theorem spin_stops {body : Routine α} {reason : Stop} (free : dt.spinlock = false)
    (stopped : body {dt with spinlock := true} = .error reason) : spin body dt = .error reason := by
  obtain ⟨_,_,_,_,_,_,_,_⟩ := dt
  cases free
  rw [spin,run_bind]
  change (body _ >>= _) = _
  rw [stopped]
  rfl

theorem valid_ok {routine : Routine α} {a : α} (ran : routine dt = .ok (a,after)) :
    (routine >>= fun _ => set_valid) dt = .ok (CPLUS_SUCCESS,{after with is_valid := true}) := bind_ok ran

theorem answer_ok {routine : Routine α} {a : α} (ran : routine dt = .ok (a,after)) :
    (routine >>= fun result => return (CPLUS_SUCCESS,result)) dt = .ok ((CPLUS_SUCCESS,a),after) := bind_ok ran

theorem access_ok {result : Option β} {rest : β → Routine α} {b : β} {answer : Except Stop (α × Data)}
    (there : result = some b) (ran : rest b dt = answer) : (access result >>= rest) dt = answer := by
  subst there
  exact ran

theorem set_printed_spec (garbage : Nat → UInt8) {len : Nat} {bufs : Pointer} {text : List UInt8} (well : Wellformed (.str len bufs))
    (plain : ∀ c ∈ text, c ≠ 0) (short : text.length + 1 < 2^32) (dt : Data) : ∃ size block,
      set_printed (some garbage) len bufs text dt = .ok (true,{dt with value := .str size (some block)}) ∧
      size ≤ block.length ∧ c_string block = some text := by
  have fits : ∀ block, bufs = some block → len ≤ block.length := by
    rintro block rfl
    exact well
  obtain ⟨size,block,made,need,within,_⟩ := room_spec garbage (text.length + 1) fits
  obtain ⟨written,printed,length,read⟩ := str_printf_writes plain (Nat.lt_of_succ_le need) within
  refine ⟨size,written,?_,by rw [length]; exact within,read⟩
  have filled : fill_text text size block dt = .ok (some written,dt) := by
    rw [fill_text,printed]
    rfl
  rw [set_printed,Nat.mod_eq_of_lt short,set_text,made]
  exact bind_ok filled

theorem uint32_spec {n : Nat} (small : n < 2^32) (dt : Data) : uint32 (littleEndian32 n) dt = .ok (n,dt) := by
  have whole : slice (littleEndian32 n) 0 4 = some (littleEndian32 n) := rfl
  have value := littleEndian32_read small
  rw [uint32,whole]
  exact congrArg (fun n => Except.ok (n,dt)) value

-- An array takes over the bytes, unless cplus_mem_cpy_ex refuses its size.
def copied_over (stored : Nat) (source block : List UInt8) : List UInt8 :=
  if stored ≤ RSIZE_MAX_MEM then source ++ block.drop source.length else block

theorem copied_over_length {stored : Nat} {source block : List UInt8} (within : source.length ≤ block.length) :
    (copied_over stored source block).length = block.length := by
  unfold copied_over
  split
  · rw [List.length_append,List.length_drop]
    omega
  · rfl

theorem copied_over_take {stored : Nat} {source block : List UInt8} (small : stored ≤ RSIZE_MAX_MEM) :
    (copied_over stored source block).take source.length = source := by
  rw [copied_over,if_pos small,List.take_left]

theorem fill_array_writes {stored : Nat} {block source : List UInt8} (need : source.length ≤ stored)
    (within : stored ≤ block.length) (rest : List UInt8) (dt : Data) :
    fill_array (some (source ++ rest)) stored source.length block dt =
      .ok (some (copied_over stored source block),dt) := by
  unfold copied_over
  by_cases small : stored ≤ RSIZE_MAX_MEM
  · rw [if_pos small]
    rcases Nat.eq_zero_or_pos source.length with empty | positive
    · obtain rfl := List.length_eq_zero_iff.mp empty
      rw [fill_array,List.length_nil,mem_cpy_ex_refuses (.inr (.inr (.inr (.inl rfl))))]
      rfl
    · obtain ⟨written,spliced,copied⟩ : ∃ written,
          splice block 0 (((source ++ rest).drop 0).take source.length) = some written ∧
          cplus_mem_cpy_ex (some block) 0 stored (some (source ++ rest)) 0 source.length = some (true,some written) :=
        mem_cpy_ex_copies (by omega) (by rw [List.length_append]; omega) positive need small
      rw [List.drop_zero,List.take_left] at spliced
      obtain ⟨_,rfl⟩ := splice_parts spliced
      rw [fill_array,copied,Nat.zero_add]
      rfl
  · rw [if_neg small,fill_array,mem_cpy_ex_refuses (.inr (.inr (.inl (Nat.lt_of_not_le small))))]
    rfl

theorem fill_array_spec {stored size : Nat} {block source : List UInt8} (need : size ≤ stored)
    (within : stored ≤ block.length) (length : source.length = size) (dt : Data) :
    ∃ written, fill_array (some source) stored size block dt = .ok (some written,dt) ∧
      written.length = block.length ∧ (stored ≤ RSIZE_MAX_MEM → written.take size = source) := by
  subst length
  have filled := fill_array_writes need within [] dt
  rw [List.append_nil] at filled
  exact ⟨_,filled,copied_over_length (Nat.le_trans need within),copied_over_take⟩

theorem set_byte_array_spec (garbage : Nat → UInt8) {len size : Nat} {bufs : Pointer} {source : List UInt8}
    (well : Wellformed (.byte_array len bufs)) (free : dt.spinlock = false) (array : dt.value = .byte_array len bufs)
    (small : size ≤ 8) (length : source.length = size) : ∃ stored block,
      cplus_data_set_byte_array size (some source) (some garbage) dt =
        .ok (CPLUS_SUCCESS,{dt with bufs_size := stored,value := .byte_array size (some block),is_valid := true}) ∧
      size ≤ block.length ∧ (Copies (.byte_array len bufs) → block.take size = source) := by
  have fits : ∀ block, bufs = some block → len ≤ block.length := by
    rintro block rfl
    exact well
  obtain ⟨stored,block,made,need,within,which⟩ := room_spec garbage size fits
  obtain ⟨written,filled,same,bytes⟩ := fill_array_spec need within length {dt with spinlock := true}
  have limit : 8 ≤ RSIZE_MAX_MEM := by decide
  refine ⟨stored,written,?_,by omega,fun copies => bytes ?_⟩
  · have ran : spin (do
        let count ← uint32 (littleEndian32 size)
        set_array (some garbage) len bufs count (some source)) dt =
          .ok (true,{dt with bufs_size := stored,value := .byte_array size (some written)}) := by
      have counted := uint32_spec (n := size) (by omega) {dt with spinlock := true}
      have set_ : set_array (some garbage) len bufs size (some source) {dt with spinlock := true} =
          .ok (true,{dt with spinlock := true,bufs_size := stored,value := .byte_array size (some written)}) := by
        rw [set_array,made]
        exact bind_ok filled
      rw [spin_ok free ((bind_ok counted).trans set_)]
      obtain ⟨_,_,_,_,_,_,_,_⟩ := dt
      cases free
      rfl
    obtain ⟨_,_,_,_,_,_,_,_⟩ := dt
    cases array
    exact bind_ok ran
  · rcases which with rfl | ⟨there,rfl⟩
    · omega
    · obtain ⟨old,rfl⟩ := Option.ne_none_iff_exists'.mp there
      exact copies

structure Sound (dt : Data) : Prop where
  free : dt.spinlock = false
  well : Wellformed dt.value

-- What an object of each type holds after a setter of type X was given v.
def Stored (X : IntType) (v : Int) : Value → Prop
  | .b b => b = decide (v ≠ 0)
  | .integer type bits => bits = type.cast v
  | .p p => p = BitVec.ofInt 64 v
  | .str _ bufs => ∃ block, bufs = some block ∧ c_string block = some (Decimal.print v)
  | .byte_array len bufs => len = X.size ∧ ∃ block, bufs = some block ∧ block.take X.size = bytes X.size (X.cast v)
  | _ => True

def Settable : CPLUS_DATA_TYPE → Prop
  | .NULL | .UNKNOWN => False
  | _ => True

-- What an integer setter makes of any sound object when its allocation succeeds.
structure Sets (dt : Data) (X : IntType) (value : BitVec X.bits) (res : Int) (after : Data) : Prop where
  data_type : after.data_type = dt.data_type
  sound : Sound after
  copies : Settable dt.data_type → Copies after.value
  success : Settable dt.data_type → res = CPLUS_SUCCESS
  stored : Copies dt.value → Stored X (X.read value) after.value

theorem setter_spec (host : Host) (garbage : Nat → UInt8) (sound : Sound dt) (X : IntType) (value : BitVec X.bits) : ∃ res after,
    setter host X value (some garbage) dt = .ok (res,after) ∧ Sets dt X value res after := by
  rw [setter_eq]
  obtain ⟨free,well⟩ := sound
  obtain ⟨is_valid,mode,key_len,key,lock,code,size,held⟩ := dt
  cases free
  cases held with
  | null => exact ⟨_,_,rfl,rfl,⟨rfl,trivial⟩,nofun,nofun,fun _ => trivial⟩
  | unknown => exact ⟨_,_,rfl,rfl,⟨rfl,trivial⟩,nofun,nofun,fun _ => trivial⟩
  | b b => exact ⟨_,_,rfl,rfl,⟨rfl,trivial⟩,fun _ => trivial,fun _ => rfl,fun _ => rfl⟩
  | integer type bits =>
    have put : guarded type.spins (put_value (.integer type (type.cast (X.read value))))
        ⟨is_valid,mode,key_len,key,false,code,size,.integer type bits⟩ =
          .ok ((),⟨is_valid,mode,key_len,key,false,code,size,.integer type (type.cast (X.read value))⟩) := by
      cases type <;> rfl
    have ran : set_as_integer host X X.format value (some garbage)
        ⟨is_valid,mode,key_len,key,false,code,size,.integer type bits⟩ =
          .ok (CPLUS_SUCCESS,⟨true,mode,key_len,key,false,code,size,.integer type (type.cast (X.read value))⟩) :=
      valid_ok put
    exact ⟨_,_,ran,rfl,⟨rfl,trivial⟩,fun _ => trivial,fun _ => rfl,fun _ => rfl⟩
  | real type bits => exact ⟨_,_,rfl,rfl,⟨rfl,trivial⟩,fun _ => trivial,fun _ => rfl,fun _ => trivial⟩
  | p p => exact ⟨_,_,rfl,rfl,⟨rfl,trivial⟩,fun _ => trivial,fun _ => rfl,fun _ => rfl⟩
  | str len bufs =>
    have holds := read_holds value
    obtain ⟨room,block,printed,within,read⟩ := set_printed_spec garbage well
      (Decimal.print_nonzero (X.read value)) (print_room holds)
      ⟨is_valid,mode,key_len,key,true,code,size,.str len bufs⟩
    rw [← print_format holds] at printed
    have free : (⟨is_valid,mode,key_len,key,false,code,size,.str len bufs⟩ : Data).spinlock = false := rfl
    have put := spin_ok free printed
    have ran : set_as_integer host X X.format value (some garbage)
        ⟨is_valid,mode,key_len,key,false,code,size,.str len bufs⟩ =
          .ok (CPLUS_SUCCESS,⟨true,mode,key_len,key,false,code,size,.str room (some block)⟩) := bind_ok put
    exact ⟨_,_,ran,rfl,⟨rfl,within⟩,fun _ => trivial,fun _ => rfl,fun _ => ⟨block,rfl,read⟩⟩
  | byte_array len bufs =>
    have small : X.size ≤ 8 := by cases X <;> decide
    have free : (⟨is_valid,mode,key_len,key,false,code,size,.byte_array len bufs⟩ : Data).spinlock = false := rfl
    obtain ⟨stored,block,put,within,same⟩ := set_byte_array_spec garbage well free rfl small
      (littleEndian_length X.size value.toNat)
    have ran : set_as_integer host X X.format value (some garbage)
        ⟨is_valid,mode,key_len,key,false,code,size,.byte_array len bufs⟩ =
          .ok (CPLUS_SUCCESS,⟨true,mode,key_len,key,false,code,stored,.byte_array X.size (some block)⟩) :=
      valid_ok put
    refine ⟨_,_,ran,rfl,⟨rfl,within⟩,fun _ => ?_,fun _ => rfl,fun copies => ?_⟩
    · exact Nat.le_trans small (by decide)
    · refine ⟨rfl,block,rfl,?_⟩
      rw [cast_read]
      exact same copies

-- The values that an object of a type can represent.
def Represents : CPLUS_DATA_TYPE → Int → Prop
  | .BOOL,v => v = 0 ∨ v = 1
  | .integer type,v => type.Holds v
  | .POINTER,_ => True
  | .STRING,_ => True
  | _,_ => False

theorem getter_spec {v : Int} (sound : Sound dt) (stored : Stored X v dt.value) (holds : Y.Holds v)
    (fits : Represents dt.data_type v ∨ dt.data_type = .BYTE_ARRAY ∧ X = Y) (old : BitVec Y.bits) :
    getter host Y old dt = .ok ((CPLUS_SUCCESS,Y.cast v),dt) := by
  rw [getter_eq]
  obtain ⟨free,well⟩ := sound
  obtain ⟨is_valid,mode,key_len,key,lock,code,size,held⟩ := dt
  cases free
  cases held with
  | null => simp [data_type,Value.data_type,Represents] at fits
  | unknown => simp [data_type,Value.data_type,Represents] at fits
  | real type bits => simp [data_type,Value.data_type,Represents] at fits
  | b b =>
    obtain rfl : b = decide (v ≠ 0) := stored
    have boolean : v = 0 ∨ v = 1 := by simpa [data_type,Value.data_type,Represents] using fits
    rcases boolean with rfl | rfl
    · rfl
    · rfl
  | integer type bits =>
    obtain rfl : bits = type.cast v := stored
    have within : type.Holds v := by simpa [data_type,Value.data_type,Represents] using fits
    have same : Y.cast (type.read (type.cast v)) = Y.cast v := by rw [read_cast within]
    rw [← same]
    have read : guarded type.spins (return Y.cast (type.read (type.cast v)))
        (⟨is_valid,mode,key_len,key,false,code,size,.integer type (type.cast v)⟩ : Data) =
          .ok (Y.cast (type.read (type.cast v)),⟨is_valid,mode,key_len,key,false,code,size,.integer type (type.cast v)⟩) := by
      cases type <;> rfl
    exact answer_ok read
  | p p =>
    obtain rfl : p = BitVec.ofInt 64 v := stored
    rw [← cast_narrow v]
    rfl
  | str len bufs =>
    obtain ⟨block,rfl,read⟩ := stored
    have scanned : Y.format.scan (Decimal.print v) = some (Y.format.type.cast v) := scan_format v
    have same : Y.cast (Y.format.type.read (Y.format.type.cast v)) = Y.cast v := by
      rw [read_cast (format_holds holds)]
    have free : (⟨is_valid,mode,key_len,key,false,code,size,.str len (some block)⟩ : Data).spinlock = false := rfl
    refine spin_answers free (access_ok read ?_)
    rw [scanned]
    exact congrArg (fun x => Except.ok ((CPLUS_SUCCESS,x),_)) same
  | byte_array len bufs =>
    obtain ⟨rfl,block,rfl,same⟩ := stored
    obtain rfl : X = Y := by simpa [data_type,Value.data_type,Represents] using fits
    have variable_ : (bytes X.size old).length = X.size := littleEndian_length _ _
    have copied : cplus_mem_cpy (some (bytes X.size old)) (some block)
        (if X.size > (bytes X.size old).length then (bytes X.size old).length else X.size) =
          some (some (bytes X.size (X.cast v))) := by
      rw [variable_,if_neg (Nat.lt_irrefl _),mem_cpy_copies (Nat.le_of_eq variable_.symm) well,same,
        List.drop_of_length_le (Nat.le_of_eq variable_),List.append_nil]
    have free : (⟨is_valid,mode,key_len,key,false,code,size,.byte_array X.size (some block)⟩ : Data).spinlock = false := rfl
    refine spin_answers free ?_
    refine (bind_ok (access_ok copied rfl)).trans ?_
    exact congrArg (fun x => Except.ok ((CPLUS_SUCCESS,x),_)) (from_bytes_bytes _)

end Setters

section Constructors
variable {type : CPLUS_DATA_TYPE} {α : Type} {dt made : Data} {alloc : Outcome} {bufs written : Pointer} {len size : Nat}
  {block : List UInt8}

-- Objects of a type whose buffer is as long as they say.
def Fit (type : CPLUS_DATA_TYPE) (value : Value) : Prop := value.data_type = type ∧ Wellformed value

abbrev Fits (type : CPLUS_DATA_TYPE) (routine : Routine α) : Prop :=
  Takes (fun _ => True) (fun dt => Fit type dt.value) (fun dt => Fit type dt.value) routine

theorem access_parts {result : Option α} {a : α} {after : Data} (ran : access result dt = .ok (a,after)) :
    result = some a ∧ after = dt := by
  cases result with
  | none => cases ran
  | some a => cases ran; exact ⟨rfl,rfl⟩

theorem room_length {need : Nat} (fits : ∀ block, bufs = some block → len ≤ block.length)
    (made : room alloc len bufs need = (size,some block)) : need ≤ size ∧ size ≤ block.length := by
  rcases room_parts alloc len bufs need with ⟨_,new⟩ | ⟨old,rfl,within,kept⟩
  · obtain ⟨rfl,obtained⟩ := Prod.mk.inj (new.symm.trans made)
    exact ⟨Nat.le_refl _,Nat.le_of_eq (allocate_length obtained).symm⟩
  · cases kept.symm.trans made
    exact ⟨within,fits _ rfl⟩

theorem fill_string_length {value2 : Pointer} {after : Data}
    (ran : fill_string value2 len block dt = .ok (written,after)) :
    ∃ full, written = some full ∧ full.length = block.length := by
  cases value2 with
  | none =>
    obtain ⟨cleared,_,set_,answered⟩ := bind_parts ran
    cases answered
    exact mem_set_length (access_parts set_).1
  | some value =>
    obtain ⟨text,_,_,rest⟩ := bind_parts ran
    obtain ⟨printed,_,put,answered⟩ := bind_parts rest
    cases answered
    exact str_printf_length (access_parts put).1

theorem fill_array_length {value2 : Pointer} {count : Nat} {after : Data}
    (ran : fill_array value2 size count block dt = .ok (written,after)) :
    ∃ full, written = some full ∧ full.length = block.length := by
  cases value2 with
  | none =>
    obtain ⟨cleared,_,set_,answered⟩ := bind_parts ran
    cases answered
    exact mem_set_length (access_parts set_).1
  | some value =>
    obtain ⟨copied,_,put,answered⟩ := bind_parts ran
    cases answered
    exact mem_cpy_ex_length (access_parts put).1

theorem set_text_fits {need : Nat} {value2 : Pointer} (well : Wellformed (.str len bufs)) :
    Fits .STRING (set_text alloc len bufs need (fill_string value2)) := by
  have fits : ∀ block, bufs = some block → len ≤ block.length := by
    rintro block rfl
    exact well
  refine .of_answers fun dt done after _ ran => ?_
  rcases set_text_parts ran with ⟨size,_,_,rfl⟩ | ⟨size,block,written,middle,made,filled,_,rfl⟩
  · exact ⟨rfl,trivial⟩
  · obtain ⟨full,rfl,length⟩ := fill_string_length filled
    obtain ⟨_,within⟩ := room_length fits made
    exact ⟨rfl,Nat.le_trans within (Nat.le_of_eq length.symm)⟩

theorem set_array_fits {need : Nat} {value2 : Pointer} (well : Wellformed (.byte_array len bufs)) :
    Fits .BYTE_ARRAY (set_array alloc len bufs need value2) := by
  have fits : ∀ block, bufs = some block → len ≤ block.length := by
    rintro block rfl
    exact well
  refine .of_answers fun dt done after _ ran => ?_
  rcases set_array_parts ran with ⟨size,_,_,rfl⟩ | ⟨size,block,written,middle,made,filled,_,rfl⟩
  · exact ⟨rfl,trivial⟩
  · obtain ⟨full,rfl,length⟩ := fill_array_length filled
    obtain ⟨enough,within⟩ := room_length fits made
    exact ⟨rfl,Nat.le_trans enough (Nat.le_trans within (Nat.le_of_eq length.symm))⟩

theorem access_leaves {P : Data → Prop} (result : Option α) : Takes (fun _ => True) P P (access result) := by
  refine .of_answers fun dt a after here ran => ?_
  obtain ⟨_,rfl⟩ := access_parts ran
  exact here

-- The lock and dt->is_valid come and go around a store, and a property of the
-- rest of the object stays.
def Lockless (P : Data → Prop) : Prop := ∀ dt lock valid, P dt → P {dt with spinlock := lock,is_valid := valid}

section Leaves
variable {P : Data → Prop} (lockless : Lockless P)
include lockless

theorem lock_leaves : Takes (fun _ => True) P P DATA_SPIN_LOCK := by
  refine .get fun dt here => .ite (fun _ _ _ => trivial) fun _ => ?_
  exact fun _ _ => lockless dt true dt.is_valid here

theorem unlock_leaves : Takes (fun _ => True) P P DATA_SPIN_UNLOCK :=
  .modify fun dt here => lockless dt false dt.is_valid here

theorem spin_leaves {body : Routine α} (inside : Takes (fun _ => True) P P body) :
    Takes (fun _ => True) P P (spin body) :=
  (lock_leaves lockless).bind fun _ => inside.bind fun result => (unlock_leaves lockless).bind fun _ => .pure result

theorem guarded_leaves {spins : Bool} {body : Routine α} (inside : Takes (fun _ => True) P P body) :
    Takes (fun _ => True) P P (guarded spins body) := by
  cases spins with
  | false => exact inside
  | true => exact spin_leaves lockless inside

theorem set_valid_leaves : Takes (fun _ => True) P P set_valid :=
  Takes.bind (.modify fun dt here => lockless dt dt.spinlock true here) fun _ => .pure _

theorem settle_leaves (done : Bool) : Takes (fun _ => True) P P (settle done) :=
  .ite (fun _ => set_valid_leaves lockless) fun _ => .pure _

end Leaves

theorem put_value_fits {value : Value} (fit : Fit type value) : Fits type (put_value value) := .modify fun _ _ => fit

theorem fit_lockless : Lockless fun dt => Fit type dt.value := fun _ _ _ fit => fit

theorem set_value_fits (value1 value2 : Pointer) : Fits type (cplus_data_set_value value1 value2 alloc) := by
  cases value1 with
  | none => exact .pure _
  | some source =>
    refine .get fun dt fit => ?_
    have here : ∀ other, other = dt → Fit type other.value := fun _ same => same ▸ fit
    refine Takes.weaken ?_ here
    obtain ⟨_,_,_,_,_,_,_,value⟩ := dt
    obtain ⟨rfl,well⟩ := fit
    cases value with
    | null => exact .pure _
    | unknown => exact .pure _
    | b b =>
      have fit : ∀ b, Fit .BOOL (.b b) := fun _ => ⟨rfl,trivial⟩
      exact (access_leaves _).bind fun read => (put_value_fits (fit _)).bind fun _ => set_valid_leaves fit_lockless
    | integer type bits =>
      refine (guarded_leaves fit_lockless ?_).bind fun _ => set_valid_leaves fit_lockless
      exact (access_leaves _).bind fun read => put_value_fits ⟨rfl,trivial⟩
    | real type bits =>
      refine (spin_leaves fit_lockless ?_).bind fun _ => set_valid_leaves fit_lockless
      exact (access_leaves _).bind fun read => put_value_fits ⟨rfl,trivial⟩
    | p p =>
      have fit : ∀ p, Fit .POINTER (.p p) := fun _ => ⟨rfl,trivial⟩
      exact (access_leaves _).bind fun read => (put_value_fits (fit _)).bind fun _ => set_valid_leaves fit_lockless
    | str len bufs =>
      refine (spin_leaves fit_lockless ?_).bind (settle_leaves fit_lockless)
      exact ((access_leaves _).bind fun _ => .pure _).bind fun count => set_text_fits well
    | byte_array len bufs =>
      refine (spin_leaves fit_lockless ?_).bind (settle_leaves fit_lockless)
      exact ((access_leaves _).bind fun _ => .pure _).bind fun count => set_array_fits well

-- The setter of the key leaves what does not look at the key or the lock.
theorem set_key_leaves {P : Data → Prop}
    (keyless : ∀ dt next : Data, next.bufs_size = dt.bufs_size → next.value = dt.value → P dt → P next)
    (key_len : Nat) (key : Pointer) (alloc : Outcome) :
    Takes (fun _ => True) P P (cplus_data_set_key key_len key alloc) := by
  have unlocks : ∀ (dt next : Data) (res : Int), next.bufs_size = dt.bufs_size → next.value = dt.value → P dt →
      Takes (fun _ => True) (· = dt) P (do set next; DATA_SPIN_UNLOCK; return res : Routine Int) := by
    intro dt next res size same holds _ _
    exact keyless dt _ size same holds
  have lockless : Lockless P := fun dt lock valid holds => keyless dt _ rfl rfl holds
  refine .ite (fun _ => .pure _) fun _ => (lock_leaves lockless).bind fun _ => .get fun dt holds => .ite (fun _ => ?_) fun _ => ?_
  · exact (access_leaves _).bind fun copied => unlocks _ _ _ rfl rfl holds
  · split
    · exact unlocks _ _ _ rfl rfl holds
    · exact (access_leaves _).bind fun copied => unlocks _ _ _ rfl rfl holds

theorem set_key_fits (key_len : Nat) (key : Pointer) : Fits type (cplus_data_set_key key_len key alloc) :=
  set_key_leaves (fun _ _ _ same fit => same.symm ▸ fit) key_len key alloc

theorem set_up_fits (value1 value2 : Pointer) (key_len : Nat) (key : Pointer) (value_alloc key_alloc : Outcome) :
    Fits type (set_up value1 value2 key_len key value_alloc key_alloc) := by
  refine Takes.bind (.ite (fun _ => ?_) fun _ => .pure _) fun valued => .ite (fun _ => .ite (fun _ => ?_) fun _ => .pure _) fun _ => .pure _
  · exact (set_value_fits _ _).bind fun _ => .pure _
  · exact (set_key_fits _ _).bind fun _ => .pure _

theorem created_sound {value1 value2 : Pointer} {key_len : Nat} {key : Pointer} {value_alloc key_alloc : Outcome}
    (created : data_initialize_object type value1 value2 key_len key value_alloc key_alloc = .ok (some made)) :
    Sound made ∧ made.data_type = type := by
  have free := created_free ⟨type,value1,value2,key_len,key,value_alloc,key_alloc,created⟩
  have blank_fit : Fit type (blank type).value := by cases type <;> exact ⟨rfl,trivial⟩
  unfold data_initialize_object at created
  split at created
  · cases created
  · rename_i done after ran
    have fit := (set_up_fits value1 value2 key_len key value_alloc key_alloc).answer blank_fit ran
    split at created
    · cases created
      exact ⟨⟨free,fit.2⟩,fit.1⟩
    · cases created

end Constructors

section Sessions
variable {host : Host} {X Y : IntType} {type : CPLUS_DATA_TYPE} {made dt after : Data} {v : Int}

-- One of the integer setters, with what the block holds that it may be given.
structure Setting where
  X : IntType
  value : BitVec X.bits
  garbage : Nat → UInt8

def Given (host : Host) (dt : Data) (setting : Setting) (after : Data) : Prop :=
  ∃ res, setter host setting.X setting.value (some setting.garbage) dt = .ok (res,after)

theorem given_sets {setting : Setting} (sound : Sound dt) (given : Given host dt setting after) :
    ∃ res, Sets dt setting.X setting.value res after := by
  obtain ⟨res,ran⟩ := given
  obtain ⟨_,_,again,sets⟩ : ∃ res after, setter host setting.X setting.value (some setting.garbage) dt =
    .ok (res,after) ∧ Sets dt setting.X setting.value res after := setter_spec host setting.garbage sound _ _
  cases again.symm.trans ran
  exact ⟨_,sets⟩

-- After a setter the object is sound, of its own type, and holds an array that
-- cplus_mem_cpy_ex copies to.
theorem settings_sound {moves : List (Move Data Setting)} (sound : Sound made) (settable : Settable made.data_type)
    (run : Run (Given host) made moves dt) :
    Sound dt ∧ dt.data_type = made.data_type ∧ (moves ≠ [] ∨ Copies made.value → Copies dt.value) := by
  induction run with
  | nil => exact ⟨sound,rfl,fun ready => ready.resolve_left fun some_move => some_move rfl⟩
  | snoc prior given ih =>
    obtain ⟨before,same,_⟩ := ih
    obtain ⟨res,sets⟩ := given_sets before given
    exact ⟨sets.sound,sets.data_type.trans same,fun _ => sets.copies (same ▸ settable)⟩

theorem represents_settable (fits : Represents type v ∨ type = .BYTE_ARRAY ∧ X = Y) : Settable type := by
  rcases fits with represents | ⟨rfl,_⟩
  · cases type with
    | NULL => exact represents
    | UNKNOWN => exact represents
    | _ => trivial
  · trivial

-- What a setter of X was given, a getter of Y gives back.
theorem typed_round_trip (host : Host) {value1 value2 key : Pointer} {key_len : Nat} {value_alloc key_alloc : Outcome}
    {moves : List (Move Data Setting)}
    (created : data_initialize_object type value1 value2 key_len key value_alloc key_alloc = .ok (some made))
    (run : Run (Given host) made moves dt) (ready : moves ≠ [] ∨ Copies made.value)
    (in_X : X.Holds v) (in_Y : Y.Holds v) (fits : Represents type v ∨ type = .BYTE_ARRAY ∧ X = Y)
    (garbage : Nat → UInt8) :
    ∃ after, setter host X (X.cast v) (some garbage) dt = .ok (CPLUS_SUCCESS,after) ∧
      ∀ old, ∃ out, getter host Y old after = .ok ((CPLUS_SUCCESS,out),after) ∧ Y.read out = v := by
  obtain ⟨sound,rfl⟩ := created_sound created
  have settable := represents_settable fits
  obtain ⟨before,same,copies⟩ := settings_sound sound settable run
  obtain ⟨res,after,ran,sets⟩ := setter_spec host garbage before X (X.cast v)
  obtain rfl := sets.success (same ▸ settable)
  have stored := sets.stored (copies ready)
  rw [read_cast in_X] at stored
  refine ⟨after,ran,fun old => ⟨Y.cast v,?_,read_cast in_Y⟩⟩
  refine getter_spec sets.sound stored in_Y ?_ old
  rw [sets.data_type,same]
  exact fits

-- A string that held 200 as an unsigned byte, and then -7.
theorem string_round_trip : data_initialize_object .STRING none none 0 none none none = .ok (some (blank .STRING)) ∧
    ∀ host : Host, ∃ dt after, Given host (blank .STRING) ⟨.UINT8,200,fun _ => 0⟩ dt ∧
      setter host .INT16 (IntType.cast .INT16 (-7)) (some fun _ => 1) dt = .ok (CPLUS_SUCCESS,after) ∧
      ∀ old, ∃ out, getter host .INT64 old after = .ok ((CPLUS_SUCCESS,out),after) ∧ IntType.read .INT64 out = -7 := by
  have created : data_initialize_object .STRING none none 0 none none none = .ok (some (blank .STRING)) := rfl
  refine ⟨created,fun host => ?_⟩
  obtain ⟨dt,given⟩ : ∃ dt, Given host (blank .STRING) ⟨.UINT8,200,fun _ => 0⟩ dt := ⟨_,_,rfl⟩
  have in_X : IntType.Holds .INT16 (-7) := by decide
  have in_Y : IntType.Holds .INT64 (-7) := by decide
  obtain ⟨after,set_,gets⟩ := typed_round_trip host created (Run.nil.snoc given) (.inl (by simp)) in_X in_Y
    (.inl trivial) (fun _ => 1)
  exact ⟨dt,after,given,set_,gets⟩

end Sessions

end Libcplus.Data
