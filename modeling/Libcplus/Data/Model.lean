import Libcplus.Integers
import Libcplus.Memory
import Libcplus.Program
import Libcplus.Typedef

namespace Libcplus
open Bytes Memory Typedef

inductive IntType where
  | INT8 | INT16 | INT32 | INT64 | UINT8 | UINT16 | UINT32 | UINT64
  deriving DecidableEq, Repr

namespace IntType

-- sizeof
def size : IntType → Nat
  | INT8 | UINT8 => 1
  | INT16 | UINT16 => 2
  | INT32 | UINT32 => 4
  | INT64 | UINT64 => 8

def signed : IntType → Bool
  | INT8 | INT16 | INT32 | INT64 => true
  | UINT8 | UINT16 | UINT32 | UINT64 => false

abbrev bits (type : IntType) : Nat := 8 * type.size

def read (type : IntType) (value : BitVec type.bits) : Int := Integers.read type.signed value

def Holds (type : IntType) (v : Int) : Prop := Integers.Holds type.signed type.bits v

instance (type : IntType) (v : Int) : Decidable (type.Holds v) := by unfold Holds; infer_instance

-- A conversion to the type, as a cast or an assignment makes it.
def cast (type : IntType) (v : Int) : BitVec type.bits := BitVec.ofInt type.bits v

-- Smaller integers are read and written atomically, without the lock.
def spins (type : IntType) : Bool := type.size = 8

end IntType

inductive FloatType where
  | FLOAT | DOUBLE
  deriving DecidableEq, Repr

def FloatType.size : FloatType → Nat
  | FLOAT => 4
  | DOUBLE => 8

abbrev FloatType.bits (type : FloatType) : Nat := 8 * type.size

-- The sixteen types, the integers and the floats each under one constructor.
inductive CPLUS_DATA_TYPE where
  | NULL
  | BOOL
  | integer (type : IntType)
  | real (type : FloatType)
  | POINTER
  | STRING
  | BYTE_ARRAY
  | UNKNOWN
  deriving DecidableEq, Repr

abbrev Pointer := Option (List UInt8)

-- The union, with the member that the type of the object selects.
inductive Value where
  | null
  | b (b : Bool)
  | integer (type : IntType) (bits : BitVec type.bits)
  | real (type : FloatType) (bits : BitVec type.bits)
  | p (p : BitVec 64)
  | str (len : Nat) (bufs : Pointer)
  | byte_array (len : Nat) (bufs : Pointer)
  | unknown
  deriving DecidableEq, Repr

namespace Value

def data_type : Value → CPLUS_DATA_TYPE
  | null => .NULL
  | b _ => .BOOL
  | integer type _ => .integer type
  | real type _ => .real type
  | p _ => .POINTER
  | str _ _ => .STRING
  | byte_array _ _ => .BYTE_ARRAY
  | unknown => .UNKNOWN

def zero : CPLUS_DATA_TYPE → Value
  | .NULL => null
  | .BOOL => b false
  | .integer type => integer type 0
  | .real type => real type 0
  | .POINTER => p 0
  | .STRING => str 0 none
  | .BYTE_ARRAY => byte_array 0 none
  | .UNKNOWN => unknown

end Value

-- struct data. Its type is that of its value.
structure Data where
  is_valid : Bool
  action_mode : Nat
  key_len : Nat
  key : Pointer
  spinlock : Bool
  str_code : Nat
  bufs_size : Nat
  value : Value
  deriving DecidableEq, Repr

namespace Data

-- Why an operation does not return: it waits for a lock that nobody will
-- release, or it reads or writes outside a block or fails an assertion.
inductive Stop where
  | spins
  | crashes
  deriving DecidableEq, Repr

abbrev Routine (α : Type) := Program.Prog Data Stop α

def data_type (dt : Data) : CPLUS_DATA_TYPE := dt.value.data_type

-- The object has one thread, so a lock that is taken stays taken.
def DATA_SPIN_LOCK : Routine Unit := do
  let dt ← get
  if dt.spinlock then throw .spins else set {dt with spinlock := true}

def DATA_SPIN_UNLOCK : Routine Unit := modify fun dt => {dt with spinlock := false}

def spin {α : Type} (body : Routine α) : Routine α := do
  DATA_SPIN_LOCK
  let result ← body
  DATA_SPIN_UNLOCK
  return result

-- The two kinds of GET_VALUE_FROM_DATA_BUFS and SET_VALUE_TO_DATA_BUFS.
def guarded {α : Type} (spins : Bool) (body : Routine α) : Routine α := if spins then spin body else body

def access {α : Type} (result : Option α) : Routine α :=
  match result with
  | none => throw .crashes
  | some result => return result

def put_value (value : Value) : Routine Unit := modify fun dt => {dt with value := value}

-- dt->is_valid = true; return CPLUS_SUCCESS;
def set_valid : Routine Int := do
  modify fun dt => {dt with is_valid := true}
  return CPLUS_SUCCESS

-- *((uint32_t *)(value))
def uint32 (value : List UInt8) : Routine Nat := do
  let bytes ← access (slice value 0 4)
  return readLittle bytes

def cplus_data_get_data_size : Routine Nat := do
  match (← get).value with
  | .null | .unknown => return 0
  | .b _ => return 1
  | .integer type _ => return type.size
  | .real type _ => return type.size
  | .p _ => return 8
  | .str _ bufs => spin do
    let text ← access (bufs.bind c_string)
    return text.length
  | .byte_array len _ => spin (return len)

def cplus_data_get_type : Routine CPLUS_DATA_TYPE := do return (← get).data_type

def cplus_data_is_valid : Routine Bool := do
  let dt ← get
  return dt.is_valid ∧ dt.data_type ≠ .NULL ∧ dt.data_type ≠ .UNKNOWN

def cplus_data_get_key : Routine Pointer := do return (← get).key

-- malloc for a pointer that is NULL, realloc for one that is not.
def allocate (alloc : Outcome) (bufs : Pointer) (size : Nat) : Pointer :=
  match bufs with
  | none => cplus_malloc alloc size
  | some old => cplus_realloc alloc old size

def cplus_data_set_key (key_len : Nat) (key : Pointer) (alloc : Outcome) : Routine Int :=
  if key = none ∨ key_len = 0 then return CPLUS_FAIL
  else do
    DATA_SPIN_LOCK
    let key_len := (key_len + 1) % 2^32
    let dt ← get
    if key_len ≤ dt.key_len then do
      let copied ← access (cplus_mem_cpy_ex dt.key 0 dt.key_len key 0 key_len)
      set {dt with key := copied.2}
      DATA_SPIN_UNLOCK
      return CPLUS_SUCCESS
    else
      match allocate alloc dt.key key_len with
      | none => do
        set {dt with key_len := key_len,key := none}
        DATA_SPIN_UNLOCK
        return CPLUS_FAIL
      | some block => do
        let copied ← access (cplus_mem_cpy_ex (some block) 0 key_len key 0 key_len)
        set {dt with key_len := key_len,key := copied.2}
        DATA_SPIN_UNLOCK
        return CPLUS_SUCCESS

def cplus_data_set_action_mode (mode : Nat) : Routine Int := do
  modify fun dt => {dt with action_mode := mode}
  return CPLUS_SUCCESS

def cplus_data_get_action_mode : Routine Nat := do return (← get).action_mode

-- The bytes of a scalar in the union.
def store (value : List UInt8) (bytes : List UInt8) : Routine Pointer := do
  let written ← access (splice value 0 bytes)
  return some written

def bool_bytes (b : Bool) : List UInt8 := [if b then 1 else 0]

def bytes {w : Nat} (size : Nat) (bits : BitVec w) : List UInt8 := littleEndian size bits.toNat

def from_bytes (w : Nat) (bytes : List UInt8) : BitVec w := BitVec.ofNat w (readLittle bytes)

-- The answer with what the call left at value1 and value2.
def cplus_data_get_value (value1 value2 : Pointer) : Routine (Int × Pointer × Pointer) :=
  match value1 with
  | none => return (CPLUS_FAIL,value1,value2)
  | some dest => do
    match (← get).value with
    | .null | .unknown => return (CPLUS_FAIL,value1,value2)
    | .b b => do
      let written ← store dest (bool_bytes b)
      return (1,written,value2)
    | .integer type bits => do
      let written ← guarded type.spins (store dest (bytes type.size bits))
      return (type.size,written,value2)
    | .real type bits => do
      let written ← spin (store dest (bytes type.size bits))
      return (type.size,written,value2)
    | .p p => do
      let written ← store dest (bytes 8 p)
      return (8,written,value2)
    | .str _ bufs =>
      if value2 = none then return (CPLUS_FAIL,value1,value2)
      else spin do
        let size ← uint32 dest
        let text ← access (bufs.bind c_string)
        if size < text.length + 1 then return (CPLUS_FAIL,value1,value2)
        else do
          let printed ← access (cplus_str_printf value2 size text)
          return (printed.1,value1,printed.2)
    | .byte_array len bufs =>
      if value2 = none then return (CPLUS_FAIL,value1,value2)
      else do
        DATA_SPIN_LOCK
        let size ← uint32 dest
        if size < len then do
          DATA_SPIN_UNLOCK
          return (CPLUS_FAIL,value1,value2)
        else do
          let copied ← access (cplus_mem_cpy_ex value2 0 size bufs 0 len)
          if copied.1 then do
            DATA_SPIN_UNLOCK
            return (len,value1,copied.2)
          -- This return leaves the lock taken.
          else return (CPLUS_FAIL,value1,value2)

-- A buffer that has to hold `need` bytes, and how many it holds then: the length
-- of a string, and dt->bufs_size of a byte array.
def room (alloc : Outcome) (len : Nat) (bufs : Pointer) (need : Nat) : Nat × Pointer :=
  match bufs with
  | none => (need,cplus_malloc alloc need)
  | some old => if need > len then (need,cplus_realloc alloc old need) else (len,some old)

section Buffers
variable {alloc : Outcome} {bufs : Pointer} {block : List UInt8} {need : Nat}

theorem allocate_length (obtained : allocate alloc bufs need = some block) : block.length = need := by
  cases bufs with
  | none => exact malloc_length obtained
  | some old => exact realloc_length obtained

theorem allocate_granted (garbage : Nat → UInt8) (bufs : Pointer) (need : Nat) :
    ∃ block, allocate (some garbage) bufs need = some block := by
  cases bufs with
  | none => exact ⟨_,rfl⟩
  | some old => exact ⟨_,rfl⟩

theorem allocate_refused (refused : allocate alloc bufs need = none) : alloc = none := by
  cases bufs with
  | none => exact Option.map_eq_none_iff.mp refused
  | some old => exact Option.map_eq_none_iff.mp refused

-- A buffer that is NULL or too small is a new one, and any other stays.
theorem room_parts (alloc : Outcome) (len : Nat) (bufs : Pointer) (need : Nat) :
    ((bufs = none ∨ len < need) ∧ room alloc len bufs need = (need,allocate alloc bufs need)) ∨
      ∃ old, bufs = some old ∧ need ≤ len ∧ room alloc len bufs need = (len,some old) := by
  cases bufs with
  | none => exact .inl ⟨.inl rfl,rfl⟩
  | some old =>
    by_cases grows : need > len
    · exact .inl ⟨.inr grows,if_pos grows⟩
    · exact .inr ⟨old,rfl,Nat.le_of_not_lt grows,if_neg grows⟩

end Buffers

-- What both value setters and the setters of numbers do under the lock.
def set_text (alloc : Outcome) (len : Nat) (bufs : Pointer) (need : Nat)
    (fill : Nat → List UInt8 → Routine Pointer) : Routine Bool :=
  match room alloc len bufs need with
  | (len,none) => do
    put_value (.str len none)
    return false
  | (len,some block) => do
    let written ← fill len block
    put_value (.str len written)
    return true

-- cplus_str_printf of `%s`, or cplus_mem_set.
def fill_string (value2 : Pointer) (len : Nat) (block : List UInt8) : Routine Pointer :=
  match value2 with
  | some value => do
    let text ← access (c_string value)
    let printed ← access (cplus_str_printf (some block) len text)
    return printed.2
  | none => do
    let cleared ← access (cplus_mem_set (some block) 0 len)
    return cleared.2

def fill_array (value2 : Pointer) (size count : Nat) (block : List UInt8) : Routine Pointer :=
  match value2 with
  | some _ => do
    let copied ← access (cplus_mem_cpy_ex (some block) 0 size value2 0 count)
    return copied.2
  | none => do
    let cleared ← access (cplus_mem_set (some block) 0 size)
    return cleared.2

def set_array (alloc : Outcome) (len : Nat) (bufs : Pointer) (need : Nat) (value2 : Pointer) : Routine Bool :=
  match room alloc len bufs need with
  | (size,none) => do
    modify fun dt => {dt with bufs_size := size,value := .byte_array need none}
    return false
  | (size,some block) => do
    let written ← fill_array value2 size need block
    modify fun dt => {dt with bufs_size := size,value := .byte_array need written}
    return true

def settle (done : Bool) : Routine Int := if done then set_valid else return CPLUS_FAIL

def cplus_data_set_value (value1 value2 : Pointer) (alloc : Outcome) : Routine Int :=
  match value1 with
  | none => return CPLUS_FAIL
  | some source => do
    match (← get).value with
    | .null | .unknown => return CPLUS_FAIL
    | .b _ => do
      let read ← access (slice source 0 1)
      put_value (.b (readLittle read ≠ 0))
      set_valid
    | .integer type _ => do
      guarded type.spins do
        let read ← access (slice source 0 type.size)
        put_value (.integer type (from_bytes type.bits read))
      set_valid
    | .real type _ => do
      spin do
        let read ← access (slice source 0 type.size)
        put_value (.real type (from_bytes type.bits read))
      set_valid
    | .p _ => do
      let read ← access (slice source 0 8)
      put_value (.p (from_bytes 64 read))
      set_valid
    | .str len bufs => do
      let done ← spin do
        let count ← uint32 source
        set_text alloc len bufs ((count + 1) % 2^32) (fill_string value2)
      settle done
    | .byte_array len bufs => do
      let done ← spin do
        let count ← uint32 source
        set_array alloc len bufs count value2
      settle done

def cplus_data_set_string (str_len : Nat) (str_bufs : Pointer) (alloc : Outcome) : Routine Int :=
  cplus_data_set_value (some (littleEndian32 str_len)) str_bufs alloc

def cplus_data_set_byte_array (array_len : Nat) (array_bufs : Pointer) (alloc : Outcome) : Routine Int :=
  cplus_data_set_value (some (littleEndian32 array_len)) array_bufs alloc

-- The other typed setters pass the address of their argument.
def set_scalar (value : List UInt8) (alloc : Outcome) : Routine Int := cplus_data_set_value (some value) none alloc

def cplus_data_set_bool (value : Bool) : Outcome → Routine Int := set_scalar (bool_bytes value)
def cplus_data_set_int8 (value : BitVec 8) : Outcome → Routine Int := set_scalar (bytes 1 value)
def cplus_data_set_int16 (value : BitVec 16) : Outcome → Routine Int := set_scalar (bytes 2 value)
def cplus_data_set_int32 (value : BitVec 32) : Outcome → Routine Int := set_scalar (bytes 4 value)
def cplus_data_set_int64 (value : BitVec 64) : Outcome → Routine Int := set_scalar (bytes 8 value)
def cplus_data_set_uint8 (value : BitVec 8) : Outcome → Routine Int := set_scalar (bytes 1 value)
def cplus_data_set_uint16 (value : BitVec 16) : Outcome → Routine Int := set_scalar (bytes 2 value)
def cplus_data_set_uint32 (value : BitVec 32) : Outcome → Routine Int := set_scalar (bytes 4 value)
def cplus_data_set_uint64 (value : BitVec 64) : Outcome → Routine Int := set_scalar (bytes 8 value)
def cplus_data_set_float (value : BitVec 32) : Outcome → Routine Int := set_scalar (bytes 4 value)
def cplus_data_set_double (value : BitVec 64) : Outcome → Routine Int := set_scalar (bytes 8 value)
def cplus_data_set_pointer (value : BitVec 64) : Outcome → Routine Int := set_scalar (bytes 8 value)

-- The members of such a family, by their type.
def typed_setter : (type : IntType) → BitVec type.bits → Outcome → Routine Int
  | .INT8 => cplus_data_set_int8
  | .INT16 => cplus_data_set_int16
  | .INT32 => cplus_data_set_int32
  | .INT64 => cplus_data_set_int64
  | .UINT8 => cplus_data_set_uint8
  | .UINT16 => cplus_data_set_uint16
  | .UINT32 => cplus_data_set_uint32
  | .UINT64 => cplus_data_set_uint64

theorem typed_setter_eq (type : IntType) (value : BitVec type.bits) :
    typed_setter type value = set_scalar (bytes type.size value) := by cases type <;> rfl

def typed_float_setter : (type : FloatType) → BitVec type.bits → Outcome → Routine Int
  | .FLOAT => cplus_data_set_float
  | .DOUBLE => cplus_data_set_double

theorem typed_float_setter_eq (type : FloatType) (value : BitVec type.bits) :
    typed_float_setter type value = set_scalar (bytes type.size value) := by cases type <;> rfl

def cplus_data_set_string_code (code : Nat) : Routine Int := do
  match (← get).value with
  | .str _ _ => do
    modify fun dt => {dt with str_code := code}
    return CPLUS_SUCCESS
  | _ => return CPLUS_FAIL

-- A typed getter asserts the type of the object.
def cplus_data_get_bool : Routine Bool := do
  match (← get).value with
  | .b b => return b
  | _ => throw .crashes

def get_integer (type : IntType) : Routine Int := do
  match (← get).value with
  | .integer other bits => if other = type then guarded type.spins (return other.read bits) else throw .crashes
  | _ => throw .crashes

def cplus_data_get_int8 : Routine Int := get_integer .INT8
def cplus_data_get_int16 : Routine Int := get_integer .INT16
def cplus_data_get_int32 : Routine Int := get_integer .INT32
def cplus_data_get_int64 : Routine Int := get_integer .INT64
def cplus_data_get_uint8 : Routine Int := get_integer .UINT8
def cplus_data_get_uint16 : Routine Int := get_integer .UINT16
def cplus_data_get_uint32 : Routine Int := get_integer .UINT32
def cplus_data_get_uint64 : Routine Int := get_integer .UINT64

def typed_getter : IntType → Routine Int
  | .INT8 => cplus_data_get_int8
  | .INT16 => cplus_data_get_int16
  | .INT32 => cplus_data_get_int32
  | .INT64 => cplus_data_get_int64
  | .UINT8 => cplus_data_get_uint8
  | .UINT16 => cplus_data_get_uint16
  | .UINT32 => cplus_data_get_uint32
  | .UINT64 => cplus_data_get_uint64

theorem typed_getter_eq (type : IntType) : typed_getter type = get_integer type := by cases type <;> rfl

def get_real (type : FloatType) : Routine (BitVec type.bits) := do
  match (← get).value with
  | .real other bits => if same : other = type then spin (return same ▸ bits) else throw .crashes
  | _ => throw .crashes

def cplus_data_get_float : Routine (BitVec 32) := get_real .FLOAT
def cplus_data_get_double : Routine (BitVec 64) := get_real .DOUBLE

def typed_float_getter : (type : FloatType) → Routine (BitVec type.bits)
  | .FLOAT => cplus_data_get_float
  | .DOUBLE => cplus_data_get_double

theorem typed_float_getter_eq (type : FloatType) : typed_float_getter type = get_real type := by
  cases type <;> rfl

def cplus_data_get_pointer : Routine (BitVec 64) := do
  match (← get).value with
  | .p p => return p
  | _ => throw .crashes

def cplus_data_get_string : Routine Pointer := do
  match (← get).value with
  | .str _ bufs => return bufs
  | _ => throw .crashes

def cplus_data_get_byte_array : Routine Pointer := do
  match (← get).value with
  | .byte_array _ bufs => return bufs
  | _ => throw .crashes

def cplus_data_get_string_code : Routine Nat := do
  let dt ← get
  if dt.data_type = .STRING then return dt.str_code else throw .crashes

-- cplus_realloc refuses a buffer that is NULL.
def clone_room (alloc : Outcome) (bufs : Pointer) (size : Nat) : Pointer :=
  bufs.bind fun old => cplus_realloc alloc old size

def cplus_data_clone_value (src : Data) (alloc : Outcome) : Routine Int := do
  let dest ← get
  if dest.data_type ≠ src.data_type then return CPLUS_FAIL
  else
    match dest.value,src.value with
    | .str len bufs,.str src_len src_bufs =>
      if src_len > len then
        match clone_room alloc bufs src_len with
        | none => do
          set {dest with str_code := src.str_code,value := .str len none}
          return CPLUS_FAIL
        | some block => do
          let copied ← access (cplus_mem_cpy (some block) src_bufs src_len)
          set {dest with str_code := src.str_code,value := .str src_len copied}
          return CPLUS_SUCCESS
      else do
        let copied ← access (cplus_mem_cpy bufs src_bufs len)
        set {dest with str_code := src.str_code,value := .str len copied}
        return CPLUS_SUCCESS
    | .byte_array len bufs,.byte_array src_len src_bufs =>
      if src.bufs_size > dest.bufs_size then
        match clone_room alloc bufs src.bufs_size with
        | none => do
          put_value (.byte_array len none)
          return CPLUS_FAIL
        | some block => do
          let copied ← access (cplus_mem_cpy (some block) src_bufs src_len)
          set {dest with bufs_size := src.bufs_size,value := .byte_array src_len copied}
          return CPLUS_SUCCESS
      else do
        let copied ← access (cplus_mem_cpy bufs src_bufs len)
        put_value (.byte_array len copied)
        return CPLUS_SUCCESS
    | _,value => do
      put_value value
      return CPLUS_SUCCESS

-- An object with no value and no key yet.
def blank (type : CPLUS_DATA_TYPE) : Data :=
  {is_valid := false,action_mode := 0,key_len := 0,key := none,spinlock := false,str_code := 0,
    bufs_size := 0,value := .zero type}

def set_up_key (key_len : Nat) (key : Pointer) (alloc : Outcome) : Routine Bool :=
  if key ≠ none ∧ 0 < key_len then do
    let res ← cplus_data_set_key key_len key alloc
    return res = CPLUS_SUCCESS
  else return true

def set_up_value (value1 value2 : Pointer) (alloc : Outcome) : Routine Bool :=
  if value1 ≠ none then do
    let res ← cplus_data_set_value value1 value2 alloc
    return res = CPLUS_SUCCESS
  else return true

def set_up (value1 value2 : Pointer) (key_len : Nat) (key : Pointer) (value_alloc key_alloc : Outcome) :
    Routine Bool := do
  let valued ← set_up_value value1 value2 value_alloc
  if valued then set_up_key key_len key key_alloc else return false

-- The two allocations are those of the value and of the key; the object itself
-- is there. NULL is the answer when one of the setters fails.
def data_initialize_object (type : CPLUS_DATA_TYPE) (value1 value2 : Pointer) (key_len : Nat) (key : Pointer)
    (value_alloc key_alloc : Outcome) : Except Stop (Option Data) :=
  match set_up value1 value2 key_len key value_alloc key_alloc (blank type) with
  | .error reason => .error reason
  | .ok (done,dt) => .ok (if done then some dt else none)

def cplus_data_new (type : CPLUS_DATA_TYPE) (value1 value2 : Pointer) (alloc : Outcome) : Except Stop (Option Data) :=
  data_initialize_object type value1 value2 0 none alloc none

def cplus_data_new_ex (type : CPLUS_DATA_TYPE) (value1 value2 : Pointer) (key_len : Nat) (key : Pointer)
    (value_alloc key_alloc : Outcome) : Except Stop (Option Data) :=
  data_initialize_object type value1 value2 key_len key value_alloc key_alloc

end Data

end Libcplus
