import Libcplus.Data.Model
import Libcplus.Decimal

namespace Libcplus
open Bytes Memory Typedef

-- The conversions of printf and scanf. The last two are REG_LD and REG_LU of a
-- machine with 64-bit longs. A numeral that the type does not hold is undefined
-- for scanf; here it is reduced to the type.
inductive Format where
  | d | u | ld | lu
  deriving DecidableEq, Repr

namespace Format

def type : Format → IntType
  | d => .INT32
  | u => .UINT32
  | ld => .INT64
  | lu => .UINT64

def print (format : Format) (v : Int) : List UInt8 := Decimal.print (format.type.read (format.type.cast v))

def scan (format : Format) (text : List UInt8) : Option (BitVec format.type.bits) :=
  (Decimal.scan text).map format.type.cast

end Format

-- The format that goes with a type.
def IntType.format : IntType → Format
  | .INT8 | .INT16 | .INT32 => .d
  | .UINT8 | .UINT16 | .UINT32 => .u
  | .INT64 => .ld
  | .UINT64 => .lu

-- The conversions of the floating point unit, and what printf and scanf make of
-- floats and of pointers. Nothing is assumed of them.
structure Host where
  of_int (type : FloatType) (v : Int) : BitVec type.bits
  to_int (type : FloatType) (value : BitVec type.bits) : Int
  convert (source dest : FloatType) (value : BitVec source.bits) : BitVec dest.bits
  is_zero (type : FloatType) (value : BitVec type.bits) : Bool
  print (type : FloatType) (value : BitVec type.bits) : List UInt8
  scan (type : FloatType) (text : List UInt8) : Option (BitVec type.bits)
  print_pointer (p : BitVec 64) : List UInt8
  scan_pointer (text : List UInt8) : Option (BitVec 64)

namespace Data
variable (host : Host)

def ascii (s : String) : List UInt8 := s.toList.map fun c => .ofNat c.toNat

def lower (c : UInt8) : UInt8 := if 65 ≤ c ∧ c ≤ 90 then c + 32 else c

-- 0 == strcasecmp(a, b)
def same_text (a b : List UInt8) : Bool := a.map lower = b.map lower

-- cplus_mem_cpy into a variable of the caller, as many of its bytes as there are.
def fill_variable (value : List UInt8) (len : Nat) (bufs : Pointer) : Routine (List UInt8) := do
  let copied ← access (cplus_mem_cpy (some value) bufs (if len > value.length then value.length else len))
  return copied.getD value

-- The getters answer with what the caller's variable holds after the call.
def cplus_data_get_as_bool (value : Bool) : Routine (Int × Bool) := do
  match (← get).value with
  | .null | .unknown => return (CPLUS_FAIL,value)
  | .b b => return (CPLUS_SUCCESS,b)
  | .integer type bits => do
    let result ← guarded type.spins (return decide (type.read bits ≠ 0))
    return (CPLUS_SUCCESS,result)
  | .real type bits => do
    let result ← spin (return !host.is_zero type bits)
    return (CPLUS_SUCCESS,result)
  | .p p => return (CPLUS_SUCCESS,p ≠ 0)
  | .str len bufs => spin do
    if len = 0 ∨ bufs = none then return (CPLUS_FAIL,value)
    else do
      let text ← access (bufs.bind c_string)
      if same_text (ascii "true") text then return (CPLUS_SUCCESS,true)
      else if same_text (ascii "false") text then return (CPLUS_SUCCESS,false)
      else return (CPLUS_FAIL,value)
  | .byte_array len bufs => spin do
    if len = 0 ∨ bufs = none then return (CPLUS_FAIL,value)
    else do
      let first ← access (bufs.bind List.head?)
      return (CPLUS_SUCCESS,0 < first)

-- The integer getters differ in their type and in the format for a string.
def get_as_integer (type : IntType) (format : Format) (value : BitVec type.bits) :
    Routine (Int × BitVec type.bits) := do
  match (← get).value with
  | .null | .unknown => return (CPLUS_FAIL,value)
  | .b b => return (CPLUS_SUCCESS,type.cast (if b then 1 else 0))
  | .integer source bits => do
    let result ← guarded source.spins (return type.cast (source.read bits))
    return (CPLUS_SUCCESS,result)
  | .real source bits => do
    let result ← spin (return type.cast (host.to_int source bits))
    return (CPLUS_SUCCESS,result)
  | .p p => return (CPLUS_SUCCESS,type.cast p.toInt)
  | .str _ bufs => spin do
    let text ← access (bufs.bind c_string)
    match format.scan text with
    | none => return (CPLUS_FAIL,value)
    | some number => return (CPLUS_SUCCESS,type.cast (format.type.read number))
  | .byte_array len bufs => spin do
    let result ← fill_variable (bytes type.size value) len bufs
    return (CPLUS_SUCCESS,from_bytes type.bits result)

def cplus_data_get_as_int8 : BitVec 8 → Routine (Int × BitVec 8) := get_as_integer host .INT8 .d
def cplus_data_get_as_int16 : BitVec 16 → Routine (Int × BitVec 16) := get_as_integer host .INT16 .d
def cplus_data_get_as_int32 : BitVec 32 → Routine (Int × BitVec 32) := get_as_integer host .INT32 .d
def cplus_data_get_as_int64 : BitVec 64 → Routine (Int × BitVec 64) := get_as_integer host .INT64 .ld
def cplus_data_get_as_uint8 : BitVec 8 → Routine (Int × BitVec 8) := get_as_integer host .UINT8 .u
def cplus_data_get_as_uint16 : BitVec 16 → Routine (Int × BitVec 16) := get_as_integer host .UINT16 .u
def cplus_data_get_as_uint32 : BitVec 32 → Routine (Int × BitVec 32) := get_as_integer host .UINT32 .u
def cplus_data_get_as_uint64 : BitVec 64 → Routine (Int × BitVec 64) := get_as_integer host .UINT64 .lu

def getter : (type : IntType) → BitVec type.bits → Routine (Int × BitVec type.bits)
  | .INT8 => cplus_data_get_as_int8 host
  | .INT16 => cplus_data_get_as_int16 host
  | .INT32 => cplus_data_get_as_int32 host
  | .INT64 => cplus_data_get_as_int64 host
  | .UINT8 => cplus_data_get_as_uint8 host
  | .UINT16 => cplus_data_get_as_uint16 host
  | .UINT32 => cplus_data_get_as_uint32 host
  | .UINT64 => cplus_data_get_as_uint64 host

theorem getter_eq (type : IntType) : getter host type = get_as_integer host type type.format := by
  cases type <;> rfl

-- The two float getters take the lock for every type.
def get_as_real (type : FloatType) (value : BitVec type.bits) : Routine (Int × BitVec type.bits) := do
  match (← get).value with
  | .null | .unknown => return (CPLUS_FAIL,value)
  | .b b => spin (return (CPLUS_SUCCESS,host.of_int type (if b then 1 else 0)))
  | .integer source bits => spin (return (CPLUS_SUCCESS,host.of_int type (source.read bits)))
  | .real source bits => spin (return (CPLUS_SUCCESS,host.convert source type bits))
  | .p p => spin (return (CPLUS_SUCCESS,host.of_int type p.toInt))
  | .str _ bufs => spin do
    let text ← access (bufs.bind c_string)
    match host.scan type text with
    | none => return (CPLUS_FAIL,value)
    | some number => return (CPLUS_SUCCESS,number)
  | .byte_array len bufs => spin do
    let result ← fill_variable (bytes type.size value) len bufs
    return (CPLUS_SUCCESS,from_bytes type.bits result)

def cplus_data_get_as_float : BitVec 32 → Routine (Int × BitVec 32) := get_as_real host .FLOAT
def cplus_data_get_as_double : BitVec 64 → Routine (Int × BitVec 64) := get_as_real host .DOUBLE

def float_getter : (type : FloatType) → BitVec type.bits → Routine (Int × BitVec type.bits)
  | .FLOAT => cplus_data_get_as_float host
  | .DOUBLE => cplus_data_get_as_double host

theorem float_getter_eq (type : FloatType) : float_getter host type = get_as_real host type := by
  cases type <;> rfl

-- A length as the int32_t that a call answers with.
def int32 (n : Nat) : Int := IntType.INT32.read (IntType.INT32.cast n)

-- What vsnprintf answers, as a uint32_t: -1 for a text that an int32_t cannot count.
def printed_length (text : List UInt8) : Nat := if text.length < 2^31 then text.length else 2^32 - 1

-- What is printed to tmp_bufs, which has 256 bytes, and from there to str_bufs.
def print_out (str_len : Nat) (str_bufs : Pointer) (text : List UInt8) : Routine (Int × Pointer) :=
  if str_len < (printed_length text + 1) % 2^32 then return (CPLUS_FAIL,str_bufs)
  else do
    let printed ← access (cplus_str_printf str_bufs str_len (text.take 255))
    return (printed.1,printed.2)

def cplus_data_get_as_string (str_len : Nat) (str_bufs : Pointer) : Routine (Int × Pointer) :=
  if str_len = 0 ∨ str_bufs = none then return (CPLUS_FAIL,str_bufs)
  else do
    match (← get).value with
    | .null | .unknown => return (CPLUS_FAIL,str_bufs)
    | .b b => do
      let text ← spin (return if b then ascii "true" else ascii "false")
      print_out str_len str_bufs text
    | .integer type bits => do
      let text ← spin (return type.format.print (type.read bits))
      print_out str_len str_bufs text
    | .real type bits => do
      let text ← spin (return host.print type bits)
      print_out str_len str_bufs text
    | .p p => do
      let text ← spin (return host.print_pointer p)
      print_out str_len str_bufs text
    | .str _ bufs => do
      let text ← spin (access (bufs.bind c_string))
      print_out str_len str_bufs text
    | .byte_array len bufs => spin do
      if str_len < (len + 1) % 2^32 then return (CPLUS_FAIL,str_bufs)
      else do
        let copied ← access (cplus_mem_cpy_ex str_bufs 0 str_len bufs 0 len)
        let ended ← access (copied.2.bind fun out => splice out ((len + 2^32 - 1) % 2^32) [0])
        return (int32 len,some ended)

-- As many bytes as the array has room for.
def copy_out (array_len : Nat) (array_bufs : Pointer) (size : Nat) (source : Pointer) : Routine (Int × Pointer) :=
  spin do
    let len := if size > array_len then array_len else size
    let copied ← access (cplus_mem_cpy array_bufs source len)
    return (int32 len,copied)

def cplus_data_get_as_byte_array (array_len : Nat) (array_bufs : Pointer) : Routine (Int × Pointer) :=
  if array_len = 0 ∨ array_bufs = none then return (CPLUS_FAIL,array_bufs)
  else do
    match (← get).value with
    | .null | .unknown => return (CPLUS_FAIL,array_bufs)
    | .b b => copy_out array_len array_bufs 1 (some (bool_bytes b))
    | .integer type bits => copy_out array_len array_bufs type.size (some (bytes type.size bits))
    | .real type bits => copy_out array_len array_bufs type.size (some (bytes type.size bits))
    | .p p => copy_out array_len array_bufs 8 (some (bytes 8 p))
    | .str len bufs => copy_out array_len array_bufs len bufs
    | .byte_array len bufs => copy_out array_len array_bufs len bufs

-- The second cplus_str_printf of a setter that writes a number to a string.
def fill_text (text : List UInt8) (len : Nat) (block : List UInt8) : Routine Pointer := do
  let printed ← access (cplus_str_printf (some block) len text)
  return printed.2

-- What the string setters do under the lock, which is taken already.
def set_printed (alloc : Outcome) (len : Nat) (bufs : Pointer) (text : List UInt8) : Routine Bool :=
  set_text alloc len bufs ((text.length + 1) % 2^32) (fill_text text)

def cplus_data_set_as_bool (value : Bool) (alloc : Outcome) : Routine Int := do
  match (← get).value with
  | .null | .unknown => return CPLUS_FAIL
  | .b _ => do
    put_value (.b value)
    set_valid
  | .integer type _ => do
    guarded type.spins (put_value (.integer type (type.cast (if value then 1 else 0))))
    set_valid
  | .real type _ => do
    spin (put_value (.real type (host.of_int type (if value then 1 else 0))))
    set_valid
  | .p _ => do
    put_value (.p (if value then 1 else 0))
    set_valid
  | .str _ _ => do
    let text := if value then ascii "true" else ascii "false"
    let _ ← cplus_data_set_string text.length (some (text ++ [0])) alloc
    set_valid
  | .byte_array _ _ => do
    let _ ← cplus_data_set_byte_array 1 (some (bool_bytes value)) alloc
    set_valid

-- The integer setters differ in their type and in the format for a string.
def set_as_integer (type : IntType) (format : Format) (value : BitVec type.bits) (alloc : Outcome) :
    Routine Int := do
  match (← get).value with
  | .null | .unknown => return CPLUS_FAIL
  | .b _ => do
    spin (put_value (.b (type.read value ≠ 0)))
    set_valid
  | .integer dest _ => do
    guarded dest.spins (put_value (.integer dest (dest.cast (type.read value))))
    set_valid
  | .real dest _ => do
    spin (put_value (.real dest (host.of_int dest (type.read value))))
    set_valid
  | .p _ => do
    put_value (.p (BitVec.ofInt 64 (type.read value)))
    set_valid
  | .str len bufs => do
    let done ← spin (set_printed alloc len bufs (format.print (type.read value)))
    settle done
  | .byte_array _ _ => do
    let _ ← cplus_data_set_byte_array type.size (some (bytes type.size value)) alloc
    set_valid

def cplus_data_set_as_int8 : BitVec 8 → Outcome → Routine Int := set_as_integer host .INT8 .d
def cplus_data_set_as_int16 : BitVec 16 → Outcome → Routine Int := set_as_integer host .INT16 .d
def cplus_data_set_as_int32 : BitVec 32 → Outcome → Routine Int := set_as_integer host .INT32 .d
def cplus_data_set_as_int64 : BitVec 64 → Outcome → Routine Int := set_as_integer host .INT64 .ld
def cplus_data_set_as_uint8 : BitVec 8 → Outcome → Routine Int := set_as_integer host .UINT8 .u
def cplus_data_set_as_uint16 : BitVec 16 → Outcome → Routine Int := set_as_integer host .UINT16 .u
def cplus_data_set_as_uint32 : BitVec 32 → Outcome → Routine Int := set_as_integer host .UINT32 .u
def cplus_data_set_as_uint64 : BitVec 64 → Outcome → Routine Int := set_as_integer host .UINT64 .lu

def setter : (type : IntType) → BitVec type.bits → Outcome → Routine Int
  | .INT8 => cplus_data_set_as_int8 host
  | .INT16 => cplus_data_set_as_int16 host
  | .INT32 => cplus_data_set_as_int32 host
  | .INT64 => cplus_data_set_as_int64 host
  | .UINT8 => cplus_data_set_as_uint8 host
  | .UINT16 => cplus_data_set_as_uint16 host
  | .UINT32 => cplus_data_set_as_uint32 host
  | .UINT64 => cplus_data_set_as_uint64 host

-- Each member uses the format of its own type.
theorem setter_eq (type : IntType) : setter host type = set_as_integer host type type.format := by
  cases type <;> rfl

def cplus_data_set_as_float (value : BitVec 32) (alloc : Outcome) : Routine Int := do
  match (← get).value with
  | .null | .unknown => return CPLUS_FAIL
  | .b _ => do
    spin (put_value (.b (!host.is_zero .FLOAT value)))
    set_valid
  | .integer type _ => do
    spin (put_value (.integer type (type.cast (host.to_int .FLOAT value))))
    set_valid
  | .real type _ => do
    spin (put_value (.real type (host.convert .FLOAT type value)))
    set_valid
  | .p _ => do
    spin (put_value (.p (BitVec.ofInt 64 (host.to_int .FLOAT value))))
    set_valid
  | .str len bufs => do
    let done ← spin (set_printed alloc len bufs (host.print .FLOAT value))
    settle done
  | .byte_array _ _ => do
    let _ ← cplus_data_set_byte_array 4 (some (bytes 4 value)) alloc
    set_valid

-- DATA_SPIN_UNLOCK(); dt->is_valid = true; return CPLUS_SUCCESS;
def release_valid : Routine Int := do
  DATA_SPIN_UNLOCK
  set_valid

def release (done : Bool) : Routine Int := do
  DATA_SPIN_UNLOCK
  settle done

-- These two hold the lock over the whole switch, and a byte array is set by a
-- function that takes it too.
def cplus_data_set_as_double (value : BitVec 64) (alloc : Outcome) : Routine Int := do
  DATA_SPIN_LOCK
  match (← get).value with
  | .null | .unknown => do
    DATA_SPIN_UNLOCK
    return CPLUS_FAIL
  | .b _ => do
    put_value (.b (!host.is_zero .DOUBLE value))
    release_valid
  | .integer type _ => do
    put_value (.integer type (type.cast (host.to_int .DOUBLE value)))
    release_valid
  | .real type _ => do
    put_value (.real type (host.convert .DOUBLE type value))
    release_valid
  | .p _ => do
    put_value (.p (BitVec.ofInt 64 (host.to_int .DOUBLE value)))
    release_valid
  | .str len bufs => do
    let done ← set_printed alloc len bufs (host.print .DOUBLE value)
    release done
  | .byte_array _ _ => do
    let _ ← cplus_data_set_byte_array 8 (some (bytes 8 value)) alloc
    release_valid

def cplus_data_set_as_pointer (value : BitVec 64) (alloc : Outcome) : Routine Int := do
  DATA_SPIN_LOCK
  match (← get).value with
  | .null | .unknown => do
    DATA_SPIN_UNLOCK
    return CPLUS_FAIL
  | .b _ => do
    put_value (.b (value.toInt ≠ 0))
    release_valid
  | .integer type _ => do
    put_value (.integer type (type.cast value.toInt))
    release_valid
  | .real type _ => do
    put_value (.real type (host.of_int type value.toInt))
    release_valid
  | .p _ => do
    put_value (.p value)
    release_valid
  | .str len bufs => do
    let done ← set_printed alloc len bufs (host.print_pointer value)
    release done
  | .byte_array _ _ => do
    let _ ← cplus_data_set_byte_array 8 (some (bytes 8 value)) alloc
    release_valid

-- A value that the text does not give is left as it was. Only a string answers
-- with success.
def set_scanned (value : Option Value) : Routine Unit := spin do
  match value with
  | none => return ()
  | some value => put_value value

def valid_but_failed : Routine Int := do
  let _ ← set_valid
  return CPLUS_FAIL

def scan_bool (text : List UInt8) : Option Value :=
  if same_text (ascii "true") text then some (.b true)
  else if same_text (ascii "false") text then some (.b false)
  else none

def cplus_data_set_as_string (str_len : Nat) (str_bufs : Pointer) (alloc : Outcome) : Routine Int :=
  match str_bufs with
  | none => return CPLUS_FAIL
  | some source => do
    match (← get).value with
    | .null | .unknown => return CPLUS_FAIL
    | .b _ => do
      let text ← access (c_string source)
      set_scanned (scan_bool text)
      valid_but_failed
    | .integer type _ => do
      let text ← access (c_string source)
      set_scanned ((type.format.scan text).map fun number =>
        .integer type (type.cast (type.format.type.read number)))
      valid_but_failed
    | .real type _ => do
      let text ← access (c_string source)
      set_scanned ((host.scan type text).map (.real type))
      valid_but_failed
    | .p _ => do
      let text ← access (c_string source)
      set_scanned ((host.scan_pointer text).map .p)
      valid_but_failed
    | .str _ _ => do
      let res ← cplus_data_set_string str_len str_bufs alloc
      let _ ← set_valid
      return res
    | .byte_array _ _ => do
      let _ ← cplus_data_set_byte_array str_len str_bufs alloc
      valid_but_failed

-- A scalar needs all its bytes.
def set_copied (array_len size : Nat) (array_bufs : List UInt8) (value : List UInt8 → Value) : Routine Bool :=
  spin do
    if array_len < size then return false
    else do
      let read ← access (slice array_bufs 0 size)
      put_value (value read)
      return true

-- The same into a buffer, which keeps its length.
def set_buffer (array_len need len : Nat) (bufs array_bufs : Pointer) (value : Pointer → Value) : Routine Bool :=
  spin do
    if array_len < need then return false
    else do
      let copied ← access (cplus_mem_cpy bufs array_bufs len)
      put_value (value copied)
      return true

def finish_copied (done : Bool) : Routine Int := if done then valid_but_failed else return CPLUS_FAIL

def cplus_data_set_as_byte_array (array_len : Nat) (array_bufs : Pointer) : Routine Int :=
  match array_bufs with
  | none => return CPLUS_FAIL
  | some source => do
    match (← get).value with
    | .null | .unknown => return CPLUS_FAIL
    | .b _ => do
      let done ← set_copied array_len 1 source fun read => .b (readLittle read ≠ 0)
      finish_copied done
    | .integer type _ => do
      let done ← set_copied array_len type.size source fun read => .integer type (from_bytes type.bits read)
      finish_copied done
    | .real type _ => do
      let done ← set_copied array_len type.size source fun read => .real type (from_bytes type.bits read)
      finish_copied done
    | .p _ => do
      let done ← set_copied array_len 8 source fun read => .p (from_bytes 64 read)
      finish_copied done
    | .str len bufs => do
      let done ← set_buffer array_len ((len + 1) % 2^32) len bufs array_bufs (.str len)
      finish_copied done
    | .byte_array len bufs => do
      let done ← set_buffer array_len len len bufs array_bufs (.byte_array len)
      finish_copied done

end Data

end Libcplus
