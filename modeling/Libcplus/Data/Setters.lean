import Libcplus.Data.Clone

namespace Libcplus.Data
open Bytes Memory Typedef Program Transition

-- A cplus_data_set_as_* with its arguments.
inductive SetAs where
  | bool (value : Bool)
  | integer (type : IntType) (value : BitVec type.bits)
  | float (value : BitVec 32)
  | double (value : BitVec 64)
  | pointer (value : BitVec 64)
  | string (str_len : Nat) (str_bufs : Pointer)
  | byte_array (array_len : Nat) (array_bufs : Pointer)

namespace SetAs

def run (host : Host) (alloc : Outcome) : SetAs → Routine Int
  | bool value => cplus_data_set_as_bool host value alloc
  | integer type value => setter host type value alloc
  | float value => cplus_data_set_as_float host value alloc
  | double value => cplus_data_set_as_double host value alloc
  | pointer value => cplus_data_set_as_pointer host value alloc
  | string str_len str_bufs => cplus_data_set_as_string host str_len str_bufs alloc
  | byte_array array_len array_bufs => cplus_data_set_as_byte_array array_len array_bufs

-- A text that ends, and as many bytes as the length says. The text of a string may
-- be shorter than the length, unless it goes to an array.
def Proper : SetAs → Value → Prop
  | string str_len (some source),value =>
    0 ∈ source ∧ str_len < 2^32 ∧ (value.data_type = .BYTE_ARRAY → str_len ≤ source.length)
  | byte_array array_len (some source),_ => array_len < 2^32 ∧ array_len ≤ source.length
  | _,_ => True

section Meaning
variable (host : Host)

-- The first bytes of an array that has so many.
def front (array_len size : Nat) (array_bufs : Pointer) : Pointer :=
  if array_len < size then none else array_bufs.map (·.take size)

-- What an input means to an object of each type, if it means anything.
def as_bool : SetAs → Option Value
  | bool value => some (.b value)
  | integer type value => some (.b (type.read value ≠ 0))
  | float value => some (.b (!host.is_zero .FLOAT value))
  | double value => some (.b (!host.is_zero .DOUBLE value))
  | pointer value => some (.b (value.toInt ≠ 0))
  | string _ str_bufs => (str_bufs.bind c_string).bind scan_bool
  | byte_array array_len array_bufs => (front array_len 1 array_bufs).map fun read => .b (readLittle read ≠ 0)

def as_integer (dest : IntType) : SetAs → Option Value
  | bool value => some (.integer dest (dest.cast (if value then 1 else 0)))
  | integer type value => some (.integer dest (dest.cast (type.read value)))
  | float value => some (.integer dest (dest.cast (host.to_int .FLOAT value)))
  | double value => some (.integer dest (dest.cast (host.to_int .DOUBLE value)))
  | pointer value => some (.integer dest (dest.cast value.toInt))
  | string _ str_bufs => ((str_bufs.bind c_string).bind dest.format.scan).map fun number =>
    .integer dest (dest.cast (dest.format.type.read number))
  | byte_array array_len array_bufs => (front array_len dest.size array_bufs).map fun read =>
    .integer dest (from_bytes dest.bits read)

def as_real (dest : FloatType) : SetAs → Option Value
  | bool value => some (.real dest (host.of_int dest (if value then 1 else 0)))
  | integer type value => some (.real dest (host.of_int dest (type.read value)))
  | float value => some (.real dest (host.convert .FLOAT dest value))
  | double value => some (.real dest (host.convert .DOUBLE dest value))
  | pointer value => some (.real dest (host.of_int dest value.toInt))
  | string _ str_bufs => ((str_bufs.bind c_string).bind (host.scan dest)).map (.real dest)
  | byte_array array_len array_bufs => (front array_len dest.size array_bufs).map fun read =>
    .real dest (from_bytes dest.bits read)

def as_pointer : SetAs → Option Value
  | bool value => some (.p (if value then 1 else 0))
  | integer type value => some (.p (BitVec.ofInt 64 (type.read value)))
  | float value => some (.p (BitVec.ofInt 64 (host.to_int .FLOAT value)))
  | double value => some (.p (BitVec.ofInt 64 (host.to_int .DOUBLE value)))
  | pointer value => some (.p value)
  | string _ str_bufs => ((str_bufs.bind c_string).bind host.scan_pointer).map .p
  | byte_array array_len array_bufs => (front array_len 8 array_bufs).map fun read => .p (from_bytes 64 read)

-- An array is not a string's when it has no byte more than the string's buffer.
def as_text (len : Nat) : SetAs → Option (List UInt8)
  | bool value => some (if value then ascii "true" else ascii "false")
  | integer type value => some (type.format.print (type.read value))
  | float value => some (host.print .FLOAT value)
  | double value => some (host.print .DOUBLE value)
  | pointer value => some (host.print_pointer value)
  | string str_len str_bufs => (str_bufs.bind c_string).map (·.take str_len)
  | byte_array array_len array_bufs =>
    if array_len < (len + 1) % 2^32 then none else array_bufs.bind fun source => c_string (source.take array_len)

def as_array (len : Nat) : SetAs → Option (List UInt8)
  | bool value => some (bool_bytes value)
  | integer type value => some (bytes type.size value)
  | float value => some (bytes 4 value)
  | double value => some (bytes 8 value)
  | pointer value => some (bytes 8 value)
  | string str_len str_bufs => str_bufs.map (·.take str_len)
  | byte_array array_len array_bufs => if array_len < len then none else array_bufs.map (·.take array_len)

def as_scalar (op : SetAs) : Value → Option Value
  | .b _ => op.as_bool host
  | .integer dest _ => op.as_integer host dest
  | .real dest _ => op.as_real host dest
  | .p _ => op.as_pointer host
  | _ => none

-- The object holds what the input means to it.
def Stored (op : SetAs) (before after : Value) : Prop :=
  match before,after with
  | .str len _,.str _ bufs => ∃ text, op.as_text host len = some text ∧ bufs.bind c_string = some text
  | .byte_array len _,.byte_array size bufs =>
    ∃ stored, op.as_array len = some stored ∧ size = stored.length ∧ bufs.map (·.take size) = some stored
  | before,after => op.as_scalar host before = some after

-- What of a value its readers see.
def seen : Value → Value
  | .str _ bufs => .str 0 bufs
  | .byte_array len bufs => .byte_array len (bufs.map (·.take len))
  | value => value

-- The call answers with success exactly when the new value was stored, and else it
-- leaves the old one, and does not make the object valid.
def Truthful (op : SetAs) (alloc : Outcome) (dt : Data) : Prop :=
  ∃ res after, op.run host alloc dt = .ok (res,after) ∧
    (res = CPLUS_SUCCESS ↔ op.Stored host dt.value after.value) ∧
    (¬ op.Stored host dt.value after.value →
      seen after.value = seen dt.value ∧ (dt.is_valid = false → after.is_valid = false))

end Meaning

section Conditions
variable (host : Host) (alloc : Outcome) (len : Nat) (bufs : Pointer) (is_valid : Bool)

-- The buffer has room for so many bytes, or the allocator grants it.
def Granted (need : Nat) : Prop := (room alloc len bufs need).2 ≠ none

-- A scalar that is set from text or bytes never answers with success.
def ScalarAgrees (op : SetAs) (value : Value) : Prop :=
  match op with
  | string _ str_bufs => str_bufs = none ∨ op.as_scalar host value = none ∧ is_valid = true
  | byte_array _ _ => op.as_scalar host value = none
  | _ => True

def TextAgrees (op : SetAs) : Prop :=
  match op with
  | bool _ => Granted alloc len bufs (((op.as_text host len).getD []).length + 1)
  | string str_len str_bufs => str_bufs = none ∨
    Granted alloc len bufs ((str_len + 1) % 2^32) ∧ 0 < Capacity len bufs ((str_len + 1) % 2^32) ∧
      ((str_bufs.bind c_string).map (·.take (Capacity len bufs ((str_len + 1) % 2^32) - 1)) =
        (str_bufs.bind c_string).map (·.take str_len)) ∨
    ¬ Granted alloc len bufs ((str_len + 1) % 2^32) ∧ bufs = none ∧ is_valid = true
  | byte_array array_len array_bufs => array_bufs = none ∨ array_len < (len + 1) % 2^32 ∨
    is_valid = true ∧ (bufs = none ∨ ∃ block, bufs = some block ∧ 0 ∉ block.take array_len ∧ array_bufs.map (·.take len) = some block)
  | _ => bufs = none ∨ Granted alloc len bufs (((op.as_text host len).getD []).length + 1)

def ArrayAgrees (op : SetAs) : Prop :=
  match op with
  | double _ | pointer _ => False
  | string str_len str_bufs => str_bufs = none ∨
    is_valid = true ∧ str_len = len ∧ (bufs = none ∧ alloc = none ∨
      ∃ old, bufs = some old ∧ str_len > RSIZE_MAX_MEM ∧ str_bufs.map (·.take str_len) ≠ some (old.take str_len))
  | byte_array array_len array_bufs => array_bufs = none ∨ array_len < len ∨
    is_valid = true ∧ (bufs = none ∨ len < array_len ∧ bufs.map (·.take len) = array_bufs.map (·.take len))
  | _ => ∃ stored, op.as_array len = some stored ∧ Granted alloc len bufs stored.length ∧
    (Capacity len bufs stored.length ≤ RSIZE_MAX_MEM ∨ bufs.map (·.take stored.length) = some stored)

def Agrees (op : SetAs) (dt : Data) : Prop :=
  match dt.value with
  | .null | .unknown => True
  | .str len bufs => op.TextAgrees host alloc len bufs dt.is_valid
  | .byte_array len bufs => op.ArrayAgrees alloc len bufs dt.is_valid
  | value => op.ScalarAgrees host dt.is_valid value

end Conditions

section Cells
variable {host : Host} {alloc : Outcome} {op : SetAs} {dt after : Data} {len need size : Nat} {bufs : Pointer}
  {block text source : List UInt8}

theorem success_iff (ran : op.run host alloc dt = .ok (CPLUS_SUCCESS,after)) :
    op.Truthful host alloc dt ↔ op.Stored host dt.value after.value := by
  constructor
  · rintro ⟨res,_,again,success,_⟩
    cases ran.symm.trans again
    exact success.mp rfl
  · exact fun stored => ⟨_,after,ran,iff_of_true rfl stored,fun missed => absurd stored missed⟩

theorem failure_iff (ran : op.run host alloc dt = .ok (CPLUS_FAIL,after)) :
    op.Truthful host alloc dt ↔ ¬ op.Stored host dt.value after.value ∧ seen after.value = seen dt.value ∧
      (dt.is_valid = false → after.is_valid = false) := by
  have failed : CPLUS_FAIL ≠ CPLUS_SUCCESS := by decide
  constructor
  · rintro ⟨res,_,again,success,kept⟩
    cases ran.symm.trans again
    have missed : ¬ op.Stored host dt.value after.value := fun stored => failed (success.mpr stored)
    exact ⟨missed,kept missed⟩
  · exact fun ⟨missed,kept⟩ => ⟨_,after,ran,iff_of_false failed missed,fun _ => kept⟩

theorem untruthful (stopped : ∃ reason, op.run host alloc dt = .error reason) : ¬ op.Truthful host alloc dt := by
  rintro ⟨res,after,ran,_⟩
  obtain ⟨reason,stopped⟩ := stopped
  cases stopped.symm.trans ran

theorem made_valid_iff {is_valid : Bool} : (is_valid = false → true = false) ↔ is_valid = true := by
  cases is_valid <;> simp

-- A call that refuses its arguments changes nothing.
theorem refused (ran : op.run host alloc dt = .ok (CPLUS_FAIL,dt)) (missed : ¬ op.Stored host dt.value dt.value) :
    op.Truthful host alloc dt := (failure_iff ran).mpr ⟨missed,rfl,id⟩

-- A call that fails and only marks the object valid.
theorem only_marked (ran : op.run host alloc dt = .ok (CPLUS_FAIL,{dt with is_valid := true}))
    (missed : ¬ op.Stored host dt.value dt.value) : op.Truthful host alloc dt ↔ dt.is_valid = true := by
  refine (failure_iff ran).trans ?_
  constructor
  · intro ⟨_,_,kept⟩
    exact made_valid_iff.mp kept
  · intro valid
    exact ⟨missed,rfl,made_valid_iff.mpr valid⟩

theorem valueless (free : dt.spinlock = false) (none_ : dt.value = .null ∨ dt.value = .unknown) :
    op.Truthful host alloc dt := by
  obtain ⟨_,_,_,_,_,_,_,value⟩ := dt
  cases free
  refine refused ?_ ?_
  · rcases none_ with same | same <;> cases same
    · cases op with
      | integer type value => cases type <;> rfl
      | string str_len str_bufs => cases str_bufs <;> rfl
      | byte_array array_len array_bufs => cases array_bufs <;> rfl
      | _ => rfl
    · cases op with
      | integer type value => cases type <;> rfl
      | string str_len str_bufs => cases str_bufs <;> rfl
      | byte_array array_len array_bufs => cases array_bufs <;> rfl
      | _ => rfl
  · rcases none_ with same | same <;> cases same <;> nofun

def Scalar : Value → Prop
  | .b _ | .integer _ _ | .real _ _ | .p _ => True
  | _ => False

theorem stored_scalar {before value : Value} (scalar : Scalar before) :
    op.Stored host before value ↔ op.as_scalar host before = some value := by
  cases before with
  | b _ => exact Iff.rfl
  | integer _ _ => exact Iff.rfl
  | real _ _ => exact Iff.rfl
  | p _ => exact Iff.rfl
  | _ => exact scalar.elim

def FromText : SetAs → Prop
  | string _ _ | byte_array _ _ => True
  | _ => False

theorem scalar_typed (free : dt.spinlock = false) (scalar : Scalar dt.value) (typed : ¬ op.FromText) : ∃ after,
    op.run host alloc dt = .ok (CPLUS_SUCCESS,after) ∧ op.as_scalar host dt.value = some after.value := by
  obtain ⟨_,_,_,_,_,_,_,value⟩ := dt
  cases free
  cases value with
  | integer dest bits =>
    cases op with
    | bool value => cases dest <;> exact ⟨_,rfl,rfl⟩
    | integer type value => cases dest <;> cases type <;> exact ⟨_,rfl,rfl⟩
    | string _ _ => exact absurd trivial typed
    | byte_array _ _ => exact absurd trivial typed
    | _ => exact ⟨_,rfl,rfl⟩
  | b | real | p =>
    cases op with
    | integer type value => cases type <;> exact ⟨_,rfl,rfl⟩
    | string _ _ => exact absurd trivial typed
    | byte_array _ _ => exact absurd trivial typed
    | _ => exact ⟨_,rfl,rfl⟩
  | _ => exact scalar.elim

theorem set_scanned_ok (free : dt.spinlock = false) (value : Option Value) :
    set_scanned value dt = .ok ((),{dt with value := value.getD dt.value}) := by
  obtain ⟨_,_,_,_,_,_,_,_⟩ := dt
  cases free
  cases value <;> rfl

theorem scan_ok (free : dt.spinlock = false) (read : c_string source = some text) (scan : List UInt8 → Option Value) :
    (do
      let text ← access (c_string source)
      set_scanned (scan text)
      valid_but_failed) dt = .ok (CPLUS_FAIL,{dt with value := (scan text).getD dt.value,is_valid := true}) :=
  access_ok read (bind_ok (set_scanned_ok free (scan text)))

theorem scalar_string (host : Host) (alloc : Outcome) (str_len : Nat) (free : dt.spinlock = false) (scalar : Scalar dt.value)
    (read : c_string source = some text) :
    (string str_len (some source)).run host alloc dt = .ok (CPLUS_FAIL,
      {dt with value := ((string str_len (some source)).as_scalar host dt.value).getD dt.value,is_valid := true}) := by
  obtain ⟨_,_,_,_,_,_,_,value⟩ := dt
  cases value with
  | b b =>
    simp only [as_scalar,as_bool,Option.bind_some,read]
    exact scan_ok free read scan_bool
  | integer dest bits =>
    simp only [as_scalar,as_integer,Option.bind_some,read]
    exact scan_ok free read fun text => (dest.format.scan text).map fun number =>
      .integer dest (dest.cast (dest.format.type.read number))
  | real dest bits =>
    simp only [as_scalar,as_real,Option.bind_some,read]
    exact scan_ok free read fun text => (host.scan dest text).map (.real dest)
  | p p =>
    simp only [as_scalar,as_pointer,Option.bind_some,read]
    exact scan_ok free read fun text => (host.scan_pointer text).map .p
  | _ => exact scalar.elim

theorem set_copied_ok {array_len : Nat} (free : dt.spinlock = false) (whole : array_len ≤ source.length)
    (value : List UInt8 → Value) :
    (set_copied array_len size source value >>= finish_copied) dt =
      match (front array_len size (some source)).map value with
      | none => .ok (CPLUS_FAIL,dt)
      | some value => .ok (CPLUS_FAIL,{dt with value := value,is_valid := true}) := by
  obtain ⟨_,_,_,_,_,_,_,_⟩ := dt
  cases free
  by_cases short : array_len < size
  · simp only [front,if_pos short,Option.map_none,set_copied]
    rfl
  · have read : slice source 0 size = some (source.take size) := slice_some (by omega)
    simp only [front,if_neg short,Option.map_some,set_copied,read]
    rfl

theorem scalar_array (host : Host) (alloc : Outcome) {array_len : Nat} (free : dt.spinlock = false) (scalar : Scalar dt.value)
    (whole : array_len ≤ source.length) :
    (byte_array array_len (some source)).run host alloc dt =
      match (byte_array array_len (some source)).as_scalar host dt.value with
      | none => .ok (CPLUS_FAIL,dt)
      | some value => .ok (CPLUS_FAIL,{dt with value := value,is_valid := true}) := by
  obtain ⟨_,_,_,_,_,_,_,value⟩ := dt
  cases value with
  | b b => exact set_copied_ok free whole _
  | integer dest bits => exact set_copied_ok free whole _
  | real dest bits => exact set_copied_ok free whole _
  | p p => exact set_copied_ok free whole _
  | _ => exact scalar.elim

theorem scalar_exact (free : dt.spinlock = false) (scalar : Scalar dt.value) (proper : op.Proper dt.value) :
    op.Truthful host alloc dt ↔ op.ScalarAgrees host dt.is_valid dt.value := by
  have typed : ∀ {op : SetAs}, ¬ op.FromText → op.Truthful host alloc dt := by
    intro op typed
    obtain ⟨after,ran,same⟩ : ∃ after, op.run host alloc dt = .ok (CPLUS_SUCCESS,after) ∧
        op.as_scalar host dt.value = some after.value := scalar_typed free scalar typed
    exact (success_iff ran).mpr ((stored_scalar scalar).mpr same)
  have missed : ∀ {op : SetAs}, op.as_scalar host dt.value = none → ∀ value, ¬ op.Stored host dt.value value := by
    intro op meaningless value stored
    cases meaningless.symm.trans ((stored_scalar scalar).mp stored)
  cases op with
  | string str_len str_bufs =>
    cases str_bufs with
    | none =>
      have meaningless : (string str_len none).as_scalar host dt.value = none := by
        cases value : dt.value <;> rfl
      have ran : (string str_len none).run host alloc dt = .ok (CPLUS_FAIL,dt) := rfl
      exact iff_of_true (refused ran (missed meaningless _)) (.inl rfl)
    | some source =>
      obtain ⟨ends,_⟩ := proper
      have ran := scalar_string host alloc str_len free scalar (if_pos ends)
      refine (failure_iff ran).trans ?_
      change _ ↔ some source = none ∨ _
      cases meaning : (string str_len (some source)).as_scalar host dt.value with
      | none =>
        simp [missed meaning]
      | some value =>
        have stored : (string str_len (some source)).Stored host dt.value value := (stored_scalar scalar).mpr meaning
        simp [stored]
  | byte_array array_len array_bufs =>
    cases array_bufs with
    | none =>
      have meaningless : (byte_array array_len none).as_scalar host dt.value = none := by
        cases value : dt.value <;> simp [as_scalar,as_bool,as_integer,as_real,as_pointer,front]
      have ran : (byte_array array_len none).run host alloc dt = .ok (CPLUS_FAIL,dt) := rfl
      exact iff_of_true (refused ran (missed meaningless _)) meaningless
    | some source =>
      have ran := scalar_array host alloc free scalar proper.2
      change _ ↔ (byte_array array_len (some source)).as_scalar host dt.value = none
      cases meaning : (byte_array array_len (some source)).as_scalar host dt.value with
      | none =>
        rw [meaning] at ran
        exact iff_of_true (refused ran (missed meaning _)) rfl
      | some value =>
        rw [meaning] at ran
        have stored : (byte_array array_len (some source)).Stored host dt.value value := (stored_scalar scalar).mpr meaning
        exact iff_of_false (fun truthful => ((failure_iff ran).mp truthful).1 stored) nofun
  | _ => exact iff_of_true (typed id) trivial

-- A buffer after room was asked for: a new one of that size, or the old one.
theorem room_array (alloc : Outcome) (len : Nat) (bufs : Pointer) (need : Nat) :
    (Granted alloc len bufs need ∧ ∃ block, room alloc len bufs need = (Capacity len bufs need,some block) ∧
      ((bufs = none ∨ len < need) ∧ Capacity len bufs need = need ∧ block.length = need ∨
        bufs = some block ∧ need ≤ len ∧ Capacity len bufs need = len)) ∨
    ¬ Granted alloc len bufs need ∧ room alloc len bufs need = (Capacity len bufs need,none) ∧
      (bufs = none ∨ len < need) ∧ alloc = none := by
  unfold Granted
  have capacity := room_capacity alloc len bufs need
  rcases made : room alloc len bufs need with ⟨stored,_ | block⟩
  · rw [made] at capacity
    cases capacity
    refine .inr ⟨fun granted => granted rfl,rfl,?_⟩
    rcases room_parts alloc len bufs need with ⟨why,new⟩ | ⟨old,_,_,kept⟩
    · exact ⟨why,allocate_refused (Prod.mk.inj (new.symm.trans made)).2⟩
    · cases (Prod.mk.inj (kept.symm.trans made)).2
  · rw [made] at capacity
    cases capacity
    refine .inl ⟨Option.some_ne_none _,block,rfl,?_⟩
    rcases room_cases made with ⟨why,same,new⟩ | ⟨old,kept,within,same,made⟩
    · exact .inl ⟨why,same,new block rfl⟩
    · exact .inr ⟨kept.trans made.symm,within,same⟩

-- A string's buffer is as long as its capacity says.
theorem room_text (alloc : Outcome) (need : Nat) (sized : Sized size (.str len bufs)) :
    (Granted alloc len bufs need ∧ ∃ block, room alloc len bufs need = (Capacity len bufs need,some block) ∧
      block.length = Capacity len bufs need) ∨
    ¬ Granted alloc len bufs need ∧ room alloc len bufs need = (Capacity len bufs need,none) := by
  rcases room_array alloc len bufs need with ⟨granted,block,made,which⟩ | ⟨refused,made,_⟩
  · refine .inl ⟨granted,block,made,?_⟩
    rcases which with ⟨_,same,length⟩ | ⟨kept,_,same⟩
    · exact length.trans same.symm
    · exact (sized.2 block kept).trans same.symm
  · exact .inr ⟨refused,made⟩

theorem set_text_granted {written : List UInt8} {fill : Nat → List UInt8 → Routine Pointer}
    (made : room alloc len bufs need = (size,some block)) (filled : fill size block dt = .ok (some written,dt)) :
    set_text alloc len bufs need fill dt = .ok (true,{dt with value := .str size (some written)}) := by
  rw [set_text,made]
  exact bind_ok filled

theorem set_text_refused {fill : Nat → List UInt8 → Routine Pointer} (made : room alloc len bufs need = (size,none))
    (dt : Data) : set_text alloc len bufs need fill dt = .ok (false,{dt with value := .str size none}) := by
  rw [set_text,made]
  rfl

-- The setters that print a number to a string.
def Prints : SetAs → Prop
  | integer _ _ | float _ | double _ | pointer _ => True
  | _ => False

theorem printed_run {done : Bool} {value : Value} (prints : op.Prints) (free : dt.spinlock = false)
    (held : dt.value = .str len bufs) (means : op.as_text host len = some text)
    (printed : ∀ dt, set_printed alloc len bufs text dt = .ok (done,{dt with value := value})) :
    op.run host alloc dt = settle done {dt with value := value} := by
  obtain ⟨_,_,_,_,_,_,_,_⟩ := dt
  cases held
  cases free
  cases op with
  | integer type number =>
    cases means
    rw [run,setter_eq]
    exact bind_ok (spin_ok rfl (printed _))
  | float number =>
    cases means
    exact bind_ok (spin_ok rfl (printed _))
  | double number =>
    cases means
    exact bind_ok (printed _)
  | pointer number =>
    cases means
    exact bind_ok (printed _)
  | _ => exact prints.elim

-- What the host prints of a float or a pointer is a short text without a NUL.
structure Printing (host : Host) : Prop where
  real_plain : ∀ type value, ∀ c ∈ host.print type value, c ≠ 0
  real_short : ∀ type value, (host.print type value).length + 1 < 2^32
  pointer_plain : ∀ p, ∀ c ∈ host.print_pointer p, c ≠ 0
  pointer_short : ∀ p, (host.print_pointer p).length + 1 < 2^32

theorem text_of_typed (printing : Printing host) (typed : ¬ op.FromText) (len : Nat) : ∃ text,
    op.as_text host len = some text ∧ (∀ c ∈ text, c ≠ 0) ∧ text.length + 1 < 2^32 := by
  cases op with
  | bool value =>
    refine ⟨_,rfl,?_,?_⟩
    · cases value <;> exact plain_of_all rfl
    · cases value <;> decide
  | integer type value =>
    have holds := read_holds value
    refine ⟨_,rfl,?_,?_⟩
    · rw [print_format holds]
      exact Decimal.print_nonzero _
    · rw [print_format holds]
      exact print_room holds
  | float value => exact ⟨_,rfl,printing.real_plain _ _,printing.real_short _ _⟩
  | double value => exact ⟨_,rfl,printing.real_plain _ _,printing.real_short _ _⟩
  | pointer value => exact ⟨_,rfl,printing.pointer_plain _,printing.pointer_short _⟩
  | _ => exact absurd trivial typed

theorem text_printed (printing : Printing host) (prints : op.Prints) (free : dt.spinlock = false)
    (held : dt.value = .str len bufs) (sized : Sized size (.str len bufs)) :
    op.Truthful host alloc dt ↔ bufs = none ∨ Granted alloc len bufs (((op.as_text host len).getD []).length + 1) := by
  have typed : ¬ op.FromText := by cases op <;> first | exact id | exact prints.elim
  obtain ⟨text,means,plain,short⟩ := text_of_typed printing typed len
  rw [means,Option.getD_some]
  have need : (text.length + 1) % 2^32 = text.length + 1 := Nat.mod_eq_of_lt short
  rcases room_text alloc (text.length + 1) sized with ⟨granted,block,made,length⟩ | ⟨refused,made⟩
  · have enough : text.length < block.length := length ▸ capacity_enough len bufs (text.length + 1)
    obtain ⟨written,printed,_,read⟩ := str_printf_writes plain enough (Nat.le_refl block.length)
    have filled : ∀ dt, set_printed alloc len bufs text dt =
        .ok (true,{dt with value := .str (Capacity len bufs (text.length + 1)) (some written)}) := by
      intro dt
      rw [set_printed,need]
      refine set_text_granted made ?_
      rw [← length]
      exact access_ok printed rfl
    have ran := printed_run prints free held means filled
    refine iff_of_true ((success_iff ran).mpr ?_) (.inr granted)
    rw [held]
    exact ⟨text,means,read⟩
  · have failed : ∀ dt, set_printed alloc len bufs text dt =
        .ok (false,{dt with value := .str (Capacity len bufs (text.length + 1)) none}) := by
      intro dt
      rw [set_printed,need]
      exact set_text_refused made dt
    have ran := printed_run prints free held means failed
    refine (failure_iff ran).trans ?_
    rw [held,or_iff_left refused]
    constructor
    · rintro ⟨_,same,_⟩
      exact (Value.str.inj same).2.symm
    · rintro rfl
      refine ⟨?_,rfl,id⟩
      rintro ⟨_,_,none_⟩
      cases none_

theorem set_string_cases {n : Nat} (alloc : Outcome) (free : dt.spinlock = false) (held : dt.value = .str len bufs)
    (sized : Sized size (.str len bufs)) (counts : n < 2^32) (read : c_string source = some text) :
    (Granted alloc len bufs ((n + 1) % 2^32) ∧ ∃ written,
      cplus_data_set_value (some (littleEndian32 n)) (some source) alloc dt = .ok (CPLUS_SUCCESS,
        {dt with value := .str (Capacity len bufs ((n + 1) % 2^32)) (some written),is_valid := true}) ∧
      c_string written = if 0 < Capacity len bufs ((n + 1) % 2^32)
        then some (text.take (Capacity len bufs ((n + 1) % 2^32) - 1)) else none) ∨
    ¬ Granted alloc len bufs ((n + 1) % 2^32) ∧
      cplus_data_set_value (some (littleEndian32 n)) (some source) alloc dt = .ok (CPLUS_FAIL,
        {dt with value := .str (Capacity len bufs ((n + 1) % 2^32)) none}) := by
  rcases room_text alloc ((n + 1) % 2^32) sized with ⟨granted,block,made,length⟩ | ⟨refused,made⟩
  · refine .inl ⟨granted,?_⟩
    rw [← length] at made ⊢
    rcases Nat.eq_zero_or_pos block.length with empty | positive
    · obtain rfl := List.length_eq_zero_iff.mp empty
      have filled : fill_string (some source) 0 [] {dt with spinlock := true} =
          .ok (some [],{dt with spinlock := true}) := access_ok read rfl
      exact ⟨[],set_value_text free held counts (set_text_granted made filled),rfl⟩
    · obtain ⟨written,filled,_,back⟩ := fill_string_text read positive {dt with spinlock := true}
      refine ⟨written,set_value_text free held counts (set_text_granted made filled),?_⟩
      rw [if_pos positive]
      exact back
  · exact .inr ⟨refused,set_value_text free held counts (set_text_refused made _)⟩

theorem text_bool {value : Bool} (printing : Printing host) (free : dt.spinlock = false) (held : dt.value = .str len bufs)
    (sized : Sized size (.str len bufs)) :
    (bool value).Truthful host alloc dt ↔
      Granted alloc len bufs ((((bool value).as_text host len).getD []).length + 1) := by
  have typed : ¬ (bool value).FromText := id
  obtain ⟨text,means,plain,short⟩ := text_of_typed printing typed len
  rw [means,Option.getD_some]
  have need : (text.length + 1) % 2^32 = text.length + 1 := Nat.mod_eq_of_lt short
  have read : c_string (text ++ [0]) = some text := by simpa using c_string_text plain []
  have sets : ∀ {res after}, cplus_data_set_value (some (littleEndian32 text.length)) (some (text ++ [0])) alloc dt =
      .ok (res,after) → (bool value).run host alloc dt = .ok (CPLUS_SUCCESS,{after with is_valid := true}) := by
    intro res after set_
    obtain ⟨_,_,_,_,_,_,_,_⟩ := dt
    cases held
    cases means
    exact valid_ok set_
  have cases_ := set_string_cases alloc free held sized (by omega : text.length < 2^32) read
  rw [need] at cases_
  rcases cases_ with ⟨granted,written,set_,back⟩ | ⟨refused,set_⟩
  · refine iff_of_true ((success_iff (sets set_)).mpr ?_) granted
    have enough := capacity_enough len bufs (text.length + 1)
    rw [if_pos (by omega),List.take_of_length_le (by omega)] at back
    rw [held]
    exact ⟨text,means,back⟩
  · refine iff_of_false (fun truthful => ?_) refused
    have stored := (success_iff (sets set_)).mp truthful
    rw [held] at stored
    obtain ⟨_,_,none_⟩ := stored
    cases none_

theorem text_string {str_len : Nat} (free : dt.spinlock = false) (held : dt.value = .str len bufs)
    (sized : Sized size (.str len bufs)) (counts : str_len < 2^32) (read : c_string source = some text) :
    (string str_len (some source)).Truthful host alloc dt ↔
      (string str_len (some source)).TextAgrees host alloc len bufs dt.is_valid := by
  have means : (string str_len (some source)).as_text host len = some (text.take str_len) := by
    simp [as_text,read]
  have sets : ∀ {res after}, cplus_data_set_value (some (littleEndian32 str_len)) (some source) alloc dt =
      .ok (res,after) → (string str_len (some source)).run host alloc dt = .ok (res,{after with is_valid := true}) := by
    intro res after set_
    obtain ⟨_,_,_,_,_,_,_,_⟩ := dt
    cases held
    exact (bind_ok set_ : (cplus_data_set_value (some (littleEndian32 str_len)) (some source) alloc >>= fun res =>
      set_valid >>= fun _ => return res) _ = _)
  have agrees : (string str_len (some source)).TextAgrees host alloc len bufs dt.is_valid ↔
      Granted alloc len bufs ((str_len + 1) % 2^32) ∧ 0 < Capacity len bufs ((str_len + 1) % 2^32) ∧
        text.take (Capacity len bufs ((str_len + 1) % 2^32) - 1) = text.take str_len ∨
      ¬ Granted alloc len bufs ((str_len + 1) % 2^32) ∧ bufs = none ∧ dt.is_valid = true := by
    simp [TextAgrees,read]
  rw [agrees]
  rcases set_string_cases alloc free held sized counts read with ⟨granted,written,set_,back⟩ | ⟨refused,set_⟩
  · refine (success_iff (sets set_)).trans ?_
    rw [held,or_iff_left (fun missed => missed.1 granted),and_iff_right granted]
    have stored : (string str_len (some source)).Stored host (.str len bufs)
        (.str (Capacity len bufs ((str_len + 1) % 2^32)) (some written)) ↔
          c_string written = some (text.take str_len) := by
      constructor
      · rintro ⟨_,same,found⟩
        cases means.symm.trans same
        exact found
      · exact fun found => ⟨_,means,found⟩
    refine stored.trans ?_
    rw [back]
    split
    · rename_i positive
      rw [Option.some.injEq,and_iff_right positive]
    · rename_i empty
      exact iff_of_false nofun fun both => empty both.1
  · refine (failure_iff (sets set_)).trans ?_
    rw [held,or_iff_right (fun stored => refused stored.1),and_iff_right refused]
    constructor
    · rintro ⟨_,same,kept⟩
      refine ⟨(Value.str.inj same).2.symm,?_⟩
      by_contra invalid
      cases kept (Bool.eq_false_of_not_eq_true invalid)
    · rintro ⟨rfl,valid⟩
      refine ⟨?_,rfl,fun invalid => ?_⟩
      · rintro ⟨_,_,none_⟩
        cases none_
      · cases valid.symm.trans invalid

theorem set_buffer_ok {array_len : Nat} {array_bufs : Pointer} (free : dt.spinlock = false) (value : Pointer → Value) :
    (set_buffer array_len need len bufs array_bufs value >>= finish_copied) dt =
      if array_len < need then .ok (CPLUS_FAIL,dt)
      else
        match cplus_mem_cpy bufs array_bufs len with
        | none => .error .crashes
        | some copied => .ok (CPLUS_FAIL,{dt with value := value copied,is_valid := true}) := by
  obtain ⟨_,_,_,_,_,_,_,_⟩ := dt
  cases free
  unfold set_buffer
  by_cases short : array_len < need
  · rw [if_pos short,if_pos short]
    rfl
  · rw [if_neg short,if_neg short]
    cases cplus_mem_cpy bufs array_bufs len <;> rfl

theorem c_string_both {one two : Nat} :
    (∃ text, c_string (source.take one) = some text ∧ c_string (source.take two) = some text) ↔
      0 ∈ (source.take two).take one := by
  have both : ∀ {less more : Nat}, less ≤ more → 0 ∈ source.take less →
      c_string (source.take more) = c_string (source.take less) := by
    intro less more within ends
    have front : (source.take more).take less = source.take less := by rw [List.take_take,Nat.min_eq_left within]
    have parts := List.take_append_drop less (source.take more)
    rw [front] at parts
    rw [← parts]
    exact c_string_append ends _
  rw [List.take_take]
  constructor
  · rintro ⟨text,first,second⟩
    rcases Nat.le_total one two with less | less
    · rw [Nat.min_eq_left less]
      exact not_not.mp fun none_ => by cases (c_string_none.mpr none_).symm.trans first
    · rw [Nat.min_eq_right less]
      exact not_not.mp fun none_ => by cases (c_string_none.mpr none_).symm.trans second
  · intro ends
    rcases Nat.le_total one two with less | less
    · rw [Nat.min_eq_left less] at ends
      exact ⟨_,if_pos ends,(both less ends).trans (if_pos ends)⟩
    · rw [Nat.min_eq_right less] at ends
      exact ⟨_,(both less ends).trans (if_pos ends),if_pos ends⟩

theorem text_array {array_len : Nat} (free : dt.spinlock = false) (held : dt.value = .str len bufs)
    (sized : Sized size (.str len bufs)) :
    (byte_array array_len (some source)).Truthful host alloc dt ↔
      (byte_array array_len (some source)).TextAgrees host alloc len bufs dt.is_valid := by
  have agrees : (byte_array array_len (some source)).TextAgrees host alloc len bufs dt.is_valid ↔
      array_len < (len + 1) % 2^32 ∨ dt.is_valid = true ∧ (bufs = none ∨
        ∃ block, bufs = some block ∧ 0 ∉ block.take array_len ∧ source.take len = block) := by
    simp [TextAgrees]
  have ran : (byte_array array_len (some source)).run host alloc dt =
      (set_buffer array_len ((len + 1) % 2^32) len bufs (some source) (.str len) >>= finish_copied) dt := by
    obtain ⟨_,_,_,_,_,_,_,_⟩ := dt
    cases held
    rfl
  rw [agrees]
  rw [set_buffer_ok free] at ran
  by_cases short : array_len < (len + 1) % 2^32
  · rw [if_pos short] at ran
    refine iff_of_true (refused ran ?_) (.inl short)
    rw [held]
    rintro ⟨_,means,_⟩
    rw [as_text,if_pos short] at means
    cases means
  · rw [if_neg short] at ran
    rw [or_iff_right short]
    have means : (byte_array array_len (some source)).as_text host len = c_string (source.take array_len) := if_neg short
    cases bufs with
    | none =>
      have ran : (byte_array array_len (some source)).run host alloc dt =
        .ok (CPLUS_FAIL,{dt with value := .str len none,is_valid := true}) := ran
      rw [← held] at ran
      refine (only_marked ran ?_).trans (and_iff_left (.inl rfl)).symm
      rw [held]
      intro ⟨_,_,none_⟩
      cases none_
    | some block =>
      have length := sized.2 block rfl
      by_cases outside : source.length < len
      · rw [mem_cpy_leaves outside] at ran
        refine iff_of_false (untruthful ⟨_,ran⟩) ?_
        rintro ⟨_,none_ | ⟨_,same,_,copied⟩⟩
        · cases none_
        · cases same
          have lengths := congrArg List.length copied
          rw [List.length_take] at lengths
          omega
      · rw [mem_cpy_copies (Nat.le_of_eq length.symm) (Nat.le_of_not_lt outside),
          List.drop_of_length_le (Nat.le_of_eq length),List.append_nil] at ran
        refine (failure_iff ran).trans ?_
        have stored : (byte_array array_len (some source)).Stored host (.str len (some block))
            (.str len (some (source.take len))) ↔ 0 ∈ (source.take len).take array_len := by
          refine Iff.trans ?_ c_string_both
          refine exists_congr fun text => ?_
          rw [means]
          rfl
        rw [held]
        refine (and_congr_left' (not_congr stored)).trans ?_
        constructor
        · rintro ⟨missed,same,kept⟩
          have copied : source.take len = block := Option.some.inj (Value.str.inj same).2
          exact ⟨made_valid_iff.mp kept,.inr ⟨block,rfl,copied ▸ missed,copied⟩⟩
        · rintro ⟨valid,none_ | ⟨_,same,missed,copied⟩⟩
          · cases none_
          · cases same
            subst copied
            exact ⟨missed,rfl,made_valid_iff.mpr valid⟩

theorem set_array_cases {n : Nat} (alloc : Outcome) (free : dt.spinlock = false) (held : dt.value = .byte_array len bufs)
    (sized : Sized size (.byte_array len bufs)) (counts : n < 2^32) (whole : n ≤ source.length) :
    (Granted alloc len bufs n ∧ ∃ block,
      ((bufs = none ∨ len < n) ∧ Capacity len bufs n = n ∧ block.length = n ∨ bufs = some block ∧ n ≤ len ∧ Capacity len bufs n = len) ∧
      n ≤ block.length ∧
      cplus_data_set_value (some (littleEndian32 n)) (some source) alloc dt = .ok (CPLUS_SUCCESS,
        {dt with bufs_size := Capacity len bufs n,value := (.byte_array n
          (some (copied_over (Capacity len bufs n) (source.take n) block))),is_valid := true})) ∨
    ¬ Granted alloc len bufs n ∧ (bufs = none ∨ len < n) ∧ alloc = none ∧
      cplus_data_set_value (some (littleEndian32 n)) (some source) alloc dt = .ok (CPLUS_FAIL,
        {dt with bufs_size := Capacity len bufs n,value := .byte_array n none}) := by
  rcases room_array alloc len bufs n with ⟨granted,block,made,which⟩ | ⟨refused,made,why⟩
  · refine .inl ⟨granted,block,which,?_⟩
    have front : (source.take n).length = n := List.length_take_of_le (by omega)
    have within : Capacity len bufs n ≤ block.length := by
      rcases which with ⟨_,same,length⟩ | ⟨kept,_,same⟩
      · omega
      · rw [same]
        exact Nat.le_trans sized.1 (sized.2 block kept)
    have enough := capacity_enough len bufs n
    have filled := fill_array_writes (Nat.le_trans (Nat.le_of_eq front) enough) within (source.drop n) {dt with spinlock := true}
    rw [front,List.take_append_drop] at filled
    have ran : set_array alloc len bufs n (some source) {dt with spinlock := true} =
        .ok (true,{dt with spinlock := true,bufs_size := Capacity len bufs n,value := (.byte_array n
          (some (copied_over (Capacity len bufs n) (source.take n) block)))}) := by
      rw [set_array,made]
      exact bind_ok filled
    exact ⟨Nat.le_trans enough within,set_value_bytes free held counts ran⟩
  · have ran : set_array alloc len bufs n (some source) {dt with spinlock := true} =
        .ok (false,{dt with spinlock := true,bufs_size := Capacity len bufs n,value := .byte_array n none}) := by
      rw [set_array,made]
      rfl
    exact .inr ⟨refused,why.1,why.2,set_value_bytes free held counts ran⟩

theorem stored_array {stored : List UInt8} {n : Nat} {written : Pointer} (means : op.as_array len = some stored)
    (length : stored.length = n) : op.Stored host (.byte_array len bufs) (.byte_array n written) ↔
      written.map (·.take n) = some stored := by
  constructor
  · rintro ⟨_,same,_,found⟩
    cases means.symm.trans same
    exact found
  · exact fun found => ⟨stored,means,length.symm,found⟩

-- The setters that store the bytes of a value in an array, and answer with success.
def Stores : SetAs → Prop
  | bool _ | integer _ _ | float _ => True
  | _ => False

theorem stores_run (stores : op.Stores) (held : dt.value = .byte_array len bufs) : ∃ stored,
    op.as_array len = some stored ∧ stored.length ≤ 8 ∧
      ∀ {res after}, cplus_data_set_value (some (littleEndian32 stored.length)) (some stored) alloc dt = .ok (res,after) →
        op.run host alloc dt = .ok (CPLUS_SUCCESS,{after with is_valid := true}) := by
  obtain ⟨_,_,_,_,_,_,_,_⟩ := dt
  cases held
  cases op with
  | bool value => exact ⟨_,rfl,(by decide : 1 ≤ 8),valid_ok⟩
  | integer type value =>
    refine ⟨_,rfl,?_,fun set_ => ?_⟩
    · rw [bytes,littleEndian_length]
      cases type <;> decide
    · rw [run,setter_eq]
      rw [bytes,littleEndian_length] at set_
      exact valid_ok set_
  | float value =>
    refine ⟨_,rfl,?_,fun set_ => ?_⟩
    · rw [bytes,littleEndian_length]
      decide
    · rw [bytes,littleEndian_length] at set_
      exact valid_ok set_
  | _ => exact stores.elim

theorem array_stores (stores : op.Stores) (free : dt.spinlock = false) (held : dt.value = .byte_array len bufs)
    (sized : Sized size (.byte_array len bufs)) :
    op.Truthful host alloc dt ↔ ∃ stored, op.as_array len = some stored ∧ Granted alloc len bufs stored.length ∧
      (Capacity len bufs stored.length ≤ RSIZE_MAX_MEM ∨ bufs.map (·.take stored.length) = some stored) := by
  obtain ⟨stored,means,short,ran⟩ : ∃ stored, op.as_array len = some stored ∧ stored.length ≤ 8 ∧
    ∀ {res after}, cplus_data_set_value (some (littleEndian32 stored.length)) (some stored) alloc dt = .ok (res,after) →
      op.run host alloc dt = .ok (CPLUS_SUCCESS,{after with is_valid := true}) := stores_run stores held
  have counts : stored.length < 2^32 := by omega
  have small : stored.length ≤ RSIZE_MAX_MEM := Nat.le_trans short (by decide)
  have one : (∃ other, op.as_array len = some other ∧ Granted alloc len bufs other.length ∧
      (Capacity len bufs other.length ≤ RSIZE_MAX_MEM ∨ bufs.map (·.take other.length) = some other)) ↔
        Granted alloc len bufs stored.length ∧
          (Capacity len bufs stored.length ≤ RSIZE_MAX_MEM ∨ bufs.map (·.take stored.length) = some stored) := by
    constructor
    · rintro ⟨_,same,agrees⟩
      cases means.symm.trans same
      exact agrees
    · exact fun agrees => ⟨stored,means,agrees⟩
  rw [one]
  rcases set_array_cases alloc free held sized counts (Nat.le_refl _) with ⟨granted,block,which,_,set_⟩ | ⟨refused,_,_,set_⟩
  · rw [and_iff_right granted]
    refine (success_iff (ran set_)).trans ?_
    rw [held]
    refine (stored_array means rfl).trans ?_
    rw [Option.map_some,List.take_length]
    by_cases limit : Capacity len bufs stored.length ≤ RSIZE_MAX_MEM
    · exact iff_of_true (congrArg some (copied_over_take limit)) (.inl limit)
    · rw [or_iff_right limit,copied_over,if_neg limit]
      rcases which with ⟨_,same,_⟩ | ⟨kept,_⟩
      · exact absurd (Nat.le_trans (Nat.le_of_eq same) small) limit
      · rw [kept,Option.map_some]
  · refine iff_of_false (fun truthful => ?_) fun agrees => refused agrees.1
    have found := (success_iff (ran set_)).mp truthful
    rw [held] at found
    cases (stored_array means rfl).mp found

theorem array_string {str_len : Nat} (free : dt.spinlock = false) (held : dt.value = .byte_array len bufs)
    (sized : Sized size (.byte_array len bufs)) (counts : str_len < 2^32) (whole : str_len ≤ source.length) :
    (string str_len (some source)).Truthful host alloc dt ↔
      (string str_len (some source)).ArrayAgrees alloc len bufs dt.is_valid := by
  have agrees : (string str_len (some source)).ArrayAgrees alloc len bufs dt.is_valid ↔
      dt.is_valid = true ∧ str_len = len ∧ (bufs = none ∧ alloc = none ∨
        ∃ old, bufs = some old ∧ str_len > RSIZE_MAX_MEM ∧ source.take str_len ≠ old.take str_len) := by
    simp [ArrayAgrees]
  have means : (string str_len (some source)).as_array len = some (source.take str_len) := rfl
  have length : (source.take str_len).length = str_len := List.length_take_of_le whole
  have sets : ∀ {res after}, cplus_data_set_value (some (littleEndian32 str_len)) (some source) alloc dt =
      .ok (res,after) → (string str_len (some source)).run host alloc dt = .ok (CPLUS_FAIL,{after with is_valid := true}) := by
    intro res after set_
    obtain ⟨_,_,_,_,_,_,_,_⟩ := dt
    cases held
    exact (bind_ok set_ : (cplus_data_set_value (some (littleEndian32 str_len)) (some source) alloc >>= fun _ =>
      valid_but_failed) _ = _)
  rw [agrees]
  rcases set_array_cases alloc free held sized counts whole with ⟨granted,block,which,within,set_⟩ | ⟨refused,why,empty,set_⟩
  · refine (failure_iff (sets set_)).trans ?_
    rw [held]
    refine (and_congr_left' (not_congr (stored_array means length))).trans ?_
    rw [Option.map_some]
    by_cases limit : Capacity len bufs str_len ≤ RSIZE_MAX_MEM
    · have stored : (copied_over (Capacity len bufs str_len) (source.take str_len) block).take (source.take str_len).length =
          source.take str_len := copied_over_take limit
      rw [length] at stored
      refine iff_of_false (fun kept => kept.1 (congrArg some stored)) ?_
      rintro ⟨_,_,⟨rfl,rfl⟩ | ⟨_,_,long,_⟩⟩
      · exact granted rfl
      · exact absurd (Nat.le_trans (capacity_enough len bufs str_len) limit) (Nat.not_le.mpr long)
    · rw [copied_over,if_neg limit]
      rcases which with ⟨why,_⟩ | ⟨rfl,_,same⟩
      · have new : ¬ (str_len = len ∧ bufs ≠ none) := by
          rintro ⟨rfl,there⟩
          exact why.elim there (Nat.lt_irrefl _)
        refine iff_of_false ?_ ?_
        · rintro ⟨_,kept,_⟩
          obtain ⟨same,bytes⟩ := Value.byte_array.inj kept
          refine new ⟨same,?_⟩
          rintro rfl
          cases bytes
        · rintro ⟨_,same,⟨rfl,rfl⟩ | ⟨_,there,_⟩⟩
          · exact granted rfl
          · exact new ⟨same,by rw [there]; exact Option.some_ne_none _⟩
      · constructor
        · rintro ⟨missed,kept,valid⟩
          obtain ⟨rfl,_⟩ := Value.byte_array.inj kept
          refine ⟨made_valid_iff.mp valid,rfl,.inr ⟨block,rfl,by omega,fun same => missed (congrArg some same.symm)⟩⟩
        · rintro ⟨valid,rfl,⟨none_,_⟩ | ⟨_,there,_,missed⟩⟩
          · cases none_
          · cases there
            exact ⟨fun same => missed (Option.some.inj same).symm,rfl,made_valid_iff.mpr valid⟩
  · refine (failure_iff (sets set_)).trans ?_
    rw [held]
    refine (and_congr_left' (not_congr (stored_array means length))).trans ?_
    constructor
    · rintro ⟨_,kept,valid⟩
      obtain ⟨rfl,lost⟩ := Value.byte_array.inj kept
      exact ⟨made_valid_iff.mp valid,rfl,.inl ⟨Option.map_eq_none_iff.mp lost.symm,empty⟩⟩
    · rintro ⟨valid,rfl,⟨rfl,_⟩ | ⟨_,rfl,_⟩⟩
      · refine ⟨fun same => ?_,rfl,made_valid_iff.mpr valid⟩
        cases same
      · rcases why with none_ | less
        · cases none_
        · exact absurd less (Nat.lt_irrefl _)

theorem array_array {array_len : Nat} (free : dt.spinlock = false) (held : dt.value = .byte_array len bufs)
    (sized : Sized size (.byte_array len bufs)) (whole : array_len ≤ source.length) :
    (byte_array array_len (some source)).Truthful host alloc dt ↔
      (byte_array array_len (some source)).ArrayAgrees alloc len bufs dt.is_valid := by
  have agrees : (byte_array array_len (some source)).ArrayAgrees alloc len bufs dt.is_valid ↔
      array_len < len ∨ dt.is_valid = true ∧ (bufs = none ∨
        len < array_len ∧ bufs.map (·.take len) = some (source.take len)) := by
    simp [ArrayAgrees]
  have ran : (byte_array array_len (some source)).run host alloc dt =
      (set_buffer array_len len len bufs (some source) (.byte_array len) >>= finish_copied) dt := by
    obtain ⟨_,_,_,_,_,_,_,_⟩ := dt
    cases held
    rfl
  rw [agrees]
  rw [set_buffer_ok free] at ran
  by_cases short : array_len < len
  · rw [if_pos short] at ran
    refine iff_of_true (refused ran ?_) (.inl short)
    rw [held]
    rintro ⟨_,means,_⟩
    rw [as_array,if_pos short] at means
    cases means
  · rw [if_neg short] at ran
    rw [or_iff_right short]
    have means : (byte_array array_len (some source)).as_array len = some (source.take array_len) := if_neg short
    have length : (source.take array_len).length = array_len := List.length_take_of_le whole
    cases bufs with
    | none =>
      have ran : (byte_array array_len (some source)).run host alloc dt =
        .ok (CPLUS_FAIL,{dt with value := .byte_array len none,is_valid := true}) := ran
      rw [← held] at ran
      refine (only_marked ran ?_).trans (and_iff_left (.inl rfl)).symm
      rw [held]
      intro ⟨_,_,_,none_⟩
      cases none_
    | some old =>
      have inside : len ≤ source.length := by omega
      rw [mem_cpy_copies (Nat.le_trans sized.1 (sized.2 old rfl)) inside] at ran
      have front : (source.take len ++ old.drop len).take len = source.take len := by
        have size : (source.take len).length = len := List.length_take_of_le inside
        rw [List.take_append_of_le_length (Nat.le_of_eq size.symm),List.take_of_length_le (Nat.le_of_eq size)]
      have stored : (byte_array array_len (some source)).Stored host (.byte_array len (some old))
          (.byte_array len (some (source.take len ++ old.drop len))) ↔ len = array_len := by
        constructor
        · rintro ⟨_,same,size,_⟩
          cases means.symm.trans same
          exact size.trans length
        · rintro rfl
          exact ⟨_,means,length.symm,congrArg some front⟩
      refine (failure_iff ran).trans ?_
      rw [held]
      refine (and_congr_left' (not_congr stored)).trans ?_
      constructor
      · rintro ⟨missed,kept,valid⟩
        obtain ⟨_,same⟩ := Value.byte_array.inj kept
        refine ⟨made_valid_iff.mp valid,.inr ⟨by omega,?_⟩⟩
        rw [Option.map_some,front] at same
        exact same.symm
      · rintro ⟨valid,none_ | ⟨more,same⟩⟩
        · cases none_
        · refine ⟨Nat.ne_of_lt more,?_,made_valid_iff.mpr valid⟩
          refine congrArg (Value.byte_array len) ?_
          rw [Option.map_some,front]
          exact same.symm

-- The call without a text or an array to read.
theorem missing (op : SetAs) (none_ : op = string len none ∨ op = byte_array len none) : op.Truthful host alloc dt := by
  rcases none_ with rfl | rfl
  · refine refused rfl ?_
    cases dt.value <;> simp [Stored,as_scalar,as_bool,as_integer,as_real,as_pointer,as_text,as_array]
  · refine refused rfl ?_
    cases dt.value <;> simp [Stored,as_scalar,as_bool,as_integer,as_real,as_pointer,as_text,as_array,front]

theorem text_exact (printing : Printing host) (free : dt.spinlock = false) (held : dt.value = .str len bufs)
    (sized : Sized size (.str len bufs)) (proper : op.Proper dt.value) :
    op.Truthful host alloc dt ↔ op.TextAgrees host alloc len bufs dt.is_valid := by
  cases op with
  | bool value => exact text_bool printing free held sized
  | string str_len str_bufs =>
    cases str_bufs with
    | none => exact iff_of_true (missing _ (.inl rfl)) (.inl rfl)
    | some source => exact text_string free held sized proper.2.1 (if_pos proper.1)
  | byte_array array_len array_bufs =>
    cases array_bufs with
    | none => exact iff_of_true (missing _ (.inr rfl)) (.inl rfl)
    | some source => exact text_array free held sized
  | integer type value => exact text_printed printing trivial free held sized
  | float value => exact text_printed printing trivial free held sized
  | double value => exact text_printed printing trivial free held sized
  | pointer value => exact text_printed printing trivial free held sized

theorem array_exact (free : dt.spinlock = false) (held : dt.value = .byte_array len bufs)
    (sized : Sized size (.byte_array len bufs)) (proper : op.Proper dt.value) :
    op.Truthful host alloc dt ↔ op.ArrayAgrees alloc len bufs dt.is_valid := by
  have array : dt.data_type = .BYTE_ARRAY := by
    rw [data_type,held]
    rfl
  cases op with
  | bool value => exact array_stores trivial free held sized
  | integer type value => exact array_stores trivial free held sized
  | float value => exact array_stores trivial free held sized
  | double value => exact iff_of_false (untruthful ⟨_,set_as_double_spins value alloc free array⟩) id
  | pointer value => exact iff_of_false (untruthful ⟨_,set_as_pointer_spins value alloc free array⟩) id
  | string str_len str_bufs =>
    cases str_bufs with
    | none => exact iff_of_true (missing _ (.inl rfl)) (.inl rfl)
    | some source => exact array_string free held sized proper.2.1 (proper.2.2 array)
  | byte_array array_len array_bufs =>
    cases array_bufs with
    | none => exact iff_of_true (missing _ (.inr rfl)) (.inl rfl)
    | some source => exact array_array free held sized proper.2

-- Every object that set operations reach, every setter and every input.
theorem setters_exact (host : Host) (printing : Printing host) (alloc : Outcome) (reached : Reached host dt)
    (proper : op.Proper dt.value) : op.Truthful host alloc dt ↔ op.Agrees host alloc dt := by
  obtain ⟨holds,free⟩ := reached.sound
  have sized : Sized dt.bufs_size dt.value := holds
  have scalars : ∀ {value}, dt.value = value → Scalar value →
      (op.Truthful host alloc dt ↔ op.ScalarAgrees host dt.is_valid value) := by
    rintro value rfl scalar
    exact scalar_exact free scalar proper
  unfold Agrees
  cases held : dt.value with
  | null => exact iff_of_true (valueless free (.inl held)) trivial
  | unknown => exact iff_of_true (valueless free (.inr held)) trivial
  | str len bufs =>
    rw [held] at sized
    exact text_exact printing free held sized proper
  | byte_array len bufs =>
    rw [held] at sized
    exact array_exact free held sized proper
  | b b => exact scalars held trivial
  | integer type bits => exact scalars held trivial
  | real type bits => exact scalars held trivial
  | p p => exact scalars held trivial

-- A host that knows no number but zero.
def zero_host : Host where
  of_int _ _ := 0
  to_int _ _ := 0
  convert _ _ _ := 0
  is_zero _ _ := true
  print _ _ := ascii "0.000000"
  scan _ _ := none
  print_pointer _ := ascii "(nil)"
  scan_pointer _ := none

-- A float in a string whose first buffer is granted.
theorem float_truthful : Printing zero_host ∧ Reached zero_host (blank .STRING) ∧
    (float 0).Agrees zero_host (some fun _ => 0) (blank .STRING) ∧
    (float 0).Truthful zero_host (some fun _ => 0) (blank .STRING) := by
  have zero : (ascii "0.000000").length + 1 < 2^32 := by decide
  have nil : (ascii "(nil)").length + 1 < 2^32 := by decide
  have printing : Printing zero_host := ⟨fun _ _ => plain_of_all rfl,fun _ _ => zero,fun _ => plain_of_all rfl,fun _ => nil⟩
  have reached : Reached zero_host (blank .STRING) := .made ⟨.STRING,none,none,0,none,none,none,rfl⟩
  have agrees : (float 0).Agrees zero_host (some fun _ => 0) (blank .STRING) := .inl rfl
  have proper : (float 0).Proper (blank .STRING).value := trivial
  exact ⟨printing,reached,agrees,(setters_exact zero_host printing _ reached proper).mpr agrees⟩

-- A number that is stored, a text that is none, and an array that is not stored.
theorem setters_untruthful : Created (blank (.integer .INT32)) ∧ Created (blank .BYTE_ARRAY) ∧ ∀ host : Host,
    ¬ (string 1 (some [53,0])).Truthful host none (blank (.integer .INT32)) ∧
    ¬ (string 1 (some [120,0])).Truthful host none (blank (.integer .INT32)) ∧
    ¬ (bool true).Truthful host none (blank .BYTE_ARRAY) := by
  refine ⟨⟨_,none,none,0,none,none,none,rfl⟩,⟨_,none,none,0,none,none,none,rfl⟩,fun host => ?_⟩
  have five : (string 1 (some [53,0])).run host none (blank (.integer .INT32)) =
      .ok (CPLUS_FAIL,{blank (.integer .INT32) with value := .integer .INT32 5,is_valid := true}) := rfl
  have letter : (string 1 (some [120,0])).run host none (blank (.integer .INT32)) =
      .ok (CPLUS_FAIL,{blank (.integer .INT32) with is_valid := true}) := rfl
  have lost : (bool true).run host none (blank .BYTE_ARRAY) =
      .ok (CPLUS_SUCCESS,{blank .BYTE_ARRAY with bufs_size := 1,value := .byte_array 1 none,is_valid := true}) := rfl
  refine ⟨fun truthful => ?_,fun truthful => ?_,fun truthful => ?_⟩
  · exact ((failure_iff five).mp truthful).1 rfl
  · cases ((failure_iff letter).mp truthful).2.2 rfl
  · obtain ⟨_,_,_,none_⟩ := (success_iff lost).mp truthful
    cases none_

end Cells

end SetAs

end Libcplus.Data
