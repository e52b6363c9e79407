import Libcplus.Data.Accessors
import Libcplus.Transition

namespace Libcplus.Data
open Bytes Memory Typedef Program Transition

variable {α β : Type} {l m n : Bool} {host : Host}

-- The lock is taken or free, and the key is this one.
def At (l : Bool) (key : Pointer × Nat) (dt : Data) : Prop := dt.spinlock = l ∧ (dt.key,dt.key_len) = key

-- From a lock that is `l` the routine returns with one that is `m`. It may
-- crash, but it does not wait for the lock, and it leaves the key alone.
def Keeps (l m : Bool) (routine : Routine α) : Prop :=
  ∀ key, Takes (· = Stop.crashes) (At l key) (At m key) routine

namespace Keeps
variable {routine : Routine α} {rest : α → Routine β}

theorem answer (a : α) : Keeps l l (return a : Routine α) := fun _ => .pure a

theorem seq (first : Keeps l m routine) (then_ : ∀ a, Keeps m n (rest a)) : Keeps l n (routine >>= rest) :=
  fun key => (first key).bind fun a => then_ a key

theorem crash : Keeps l m (throw .crashes : Routine α) := fun _ => .throw rfl

-- A routine that looks at the state first.
theorem reads {rest : Data → Routine β} (then_ : ∀ dt, Keeps l m (rest dt)) : Keeps l m (get >>= rest) :=
  fun key => .get fun dt here => (then_ dt key).weaken fun _ same => same ▸ here

-- One that writes back what it read, changed.
theorem reads_at {rest : Data → Routine β}
    (then_ : ∀ key dt, At l key dt → Takes (· = Stop.crashes) (At l key) (At m key) (rest dt)) :
    Keeps l m (get >>= rest) :=
  fun key => .get fun dt here => (then_ key dt here).weaken fun _ same => same ▸ here

theorem ite {c : Prop} [Decidable c] {other : Routine α} (yes : c → Keeps l m routine)
    (no : ¬ c → Keeps l m other) : Keeps l m (if c then routine else other) :=
  fun key => .ite (fun holds => yes holds key) fun fails => no fails key

theorem dite {c : Prop} [Decidable c] {one : c → Routine α} {other : ¬ c → Routine α}
    (yes : ∀ h, Keeps l m (one h)) (no : ∀ h, Keeps l m (other h)) : Keeps l m (if h : c then one h else other h) := by
  split
  · exact yes _
  · exact no _

theorem changes {change : Data → Data}
    (same : ∀ dt, (change dt).spinlock = dt.spinlock ∧ (change dt).key = dt.key ∧ (change dt).key_len = dt.key_len) :
    Keeps l l (modify change : Routine PUnit) := by
  refine fun key => .modify fun dt here => ?_
  obtain ⟨lock,name,len⟩ := same dt
  refine ⟨lock.trans here.1,?_⟩
  rw [name,len]
  exact here.2

theorem writes {key : Pointer × Nat} {next : Data} (there : At m key next) (a : α) :
    Takes (· = Stop.crashes) (At l key) (At m key) (do set next; return a : Routine α) := fun _ _ => there

end Keeps

open Keeps

theorem lock_keeps : Keeps false true DATA_SPIN_LOCK := by
  refine reads_at fun key dt here => ?_
  rw [if_neg (by simp [here.1])]
  exact fun _ _ => ⟨rfl,here.2⟩

theorem unlock_keeps : Keeps l false DATA_SPIN_UNLOCK := fun _ => .modify fun _ here => ⟨rfl,here.2⟩

theorem access_keeps (result : Option α) : Keeps l l (access result) := by
  cases result with
  | none => exact crash
  | some result => exact answer result

theorem put_value_keeps (value : Value) : Keeps l l (put_value value) := changes fun _ => ⟨rfl,rfl,rfl⟩

theorem set_valid_keeps : Keeps l l set_valid := by
  refine seq (changes ?_) fun _ => answer _
  exact fun _ => ⟨rfl,rfl,rfl⟩

theorem spin_keeps {body : Routine α} (inside : Keeps true true body) : Keeps false false (spin body) := by
  refine lock_keeps.seq fun _ => inside.seq fun result => ?_
  exact unlock_keeps.seq fun _ => answer result

theorem guarded_keeps {spins : Bool} {body : Routine α} (inside : ∀ l, Keeps l l body) :
    Keeps false false (guarded spins body) := by
  cases spins with
  | false => exact inside false
  | true => exact spin_keeps (inside true)

theorem uint32_keeps (value : List UInt8) : Keeps l l (uint32 value) := (access_keeps _).seq fun _ => answer _

theorem store_keeps (value bytes : List UInt8) : Keeps l l (store value bytes) := (access_keeps _).seq fun _ => answer _

theorem settle_keeps (done : Bool) : Keeps l l (settle done) := ite (fun _ => set_valid_keeps) fun _ => answer _

-- How a store ends: with no buffer, or with what was written to the one it has.
theorem set_text_parts {alloc : Outcome} {len need : Nat} {bufs : Pointer} {fill : Nat → List UInt8 → Routine Pointer}
    {dt after : Data} {done : Bool} (ran : set_text alloc len bufs need fill dt = .ok (done,after)) :
    (∃ size, room alloc len bufs need = (size,none) ∧ done = false ∧ after = {dt with value := .str size none}) ∨
      ∃ size block written middle, room alloc len bufs need = (size,some block) ∧
        fill size block dt = .ok (written,middle) ∧ done = true ∧ after = {middle with value := .str size written} := by
  rcases made : room alloc len bufs need with ⟨size,_ | block⟩
  · simp only [set_text,made] at ran
    cases ran
    exact .inl ⟨size,rfl,rfl,rfl⟩
  · simp only [set_text,made] at ran
    obtain ⟨written,middle,filled,answered⟩ := bind_parts ran
    cases answered
    exact .inr ⟨size,block,written,middle,rfl,filled,rfl,rfl⟩

theorem set_array_parts {alloc : Outcome} {len need : Nat} {bufs value2 : Pointer} {dt after : Data} {done : Bool}
    (ran : set_array alloc len bufs need value2 dt = .ok (done,after)) :
    (∃ size, room alloc len bufs need = (size,none) ∧ done = false ∧
        after = {dt with bufs_size := size,value := .byte_array need none}) ∨
      ∃ size block written middle, room alloc len bufs need = (size,some block) ∧
        fill_array value2 size need block dt = .ok (written,middle) ∧ done = true ∧
        after = {middle with bufs_size := size,value := .byte_array need written} := by
  rcases made : room alloc len bufs need with ⟨size,_ | block⟩
  · simp only [set_array,made] at ran
    cases ran
    exact .inl ⟨size,rfl,rfl,rfl⟩
  · simp only [set_array,made] at ran
    obtain ⟨written,middle,filled,answered⟩ := bind_parts ran
    cases answered
    exact .inr ⟨size,block,written,middle,rfl,filled,rfl,rfl⟩

theorem set_text_keeps (alloc : Outcome) (len : Nat) (bufs : Pointer) (need : Nat)
    {fill : Nat → List UInt8 → Routine Pointer} (fills : ∀ len block, Keeps l l (fill len block)) :
    Keeps l l (set_text alloc len bufs need fill) := by
  unfold set_text
  split
  · exact (put_value_keeps _).seq fun _ => answer _
  · exact (fills _ _).seq fun written => (put_value_keeps _).seq fun _ => answer _

theorem fill_string_keeps (value2 : Pointer) (len : Nat) (block : List UInt8) :
    Keeps l l (fill_string value2 len block) := by
  cases value2 with
  | none => exact (access_keeps _).seq fun _ => answer _
  | some value => exact (access_keeps _).seq fun text => (access_keeps _).seq fun _ => answer _

theorem fill_array_keeps (value2 : Pointer) (size count : Nat) (block : List UInt8) :
    Keeps l l (fill_array value2 size count block) := by
  cases value2 with
  | none => exact (access_keeps _).seq fun _ => answer _
  | some value => exact (access_keeps _).seq fun _ => answer _

theorem set_array_keeps (alloc : Outcome) (len : Nat) (bufs : Pointer) (need : Nat) (value2 : Pointer) :
    Keeps l l (set_array alloc len bufs need value2) := by
  unfold set_array
  split
  · refine seq (changes ?_) fun _ => answer _
    exact fun _ => ⟨rfl,rfl,rfl⟩
  · refine (fill_array_keeps _ _ _ _).seq fun written => seq (changes ?_) fun _ => answer _
    exact fun _ => ⟨rfl,rfl,rfl⟩

theorem set_value_keeps (value1 value2 : Pointer) (alloc : Outcome) :
    Keeps false false (cplus_data_set_value value1 value2 alloc) := by
  cases value1 with
  | none => exact answer _
  | some source =>
    refine reads fun dt => ?_
    split
    · exact answer _
    · exact answer _
    · exact (access_keeps _).seq fun read => (put_value_keeps _).seq fun _ => set_valid_keeps
    · refine (guarded_keeps fun _ => ?_).seq fun _ => set_valid_keeps
      exact (access_keeps _).seq fun read => put_value_keeps _
    · refine (spin_keeps ?_).seq fun _ => set_valid_keeps
      exact (access_keeps _).seq fun read => put_value_keeps _
    · exact (access_keeps _).seq fun read => (put_value_keeps _).seq fun _ => set_valid_keeps
    · refine (spin_keeps ?_).seq settle_keeps
      exact (uint32_keeps _).seq fun count => set_text_keeps _ _ _ _ (fill_string_keeps _)
    · refine (spin_keeps ?_).seq settle_keeps
      exact (uint32_keeps _).seq fun count => set_array_keeps _ _ _ _ _

theorem get_data_size_keeps : Keeps false false cplus_data_get_data_size := by
  refine reads fun dt => ?_
  split
  · exact answer _
  · exact answer _
  · exact answer _
  · exact answer _
  · exact answer _
  · exact answer _
  · exact spin_keeps ((access_keeps _).seq fun text => answer _)
  · exact spin_keeps (answer _)

theorem clone_value_keeps (src : Data) (alloc : Outcome) : Keeps l l (cplus_data_clone_value src alloc) := by
  refine reads_at fun key dest here => ?_
  split
  · exact .pure _
  · split
    · split
      · split
        · refine writes ?_ _
          exact here
        · refine (access_keeps _ key).bind fun copied => writes ?_ _
          exact here
      · refine (access_keeps _ key).bind fun copied => writes ?_ _
        exact here
    · split
      · split
        · exact (put_value_keeps _ key).bind fun _ => .pure _
        · refine (access_keeps _ key).bind fun copied => writes ?_ _
          exact here
      · exact (access_keeps _ key).bind fun copied => (put_value_keeps _ key).bind fun _ => .pure _
    · exact (put_value_keeps _ key).bind fun _ => .pure _

theorem set_string_code_keeps (code : Nat) : Keeps l l (cplus_data_set_string_code code) := by
  refine reads fun dt => ?_
  split
  · refine seq (changes ?_) fun _ => answer _
    exact fun _ => ⟨rfl,rfl,rfl⟩
  · exact answer _

theorem set_action_mode_keeps (mode : Nat) : Keeps l l (cplus_data_set_action_mode mode) := by
  refine seq (changes ?_) fun _ => answer _
  exact fun _ => ⟨rfl,rfl,rfl⟩

theorem get_integer_keeps (type : IntType) : Keeps false false (get_integer type) := by
  refine reads fun dt => ?_
  split
  · exact ite (fun _ => guarded_keeps fun _ => answer _) fun _ => crash
  · exact crash

theorem get_real_keeps (type : FloatType) : Keeps false false (get_real type) := by
  refine reads fun dt => ?_
  split
  · exact dite (fun _ => spin_keeps (answer _)) fun _ => crash
  · exact crash

theorem fill_variable_keeps (value : List UInt8) (len : Nat) (bufs : Pointer) :
    Keeps l l (fill_variable value len bufs) := (access_keeps _).seq fun _ => answer _

theorem get_as_bool_keeps (value : Bool) : Keeps false false (cplus_data_get_as_bool host value) := by
  refine reads fun dt => ?_
  split
  · exact answer _
  · exact answer _
  · exact answer _
  · exact (guarded_keeps fun _ => answer _).seq fun result => answer _
  · exact (spin_keeps (answer _)).seq fun result => answer _
  · exact answer _
  · refine spin_keeps (ite (fun _ => answer _) fun _ => ?_)
    exact (access_keeps _).seq fun text => ite (fun _ => answer _) fun _ => ite (fun _ => answer _) fun _ => answer _
  · refine spin_keeps (ite (fun _ => answer _) fun _ => ?_)
    exact (access_keeps _).seq fun first => answer _

theorem get_as_integer_keeps (type : IntType) (format : Format) (value : BitVec type.bits) :
    Keeps false false (get_as_integer host type format value) := by
  refine reads fun dt => ?_
  split
  · exact answer _
  · exact answer _
  · exact answer _
  · exact (guarded_keeps fun _ => answer _).seq fun result => answer _
  · exact (spin_keeps (answer _)).seq fun result => answer _
  · exact answer _
  · refine spin_keeps ((access_keeps _).seq fun text => ?_)
    split
    · exact answer _
    · exact answer _
  · exact spin_keeps ((fill_variable_keeps _ _ _).seq fun result => answer _)

theorem get_as_real_keeps (type : FloatType) (value : BitVec type.bits) :
    Keeps false false (get_as_real host type value) := by
  refine reads fun dt => ?_
  split
  · exact answer _
  · exact answer _
  · exact spin_keeps (answer _)
  · exact spin_keeps (answer _)
  · exact spin_keeps (answer _)
  · exact spin_keeps (answer _)
  · refine spin_keeps ((access_keeps _).seq fun text => ?_)
    split
    · exact answer _
    · exact answer _
  · exact spin_keeps ((fill_variable_keeps _ _ _).seq fun result => answer _)

theorem print_out_keeps (str_len : Nat) (str_bufs : Pointer) (text : List UInt8) :
    Keeps l l (print_out str_len str_bufs text) :=
  ite (fun _ => answer _) fun _ => (access_keeps _).seq fun _ => answer _

theorem get_as_string_keeps (str_len : Nat) (str_bufs : Pointer) :
    Keeps false false (cplus_data_get_as_string host str_len str_bufs) := by
  refine ite (fun _ => answer _) fun _ => reads fun dt => ?_
  split
  · exact answer _
  · exact answer _
  · exact (spin_keeps (answer _)).seq fun text => print_out_keeps _ _ _
  · exact (spin_keeps (answer _)).seq fun text => print_out_keeps _ _ _
  · exact (spin_keeps (answer _)).seq fun text => print_out_keeps _ _ _
  · exact (spin_keeps (answer _)).seq fun text => print_out_keeps _ _ _
  · exact (spin_keeps (access_keeps _)).seq fun text => print_out_keeps _ _ _
  · refine spin_keeps (ite (fun _ => answer _) fun _ => ?_)
    exact (access_keeps _).seq fun copied => (access_keeps _).seq fun ended => answer _

theorem copy_out_keeps (array_len : Nat) (array_bufs : Pointer) (size : Nat) (source : Pointer) :
    Keeps false false (copy_out array_len array_bufs size source) :=
  spin_keeps ((access_keeps _).seq fun _ => answer _)

theorem get_as_byte_array_keeps (array_len : Nat) (array_bufs : Pointer) :
    Keeps false false (cplus_data_get_as_byte_array array_len array_bufs) := by
  refine ite (fun _ => answer _) fun _ => reads fun dt => ?_
  split
  · exact answer _
  · exact answer _
  · exact copy_out_keeps _ _ _ _
  · exact copy_out_keeps _ _ _ _
  · exact copy_out_keeps _ _ _ _
  · exact copy_out_keeps _ _ _ _
  · exact copy_out_keeps _ _ _ _
  · exact copy_out_keeps _ _ _ _

theorem set_printed_keeps (alloc : Outcome) (len : Nat) (bufs : Pointer) (text : List UInt8) :
    Keeps l l (set_printed alloc len bufs text) :=
  set_text_keeps _ _ _ _ fun _ _ => (access_keeps _).seq fun _ => answer _

-- A value that is set and then valid, whichever way it is guarded.
theorem set_as_keeps {routine : Routine α} (sets : Keeps false false routine) :
    Keeps false false (routine >>= fun _ => set_valid) := sets.seq fun _ => set_valid_keeps

theorem set_as_bool_keeps (value : Bool) (alloc : Outcome) :
    Keeps false false (cplus_data_set_as_bool host value alloc) := by
  refine reads fun dt => ?_
  split
  · exact answer _
  · exact answer _
  · exact set_as_keeps (put_value_keeps _)
  · exact set_as_keeps (guarded_keeps fun _ => put_value_keeps _)
  · exact set_as_keeps (spin_keeps (put_value_keeps _))
  · exact set_as_keeps (put_value_keeps _)
  · exact set_as_keeps (set_value_keeps _ _ _)
  · exact set_as_keeps (set_value_keeps _ _ _)

theorem set_as_integer_keeps (type : IntType) (format : Format) (value : BitVec type.bits) (alloc : Outcome) :
    Keeps false false (set_as_integer host type format value alloc) := by
  refine reads fun dt => ?_
  split
  · exact answer _
  · exact answer _
  · exact set_as_keeps (spin_keeps (put_value_keeps _))
  · exact set_as_keeps (guarded_keeps fun _ => put_value_keeps _)
  · exact set_as_keeps (spin_keeps (put_value_keeps _))
  · exact set_as_keeps (put_value_keeps _)
  · exact (spin_keeps (set_printed_keeps _ _ _ _)).seq settle_keeps
  · exact set_as_keeps (set_value_keeps _ _ _)

theorem set_as_float_keeps (value : BitVec 32) (alloc : Outcome) :
    Keeps false false (cplus_data_set_as_float host value alloc) := by
  refine reads fun dt => ?_
  split
  · exact answer _
  · exact answer _
  · exact set_as_keeps (spin_keeps (put_value_keeps _))
  · exact set_as_keeps (spin_keeps (put_value_keeps _))
  · exact set_as_keeps (spin_keeps (put_value_keeps _))
  · exact set_as_keeps (spin_keeps (put_value_keeps _))
  · exact (spin_keeps (set_printed_keeps _ _ _ _)).seq settle_keeps
  · exact set_as_keeps (set_value_keeps _ _ _)

theorem release_valid_keeps : Keeps l false release_valid := unlock_keeps.seq fun _ => set_valid_keeps

theorem release_keeps (done : Bool) : Keeps l false (release done) := unlock_keeps.seq fun _ => settle_keeps done

theorem valid_but_failed_keeps : Keeps l l valid_but_failed := set_valid_keeps.seq fun _ => answer _

theorem set_scanned_keeps (value : Option Value) : Keeps false false (set_scanned value) := by
  refine spin_keeps ?_
  split
  · exact answer _
  · exact put_value_keeps _

theorem set_as_string_keeps (str_len : Nat) (str_bufs : Pointer) (alloc : Outcome) :
    Keeps false false (cplus_data_set_as_string host str_len str_bufs alloc) := by
  cases str_bufs with
  | none => exact answer _
  | some source =>
    refine reads fun dt => ?_
    split
    · exact answer _
    · exact answer _
    · exact (access_keeps _).seq fun text => (set_scanned_keeps _).seq fun _ => valid_but_failed_keeps
    · exact (access_keeps _).seq fun text => (set_scanned_keeps _).seq fun _ => valid_but_failed_keeps
    · exact (access_keeps _).seq fun text => (set_scanned_keeps _).seq fun _ => valid_but_failed_keeps
    · exact (access_keeps _).seq fun text => (set_scanned_keeps _).seq fun _ => valid_but_failed_keeps
    · exact (set_value_keeps _ _ _).seq fun res => set_valid_keeps.seq fun _ => answer _
    · exact (set_value_keeps _ _ _).seq fun _ => valid_but_failed_keeps

theorem set_copied_keeps (array_len size : Nat) (array_bufs : List UInt8) (value : List UInt8 → Value) :
    Keeps false false (set_copied array_len size array_bufs value) := by
  refine spin_keeps (ite (fun _ => answer _) fun _ => ?_)
  exact (access_keeps _).seq fun read => (put_value_keeps _).seq fun _ => answer _

theorem set_buffer_keeps (array_len need len : Nat) (bufs array_bufs : Pointer) (value : Pointer → Value) :
    Keeps false false (set_buffer array_len need len bufs array_bufs value) := by
  refine spin_keeps (ite (fun _ => answer _) fun _ => ?_)
  exact (access_keeps _).seq fun copied => (put_value_keeps _).seq fun _ => answer _

theorem finish_copied_keeps (done : Bool) : Keeps l l (finish_copied done) :=
  ite (fun _ => valid_but_failed_keeps) fun _ => answer _

theorem set_as_byte_array_keeps (array_len : Nat) (array_bufs : Pointer) :
    Keeps false false (cplus_data_set_as_byte_array array_len array_bufs) := by
  cases array_bufs with
  | none => exact answer _
  | some source =>
    refine reads fun dt => ?_
    split
    · exact answer _
    · exact answer _
    · exact (set_copied_keeps _ _ _ _).seq finish_copied_keeps
    · exact (set_copied_keeps _ _ _ _).seq finish_copied_keeps
    · exact (set_copied_keeps _ _ _ _).seq finish_copied_keeps
    · exact (set_copied_keeps _ _ _ _).seq finish_copied_keeps
    · exact (set_buffer_keeps _ _ _ _ _ _).seq finish_copied_keeps
    · exact (set_buffer_keeps _ _ _ _ _ _).seq finish_copied_keeps

section Calls
variable {key : Pointer × Nat} {dt : Data}

-- Taking a lock that is free changes nothing else.
theorem lock_takes {P : Data → Prop} (kept : ∀ dt, P dt → P {dt with spinlock := true}) :
    Takes (· = Stop.crashes) (fun dt => At false key dt ∧ P dt) (fun dt => At true key dt ∧ P dt) DATA_SPIN_LOCK := by
  refine .get fun dt here => ?_
  rw [if_neg (by simp [here.1.1])]
  exact fun _ _ => ⟨⟨rfl,here.1.2⟩,kept dt here.2⟩

theorem access_takes {pre post : Data → Prop} {result : Option α} {rest : α → Routine β}
    (then_ : ∀ a, result = some a → Takes (· = Stop.crashes) pre post (rest a)) :
    Takes (· = Stop.crashes) pre post (access result >>= rest) := by
  cases result with
  | none => exact fun _ _ => rfl
  | some a => exact then_ a rfl

theorem uint32_takes {pre post : Data → Prop} {value : List UInt8} {rest : Nat → Routine β}
    (then_ : ∀ bytes, slice value 0 4 = some bytes → Takes (· = Stop.crashes) pre post (rest (readLittle bytes))) :
    Takes (· = Stop.crashes) pre post (uint32 value >>= rest) := by
  unfold uint32
  cases read : slice value 0 4 with
  | none => exact fun _ _ => rfl
  | some bytes => exact then_ bytes read

-- The key is the one part of an object that only this call sets.
theorem set_key_frees (key_len : Nat) (name : Pointer) (alloc : Outcome) :
    Takes (· = Stop.crashes) (At false key) (fun dt => dt.spinlock = false) (cplus_data_set_key key_len name alloc) := by
  have unlocks : ∀ (pre : Data → Prop) (next : Data) (res : Int), Takes (· = Stop.crashes) pre
      (fun dt => dt.spinlock = false) (do set next; DATA_SPIN_UNLOCK; return res : Routine Int) :=
    fun _ _ _ _ _ => rfl
  refine .ite (fun _ => (answer _ key).imp fun _ here => here.1) fun _ => ?_
  refine (lock_keeps key).bind fun _ => .get fun dt here => .ite (fun _ => ?_) fun _ => ?_
  · exact access_takes fun copied _ => unlocks _ _ _
  · split
    · exact unlocks _ _ _
    · exact access_takes fun copied _ => unlocks _ _ _

-- cplus_mem_cpy_ex refuses to copy the array, although it is not too long.
def Refuses (value1 value2 : Pointer) : Value → Prop
  | .byte_array len bufs =>
    value2 ≠ none ∧
      match value1.bind (slice · 0 4) with
      | none => False
      | some size => len ≤ readLittle size ∧
        (bufs = none ∨ len = 0 ∨ readLittle size = 0 ∨ readLittle size > RSIZE_MAX_MEM)
  | _ => False

instance (value1 value2 : Pointer) (value : Value) : Decidable (Refuses value1 value2 value) := by
  unfold Refuses
  split
  · split <;> infer_instance
  · infer_instance

theorem mem_cpy_ex_done {dest bufs : Pointer} {size len : Nat} {result : Bool × Pointer}
    (copied : cplus_mem_cpy_ex dest 0 size bufs 0 len = some result) (there : dest ≠ none) (room : len ≤ size) :
    result.1 = false ↔ bufs = none ∨ len = 0 ∨ size = 0 ∨ size > RSIZE_MAX_MEM := by
  obtain ⟨block,rfl⟩ := Option.ne_none_iff_exists'.mp there
  cases bufs with
  | none =>
    cases copied
    simp
  | some source =>
    simp only [cplus_mem_cpy_ex] at copied
    split at copied
    · rename_i refused
      cases copied
      simp only [reduceCtorEq,false_or,true_iff]
      omega
    · obtain ⟨bytes,_,taken⟩ := Option.bind_eq_some_iff.mp copied
      obtain ⟨written,_,rfl⟩ := Option.map_eq_some_iff.mp taken
      simp only [reduceCtorEq,false_or,Bool.true_eq_false,false_iff]
      omega

theorem get_value_frees (value1 value2 : Pointer) :
    Takes (· = Stop.crashes) (fun dt => At false key dt ∧ ¬ Refuses value1 value2 dt.value) (At false key)
      (cplus_data_get_value value1 value2) := by
  cases value1 with
  | none => exact (answer _ key).weaken fun _ here => here.1
  | some dest =>
    refine .get fun dt here => ?_
    refine Takes.weaken ?_ fun _ (same : _ = dt) => (same ▸ here.1 : At false key _)
    split
    · exact .pure _
    · exact .pure _
    · exact ((store_keeps _ _).seq fun written => answer _) key
    · exact ((guarded_keeps fun _ => store_keeps _ _).seq fun written => answer _) key
    · exact ((spin_keeps (store_keeps _ _)).seq fun written => answer _) key
    · exact ((store_keeps _ _).seq fun written => answer _) key
    · refine .ite (fun _ => .pure _) fun _ => spin_keeps ?_ key
      refine (uint32_keeps _).seq fun size => (access_keeps _).seq fun text => ite (fun _ => answer _) fun _ => ?_
      exact (access_keeps _).seq fun printed => answer _
    · rename_i len bufs shape
      refine .ite (fun _ => .pure _) fun there => (lock_keeps key).bind fun _ => uint32_takes fun size read => ?_
      refine .ite (fun _ => (unlock_keeps.seq fun _ => answer _) key) fun room => access_takes fun copied done => ?_
      refine .ite (fun _ => (unlock_keeps.seq fun _ => answer _) key) fun refused => ?_
      have allowed := here.2
      rw [shape] at allowed
      have why := (mem_cpy_ex_done done there (Nat.le_of_not_lt room)).mp (by simpa using refused)
      exact absurd ⟨there,by simpa only [Option.bind_some,read] using ⟨Nat.le_of_not_lt room,why⟩⟩ allowed

theorem get_value_holds {value1 value2 : Pointer} (free : dt.spinlock = false) (refuses : Refuses value1 value2 dt.value) :
    ∃ result, cplus_data_get_value value1 value2 dt = .ok (result,{dt with spinlock := true}) := by
  obtain ⟨is_valid,mode,key_len,name,lock,code,size,value⟩ := dt
  cases free
  cases value with
  | byte_array len bufs =>
    obtain ⟨there,refuses⟩ := refuses
    cases value1 with
    | none => cases refuses
    | some dest =>
      cases read : slice dest 0 4 with
      | none =>
        simp only [Option.bind_some,read] at refuses
      | some bytes =>
        simp only [Option.bind_some,read] at refuses
        obtain ⟨room,why⟩ := refuses
        obtain ⟨out,rfl⟩ := Option.ne_none_iff_exists'.mp there
        have refused : bufs = none ∨ (readLittle bytes = 0 ∨ readLittle bytes > RSIZE_MAX_MEM ∨ len = 0 ∨
            len > readLittle bytes) := why.imp_right fun refused => by omega
        have copied : cplus_mem_cpy_ex (some out) 0 (readLittle bytes) bufs 0 len = some (false,some out) :=
          mem_cpy_ex_refuses refused
        refine ⟨(CPLUS_FAIL,some dest,some out),?_⟩
        simp [cplus_data_get_value,DATA_SPIN_LOCK,uint32,access,read,copied,Nat.not_lt.mpr room,run_bind,run_get,run_pure,ok_bind,-bind_pure_comp,run_set]
  | _ => cases refuses

-- The ways out of a store that has the lock, from the state it has found.
theorem Keeps.takes {free : Bool} {body : Routine α} (keeps : Keeps l free body) (here : At l key dt) :
    Takes (· = Stop.crashes) (· = dt) (At free key) body := by
  apply (keeps key).weaken
  rintro _ rfl
  exact here

theorem unlock_answer_keeps (a : α) : Keeps l false (do DATA_SPIN_UNLOCK; return a) :=
  unlock_keeps.seq fun _ => answer a

theorem put_release_keeps (value : Value) : Keeps l false (do put_value value; release_valid) :=
  (put_value_keeps value).seq fun _ => release_valid_keeps

theorem set_as_double_frees (value : BitVec 64) (alloc : Outcome) :
    Takes (· = Stop.crashes) (fun dt => At false key dt ∧ dt.data_type ≠ .BYTE_ARRAY) (At false key)
      (cplus_data_set_as_double host value alloc) := by
  refine (lock_takes fun _ other => other).bind fun _ => .get fun dt here => ?_
  split
  · exact (unlock_answer_keeps _).takes here.1
  · exact (unlock_answer_keeps _).takes here.1
  · exact (put_release_keeps _).takes here.1
  · exact (put_release_keeps _).takes here.1
  · exact (put_release_keeps _).takes here.1
  · exact (put_release_keeps _).takes here.1
  · exact ((set_printed_keeps _ _ _ _).seq release_keeps).takes here.1
  · exact absurd (by rw [data_type,‹dt.value = _›]; rfl) here.2

theorem set_as_double_spins (value : BitVec 64) (alloc : Outcome) (free : dt.spinlock = false)
    (array : dt.data_type = .BYTE_ARRAY) : cplus_data_set_as_double host value alloc dt = .error .spins := by
  obtain ⟨_,_,_,_,_,_,_,value⟩ := dt
  cases free
  cases value with
  | byte_array len bufs => rfl
  | _ => cases array

theorem set_as_pointer_frees (value : BitVec 64) (alloc : Outcome) :
    Takes (· = Stop.crashes) (fun dt => At false key dt ∧ dt.data_type ≠ .BYTE_ARRAY) (At false key)
      (cplus_data_set_as_pointer host value alloc) := by
  refine (lock_takes fun _ other => other).bind fun _ => .get fun dt here => ?_
  split
  · exact (unlock_answer_keeps _).takes here.1
  · exact (unlock_answer_keeps _).takes here.1
  · exact (put_release_keeps _).takes here.1
  · exact (put_release_keeps _).takes here.1
  · exact (put_release_keeps _).takes here.1
  · exact (put_release_keeps _).takes here.1
  · exact ((set_printed_keeps _ _ _ _).seq release_keeps).takes here.1
  · exact absurd (by rw [data_type,‹dt.value = _›]; rfl) here.2

theorem set_as_pointer_spins (value : BitVec 64) (alloc : Outcome) (free : dt.spinlock = false)
    (array : dt.data_type = .BYTE_ARRAY) : cplus_data_set_as_pointer host value alloc dt = .error .spins := by
  obtain ⟨_,_,_,_,_,_,_,value⟩ := dt
  cases free
  cases value with
  | byte_array len bufs => rfl
  | _ => cases array

end Calls

-- The public operations on one object. A clone has two of them; the other one is
-- an argument, whatever its state.
inductive Call where
  | get_data_size
  | get_type
  | is_valid
  | get_key
  | set_key (key_len : Nat) (key : Pointer) (alloc : Outcome)
  | set_action_mode (mode : Nat)
  | get_action_mode
  | get_value (value1 value2 : Pointer)
  | set_value (value1 value2 : Pointer) (alloc : Outcome)
  | clone_from (src : Data) (alloc : Outcome)
  | clone_to (dest : Data) (alloc : Outcome)
  | set_bool (value : Bool) (alloc : Outcome)
  | set_integer (type : IntType) (value : BitVec type.bits) (alloc : Outcome)
  | set_real (type : FloatType) (value : BitVec type.bits) (alloc : Outcome)
  | set_pointer (value : BitVec 64) (alloc : Outcome)
  | set_string (str_len : Nat) (str_bufs : Pointer) (alloc : Outcome)
  | set_byte_array (array_len : Nat) (array_bufs : Pointer) (alloc : Outcome)
  | set_string_code (code : Nat)
  | get_bool
  | get_integer (type : IntType)
  | get_real (type : FloatType)
  | get_pointer
  | get_string
  | get_byte_array
  | get_string_code
  | get_as_bool (value : Bool)
  | get_as_integer (type : IntType) (value : BitVec type.bits)
  | get_as_real (type : FloatType) (value : BitVec type.bits)
  | get_as_string (str_len : Nat) (str_bufs : Pointer)
  | get_as_byte_array (array_len : Nat) (array_bufs : Pointer)
  | set_as_bool (value : Bool) (alloc : Outcome)
  | set_as_integer (type : IntType) (value : BitVec type.bits) (alloc : Outcome)
  | set_as_float (value : BitVec 32) (alloc : Outcome)
  | set_as_double (value : BitVec 64) (alloc : Outcome)
  | set_as_pointer (value : BitVec 64) (alloc : Outcome)
  | set_as_string (str_len : Nat) (str_bufs : Pointer) (alloc : Outcome)
  | set_as_byte_array (array_len : Nat) (array_bufs : Pointer)

def ignore (routine : Routine α) : Routine Unit := do
  let _ ← routine
  return ()

-- The source object of a clone is only read.
def cloned_to (dest : Data) (alloc : Outcome) : Routine Int := do
  match cplus_data_clone_value (← get) alloc dest with
  | .ok result => return result.1
  | .error reason => throw reason

def Call.run (host : Host) : Call → Routine Unit
  | .get_data_size => ignore cplus_data_get_data_size
  | .get_type => ignore cplus_data_get_type
  | .is_valid => ignore cplus_data_is_valid
  | .get_key => ignore cplus_data_get_key
  | .set_key key_len key alloc => ignore (cplus_data_set_key key_len key alloc)
  | .set_action_mode mode => ignore (cplus_data_set_action_mode mode)
  | .get_action_mode => ignore cplus_data_get_action_mode
  | .get_value value1 value2 => ignore (cplus_data_get_value value1 value2)
  | .set_value value1 value2 alloc => ignore (cplus_data_set_value value1 value2 alloc)
  | .clone_from src alloc => ignore (cplus_data_clone_value src alloc)
  | .clone_to dest alloc => ignore (cloned_to dest alloc)
  | .set_bool value alloc => ignore (cplus_data_set_bool value alloc)
  | .set_integer type value alloc => ignore (typed_setter type value alloc)
  | .set_real type value alloc => ignore (typed_float_setter type value alloc)
  | .set_pointer value alloc => ignore (cplus_data_set_pointer value alloc)
  | .set_string str_len str_bufs alloc => ignore (cplus_data_set_string str_len str_bufs alloc)
  | .set_byte_array array_len array_bufs alloc => ignore (cplus_data_set_byte_array array_len array_bufs alloc)
  | .set_string_code code => ignore (cplus_data_set_string_code code)
  | .get_bool => ignore cplus_data_get_bool
  | .get_integer type => ignore (typed_getter type)
  | .get_real type => ignore (typed_float_getter type)
  | .get_pointer => ignore cplus_data_get_pointer
  | .get_string => ignore cplus_data_get_string
  | .get_byte_array => ignore cplus_data_get_byte_array
  | .get_string_code => ignore cplus_data_get_string_code
  | .get_as_bool value => ignore (cplus_data_get_as_bool host value)
  | .get_as_integer type value => ignore (getter host type value)
  | .get_as_real type value => ignore (float_getter host type value)
  | .get_as_string str_len str_bufs => ignore (cplus_data_get_as_string host str_len str_bufs)
  | .get_as_byte_array array_len array_bufs => ignore (cplus_data_get_as_byte_array array_len array_bufs)
  | .set_as_bool value alloc => ignore (cplus_data_set_as_bool host value alloc)
  | .set_as_integer type value alloc => ignore (setter host type value alloc)
  | .set_as_float value alloc => ignore (cplus_data_set_as_float host value alloc)
  | .set_as_double value alloc => ignore (cplus_data_set_as_double host value alloc)
  | .set_as_pointer value alloc => ignore (cplus_data_set_as_pointer host value alloc)
  | .set_as_string str_len str_bufs alloc => ignore (cplus_data_set_as_string host str_len str_bufs alloc)
  | .set_as_byte_array array_len array_bufs => ignore (cplus_data_set_as_byte_array array_len array_bufs)

theorem get_bool_keeps : Keeps l l cplus_data_get_bool := by
  refine reads fun dt => ?_
  split
  · exact answer _
  · exact crash

theorem get_pointer_keeps : Keeps l l cplus_data_get_pointer := by
  refine reads fun dt => ?_
  split
  · exact answer _
  · exact crash

theorem get_string_keeps : Keeps l l cplus_data_get_string := by
  refine reads fun dt => ?_
  split
  · exact answer _
  · exact crash

theorem get_byte_array_keeps : Keeps l l cplus_data_get_byte_array := by
  refine reads fun dt => ?_
  split
  · exact answer _
  · exact crash

theorem get_string_code_keeps : Keeps l l cplus_data_get_string_code :=
  reads fun _ => ite (fun _ => answer _) fun _ => crash

-- The calls that hold on to the lock, or wait for it while they have it.
def Call.Defective : Call → Data → Prop
  | .get_value value1 value2,dt => Refuses value1 value2 dt.value
  | .set_as_double _ _,dt => dt.data_type = .BYTE_ARRAY
  | .set_as_pointer _ _,dt => dt.data_type = .BYTE_ARRAY
  | _,_ => False

instance (call : Call) (dt : Data) : Decidable (call.Defective dt) := by
  cases call <;> unfold Call.Defective <;> infer_instance

theorem ignore_keeps {routine : Routine α} (keeps : Keeps l m routine) : Keeps l m (ignore routine) :=
  keeps.seq fun _ => answer _

theorem cloned_to_keeps (dest : Data) (alloc : Outcome) : Keeps l l (cloned_to dest alloc) := by
  refine reads fun dt => ?_
  cases cloned : cplus_data_clone_value dt alloc dest with
  | ok result => exact answer _
  | error reason =>
    obtain rfl : reason = .crashes :=
      (clone_value_keeps dt alloc (dest.key,dest.key_len)).ends ⟨rfl,rfl⟩ cloned
    exact crash

theorem set_scalar_keeps (value : List UInt8) (alloc : Outcome) : Keeps false false (set_scalar value alloc) :=
  set_value_keeps _ _ _

-- A getter that is one look at the object.
theorem look_keeps {give : Data → α} : Keeps l l (do return give (← get) : Routine α) := reads fun _ => answer _

theorem Keeps.frees {routine : Routine α} {P : Data → Prop} (keeps : Keeps false false routine) :
    Takes (· = Stop.crashes) (fun dt => dt.spinlock = false ∧ P dt) (fun dt => dt.spinlock = false) (ignore routine) := by
  intro dt here
  exact ((ignore_keeps keeps (dt.key,dt.key_len)).imp fun _ after => after.1) dt ⟨here.1,rfl⟩

theorem frees_at {routine : Routine α} {P : Data → Prop} {post : Pointer × Nat → Data → Prop}
    (takes : ∀ key, Takes (· = Stop.crashes) (fun dt => At false key dt ∧ P dt) (post key) routine)
    (free : ∀ key dt, post key dt → dt.spinlock = false) :
    Takes (· = Stop.crashes) (fun dt => dt.spinlock = false ∧ P dt) (fun dt => dt.spinlock = false) (ignore routine) := by
  intro dt here
  exact (((takes (dt.key,dt.key_len)).imp (free _)).bind fun _ => .pure _) dt ⟨⟨here.1,rfl⟩,here.2⟩

-- The lock is free again after every call that is not defective there.
theorem call_frees (host : Host) (call : Call) :
    Takes (· = Stop.crashes) (fun dt => dt.spinlock = false ∧ ¬ call.Defective dt) (fun dt => dt.spinlock = false)
      (call.run host) := by
  cases call with
  | get_data_size => exact get_data_size_keeps.frees
  | get_type => exact look_keeps.frees
  | is_valid => exact look_keeps.frees
  | get_key => exact look_keeps.frees
  | set_key key_len name alloc =>
    intro dt here
    exact ((set_key_frees key_len name alloc).bind fun _ => .pure _) dt ⟨here.1,rfl⟩
  | set_action_mode mode => exact (set_action_mode_keeps mode).frees
  | get_action_mode => exact look_keeps.frees
  | get_value value1 value2 => exact frees_at (fun _ => get_value_frees value1 value2) fun _ _ after => after.1
  | set_value value1 value2 alloc => exact (set_value_keeps _ _ _).frees
  | clone_from src alloc => exact (clone_value_keeps _ _).frees
  | clone_to dest alloc => exact (cloned_to_keeps dest alloc).frees
  | set_bool value alloc => exact (set_scalar_keeps (bool_bytes value) alloc).frees
  | set_integer type value alloc =>
    rw [Call.run,typed_setter_eq]
    exact (set_scalar_keeps _ _).frees
  | set_real type value alloc =>
    rw [Call.run,typed_float_setter_eq]
    exact (set_scalar_keeps _ _).frees
  | set_pointer value alloc => exact (set_scalar_keeps (bytes 8 value) alloc).frees
  | set_string str_len str_bufs alloc => exact (set_value_keeps (some (littleEndian32 str_len)) str_bufs alloc).frees
  | set_byte_array array_len array_bufs alloc =>
    exact (set_value_keeps (some (littleEndian32 array_len)) array_bufs alloc).frees
  | set_string_code code => exact (set_string_code_keeps code).frees
  | get_bool => exact get_bool_keeps.frees
  | get_integer type =>
    rw [Call.run,typed_getter_eq]
    exact (get_integer_keeps type).frees
  | get_real type =>
    rw [Call.run,typed_float_getter_eq]
    exact (get_real_keeps type).frees
  | get_pointer => exact get_pointer_keeps.frees
  | get_string => exact get_string_keeps.frees
  | get_byte_array => exact get_byte_array_keeps.frees
  | get_string_code => exact get_string_code_keeps.frees
  | get_as_bool value => exact (get_as_bool_keeps value).frees
  | get_as_integer type value =>
    rw [Call.run,getter_eq]
    exact (get_as_integer_keeps _ _ _).frees
  | get_as_real type value =>
    rw [Call.run,float_getter_eq]
    exact (get_as_real_keeps _ _).frees
  | get_as_string str_len str_bufs => exact (get_as_string_keeps _ _).frees
  | get_as_byte_array array_len array_bufs => exact (get_as_byte_array_keeps _ _).frees
  | set_as_bool value alloc => exact (set_as_bool_keeps _ _).frees
  | set_as_integer type value alloc =>
    rw [Call.run,setter_eq]
    exact (set_as_integer_keeps _ _ _ _).frees
  | set_as_float value alloc => exact (set_as_float_keeps _ _).frees
  | set_as_double value alloc => exact frees_at (fun _ => set_as_double_frees value alloc) fun _ _ after => after.1
  | set_as_pointer value alloc => exact frees_at (fun _ => set_as_pointer_frees value alloc) fun _ _ after => after.1
  | set_as_string str_len str_bufs alloc => exact (set_as_string_keeps _ _ _).frees
  | set_as_byte_array array_len array_bufs => exact (set_as_byte_array_keeps _ _).frees

-- A call that finds the lock free returns with the lock free, and does not wait
-- for the lock while it has it itself.
def Disciplined (host : Host) (call : Call) (dt : Data) : Prop :=
  match call.run host dt with
  | .ok (_,after) => after.spinlock = false
  | .error reason => reason ≠ .spins

theorem disciplined_iff (host : Host) (call : Call) {dt : Data} (free : dt.spinlock = false) :
    Disciplined host call dt ↔ ¬ call.Defective dt := by
  constructor
  · intro disciplined defective
    unfold Disciplined at disciplined
    cases call with
    | get_value value1 value2 =>
      obtain ⟨result,ran⟩ := get_value_holds free defective
      have held : (Call.get_value value1 value2).run host dt = .ok ((),{dt with spinlock := true}) := by
        simp only [Call.run,ignore,run_bind,ran]
        rfl
      rw [held] at disciplined
      cases disciplined
    | set_as_double value alloc =>
      have spins : (Call.set_as_double value alloc).run host dt = .error .spins := by
        simp only [Call.run,ignore,run_bind,set_as_double_spins value alloc free defective]
        rfl
      rw [spins] at disciplined
      exact disciplined rfl
    | set_as_pointer value alloc =>
      have spins : (Call.set_as_pointer value alloc).run host dt = .error .spins := by
        simp only [Call.run,ignore,run_bind,set_as_pointer_spins value alloc free defective]
        rfl
      rw [spins] at disciplined
      exact disciplined rfl
    | _ => cases defective
  · intro sound
    have taken := call_frees host call dt ⟨free,sound⟩
    unfold Disciplined
    split
    · rename_i ran
      rw [ran] at taken
      exact taken
    · rename_i ran
      rw [ran] at taken
      cases (taken : _ = Stop.crashes)
      nofun

-- Whatever a constructor makes.
def Created (dt : Data) : Prop :=
  ∃ type value1 value2 key_len key value_alloc key_alloc,
    data_initialize_object type value1 value2 key_len key value_alloc key_alloc = .ok (some dt)

theorem created_free {dt : Data} (created : Created dt) : dt.spinlock = false := by
  obtain ⟨type,value1,value2,key_len,key,value_alloc,key_alloc,made⟩ := created
  have frees : Takes (· = Stop.crashes) (At false (none,0)) (fun dt => dt.spinlock = false)
      (set_up value1 value2 key_len key value_alloc key_alloc) := by
    refine (ite (fun _ => (set_value_keeps _ _ _).seq fun _ => answer _) (fun _ => answer _) (none,0)).bind fun valued => ?_
    refine .ite (fun _ => ?_) fun _ => (answer _ (none,0)).imp fun _ here => here.1
    exact .ite (fun _ => (set_key_frees _ _ _).bind fun _ => .pure _) fun _ => (answer _ (none,0)).imp fun _ here => here.1
  have taken := frees (blank type) ⟨rfl,rfl⟩
  unfold data_initialize_object at made
  split at made
  · cases made
  · rename_i done result ran
    rw [ran] at taken
    split at made
    · cases made
      exact taken
    · cases made

-- A call that returns.
def Steps (host : Host) (dt : Data) (call : Call) (after : Data) : Prop := call.run host dt = .ok ((),after)

-- A run whose calls are not defective where they are made finds the lock free in
-- every state. In any state, the next call is disciplined unless it is defective.
theorem lock_discipline_exact (host : Host) {made dt : Data} {moves : List (Move Data Call)} (created : Created made)
    (run : Run (Steps host) made moves dt) :
    (Meets (fun dt call => ¬ call.Defective dt) moves →
      dt.spinlock = false ∧ Throughout (fun dt => dt.spinlock = false) moves) ∧
    (dt.spinlock = false → ∀ call : Call, Disciplined host call dt ↔ ¬ call.Defective dt) := by
  have start := created_free created
  constructor
  · intro met
    refine run.keeps (J := fun dt => dt.spinlock = false) _ start (fun free taken sound => ?_) met
    have disciplined := (disciplined_iff host _ free).mpr sound
    unfold Disciplined at disciplined
    rw [show _ = _ from taken] at disciplined
    exact disciplined
  · exact fun free call => disciplined_iff host call free

-- cplus_data_new_string, and then a number set and read through it.
theorem number_disciplined : Created (blank .STRING) ∧ ∀ host : Host, ∃ dt moves,
    Run (Steps host) (blank .STRING) moves dt ∧
    moves.map Move.action = [.set_as_integer .INT16 (-7) (some fun _ => 0),.set_action_mode 3] ∧
    dt.spinlock = false ∧ ∀ call : Call, Disciplined host call dt ↔ ¬ call.Defective dt := by
  have created : Created (blank .STRING) := ⟨.STRING,none,none,0,none,none,none,rfl⟩
  refine ⟨created,fun host => ?_⟩
  obtain ⟨next,set_⟩ : ∃ next, Steps host (blank .STRING) (.set_as_integer .INT16 (-7) (some fun _ => 0)) next :=
    ⟨_,rfl⟩
  have moded : Steps host next (.set_action_mode 3) {next with action_mode := 3} := rfl
  have run := (Run.nil.snoc set_).snoc moded
  obtain ⟨throughout,exact_⟩ := lock_discipline_exact host created run
  obtain ⟨free,_⟩ := throughout (by simp [Meets,Call.Defective])
  exact ⟨_,_,run,rfl,free,exact_ free⟩

-- A byte array that was made without a value.
theorem array_undisciplined : Created (blank .BYTE_ARRAY) ∧ (blank .BYTE_ARRAY).spinlock = false ∧ ∀ host : Host,
    ¬ Disciplined host (.get_value (some [0,0,0,0]) (some [])) (blank .BYTE_ARRAY) ∧
    ¬ Disciplined host (.set_as_double 0 none) (blank .BYTE_ARRAY) ∧
    ¬ Disciplined host (.set_as_pointer 0 none) (blank .BYTE_ARRAY) := by
  refine ⟨⟨.BYTE_ARRAY,none,none,0,none,none,none,rfl⟩,rfl,fun host => ?_⟩
  have defects : ∀ call : Call, call.Defective (blank .BYTE_ARRAY) → ¬ Disciplined host call (blank .BYTE_ARRAY) :=
    fun call defective disciplined => (disciplined_iff host call rfl).mp disciplined defective
  refine ⟨?_,?_,?_⟩
  · exact defects _ (by decide)
  · exact defects _ rfl
  · exact defects _ rfl

end Libcplus.Data
