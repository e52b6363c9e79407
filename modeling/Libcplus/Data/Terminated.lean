import Libcplus.Data.Reached

namespace Libcplus.Data
open Bytes Memory Typedef Program Transition

variable {host : Host} {dt after : Data} {alloc : Outcome} {bufs : Pointer} {len need : Nat} {block : List UInt8}

section Looks
variable {α β : Type} {P : Data → Prop} {type : IntType}

abbrev Leaves (P : Data → Prop) (routine : Routine α) : Prop := Takes (fun _ => True) P P routine

theorem reads_leave {rest : Data → Routine β} (then_ : ∀ dt, Leaves P (rest dt)) : Leaves P (get >>= rest) :=
  .get fun dt here => (then_ dt).weaken fun _ same => same ▸ here

theorem crash_leaves : Leaves P (throw .crashes : Routine α) := .throw trivial

theorem look_leaves {give : Data → α} : Leaves P (do return give (← get) : Routine α) := reads_leave fun _ => .pure _

theorem ignore_leaves {routine : Routine α} (leaves : Leaves P routine) : Leaves P (ignore routine) :=
  leaves.bind fun _ => .pure _

theorem store_leaves (value bytes : List UInt8) : Leaves P (store value bytes) := (access_leaves _).bind fun _ => .pure _

theorem fill_variable_leaves (value : List UInt8) (len : Nat) (bufs : Pointer) : Leaves P (fill_variable value len bufs) :=
  (access_leaves _).bind fun _ => .pure _

theorem print_out_leaves (str_len : Nat) (str_bufs : Pointer) (text : List UInt8) :
    Leaves P (print_out str_len str_bufs text) := .ite (fun _ => .pure _) fun _ => (access_leaves _).bind fun _ => .pure _

theorem get_bool_leaves : Leaves P cplus_data_get_bool := by
  refine reads_leave fun dt => ?_
  split
  · exact .pure _
  · exact crash_leaves

theorem get_pointer_leaves : Leaves P cplus_data_get_pointer := by
  refine reads_leave fun dt => ?_
  split
  · exact .pure _
  · exact crash_leaves

theorem get_string_leaves : Leaves P cplus_data_get_string := by
  refine reads_leave fun dt => ?_
  split
  · exact .pure _
  · exact crash_leaves

theorem get_byte_array_leaves : Leaves P cplus_data_get_byte_array := by
  refine reads_leave fun dt => ?_
  split
  · exact .pure _
  · exact crash_leaves

theorem get_string_code_leaves : Leaves P cplus_data_get_string_code :=
  reads_leave fun _ => .ite (fun _ => .pure _) fun _ => crash_leaves

variable (lockless : Lockless P)
include lockless

theorem copy_out_leaves (array_len : Nat) (array_bufs : Pointer) (size : Nat) (source : Pointer) :
    Leaves P (copy_out array_len array_bufs size source) :=
  spin_leaves lockless ((access_leaves _).bind fun _ => .pure _)

theorem get_data_size_leaves : Leaves P cplus_data_get_data_size := by
  refine reads_leave fun dt => ?_
  split
  · exact .pure _
  · exact .pure _
  · exact .pure _
  · exact .pure _
  · exact .pure _
  · exact .pure _
  · exact spin_leaves lockless ((access_leaves _).bind fun _ => .pure _)
  · exact spin_leaves lockless (.pure _)

theorem get_value_leaves (value1 value2 : Pointer) : Leaves P (cplus_data_get_value value1 value2) := by
  cases value1 with
  | none => exact .pure _
  | some dest =>
    refine reads_leave fun dt => ?_
    split
    · exact .pure _
    · exact .pure _
    · exact (store_leaves _ _).bind fun _ => .pure _
    · exact (guarded_leaves lockless (store_leaves _ _)).bind fun _ => .pure _
    · exact (spin_leaves lockless (store_leaves _ _)).bind fun _ => .pure _
    · exact (store_leaves _ _).bind fun _ => .pure _
    · refine .ite (fun _ => .pure _) fun _ => spin_leaves lockless ?_
      refine (uint32_stays _).bind fun size => (access_leaves _).bind fun text => .ite (fun _ => .pure _) fun _ => ?_
      exact (access_leaves _).bind fun _ => .pure _
    · refine .ite (fun _ => .pure _) fun _ => (lock_leaves lockless).bind fun _ => (uint32_stays _).bind fun size => ?_
      refine .ite (fun _ => (unlock_leaves lockless).bind fun _ => .pure _) fun _ => (access_leaves _).bind fun copied => ?_
      exact .ite (fun _ => (unlock_leaves lockless).bind fun _ => .pure _) fun _ => .pure _

theorem get_integer_leaves (type : IntType) : Leaves P (get_integer type) := by
  refine reads_leave fun dt => ?_
  split
  · exact .ite (fun _ => guarded_leaves lockless (.pure _)) fun _ => crash_leaves
  · exact crash_leaves

theorem get_real_leaves (type : FloatType) : Leaves P (get_real type) := by
  refine reads_leave fun dt => ?_
  split
  · split
    · exact spin_leaves lockless (.pure _)
    · exact crash_leaves
  · exact crash_leaves

theorem get_as_bool_leaves (value : Bool) : Leaves P (cplus_data_get_as_bool host value) := by
  refine reads_leave fun dt => ?_
  split
  · exact .pure _
  · exact .pure _
  · exact .pure _
  · exact (guarded_leaves lockless (.pure _)).bind fun _ => .pure _
  · exact (spin_leaves lockless (.pure _)).bind fun _ => .pure _
  · exact .pure _
  · refine spin_leaves lockless (.ite (fun _ => .pure _) fun _ => (access_leaves _).bind fun text => ?_)
    exact .ite (fun _ => .pure _) fun _ => .ite (fun _ => .pure _) fun _ => .pure _
  · exact spin_leaves lockless (.ite (fun _ => .pure _) fun _ => (access_leaves _).bind fun _ => .pure _)

theorem get_as_integer_leaves (type : IntType) (format : Format) (value : BitVec type.bits) :
    Leaves P (get_as_integer host type format value) := by
  refine reads_leave fun dt => ?_
  split
  · exact .pure _
  · exact .pure _
  · exact .pure _
  · exact (guarded_leaves lockless (.pure _)).bind fun _ => .pure _
  · exact (spin_leaves lockless (.pure _)).bind fun _ => .pure _
  · exact .pure _
  · refine spin_leaves lockless ((access_leaves _).bind fun text => ?_)
    split
    · exact .pure _
    · exact .pure _
  · exact spin_leaves lockless ((fill_variable_leaves _ _ _).bind fun _ => .pure _)

theorem get_as_real_leaves (type : FloatType) (value : BitVec type.bits) : Leaves P (get_as_real host type value) := by
  refine reads_leave fun dt => ?_
  split
  · exact .pure _
  · exact .pure _
  · exact spin_leaves lockless (.pure _)
  · exact spin_leaves lockless (.pure _)
  · exact spin_leaves lockless (.pure _)
  · exact spin_leaves lockless (.pure _)
  · refine spin_leaves lockless ((access_leaves _).bind fun text => ?_)
    split
    · exact .pure _
    · exact .pure _
  · exact spin_leaves lockless ((fill_variable_leaves _ _ _).bind fun _ => .pure _)

theorem get_as_string_leaves (str_len : Nat) (str_bufs : Pointer) :
    Leaves P (cplus_data_get_as_string host str_len str_bufs) := by
  refine .ite (fun _ => .pure _) fun _ => reads_leave fun dt => ?_
  split
  · exact .pure _
  · exact .pure _
  · exact (spin_leaves lockless (.pure _)).bind fun _ => print_out_leaves _ _ _
  · exact (spin_leaves lockless (.pure _)).bind fun _ => print_out_leaves _ _ _
  · exact (spin_leaves lockless (.pure _)).bind fun _ => print_out_leaves _ _ _
  · exact (spin_leaves lockless (.pure _)).bind fun _ => print_out_leaves _ _ _
  · exact (spin_leaves lockless (access_leaves _)).bind fun _ => print_out_leaves _ _ _
  · refine spin_leaves lockless (.ite (fun _ => .pure _) fun _ => ?_)
    exact (access_leaves _).bind fun _ => (access_leaves _).bind fun _ => .pure _

theorem get_as_byte_array_leaves (array_len : Nat) (array_bufs : Pointer) :
    Leaves P (cplus_data_get_as_byte_array array_len array_bufs) := by
  refine .ite (fun _ => .pure _) fun _ => reads_leave fun dt => ?_
  split
  · exact .pure _
  · exact .pure _
  · exact copy_out_leaves lockless _ _ _ _
  · exact copy_out_leaves lockless _ _ _ _
  · exact copy_out_leaves lockless _ _ _ _
  · exact copy_out_leaves lockless _ _ _ _
  · exact copy_out_leaves lockless _ _ _ _
  · exact copy_out_leaves lockless _ _ _ _

end Looks

-- What a call does to the buffer of a string: a text is printed to it or it is cleared,
-- once it is there and long enough, or bytes are copied over the whole of it.
inductive Write where
  | nothing
  | stores (alloc : Outcome) (need : Nat) (clears : Bool)
  | copies (array_len : Nat) (source : List UInt8)
  | clones (src : Data) (alloc : Outcome)

def value_write (value1 value2 : Pointer) (alloc : Outcome) : Write :=
  match value1 with
  | none => .nothing
  | some source => .stores alloc ((readLittle (source.take 4) + 1) % 2^32) (value2 = none)

def text_write (alloc : Outcome) (text : List UInt8) : Write := .stores alloc ((text.length + 1) % 2^32) false

def Call.write (host : Host) : Call → Write
  | .set_value value1 value2 alloc => value_write value1 value2 alloc
  | .set_bool value alloc => value_write (some (bool_bytes value)) none alloc
  | .set_integer type value alloc => value_write (some (bytes type.size value)) none alloc
  | .set_real type value alloc => value_write (some (bytes type.size value)) none alloc
  | .set_pointer value alloc => value_write (some (bytes 8 value)) none alloc
  | .set_string str_len str_bufs alloc => value_write (some (littleEndian32 str_len)) str_bufs alloc
  | .set_byte_array array_len array_bufs alloc => value_write (some (littleEndian32 array_len)) array_bufs alloc
  | .set_as_bool value alloc => text_write alloc (if value then ascii "true" else ascii "false")
  | .set_as_integer type value alloc => text_write alloc (type.format.print (type.read value))
  | .set_as_float value alloc => text_write alloc (host.print .FLOAT value)
  | .set_as_double value alloc => text_write alloc (host.print .DOUBLE value)
  | .set_as_pointer value alloc => text_write alloc (host.print_pointer value)
  | .set_as_string str_len (some str_bufs) alloc => value_write (some (littleEndian32 str_len)) (some str_bufs) alloc
  | .set_as_byte_array array_len (some array_bufs) => .copies array_len array_bufs
  | .clone_from src alloc => .clones src alloc
  | _ => .nothing

-- What the value of a string is after it.
def Write.Leaves (len : Nat) (bufs : Pointer) : Write → Value → Prop
  | .nothing,value => value = .str len bufs
  | .stores alloc need clears,value => ∃ size, room alloc len bufs need = (size,none) ∧ value = .str size none ∨
      ∃ block full, room alloc len bufs need = (size,some block) ∧ value = .str size (some full) ∧
        full.length = block.length ∧ if size = 0 ∨ clears ∧ size > RSIZE_MAX_MEM then full = block else 0 ∈ full
  | .copies array_len source,value => ∃ copied, value = .str len copied ∧
      if array_len < (len + 1) % 2^32 then copied = bufs else cplus_mem_cpy bufs (some source) len = some copied
  | .clones src alloc,value => match src.value with
      | .str src_len src_bufs => ∃ copied,
          if len < src_len then match clone_room alloc bufs src_len with
            | none => value = .str len none
            | some block => value = .str src_len copied ∧ cplus_mem_cpy (some block) src_bufs src_len = some copied
          else value = .str len copied ∧ cplus_mem_cpy bufs src_bufs len = some copied
      | _ => value = .str len bufs

-- A buffer of str.len bytes with a NUL among them, or none.
def Terminated : Value → Prop
  | .str len bufs => ∀ block, bufs = some block → block.length = len ∧ 0 ∈ block
  | _ => False

-- When it stays so. A new buffer has some bytes, and is not too long to be cleared
-- unless the allocator has put a NUL into it; bytes that are copied have a NUL.
def Write.Keeps (len : Nat) (bufs : Pointer) : Write → Prop
  | .nothing => True
  | .stores alloc need clears => bufs = none → ∀ garbage, alloc = some garbage →
      need ≠ 0 ∧ (clears → need ≤ RSIZE_MAX_MEM ∨ ∃ i, i < need ∧ garbage i = 0)
  | .copies array_len source => bufs ≠ none → (len + 1) % 2^32 ≤ array_len → 0 ∈ source.take len
  | .clones src alloc => ∀ src_len source, src.value = .str src_len (some source) → bufs ≠ none →
      (len < src_len → alloc ≠ none) → 0 ∈ source.take (max len src_len)

section Kept
variable {write : Write} {value : Value}

theorem terminated_none (len : Nat) : Terminated (.str len none) := no_block

theorem terminated_some : Terminated (.str len (some block)) ↔ block.length = len ∧ 0 ∈ block :=
  ⟨fun ends => ends block rfl,fun ends _ same => Option.some.inj same ▸ ends⟩

-- A copy over the whole of a buffer that has a NUL.
theorem copied_terminated {src copied : Pointer} (length : block.length = len) (ends : 0 ∈ block)
    (done : cplus_mem_cpy (some block) src len = some copied) :
    Terminated (.str len copied) ↔ ∀ source, src = some source → 0 ∈ source.take len := by
  obtain ⟨full,rfl,size,same⟩ := mem_cpy_over length done
  rw [terminated_some]
  cases src with
  | none => exact iff_of_true ⟨size,same ▸ ends⟩ no_block
  | some source =>
    have same : full = source.take len := same
    constructor
    · rintro ⟨_,inside⟩ _ ⟨⟩
      rw [← same]
      exact inside
    · intro inside
      have ends := inside source rfl
      rw [← same] at ends
      exact ⟨size,ends⟩

-- A buffer that there was has a NUL still, and a longer one starts with it.
theorem room_terminated {size : Nat} (before : Terminated (.str len bufs)) (there : bufs ≠ none)
    (made : room alloc len bufs need = (size,some block)) : block.length = size ∧ 0 ∈ block ∧ 0 < size := by
  obtain ⟨old,rfl⟩ := Option.ne_none_iff_exists'.mp there
  obtain ⟨length,ends⟩ := before old rfl
  have positive : 0 < old.length := List.length_pos_of_mem ends
  rcases room_parts alloc len (some old) need with ⟨why,new⟩ | ⟨_,⟨⟩,_,kept⟩
  · obtain ⟨rfl,obtained⟩ := Prod.mk.inj (new.symm.trans made)
    have grows : len < need := why.resolve_left (Option.some_ne_none old)
    refine ⟨allocate_length obtained,?_,by omega⟩
    obtain ⟨garbage,_,rfl⟩ := Option.map_eq_some_iff.mp obtained
    rw [List.take_of_length_le (by omega)]
    exact List.mem_append_left _ ends
  · cases kept.symm.trans made
    exact ⟨length,ends,by omega⟩

theorem stores_kept {clears : Bool} (before : Terminated (.str len bufs))
    (leaves : (Write.stores alloc need clears).Leaves len bufs value) :
    Terminated value ↔ (Write.stores alloc need clears).Keeps len bufs := by
  cases bufs with
  | some old =>
    refine iff_of_true ?_ fun missing => absurd missing (Option.some_ne_none old)
    rcases leaves with ⟨size,⟨_,rfl⟩ | ⟨block,full,made,rfl,length,filled⟩⟩
    · exact terminated_none size
    · obtain ⟨whole,ends,positive⟩ := room_terminated before (Option.some_ne_none old) made
      refine terminated_some.mpr ⟨length.trans whole,?_⟩
      split at filled
      · rw [filled]
        exact ends
      · exact filled
  | none =>
    rcases leaves with ⟨size,⟨made,rfl⟩ | ⟨block,full,made,rfl,length,filled⟩⟩
    · have missing : allocate alloc none need = none := congrArg Prod.snd made
      have refused := allocate_refused missing
      refine iff_of_true (terminated_none size) fun _ garbage granted => ?_
      rw [refused] at granted
      cases granted
    · obtain ⟨rfl,obtained⟩ := Prod.mk.inj made
      obtain ⟨garbage,rfl,rfl⟩ := Option.map_eq_some_iff.mp obtained
      have size : full.length = need := by simpa using length
      have zero : 0 ∈ (List.range need).map garbage ↔ ∃ i, i < need ∧ garbage i = 0 := by simp
      rw [terminated_some]
      constructor
      · rintro ⟨_,ends⟩ _ _ ⟨⟩
        have positive := List.length_pos_of_mem ends
        refine ⟨by omega,fun cleared => ?_⟩
        by_cases large : need > RSIZE_MAX_MEM
        · rw [if_pos (.inr ⟨cleared,large⟩)] at filled
          exact .inr (zero.mp (filled ▸ ends))
        · exact .inl (Nat.le_of_not_lt large)
      · intro keeps
        obtain ⟨some_byte,cleared⟩ := keeps rfl garbage rfl
        refine ⟨size,?_⟩
        split at filled
        · rename_i untouched
          obtain ⟨clear,large⟩ := untouched.resolve_left some_byte
          rw [filled]
          exact zero.mpr ((cleared clear).resolve_left (Nat.not_le.mpr large))
        · exact filled

theorem clone_room_starts (made : clone_room alloc bufs need = some block) : ∃ old garbage, bufs = some old ∧
    alloc = some garbage ∧ block = old.take need ++ ((List.range need).drop old.length).map garbage := by
  obtain ⟨old,rfl,obtained⟩ := Option.bind_eq_some_iff.mp made
  obtain ⟨garbage,rfl,rfl⟩ := Option.map_eq_some_iff.mp obtained
  exact ⟨old,garbage,rfl,rfl,rfl⟩

theorem clones_kept {src : Data} (before : Terminated (.str len bufs)) (leaves : (Write.clones src alloc).Leaves len bufs value) :
    Terminated value ↔ (Write.clones src alloc).Keeps len bufs := by
  cases held : src.value with
  | str src_len src_bufs =>
    simp only [Write.Leaves,held] at leaves
    simp only [Write.Keeps,held]
    obtain ⟨copied,leaves⟩ := leaves
    cases bufs with
    | none =>
      refine iff_of_true ?_ fun _ _ _ missing => absurd rfl missing
      split at leaves
      · have missing : value = .str len none := leaves
        rw [missing]
        exact before
      · obtain ⟨rfl,done⟩ := leaves
        cases done
        exact before
    | some old =>
      obtain ⟨length,ends⟩ := before old rfl
      split at leaves
      · rename_i longer
        have whole : max len src_len = src_len := Nat.max_eq_right (Nat.le_of_lt longer)
        cases made : clone_room alloc (some old) src_len with
        | none =>
          have refused : alloc = none := Option.map_eq_none_iff.mp made
          rw [made] at leaves
          rw [leaves]
          exact iff_of_true (terminated_none len) fun _ _ same _ granted => by
            cases same
            exact absurd refused (granted longer)
        | some block =>
          rw [made] at leaves
          obtain ⟨rfl,done⟩ := leaves
          obtain ⟨_,garbage,⟨⟩,rfl,same⟩ := clone_room_starts made
          have inside : 0 ∈ block := by
            rw [same,List.take_of_length_le (by omega)]
            exact List.mem_append_left _ ends
          rw [copied_terminated (clone_room_length made) inside done]
          constructor
          · rintro keeps _ source ⟨⟩ _ _
            rw [whole]
            exact keeps source rfl
          · rintro keeps source rfl
            have kept := keeps src_len source rfl (Option.some_ne_none old) fun _ => Option.some_ne_none garbage
            rwa [whole] at kept
      · rename_i shorter
        have whole : max len src_len = len := Nat.max_eq_left (Nat.le_of_not_lt shorter)
        obtain ⟨rfl,done⟩ := leaves
        rw [copied_terminated length ends done]
        constructor
        · rintro keeps _ source ⟨⟩ _ _
          rw [whole]
          exact keeps source rfl
        · rintro keeps source rfl
          have kept := keeps src_len source rfl (Option.some_ne_none old) fun longer => absurd longer shorter
          rwa [whole] at kept
  | _ =>
    simp only [Write.Leaves,held] at leaves
    rw [leaves]
    exact iff_of_true before fun _ _ same => by
      rw [held] at same
      cases same

theorem write_kept (before : Terminated (.str len bufs)) (leaves : write.Leaves len bufs value) :
    Terminated value ↔ write.Keeps len bufs := by
  cases write with
  | nothing =>
    rw [show value = .str len bufs from leaves]
    exact iff_of_true before trivial
  | stores alloc need clears => exact stores_kept before leaves
  | copies array_len source =>
    obtain ⟨copied,rfl,done⟩ := leaves
    by_cases refused : array_len < (len + 1) % 2^32
    · rw [if_pos refused] at done
      rw [done]
      exact iff_of_true before fun _ enough => absurd refused (Nat.not_lt.mpr enough)
    · rw [if_neg refused] at done
      cases bufs with
      | none =>
        cases done
        exact iff_of_true before fun missing => absurd rfl missing
      | some block =>
        obtain ⟨length,ends⟩ := before block rfl
        rw [copied_terminated length ends done]
        constructor
        · intro inside _ _
          exact inside source rfl
        · rintro keeps _ ⟨⟩
          exact keeps (Option.some_ne_none block) (Nat.le_of_not_lt refused)
  | clones src alloc => exact clones_kept before leaves

end Kept

section Calls
variable {α : Type} {value1 value2 : Pointer} {res : Int} {done : Bool} {text : List UInt8} {call : Call}

theorem value_lockless (value : Value) : Lockless fun dt => dt.value = value := fun _ _ _ same => same

theorem leaves_value {routine : Routine α} {a : α} (leaves : Leaves (fun found => found.value = dt.value) routine)
    (ran : routine dt = .ok (a,after)) : after.value = dt.value := leaves.answer rfl ran

theorem spin_parts {body : Routine α} {a : α} (ran : spin body dt = .ok (a,after)) :
    ∃ middle, body {dt with spinlock := true} = .ok (a,middle) ∧ after.value = middle.value := by
  obtain ⟨_,locked,taken,rest⟩ := bind_parts ran
  obtain ⟨result,middle,inside,rest⟩ := bind_parts rest
  cases rest
  have same : locked = {dt with spinlock := true} := by
    obtain ⟨_,_,_,_,lock,_,_,_⟩ := dt
    cases lock with
    | true => cases taken
    | false => cases taken; rfl
  exact ⟨middle,same ▸ inside,rfl⟩

-- What follows the locked part leaves the value alone.
theorem spin_stored {body : Routine α} {ending : α → Routine β} {b : β}
    (ends : ∀ value a, Leaves (fun found => found.value = value) (ending a))
    (ran : (spin body >>= ending) dt = .ok (b,after)) :
    ∃ a middle, body {dt with spinlock := true} = .ok (a,middle) ∧ after.value = middle.value := by
  obtain ⟨a,settled,spun,rest⟩ := bind_parts ran
  obtain ⟨middle,inside,kept⟩ := spin_parts spun
  exact ⟨a,middle,inside,(leaves_value (ends _ a) rest).trans kept⟩

theorem uint32_parts {source : List UInt8} {n : Nat} (ran : uint32 source dt = .ok (n,after)) :
    n = readLittle (source.take 4) ∧ after = dt := by
  obtain ⟨read,_,found,answered⟩ := bind_parts ran
  obtain ⟨there,rfl⟩ := access_parts found
  cases answered
  unfold slice at there
  split at there
  · cases there
    exact ⟨rfl,rfl⟩
  · cases there

-- A fill that leaves a NUL in the block, unless it does nothing.
def Ends (clears : Bool) (fill : Nat → List UInt8 → Routine Pointer) : Prop :=
  ∀ size block dt written after, fill size block dt = .ok (written,after) → ∃ full, written = some full ∧
    full.length = block.length ∧ if size = 0 ∨ clears ∧ size > RSIZE_MAX_MEM then full = block else 0 ∈ full

theorem printed_ends {size count : Nat} {written : Pointer}
    (printed : cplus_str_printf (some block) size text = some (count,written)) : ∃ full, written = some full ∧
      full.length = block.length ∧ if size = 0 ∨ false ∧ size > RSIZE_MAX_MEM then full = block else 0 ∈ full := by
  obtain ⟨full,rfl,length⟩ := str_printf_length printed
  refine ⟨full,rfl,length,?_⟩
  by_cases zero : size = 0
  · rw [if_pos (.inl zero)]
    rw [cplus_str_printf,if_pos zero] at printed
    cases printed
    rfl
  · rw [if_neg (by simp [zero])]
    rw [cplus_str_printf,if_neg zero] at printed
    obtain ⟨_,spliced,same⟩ := Option.map_eq_some_iff.mp printed
    cases same
    rw [(splice_parts spliced).2]
    simp

theorem fill_text_ends (text : List UInt8) : Ends false (fill_text text) := by
  intro size block dt written after filled
  obtain ⟨printed,_,put,answered⟩ := bind_parts filled
  cases answered
  exact printed_ends (access_parts put).1

theorem fill_string_ends (value2 : Pointer) : Ends (value2 = none) (fill_string value2) := by
  intro size block dt written after filled
  cases value2 with
  | some value =>
    obtain ⟨text,_,_,rest⟩ := bind_parts filled
    obtain ⟨printed,_,put,answered⟩ := bind_parts rest
    cases answered
    exact printed_ends (access_parts put).1
  | none =>
    obtain ⟨cleared,_,set_,answered⟩ := bind_parts filled
    cases answered
    obtain ⟨there,_⟩ := access_parts set_
    unfold cplus_mem_set at there
    dsimp only at there
    split at there
    · rename_i refused
      cases there
      exact ⟨block,rfl,rfl,(if_pos (refused.elim (fun large => .inr ⟨rfl,large⟩) .inl)).mpr rfl⟩
    · rename_i accepted
      obtain ⟨full,spliced,rfl⟩ := Option.map_eq_some_iff.mp there
      refine ⟨full,rfl,splice_length spliced,(if_neg ?_).mpr ?_⟩
      · rintro (zero | ⟨_,large⟩)
        · exact accepted (.inr zero)
        · exact accepted (.inl large)
      · rw [(splice_parts spliced).2]
        simp
        omega

-- A text is stored, or there is no buffer.
theorem set_text_writes {clears : Bool} {fill : Nat → List UInt8 → Routine Pointer} (ends : Ends clears fill)
    (ran : set_text alloc len bufs need fill dt = .ok (done,after)) :
    (Write.stores alloc need clears).Leaves len bufs after.value := by
  rcases set_text_parts ran with ⟨size,made,_,rfl⟩ | ⟨size,block,written,middle,made,filled,_,rfl⟩
  · exact ⟨size,.inl ⟨made,rfl⟩⟩
  · obtain ⟨full,rfl,length,filled⟩ := ends _ _ _ _ _ filled
    exact ⟨size,.inr ⟨block,full,made,rfl,length,filled⟩⟩

theorem set_value_writes (held : dt.value = .str len bufs)
    (ran : cplus_data_set_value value1 value2 alloc dt = .ok (res,after)) :
    (value_write value1 value2 alloc).Leaves len bufs after.value := by
  cases value1 with
  | none =>
    cases ran
    exact held
  | some source =>
    rw [cplus_data_set_value,run_bind,run_get,ok_bind] at ran
    simp only [held] at ran
    obtain ⟨done,middle,inside,same⟩ := spin_stored (fun value done => settle_leaves (value_lockless value) done) ran
    obtain ⟨count,_,counted,stored⟩ := bind_parts inside
    obtain ⟨rfl,rfl⟩ := uint32_parts counted
    rw [same]
    exact set_text_writes (fill_string_ends value2) stored

theorem set_printed_writes (ran : set_printed alloc len bufs text dt = .ok (done,after)) :
    (text_write alloc text).Leaves len bufs after.value := set_text_writes (fill_text_ends text) ran

-- The setters of numbers take the lock here or there.
theorem set_as_integer_writes (type : IntType) (format : Format) (value : BitVec type.bits)
    (held : dt.value = .str len bufs) (ran : set_as_integer host type format value alloc dt = .ok (res,after)) :
    (text_write alloc (format.print (type.read value))).Leaves len bufs after.value := by
  rw [set_as_integer,run_bind,run_get,ok_bind] at ran
  simp only [held] at ran
  obtain ⟨done,middle,inside,same⟩ := spin_stored (fun value done => settle_leaves (value_lockless value) done) ran
  rw [same]
  exact set_printed_writes inside

theorem set_as_float_writes (value : BitVec 32) (held : dt.value = .str len bufs)
    (ran : cplus_data_set_as_float host value alloc dt = .ok (res,after)) :
    (text_write alloc (host.print .FLOAT value)).Leaves len bufs after.value := by
  rw [cplus_data_set_as_float,run_bind,run_get,ok_bind] at ran
  simp only [held] at ran
  obtain ⟨done,middle,inside,same⟩ := spin_stored (fun value done => settle_leaves (value_lockless value) done) ran
  rw [same]
  exact set_printed_writes inside

theorem release_leaves {P : Data → Prop} (lockless : Lockless P) (done : Bool) : Leaves P (release done) :=
  (unlock_leaves lockless).bind fun _ => settle_leaves lockless done

theorem locked_value (taken : DATA_SPIN_LOCK dt = .ok ((),after)) : after.value = dt.value :=
  leaves_value (lock_leaves (value_lockless _)) taken

theorem released_writes (ran : (set_printed alloc len bufs text >>= release) dt = .ok (res,after)) :
    (text_write alloc text).Leaves len bufs after.value := by
  obtain ⟨done,middle,stored,rest⟩ := bind_parts ran
  rw [leaves_value (release_leaves (value_lockless _) done) rest]
  exact set_printed_writes stored

theorem set_as_double_writes (value : BitVec 64) (held : dt.value = .str len bufs)
    (ran : cplus_data_set_as_double host value alloc dt = .ok (res,after)) :
    (text_write alloc (host.print .DOUBLE value)).Leaves len bufs after.value := by
  obtain ⟨_,locked,taken,rest⟩ := bind_parts ran
  rw [run_bind,run_get,ok_bind] at rest
  simp only [(locked_value taken).trans held] at rest
  exact released_writes rest

theorem set_as_pointer_writes (value : BitVec 64) (held : dt.value = .str len bufs)
    (ran : cplus_data_set_as_pointer host value alloc dt = .ok (res,after)) :
    (text_write alloc (host.print_pointer value)).Leaves len bufs after.value := by
  obtain ⟨_,locked,taken,rest⟩ := bind_parts ran
  rw [run_bind,run_get,ok_bind] at rest
  simp only [(locked_value taken).trans held] at rest
  exact released_writes rest

theorem set_as_bool_writes (value : Bool) (held : dt.value = .str len bufs)
    (ran : cplus_data_set_as_bool host value alloc dt = .ok (res,after)) :
    (text_write alloc (if value then ascii "true" else ascii "false")).Leaves len bufs after.value := by
  rw [cplus_data_set_as_bool,run_bind,run_get,ok_bind] at ran
  simp only [held] at ran
  obtain ⟨answer,middle,stored,rest⟩ := bind_parts ran
  rw [leaves_value (set_valid_leaves (value_lockless _)) rest]
  have wrote := set_value_writes held stored
  cases value <;> exact wrote

theorem set_as_string_writes (str_len : Nat) {source : List UInt8} (held : dt.value = .str len bufs)
    (ran : cplus_data_set_as_string host str_len (some source) alloc dt = .ok (res,after)) :
    (value_write (some (littleEndian32 str_len)) (some source) alloc).Leaves len bufs after.value := by
  rw [cplus_data_set_as_string,run_bind,run_get,ok_bind] at ran
  simp only [held] at ran
  obtain ⟨answer,middle,stored,rest⟩ := bind_parts ran
  obtain ⟨_,last,valid,answered⟩ := bind_parts rest
  cases answered
  rw [leaves_value (set_valid_leaves (value_lockless _)) valid]
  exact set_value_writes held stored

theorem set_as_byte_array_writes (array_len : Nat) {source : List UInt8} (held : dt.value = .str len bufs)
    (ran : cplus_data_set_as_byte_array array_len (some source) dt = .ok (res,after)) :
    (Write.copies array_len source).Leaves len bufs after.value := by
  rw [cplus_data_set_as_byte_array,run_bind,run_get,ok_bind] at ran
  simp only [held] at ran
  have finishes : ∀ value done, Leaves (fun found => found.value = value) (finish_copied done) := fun value done =>
    .ite (fun _ => (set_valid_leaves (value_lockless value)).bind fun _ => .pure _) fun _ => .pure _
  obtain ⟨done,middle,inside,same⟩ := spin_stored finishes ran
  rw [same]
  by_cases refused : array_len < (len + 1) % 2^32
  · rw [if_pos refused] at inside
    cases inside
    exact ⟨bufs,held,(if_pos refused).mpr rfl⟩
  · rw [if_neg refused] at inside
    obtain ⟨copied,_,found,put⟩ := bind_parts inside
    obtain ⟨there,rfl⟩ := access_parts found
    cases put
    exact ⟨copied,rfl,(if_neg refused).mpr there⟩

theorem clone_value_writes {src : Data} (held : dt.value = .str len bufs)
    (ran : cplus_data_clone_value src alloc dt = .ok (res,after)) :
    (Write.clones src alloc).Leaves len bufs after.value := by
  rw [cplus_data_clone_value,run_bind,run_get,ok_bind] at ran
  cases source : src.value with
  | str src_len src_bufs =>
    have same : ¬ dt.data_type ≠ src.data_type := by simp [data_type,held,source,Value.data_type]
    rw [if_neg same] at ran
    simp only [held,source] at ran
    simp only [Write.Leaves,source]
    by_cases longer : src_len > len
    · rw [if_pos longer] at ran
      simp only [if_pos longer]
      cases made : clone_room alloc bufs src_len with
      | none =>
        rw [made] at ran
        cases ran
        exact ⟨none,rfl⟩
      | some block =>
        rw [made] at ran
        obtain ⟨copied,_,found,put⟩ := bind_parts ran
        obtain ⟨there,rfl⟩ := access_parts found
        cases put
        exact ⟨copied,rfl,there⟩
    · rw [if_neg longer] at ran
      simp only [if_neg longer]
      obtain ⟨copied,_,found,put⟩ := bind_parts ran
      obtain ⟨there,rfl⟩ := access_parts found
      cases put
      exact ⟨copied,rfl,there⟩
  | _ =>
    have other : dt.data_type ≠ src.data_type := by simp [data_type,held,source,Value.data_type]
    rw [if_pos other] at ran
    cases ran
    simp only [Write.Leaves,source]
    exact held

theorem cloned_to_leaves {P : Data → Prop} (dest : Data) : Leaves P (cloned_to dest alloc) := by
  refine reads_leave fun dt => ?_
  split
  · exact .pure _
  · exact .throw trivial

theorem ignore_parts {routine : Routine α} (ran : ignore routine dt = .ok ((),after)) : ∃ a, routine dt = .ok (a,after) := by
  obtain ⟨a,_,first,rest⟩ := bind_parts ran
  cases rest
  exact ⟨a,first⟩

theorem nothing_writes {routine : Routine α} (held : dt.value = .str len bufs)
    (leaves : Leaves (fun found => found.value = dt.value) routine) (ran : ignore routine dt = .ok ((),after)) :
    Write.nothing.Leaves len bufs after.value := (leaves_value (ignore_leaves leaves) ran).trans held

theorem set_string_code_leaves (code : Nat) (value : Value) :
    Leaves (fun found => found.value = value) (cplus_data_set_string_code code) := by
  refine reads_leave fun dt => ?_
  split
  · exact Takes.bind (.modify fun _ same => same) fun _ => .pure _
  · exact .pure _

-- What a call that returns has done to a string.
theorem call_writes (held : dt.value = .str len bufs) (taken : Steps host dt call after) :
    (call.write host).Leaves len bufs after.value := by
  have lockless := value_lockless dt.value
  cases call with
  | get_data_size => exact nothing_writes held (get_data_size_leaves lockless) taken
  | get_type => exact nothing_writes held look_leaves taken
  | is_valid => exact nothing_writes held look_leaves taken
  | get_key => exact nothing_writes held look_leaves taken
  | set_key key_len key alloc =>
    exact nothing_writes held (set_key_leaves (fun _ _ _ same before => same.trans before) _ _ _) taken
  | set_action_mode mode =>
    exact nothing_writes held (Takes.bind (.modify fun _ same => same) fun _ => .pure _) taken
  | get_action_mode => exact nothing_writes held look_leaves taken
  | get_value value1 value2 => exact nothing_writes held (get_value_leaves lockless _ _) taken
  | set_value value1 value2 alloc =>
    obtain ⟨_,ran⟩ := ignore_parts taken
    exact set_value_writes held ran
  | clone_from src alloc =>
    obtain ⟨_,ran⟩ := ignore_parts taken
    exact clone_value_writes held ran
  | clone_to dest alloc => exact nothing_writes held (cloned_to_leaves dest) taken
  | set_bool value alloc =>
    obtain ⟨_,ran⟩ := ignore_parts taken
    have ran : cplus_data_set_value (some (bool_bytes value)) none alloc dt = .ok (_,after) := ran
    exact set_value_writes held ran
  | set_integer type value alloc =>
    obtain ⟨_,ran⟩ := ignore_parts taken
    rw [typed_setter_eq] at ran
    exact set_value_writes held ran
  | set_real type value alloc =>
    obtain ⟨_,ran⟩ := ignore_parts taken
    rw [typed_float_setter_eq] at ran
    exact set_value_writes held ran
  | set_pointer value alloc =>
    obtain ⟨_,ran⟩ := ignore_parts taken
    have ran : cplus_data_set_value (some (bytes 8 value)) none alloc dt = .ok (_,after) := ran
    exact set_value_writes held ran
  | set_string str_len str_bufs alloc =>
    obtain ⟨_,ran⟩ := ignore_parts taken
    exact set_value_writes held ran
  | set_byte_array array_len array_bufs alloc =>
    obtain ⟨_,ran⟩ := ignore_parts taken
    exact set_value_writes held ran
  | set_string_code code => exact nothing_writes held (set_string_code_leaves code _) taken
  | get_bool => exact nothing_writes held get_bool_leaves taken
  | get_integer type =>
    obtain ⟨_,ran⟩ := ignore_parts taken
    rw [typed_getter_eq] at ran
    exact (leaves_value (get_integer_leaves lockless type) ran).trans held
  | get_real type =>
    obtain ⟨_,ran⟩ := ignore_parts taken
    rw [typed_float_getter_eq] at ran
    exact (leaves_value (get_real_leaves lockless type) ran).trans held
  | get_pointer => exact nothing_writes held get_pointer_leaves taken
  | get_string => exact nothing_writes held get_string_leaves taken
  | get_byte_array => exact nothing_writes held get_byte_array_leaves taken
  | get_string_code => exact nothing_writes held get_string_code_leaves taken
  | get_as_bool value => exact nothing_writes held (get_as_bool_leaves lockless value) taken
  | get_as_integer type value =>
    obtain ⟨_,ran⟩ := ignore_parts taken
    rw [getter_eq] at ran
    exact (leaves_value (get_as_integer_leaves lockless _ _ _) ran).trans held
  | get_as_real type value =>
    obtain ⟨_,ran⟩ := ignore_parts taken
    rw [float_getter_eq] at ran
    exact (leaves_value (get_as_real_leaves lockless _ _) ran).trans held
  | get_as_string str_len str_bufs => exact nothing_writes held (get_as_string_leaves lockless _ _) taken
  | get_as_byte_array array_len array_bufs => exact nothing_writes held (get_as_byte_array_leaves lockless _ _) taken
  | set_as_bool value alloc =>
    obtain ⟨_,ran⟩ := ignore_parts taken
    exact set_as_bool_writes value held ran
  | set_as_integer type value alloc =>
    obtain ⟨_,ran⟩ := ignore_parts taken
    rw [setter_eq] at ran
    exact set_as_integer_writes type _ value held ran
  | set_as_float value alloc =>
    obtain ⟨_,ran⟩ := ignore_parts taken
    exact set_as_float_writes value held ran
  | set_as_double value alloc =>
    obtain ⟨_,ran⟩ := ignore_parts taken
    exact set_as_double_writes value held ran
  | set_as_pointer value alloc =>
    obtain ⟨_,ran⟩ := ignore_parts taken
    exact set_as_pointer_writes value held ran
  | set_as_string str_len str_bufs alloc =>
    obtain ⟨_,ran⟩ := ignore_parts taken
    cases str_bufs with
    | none =>
      cases ran
      exact held
    | some source => exact set_as_string_writes str_len held ran
  | set_as_byte_array array_len array_bufs =>
    obtain ⟨_,ran⟩ := ignore_parts taken
    cases array_bufs with
    | none =>
      cases ran
      exact held
    | some source => exact set_as_byte_array_writes array_len held ran

end Calls

-- A string, and a call that leaves its NUL there.
def Ended (dt : Data) : Prop := Terminated dt.value

def Call.Keeps (host : Host) (dt : Data) (call : Call) : Prop :=
  match dt.value with
  | .str len bufs => (call.write host).Keeps len bufs
  | _ => True

-- What a constructor makes comes from one or two calls on an object without a value.
theorem created_run (host : Host) {made : Data} (created : Created made) :
    ∃ moves, Run (Steps host) (blank made.data_type) moves made := by
  obtain ⟨type,value1,value2,key_len,key,value_alloc,key_alloc,ran⟩ := created
  rw [(created_sound ran).2]
  unfold data_initialize_object at ran
  split at ran
  · cases ran
  · rename_i done after ran_up
    obtain ⟨rfl,rfl⟩ : done = true ∧ after = made := by
      split at ran
      · cases ran
        exact ⟨‹_›,rfl⟩
      · cases ran
    obtain ⟨valued,middle,first,rest⟩ := bind_parts ran_up
    obtain ⟨moves,run⟩ : ∃ moves, Run (Steps host) (blank type) moves middle := by
      unfold set_up_value at first
      split at first
      · obtain ⟨res,_,stored,answered⟩ := bind_parts first
        cases answered
        exact ⟨_,Run.nil.snoc (a := Call.set_value value1 value2 value_alloc) (bind_ok stored)⟩
      · cases first
        exact ⟨_,.nil⟩
    split at rest
    · unfold set_up_key at rest
      split at rest
      · obtain ⟨res,_,keyed,answered⟩ := bind_parts rest
        obtain ⟨_,rfl⟩ := Prod.mk.inj (Except.ok.inj answered)
        exact ⟨_,run.snoc (a := Call.set_key key_len key key_alloc) (bind_ok keyed)⟩
      · cases rest
        exact ⟨_,run⟩
    · cases rest

theorem step_kept {call : Call} (ended : Ended dt) (taken : Steps host dt call after) : Ended after ↔ call.Keeps host dt := by
  unfold Ended at ended
  cases held : dt.value with
  | str len bufs =>
    rw [held] at ended
    rw [Call.Keeps,held]
    exact write_kept ended (call_writes held taken)
  | _ => rw [held] at ended; cases ended

-- A run from a string without a value keeps the NUL in every state exactly when each
-- of its calls does where it is made.
theorem terminator_exact (host : Host) {moves : List (Move Data Call)} (run : Run (Steps host) (blank .STRING) moves dt) :
    (Throughout Ended moves ↔ Meets (fun dt call => call.Keeps host dt) moves) ∧
    ∀ made, Created made → made.data_type = .STRING → ∃ first, Run (Steps host) (blank .STRING) first made := by
  constructor
  · refine run.exact (J := Ended) (terminated_none 0) ?_ id ?_
    · exact fun ended taken keeps => (step_kept ended taken).mpr keeps
    · exact fun ended taken misses still => misses ((step_kept ended taken).mp still)
  · intro made created string
    rw [← string]
    exact created_run host created

-- A number, and then a shorter text.
theorem number_terminated : Created (blank .STRING) ∧ ∀ host : Host, ∃ dt moves,
    Run (Steps host) (blank .STRING) moves dt ∧
    moves.map Move.action = [.set_as_integer .INT16 (-7) (some fun _ => 1),.set_string 1 (some [97,0]) none] ∧
    Meets (fun dt call => call.Keeps host dt) moves ∧ Throughout Ended moves := by
  refine ⟨⟨.STRING,none,none,0,none,none,none,rfl⟩,fun host => ?_⟩
  obtain ⟨next,len,text,numbered,held⟩ : ∃ next len text,
      Steps host (blank .STRING) (.set_as_integer .INT16 (-7) (some fun _ => 1)) next ∧ next.value = .str len (some text) :=
    ⟨_,_,_,rfl,rfl⟩
  obtain ⟨dt,named⟩ : ∃ dt, Steps host next (.set_string 1 (some [97,0]) none) dt := by
    cases numbered
    exact ⟨_,rfl⟩
  have run := (Run.nil.snoc numbered).snoc named
  have short : (Decimal.print (-7)).length = 2 := by simp [Decimal.print,Decimal.natural]
  have first : (Call.set_as_integer .INT16 (-7) (some fun _ => 1)).Keeps host (blank .STRING) := fun _ _ _ => by
    have stored : IntType.INT16.format.print (IntType.INT16.read (-7)) = Decimal.print (-7) := rfl
    rw [stored,short]
    exact ⟨by decide,fun clears => absurd clears Bool.false_ne_true⟩
  have second : (Call.set_string 1 (some [97,0]) none).Keeps host next := by
    unfold Call.Keeps
    rw [held]
    exact fun no_buffer => absurd no_buffer (Option.some_ne_none text)
  have keeps : Meets (fun dt (call : Call) => call.Keeps host dt) ([] ++ [⟨_,_,next⟩] ++ [⟨next,_,dt⟩]) :=
    meets_snoc.mpr ⟨meets_snoc.mpr ⟨meets_nil,first⟩,second⟩
  exact ⟨dt,_,run,rfl,keeps,(terminator_exact host run).1.mpr keeps⟩

-- Bytes without a NUL over a text of two characters, and a length that comes to zero.
theorem terminator_lost : Created (blank .STRING) ∧ ∀ host : Host, ∃ dt moves other others,
    Run (Steps host) (blank .STRING) moves dt ∧
    moves.map Move.action = [.set_string 2 (some [97,98,0]) (some fun _ => 0),.set_as_byte_array 4 (some [1,2,3,4])] ∧
    dt.value = .str 3 (some [1,2,3]) ∧ ¬ Throughout Ended moves ∧
    Run (Steps host) (blank .STRING) others other ∧
    others.map Move.action = [.set_value (some [255,255,255,255]) (some [97,0]) (some fun _ => 0)] ∧
    other.value = .str 0 (some []) ∧ ¬ Throughout Ended others := by
  refine ⟨⟨.STRING,none,none,0,none,none,none,rfl⟩,fun host => ?_⟩
  obtain ⟨next,stored,first⟩ : ∃ next, Steps host (blank .STRING) (.set_string 2 (some [97,98,0]) (some fun _ => 0)) next ∧
      next = {blank .STRING with is_valid := true,value := .str 3 (some [97,98,0])} := ⟨_,rfl,rfl⟩
  obtain ⟨dt,copied,held⟩ : ∃ dt, Steps host next (.set_as_byte_array 4 (some [1,2,3,4])) dt ∧
      dt.value = .str 3 (some [1,2,3]) := by
    rw [first]
    exact ⟨_,rfl,rfl⟩
  obtain ⟨other,wrapped,none_⟩ : ∃ other,
      Steps host (blank .STRING) (.set_value (some [255,255,255,255]) (some [97,0]) (some fun _ => 0)) other ∧
      other.value = .str 0 (some []) := ⟨_,rfl,rfl⟩
  refine ⟨dt,_,other,_,(Run.nil.snoc stored).snoc copied,rfl,held,fun ended => ?_,Run.nil.snoc wrapped,rfl,none_,fun ended => ?_⟩
  · have last := (throughout_snoc.mp ended).2
    rw [Ended,held,terminated_some] at last
    exact absurd last.2 (by decide)
  · have last := (throughout_snoc.mp ended).2
    rw [Ended,none_,terminated_some] at last
    exact absurd last.2 (by decide)

end Libcplus.Data
