import Libcplus.Data.RoundTrip

namespace Libcplus.Data
open Bytes Memory Typedef Program Transition

variable {α β : Type} {host : Host} {dt after : Data} {alloc : Outcome} {bufs written : Pointer} {len size need : Nat}
  {block : List UInt8}

-- A string has the whole of its buffer. Of a byte array's buffer dt->bufs_size bytes
-- are there, and the array is no longer than that.
def Sized (bufs_size : Nat) : Value → Prop
  | .str len bufs => len < 2^32 ∧ ∀ block, bufs = some block → block.length = len
  | .byte_array len bufs => len ≤ bufs_size ∧ ∀ block, bufs = some block → bufs_size ≤ block.length
  | _ => True

def Holds (dt : Data) : Prop := Sized dt.bufs_size dt.value

abbrev Stays (routine : Routine α) : Prop := Takes (fun _ => True) Holds Holds routine

section Routines
variable {pre : Data → Prop}

-- A buffer that is NULL or too small is a new one of the size that is asked for,
-- when it is there at all.
theorem room_cases {result : Pointer} (made : room alloc len bufs need = (size,result)) :
    ((bufs = none ∨ len < need) ∧ size = need ∧ ∀ block, result = some block → block.length = need) ∨
      ∃ old, bufs = some old ∧ need ≤ len ∧ size = len ∧ result = some old := by
  rcases room_parts alloc len bufs need with ⟨why,new⟩ | ⟨old,rfl,within,kept⟩
  · obtain ⟨rfl,rfl⟩ := Prod.mk.inj (new.symm.trans made)
    exact .inl ⟨why,rfl,fun _ obtained => allocate_length obtained⟩
  · obtain ⟨rfl,rfl⟩ := Prod.mk.inj (kept.symm.trans made)
    exact .inr ⟨old,rfl,within,rfl,rfl⟩

theorem holds_lockless : Lockless Holds := fun _ _ _ holds => holds

-- A value that needs no buffer.
theorem put_value_stays {value : Value} (sized : ∀ size, Sized size value) : Stays (put_value value) :=
  .modify fun dt _ => sized dt.bufs_size

theorem set_as_stays {routine : Routine α} (sets : Stays routine) : Stays (routine >>= fun _ => set_valid) :=
  sets.bind fun _ => set_valid_leaves holds_lockless

theorem uint32_stays (value : List UInt8) : Takes (fun _ => True) pre pre (uint32 value) :=
  (access_leaves _).bind fun _ => .pure _

-- What is written to a string's buffer is as long as the buffer.
theorem set_text_stays (sized : Sized size (.str len bufs)) (small : need < 2^32)
    {fill : Nat → List UInt8 → Routine Pointer}
    (fills : ∀ len block dt written after, fill len block dt = .ok (written,after) →
      ∃ full, written = some full ∧ full.length = block.length) :
    Takes (fun _ => True) (fun _ => True) Holds (set_text alloc len bufs need fill) := by
  refine .of_answers fun dt done after _ ran => ?_
  rcases set_text_parts ran with ⟨stored,made,_,rfl⟩ | ⟨stored,block,written,middle,made,filled,_,rfl⟩
  · rcases room_cases made with ⟨_,rfl,_⟩ | ⟨_,_,_,_,kept⟩
    · exact ⟨small,no_block⟩
    · cases kept
  · obtain ⟨full,rfl,length⟩ := fills _ _ _ _ _ filled
    rcases room_cases made with ⟨_,rfl,new⟩ | ⟨old,rfl,_,rfl,kept⟩
    · exact ⟨small,by rintro _ ⟨⟩; exact length.trans (new _ rfl)⟩
    · cases kept
      exact ⟨sized.1,by rintro _ ⟨⟩; exact length.trans (sized.2 _ rfl)⟩

theorem set_array_stays {value2 : Pointer} (sized : Sized size (.byte_array len bufs)) :
    Takes (fun _ => True) (fun _ => True) Holds (set_array alloc len bufs need value2) := by
  refine .of_answers fun dt done after _ ran => ?_
  rcases set_array_parts ran with ⟨stored,made,_,rfl⟩ | ⟨stored,block,written,middle,made,filled,_,rfl⟩
  · rcases room_cases made with ⟨_,rfl,_⟩ | ⟨_,_,_,_,kept⟩
    · exact ⟨Nat.le_refl _,no_block⟩
    · cases kept
  · obtain ⟨full,rfl,length⟩ := fill_array_length filled
    rcases room_cases made with ⟨_,rfl,new⟩ | ⟨old,rfl,enough,rfl,kept⟩
    · exact ⟨Nat.le_refl _,by rintro _ ⟨⟩; exact Nat.le_of_eq (length.trans (new _ rfl)).symm⟩
    · cases kept
      have inside := sized.2 _ rfl
      exact ⟨enough,by rintro _ ⟨⟩; exact Nat.le_trans sized.1 (Nat.le_trans inside (Nat.le_of_eq length.symm))⟩

-- A routine that looks at the state first.
theorem reads_stays {rest : Data → Routine β} (then_ : ∀ dt, Holds dt → Takes (fun _ => True) (· = dt) Holds (rest dt)) :
    Stays (get >>= rest) := .get then_

-- One that goes on from what it read, without a buffer of the object.
theorem at_stays {routine : Routine α} (stays : Stays routine) (holds : Holds dt) :
    Takes (fun _ => True) (· = dt) Holds routine := stays.weaken fun _ same => same ▸ holds

theorem set_value_stays (value1 value2 : Pointer) (alloc : Outcome) : Stays (cplus_data_set_value value1 value2 alloc) := by
  cases value1 with
  | none => exact .pure _
  | some source =>
    refine reads_stays fun dt holds => at_stays ?_ holds
    obtain ⟨_,_,_,_,_,_,_,value⟩ := dt
    cases value with
    | null => exact .pure _
    | unknown => exact .pure _
    | b b => exact (access_leaves _).bind fun read => set_as_stays (put_value_stays fun _ => trivial)
    | integer type bits =>
      refine set_as_stays (guarded_leaves holds_lockless ?_)
      exact (access_leaves _).bind fun read => put_value_stays fun _ => trivial
    | real type bits =>
      refine set_as_stays (spin_leaves holds_lockless ?_)
      exact (access_leaves _).bind fun read => put_value_stays fun _ => trivial
    | p p => exact (access_leaves _).bind fun read => set_as_stays (put_value_stays fun _ => trivial)
    | str len bufs =>
      refine (spin_leaves holds_lockless ?_).bind (settle_leaves holds_lockless)
      refine (uint32_stays source).bind fun count => (set_text_stays holds ?_ ?_).weaken fun _ _ => trivial
      · exact Nat.mod_lt _ (by decide)
      · exact fun _ _ _ _ _ filled => fill_string_length filled
    | byte_array len bufs =>
      refine (spin_leaves holds_lockless ?_).bind (settle_leaves holds_lockless)
      exact (uint32_stays source).bind fun count => (set_array_stays holds).weaken fun _ _ => trivial

theorem set_key_stays (key_len : Nat) (key : Pointer) (alloc : Outcome) : Stays (cplus_data_set_key key_len key alloc) := by
  apply set_key_leaves
  intro dt next size same holds
  change Sized next.bufs_size next.value
  rw [size,same]
  exact holds

theorem set_string_code_stays (code : Nat) : Stays (cplus_data_set_string_code code) := by
  refine reads_stays fun dt holds => at_stays ?_ holds
  split
  · exact Takes.bind (.modify fun _ holds => holds) fun _ => .pure _
  · exact .pure _

-- A copy leaves a buffer as long as it was.
theorem text_copied {src copied : Pointer} {count : Nat} (sized : Sized size (.str len bufs))
    (done : cplus_mem_cpy bufs src count = some copied) : Sized size (.str len copied) := by
  refine ⟨sized.1,?_⟩
  rintro after rfl
  obtain ⟨old,rfl,length⟩ := mem_cpy_length done
  exact length.trans (sized.2 old rfl)

theorem array_copied {src copied : Pointer} {count : Nat} (sized : Sized size (.byte_array len bufs))
    (done : cplus_mem_cpy bufs src count = some copied) : Sized size (.byte_array len copied) := by
  refine ⟨sized.1,?_⟩
  rintro after rfl
  obtain ⟨old,rfl,length⟩ := mem_cpy_length done
  exact Nat.le_trans (sized.2 old rfl) (Nat.le_of_eq length.symm)

theorem clone_room_length {need : Nat} (made : clone_room alloc bufs need = some block) : block.length = need := by
  obtain ⟨old,rfl,obtained⟩ := Option.bind_eq_some_iff.mp made
  exact realloc_length obtained

theorem unbuffered {value source : Value} (same : value.data_type = source.data_type)
    (no_text : ∀ len bufs src_len src_bufs, value = .str len bufs → source = .str src_len src_bufs → False)
    (no_array : ∀ len bufs src_len src_bufs, value = .byte_array len bufs → source = .byte_array src_len src_bufs → False)
    (size : Nat) : Sized size source := by
  cases source with
  | str src_len src_bufs =>
    cases value with
    | str len bufs => exact (no_text _ _ _ _ rfl rfl).elim
    | _ => cases same
  | byte_array src_len src_bufs =>
    cases value with
    | byte_array len bufs => exact (no_array _ _ _ _ rfl rfl).elim
    | _ => cases same
  | _ => trivial

theorem clone_value_stays {src : Data} (held : Holds src) (alloc : Outcome) : Stays (cplus_data_clone_value src alloc) := by
  refine .get fun dest holds => .ite (fun _ => at_stays (.pure _) holds) fun same => ?_
  have sized : Sized dest.bufs_size dest.value := holds
  have source : Sized src.bufs_size src.value := held
  split
  · rename_i len bufs src_len src_bufs text src_text
    rw [text] at sized
    rw [src_text] at source
    refine .ite (fun _ => ?_) fun _ => ?_
    · split
      · have stored : Sized dest.bufs_size (.str len none) := ⟨sized.1,no_block⟩
        exact fun _ _ => stored
      · rename_i made
        have length := clone_room_length made
        refine .of_answers fun dt done after _ ran => ?_
        obtain ⟨copied,_,copies,answered⟩ := bind_parts ran
        cases answered
        refine text_copied ⟨source.1,?_⟩ (access_parts copies).1
        rintro _ ⟨⟩
        exact length
    · refine .of_answers fun dt done after _ ran => ?_
      obtain ⟨copied,_,copies,answered⟩ := bind_parts ran
      cases answered
      exact text_copied sized (access_parts copies).1
  · rename_i array src_array
    rw [array] at sized
    rw [src_array] at source
    refine .ite (fun _ => ?_) fun _ => ?_
    · split
      · refine Takes.bind (.modify fun dt same => ?_) fun _ => .pure _
        subst same
        exact ⟨sized.1,no_block⟩
      · rename_i made
        have length := clone_room_length made
        refine .of_answers fun dt done after _ ran => ?_
        obtain ⟨copied,_,copies,answered⟩ := bind_parts ran
        cases answered
        refine array_copied ⟨source.1,?_⟩ (access_parts copies).1
        rintro _ ⟨⟩
        exact Nat.le_of_eq length.symm
    · refine .of_answers fun dt done after here ran => ?_
      obtain ⟨copied,_,copies,answered⟩ := bind_parts ran
      obtain ⟨found,rfl⟩ := access_parts copies
      subst here
      cases answered
      exact array_copied sized found
  · rename_i no_text no_array
    refine Takes.bind (.modify fun dt _ => ?_) fun _ => .pure _
    exact unbuffered (Decidable.not_not.mp same) no_text no_array _

theorem set_printed_stays {text : List UInt8} (sized : Sized size (.str len bufs)) :
    Takes (fun _ => True) (fun _ => True) Holds (set_printed alloc len bufs text) := by
  refine set_text_stays sized (Nat.mod_lt _ (by decide)) fun stored block dt written after filled => ?_
  obtain ⟨printed,_,put,answered⟩ := bind_parts filled
  cases answered
  exact str_printf_length (access_parts put).1

theorem printed_stays {text : List UInt8} (holds : Holds dt) (held : dt.value = .str len bufs) :
    Stays (set_printed alloc len bufs text) := by
  have sized : Sized dt.bufs_size (.str len bufs) := held ▸ holds
  exact (set_printed_stays sized).weaken fun _ _ => trivial

theorem valid_but_failed_stays : Stays valid_but_failed := (set_valid_leaves holds_lockless).bind fun _ => .pure _

theorem release_valid_stays : Stays release_valid := (unlock_leaves holds_lockless).bind fun _ => set_valid_leaves holds_lockless

theorem put_release_stays {value : Value} (small : ∀ size, Sized size value) :
    Stays (do put_value value; release_valid) := (put_value_stays small).bind fun _ => release_valid_stays

theorem set_as_bool_stays (value : Bool) : Stays (cplus_data_set_as_bool host value alloc) := by
  refine reads_stays fun dt holds => at_stays ?_ holds
  split
  · exact .pure _
  · exact .pure _
  · exact set_as_stays (put_value_stays fun _ => trivial)
  · exact set_as_stays (guarded_leaves holds_lockless (put_value_stays fun _ => trivial))
  · exact set_as_stays (spin_leaves holds_lockless (put_value_stays fun _ => trivial))
  · exact set_as_stays (put_value_stays fun _ => trivial)
  · exact set_as_stays (set_value_stays _ _ _)
  · exact set_as_stays (set_value_stays _ _ _)

theorem set_as_integer_stays (type : IntType) (format : Format) (value : BitVec type.bits) :
    Stays (set_as_integer host type format value alloc) := by
  refine reads_stays fun dt holds => at_stays ?_ holds
  split
  · exact .pure _
  · exact .pure _
  · exact set_as_stays (spin_leaves holds_lockless (put_value_stays fun _ => trivial))
  · exact set_as_stays (guarded_leaves holds_lockless (put_value_stays fun _ => trivial))
  · exact set_as_stays (spin_leaves holds_lockless (put_value_stays fun _ => trivial))
  · exact set_as_stays (put_value_stays fun _ => trivial)
  · rename_i held
    exact (spin_leaves holds_lockless (printed_stays holds held)).bind (settle_leaves holds_lockless)
  · exact set_as_stays (set_value_stays _ _ _)

theorem set_as_float_stays (value : BitVec 32) : Stays (cplus_data_set_as_float host value alloc) := by
  refine reads_stays fun dt holds => at_stays ?_ holds
  split
  · exact .pure _
  · exact .pure _
  · exact set_as_stays (spin_leaves holds_lockless (put_value_stays fun _ => trivial))
  · exact set_as_stays (spin_leaves holds_lockless (put_value_stays fun _ => trivial))
  · exact set_as_stays (spin_leaves holds_lockless (put_value_stays fun _ => trivial))
  · exact set_as_stays (spin_leaves holds_lockless (put_value_stays fun _ => trivial))
  · rename_i held
    exact (spin_leaves holds_lockless (printed_stays holds held)).bind (settle_leaves holds_lockless)
  · exact set_as_stays (set_value_stays _ _ _)

theorem release_stays (done : Bool) : Stays (release done) := (unlock_leaves holds_lockless).bind fun _ => settle_leaves holds_lockless done

theorem set_as_double_stays (value : BitVec 64) : Stays (cplus_data_set_as_double host value alloc) := by
  refine (lock_leaves holds_lockless).bind fun _ => reads_stays fun dt holds => at_stays ?_ holds
  split
  · exact (unlock_leaves holds_lockless).bind fun _ => .pure _
  · exact (unlock_leaves holds_lockless).bind fun _ => .pure _
  · exact put_release_stays fun _ => trivial
  · exact put_release_stays fun _ => trivial
  · exact put_release_stays fun _ => trivial
  · exact put_release_stays fun _ => trivial
  · rename_i held
    exact (printed_stays holds held).bind release_stays
  · exact (set_value_stays _ _ _).bind fun _ => release_valid_stays

theorem set_as_pointer_stays (value : BitVec 64) : Stays (cplus_data_set_as_pointer host value alloc) := by
  refine (lock_leaves holds_lockless).bind fun _ => reads_stays fun dt holds => at_stays ?_ holds
  split
  · exact (unlock_leaves holds_lockless).bind fun _ => .pure _
  · exact (unlock_leaves holds_lockless).bind fun _ => .pure _
  · exact put_release_stays fun _ => trivial
  · exact put_release_stays fun _ => trivial
  · exact put_release_stays fun _ => trivial
  · exact put_release_stays fun _ => trivial
  · rename_i held
    exact (printed_stays holds held).bind release_stays
  · exact (set_value_stays _ _ _).bind fun _ => release_valid_stays

theorem set_scanned_stays {value : Option Value} (small : ∀ v, value = some v → ∀ size, Sized size v) :
    Stays (set_scanned value) := by
  refine spin_leaves holds_lockless ?_
  cases value with
  | none => exact .pure _
  | some value => exact put_value_stays (small value rfl)

theorem set_as_string_stays (str_len : Nat) (str_bufs : Pointer) :
    Stays (cplus_data_set_as_string host str_len str_bufs alloc) := by
  cases str_bufs with
  | none => exact .pure _
  | some source =>
    refine reads_stays fun dt holds => at_stays ?_ holds
    split
    · exact .pure _
    · exact .pure _
    · refine (access_leaves _).bind fun text => (set_scanned_stays ?_).bind fun _ => valid_but_failed_stays
      intro value scanned
      unfold scan_bool at scanned
      split at scanned
      · cases scanned
        exact fun _ => trivial
      · split at scanned
        · cases scanned
          exact fun _ => trivial
        · cases scanned
    · refine (access_leaves _).bind fun text => (set_scanned_stays ?_).bind fun _ => valid_but_failed_stays
      intro value scanned
      obtain ⟨_,_,rfl⟩ := Option.map_eq_some_iff.mp scanned
      exact fun _ => trivial
    · refine (access_leaves _).bind fun text => (set_scanned_stays ?_).bind fun _ => valid_but_failed_stays
      intro value scanned
      obtain ⟨_,_,rfl⟩ := Option.map_eq_some_iff.mp scanned
      exact fun _ => trivial
    · refine (access_leaves _).bind fun text => (set_scanned_stays ?_).bind fun _ => valid_but_failed_stays
      intro value scanned
      obtain ⟨_,_,rfl⟩ := Option.map_eq_some_iff.mp scanned
      exact fun _ => trivial
    · exact (set_value_stays _ _ _).bind fun res => (set_valid_leaves holds_lockless).bind fun _ => .pure _
    · exact (set_value_stays _ _ _).bind fun _ => valid_but_failed_stays

theorem set_copied_stays {array_len count : Nat} {array_bufs : List UInt8} {value : List UInt8 → Value}
    (small : ∀ read size, Sized size (value read)) : Stays (set_copied array_len count array_bufs value) := by
  refine spin_leaves holds_lockless (.ite (fun _ => .pure _) fun _ => ?_)
  exact (access_leaves _).bind fun read => (put_value_stays (small read)).bind fun _ => .pure _

-- A buffer that is written over in place: dt->bufs_size stays what it was.
theorem set_buffer_stays {array_len : Nat} {array_bufs : Pointer} {value : Pointer → Value} (holds : Holds dt)
    (sized : ∀ copied, cplus_mem_cpy bufs array_bufs len = some copied → Sized dt.bufs_size (value copied)) :
    Takes (fun _ => True) (· = dt) Holds (set_buffer array_len need len bufs array_bufs value) := by
  have lockless : Lockless fun found => found.bufs_size = dt.bufs_size ∧ Holds found := fun _ _ _ here => here
  refine ((spin_leaves lockless (.ite (fun _ => .pure _) fun _ => ?_)).weaken ?_).imp fun _ after => after.2
  · refine .of_answers fun found done after here ran => ?_
    obtain ⟨copied,_,copies,put⟩ := bind_parts ran
    obtain ⟨there,rfl⟩ := access_parts copies
    cases put
    refine ⟨here.1,?_⟩
    change Sized _ _
    rw [here.1]
    exact sized copied there
  · rintro _ rfl
    exact ⟨rfl,holds⟩

theorem finish_copied_stays (done : Bool) : Stays (finish_copied done) :=
  .ite (fun _ => valid_but_failed_stays) fun _ => .pure _

theorem set_as_byte_array_stays (array_len : Nat) (array_bufs : Pointer) :
    Stays (cplus_data_set_as_byte_array array_len array_bufs) := by
  cases array_bufs with
  | none => exact .pure _
  | some source =>
    refine reads_stays fun dt holds => ?_
    have sized : Sized dt.bufs_size dt.value := holds
    split
    · exact at_stays (.pure _) holds
    · exact at_stays (.pure _) holds
    · refine at_stays ((set_copied_stays ?_).bind finish_copied_stays) holds
      exact fun _ _ => trivial
    · refine at_stays ((set_copied_stays ?_).bind finish_copied_stays) holds
      exact fun _ _ => trivial
    · refine at_stays ((set_copied_stays ?_).bind finish_copied_stays) holds
      exact fun _ _ => trivial
    · refine at_stays ((set_copied_stays ?_).bind finish_copied_stays) holds
      exact fun _ _ => trivial
    · rename_i text
      rw [text] at sized
      exact (set_buffer_stays holds fun _ => text_copied sized).bind finish_copied_stays
    · rename_i array
      rw [array] at sized
      exact (set_buffer_stays holds fun _ => array_copied sized).bind finish_copied_stays

end Routines

section Reached
variable {call : Call} {src : Data}

-- The set operations, apart from the clone, which has two objects.
def Call.sets : Call → Bool
  | .set_key _ _ _ | .set_action_mode _ | .set_value _ _ _ | .set_bool _ _ | .set_integer _ _ _ | .set_real _ _ _
  | .set_pointer _ _ | .set_string _ _ _ | .set_byte_array _ _ _ | .set_string_code _ | .set_as_bool _ _
  | .set_as_integer _ _ _ | .set_as_float _ _ | .set_as_double _ _ | .set_as_pointer _ _ | .set_as_string _ _ _
  | .set_as_byte_array _ _ => true
  | _ => false

-- An object in whatever state a constructor and set operations that return leave it.
inductive Reached (host : Host) : Data → Prop
  | made {dt : Data} : Created dt → Reached host dt
  | set {dt after : Data} {call : Call} : Reached host dt → call.sets = true → Steps host dt call after →
      Reached host after
  | cloned {dt src after : Data} {alloc : Outcome} : Reached host dt → Reached host src →
      Steps host dt (.clone_from src alloc) after → Reached host after

theorem ignore_stays {routine : Routine α} (stays : Stays routine) : Stays (ignore routine) :=
  stays.bind fun _ => .pure _

theorem sets_stays (sets : call.sets = true) : Stays (call.run host) := by
  cases call with
  | set_key key_len key alloc => exact ignore_stays (set_key_stays _ _ _)
  | set_action_mode mode => exact ignore_stays (Takes.bind (.modify fun _ holds => holds) fun _ => .pure _)
  | set_value value1 value2 alloc => exact ignore_stays (set_value_stays _ _ _)
  | set_bool value alloc => exact ignore_stays (set_value_stays (some (bool_bytes value)) none alloc)
  | set_integer type value alloc =>
    rw [Call.run,typed_setter_eq]
    exact ignore_stays (set_value_stays _ _ _)
  | set_real type value alloc =>
    rw [Call.run,typed_float_setter_eq]
    exact ignore_stays (set_value_stays _ _ _)
  | set_pointer value alloc => exact ignore_stays (set_value_stays (some (bytes 8 value)) none alloc)
  | set_string str_len str_bufs alloc => exact ignore_stays (set_value_stays _ _ _)
  | set_byte_array array_len array_bufs alloc => exact ignore_stays (set_value_stays _ _ _)
  | set_string_code code => exact ignore_stays (set_string_code_stays code)
  | set_as_bool value alloc => exact ignore_stays (set_as_bool_stays value)
  | set_as_integer type value alloc =>
    rw [Call.run,setter_eq]
    exact ignore_stays (set_as_integer_stays _ _ _)
  | set_as_float value alloc => exact ignore_stays (set_as_float_stays value)
  | set_as_double value alloc => exact ignore_stays (set_as_double_stays value)
  | set_as_pointer value alloc => exact ignore_stays (set_as_pointer_stays value)
  | set_as_string str_len str_bufs alloc => exact ignore_stays (set_as_string_stays _ _)
  | set_as_byte_array array_len array_bufs => exact ignore_stays (set_as_byte_array_stays _ _)
  | _ => cases sets

-- A set operation that returns has left the lock free: one that would not have
-- waits for the lock.
theorem sets_frees (sets : call.sets = true) (free : dt.spinlock = false) (taken : Steps host dt call after) :
    after.spinlock = false := by
  by_cases defective : call.Defective dt
  · unfold Steps Call.run ignore at taken
    cases call with
    | set_as_double value alloc =>
      simp only [run_bind,set_as_double_spins value alloc free defective] at taken
      cases taken
    | set_as_pointer value alloc =>
      simp only [run_bind,set_as_pointer_spins value alloc free defective] at taken
      cases taken
    | get_value value1 value2 => cases sets
    | _ => cases defective
  · exact (call_frees host call).answer ⟨free,defective⟩ taken

theorem set_up_stays (value1 value2 : Pointer) (key_len : Nat) (key : Pointer) (value_alloc key_alloc : Outcome) :
    Stays (set_up value1 value2 key_len key value_alloc key_alloc) := by
  refine Takes.bind (.ite (fun _ => ?_) fun _ => .pure _) fun valued => .ite (fun _ => .ite (fun _ => ?_) fun _ => .pure _) fun _ => .pure _
  · exact (set_value_stays _ _ _).bind fun _ => .pure _
  · exact (set_key_stays _ _ _).bind fun _ => .pure _

theorem blank_holds (type : CPLUS_DATA_TYPE) : Holds (blank type) := by
  cases type with
  | STRING => exact ⟨by decide,no_block⟩
  | BYTE_ARRAY => exact ⟨Nat.le_refl _,no_block⟩
  | _ => trivial

theorem created_holds (created : Created dt) : Holds dt := by
  obtain ⟨type,value1,value2,key_len,key,value_alloc,key_alloc,made⟩ := created
  unfold data_initialize_object at made
  split at made
  · cases made
  · rename_i done after ran
    have holds := (set_up_stays value1 value2 key_len key value_alloc key_alloc).answer (blank_holds type) ran
    split at made
    · cases made
      exact holds
    · cases made

theorem Reached.sound (reached : Reached host dt) : Holds dt ∧ dt.spinlock = false := by
  induction reached with
  | made created => exact ⟨created_holds created,created_free created⟩
  | set _ sets taken ih => exact ⟨(sets_stays sets).answer ih.1 taken,sets_frees sets ih.2 taken⟩
  | @cloned dt src after alloc _ _ taken ih held =>
    refine ⟨(ignore_stays (clone_value_stays held.1 alloc)).answer ih.1 taken,?_⟩
    exact (call_frees host (.clone_from src alloc)).answer ⟨ih.2,nofun⟩ taken

theorem Reached.set_value {value1 value2 : Pointer} {res : Int} (reached : Reached host dt)
    (ran : cplus_data_set_value value1 value2 alloc dt = .ok (res,after)) : Reached host after := by
  have taken : Steps host dt (.set_value value1 value2 alloc) after := bind_ok ran
  exact reached.set rfl taken

end Reached

end Libcplus.Data
