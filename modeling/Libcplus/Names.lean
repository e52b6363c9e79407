import Mathlib.Data.List.TakeDrop
import Mathlib.Data.List.TakeWhile
import Libcplus.Memory

namespace Libcplus.Names
open Bytes Memory

-- A C string: what is in front of its NUL.
abbrev Text := {bytes : List UInt8 // ∀ c ∈ bytes, c ≠ 0}

def text (chars : List Char) : List UInt8 := chars.map fun c => .ofNat c.toNat

theorem text_plain (chars : List Char) (plain : (text chars).all (· != 0) = true) : ∀ c ∈ text chars, c ≠ 0 :=
  plain_of_all plain

-- How a kind of object spells its names: what stands in front of the %s of its
-- pattern, and its limit.
structure Pattern where
  head : Text
  max_size : Nat

-- NAME_MAX_SIZE < strlen(name) + NAME_PATTERN_SIZE
def Pattern.Refuses (pattern : Pattern) (name : Text) : Prop :=
  pattern.max_size < name.1.length + pattern.head.1.length

instance (pattern : Pattern) (name : Text) : Decidable (pattern.Refuses name) :=
  inferInstanceAs (Decidable (_ < _))

theorem c_string_plain {block bytes : List UInt8} (found : c_string block = some bytes) :
    ∀ c ∈ bytes, c ≠ 0 := (c_string_parts found).1

def read_text (block : List UInt8) : Option Text :=
  match found : c_string block with
  | none => none
  | some bytes => some ⟨bytes,c_string_plain found⟩

-- char buffer[NAME_MAX_SIZE + 1] = {0}, and a cplus_str_printf of NAME_MAX_SIZE
-- bytes into it. `none` is an access outside the buffer.
def Pattern.print (pattern : Pattern) (name : Text) : Option Text := do
  let (_,buffer) ← cplus_str_printf (some (List.replicate (pattern.max_size + 1) 0)) pattern.max_size
    (pattern.head.1 ++ name.1)
  read_text (← buffer)

-- How many bytes of a name the buffer takes.
def Pattern.room (pattern : Pattern) : Nat := pattern.max_size - 1 - pattern.head.1.length

def RWLOCK_NAME : Pattern := ⟨⟨text ['r','w','l','o','c','k','.'],text_plain _ (by decide)⟩,31⟩
def PEVENT_NAME : Pattern := ⟨⟨text ['p','e','v','e','n','t','.'],text_plain _ (by decide)⟩,31⟩
def MUTEX_NAME : Pattern := ⟨⟨text ['m','u','t','e','x','.'],text_plain _ (by decide)⟩,31⟩
def SEMAPHORE_NAME : Pattern := ⟨⟨text ['c','p','l','u','s','.','s','e','m','a','_'],text_plain _ (by decide)⟩,31⟩
def SHAREDMEM_NAMED : Pattern :=
  ⟨⟨text ['/','.','c','p','l','u','s','.','s','h','m','_'],text_plain _ (by decide)⟩,63⟩

-- The calls, as far as the name goes: what they hand to shm_open or to sem_open,
-- or none where they return NULL before that.
def sharedmem_new (name : Text) : Option Text := SHAREDMEM_NAMED.print name

def cplus_sharedmem_new (name : Text) : Option Text :=
  if SHAREDMEM_NAMED.Refuses name then none else sharedmem_new name

def rwlock_initialize_object (name : Text) : Option Text :=
  (RWLOCK_NAME.print name).bind cplus_sharedmem_new

def cplus_rwlock_xp_new (name : Text) : Option Text :=
  if RWLOCK_NAME.Refuses name then none else rwlock_initialize_object name

def pevent_initialize_object (name : Text) : Option Text :=
  (PEVENT_NAME.print name).bind cplus_sharedmem_new

def cplus_pevent_new_xp (name : Text) : Option Text :=
  if PEVENT_NAME.Refuses name then none else pevent_initialize_object name

def mutex_initialize_object (name : Text) : Option Text :=
  (MUTEX_NAME.print name).bind cplus_sharedmem_new

def cplus_mutex_new_xp (name : Text) : Option Text :=
  if MUTEX_NAME.Refuses name then none else mutex_initialize_object name

def semaphore_xp_new (name : Text) : Option Text := SEMAPHORE_NAME.print name

def cplus_semaphore_new_xp (name : Text) : Option Text :=
  if SEMAPHORE_NAME.Refuses name then none else semaphore_xp_new name

inductive Kind where
  | rwlock
  | pevent
  | semaphore
  | sharedmem
  | mutex
  deriving DecidableEq, Repr

def Kind.pattern : Kind → Pattern
  | .rwlock => RWLOCK_NAME
  | .pevent => PEVENT_NAME
  | .semaphore => SEMAPHORE_NAME
  | .sharedmem => SHAREDMEM_NAMED
  | .mutex => MUTEX_NAME

def Kind.os_name : Kind → Text → Option Text
  | .rwlock => cplus_rwlock_xp_new
  | .pevent => cplus_pevent_new_xp
  | .semaphore => cplus_semaphore_new_xp
  | .sharedmem => cplus_sharedmem_new
  | .mutex => cplus_mutex_new_xp

-- One name is the other and one more byte that has no room, or they differ in
-- that byte only.
def Clash (room : Nat) (a b : Text) : Prop :=
  a.1.length = room + 1 ∧ a.1.dropLast = b.1 ∨ b.1.length = room + 1 ∧ b.1.dropLast = a.1 ∨
    a.1.length = room + 1 ∧ b.1.length = room + 1 ∧ a.1.dropLast = b.1.dropLast

instance (room : Nat) (a b : Text) : Decidable (Clash room a b) :=
  inferInstanceAs (Decidable (_ ∨ _))

variable {pattern : Pattern} {name a b : Text} {kind : Kind}

theorem read_text_of {bytes : List UInt8} (plain : ∀ c ∈ bytes, c ≠ 0) (rest : List UInt8) :
    read_text (bytes ++ [0] ++ rest) = some ⟨bytes,plain⟩ := by
  have found := c_string_text plain rest
  unfold read_text
  split
  · rename_i nothing
    rw [nothing] at found
    cases found
  · rename_i other there
    obtain rfl : other = bytes := Option.some.inj (there.symm.trans found)
    rfl

-- The buffer keeps the head of the pattern, and of the name what there is room for.
theorem print_spec (fits : pattern.head.1.length < pattern.max_size) (name : Text) :
    ∃ printed : Text, pattern.print name = some printed ∧
      printed.1 = pattern.head.1 ++ name.1.take pattern.room := by
  have cut : (pattern.head.1 ++ name.1).take (pattern.max_size - 1) =
      pattern.head.1 ++ name.1.take pattern.room := by
    rw [List.take_append,List.take_of_length_le (by omega)]
    rfl
  have plain : ∀ c ∈ pattern.head.1 ++ name.1.take pattern.room, c ≠ 0 := by
    intro c member
    rcases List.mem_append.mp member with early | late
    · exact pattern.head.2 c early
    · exact name.2 c (List.mem_of_mem_take late)
  have fits_buffer : 0 + (pattern.head.1 ++ name.1.take pattern.room ++ [0]).length ≤
      (List.replicate (pattern.max_size + 1) (0 : UInt8)).length := by
    simp only [List.length_append,List.length_take,List.length_singleton,List.length_replicate,Pattern.room]
    omega
  have written := splice_some fits_buffer
  refine ⟨⟨_,plain⟩,?_,rfl⟩
  unfold Pattern.print cplus_str_printf
  rw [if_neg (by omega),cut]
  simp only [Option.bind_some,written,Option.map_some,Option.bind_eq_bind]
  rw [List.take_zero,List.nil_append]
  exact read_text_of plain _

-- What a refusal leaves out: the name is as long as the room and one byte more,
-- at most.
theorem accepted_length (fits : pattern.head.1.length < pattern.max_size) (accepted : ¬ pattern.Refuses name) :
    name.1.length ≤ pattern.room + 1 := by
  unfold Pattern.Refuses at accepted
  unfold Pattern.room
  omega

-- A name that is printed into another name: the second buffer has room for it all.
theorem shared_spec (fits : pattern.head.1.length < pattern.max_size)
    (small : pattern.max_size ≤ SHAREDMEM_NAMED.room) (name : Text) : ∃ os : Text,
    (pattern.print name).bind cplus_sharedmem_new = some os ∧
      os.1 = SHAREDMEM_NAMED.head.1 ++ (pattern.head.1 ++ name.1.take pattern.room) := by
  obtain ⟨printed,first,bytes⟩ := print_spec fits name
  have length : printed.1.length ≤ SHAREDMEM_NAMED.room := by
    rw [bytes,List.length_append,List.length_take]
    unfold Pattern.room at small ⊢
    omega
  have accepted : ¬ SHAREDMEM_NAMED.Refuses printed := by
    have room : SHAREDMEM_NAMED.room = 50 := rfl
    show ¬ 63 < printed.1.length + 12
    omega
  have shared_fits : SHAREDMEM_NAMED.head.1.length < SHAREDMEM_NAMED.max_size := by decide
  obtain ⟨os,second,whole⟩ := print_spec shared_fits printed
  refine ⟨os,?_,?_⟩
  · rw [first,Option.bind_some,cplus_sharedmem_new,if_neg accepted]
    exact second
  · rw [whole,List.take_of_length_le length,bytes]

-- What stands in front of the name at last.
def Kind.front : Kind → List UInt8
  | .rwlock => SHAREDMEM_NAMED.head.1 ++ RWLOCK_NAME.head.1
  | .pevent => SHAREDMEM_NAMED.head.1 ++ PEVENT_NAME.head.1
  | .semaphore => SEMAPHORE_NAME.head.1
  | .sharedmem => SHAREDMEM_NAMED.head.1
  | .mutex => SHAREDMEM_NAMED.head.1 ++ MUTEX_NAME.head.1

theorem pattern_fits (kind : Kind) : kind.pattern.head.1.length < kind.pattern.max_size := by
  cases kind <;> decide

theorem os_name_spec (kind : Kind) (name : Text) (accepted : ¬ kind.pattern.Refuses name) : ∃ os : Text,
    kind.os_name name = some os ∧ os.1 = kind.front ++ name.1.take kind.pattern.room := by
  have shared : ∀ pattern : Pattern, pattern.head.1.length < pattern.max_size →
      pattern.max_size ≤ SHAREDMEM_NAMED.room → ∃ os : Text,
      (pattern.print name).bind cplus_sharedmem_new = some os ∧
        os.1 = SHAREDMEM_NAMED.head.1 ++ pattern.head.1 ++ name.1.take pattern.room := by
    intro pattern fits small
    obtain ⟨os,named,bytes⟩ := shared_spec fits small name
    exact ⟨os,named,bytes.trans (List.append_assoc _ _ _).symm⟩
  cases kind with
  | rwlock =>
    obtain ⟨os,named,bytes⟩ := shared RWLOCK_NAME (by decide) (by decide)
    exact ⟨os,(if_neg accepted).trans named,bytes⟩
  | pevent =>
    obtain ⟨os,named,bytes⟩ := shared PEVENT_NAME (by decide) (by decide)
    exact ⟨os,(if_neg accepted).trans named,bytes⟩
  | mutex =>
    obtain ⟨os,named,bytes⟩ := shared MUTEX_NAME (by decide) (by decide)
    exact ⟨os,(if_neg accepted).trans named,bytes⟩
  | semaphore =>
    obtain ⟨os,named,bytes⟩ := print_spec (pattern_fits .semaphore) name
    exact ⟨os,(if_neg accepted).trans named,bytes⟩
  | sharedmem =>
    obtain ⟨os,named,bytes⟩ := print_spec (pattern_fits .sharedmem) name
    exact ⟨os,(if_neg accepted).trans named,bytes⟩

theorem take_last {bytes : List UInt8} {room : Nat} (long : bytes.length = room + 1) :
    bytes.take room = bytes.dropLast := by
  rw [List.dropLast_eq_take,long,Nat.add_sub_cancel]

theorem clash_iff {room : Nat} (apart : a ≠ b) (short_a : a.1.length ≤ room + 1)
    (short_b : b.1.length ≤ room + 1) : a.1.take room = b.1.take room ↔ Clash room a b := by
  have bytes_apart : a.1 ≠ b.1 := fun same => apart (Subtype.ext same)
  unfold Clash
  by_cases long_a : a.1.length = room + 1
  · by_cases long_b : b.1.length = room + 1
    · rw [take_last long_a,take_last long_b]
      refine ⟨fun same => .inr (.inr ⟨long_a,long_b,same⟩),fun clash => ?_⟩
      rcases clash with ⟨_,same⟩ | ⟨_,same⟩ | ⟨_,_,same⟩
      · have := congrArg List.length same
        rw [List.length_dropLast] at this
        omega
      · have := congrArg List.length same
        rw [List.length_dropLast] at this
        omega
      · exact same
    · rw [take_last long_a,List.take_of_length_le (show b.1.length ≤ room by omega)]
      simp [long_a,long_b]
  · by_cases long_b : b.1.length = room + 1
    · rw [take_last long_b,List.take_of_length_le (show a.1.length ≤ room by omega)]
      simp [long_a,long_b,eq_comm]
    · rw [List.take_of_length_le (show a.1.length ≤ room by omega),
        List.take_of_length_le (show b.1.length ≤ room by omega)]
      simp [long_a,long_b,bytes_apart]

-- Two names that a check accepts stand for two objects, but for the longest ones
-- where the byte that is cut off made the difference.
theorem names_exact (kind : Kind) (a b : Text) (accepted_a : ¬ kind.pattern.Refuses a)
    (accepted_b : ¬ kind.pattern.Refuses b) (apart : a ≠ b) : ∃ os_a os_b : Text,
    kind.os_name a = some os_a ∧ kind.os_name b = some os_b ∧
      (os_a ≠ os_b ↔ ¬ Clash kind.pattern.room a b) := by
  obtain ⟨os_a,named_a,bytes_a⟩ := os_name_spec kind a accepted_a
  obtain ⟨os_b,named_b,bytes_b⟩ := os_name_spec kind b accepted_b
  refine ⟨os_a,os_b,named_a,named_b,not_congr ?_⟩
  have cut := clash_iff apart (accepted_length (pattern_fits kind) accepted_a)
    (accepted_length (pattern_fits kind) accepted_b)
  rw [← cut]
  constructor
  · intro same
    have bytes := congrArg Subtype.val same
    rw [bytes_a,bytes_b] at bytes
    exact List.append_cancel_left bytes
  · intro same
    apply Subtype.ext
    rw [bytes_a,bytes_b,same]

section Names

def lock_name (last : Char) : List UInt8 := text (List.replicate 23 'a' ++ [last])

def lock_1 : Text := ⟨lock_name '1',text_plain _ (by decide)⟩
def lock_2 : Text := ⟨lock_name '2',text_plain _ (by decide)⟩
def short_name : Text := ⟨text ['1'],text_plain _ (by decide)⟩

-- Both have 24 bytes, which rwlock's check accepts and its buffer does not hold.
theorem longest_confused : ¬ Kind.rwlock.pattern.Refuses lock_1 ∧ ¬ Kind.rwlock.pattern.Refuses lock_2 ∧
    lock_1 ≠ lock_2 ∧ ∃ os, Kind.rwlock.os_name lock_1 = some os ∧ Kind.rwlock.os_name lock_2 = some os := by
  refine ⟨by decide,by decide,by decide,?_⟩
  obtain ⟨os_1,named_1,bytes_1⟩ := os_name_spec .rwlock lock_1 (by decide)
  obtain ⟨os_2,named_2,bytes_2⟩ := os_name_spec .rwlock lock_2 (by decide)
  have same : os_1 = os_2 := Subtype.ext (bytes_1.trans bytes_2.symm)
  exact ⟨os_1,named_1,same ▸ named_2⟩

theorem short_apart : ∃ os_1 os, Kind.rwlock.os_name lock_1 = some os_1 ∧
    Kind.rwlock.os_name short_name = some os ∧ os_1 ≠ os := by
  obtain ⟨os_1,os,named_1,named,apart⟩ :=
    names_exact .rwlock lock_1 short_name (by decide) (by decide) (by decide)
  exact ⟨os_1,os,named_1,named,apart.mpr (by decide)⟩

end Names

end Libcplus.Names
