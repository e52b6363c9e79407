import Libcplus.Data.Discipline

namespace Libcplus.Data
open Bytes Memory Typedef Program Transition

variable {dt after : Data} {alloc : Outcome} {key block : List UInt8}

theorem set_up_value_keeps (value1 value2 : Pointer) (alloc : Outcome) :
    Data.Keeps false false (set_up_value value1 value2 alloc) :=
  Data.Keeps.ite (fun _ => (set_value_keeps _ _ _).seq fun _ => Data.Keeps.answer _) fun _ => Data.Keeps.answer _

-- An object that is made without a key has none.
theorem new_nameless {type : CPLUS_DATA_TYPE} {value1 value2 : Pointer}
    (made : cplus_data_new type value1 value2 alloc = .ok (some dt)) :
    dt.spinlock = false ∧ dt.key = none ∧ dt.key_len = 0 := by
  have keyed : Data.Keeps false false (set_up_key 0 none none) := Data.Keeps.answer true
  have keeps : Data.Keeps false false (set_up value1 value2 0 none alloc none) :=
    (set_up_value_keeps _ _ _).seq fun valued => Data.Keeps.ite (fun _ => keyed) fun _ => Data.Keeps.answer _
  unfold cplus_data_new data_initialize_object at made
  split at made
  · cases made
  · rename_i ran
    have blank_ : At false (none,0) (blank type) := ⟨rfl,rfl⟩
    obtain ⟨free,same⟩ := (keeps (none,0)).answer blank_ ran
    split at made
    · cases made
      exact ⟨free,Prod.mk.inj same⟩
    · cases made

-- What a copy of a key to the front of a buffer leaves there.
theorem copied_key {size : Nat} (plain : 0 ∉ key) (room : key.length + 1 ≤ size) (fits : size ≤ block.length)
    (small : size ≤ RSIZE_MAX_MEM) : ∃ written,
      cplus_mem_cpy_ex (some block) 0 size (some (key ++ [0])) 0 (key.length + 1) = some (true,some written) ∧
      c_string written = some key ∧ written.length = block.length := by
  have length : (key ++ [0]).length = key.length + 1 := by simp
  obtain ⟨written,spliced,copied⟩ : ∃ written,
      splice block 0 (((key ++ [0]).drop 0).take (key.length + 1)) = some written ∧
        cplus_mem_cpy_ex (some block) 0 size (some (key ++ [0])) 0 (key.length + 1) = some (true,some written) :=
    mem_cpy_ex_copies (by omega) (by omega) (Nat.succ_pos _) room small
  have whole : ((key ++ [0]).drop 0).take (key.length + 1) = key ++ [0] := List.take_of_length_le (Nat.le_of_eq length)
  rw [whole] at spliced
  obtain ⟨_,rfl⟩ := splice_parts spliced
  refine ⟨_,copied,?_,splice_length spliced⟩
  exact c_string_text (fun c member zero => plain (zero ▸ member)) _

section Calls
variable {need : Nat} {result : Bool × Pointer} (free : dt.spinlock = false) (named : key ≠ [])
  (count : (key.length + 1) % 2^32 = need)

include named in
theorem key_given : ¬ ((some (key ++ [0]) : Pointer) = none ∨ key.length = 0) := fun missing =>
  missing.elim (Option.some_ne_none _) fun empty => named (List.length_eq_zero_iff.mp empty)

variable (alloc)
include free named count

-- The three ways of cplus_data_set_key with strlen(key): over the key that is there,
-- into a new buffer, and without one.
theorem set_key_over (room : need ≤ dt.key_len)
    (copied : cplus_mem_cpy_ex dt.key 0 dt.key_len (some (key ++ [0])) 0 need = some result) :
    cplus_data_set_key key.length (some (key ++ [0])) alloc dt = .ok (CPLUS_SUCCESS,{dt with key := result.2}) := by
  obtain ⟨is_valid,mode,key_len,name,lock,code,size,value⟩ := dt
  cases free
  rw [cplus_data_set_key,if_neg (key_given named),count]
  simp only [DATA_SPIN_LOCK,DATA_SPIN_UNLOCK,run_bind,run_get,ok_bind,Bool.false_eq_true,if_false,run_set,if_pos room,
    access,copied,run_pure,run_modify]

theorem set_key_grows (room : ¬ need ≤ dt.key_len) (given : allocate alloc dt.key need = some block)
    (copied : cplus_mem_cpy_ex (some block) 0 need (some (key ++ [0])) 0 need = some result) :
    cplus_data_set_key key.length (some (key ++ [0])) alloc dt =
      .ok (CPLUS_SUCCESS,{dt with key_len := need,key := result.2}) := by
  obtain ⟨is_valid,mode,key_len,name,lock,code,size,value⟩ := dt
  cases free
  rw [cplus_data_set_key,if_neg (key_given named),count]
  simp only [DATA_SPIN_LOCK,DATA_SPIN_UNLOCK,run_bind,run_get,ok_bind,Bool.false_eq_true,if_false,run_set,if_neg room,
    given,access,copied,run_pure,run_modify]

theorem set_key_refused (room : ¬ need ≤ dt.key_len) (missing : allocate alloc dt.key need = none) :
    cplus_data_set_key key.length (some (key ++ [0])) alloc dt =
      .ok (CPLUS_FAIL,{dt with key_len := need,key := none}) := by
  obtain ⟨is_valid,mode,key_len,name,lock,code,size,value⟩ := dt
  cases free
  rw [cplus_data_set_key,if_neg (key_given named),count]
  simp only [DATA_SPIN_LOCK,DATA_SPIN_UNLOCK,run_bind,run_get,ok_bind,Bool.false_eq_true,if_false,run_set,if_neg room,
    missing,run_pure,run_modify]

end Calls

-- An object, and the key that the last call said it had stored.
structure Named where
  dt : Data
  told : Option (List UInt8)

-- A key, and the allocator's answer should it be asked.
structure Naming where
  key : List UInt8
  alloc : Outcome

def Naming.Proper (naming : Naming) : Prop := naming.key ≠ [] ∧ (∀ c ∈ naming.key, c ≠ 0) ∧ naming.key.length < 2^32

def Naming.Step (s : Named) (naming : Naming) (t : Named) : Prop :=
  naming.Proper ∧ ∃ res, cplus_data_set_key naming.key.length (some (naming.key ++ [0])) naming.alloc s.dt = .ok (res,t.dt) ∧
    t.told = if res = CPLUS_SUCCESS then some naming.key else none

-- What cplus_data_get_key gives is the key that was stored, and the buffer is as long
-- as it is said to be.
def Honest (s : Named) : Prop :=
  (∀ key, s.told = some key → ∃ block, cplus_data_get_key s.dt = .ok (some block,s.dt) ∧ c_string block = some key ∧
    s.dt.key_len ≤ block.length) ∧
  s.dt.key_len ≤ (s.dt.key.getD []).length

-- A call that stores its key: it gets the buffer that it asks for, and cplus_mem_cpy_ex
-- takes the copy unless the key is in the buffer already.
def Naming.Stores (dt : Data) (naming : Naming) : Prop :=
  if naming.key.length + 1 ≤ dt.key_len then dt.key_len ≤ RSIZE_MAX_MEM ∨ dt.key.bind c_string = some naming.key
  else naming.key.length + 1 < 2^32 ∧ ∃ block, allocate naming.alloc dt.key (naming.key.length + 1) = some block ∧
    (naming.key.length + 1 ≤ RSIZE_MAX_MEM ∨ c_string block = some naming.key)

structure Tidy (s : Named) : Prop where
  free : s.dt.spinlock = false
  small : s.dt.key_len < 2^32
  whole : (s.dt.key.getD []).length = s.dt.key_len
  told : ∀ key, s.told = some key → s.dt.key.bind c_string = some key

theorem Tidy.honest {s : Named} (tidy : Tidy s) : Honest s := by
  obtain ⟨_,_,whole,told⟩ := tidy
  refine ⟨fun key same => ?_,Nat.le_of_eq whole.symm⟩
  obtain ⟨block,held,read⟩ := Option.bind_eq_some_iff.mp (told key same)
  rw [held] at whole
  have got : cplus_data_get_key s.dt = .ok (s.dt.key,s.dt) := rfl
  rw [held] at got
  exact ⟨block,got,read,Nat.le_of_eq whole.symm⟩

-- What follows from an answer, which a key in a buffer decides or not.
theorem step_tells {s t : Named} {naming : Naming} {buffer : List UInt8} {key_len : Nat} (tidy : Tidy s)
    (small : key_len < 2^32) (length : buffer.length = key_len)
    (ran : cplus_data_set_key naming.key.length (some (naming.key ++ [0])) naming.alloc s.dt =
      .ok (CPLUS_SUCCESS,{s.dt with key_len := key_len,key := some buffer}))
    (taken : naming.Step s t) :
    (c_string buffer = some naming.key → Tidy t) ∧ (Honest t → c_string buffer = some naming.key) := by
  obtain ⟨_,res,again,told⟩ := taken
  obtain ⟨rfl,after⟩ := Prod.mk.inj (Except.ok.inj (ran.symm.trans again))
  rw [if_pos rfl] at told
  have held : t.dt.key = some buffer := by rw [← after]
  constructor
  · intro read
    refine ⟨by rw [← after]; exact tidy.free,by rw [← after]; exact small,by rw [← after]; exact length,?_⟩
    intro key same
    rw [told] at same
    rw [held,← Option.some.inj same]
    exact read
  · intro honest
    obtain ⟨block,got,read,_⟩ := honest.1 naming.key told
    have found : cplus_data_get_key t.dt = .ok (t.dt.key,t.dt) := rfl
    rw [held] at found
    cases found.symm.trans got
    exact read

theorem naming_step {s t : Named} {naming : Naming} (tidy : Tidy s) (taken : naming.Step s t) :
    (naming.Stores s.dt → Tidy t) ∧ (¬ naming.Stores s.dt → ¬ Honest t) := by
  obtain ⟨named,plain,counts⟩ := taken.1
  have nonzero : 0 ∉ naming.key := fun member => plain 0 member rfl
  have source : (naming.key ++ [0]).length = naming.key.length + 1 := by simp
  by_cases room : naming.key.length + 1 ≤ s.dt.key_len
  · have count : (naming.key.length + 1) % 2^32 = naming.key.length + 1 := Nat.mod_eq_of_lt (Nat.lt_of_le_of_lt room tidy.small)
    obtain ⟨block,held⟩ : ∃ block, s.dt.key = some block := by
      cases held : s.dt.key with
      | some block => exact ⟨block,rfl⟩
      | none =>
        have whole := tidy.whole
        rw [held] at whole
        exact absurd whole (by simp; omega)
    have length : block.length = s.dt.key_len := by
      have whole := tidy.whole
      rwa [held] at whole
    rw [Naming.Stores,if_pos room,held,Option.bind_some]
    by_cases small : s.dt.key_len ≤ RSIZE_MAX_MEM
    · obtain ⟨written,copied,read,size⟩ := copied_key nonzero room (Nat.le_of_eq length.symm) small
      rw [← held] at copied
      have ran := set_key_over naming.alloc tidy.free named count room copied
      have tells := step_tells tidy tidy.small (size.trans length) ran taken
      exact ⟨fun _ => tells.1 read,fun misses => absurd (.inl small) misses⟩
    · have copied : cplus_mem_cpy_ex (some block) 0 s.dt.key_len (some (naming.key ++ [0])) 0 (naming.key.length + 1) =
          some (false,some block) := mem_cpy_ex_refuses (.inr (by omega))
      rw [← held] at copied
      have ran := set_key_over naming.alloc tidy.free named count room copied
      rw [held] at ran
      have tells := step_tells tidy tidy.small length ran taken
      exact ⟨fun stores => tells.1 (stores.resolve_left small),fun misses honest => misses (.inr (tells.2 honest))⟩
  · rw [Naming.Stores,if_neg room]
    by_cases wraps : naming.key.length + 1 = 2^32
    · -- The length of the key and its NUL comes to zero, and nothing is copied.
      have count : (naming.key.length + 1) % 2^32 = 0 := by rw [wraps,Nat.mod_self]
      have copied : cplus_mem_cpy_ex s.dt.key 0 s.dt.key_len (some (naming.key ++ [0])) 0 0 = some (false,s.dt.key) := by
        cases s.dt.key with
        | none => rfl
        | some block => exact mem_cpy_ex_refuses (.inr (by omega))
      have ran := set_key_over naming.alloc tidy.free named count (Nat.zero_le _) copied
      refine ⟨fun stores => absurd stores.1 (by omega),fun _ honest => ?_⟩
      obtain ⟨_,res,again,told⟩ := taken
      obtain ⟨rfl,after⟩ := Prod.mk.inj (Except.ok.inj (ran.symm.trans again))
      obtain ⟨block,got,read,_⟩ := honest.1 naming.key (told.trans (if_pos rfl))
      have found : cplus_data_get_key t.dt = .ok (t.dt.key,t.dt) := rfl
      have held : s.dt.key = some block := by
        have same := (Prod.mk.inj (Except.ok.inj (found.symm.trans got))).1
        rwa [← after] at same
      have whole := tidy.whole
      have small := tidy.small
      have shorter := (c_string_parts read).2
      rw [held,Option.getD_some] at whole
      omega
    · have small : naming.key.length + 1 < 2^32 := by omega
      have count : (naming.key.length + 1) % 2^32 = naming.key.length + 1 := Nat.mod_eq_of_lt small
      cases given : allocate naming.alloc s.dt.key (naming.key.length + 1) with
      | none =>
        have ran := set_key_refused naming.alloc tidy.free named count room given
        refine ⟨fun stores => ?_,fun _ honest => ?_⟩
        · obtain ⟨_,block,same,_⟩ := stores
          cases same
        · obtain ⟨_,res,again,_⟩ := taken
          obtain ⟨_,after⟩ := Prod.mk.inj (Except.ok.inj (ran.symm.trans again))
          have sizes := honest.2
          rw [← after] at sizes
          exact absurd sizes (by simp)
      | some block =>
        have length := allocate_length given
        by_cases limit : naming.key.length + 1 ≤ RSIZE_MAX_MEM
        · obtain ⟨written,copied,read,size⟩ := copied_key nonzero (Nat.le_refl _) (Nat.le_of_eq length.symm) limit
          have ran := set_key_grows naming.alloc tidy.free named count room given copied
          have tells := step_tells tidy small (size.trans length) ran taken
          exact ⟨fun _ => tells.1 read,fun misses => absurd ⟨small,block,rfl,.inl limit⟩ misses⟩
        · have copied : cplus_mem_cpy_ex (some block) 0 (naming.key.length + 1) (some (naming.key ++ [0])) 0
              (naming.key.length + 1) = some (false,some block) := mem_cpy_ex_refuses (.inr (by omega))
          have ran := set_key_grows naming.alloc tidy.free named count room given copied
          have tells := step_tells tidy small length ran taken
          refine ⟨fun stores => ?_,fun misses honest => misses ⟨small,block,rfl,.inr (tells.2 honest)⟩⟩
          obtain ⟨_,_,⟨⟩,which⟩ := stores
          exact tells.1 (which.resolve_left limit)

-- A run of such calls on a new object is honest in every state exactly when each of
-- them stores its key.
theorem key_storage_exact {type : CPLUS_DATA_TYPE} {value1 value2 : Pointer} {alloc : Outcome} {made : Data} {s : Named}
    {moves : List (Move Named Naming)} (created : cplus_data_new type value1 value2 alloc = .ok (some made))
    (run : Run Naming.Step ⟨made,none⟩ moves s) :
    Throughout Honest moves ↔ Meets (fun s naming => naming.Stores s.dt) moves := by
  obtain ⟨free,no_key,no_len⟩ := new_nameless created
  have start : Tidy ⟨made,none⟩ := by
    refine ⟨free,?_,?_,nofun⟩
    · change made.key_len < 2^32
      rw [no_len]
      decide
    · change (made.key.getD []).length = made.key_len
      rw [no_key,no_len]
      rfl
  refine run.exact (J := Tidy) start ?_ Tidy.honest ?_
  · exact fun tidy taken stores => (naming_step tidy taken).1 stores
  · exact fun tidy taken misses => (naming_step tidy taken).2 misses

-- Two keys, and the second needs a longer buffer.
theorem names_stored : ∃ made s moves, cplus_data_new .BOOL none none none = .ok (some made) ∧
    Run Naming.Step ⟨made,none⟩ moves s ∧
    moves.map Move.action = [⟨[97],some fun _ => 0⟩,⟨[98,99],some fun _ => 0⟩] ∧
    Meets (fun s naming => naming.Stores s.dt) moves ∧ Throughout Honest moves := by
  have created : cplus_data_new .BOOL none none none = .ok (some (blank .BOOL)) := rfl
  have short : Naming.Proper ⟨[97],some fun _ => 0⟩ := ⟨by decide,plain_of_all rfl,by decide⟩
  have long : Naming.Proper ⟨[98,99],some fun _ => 0⟩ := ⟨by decide,plain_of_all rfl,by decide⟩
  obtain ⟨one,named,first⟩ : ∃ one : Named, one = ⟨{blank .BOOL with key_len := 2,key := some [97,0]},some [97]⟩ ∧
      Naming.Step ⟨blank .BOOL,none⟩ ⟨[97],some fun _ => 0⟩ one := ⟨_,rfl,short,CPLUS_SUCCESS,rfl,rfl⟩
  obtain ⟨two,second⟩ : ∃ two, Naming.Step one ⟨[98,99],some fun _ => 0⟩ two := by
    rw [named]
    exact ⟨⟨{blank .BOOL with key_len := 3,key := some [98,99,0]},some [98,99]⟩,long,CPLUS_SUCCESS,rfl,rfl⟩
  have run := (Run.nil.snoc first).snoc second
  have none_before : Naming.Stores (blank .BOOL) ⟨[97],some fun _ => 0⟩ := ⟨by decide,[0,0],rfl,.inl (by decide)⟩
  have grown : Naming.Stores one.dt ⟨[98,99],some fun _ => 0⟩ := by
    rw [named]
    exact ⟨by decide,[97,0,0],rfl,.inl (by decide)⟩
  have stores : Meets (fun (s : Named) (naming : Naming) => naming.Stores s.dt)
      ([] ++ [⟨⟨blank .BOOL,none⟩,⟨[97],some fun _ => 0⟩,one⟩] ++ [⟨one,⟨[98,99],some fun _ => 0⟩,two⟩]) :=
    meets_snoc.mpr ⟨meets_snoc.mpr ⟨meets_nil,none_before⟩,grown⟩
  exact ⟨_,_,_,created,run,rfl,stores,(key_storage_exact created run).mpr stores⟩

-- A key for which there is no memory, and then one that would fit in its place.
theorem name_lost : ∃ made s moves, cplus_data_new .BOOL none none none = .ok (some made) ∧
    Run Naming.Step ⟨made,none⟩ moves s ∧ moves.map Move.action = [⟨[97,98],none⟩,⟨[99],none⟩] ∧
    s.told = some [99] ∧ cplus_data_get_key s.dt = .ok (none,s.dt) ∧ ¬ Throughout Honest moves := by
  have created : cplus_data_new .BOOL none none none = .ok (some (blank .BOOL)) := rfl
  have long : Naming.Proper ⟨[97,98],none⟩ := ⟨by decide,plain_of_all rfl,by decide⟩
  have short : Naming.Proper ⟨[99],none⟩ := ⟨by decide,plain_of_all rfl,by decide⟩
  have first : Naming.Step ⟨blank .BOOL,none⟩ ⟨[97,98],none⟩ ⟨{blank .BOOL with key_len := 3},none⟩ := ⟨long,CPLUS_FAIL,rfl,rfl⟩
  have second : Naming.Step ⟨{blank .BOOL with key_len := 3},none⟩ ⟨[99],none⟩
      ⟨{blank .BOOL with key_len := 3},some [99]⟩ := ⟨short,CPLUS_SUCCESS,rfl,rfl⟩
  refine ⟨_,_,_,created,(Run.nil.snoc first).snoc second,rfl,rfl,rfl,fun honest => ?_⟩
  obtain ⟨block,got,_⟩ := (throughout_snoc.mp honest).2.1 [99] rfl
  cases got

end Libcplus.Data
