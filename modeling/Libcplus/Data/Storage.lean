import Libcplus.Data.Reached

namespace Libcplus.Data
open Bytes Memory Typedef Program Transition

variable {host : Host} {dt after : Data} {alloc : Outcome} {bufs written : Pointer} {len size need : Nat}
  {block : List UInt8}

section Strings
variable {text stored rest source : List UInt8} {value2 : Pointer} {n : Nat} {done : Bool} {value : Value}

-- A store that takes the lock, counts the bytes it is to hold, and makes room.
theorem set_value_text (free : dt.spinlock = false) (held : dt.value = .str len bufs) (counts : n < 2^32)
    (ran : set_text alloc len bufs ((n + 1) % 2^32) (fill_string value2) {dt with spinlock := true} =
      .ok (done,{dt with spinlock := true,value := value})) :
    cplus_data_set_value (some (littleEndian32 n)) value2 alloc dt = settle done {dt with value := value} := by
  have inside : (do
      let count ← uint32 (littleEndian32 n)
      set_text alloc len bufs ((count + 1) % 2^32) (fill_string value2) : Routine Bool) {dt with spinlock := true} =
        .ok (done,{dt with spinlock := true,value := value}) := (bind_ok (uint32_spec counts _)).trans ran
  have locked := spin_ok free inside
  obtain ⟨_,_,_,_,_,_,_,_⟩ := dt
  cases held
  cases free
  exact bind_ok locked

theorem fill_string_text (read : c_string source = some text) (positive : 0 < block.length) (dt : Data) :
    ∃ written, fill_string (some source) block.length block dt = .ok (some written,dt) ∧
      written.length = block.length ∧ c_string written = some (text.take (block.length - 1)) := by
  obtain ⟨written,printed,length,back⟩ :=
    str_printf_truncates (c_string_parts read).1 positive (Nat.le_refl block.length)
  refine ⟨written,?_,length,back⟩
  refine access_ok read (access_ok printed ?_)
  rfl

-- The buffer has room for the text when it is new, or grows.
def Capacity (len : Nat) (bufs : Pointer) (need : Nat) : Nat := if bufs = none then need else max need len

theorem room_capacity (alloc : Outcome) (len : Nat) (bufs : Pointer) (need : Nat) :
    (room alloc len bufs need).1 = Capacity len bufs need := by
  unfold Capacity
  rcases room_parts alloc len bufs need with ⟨why,new⟩ | ⟨old,rfl,within,kept⟩
  · rw [new]
    rcases why with none_ | grows
    · exact (if_pos none_).symm
    · split
      · rfl
      · exact (Nat.max_eq_left (Nat.le_of_lt grows)).symm
  · rw [kept,if_neg (Option.some_ne_none old)]
    exact (Nat.max_eq_right within).symm

theorem room_granted (garbage : Nat → UInt8) (len : Nat) (bufs : Pointer) (need : Nat) : ∃ block,
    room (some garbage) len bufs need = (Capacity len bufs need,some block) ∧
      (block.length = Capacity len bufs need ∨ bufs = some block ∧ Capacity len bufs need = len) := by
  rw [← room_capacity (some garbage)]
  rcases room_parts (some garbage) len bufs need with ⟨_,new⟩ | ⟨old,rfl,_,kept⟩
  · obtain ⟨block,obtained⟩ := allocate_granted garbage bufs need
    rw [obtained] at new
    rw [new]
    exact ⟨block,rfl,.inl (allocate_length obtained)⟩
  · rw [kept]
    exact ⟨old,rfl,.inr ⟨rfl,rfl⟩⟩

theorem set_value_string (free : dt.spinlock = false) (held : dt.value = .str len bufs)
    (sized : Sized size (.str len bufs)) (small : n < 2^32 - 1) (plain : ∀ c ∈ text, c ≠ 0) (rest : List UInt8)
    (garbage : Nat → UInt8) : ∃ written after,
      cplus_data_set_value (some (littleEndian32 n)) (some (text ++ [0] ++ rest)) (some garbage) dt =
        .ok (CPLUS_SUCCESS,after) ∧ after.spinlock = false ∧
      after.value = .str (Capacity len bufs (n + 1)) (some written) ∧ written.length = Capacity len bufs (n + 1) ∧
      c_string written = some (text.take (Capacity len bufs (n + 1) - 1)) := by
  have exact_ : (n + 1) % 2^32 = n + 1 := Nat.mod_eq_of_lt (by omega)
  obtain ⟨block,made,which⟩ := room_granted garbage len bufs (n + 1)
  have length : block.length = Capacity len bufs (n + 1) :=
    which.elim id fun kept => (sized.2 block kept.1).trans kept.2.symm
  have positive : 0 < block.length := by
    rw [length,Capacity]
    split <;> omega
  obtain ⟨written,filled,same,read⟩ := fill_string_text (c_string_text plain rest) positive {dt with spinlock := true}
  rw [length] at filled same read
  refine ⟨written,{dt with value := .str (Capacity len bufs (n + 1)) (some written),is_valid := true},?_,free,rfl,same,read⟩
  have counts : n < 2^32 := by omega
  have ran : set_text (some garbage) len bufs ((n + 1) % 2^32) (fill_string (some (text ++ [0] ++ rest)))
      {dt with spinlock := true} =
        .ok (true,{dt with spinlock := true,value := .str (Capacity len bufs (n + 1)) (some written)}) := by
    rw [exact_,set_text,made]
    exact bind_ok filled
  exact set_value_text free held counts ran

end Strings

section Arrays
variable {value2 : Pointer} {n : Nat} {done : Bool} {value : Value} {source : List UInt8} {made : Data}

theorem set_value_bytes (free : dt.spinlock = false) (held : dt.value = .byte_array len bufs) (counts : n < 2^32)
    (ran : set_array alloc len bufs n value2 {dt with spinlock := true} =
      .ok (done,{dt with spinlock := true,bufs_size := size,value := value})) :
    cplus_data_set_value (some (littleEndian32 n)) value2 alloc dt =
      settle done {dt with bufs_size := size,value := value} := by
  have inside : (do
      let count ← uint32 (littleEndian32 n)
      set_array alloc len bufs count value2 : Routine Bool) {dt with spinlock := true} =
        .ok (done,{dt with spinlock := true,bufs_size := size,value := value}) := (bind_ok (uint32_spec counts _)).trans ran
  have locked := spin_ok free inside
  obtain ⟨_,_,_,_,_,_,_,_⟩ := dt
  cases held
  cases free
  exact bind_ok locked

theorem capacity_enough (len : Nat) (bufs : Pointer) (need : Nat) : need ≤ Capacity len bufs need := by
  rw [Capacity]
  split
  · exact Nat.le_refl _
  · exact Nat.le_max_left _ _

theorem set_value_array (free : dt.spinlock = false) (held : dt.value = .byte_array len bufs)
    (sized : Sized size (.byte_array len bufs)) (counts : source.length < 2^32) (rest : List UInt8)
    (garbage : Nat → UInt8) : ∃ block after,
      room (some garbage) len bufs source.length = (Capacity len bufs source.length,some block) ∧
      Capacity len bufs source.length ≤ block.length ∧
      cplus_data_set_value (some (littleEndian32 source.length)) (some (source ++ rest)) (some garbage) dt =
        .ok (CPLUS_SUCCESS,after) ∧ after.spinlock = false ∧ after.bufs_size = Capacity len bufs source.length ∧
      after.value = .byte_array source.length (some (copied_over (Capacity len bufs source.length) source block)) := by
  obtain ⟨block,made,which⟩ := room_granted garbage len bufs source.length
  have within : Capacity len bufs source.length ≤ block.length := by
    rcases which with new | ⟨kept,same⟩
    · exact Nat.le_of_eq new.symm
    · rw [same]
      exact Nat.le_trans sized.1 (sized.2 block kept)
  have filled := fill_array_writes (capacity_enough len bufs source.length) within rest {dt with spinlock := true}
  have ran : set_array (some garbage) len bufs source.length (some (source ++ rest)) {dt with spinlock := true} =
      .ok (true,{dt with spinlock := true,bufs_size := Capacity len bufs source.length,value := (.byte_array
        source.length (some (copied_over (Capacity len bufs source.length) source block)))}) := by
    rw [set_array,made]
    exact bind_ok filled
  refine ⟨block,_,made,within,set_value_bytes free held counts ran,free,rfl,rfl⟩

theorem get_value_array {out : List UInt8} (free : dt.spinlock = false) (held : dt.value = .byte_array n (some block))
    (positive : 0 < n) (within : n ≤ block.length) (enough : n ≤ size) (limit : size ≤ RSIZE_MAX_MEM)
    (fits : size ≤ out.length) :
    ∃ written, cplus_data_get_value (some (littleEndian32 size)) (some out) dt =
      .ok ((n,some (littleEndian32 size),some written),dt) ∧ written.take n = block.take n := by
  obtain ⟨written,spliced,copied⟩ : ∃ written, splice out 0 ((block.drop 0).take n) = some written ∧
      cplus_mem_cpy_ex (some out) 0 size (some block) 0 n = some (true,some written) :=
    mem_cpy_ex_copies (by omega) (by omega) positive enough limit
  have length : ((block.drop 0).take n).length = n := by
    rw [List.drop_zero,List.length_take]
    omega
  have front := splice_take spliced
  rw [length,Nat.zero_add,List.take_zero,List.nil_append,List.drop_zero] at front
  have counts : size < 2^32 := Nat.lt_of_le_of_lt limit (by decide)
  refine ⟨written,?_,front⟩
  obtain ⟨_,_,_,_,_,_,_,_⟩ := dt
  cases held
  cases free
  have read : slice (littleEndian32 size) 0 4 = some (littleEndian32 size) := rfl
  simp [cplus_data_get_value,DATA_SPIN_LOCK,DATA_SPIN_UNLOCK,uint32,access,read,littleEndian32_read counts,copied,
    Nat.not_lt.mpr enough,run_bind,run_get,run_pure,run_set,run_modify,ok_bind,-bind_pure_comp]

-- The last array that was stored, in a buffer no shorter than dt->bufs_size.
def Keeping (dt : Data) (source : List UInt8) : Prop :=
  ∃ block, dt.value = .byte_array source.length (some block) ∧ source.length ≤ dt.bufs_size ∧
    dt.bufs_size ≤ block.length ∧ ∀ size out, source.length ≤ size → size ≤ RSIZE_MAX_MEM → size ≤ out.length →
      ∃ written, cplus_data_get_value (some (littleEndian32 size)) (some out) dt =
        .ok ((source.length,some (littleEndian32 size),some written),dt) ∧ written.take source.length = source

-- Bytes that are given to cplus_data_set_value, with what follows them in the
-- caller's memory and what the allocator may hand out.
structure Storing where
  source : List UInt8
  rest : List UInt8
  garbage : Nat → UInt8

def Storing.run (storing : Storing) : Routine Int :=
  cplus_data_set_value (some (littleEndian32 storing.source.length)) (some (storing.source ++ storing.rest))
    (some storing.garbage)

def Storing.Accepted (storing : Storing) : Prop := 1 ≤ storing.source.length ∧ storing.source.length ≤ RSIZE_MAX_MEM

def Storing.Step (dt : Data) (storing : Storing) (after : Data) : Prop :=
  storing.Accepted ∧ ∃ res, storing.run dt = .ok (res,after)

-- The bytes are refused where more than RSIZE_MAX_MEM bytes of the buffer are in use,
-- and the call succeeds all the same.
def Storing.Fits (dt : Data) (storing : Storing) : Prop := ∀ len old, dt.value = .byte_array len (some old) →
  len ≤ RSIZE_MAX_MEM ∨ old.take storing.source.length = storing.source

-- What every store leaves an array ready for.
structure Ready (dt : Data) : Prop where
  free : dt.spinlock = false
  array : dt.data_type = .BYTE_ARRAY
  holds : Holds dt

theorem keeping_iff (free : dt.spinlock = false) (held : dt.value = .byte_array source.length (some block))
    (positive : 0 < source.length) (limit : source.length ≤ RSIZE_MAX_MEM) (counted : source.length ≤ dt.bufs_size)
    (within : dt.bufs_size ≤ block.length) : Keeping dt source ↔ block.take source.length = source := by
  have inside : source.length ≤ block.length := Nat.le_trans counted within
  constructor
  · rintro ⟨_,_,_,_,reads⟩
    have out := List.length_replicate (n := source.length) (a := (0 : UInt8))
    obtain ⟨written,got,front⟩ := reads _ _ (Nat.le_refl _) limit (Nat.le_of_eq out.symm)
    obtain ⟨again,read,same⟩ := get_value_array free held positive inside (Nat.le_refl _) limit (Nat.le_of_eq out.symm)
    cases got.symm.trans read
    exact same.symm.trans front
  · intro front
    refine ⟨block,held,counted,within,fun size out enough limit fits => ?_⟩
    obtain ⟨written,got,same⟩ := get_value_array free held positive inside enough limit fits
    exact ⟨written,got,same.trans front⟩

theorem copied_iff (limit : source.length ≤ RSIZE_MAX_MEM)
    (made : room alloc len bufs source.length = (size,some block)) :
    (copied_over size source block).take source.length = source ↔
      ∀ old, bufs = some old → len ≤ RSIZE_MAX_MEM ∨ old.take source.length = source := by
  rcases room_parts alloc len bufs source.length with ⟨why,new⟩ | ⟨old,rfl,_,kept⟩
  · obtain ⟨rfl,_⟩ := Prod.mk.inj (new.symm.trans made)
    refine iff_of_true (copied_over_take limit) fun old there => .inl ?_
    rcases why with none_ | grows
    · cases none_.symm.trans there
    · exact Nat.le_trans (Nat.le_of_lt grows) limit
  · obtain ⟨rfl,same⟩ := Prod.mk.inj (kept.symm.trans made)
    cases same
    by_cases small : len ≤ RSIZE_MAX_MEM
    · exact iff_of_true (copied_over_take small) fun _ _ => .inl small
    · rw [copied_over,if_neg small]
      constructor
      · rintro front _ ⟨⟩
        exact .inr front
      · exact fun front => (front block rfl).resolve_left small

theorem storing_spec {storing : Storing} (ready : Ready dt) (accepted : storing.Accepted) : ∃ after,
    storing.run dt = .ok (CPLUS_SUCCESS,after) ∧ Ready after ∧ Copies after.value ∧
      (Keeping after storing.source ↔ storing.Fits dt) := by
  obtain ⟨free,array,holds⟩ := ready
  obtain ⟨positive,limit⟩ := accepted
  obtain ⟨len,bufs,held⟩ : ∃ len bufs, dt.value = .byte_array len bufs := by
    unfold data_type at array
    cases held : dt.value with
    | byte_array len bufs => exact ⟨len,bufs,rfl⟩
    | _ => rw [held] at array; cases array
  have sized : Sized dt.bufs_size (.byte_array len bufs) := held ▸ holds
  have counts : storing.source.length < 2^32 := Nat.lt_of_le_of_lt limit (by decide)
  obtain ⟨block,after,made,within,ran,freed,capacity,stored⟩ :=
    set_value_array free held sized counts storing.rest storing.garbage
  have enough := capacity_enough len bufs storing.source.length
  have length : (copied_over (Capacity len bufs storing.source.length) storing.source block).length = block.length :=
    copied_over_length (Nat.le_trans enough within)
  rw [← capacity] at enough within length made stored
  rw [← length] at within
  refine ⟨after,ran,⟨freed,?_,?_⟩,?_,?_⟩
  · rw [data_type,stored]
    rfl
  · change Sized _ _
    rw [stored]
    exact ⟨enough,by rintro _ ⟨⟩; exact within⟩
  · rw [stored]
    exact limit
  · rw [keeping_iff freed stored positive limit enough within,copied_iff limit made]
    unfold Storing.Fits
    rw [held]
    constructor
    · rintro fits _ old ⟨⟩
      exact fits old rfl
    · rintro fits old rfl
      exact fits len old rfl

theorem Storing.fits_of_copies {storing : Storing} (copies : Copies dt.value) : storing.Fits dt := by
  intro len old held
  rw [held] at copies
  exact .inl copies

-- What the call before answered, and what the object keeps of it.
def Kept (m : Move Data Storing) : Prop :=
  m.action.run m.before = .ok (CPLUS_SUCCESS,m.after) ∧ Keeping m.after m.action.source

theorem stores_ready {moves : List (Move Data Storing)} (run : Run Storing.Step made moves dt) (ready : Ready made) :
    Ready dt ∧ (moves ≠ [] → Copies dt.value) ∧ ((∀ m ∈ moves, Kept m) ↔ ∀ first ∈ moves.head?, first.action.Fits made) := by
  induction run with
  | nil => exact ⟨ready,fun some_move => (some_move rfl).elim,by simp⟩
  | @snoc moves dt storing after prior stored ih =>
    obtain ⟨accepted,res,ran⟩ := stored
    obtain ⟨ready,copied,earlier⟩ := ih
    obtain ⟨_,again,next,copies,keeps⟩ := storing_spec ready accepted
    cases ran.symm.trans again
    have last : Kept ⟨dt,storing,after⟩ ↔ storing.Fits dt :=
      ⟨fun kept => keeps.mp kept.2,fun fits => ⟨again,keeps.mpr fits⟩⟩
    refine ⟨next,fun _ => copies,?_⟩
    cases moves with
    | nil =>
      obtain rfl : made = dt := by
        generalize same : [] = moves at prior
        cases prior with
        | nil => rfl
        | snoc _ _ => exact (List.append_ne_nil_of_right_ne_nil _ (List.cons_ne_nil _ _) same.symm).elim
      simpa using last
    | cons first rest =>
      have fits : Kept ⟨dt,storing,after⟩ := last.mpr (Storing.fits_of_copies (copied (List.cons_ne_nil _ _)))
      rw [List.forall_mem_append,earlier,List.forall_mem_singleton,and_iff_left fits]
      rfl

-- A run of stores in a byte array, from any state that set operations reach. Every
-- store succeeds, and at most the first is lost: an array longer than RSIZE_MAX_MEM
-- is one that cplus_mem_cpy_ex does not copy to.
theorem array_storage_exact (host : Host) {moves : List (Move Data Storing)} (reached : Reached host made)
    (array : made.data_type = .BYTE_ARRAY) (run : Run Storing.Step made moves dt) :
    ((∀ m ∈ moves, m.action.run m.before = .ok (CPLUS_SUCCESS,m.after) ∧ Keeping m.after m.action.source) ↔
      ∀ first ∈ moves.head?, first.action.Fits made) ∧
    ∀ storing : Storing, storing.Accepted → ∃ after, storing.run dt = .ok (CPLUS_SUCCESS,after) := by
  obtain ⟨holds,free⟩ := reached.sound
  obtain ⟨ready,_,kept⟩ := stores_ready run ⟨free,array,holds⟩
  refine ⟨kept,fun storing accepted => ?_⟩
  obtain ⟨after,ran,_⟩ := storing_spec ready accepted
  exact ⟨after,ran⟩

-- Two bytes in an array that was made without a value, and then three.
theorem array_storage_grows : Created (blank .BYTE_ARRAY) ∧ ∀ host : Host, Reached host (blank .BYTE_ARRAY) ∧ ∃ dt moves,
    Run Storing.Step (blank .BYTE_ARRAY) moves dt ∧
    moves.map Move.action = [⟨[5,6],[],fun _ => 0⟩,⟨[7,8,9],[1],fun _ => 0⟩] ∧
    ∀ m ∈ moves, m.action.run m.before = .ok (CPLUS_SUCCESS,m.after) ∧ Keeping m.after m.action.source := by
  have created : Created (blank .BYTE_ARRAY) := ⟨.BYTE_ARRAY,none,none,0,none,none,none,rfl⟩
  refine ⟨created,fun host => ?_⟩
  have reached : Reached host (blank .BYTE_ARRAY) := .made created
  obtain ⟨dt,stored⟩ : ∃ dt, Storing.Step (blank .BYTE_ARRAY) ⟨[5,6],[],fun _ => 0⟩ dt :=
    ⟨_,⟨by decide,by decide⟩,_,rfl⟩
  have run := Run.nil.snoc stored
  have accepted : Storing.Accepted ⟨[7,8,9],[1],fun _ => 0⟩ := ⟨by decide,by decide⟩
  obtain ⟨after,ran⟩ := (array_storage_exact host reached rfl run).2 ⟨[7,8,9],[1],fun _ => 0⟩ accepted
  have both := run.snoc ⟨accepted,_,ran⟩
  refine ⟨reached,after,_,both,rfl,(array_storage_exact host reached rfl both).1.mpr ?_⟩
  rintro _ ⟨⟩ _ _ ⟨⟩

theorem malloc_bytes {garbage : Nat → UInt8} {b : UInt8} (made : cplus_malloc (some garbage) size = some block)
    (member : b ∈ block) : ∃ i, garbage i = b := by
  cases made
  obtain ⟨i,_,same⟩ := List.mem_map.mp member
  exact ⟨i,same⟩

theorem created_array (counts : source.length < 2^32) (garbage : Nat → UInt8) : ∃ dt block, Created dt ∧
    cplus_malloc (some garbage) source.length = some block ∧
    dt.value = .byte_array source.length (some (copied_over source.length source block)) := by
  have free : (blank .BYTE_ARRAY).spinlock = false := rfl
  have held : (blank .BYTE_ARRAY).value = .byte_array 0 none := rfl
  have sized : Sized (blank .BYTE_ARRAY).bufs_size (.byte_array 0 none) := blank_holds .BYTE_ARRAY
  obtain ⟨block,dt,made,_,ran,_,_,stored⟩ := set_value_array free held sized counts [] garbage
  have valued : set_up_value (some (littleEndian32 source.length)) (some (source ++ [])) (some garbage) (blank .BYTE_ARRAY) =
      .ok (true,dt) := bind_ok ran
  have done : set_up (some (littleEndian32 source.length)) (some (source ++ [])) 0 none (some garbage) none (blank .BYTE_ARRAY) =
      .ok (true,dt) := bind_ok valued
  have created : data_initialize_object .BYTE_ARRAY (some (littleEndian32 source.length)) (some (source ++ [])) 0 none
      (some garbage) none = .ok (some dt) := by
    unfold data_initialize_object
    rw [done]
    rfl
  exact ⟨dt,block,⟨_,_,_,_,_,_,_,created⟩,(Prod.mk.inj made).2,stored⟩

-- An array of RSIZE_MAX_MEM + 1 bytes, and one byte that is stored in it.
theorem array_storage_lost : ∃ made after, (∀ host : Host, Reached host made) ∧ made.data_type = .BYTE_ARRAY ∧
    Storing.run ⟨[7],[],fun _ => 0⟩ made = .ok (CPLUS_SUCCESS,after) ∧ ¬ Keeping after [7] := by
  have length : (List.replicate (RSIZE_MAX_MEM + 1) (0 : UInt8)).length = RSIZE_MAX_MEM + 1 := List.length_replicate
  obtain ⟨made,block,created,given,held⟩ := created_array (by rw [length]; decide) fun _ => 0
  have reached : ∀ host : Host, Reached host made := fun _ => .made created
  have array : made.data_type = .BYTE_ARRAY := by
    unfold data_type
    rw [held]
    rfl
  have holds : Holds made := created_holds created
  have free : made.spinlock = false := created_free created
  obtain ⟨after,ran,_,_,keeps⟩ := storing_spec ⟨free,array,holds⟩ (⟨by decide,by decide⟩ : Storing.Accepted ⟨[7],[],fun _ => 0⟩)
  refine ⟨made,after,reached,array,ran,fun keeping => ?_⟩
  have long : ¬ RSIZE_MAX_MEM + 1 ≤ RSIZE_MAX_MEM := Nat.not_succ_le_self _
  rw [length,copied_over,if_neg long] at held
  have front : block.take 1 = [7] := (keeps.mp keeping _ _ held).resolve_left long
  have seven : 7 ∈ block := List.mem_of_mem_take (front ▸ List.mem_singleton_self 7)
  obtain ⟨_,zero⟩ := malloc_bytes given seven
  exact absurd zero (by decide)

end Arrays

end Libcplus.Data
