import Libcplus.Data.Storage

namespace Libcplus.Data
open Bytes Memory Typedef Program Transition

variable {α : Type} {host : Host} {dt dest src after : Data} {value1 value2 bufs src_bufs out : Pointer} {len n : Nat}
  {block source target : List UInt8}

-- What a caller of cplus_data_get_value sees.
abbrev answer (value1 value2 : Pointer) (dt : Data) : Except Stop (Int × Pointer × Pointer) :=
  (cplus_data_get_value value1 value2 dt).map Prod.fst

def array_answer (target : List UInt8) (out : Pointer) (len : Nat) (bufs : Pointer) : Except Stop (Int × Pointer × Pointer) :=
  match slice target 0 4 with
  | none => .error .crashes
  | some bytes =>
    if readLittle bytes < len then .ok (CPLUS_FAIL,some target,out)
    else
      match cplus_mem_cpy_ex out 0 (readLittle bytes) bufs 0 len with
      | none => .error .crashes
      | some (true,copied) => .ok (len,some target,copied)
      | some (false,_) => .ok (CPLUS_FAIL,some target,out)

theorem answer_array (free : dt.spinlock = false) (held : dt.value = .byte_array len bufs) :
    answer (some target) (some block) dt = array_answer target (some block) len bufs := by
  obtain ⟨_,_,_,_,_,_,_,_⟩ := dt
  cases held
  cases free
  unfold answer array_answer
  cases read : slice target 0 4 with
  | none => simp [cplus_data_get_value,DATA_SPIN_LOCK,uint32,access,read,run_bind,run_get,run_set,ok_bind,-bind_pure_comp]; rfl
  | some bytes =>
    by_cases short : readLittle bytes < len
    · simp [cplus_data_get_value,DATA_SPIN_LOCK,DATA_SPIN_UNLOCK,uint32,access,read,short,run_bind,run_get,run_set,
        run_pure,run_modify,ok_bind,-bind_pure_comp,Except.map]
    · cases copied : cplus_mem_cpy_ex (some block) 0 (readLittle bytes) bufs 0 len with
      | none =>
        simp [cplus_data_get_value,DATA_SPIN_LOCK,uint32,access,read,short,copied,run_bind,run_get,run_set,ok_bind,-bind_pure_comp]
        rfl
      | some result =>
        obtain ⟨_ | _,written⟩ := result
        · simp [cplus_data_get_value,DATA_SPIN_LOCK,uint32,access,read,short,copied,run_bind,run_get,run_set,run_pure,ok_bind,-bind_pure_comp,Except.map]
        · simp [cplus_data_get_value,DATA_SPIN_LOCK,DATA_SPIN_UNLOCK,uint32,access,read,short,copied,run_bind,run_get,run_set,run_pure,run_modify,ok_bind,-bind_pure_comp,Except.map]

-- Objects with one value, and the lock of both free or of both taken.
def Twins (dt src : Data) : Prop := dt.value = src.value ∧ dt.spinlock = src.spinlock

theorem lock_alike : Alike Twins DATA_SPIN_LOCK := by
  rintro ⟨_,_,_,_,lock,_,_,_⟩ ⟨_,_,_,_,_,_,_,_⟩ ⟨same,locks⟩
  cases same
  cases locks
  cases lock with
  | false => exact ⟨rfl,rfl,rfl⟩
  | true => rfl

theorem unlock_alike : Alike Twins DATA_SPIN_UNLOCK := .modify fun _ _ twins => ⟨twins.1,rfl⟩

theorem spin_alike {body : Routine α} (inside : Alike Twins body) : Alike Twins (spin body) :=
  lock_alike.bind fun _ => inside.bind fun result => unlock_alike.bind fun _ => .pure result

theorem guarded_alike {spins : Bool} {body : Routine α} (inside : Alike Twins body) : Alike Twins (guarded spins body) := by
  cases spins with
  | false => exact inside
  | true => exact spin_alike inside

theorem access_alike (result : Option α) : Alike Twins (access result) := by
  cases result with
  | none => exact .throw _
  | some result => exact .pure result

theorem store_alike (value bytes : List UInt8) : Alike Twins (store value bytes) :=
  (access_alike _).bind fun _ => .pure _

-- The answer of cplus_data_get_value depends on the value and on the lock.
theorem get_value_alike (value1 value2 : Pointer) : Alike Twins (cplus_data_get_value value1 value2) := by
  cases value1 with
  | none => exact .pure _
  | some target =>
    refine .get (fun dt src twins => ?_) fun dt => ?_
    · simp only [twins.1]
    · split
      · exact .pure _
      · exact .pure _
      · exact (store_alike _ _).bind fun written => .pure _
      · exact (guarded_alike (store_alike _ _)).bind fun written => .pure _
      · exact (spin_alike (store_alike _ _)).bind fun written => .pure _
      · exact (store_alike _ _).bind fun written => .pure _
      · refine .ite (.pure _) (spin_alike ?_)
        refine ((access_alike _).bind fun _ => .pure _).bind fun size => (access_alike _).bind fun text => .ite (.pure _) ?_
        exact (access_alike _).bind fun printed => .pure _
      · refine .ite (.pure _) (lock_alike.bind fun _ => ((access_alike _).bind fun _ => .pure _).bind fun size => ?_)
        refine .ite (unlock_alike.bind fun _ => .pure _) ((access_alike _).bind fun copied => ?_)
        exact .ite (unlock_alike.bind fun _ => .pure _) (.pure _)

section Arrays
variable {m : Nat} {one two : List UInt8}

-- A length that cplus_data_get_value never copies: nothing, or more than
-- cplus_mem_cpy_ex accepts.
def Unreadable (len : Nat) : Prop := len = 0 ∨ len > RSIZE_MAX_MEM

theorem answer_arrays (free : dt.spinlock = false) (freed : src.spinlock = false)
    (held : dt.value = .byte_array n bufs) (source : src.value = .byte_array m src_bufs)
    (same : ∀ target block, array_answer target (some block) n bufs = array_answer target (some block) m src_bufs)
    (value1 value2 : Pointer) : answer value1 value2 dt = answer value1 value2 src := by
  cases value1 with
  | none => rfl
  | some target =>
    cases value2 with
    | none =>
      obtain ⟨_,_,_,_,_,_,_,_⟩ := dt
      obtain ⟨_,_,_,_,_,_,_,_⟩ := src
      cases held
      cases source
      rfl
    | some block => exact (answer_array free held).trans ((same target block).trans (answer_array freed source).symm)

theorem array_answer_front (within : n ≤ one.length) (inside : n ≤ two.length) (same : one.take n = two.take n)
    (target : List UInt8) (out : Pointer) : array_answer target out n (some one) = array_answer target out n (some two) := by
  have copies : ∀ size, cplus_mem_cpy_ex out 0 size (some one) 0 n = cplus_mem_cpy_ex out 0 size (some two) 0 n := by
    intro size
    have slices : slice one 0 n = slice two 0 n := by
      rw [slice_some (by omega),slice_some (by omega),List.drop_zero,List.drop_zero,same]
    cases out with
    | none => rfl
    | some block => simp only [cplus_mem_cpy_ex,slices]
  unfold array_answer
  simp only [copies]

theorem array_answer_fails (unreadable : Unreadable n) (target block : List UInt8) (bufs : Pointer) :
    array_answer target (some block) n bufs =
      match slice target 0 4 with
      | none => .error .crashes
      | some _ => .ok (CPLUS_FAIL,some target,some block) := by
  unfold array_answer
  cases read : slice target 0 4 with
  | none => rfl
  | some bytes =>
    by_cases short : readLittle bytes < n
    · simp only [if_pos short]
    · have refused : cplus_mem_cpy_ex (some block) 0 (readLittle bytes) bufs 0 n = some (false,some block) := by
        refine mem_cpy_ex_refuses (.inr ?_)
        rcases unreadable with empty | long
        · exact .inr (.inr (.inl empty))
        · exact .inr (.inl (by omega))
      simp only [if_neg short,refused]

-- A caller who asks for so many bytes tells this length from every other.
theorem array_answer_tells (readable : ¬ Unreadable n) (within : n ≤ one.length) (apart : m ≠ n) :
    array_answer (littleEndian32 n) (some (List.replicate n 0)) n (some one) ≠
      array_answer (littleEndian32 n) (some (List.replicate n 0)) m (some two) := by
  unfold Unreadable at readable
  have limit : n ≤ RSIZE_MAX_MEM := by omega
  have counts : n < 2^32 := Nat.lt_of_le_of_lt limit (by decide)
  have read : slice (littleEndian32 n) 0 4 = some (littleEndian32 n) := rfl
  have room : 0 + n ≤ (List.replicate n (0 : UInt8)).length := by simp
  obtain ⟨written,_,copied⟩ := mem_cpy_ex_copies room (by omega : 0 + n ≤ one.length) (by omega) (Nat.le_refl n) limit
  simp only [array_answer,read,littleEndian32_read counts,Nat.lt_irrefl,if_false,copied]
  intro same
  split at same
  · cases same
  · split at same
    · cases same
    · have lengths := congrArg (fun answer => answer.map Prod.fst) same
      simp only [Except.map,Except.ok.injEq] at lengths
      exact apart (Int.ofNat.inj lengths).symm
    · cases same

end Arrays

section Clones
variable {src_len size src_size : Nat} {old bytes : List UInt8}

-- The clone answers with success, without leaving a buffer of the source, and its
-- callers see what those of the source see.
def Clones (dest src : Data) (garbage : Nat → UInt8) : Prop :=
  ∃ after, cplus_data_clone_value src (some garbage) dest = .ok (CPLUS_SUCCESS,after) ∧
    ∀ value1 value2, answer value1 value2 after = answer value1 value2 src

theorem clone_text_grows (held : dest.value = .str len (some old)) (source : src.value = .str src_len (some bytes))
    (more : len < src_len) (length : bytes.length = src_len) (garbage : Nat → UInt8) :
    cplus_data_clone_value src (some garbage) dest =
      .ok (CPLUS_SUCCESS,{dest with str_code := src.str_code,value := .str src_len (some bytes)}) := by
  obtain ⟨block,made⟩ : ∃ block, cplus_realloc (some garbage) old src_len = some block := ⟨_,rfl⟩
  have copied := mem_cpy_copies (Nat.le_of_eq (realloc_length made).symm) (Nat.le_of_eq length.symm)
  rw [List.take_of_length_le (Nat.le_of_eq length),List.drop_of_length_le (Nat.le_of_eq (realloc_length made)),
    List.append_nil] at copied
  obtain ⟨_,_,_,_,_,_,_,_⟩ := dest
  obtain ⟨_,_,_,_,_,_,_,_⟩ := src
  cases held
  cases source
  simp [cplus_data_clone_value,data_type,Value.data_type,more,clone_room,made,copied,access,run_bind,run_get,run_pure,
    run_set,ok_bind,-bind_pure_comp]

theorem clone_text_copies (held : dest.value = .str len (some old)) (source : src.value = .str src_len (some bytes))
    (less : ¬ len < src_len) (alloc : Outcome) :
    cplus_data_clone_value src alloc dest =
      match cplus_mem_cpy (some old) (some bytes) len with
      | none => .error .crashes
      | some copied => .ok (CPLUS_SUCCESS,{dest with str_code := src.str_code,value := .str len copied}) := by
  obtain ⟨_,_,_,_,_,_,_,_⟩ := dest
  obtain ⟨_,_,_,_,_,_,_,_⟩ := src
  cases held
  cases source
  cases copied : cplus_mem_cpy (some old) (some bytes) len with
  | none =>
    simp [cplus_data_clone_value,data_type,Value.data_type,less,copied,access,run_bind,run_get,ok_bind,-bind_pure_comp]
    rfl
  | some written =>
    simp [cplus_data_clone_value,data_type,Value.data_type,less,copied,access,run_bind,run_get,run_pure,run_set,
      ok_bind,-bind_pure_comp]

theorem clone_array_grows (held : dest.value = .byte_array len (some old))
    (source : src.value = .byte_array src_len (some bytes)) (more : dest.bufs_size < src.bufs_size)
    (within : src_len ≤ src.bufs_size) (there : src_len ≤ bytes.length) (garbage : Nat → UInt8) : ∃ after written,
      cplus_data_clone_value src (some garbage) dest = .ok (CPLUS_SUCCESS,after) ∧ after.spinlock = dest.spinlock ∧
      after.value = .byte_array src_len (some written) ∧ src_len ≤ written.length ∧
      written.take src_len = bytes.take src_len := by
  obtain ⟨block,made⟩ : ∃ block, cplus_realloc (some garbage) old src.bufs_size = some block := ⟨_,rfl⟩
  have fits : src_len ≤ block.length := by
    rw [realloc_length made]
    exact within
  have copied := mem_cpy_copies fits there
  have front : (bytes.take src_len).length = src_len := List.length_take_of_le (by omega)
  refine ⟨{dest with bufs_size := src.bufs_size,value := .byte_array src_len (some (bytes.take src_len ++ block.drop src_len))},
    _,?_,rfl,rfl,?_,?_⟩
  · obtain ⟨_,_,_,_,_,_,_,_⟩ := dest
    obtain ⟨_,_,_,_,_,_,_,_⟩ := src
    cases held
    cases source
    simp only at more made
    simp [cplus_data_clone_value,data_type,Value.data_type,more,clone_room,made,copied,access,run_bind,run_get,run_pure,
      run_set,ok_bind,-bind_pure_comp]
  · rw [List.length_append,front]
    omega
  · rw [List.take_append_of_le_length (Nat.le_of_eq front.symm),List.take_of_length_le (Nat.le_of_eq front)]

theorem clone_array_copies (held : dest.value = .byte_array len (some old))
    (source : src.value = .byte_array src_len (some bytes)) (less : ¬ dest.bufs_size < src.bufs_size) (alloc : Outcome) :
    cplus_data_clone_value src alloc dest =
      match cplus_mem_cpy (some old) (some bytes) len with
      | none => .error .crashes
      | some copied => .ok (CPLUS_SUCCESS,{dest with value := .byte_array len copied}) := by
  obtain ⟨_,_,_,_,_,_,_,_⟩ := dest
  obtain ⟨_,_,_,_,_,_,_,_⟩ := src
  cases held
  cases source
  simp only at less
  cases copied : cplus_mem_cpy (some old) (some bytes) len with
  | none =>
    simp [cplus_data_clone_value,data_type,Value.data_type,less,copied,access,run_bind,run_get,ok_bind,-bind_pure_comp]
    rfl
  | some written =>
    simp [cplus_data_clone_value,data_type,Value.data_type,less,copied,access,put_value,run_bind,run_get,run_pure,
      run_modify,ok_bind,-bind_pure_comp]

theorem clone_scalar (same : dest.data_type = src.data_type) (no_text : src.data_type ≠ .STRING)
    (no_array : src.data_type ≠ .BYTE_ARRAY) (alloc : Outcome) :
    cplus_data_clone_value src alloc dest = .ok (CPLUS_SUCCESS,{dest with value := src.value}) := by
  obtain ⟨_,_,_,_,_,_,_,value⟩ := dest
  obtain ⟨_,_,_,_,_,_,_,held⟩ := src
  cases held with
  | str _ _ => exact absurd rfl no_text
  | byte_array _ _ => exact absurd rfl no_array
  | _ =>
    unfold cplus_data_clone_value
    rw [run_bind,run_get,ok_bind,if_neg (not_not.mpr same)]
    cases value <;> rfl

theorem clones_text_iff (free : dest.spinlock = false) (freed : src.spinlock = false)
    (held : dest.value = .str len (some old)) (source : src.value = .str src_len (some bytes))
    (whole : old.length = len) (length : bytes.length = src_len) (garbage : Nat → UInt8) :
    Clones dest src garbage ↔ len ≤ src_len := by
  by_cases more : len < src_len
  · refine iff_of_true ⟨_,clone_text_grows held source more length garbage,fun value1 value2 => ?_⟩ (Nat.le_of_lt more)
    exact (get_value_alike value1 value2).answers ⟨source.symm,free.trans freed.symm⟩
  · have cloned := clone_text_copies held source more (some garbage)
    by_cases outside : src_len < len
    · rw [mem_cpy_leaves (by omega)] at cloned
      refine iff_of_false ?_ (Nat.not_le.mpr outside)
      rintro ⟨after,ran,_⟩
      cases cloned.symm.trans ran
    · obtain rfl : len = src_len := by omega
      rw [mem_cpy_copies (Nat.le_of_eq whole.symm) (Nat.le_of_eq length.symm),List.take_of_length_le (Nat.le_of_eq length),
        List.drop_of_length_le (Nat.le_of_eq whole),List.append_nil] at cloned
      refine iff_of_true ⟨_,cloned,fun value1 value2 => ?_⟩ (Nat.le_refl _)
      exact (get_value_alike value1 value2).answers ⟨source.symm,free.trans freed.symm⟩

-- A copy of the length of the target, which takes over neither the length of the
-- source nor its capacity.
theorem clones_array_iff (free : dest.spinlock = false) (freed : src.spinlock = false)
    (held : dest.value = .byte_array len (some old)) (source : src.value = .byte_array src_len (some bytes))
    (whole : len ≤ old.length) (within : src_len ≤ src.bufs_size) (there : src_len ≤ bytes.length)
    (garbage : Nat → UInt8) :
    Clones dest src garbage ↔ dest.bufs_size < src.bufs_size ∨ len = src_len ∨
      len ≤ bytes.length ∧ Unreadable len ∧ Unreadable src_len := by
  by_cases more : dest.bufs_size < src.bufs_size
  · obtain ⟨after,written,ran,lock,stored,fits,front⟩ := clone_array_grows held source more within there garbage
    refine iff_of_true ⟨after,ran,answer_arrays (lock.trans free) freed stored source ?_⟩ (.inl more)
    exact fun target block => array_answer_front fits there front target (some block)
  · rw [or_iff_right more]
    have cloned := clone_array_copies held source more (some garbage)
    by_cases outside : bytes.length < len
    · rw [mem_cpy_leaves outside] at cloned
      refine iff_of_false ?_ (by omega)
      rintro ⟨after,ran,_⟩
      cases cloned.symm.trans ran
    · have inside : len ≤ bytes.length := Nat.le_of_not_lt outside
      rw [mem_cpy_copies whole inside] at cloned
      have front : (bytes.take len).length = len := List.length_take_of_le (by omega)
      have fits : len ≤ (bytes.take len ++ old.drop len).length := by
        rw [List.length_append,front]
        omega
      obtain ⟨after,cloned,lock,stored⟩ : ∃ after,
          cplus_data_clone_value src (some garbage) dest = .ok (CPLUS_SUCCESS,after) ∧ after.spinlock = false ∧
          after.value = .byte_array len (some (bytes.take len ++ old.drop len)) := ⟨_,cloned,free,rfl⟩
      constructor
      · rintro ⟨_,ran,same⟩
        cases cloned.symm.trans ran
        by_cases apart : len = src_len
        · exact .inl apart
        · have agree : ∀ target block, array_answer target (some block) len (some (bytes.take len ++ old.drop len)) =
              array_answer target (some block) src_len (some bytes) := fun target block =>
            (answer_array lock stored).symm.trans ((same (some target) (some block)).trans (answer_array freed source))
          refine .inr ⟨inside,?_,?_⟩
          · by_contra readable
            exact array_answer_tells readable fits (Ne.symm apart) (agree _ _)
          · by_contra readable
            exact array_answer_tells readable there apart (agree _ _).symm
      · intro condition
        refine ⟨after,cloned,answer_arrays lock freed stored source fun target block => ?_⟩
        rcases condition with rfl | ⟨_,unreadable,src_unreadable⟩
        · refine array_answer_front fits there ?_ target (some block)
          rw [List.take_append_of_le_length (Nat.le_of_eq front.symm),List.take_of_length_le (Nat.le_of_eq front)]
        · rw [array_answer_fails unreadable,array_answer_fails src_unreadable]

-- An object that holds its value: one that needs a buffer has it.
def Buffered : Value → Prop
  | .str _ bufs => bufs ≠ none
  | .byte_array _ bufs => bufs ≠ none
  | _ => True

def Clonable (dest src : Data) : Prop :=
  match dest.value,src.value with
  | .str len _,.str src_len _ => len ≤ src_len
  | .byte_array len _,.byte_array src_len (some bytes) =>
    dest.bufs_size < src.bufs_size ∨ len = src_len ∨ len ≤ bytes.length ∧ Unreadable len ∧ Unreadable src_len
  | _,_ => True

-- Any two objects of a type that set operations reach and that hold a value.
theorem clone_exact (host : Host) (reached : Reached host dest) (source : Reached host src)
    (same : dest.data_type = src.data_type) (buffered : Buffered dest.value) (src_buffered : Buffered src.value)
    (garbage : Nat → UInt8) : Clones dest src garbage ↔ Clonable dest src := by
  obtain ⟨holds,free⟩ := reached.sound
  obtain ⟨src_holds,freed⟩ := source.sound
  unfold Holds at holds src_holds
  unfold Clonable
  unfold data_type at same
  cases held : dest.value with
  | str len bufs =>
    cases from_ : src.value with
    | str src_len src_bufs =>
      rw [held] at holds buffered
      rw [from_] at src_holds src_buffered
      obtain ⟨old,rfl⟩ := Option.ne_none_iff_exists'.mp buffered
      obtain ⟨bytes,rfl⟩ := Option.ne_none_iff_exists'.mp src_buffered
      exact clones_text_iff free freed held from_ (holds.2 old rfl) (src_holds.2 bytes rfl) garbage
    | _ => rw [held,from_] at same; cases same
  | byte_array len bufs =>
    cases from_ : src.value with
    | byte_array src_len src_bufs =>
      rw [held] at holds buffered
      rw [from_] at src_holds src_buffered
      obtain ⟨old,rfl⟩ := Option.ne_none_iff_exists'.mp buffered
      obtain ⟨bytes,rfl⟩ := Option.ne_none_iff_exists'.mp src_buffered
      exact clones_array_iff free freed held from_ (Nat.le_trans holds.1 (holds.2 old rfl)) src_holds.1
        (Nat.le_trans src_holds.1 (src_holds.2 bytes rfl)) garbage
    | _ => rw [held,from_] at same; cases same
  | _ =>
    have scalar : src.value.data_type ≠ .STRING ∧ src.value.data_type ≠ .BYTE_ARRAY := by
      rw [← same,held]
      exact ⟨nofun,nofun⟩
    refine iff_of_true ⟨_,clone_scalar same scalar.1 scalar.2 (some garbage),fun value1 value2 => ?_⟩ trivial
    exact (get_value_alike value1 value2).answers ⟨rfl,free.trans freed.symm⟩

-- A longer string over a shorter one.
theorem clone_longer : Created (blank .STRING) ∧ ∀ host : Host, ∃ dest src, Reached host dest ∧ Reached host src ∧
    dest.data_type = src.data_type ∧ dest.value = .str 3 (some [97,98,0]) ∧
    src.value = .str 5 (some [119,120,121,122,0]) ∧ Clonable dest src ∧ Clones dest src fun _ => 0 := by
  have created : Created (blank .STRING) := ⟨.STRING,none,none,0,none,none,none,rfl⟩
  refine ⟨created,fun host => ?_⟩
  obtain ⟨dest,set_,held⟩ : ∃ dest, cplus_data_set_value (some (littleEndian32 2)) (some [97,98,0]) (some fun _ => 0)
      (blank .STRING) = .ok (CPLUS_SUCCESS,dest) ∧ dest.value = .str 3 (some [97,98,0]) := ⟨_,rfl,rfl⟩
  obtain ⟨src,src_set,src_held⟩ : ∃ src, cplus_data_set_value (some (littleEndian32 4))
      (some [119,120,121,122,0]) (some fun _ => 0) (blank .STRING) = .ok (CPLUS_SUCCESS,src) ∧
      src.value = .str 5 (some [119,120,121,122,0]) := ⟨_,rfl,rfl⟩
  have reached : Reached host dest := (Reached.made created).set_value set_
  have source : Reached host src := (Reached.made created).set_value src_set
  have same : dest.data_type = src.data_type := by rw [data_type,data_type,held,src_held]; rfl
  have longer : Clonable dest src := by
    unfold Clonable
    rw [held,src_held]
    exact Nat.le_of_ble_eq_true rfl
  refine ⟨dest,src,reached,source,same,held,src_held,longer,?_⟩
  apply (clone_exact host reached source same ?_ ?_ fun _ => 0).mpr longer
  · rw [held]
    exact Option.some_ne_none _
  · rw [src_held]
    exact Option.some_ne_none _

-- A shorter string leaves its buffer for the length of the longer one. An array
-- that was cut to three bytes lends its capacity, and the clone has five.
theorem clone_overreads : Created (blank .STRING) ∧ Created (blank .BYTE_ARRAY) ∧ ∀ host : Host,
    (∃ dest src, Reached host dest ∧ Reached host src ∧ dest.value = .str 5 (some [119,120,121,122,0]) ∧
      src.value = .str 3 (some [97,98,0]) ∧ ¬ Clones dest src (fun _ => 0) ∧
      cplus_data_clone_value src (some fun _ => 0) dest = .error .crashes) ∧
    ∃ dest src, Reached host dest ∧ Reached host src ∧ dest.value = .byte_array 5 (some [1,2,3,4,5]) ∧
      src.value = .byte_array 3 (some [6,7,8,4,5]) ∧ ¬ Clones dest src (fun _ => 0) := by
  have text_created : Created (blank .STRING) := ⟨.STRING,none,none,0,none,none,none,rfl⟩
  have created : Created (blank .BYTE_ARRAY) := ⟨.BYTE_ARRAY,none,none,0,none,none,none,rfl⟩
  refine ⟨text_created,created,fun host => ⟨?_,?_⟩⟩
  · obtain ⟨dest,set_,held⟩ : ∃ dest, cplus_data_set_value (some (littleEndian32 4))
        (some [119,120,121,122,0]) (some fun _ => 0) (blank .STRING) = .ok (CPLUS_SUCCESS,dest) ∧
        dest.value = .str 5 (some [119,120,121,122,0]) := ⟨_,rfl,rfl⟩
    obtain ⟨src,src_set,src_held⟩ : ∃ src, cplus_data_set_value (some (littleEndian32 2)) (some [97,98,0])
        (some fun _ => 0) (blank .STRING) = .ok (CPLUS_SUCCESS,src) ∧ src.value = .str 3 (some [97,98,0]) := ⟨_,rfl,rfl⟩
    have crashes := clone_text_copies held src_held (by decide) (some fun _ => 0)
    rw [mem_cpy_leaves (by decide)] at crashes
    have reached : Reached host dest := (Reached.made text_created).set_value set_
    refine ⟨dest,src,reached,(Reached.made text_created).set_value src_set,held,src_held,?_,crashes⟩
    rintro ⟨after,ran,_⟩
    cases crashes.symm.trans ran
  · obtain ⟨dest,set_,free,held,size⟩ : ∃ dest, cplus_data_set_value (some (littleEndian32 5)) (some [1,2,3,4,5])
        (some fun _ => 0) (blank .BYTE_ARRAY) = .ok (CPLUS_SUCCESS,dest) ∧ dest.spinlock = false ∧
        dest.value = .byte_array 5 (some [1,2,3,4,5]) ∧ dest.bufs_size = 5 := ⟨_,rfl,rfl,rfl,rfl⟩
    have reached : Reached host dest := (Reached.made created).set_value set_
    obtain ⟨src,cut,freed,src_held,src_size⟩ : ∃ src, cplus_data_set_value (some (littleEndian32 3)) (some [6,7,8])
        (some fun _ => 0) dest = .ok (CPLUS_SUCCESS,src) ∧ src.spinlock = false ∧
        src.value = .byte_array 3 (some [6,7,8,4,5]) ∧ src.bufs_size = 5 := by
      cases set_
      exact ⟨_,rfl,rfl,rfl,rfl⟩
    refine ⟨dest,src,reached,reached.set_value cut,held,src_held,fun clones => ?_⟩
    have condition := (clones_array_iff free freed held src_held (by decide) (by rw [src_size]; decide) (by decide) _).mp clones
    rw [size,src_size] at condition
    revert condition
    unfold Unreadable
    decide

end Clones

end Libcplus.Data
