import Mathlib.Algebra.Group.Int.Defs
import Libcplus.Integers
import Libcplus.RandomAccess
import Libcplus.Typedef

-- What file.c reads and writes: the bytes of a regular file that nobody else changes.
namespace Libcplus.FileData
open RandomAccess Typedef

-- The most that one read or write moves.
def MAX_RW_COUNT : Nat := 0x7ffff000

-- An off_t or ssize_t in an int32_t.
def int32 (n : Int) : Int := Integers.read true (BitVec.ofInt 32 n)

-- The open descriptor is its position, INVALID_FD is none. A file opened with trunc is
-- empty after each open.
structure File where
  readable : Bool
  writable : Bool
  append : Bool
  trunc : Bool
  contents : List UInt8
  fd : Option Nat
  deriving DecidableEq

inductive CPLUS_FILE_POS where
  | POS_START
  | POS_END
  | POS_CURR
  deriving DecidableEq

def target (f : File) (pos : Nat) (offset : Int) : CPLUS_FILE_POS → Int
  | .POS_START => offset
  | .POS_END => f.contents.length + offset
  | .POS_CURR => pos + offset

def lseek (f : File) (offset : Int) (whence : CPLUS_FILE_POS) : Int × File :=
  match f.fd with
  | none => (-1,f)
  | some pos =>
    let target := target f pos offset whence
    if 0 ≤ target then (target,{f with fd := some target.toNat}) else (-1,f)

def read (f : File) (size : Nat) : Int × List UInt8 × File :=
  match f.fd with
  | none => (-1,[],f)
  | some pos =>
    if f.readable then
      let bytes := fetch f.contents pos (min size MAX_RW_COUNT)
      (bytes.length,bytes,{f with fd := some (pos + bytes.length)})
    else (-1,[],f)

-- `accepted` is how much the file system takes at most, none an error.
def write (accepted : Option Nat) (f : File) (buffer : List UInt8) : Int × File :=
  match f.fd,accepted with
  | some pos,some accepted =>
    if f.writable then
      let start := if f.append then f.contents.length else pos
      let bytes := buffer.take (min accepted MAX_RW_COUNT)
      (bytes.length,{f with contents := overwrite f.contents start bytes,fd := some (start + bytes.length)})
    else (-1,f)
  | _,_ => (-1,f)

def ftruncate (granted : Bool) (f : File) (size : Nat) : Int × File :=
  if f.fd.isSome && f.writable && granted then (0,{f with contents := resize f.contents size}) else (-1,f)

def cplus_file_open (opens : Bool) (f : File) : Int × File :=
  match f.fd with
  | some _ => (CPLUS_FAIL,f)
  | none =>
    if opens then (CPLUS_SUCCESS,{f with fd := some 0,contents := if f.trunc then [] else f.contents})
    else (CPLUS_FAIL,f)

def cplus_file_close (f : File) : Int × File :=
  match f.fd with
  | none => (-1,f)
  | some _ => (0,{f with fd := none})

def cplus_file_read (f : File) (size : Nat) : Int × List UInt8 × File :=
  if 0 < size then
    let (count,bytes,f) := read f size
    (int32 count,bytes,f)
  else (CPLUS_FAIL,[],f)

def cplus_file_write (accepted : Option Nat) (f : File) (buffer : List UInt8) : Int × File :=
  if 0 < buffer.length then
    let (count,f) := write accepted f buffer
    (int32 count,f)
  else (CPLUS_FAIL,f)

def cplus_file_resize (granted : Bool) (f : File) (size : Nat) : Int × File :=
  if 0 < size then ftruncate granted f size else (CPLUS_FAIL,f)

-- The offset is passed as an int32_t. Where the file system has an end, it refuses to
-- go behind it.
def cplus_file_move_pos (refused : Bool) (f : File) (pos : CPLUS_FILE_POS) (offset : Int) : Int × File :=
  if refused then (-1,f)
  else
    let (pos,f) := lseek f (int32 offset) pos
    (int32 pos,f)

def cplus_file_get_cur_pos (f : File) : Int × File :=
  let (pos,f) := lseek f 0 .POS_CURR
  (int32 pos,f)

def reset_pos (f : File) : Int × File :=
  let (pos,f) := lseek f 0 .POS_START
  (int32 pos,f)

def cplus_file_reset_pos (f : File) : Int × File := reset_pos f

def get_size (f : File) : Int × File :=
  let (pos,f) := lseek f 0 .POS_CURR
  if -1 ≠ int32 pos then
    let (size,f) := lseek f 0 .POS_END
    let (_,f) := lseek f (int32 pos) .POS_START
    (int32 size,f)
  else (0,f)

def cplus_file_get_data_size (f : File) : Int × File := get_size f

-- data_bufs with its data_bufs_size, as far as it is filled.
structure Block where
  data_bufs_size : Nat
  filled : List UInt8
  deriving DecidableEq

-- `memory` is that is_enough and the allocation grant what is asked for.
def cplus_file_get_data (memory : Bool) (f : File) : Option Block × File :=
  let (f_size,f) := get_size f
  if 0 < f_size then
    if memory then
      let (pos,f) := lseek f 0 .POS_CURR
      if -1 ≠ int32 pos then
        let (_,f) := lseek f 0 .POS_START
        let (_,bytes,f) := read f f_size.toNat
        let (_,f) := lseek f (int32 pos) .POS_START
        (some ⟨f_size.toNat,bytes⟩,f)
      else (some ⟨f_size.toNat,[]⟩,f)
    else (none,f)
  else (none,f)

inductive Call where
  | open_ (opens : Bool)
  | close
  | read (size : Nat)
  | write (buffer : List UInt8) (accepted : Option Nat)
  | resize (size : Nat) (granted : Bool)
  | move_pos (pos : CPLUS_FILE_POS) (offset : Int) (refused : Bool)
  | get_cur_pos
  | reset_pos
  | get_data_size
  | get_data (memory : Bool)
  deriving DecidableEq

inductive Answer where
  | res (res : Int)
  | bytes (res : Int) (buffer : List UInt8)
  | data (data_bufs : Option Block)
  deriving DecidableEq

def perform (f : File) : Call → Answer × File
  | .open_ opens => (cplus_file_open opens f).map .res id
  | .close => (cplus_file_close f).map .res id
  | .read size =>
    let (res,buffer,f) := cplus_file_read f size
    (.bytes res buffer,f)
  | .write buffer accepted => (cplus_file_write accepted f buffer).map .res id
  | .resize size granted => (cplus_file_resize granted f size).map .res id
  | .move_pos pos offset refused => (cplus_file_move_pos refused f pos offset).map .res id
  | .get_cur_pos => (cplus_file_get_cur_pos f).map .res id
  | .reset_pos => (cplus_file_reset_pos f).map .res id
  | .get_data_size => (cplus_file_get_data_size f).map .res id
  | .get_data memory => (cplus_file_get_data memory f).map .data id

-- What the calls are for: positions and sizes as they are, and a question about the
-- size or the data moves nothing.
def ideal (f : File) : Call → Answer × File
  | .open_ opens => (cplus_file_open opens f).map .res id
  | .close => (cplus_file_close f).map .res id
  | .read size => if 0 < size then ((.bytes (read f size).1 (read f size).2.1),(read f size).2.2) else (.bytes CPLUS_FAIL [],f)
  | .write buffer accepted => if 0 < buffer.length then (write accepted f buffer).map .res id else (.res CPLUS_FAIL,f)
  | .resize size granted => (cplus_file_resize granted f size).map .res id
  | .move_pos pos offset refused => if refused then (.res (-1),f) else (lseek f (int32 offset) pos).map .res id
  | .get_cur_pos => (.res (f.fd.elim (-1) fun pos => (pos : Int)),f)
  | .reset_pos => (.res (f.fd.elim (-1) fun _ => 0),{f with fd := f.fd.map fun _ => 0})
  | .get_data_size => (.res (f.fd.elim 0 fun _ => (f.contents.length : Int)),f)
  | .get_data memory =>
    (.data (if f.fd.isSome && memory && f.contents ≠ [] then some ⟨f.contents.length,if f.readable then f.contents else []⟩ else none),f)

-- A position of 2^32 - 1 is taken for a failure, and one that is negative as an int32_t
-- is not restored, which leaves the end.
def Restored (f : File) (pos : Nat) : Prop :=
  pos < 2^31 ∨ pos % 2^32 = 2^32 - 1 ∨ 2^31 ≤ pos % 2^32 ∧ pos = f.contents.length

def Within (limit : Nat) (f : File) (pos : Nat) : Prop :=
  f.contents.length ≤ limit ∧ (pos < 2^31 ∨ f.contents = [] ∧ pos % 2^32 = 2^32 - 1)

-- As much as one read takes.
def limit (f : File) : Nat := if f.readable then MAX_RW_COUNT else 2^31 - 1

-- What an open file must be for a call to do what it is for.
def Allows (f : File) (pos : Nat) : Call → Prop
  | .move_pos whence offset refused => refused = true ∨ target f pos (int32 offset) whence < 2^31
  | .get_cur_pos => pos < 2^31
  | .get_data_size => Within (2^31 - 1) f pos
  | .get_data true => Within (limit f) f pos
  | .get_data false => Restored f pos
  | _ => True

def Fits (f : File) (call : Call) : Prop := ∀ pos, f.fd = some pos → Allows f pos call

variable {f : File} {pos : Nat}

theorem int32_eq (v : Int) : int32 v = v.bmod (2^32) := BitVec.toInt_ofInt v

theorem int32_same (v : Int) : int32 v = v ↔ -2^31 ≤ v ∧ v < 2^31 := by
  rw [int32_eq,Int.bmod_def]
  split <;> omega

theorem int32_nat (n : Nat) : int32 n = if n % 2^32 < 2^31 then ((n % 2^32 : Nat) : Int) else (n % 2^32 : Nat) - 2^32 := by
  rw [int32_eq,Int.bmod_def]
  split <;> split <;> omega

theorem lseek_closed (closed : f.fd = none) (offset : Int) (whence : CPLUS_FILE_POS) : lseek f offset whence = (-1,f) := by
  rw [lseek,closed]

theorem lseek_curr (there : f.fd = some pos) : lseek f 0 .POS_CURR = ((pos : Int),f) := by
  rw [lseek,there]
  simp [target,← there]

theorem lseek_end (there : f.fd = some pos) : lseek f 0 .POS_END =
    ((f.contents.length : Int),{f with fd := some f.contents.length}) := by
  rw [lseek,there]
  simp [target]

theorem lseek_start (there : f.fd = some pos) (v : Int) :
    lseek f v .POS_START = if 0 ≤ v then (v,{f with fd := some v.toNat}) else (-1,f) := by
  rw [lseek,there]
  rfl

-- Where get_size leaves the position.
def restored (f : File) (pos : Nat) : Nat := if pos % 2^32 < 2^31 then pos % 2^32 else f.contents.length

theorem get_size_open (there : f.fd = some pos) : get_size f =
    if pos % 2^32 = 2^32 - 1 then (0,f) else (int32 f.contents.length,{f with fd := some (restored f pos)}) := by
  have failing : int32 pos = -1 ↔ pos % 2^32 = 2^32 - 1 := by
    rw [int32_nat]
    split <;> omega
  have positive : 0 ≤ int32 pos ↔ pos % 2^32 < 2^31 := by
    rw [int32_nat]
    split <;> omega
  simp only [get_size,lseek_curr there,lseek_end there]
  by_cases fails : pos % 2^32 = 2^32 - 1
  · rw [if_pos fails,if_neg]
    intro apart
    exact apart (failing.mpr fails).symm
  · rw [if_neg fails,if_pos fun same => fails (failing.mp same.symm)]
    rw [lseek_start rfl]
    unfold restored
    split
    · rename_i valid
      have small := positive.mp valid
      rw [if_pos small]
      have value : (int32 pos).toNat = pos % 2^32 := by
        rw [int32_nat,if_pos small]
        exact Int.toNat_natCast _
      rw [value]
    · rename_i negative
      rw [if_neg fun small => negative (positive.mpr small)]

theorem get_size_closed (closed : f.fd = none) : get_size f = (0,f) := by
  simp only [get_size,lseek_closed closed]
  rfl

-- A size that is positive as an int32_t leaves the position below 2^31.
theorem restored_small (pos : Nat) (positive : 0 < int32 f.contents.length) : restored f pos % 2^32 < 2^31 := by
  have small : f.contents.length % 2^32 < 2^31 := by
    rw [int32_nat] at positive
    split at positive <;> omega
  unfold restored
  split <;> omega

theorem read_open (there : f.fd = some pos) (size : Nat) :
    (read f size).2.1 = if f.readable then fetch f.contents pos (min size MAX_RW_COUNT) else [] := by
  rw [read,there]
  dsimp only
  split <;> rfl

-- A read changes nothing but the position.
theorem read_moves (there : f.fd = some pos) (size : Nat) : ∃ pos, (read f size).2.2 = {f with fd := some pos} := by
  rw [read,there]
  dsimp only
  split
  · exact ⟨_,rfl⟩
  · exact ⟨pos,by rw [← there]⟩

theorem get_data_open (there : f.fd = some pos) (memory : Bool) : cplus_file_get_data memory f =
    if pos % 2^32 = 2^32 - 1 then (none,f)
    else if 0 < int32 f.contents.length ∧ memory = true then
      let size := (int32 f.contents.length).toNat
      (some ⟨size,if f.readable then fetch f.contents 0 (min size MAX_RW_COUNT) else []⟩,
        {f with fd := some (restored f pos % 2^32)})
    else (none,{f with fd := some (restored f pos)}) := by
  rw [cplus_file_get_data,get_size_open there]
  by_cases fails : pos % 2^32 = 2^32 - 1
  · rw [if_pos fails,if_pos fails]
    rfl
  rw [if_neg fails,if_neg fails]
  by_cases positive : 0 < int32 f.contents.length
  · cases memory with
    | false => simp
    | true =>
      have small := restored_small pos positive
      have value : int32 (restored f pos) = (restored f pos % 2^32 : Nat) := by rw [int32_nat,if_pos small]
      have here : lseek {f with fd := some (restored f pos)} 0 .POS_CURR = ((restored f pos : Int),{f with fd := some (restored f pos)}) :=
        lseek_curr rfl
      have start : lseek {f with fd := some (restored f pos)} 0 .POS_START = (0,{f with fd := some 0}) := lseek_start rfl 0
      obtain ⟨after,moved⟩ := read_moves (show File.fd {f with fd := some 0} = some 0 from rfl) (int32 f.contents.length).toNat
      have bytes := read_open (show File.fd {f with fd := some 0} = some 0 from rfl) (int32 f.contents.length).toNat
      have back := lseek_start (show File.fd {f with fd := some after} = some after from rfl) (restored f pos % 2^32 : Nat)
      rw [if_pos (Int.natCast_nonneg _),Int.toNat_natCast] at back
      simp only [positive,if_true,here,start,value,and_self,moved,bytes,back]
      rw [if_pos (by omega)]
  · simp [positive]

theorem moved_same (there : f.fd = some pos) (p : Nat) : {f with fd := some p} = f ↔ p = pos := by
  constructor
  · intro same
    have position : some p = f.fd := congrArg File.fd same
    rw [there] at position
    exact Option.some.inj position
  · intro same
    rw [same,← there]

theorem get_size_exact (there : f.fd = some pos) : get_size f = ((f.contents.length : Int),f) ↔ Within (2^31 - 1) f pos := by
  rw [get_size_open there]
  unfold Within
  by_cases fails : pos % 2^32 = 2^32 - 1
  · rw [if_pos fails,Prod.mk.injEq,← List.length_eq_zero_iff]
    constructor
    · rintro ⟨empty,_⟩
      omega
    · intro within
      exact ⟨by omega,rfl⟩
  · rw [if_neg fails,Prod.mk.injEq,moved_same there,int32_same]
    unfold restored
    split <;> omega

theorem limit_small (f : File) : limit f < 2^31 := by
  unfold limit
  split <;> decide

-- What the block holds is the data when it is large enough and the read gets it all.
theorem filled_same (positive : f.contents ≠ []) : (some ⟨(int32 f.contents.length).toNat,if f.readable then
      fetch f.contents 0 (min (int32 f.contents.length).toNat MAX_RW_COUNT) else []⟩ : Option Block) =
      some ⟨f.contents.length,if f.readable then f.contents else []⟩ ↔ f.contents.length ≤ limit f := by
  have some_bytes := List.length_pos_of_ne_nil positive
  have size : (int32 f.contents.length).toNat = f.contents.length ↔ f.contents.length < 2^31 := by
    have same := int32_same f.contents.length
    omega
  rw [Option.some.injEq,Block.mk.injEq,size]
  unfold limit
  cases f.readable with
  | false =>
    simp only [Bool.false_eq_true,if_false,and_true]
    omega
  | true =>
    simp only [if_true]
    constructor
    · rintro ⟨small,whole⟩
      have length := congrArg List.length whole
      rw [fetch_length,size.mpr small] at length
      omega
    · intro within
      have small : f.contents.length < 2^31 := Nat.lt_of_le_of_lt within (by decide)
      refine ⟨small,fetch_all ?_⟩
      rw [size.mpr small]
      exact Nat.le_min.mpr ⟨Nat.le_refl _,within⟩

-- With the memory for it the data comes whole, and the position stays.
theorem get_data_exact (there : f.fd = some pos) : cplus_file_get_data true f =
    (if f.contents = [] then none else some ⟨f.contents.length,if f.readable then f.contents else []⟩,f) ↔
      Within (limit f) f pos := by
  rw [get_data_open there]
  have small := limit_small f
  unfold Within
  by_cases fails : pos % 2^32 = 2^32 - 1
  · rw [if_pos fails,Prod.mk.injEq]
    split
    · simp_all
    · have apart : ¬ pos < 2^31 := by omega
      simp_all
  rw [if_neg fails]
  by_cases positive : 0 < int32 f.contents.length
  · have some_bytes : f.contents ≠ [] := by
      intro nothing
      rw [nothing] at positive
      exact absurd positive (by decide)
    have kept : restored f pos % 2^32 = pos ↔ pos < 2^31 := by
      have bounded := restored_small pos positive
      unfold restored at bounded ⊢
      split at bounded <;> split <;> omega
    rw [if_pos ⟨positive,rfl⟩,if_neg some_bytes,Prod.mk.injEq,moved_same there,filled_same some_bytes,kept]
    simp [some_bytes]
  · rw [if_neg fun both => positive both.1]
    by_cases nothing : f.contents = []
    · have kept : restored f pos = pos ↔ pos < 2^31 := by
        unfold restored
        rw [nothing,List.length_nil]
        split <;> omega
      rw [if_pos nothing,Prod.mk.injEq,moved_same there,kept,and_iff_right rfl,nothing,List.length_nil,
        and_iff_right (Nat.zero_le _)]
      omega
    · have some_bytes := List.length_pos_of_ne_nil nothing
      have same := int32_same f.contents.length
      rw [if_neg nothing,Prod.mk.injEq]
      constructor
      · rintro ⟨same,_⟩
        cases same
      · intro within
        omega

-- Without it the position stays where it can be restored.
theorem get_data_refused (there : f.fd = some pos) : cplus_file_get_data false f = (none,f) ↔ Restored f pos := by
  rw [get_data_open there]
  unfold Restored
  by_cases fails : pos % 2^32 = 2^32 - 1
  · rw [if_pos fails]
    exact iff_of_true rfl (.inr (.inl fails))
  · rw [if_neg fails,if_neg fun both => Bool.false_ne_true both.2,Prod.mk.injEq,moved_same there,and_iff_right rfl]
    unfold restored
    split <;> omega

-- No read or write moves more than an int32_t can count.
theorem read_counted (f : File) (size : Nat) : int32 (read f size).1 = (read f size).1 := by
  unfold read
  split
  · rfl
  · split
    · have most : min size MAX_RW_COUNT < 2^31 := Nat.lt_of_le_of_lt (Nat.min_le_right _ _) (by decide)
      rw [int32_same]
      simp only [fetch_length]
      omega
    · rfl

theorem write_counted (accepted : Option Nat) (f : File) (buffer : List UInt8) :
    int32 (write accepted f buffer).1 = (write accepted f buffer).1 := by
  unfold write
  split
  · rename_i accepted _
    split
    · have most : min accepted MAX_RW_COUNT < 2^31 := Nat.lt_of_le_of_lt (Nat.min_le_right _ _) (by decide)
      rw [int32_same]
      simp only [List.length_take]
      omega
    · rfl
  · rfl

theorem read_exact (f : File) (size : Nat) : perform f (.read size) = ideal f (.read size) := by
  simp only [perform,ideal,cplus_file_read]
  split
  · rw [← read_counted f size]
    simp only [read_counted]
  · rfl

theorem write_exact (f : File) (buffer : List UInt8) (accepted : Option Nat) :
    perform f (.write buffer accepted) = ideal f (.write buffer accepted) := by
  simp only [perform,ideal,cplus_file_write]
  split
  · simp only [write_counted]
  · rfl

theorem move_pos_exact (there : f.fd = some pos) (whence : CPLUS_FILE_POS) (offset : Int) (refused : Bool) :
    perform f (.move_pos whence offset refused) = ideal f (.move_pos whence offset refused) ↔
      refused = true ∨ target f pos (int32 offset) whence < 2^31 := by
  simp only [perform,ideal,cplus_file_move_pos,lseek,there]
  cases refused with
  | true => simp
  | false =>
    by_cases valid : 0 ≤ target f pos (int32 offset) whence
    · have same := int32_same (target f pos (int32 offset) whence)
      simp only [valid,if_true,if_false,Bool.false_eq_true,Prod.map,id,Prod.mk.injEq,Answer.res.injEq,and_true,false_or,same]
      omega
    · have failed : int32 (-1) = -1 := by decide
      simp only [valid,if_false,Bool.false_eq_true,failed,false_or,true_iff]
      omega

theorem perform_closed (closed : f.fd = none) (call : Call) : perform f call = ideal f call := by
  have failed : int32 (-1) = -1 := by decide
  cases call with
  | read size => exact read_exact f size
  | write buffer accepted => exact write_exact f buffer accepted
  | open_ opens => rfl
  | close => rfl
  | resize size granted => rfl
  | move_pos whence offset refused =>
    simp only [perform,ideal,cplus_file_move_pos,lseek_closed closed,failed]
    split <;> rfl
  | get_cur_pos => simp [perform,ideal,cplus_file_get_cur_pos,lseek_closed closed,failed,closed]
  | reset_pos =>
    have same : {f with fd := none} = f := by rw [← closed]
    simp only [perform,ideal,cplus_file_reset_pos,reset_pos,lseek_closed closed,failed,closed,Prod.map,id,Option.map_none,
      Option.elim_none,same]
  | get_data_size => simp [perform,ideal,cplus_file_get_data_size,get_size_closed closed,closed]
  | get_data memory => simp [perform,ideal,cplus_file_get_data,get_size_closed closed,closed]

-- A call does what it is for exactly when the file allows it.
theorem perform_exact (f : File) (call : Call) : perform f call = ideal f call ↔ Fits f call := by
  cases there : f.fd with
  | none =>
    refine iff_of_true (perform_closed there call) fun pos here => ?_
    rw [there] at here
    cases here
  | some pos =>
    have fits : Fits f call ↔ Allows f pos call := by
      constructor
      · intro fits
        exact fits pos there
      · intro allows other here
        rw [there] at here
        cases here
        exact allows
    rw [fits]
    cases call with
    | read size => exact iff_of_true (read_exact f size) trivial
    | write buffer accepted => exact iff_of_true (write_exact f buffer accepted) trivial
    | open_ opens => exact iff_of_true rfl trivial
    | close => exact iff_of_true rfl trivial
    | resize size granted => exact iff_of_true rfl trivial
    | move_pos whence offset refused => exact move_pos_exact there whence offset refused
    | get_cur_pos =>
      have same := int32_same pos
      simp only [perform,ideal,cplus_file_get_cur_pos,lseek_curr there,there,Prod.map,id,Option.elim_some,Prod.mk.injEq,
        Answer.res.injEq,and_true,same,Allows]
      omega
    | reset_pos =>
      have zero : int32 0 = 0 := by decide
      refine iff_of_true ?_ trivial
      simp [perform,ideal,cplus_file_reset_pos,reset_pos,lseek_start there,there,zero]
    | get_data_size =>
      have exact := get_size_exact there
      simp only [perform,ideal,cplus_file_get_data_size,there,Option.elim_some,Allows,← exact]
      simp [Prod.ext_iff]
    | get_data memory =>
      cases memory with
      | true =>
        simp only [Allows,← get_data_exact there]
        simp [perform,ideal,there,Prod.ext_iff]
      | false =>
        simp only [Allows,← get_data_refused there]
        simp [perform,ideal,there,Prod.ext_iff]

-- A session, with what each call answers and leaves.
def trace (step : File → Call → Answer × File) : List Call → File → List (Answer × File)
  | [],_ => []
  | call :: calls,f => step f call :: trace step calls (step f call).2

def Fitting : List Call → File → Prop
  | [],_ => True
  | call :: calls,f => Fits f call ∧ Fitting calls (ideal f call).2

-- However the calls follow on each other, files opened and closed, all of them do what
-- they are for exactly as long as the file allows each.
theorem sessions_agree (calls : List Call) (f : File) : trace perform calls f = trace ideal calls f ↔ Fitting calls f := by
  induction calls generalizing f with
  | nil => simp [trace,Fitting]
  | cons call calls ih =>
    rw [trace,trace,List.cons.injEq,Fitting,← perform_exact,← ih]
    constructor
    · rintro ⟨same,later⟩
      refine ⟨same,?_⟩
      rwa [same] at later
    · rintro ⟨same,later⟩
      refine ⟨same,?_⟩
      rwa [same]

def after (calls : List Call) (f : File) : File := calls.foldl (fun f call => (perform f call).2) f

-- What the file system takes of a list of buffers.
def taken (chunks : List (List UInt8 × Option Nat)) : List UInt8 :=
  chunks.flatMap fun (buffer,accepted) => buffer.take (min (accepted.getD 0) MAX_RW_COUNT)

def writes (chunks : List (List UInt8 × Option Nat)) : List Call := chunks.map fun (buffer,accepted) => .write buffer accepted

-- Where the next write goes.
def start (f : File) (pos : Nat) : Nat := if f.append then f.contents.length else pos

def received : List Nat → File → List UInt8
  | [],_ => []
  | size :: sizes,f =>
    let (_,bytes,f) := cplus_file_read f size
    bytes ++ received sizes f

def capacity : List Nat → Nat
  | [] => 0
  | size :: sizes => min size MAX_RW_COUNT + capacity sizes

-- Calls that leave the bytes of the file as they are.
def Call.looks : Call → Bool
  | .write _ _ => false
  | .resize _ _ => false
  | _ => true

theorem start_after (f : File) (pos : Nat) (bytes : List UInt8) :
    start {f with contents := overwrite f.contents (start f pos) bytes,fd := some (start f pos + bytes.length)}
      (start f pos + bytes.length) = start f pos + bytes.length := by
  unfold start
  by_cases append : f.append = true
  · simp only [append,if_true,overwrite_end,List.length_append]
  · simp only [append,if_false,Bool.false_eq_true]

theorem write_effect (there : f.fd = some pos) (writable : f.writable = true) (buffer : List UInt8) (accepted : Option Nat) :
    ∃ g next, (perform f (.write buffer accepted)).2 = g ∧
      g = {f with contents := overwrite f.contents (start f pos) (taken [(buffer,accepted)]),fd := some next} ∧
        start g next = start f pos + (taken [(buffer,accepted)]).length := by
  have unchanged (same : (perform f (.write buffer accepted)).2 = f) (nothing : taken [(buffer,accepted)] = []) :
      ∃ g next, (perform f (.write buffer accepted)).2 = g ∧
        g = {f with contents := overwrite f.contents (start f pos) (taken [(buffer,accepted)]),fd := some next} ∧
          start g next = start f pos + (taken [(buffer,accepted)]).length := by
    refine ⟨f,pos,same,?_,?_⟩
    · rw [nothing,overwrite_nil,← there]
    · rw [nothing]
      rfl
  cases accepted with
  | none =>
    apply unchanged
    · simp only [perform,cplus_file_write,write,there]
      split <;> rfl
    · simp [taken]
  | some accepted =>
    by_cases something : 0 < buffer.length
    · refine ⟨_,_,?_,rfl,start_after f pos (taken [(buffer,some accepted)])⟩
      simp [perform,cplus_file_write,write,there,writable,something,taken,start]
    · have empty : buffer = [] := List.length_eq_zero_iff.mp (by omega)
      apply unchanged
      · simp [perform,cplus_file_write,empty]
      · simp [taken,empty]

-- However the bytes are cut for the writes, they follow on each other.
theorem writes_effect (writable : f.writable = true) (there : f.fd = some pos) (chunks : List (List UInt8 × Option Nat)) :
    ∃ next, after (writes chunks) f = {f with contents := overwrite f.contents (start f pos) (taken chunks),fd := some next} := by
  induction chunks generalizing f pos with
  | nil => exact ⟨pos,by simp [after,writes,taken,← there]⟩
  | cons chunk chunks ih =>
    obtain ⟨g,next,performed,same,goes_on⟩ := write_effect there writable chunk.1 chunk.2
    have opened : g.fd = some next := by rw [same]
    have still : g.writable = true := by rw [same]; exact writable
    obtain ⟨last,rest⟩ := ih still opened
    have together : taken (chunk :: chunks) = taken [chunk] ++ taken chunks := by simp [taken]
    refine ⟨last,?_⟩
    rw [together,← overwrite_overwrite,← goes_on]
    have first : after (writes (chunk :: chunks)) f = after (writes chunks) g := by rw [← performed]; rfl
    rw [first,rest,same]

-- However they are cut for the reads, they are read in that order.
theorem received_all (readable : f.readable = true) (there : f.fd = some pos) (sizes : List Nat) :
    received sizes f = fetch f.contents pos (capacity sizes) := by
  induction sizes generalizing f pos with
  | nil => exact (fetch_zero _ _).symm
  | cons size sizes ih =>
    rw [received,cplus_file_read,capacity]
    by_cases something : 0 < size
    · rw [if_pos something,read,there]
      dsimp only
      rw [if_pos readable]
      dsimp only
      rw [ih (f := {f with fd := some (pos + (fetch f.contents pos (min size MAX_RW_COUNT)).length)}) readable rfl]
      exact fetch_fetch f.contents pos (min size MAX_RW_COUNT) (capacity sizes)
    · have none : min size MAX_RW_COUNT = 0 := by omega
      rw [if_neg something,none,Nat.zero_add]
      exact ih readable there

theorem lseek_moves (f : File) (offset : Int) (whence : CPLUS_FILE_POS) : ∃ fd, (lseek f offset whence).2 = {f with fd := fd} := by
  unfold lseek
  split
  · exact ⟨f.fd,rfl⟩
  · dsimp only
    split
    · exact ⟨_,rfl⟩
    · exact ⟨f.fd,rfl⟩

theorem get_size_moves (f : File) : ∃ fd, (get_size f).2 = {f with fd := fd} := by
  cases there : f.fd with
  | none => exact ⟨f.fd,by rw [get_size_closed there]⟩
  | some pos =>
    rw [get_size_open there]
    split
    · exact ⟨f.fd,rfl⟩
    · exact ⟨_,rfl⟩

theorem get_data_moves (f : File) (memory : Bool) : ∃ fd, (cplus_file_get_data memory f).2 = {f with fd := fd} := by
  cases there : f.fd with
  | none =>
    rw [cplus_file_get_data,get_size_closed there]
    exact ⟨f.fd,rfl⟩
  | some pos =>
    rw [get_data_open there]
    split
    · exact ⟨f.fd,rfl⟩
    · split
      · exact ⟨_,rfl⟩
      · exact ⟨_,rfl⟩

-- The position may be lost, but no byte.
theorem looks_keep (untruncated : f.trunc = false) {call : Call} (looks : call.looks = true) :
    ∃ fd, (perform f call).2 = {f with fd := fd} := by
  cases call with
  | write buffer accepted => cases looks
  | resize size granted => cases looks
  | open_ opens =>
    simp only [perform,cplus_file_open]
    split
    · exact ⟨f.fd,rfl⟩
    · split
      · exact ⟨some 0,by simp [untruncated]⟩
      · exact ⟨f.fd,rfl⟩
  | close =>
    simp only [perform,cplus_file_close]
    split
    · exact ⟨f.fd,rfl⟩
    · exact ⟨none,rfl⟩
  | read size =>
    simp only [perform,cplus_file_read]
    split
    · cases there : f.fd with
      | none =>
        rw [read,there]
        exact ⟨f.fd,rfl⟩
      | some pos =>
        obtain ⟨next,moved⟩ := read_moves there size
        exact ⟨some next,moved⟩
    · exact ⟨f.fd,rfl⟩
  | move_pos whence offset refused =>
    simp only [perform,cplus_file_move_pos]
    split
    · exact ⟨f.fd,rfl⟩
    · exact lseek_moves f (int32 offset) whence
  | get_cur_pos => exact lseek_moves f 0 .POS_CURR
  | reset_pos => exact lseek_moves f 0 .POS_START
  | get_data_size => exact get_size_moves f
  | get_data memory => exact get_data_moves f memory

theorem session_keeps (untruncated : f.trunc = false) (calls : List Call) (looks : ∀ call ∈ calls, call.looks = true) :
    ∃ fd, after calls f = {f with fd := fd} := by
  induction calls generalizing f with
  | nil => exact ⟨f.fd,rfl⟩
  | cons call calls ih =>
    obtain ⟨fd,moved⟩ := looks_keep untruncated (looks call List.mem_cons_self)
    have still : (perform f call).2.trunc = false := by rw [moved]; exact untruncated
    obtain ⟨last,rest⟩ := ih still fun other member => looks other (List.mem_cons_of_mem _ member)
    have first : after (call :: calls) f = after calls (perform f call).2 := rfl
    exact ⟨last,by rw [first,rest,moved]⟩

-- What was written, in pieces of any size that the file system took more or less of, is
-- read back in pieces of any size, whatever was looked at in between and however often
-- the file was closed and opened again, if it starts where an int32_t leads to.
theorem written_back (readable : f.readable = true) (writable : f.writable = true) (untruncated : f.trunc = false)
    (there : f.fd = some pos) (reach : start f pos < 2^31) (chunks : List (List UInt8 × Option Nat)) (between : List Call)
    (looks : ∀ call ∈ between, call.looks = true) (opened : (after (writes chunks ++ between) f).fd ≠ none) (sizes : List Nat) :
    (received sizes (after (writes chunks ++ between ++ [.move_pos .POS_START (start f pos) false]) f)).take (taken chunks).length =
      (taken chunks).take (capacity sizes) := by
  obtain ⟨next,written⟩ := writes_effect writable there chunks
  have first : after (writes chunks ++ between) f = after between (after (writes chunks) f) := List.foldl_append
  have still : (after (writes chunks) f).trunc = false := by rw [written]; exact untruncated
  obtain ⟨fd,same⟩ := session_keeps still between looks
  rw [← first,written] at same
  obtain ⟨q,here⟩ := Option.ne_none_iff_exists'.mp opened
  have moved : after (writes chunks ++ between ++ [.move_pos .POS_START (start f pos) false]) f =
      {f with contents := overwrite f.contents (start f pos) (taken chunks),fd := some (start f pos)} := by
    have last : after (writes chunks ++ between ++ [.move_pos .POS_START (start f pos) false]) f =
        (lseek (after (writes chunks ++ between) f) (int32 (start f pos)) .POS_START).2 := List.foldl_append
    rw [last,(int32_same (start f pos)).mpr (by omega),lseek_start here,if_pos (Int.natCast_nonneg _),Int.toNat_natCast,same]
  have whole := received_all (f := {f with contents := overwrite f.contents (start f pos) (taken chunks),fd := some (start f pos)})
    readable rfl sizes
  rw [moved,whole,fetch,List.take_take,Nat.min_comm,← List.take_take]
  congr 1
  exact fetch_overwrite f.contents (start f pos) (taken chunks)

-- Eleven bytes in two writes, the second of which is short at first, a question about the
-- size, a close and an open.
def hello : List (List UInt8 × Option Nat) := [([72,101,108,108,111],some 5),([32,87,111,114,108,100],some 2),([111,114,108,100],some 4)]

theorem hello_back : ∃ g, after (writes hello ++ [.get_data_size,.close,.open_ true] ++ [.move_pos .POS_START 0 false])
      ⟨true,true,false,false,[],some 0⟩ = g ∧
    (received [4,4,4] g).take 11 = [72,101,108,108,111,32,87,111,114,108,100] := by
  have back := written_back (f := ⟨true,true,false,false,[],some 0⟩) rfl rfl rfl rfl (by decide) hello [.get_data_size,.close,.open_ true]
    (by decide) (by decide) [4,4,4]
  exact ⟨_,rfl,back⟩

end Libcplus.FileData
