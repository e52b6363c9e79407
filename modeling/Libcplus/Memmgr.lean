import Libcplus.Bytes
import Libcplus.SinglyLinked
import Libcplus.Transition
import Libcplus.Typedef

-- The build with __CPLUS_MEM_MANAGER__: every block has a tag in front of it and one
-- behind it, and a node in a registry.
namespace Libcplus
open Bytes SinglyLinked Transition Typedef
open DoublyLinked (addresses first last first_append)

-- Where a call was made: __FILE__, __FUNCTION__ and __LINE__, which are not NULL.
structure Memmgr.Site where
  file : List Char
  function : List Char
  line : Nat

-- struct extra_info, less the link.
structure Memmgr.Info where
  mem_ref : Nat
  mem_size : Nat
  line : Nat
  file : List Char
  function : List Char

-- What the system's malloc or realloc gives: an address, and the bytes that nobody
-- has written yet.
structure Memmgr.Answer where
  mem : Nat
  garbage : Nat → UInt8

-- The variables of memmgr.c, and the system's heap: the blocks that hold a node of
-- the registry, and the others. A block is known by its address. The count is an int32_t,
-- so this is the registry while fewer than 2^31 blocks are live.
structure Memmgr where
  ptr_info_start : Option Nat
  ptr_info_last : Option Nat
  inused_mem_num : Int
  info : Heap Nat Memmgr.Info
  memory : Nat → Option (List UInt8)

namespace Memmgr

def MAX_FILE_NAME : Nat := 31
def MAX_FUNC_NAME : Nat := 63
def BEGCHK : Nat := 0x1A2A3A4A
def ENDCHK : Nat := 0x5B6B7B8B
def CLRCHK : Nat := 0xABABABAB

def initial : Memmgr := ⟨none,none,0,fun _ => none,fun _ => none⟩

-- The system's allocator. A block that is freed must be there.
def malloc (a : Answer) (size : Nat) : List UInt8 := (List.range size).map a.garbage

def free (memory : Nat → Option (List UInt8)) (mem : Nat) : Option (Nat → Option (List UInt8)) :=
  (memory mem).map fun _ => Function.update memory mem none

-- A realloc to nothing frees the block; one that fails leaves it.
def realloc (memory : Nat → Option (List UInt8)) (mem size : Nat) (answer : Option Answer) :
    Option ((Nat → Option (List UInt8)) × Option Nat) :=
  (memory mem).map fun block =>
    if size = 0 then (Function.update memory mem none,none)
    else match answer with
      | none => (memory,none)
      | some a =>
        let moved := block.take size ++ ((List.range size).drop block.length).map a.garbage
        (Function.update (Function.update memory mem none) a.mem (some moved),some a.mem)

def write (memory : Nat → Option (List UInt8)) (mem start : Nat) (bytes : List UInt8) :
    Option (Nat → Option (List UInt8)) :=
  (memory mem).bind fun block => (splice block start bytes).map fun written =>
    Function.update memory mem (some written)

def after_last (c : Char) (path : List Char) : List Char := (path.reverse.takeWhile (· ≠ c)).reverse

def cplus_sys_skip_file_path (path : List Char) : List Char :=
  if '\\' ∈ path then after_last '\\' path
  else if '/' ∈ path then after_last '/' path
  else path

-- What snprintf leaves of a text in a buffer of this size.
def printed (size : Nat) (text : List Char) : List Char := text.take (size - 1)

def extra_info (mem_ref size : Nat) (site : Site) : Info where
  mem_ref := mem_ref
  mem_size := size
  line := site.line
  file := printed MAX_FILE_NAME (cplus_sys_skip_file_path site.file)
  function := printed MAX_FUNC_NAME site.function

-- `none` is an access through a pointer that points to nothing.
def add_mem_info (s : Memmgr) (ex : Option Nat) (mem_ref size : Nat) (site : Site) : Option Memmgr :=
  match ex with
  | none => some s
  | some ex =>
    let info := Function.update s.info ex (some ⟨extra_info mem_ref size site,none⟩)
    match s.ptr_info_start with
    | none => some {s with
        info := info
        ptr_info_start := some ex
        ptr_info_last := some ex
        inused_mem_num := s.inused_mem_num + 1}
    | some _ =>
      s.ptr_info_last.bind fun last => (info last).map fun tail => {s with
        info := Function.update info last (some {tail with next := some ex})
        ptr_info_last := some ex
        inused_mem_num := s.inused_mem_num + 1}

-- The loops go along the registry, which has as many nodes as are counted.
def nodes (s : Memmgr) : Nat := s.inused_mem_num.toNat

def find_loop (s : Memmgr) (mem_addr : Nat) : Nat → Option Nat → Option (Option Info)
  | _,none => some none
  | 0,some _ => none
  | fuel + 1,some ptr_temp => (s.info ptr_temp).bind fun node =>
      if node.data.mem_ref = mem_addr then some (some node.data)
      else find_loop s mem_addr fuel node.next

def find_mem_info (s : Memmgr) (mem_addr : Nat) : Option (Option Info) :=
  s.find_loop mem_addr s.nodes s.ptr_info_start

-- The node is freed, and its neighbour in front points past it. A node that was the
-- only one leaves ptr_info_last as it is.
def unlink (s : Memmgr) (ptr_temp : Nat) (node : Node Nat Info) (ptr_temp_prev : Option Nat) : Option Memmgr :=
  if some ptr_temp = s.ptr_info_start then some {s with ptr_info_start := node.next}
  else if some ptr_temp = s.ptr_info_last then
    ptr_temp_prev.bind fun prev => (s.info prev).map fun tail => {s with
      ptr_info_last := ptr_temp_prev
      info := Function.update s.info prev (some {tail with next := none})}
  else
    ptr_temp_prev.bind fun prev => (s.info prev).map fun tail => {s with
      info := Function.update s.info prev (some {tail with next := node.next})}

def erase_loop (s : Memmgr) (mem_addr : Nat) : Nat → Option Nat → Option Nat → Option Memmgr
  | _,none,_ => some s
  | 0,some _,_ => none
  | fuel + 1,some ptr_temp,ptr_temp_prev => (s.info ptr_temp).bind fun node =>
      if node.data.mem_ref = mem_addr then
        (s.unlink ptr_temp node ptr_temp_prev).map fun (t : Memmgr) => {t with
          info := Function.update t.info ptr_temp none
          inused_mem_num := t.inused_mem_num - 1}
      else erase_loop s mem_addr fuel node.next (some ptr_temp)

def erase_mem_info (s : Memmgr) (mem_addr : Nat) : Option Memmgr :=
  s.erase_loop mem_addr s.nodes s.ptr_info_start none

def check_boundary (s : Memmgr) (entire : Nat) : Option Int :=
  (s.find_mem_info (entire + 4)).bind fun found =>
    match found with
    | none => some CPLUS_SUCCESS
    | some info => (s.memory entire).bind fun block =>
      (slice block 0 4).bind fun begin_tag =>
      if readLittle begin_tag = CLRCHK then some CPLUS_FAIL
      else if BEGCHK ≠ readLittle begin_tag then some CPLUS_FAIL
      else (slice block (4 + info.mem_size) 4).map fun tag =>
        if tag ≠ littleEndian32 ENDCHK then CPLUS_FAIL else CPLUS_SUCCESS

-- The two tags of a block for `size` bytes.
def guard_block (memory : Nat → Option (List UInt8)) (mem size : Nat) : Option (Nat → Option (List UInt8)) :=
  (write memory mem 0 (littleEndian32 BEGCHK)).bind fun memory =>
    write memory mem (4 + size) (littleEndian32 ENDCHK)

def cplus_mgr_malloc (s : Memmgr) (size : Nat) (site : Site) (answer : Option Answer) (ex : Option Nat) :
    Option (Memmgr × Option Nat) :=
  if size = 0 then some (s,none)
  else match answer with
    | none => some (s,none)
    | some a =>
      (guard_block (Function.update s.memory a.mem (some (malloc a (size + 2 * 4)))) a.mem size).bind
        fun memory => (add_mem_info {s with memory := memory} ex (a.mem + 4) size site).map fun t =>
          (t,some (a.mem + 4))

-- A failed assertion is `none` as well. new_size is a uint32_t.
def cplus_mgr_realloc (s : Memmgr) (ptr : Option Nat) (size : Nat) (site : Site) (answer : Option Answer)
    (ex : Option Nat) : Option (Memmgr × Option Nat) :=
  match ptr with
  | none => some (s,none)
  | some ptr =>
    let entire := ptr - 4
    let new_size := if size = 0 then 0 else (size + 2 * 4) % 2^32
    if s.check_boundary entire = some CPLUS_SUCCESS then
      (s.erase_mem_info ptr).bind fun s =>
        (realloc s.memory entire new_size answer).bind fun (result : (Nat → Option (List UInt8)) × Option Nat) =>
          match result.2 with
          | none =>
            if size ≠ 0 then (free result.1 entire).map fun memory => ({s with memory := memory},none)
            else some ({s with memory := result.1},none)
          | some mem => (guard_block result.1 mem size).bind fun memory =>
            (add_mem_info {s with memory := memory} ex (mem + 4) size site).map fun t => (t,some (mem + 4))
    else none

def EINVAL : Int := 22

def cplus_mgr_free (s : Memmgr) (ptr : Option Nat) : Option (Memmgr × Int) :=
  match ptr with
  | none => some (s,EINVAL)
  | some ptr =>
    let entire := ptr - 4
    if s.check_boundary entire = some CPLUS_SUCCESS then
      (write s.memory entire 0 (littleEndian32 CLRCHK)).bind fun memory =>
        (erase_mem_info {s with memory := memory} ptr).bind fun s =>
          (free s.memory entire).map fun memory => ({s with memory := memory},CPLUS_SUCCESS)
    else none

-- What the report prints, a record for each node; its result is their number.
def report_loop (s : Memmgr) : Nat → Option Nat → Option (List Info)
  | _,none => some []
  | 0,some _ => none
  | fuel + 1,some ptr_temp => (s.info ptr_temp).bind fun node =>
      (report_loop s fuel node.next).map fun records => node.data :: records

def cplus_mgr_report_in_file (s : Memmgr) : Option (List Info × Nat) :=
  (s.report_loop s.nodes s.ptr_info_start).map fun records => (records,records.length)

-- The bytes of a block as its owner sees them.
def contents (s : Memmgr) (ptr size : Nat) : List UInt8 :=
  (((s.memory (ptr - 4)).getD []).drop 4).take size

-- A program that uses the manager: what it has, with the sizes it asked for, and what
-- its last malloc or realloc returned.
structure Session where
  mgr : Memmgr
  live : List (Nat × Nat)
  returned : Option Nat

inductive Action where
  | malloc (size : Nat) (site : Site) (answer : Option Answer) (ex : Option Nat)
  | realloc (ptr size : Nat) (site : Site) (answer : Option Answer) (ex : Option Nat)
  | free (ptr : Nat)
  | write (ptr offset : Nat) (value : UInt8)

def MAX_SIZE : Nat := 2^32 - 9

-- The system gives a block that is not in use, and the node of the registry gets one.
def Fresh (s : Memmgr) (answer : Option Answer) (ex : Option Nat) : Prop :=
  (∀ a ∈ answer, (s.memory a.mem).isNone) ∧ ∃ p ∈ ex, (s.info p).isNone

instance (s : Memmgr) (answer : Option Answer) (ex : Option Nat) : Decidable (Fresh s answer ex) := by
  unfold Fresh
  infer_instance

-- The calls that a program may make: on what it has, and inside the sizes. A realloc
-- has given the node back, and may have given the block back, when it asks for others.
def Allowed (s : Session) : Action → Prop
  | .malloc size _ answer ex => size ≤ MAX_SIZE ∧ Fresh s.mgr answer ex
  | .realloc ptr size _ answer ex => ptr ∈ s.live.map Prod.fst ∧ size ≤ MAX_SIZE ∧
      Fresh {(s.mgr.erase_mem_info ptr).getD s.mgr with
        memory := Function.update s.mgr.memory (ptr - 4) none} answer ex
  | .free ptr => ptr ∈ s.live.map Prod.fst
  | .write ptr offset _ => ∃ b ∈ s.live, b.1 = ptr ∧ offset < b.2

instance (s : Session) (a : Action) : Decidable (Allowed s a) := by
  cases a <;> unfold Allowed <;> infer_instance

def gains (live : List (Nat × Nat)) (size : Nat) (returned : Option Nat) : List (Nat × Nat) :=
  live ++ (returned.map fun ptr => (ptr,size)).toList

def loses (live : List (Nat × Nat)) (ptr : Nat) : List (Nat × Nat) := live.eraseP fun b => b.1 = ptr

def call (s : Session) : Action → Option Session
  | .malloc size site answer ex => (s.mgr.cplus_mgr_malloc size site answer ex).map
      fun (result : Memmgr × Option Nat) => ⟨result.1,gains s.live size result.2,result.2⟩
  | .realloc ptr size site answer ex => (s.mgr.cplus_mgr_realloc (some ptr) size site answer ex).map
      fun (result : Memmgr × Option Nat) => ⟨result.1,gains (loses s.live ptr) size result.2,result.2⟩
  | .free ptr => (s.mgr.cplus_mgr_free (some ptr)).map
      fun (result : Memmgr × Int) => {s with mgr := result.1,live := loses s.live ptr}
  | .write ptr offset value => (write s.mgr.memory (ptr - 4) (4 + offset) [value]).map
      fun memory => {s with mgr := {s.mgr with memory := memory}}

def advance (s : Session) (a : Action) : Option Session := if Allowed s a then call s a else none

abbrev Step : Session → Action → Session → Prop := Follows advance

def start : Session := ⟨initial,[],none⟩

-- The block with other bytes in it.
def overwritten (s : Memmgr) (ptr : Nat) (bytes : List UInt8) : Memmgr :=
  {s with memory := Function.update s.memory (ptr - 4) (some bytes)}

-- The registry is what is live, each once and with its size; the report counts it; the
-- boundary of a live block is in order, and is not if a byte of a tag is another. No
-- call aborts or reads outside a block.
structure Tracked (s : Session) : Prop where
  registry : ∃ records, s.mgr.cplus_mgr_report_in_file = some (records,s.live.length) ∧
    records.map (fun info => (info.mem_ref,info.mem_size)) = s.live
  once : (s.live.map Prod.fst).Nodup
  in_use : s.mgr.inused_mem_num = s.live.length
  boundary : ∀ b ∈ s.live, s.mgr.check_boundary (b.1 - 4) = some CPLUS_SUCCESS
  guarded : ∀ b ∈ s.live, ∀ bytes : List UInt8, bytes.length = b.2 + 8 →
    ((s.mgr.overwritten b.1 bytes).check_boundary (b.1 - 4) = some CPLUS_FAIL ↔
      bytes.take 4 ≠ littleEndian32 BEGCHK ∨ bytes.drop (4 + b.2) ≠ littleEndian32 ENDCHK)
  sizes : ∀ b ∈ s.live, ∃ bytes, s.mgr.memory (b.1 - 4) = some bytes ∧ bytes.length = b.2 + 8
  calls : ∀ a, Allowed s a → (call s a).isSome = true

-- A realloc that returns a block has copied what fits into it.
def Preserves (m : Move Session Action) : Prop :=
  match m.action with
  | .realloc ptr size _ _ _ => ∀ old moved, (ptr,old) ∈ m.before.live → m.after.returned = some moved →
      (m.after.mgr.contents moved size).take (min old size) =
        (m.before.mgr.contents ptr old).take (min old size)
  | _ => True

structure Registers (s : Memmgr) (cells : List (Nat × Info)) : Prop where
  linked : Linked s.info cells none
  start : s.ptr_info_start = first cells none
  last : cells ≠ [] → s.ptr_info_last = last none cells
  nodup : (addresses cells).Nodup
  count : s.inused_mem_num = cells.length

variable {s t : Memmgr} {cells left right : List (Nat × Info)} {cell : Nat × Info} {mem_addr : Nat}

theorem Registers.nodes (registers : Registers s cells) : s.nodes = cells.length := by
  unfold Memmgr.nodes
  rw [registers.count]
  exact Int.toNat_natCast _

theorem find_loop_spec (linked : Linked s.info cells none) {fuel : Nat} (enough : cells.length ≤ fuel) :
    s.find_loop mem_addr fuel (first cells none) =
      some ((cells.find? fun c => c.2.mem_ref = mem_addr).map Prod.snd) := by
  induction cells generalizing fuel with
  | nil => cases fuel <;> rfl
  | cons cell rest ih =>
    obtain ⟨here,later⟩ := linked
    cases fuel with
    | zero => cases enough
    | succ fuel =>
      have tail := ih later (Nat.le_of_succ_le_succ enough)
      have head : first (cell :: rest) none = some cell.1 := rfl
      rw [head]
      simp only [find_loop,here,Option.bind_some]
      by_cases found : cell.2.mem_ref = mem_addr
      · simp [found]
      · simp [found,tail]

theorem find_mem_info_spec (registers : Registers s cells) (mem_addr : Nat) :
    s.find_mem_info mem_addr = some ((cells.find? fun c => c.2.mem_ref = mem_addr).map Prod.snd) := by
  unfold find_mem_info
  rw [registers.nodes,registers.start]
  exact find_loop_spec registers.linked (Nat.le_refl _)

theorem report_loop_spec (linked : Linked s.info cells none) {fuel : Nat} (enough : cells.length ≤ fuel) :
    s.report_loop fuel (first cells none) = some (cells.map Prod.snd) := by
  induction cells generalizing fuel with
  | nil => cases fuel <;> rfl
  | cons cell rest ih =>
    obtain ⟨here,later⟩ := linked
    cases fuel with
    | zero => cases enough
    | succ fuel =>
      have tail := ih later (Nat.le_of_succ_le_succ enough)
      have head : first (cell :: rest) none = some cell.1 := rfl
      rw [head]
      simp [report_loop,here,tail]

theorem report_spec (registers : Registers s cells) :
    s.cplus_mgr_report_in_file = some (cells.map Prod.snd,cells.length) := by
  unfold cplus_mgr_report_in_file
  rw [registers.nodes,registers.start,report_loop_spec registers.linked (Nat.le_refl _)]
  simp

-- The loop of the erase comes to the first node for the address.
theorem erase_loop_spec (linked : Linked s.info (left ++ cell :: right) none)
    (others : ∀ c ∈ left, c.2.mem_ref ≠ mem_addr) (found : cell.2.mem_ref = mem_addr) {fuel : Nat}
    (enough : left.length < fuel) (prev : Option Nat) :
    s.erase_loop mem_addr fuel (first (left ++ cell :: right) none) prev =
      (s.unlink cell.1 ⟨cell.2,first right none⟩ (last prev left)).map fun (t : Memmgr) => {t with
        info := Function.update t.info cell.1 none
        inused_mem_num := t.inused_mem_num - 1} := by
  induction left generalizing fuel prev with
  | nil =>
    cases fuel with
    | zero => cases enough
    | succ fuel =>
      have here := linked_cell linked
      simp only [List.nil_append,first,erase_loop,here,Option.bind_some,if_pos found]
      rfl
  | cons c rest ih =>
    cases fuel with
    | zero => cases enough
    | succ fuel =>
      obtain ⟨here,later⟩ := linked
      have differ := others c List.mem_cons_self
      have tail := ih later (fun d member => others d (List.mem_cons_of_mem _ member))
        (Nat.lt_of_succ_lt_succ enough) (some c.1)
      simp only [List.cons_append,first,erase_loop,here,Option.bind_some,if_neg differ]
      exact tail

theorem unlink_spec (registers : Registers s (left ++ cell :: right)) :
    ∃ t, s.unlink cell.1 ⟨cell.2,first right none⟩ (last none left) = some t ∧ t.memory = s.memory ∧
      Registers {t with
        info := Function.update t.info cell.1 none
        inused_mem_num := t.inused_mem_num - 1} (left ++ right) := by
  obtain ⟨linked,start,last_is,nodup,count⟩ := registers
  obtain ⟨nodup_left,nodup_right,apart⟩ := DoublyLinked.nodup_parts nodup
  obtain ⟨outside_right,nodup_rest⟩ := List.nodup_cons.mp nodup_right
  have outside_left : cell.1 ∉ addresses left := fun member => apart _ member List.mem_cons_self
  have rest_nodup : (addresses (left ++ right)).Nodup := by
    have sub : (left ++ right).Sublist (left ++ cell :: right) :=
      (List.Sublist.refl left).append (List.sublist_cons_self cell right)
    exact nodup.sublist (sub.map Prod.fst)
  have counted : s.inused_mem_num - 1 = ((left ++ right).length : Int) := by
    rw [count]
    simp only [List.length_append,List.length_cons]
    omega
  obtain ⟨linked_left,_,linked_right⟩ := linked_append.mp linked
  have last_rest : right ≠ [] → s.ptr_info_last = last none (left ++ right) := by
    intro more
    rw [last_is (by simp),DoublyLinked.last_append,DoublyLinked.last_append]
    exact DoublyLinked.last_front more _
  rcases List.eq_nil_or_concat left with rfl | ⟨before,prev,rfl⟩
  · refine ⟨{s with ptr_info_start := first right none},?_,rfl,?_⟩
    · unfold unlink
      have at_start : some cell.1 = s.ptr_info_start := start.symm
      rw [if_pos at_start]
    · exact ⟨linked_update linked_right outside_right none,rfl,last_rest,rest_nodup,counted⟩
  · rw [List.concat_eq_append] at *
    have more : before ++ [prev] ≠ [] := by simp
    have outside_start : ¬ some cell.1 = s.ptr_info_start := by
      rw [start,DoublyLinked.first_append,DoublyLinked.first_behind more none]
      intro same
      exact outside_left (DoublyLinked.first_member same.symm)
    have there : s.info prev.1 = some ⟨prev.2,some cell.1⟩ := by
      rw [List.append_assoc] at linked
      exact linked_cell linked
    have prev_is : last none (before ++ [prev]) = some prev.1 := DoublyLinked.last_concat
    have prev_apart : prev.1 ∉ addresses right := fun member =>
      apart prev.1 (by simp) (List.mem_cons_of_mem _ member)
    have joined : Linked (Function.update (Function.update s.info prev.1 (some ⟨prev.2,first right none⟩))
        cell.1 none) (before ++ [prev] ++ right) none := by
      apply linked_append.mpr
      constructor
      · exact linked_update (linked_relink linked_left nodup_left _) outside_left none
      · exact linked_update (linked_update linked_right prev_apart _) outside_right none
    have start_rest : s.ptr_info_start = first (before ++ [prev] ++ right) none := by
      rw [start]
      exact first_append.trans ((DoublyLinked.first_behind more _).trans first_append.symm)
    cases right with
    | nil =>
      have at_last : some cell.1 = s.ptr_info_last := by
        rw [last_is (by simp)]
        exact DoublyLinked.last_concat.symm
      refine ⟨{s with
        ptr_info_last := some prev.1
        info := Function.update s.info prev.1 (some ⟨prev.2,none⟩)},?_,rfl,?_⟩
      · unfold unlink
        rw [if_neg outside_start,if_pos at_last,prev_is,Option.bind_some,there,Option.map_some]
      · refine ⟨joined,start_rest,?_,rest_nodup,counted⟩
        intro _
        rw [List.append_nil]
        exact prev_is.symm
    | cons next rest =>
      have not_last : ¬ some cell.1 = s.ptr_info_last := by
        rw [last_rest (by simp),DoublyLinked.last_append,DoublyLinked.last_front (by simp) none]
        intro same
        exact outside_right (DoublyLinked.last_member same.symm)
      refine ⟨{s with info := Function.update s.info prev.1 (some ⟨prev.2,some next.1⟩)},?_,rfl,?_⟩
      · unfold unlink
        rw [if_neg outside_start,if_neg not_last,prev_is,Option.bind_some,there,Option.map_some]
        rfl
      · exact ⟨joined,start_rest,fun _ => last_rest (by simp),rest_nodup,counted⟩

theorem erase_mem_info_spec (registers : Registers s (left ++ cell :: right))
    (others : ∀ c ∈ left, c.2.mem_ref ≠ cell.2.mem_ref) :
    ∃ t, s.erase_mem_info cell.2.mem_ref = some t ∧ t.memory = s.memory ∧ Registers t (left ++ right) := by
  obtain ⟨t,unlinked,memory,after⟩ := unlink_spec registers
  have enough : left.length < s.nodes := by
    rw [registers.nodes]
    simp
  have erased := erase_loop_spec registers.linked others rfl enough none
  rw [unlinked,Option.map_some] at erased
  refine ⟨_,?_,?_,after⟩
  · unfold erase_mem_info
    rw [registers.start]
    exact erased
  · exact memory

theorem add_mem_info_spec (registers : Registers s cells) {p : Nat} (fresh : s.info p = none) (mem_ref size : Nat)
    (site : Site) : ∃ t, s.add_mem_info (some p) mem_ref size site = some t ∧ t.memory = s.memory ∧
      Registers t (cells ++ [(p,extra_info mem_ref size site)]) := by
  obtain ⟨linked,start,last_is,nodup,count⟩ := registers
  have outside : p ∉ addresses cells := fun member => linked_there linked member fresh
  have counted : s.inused_mem_num + 1 = ((cells ++ [(p,extra_info mem_ref size site)]).length : Int) := by
    rw [count]
    simp
  have nodup_more : (addresses (cells ++ [(p,extra_info mem_ref size site)])).Nodup := by
    rw [DoublyLinked.addresses_append]
    apply List.nodup_append.mpr
    refine ⟨nodup,List.nodup_singleton _,?_⟩
    intro a member b single
    rw [List.mem_singleton.mp single]
    rintro rfl
    exact outside member
  have last_more : last none (cells ++ [(p,extra_info mem_ref size site)]) = some p := DoublyLinked.last_concat
  rcases List.eq_nil_or_concat cells with rfl | ⟨before,tail,rfl⟩
  · have empty : s.ptr_info_start = none := start
    refine ⟨{s with
      info := Function.update s.info p (some ⟨extra_info mem_ref size site,none⟩)
      ptr_info_start := some p
      ptr_info_last := some p
      inused_mem_num := s.inused_mem_num + 1},?_,rfl,?_⟩
    · simp only [add_mem_info,empty]
    · exact ⟨⟨Function.update_self _ _ _,trivial⟩,rfl,fun _ => last_more.symm,nodup_more,counted⟩
  · rw [List.concat_eq_append] at *
    have more : before ++ [tail] ≠ [] := by simp
    have last_tail : s.ptr_info_last = some tail.1 := (last_is more).trans DoublyLinked.last_concat
    have start_some : s.ptr_info_start = first (before ++ [tail] ++ [(p,extra_info mem_ref size site)]) none := by
      rw [start]
      exact (DoublyLinked.first_behind more _).trans first_append.symm
    obtain ⟨q,there⟩ : ∃ q, s.ptr_info_start = some q := by
      rw [start]
      cases before with
      | nil => exact ⟨_,rfl⟩
      | cons cell rest => exact ⟨_,rfl⟩
    have apart : tail.1 ≠ p := by
      rintro rfl
      exact outside (by simp)
    have at_tail : s.info tail.1 = some ⟨tail.2,none⟩ := linked_cell linked
    have at_tail_still : Function.update s.info p (some ⟨extra_info mem_ref size site,none⟩) tail.1 =
        some ⟨tail.2,none⟩ := (Function.update_of_ne apart _ _).trans at_tail
    refine ⟨{s with
      info := Function.update (Function.update s.info p (some ⟨extra_info mem_ref size site,none⟩)) tail.1
        (some ⟨tail.2,some p⟩)
      ptr_info_last := some p
      inused_mem_num := s.inused_mem_num + 1},?_,rfl,?_⟩
    · simp only [add_mem_info,there,last_tail,Option.bind_some]
      rw [at_tail_still,Option.map_some]
    · refine ⟨?_,start_some,fun _ => last_more.symm,nodup_more,counted⟩
      apply linked_append.mpr
      constructor
      · exact linked_relink (linked_update linked outside _) nodup _
      · refine ⟨?_,trivial⟩
        exact (Function.update_of_ne apart.symm _ _).trans (Function.update_self _ _ _)

def entry (cell : Nat × Info) : Nat × Nat := (cell.2.mem_ref,cell.2.mem_size)

-- A block with its tags around `size` bytes.
def Intact (memory : Nat → Option (List UInt8)) (ptr size : Nat) : Prop :=
  4 ≤ ptr ∧ ∃ data, data.length = size ∧
    memory (ptr - 4) = some (littleEndian32 BEGCHK ++ data ++ littleEndian32 ENDCHK)

structure Represents (s : Memmgr) (live : List (Nat × Nat)) (cells : List (Nat × Info)) : Prop where
  registers : Registers s cells
  entries : cells.map entry = live
  once : (live.map Prod.fst).Nodup
  intact : ∀ b ∈ live, Intact s.memory b.1 b.2

variable {live : List (Nat × Nat)} {b : Nat × Nat} {memory : Nat → Option (List UInt8)} {mem size : Nat}
  {block data bytes : List UInt8}

theorem loses_between {first second : List (Nat × Nat)} (others : ∀ c ∈ first, c.1 ≠ b.1) :
    loses (first ++ b :: second) b.1 = first ++ second := by
  unfold loses
  rw [List.eraseP_append_right _ fun c member => by simpa using others c member,
    List.eraseP_cons_of_pos (by simp)]

-- The node of a live block.
theorem Represents.split (represents : Represents s live cells) (member : b ∈ live) :
    ∃ left cell right, cells = left ++ cell :: right ∧ entry cell = b ∧
      (∀ c ∈ left, c.2.mem_ref ≠ cell.2.mem_ref) ∧ loses live b.1 = (left ++ right).map entry := by
  rw [← represents.entries] at member
  obtain ⟨cell,inside,rfl⟩ := List.mem_map.mp member
  obtain ⟨left,right,rfl⟩ := List.append_of_mem inside
  have once := represents.once
  rw [← represents.entries,List.map_append,List.map_append,List.map_cons,List.map_cons] at once
  obtain ⟨_,_,apart⟩ := List.nodup_append.mp once
  have others : ∀ c ∈ left, c.2.mem_ref ≠ cell.2.mem_ref := by
    intro c earlier
    exact apart _ (List.mem_map_of_mem (List.mem_map_of_mem earlier)) _ List.mem_cons_self
  refine ⟨left,cell,right,rfl,rfl,others,?_⟩
  rw [← represents.entries,List.map_append,List.map_cons,List.map_append]
  apply loses_between
  intro c earlier
  obtain ⟨d,inside,rfl⟩ := List.mem_map.mp earlier
  exact others d inside

theorem Represents.same_block {c : Nat × Nat} (represents : Represents s live cells) (listed : c ∈ live)
    (member : b ∈ live) (same : c.1 = b.1) : c = b :=
  List.inj_on_of_nodup_map represents.once listed member same

theorem check_boundary_spec (registers : Registers s (left ++ cell :: right))
    (others : ∀ c ∈ left, c.2.mem_ref ≠ cell.2.mem_ref) (above : 4 ≤ cell.2.mem_ref)
    (there : s.memory (cell.2.mem_ref - 4) = some bytes) (length : bytes.length = cell.2.mem_size + 8) :
    s.check_boundary (cell.2.mem_ref - 4) = some (if bytes.take 4 = littleEndian32 BEGCHK ∧
      bytes.drop (4 + cell.2.mem_size) = littleEndian32 ENDCHK then CPLUS_SUCCESS else CPLUS_FAIL) := by
  have found : (left ++ cell :: right).find? (fun c => c.2.mem_ref = cell.2.mem_ref) = some cell := by
    apply List.find?_eq_some_iff_append.mpr
    exact ⟨by simp,left,right,rfl,fun c member => by simpa using others c member⟩
  have target : cell.2.mem_ref - 4 + 4 = cell.2.mem_ref := by omega
  have begin_slice : slice bytes 0 4 = some (bytes.take 4) := slice_some (by omega)
  have end_slice : slice bytes (4 + cell.2.mem_size) 4 = some (bytes.drop (4 + cell.2.mem_size)) := by
    rw [slice_some (by omega)]
    congr 1
    apply List.take_of_length_le
    rw [List.length_drop]
    omega
  have begin_length : (bytes.take 4).length = 4 := List.length_take_of_le (by omega)
  have reads : readLittle (bytes.take 4) = BEGCHK ↔ bytes.take 4 = littleEndian32 BEGCHK :=
    readLittle_iff (by decide) begin_length
  unfold check_boundary
  rw [target,find_mem_info_spec registers,found]
  simp only [Option.map_some,Option.bind_some,there,begin_slice,end_slice]
  by_cases begins : bytes.take 4 = littleEndian32 BEGCHK
  · have value := reads.mpr begins
    have not_cleared : ¬ readLittle (bytes.take 4) = CLRCHK := by
      rw [value]
      decide
    rw [if_neg not_cleared,if_neg (fun differ => differ value.symm)]
    by_cases ends : bytes.drop (4 + cell.2.mem_size) = littleEndian32 ENDCHK
    · rw [if_neg (fun differ => differ ends),if_pos ⟨begins,ends⟩]
    · rw [if_pos ends,if_neg (fun both => ends both.2)]
  · have differ : BEGCHK ≠ readLittle (bytes.take 4) := fun value => begins (reads.mp value.symm)
    have never : ¬ (bytes.take 4 = littleEndian32 BEGCHK ∧
        bytes.drop (4 + cell.2.mem_size) = littleEndian32 ENDCHK) := fun both => begins both.1
    rw [if_neg never,if_pos differ]
    split <;> rfl

theorem guarded_parts (length : data.length = size) :
    (littleEndian32 BEGCHK ++ data ++ littleEndian32 ENDCHK).length = size + 8 ∧
    (littleEndian32 BEGCHK ++ data ++ littleEndian32 ENDCHK).take 4 = littleEndian32 BEGCHK ∧
    (littleEndian32 BEGCHK ++ data ++ littleEndian32 ENDCHK).drop (4 + size) = littleEndian32 ENDCHK := by
  refine ⟨?_,?_,?_⟩
  · simp only [List.length_append,littleEndian32_length]
    omega
  · rw [List.append_assoc,← littleEndian32_length BEGCHK]
    exact List.take_left
  · have front : (littleEndian32 BEGCHK ++ data).length = 4 + size := by
      rw [List.length_append,littleEndian32_length,length]
    rw [← front]
    exact List.drop_left

theorem Represents.boundary (represents : Represents s live cells) (member : b ∈ live) :
    s.check_boundary (b.1 - 4) = some CPLUS_SUCCESS := by
  obtain ⟨left,cell,right,rfl,rfl,others,_⟩ := represents.split member
  obtain ⟨above,data,length,there⟩ := represents.intact _ member
  obtain ⟨whole,begins,ends⟩ := guarded_parts length
  have checked := check_boundary_spec represents.registers others above there whole
  rw [if_pos ⟨begins,ends⟩] at checked
  exact checked

theorem Represents.guarded (represents : Represents s live cells) (member : b ∈ live)
    (length : bytes.length = b.2 + 8) :
    (s.overwritten b.1 bytes).check_boundary (b.1 - 4) = some CPLUS_FAIL ↔
      bytes.take 4 ≠ littleEndian32 BEGCHK ∨ bytes.drop (4 + b.2) ≠ littleEndian32 ENDCHK := by
  obtain ⟨left,cell,right,rfl,rfl,others,_⟩ := represents.split member
  obtain ⟨above,_⟩ := represents.intact _ member
  obtain ⟨linked,start,last_is,nodup,count⟩ := represents.registers
  have registers : Registers (s.overwritten cell.2.mem_ref bytes) (left ++ cell :: right) :=
    ⟨linked,start,last_is,nodup,count⟩
  have there : (s.overwritten cell.2.mem_ref bytes).memory (cell.2.mem_ref - 4) = some bytes :=
    Function.update_self _ _ _
  have checked := check_boundary_spec registers others above there length
  simp only [entry]
  rw [checked,← not_and_or]
  by_cases both : bytes.take 4 = littleEndian32 BEGCHK ∧
      bytes.drop (4 + cell.2.mem_size) = littleEndian32 ENDCHK
  · rw [if_pos both]
    exact iff_of_false (by decide) (fun broken => broken both)
  · rw [if_neg both]
    exact iff_of_true rfl both

theorem write_spec (there : memory mem = some block) {start : Nat} (fits : start + bytes.length ≤ block.length) :
    write memory mem start bytes = some (Function.update memory mem
      (some (block.take start ++ bytes ++ block.drop (start + bytes.length)))) := by
  unfold write
  rw [there,Option.bind_some,splice_some fits,Option.map_some]

-- The bytes between the tags are those that were there.
theorem guard_block_spec (there : memory mem = some block) (length : block.length = size + 8) :
    guard_block memory mem size = some (Function.update memory mem
      (some (littleEndian32 BEGCHK ++ (block.drop 4).take size ++ littleEndian32 ENDCHK))) := by
  have first_fits : 0 + (littleEndian32 BEGCHK).length ≤ block.length := by
    rw [littleEndian32_length]
    omega
  have begun : (block.take 0 ++ littleEndian32 BEGCHK ++ block.drop (0 + (littleEndian32 BEGCHK).length)) =
      littleEndian32 BEGCHK ++ block.drop 4 := by simp
  have whole : (littleEndian32 BEGCHK ++ block.drop 4).length = size + 8 := by
    rw [List.length_append,littleEndian32_length,List.length_drop]
    omega
  have second_fits : 4 + size + (littleEndian32 ENDCHK).length ≤ (littleEndian32 BEGCHK ++ block.drop 4).length := by
    rw [littleEndian32_length,whole]
    omega
  unfold guard_block
  rw [write_spec there first_fits,Option.bind_some,begun,write_spec (Function.update_self _ _ _) second_fits,
    Function.update_idem]
  congr 3
  have front : (littleEndian32 BEGCHK ++ block.drop 4).take (4 + size) =
      littleEndian32 BEGCHK ++ (block.drop 4).take size := by
    rw [List.take_append,littleEndian32_length,List.take_of_length_le (by simp)]
    congr 2
    omega
  have back : (littleEndian32 BEGCHK ++ block.drop 4).drop (4 + size + (littleEndian32 ENDCHK).length) = [] := by
    apply List.drop_of_length_le
    rw [littleEndian32_length,whole]
    omega
  rw [front,back,List.append_nil]

theorem loses_member {c : Nat × Nat} {ptr : Nat} (once : (live.map Prod.fst).Nodup) (member : c ∈ loses live ptr) :
    c ∈ live ∧ c.1 ≠ ptr := by
  unfold loses at member
  induction live with
  | nil => cases member
  | cons b rest ih =>
    obtain ⟨outside,once⟩ := List.nodup_cons.mp once
    by_cases here : b.1 = ptr
    · rw [List.eraseP_cons_of_pos (by simpa using here)] at member
      refine ⟨List.mem_cons_of_mem _ member,?_⟩
      rintro rfl
      exact outside (here ▸ List.mem_map_of_mem member)
    · rw [List.eraseP_cons_of_neg (by simpa using here)] at member
      rcases List.mem_cons.mp member with rfl | later
      · exact ⟨List.mem_cons_self,here⟩
      · obtain ⟨inside,apart⟩ := ih once later
        exact ⟨List.mem_cons_of_mem _ inside,apart⟩

theorem loses_once (once : (live.map Prod.fst).Nodup) (ptr : Nat) : ((loses live ptr).map Prod.fst).Nodup :=
  once.sublist (List.eraseP_sublist.map Prod.fst)

theorem Intact.update {ptr : Nat} {content : Option (List UInt8)} (intact : Intact memory ptr size)
    (apart : ptr - 4 ≠ mem) : Intact (Function.update memory mem content) ptr size := by
  obtain ⟨above,data,length,there⟩ := intact
  exact ⟨above,data,length,(Function.update_of_ne apart _ _).trans there⟩

-- The registry and the heap lose a block together, whatever is in the heap by then.
theorem Represents.erase (represents : Represents s live cells) (member : b ∈ live)
    (memory : Nat → Option (List UInt8)) :
    ∃ t rest, erase_mem_info {s with memory := memory} b.1 = some t ∧ t.memory = memory ∧
      Represents {t with memory := Function.update s.memory (b.1 - 4) none} (loses live b.1) rest := by
  obtain ⟨left,cell,right,rfl,rfl,others,left_over⟩ := represents.split member
  obtain ⟨linked,start,last_is,nodup,count⟩ := represents.registers
  have placed : Registers {s with memory := memory} (left ++ cell :: right) := ⟨linked,start,last_is,nodup,count⟩
  obtain ⟨t,erased,same,registers⟩ := erase_mem_info_spec placed others
  obtain ⟨linked,start,last_is,nodup,count⟩ := registers
  refine ⟨t,left ++ right,erased,same,⟨⟨linked,start,last_is,nodup,count⟩,left_over.symm,
    loses_once represents.once _,?_⟩⟩
  intro c inside
  obtain ⟨inside,apart⟩ := loses_member represents.once inside
  have intact := represents.intact c inside
  apply intact.update
  have above := intact.1
  have above_here := (represents.intact _ member).1
  omega

section Gains

variable (intact : ∀ c ∈ live, Intact memory c.1 c.2) (free : memory mem = none)
include intact free

theorem gains_apart : ∀ c ∈ live, c.1 - 4 ≠ mem := by
  intro c inside same
  obtain ⟨_,_,_,there⟩ := intact c inside
  rw [same,free] at there
  cases there

theorem gains_once (once : (live.map Prod.fst).Nodup) (size : Nat) :
    ((gains live size (some (mem + 4))).map Prod.fst).Nodup := by
  simp only [gains,Option.map_some,Option.toList_some,List.map_append,List.map_cons,List.map_nil]
  apply List.nodup_append.mpr
  refine ⟨once,List.nodup_singleton _,?_⟩
  intro ptr listed other single
  obtain ⟨c,inside,rfl⟩ := List.mem_map.mp listed
  rw [List.mem_singleton.mp single]
  intro same
  exact gains_apart intact free c inside (by omega)

theorem gains_intact (length : data.length = size) : ∀ c ∈ gains live size (some (mem + 4)),
    Intact (Function.update memory mem (some (littleEndian32 BEGCHK ++ data ++ littleEndian32 ENDCHK))) c.1 c.2 := by
  intro c inside
  rcases List.mem_append.mp inside with earlier | here
  · exact (intact c earlier).update (gains_apart intact free c earlier)
  · obtain rfl : c = (mem + 4,size) := by simpa using here
    refine ⟨Nat.le_add_left 4 mem,data,length,?_⟩
    rw [Nat.add_sub_cancel]
    exact Function.update_self _ _ _

end Gains

-- They gain one together.
theorem Represents.add (represents : Represents s live cells) (free : s.memory mem = none) {p : Nat}
    (fresh : s.info p = none) (length : data.length = size) (site : Site) :
    ∃ t more, add_mem_info
        {s with
          memory := Function.update s.memory mem
            (some (littleEndian32 BEGCHK ++ data ++ littleEndian32 ENDCHK))}
        (some p) (mem + 4) size site = some t ∧
      t.memory = Function.update s.memory mem (some (littleEndian32 BEGCHK ++ data ++ littleEndian32 ENDCHK)) ∧
      Represents t (gains live size (some (mem + 4))) more := by
  obtain ⟨linked,start,last_is,nodup,count⟩ := represents.registers
  have placed : Registers
      {s with
        memory := Function.update s.memory mem
          (some (littleEndian32 BEGCHK ++ data ++ littleEndian32 ENDCHK))} cells :=
    ⟨linked,start,last_is,nodup,count⟩
  obtain ⟨t,added,memory,registers⟩ := add_mem_info_spec placed fresh (mem + 4) size site
  refine ⟨t,_,added,memory,registers,?_,gains_once represents.intact free represents.once size,?_⟩
  · rw [List.map_append,represents.entries]
    rfl
  · rw [memory]
    exact gains_intact represents.intact free length

-- A new block, with its tags.
theorem malloc_guards (memory : Nat → Option (List UInt8)) (a : Answer) (size : Nat) : ∃ data : List UInt8,
    data.length = size ∧ guard_block (Function.update memory a.mem (some (malloc a (size + 2 * 4)))) a.mem size =
      some (Function.update memory a.mem (some (littleEndian32 BEGCHK ++ data ++ littleEndian32 ENDCHK))) := by
  have length : (malloc a (size + 2 * 4)).length = size + 8 := by simp [malloc]
  have guarded := guard_block_spec (Function.update_self a.mem (some (malloc a (size + 2 * 4))) memory) length
  rw [Function.update_idem] at guarded
  refine ⟨_,?_,guarded⟩
  rw [List.length_take,List.length_drop,length]
  omega

theorem Intact.cleared {ptr : Nat} (intact : Intact memory ptr size) : ∃ cleared,
    write memory (ptr - 4) 0 (littleEndian32 CLRCHK) = some (Function.update memory (ptr - 4) (some cleared)) := by
  obtain ⟨_,data,length,there⟩ := intact
  have fits : 0 + (littleEndian32 CLRCHK).length ≤
      (littleEndian32 BEGCHK ++ data ++ littleEndian32 ENDCHK).length := by
    rw [littleEndian32_length,(guarded_parts length).1]
    omega
  exact ⟨_,write_spec there fits⟩

-- Its owner writes between the tags.
theorem Intact.write {ptr offset : Nat} (intact : Intact memory ptr size) (inside : offset < size) (value : UInt8) :
    ∃ written, Memmgr.write memory (ptr - 4) (4 + offset) [value] =
        some (Function.update memory (ptr - 4) (some written)) ∧
      Intact (Function.update memory (ptr - 4) (some written)) ptr size := by
  obtain ⟨above,data,length,there⟩ := intact
  obtain ⟨whole,_⟩ := guarded_parts length
  have fits : 4 + offset + [value].length ≤ (littleEndian32 BEGCHK ++ data ++ littleEndian32 ENDCHK).length := by
    rw [whole,List.length_singleton]
    omega
  have begins : (littleEndian32 BEGCHK).length = 4 := rfl
  have front : (littleEndian32 BEGCHK ++ data ++ littleEndian32 ENDCHK).take (4 + offset) =
      littleEndian32 BEGCHK ++ data.take offset := by
    rw [List.append_assoc,List.take_append,begins,List.take_of_length_le (by rw [begins]; omega),
      Nat.add_sub_cancel_left,List.take_append_of_le_length (by omega)]
  have back : (littleEndian32 BEGCHK ++ data ++ littleEndian32 ENDCHK).drop (4 + offset + [value].length) =
      data.drop (offset + 1) ++ littleEndian32 ENDCHK := by
    rw [List.append_assoc,List.length_singleton,Nat.add_assoc,← begins,List.drop_append,
      List.drop_append_of_le_length (by omega)]
    simp
  have wrote := write_spec there fits
  rw [front,back] at wrote
  have regroup : littleEndian32 BEGCHK ++ data.take offset ++ [value] ++
      (data.drop (offset + 1) ++ littleEndian32 ENDCHK) =
      littleEndian32 BEGCHK ++ (data.take offset ++ [value] ++ data.drop (offset + 1)) ++ littleEndian32 ENDCHK := by
    simp
  rw [regroup] at wrote
  refine ⟨_,wrote,above,_,?_,Function.update_self _ _ _⟩
  simp only [List.length_append,List.length_take,List.length_drop,List.length_singleton]
  omega

theorem contents_spec {ptr : Nat} (length : data.length = size)
    (there : s.memory (ptr - 4) = some (littleEndian32 BEGCHK ++ data ++ littleEndian32 ENDCHK)) :
    s.contents ptr size = data := by
  unfold contents
  rw [there,Option.getD_some,List.append_assoc,← littleEndian32_length BEGCHK,List.drop_left,← length]
  exact List.take_left

theorem gains_none : gains live size none = live := List.append_nil _

theorem malloc_keeps {session : Session} {site : Site} {answer : Option Answer} {ex : Option Nat}
    (represents : Represents session.mgr session.live cells) (fresh : Fresh session.mgr answer ex) :
    ∃ t more, call session (.malloc size site answer ex) = some t ∧ Represents t.mgr t.live more := by
  obtain ⟨free_block,p,is_node,free_node⟩ := fresh
  cases is_node
  simp only [call,cplus_mgr_malloc]
  by_cases zero : size = 0
  · rw [if_pos zero]
    refine ⟨_,cells,rfl,?_⟩
    simp only [gains_none]
    exact represents
  · rw [if_neg zero]
    cases answer with
    | none =>
      refine ⟨_,cells,rfl,?_⟩
      simp only [gains_none]
      exact represents
    | some a =>
      have free := Option.isNone_iff_eq_none.mp (free_block a rfl)
      obtain ⟨data,length,guarded⟩ := malloc_guards session.mgr.memory a size
      obtain ⟨t,more,added,_,after⟩ := represents.add free (Option.isNone_iff_eq_none.mp free_node) length site
      refine ⟨⟨t,gains session.live size (some (a.mem + 4)),some (a.mem + 4)⟩,more,?_,after⟩
      simp only [guarded,Option.bind_some,added,Option.map_some]

theorem free_keeps {session : Session} (represents : Represents session.mgr session.live cells)
    (member : b ∈ session.live) :
    ∃ t more, call session (.free b.1) = some t ∧ Represents t.mgr t.live more := by
  obtain ⟨cleared,wrote⟩ := (represents.intact b member).cleared
  obtain ⟨t,rest,erased,same,after⟩ :=
    represents.erase member (Function.update session.mgr.memory (b.1 - 4) (some cleared))
  refine ⟨⟨{t with memory := Function.update session.mgr.memory (b.1 - 4) none},loses session.live b.1,
    session.returned⟩,rest,?_,after⟩
  simp only [call,cplus_mgr_free,if_pos (represents.boundary member),wrote,Option.bind_some,erased,
    Memmgr.free,same,Function.update_self,Option.map_some,Function.update_idem]

-- What a realloc takes along, as far as there is room for it.
theorem moved_spec {old k : Nat} (length : data.length = old) (rest : List UInt8) (within : k ≤ old) (room : k ≤ size) :
    (((((littleEndian32 BEGCHK ++ data ++ littleEndian32 ENDCHK).take (size + 8) ++ rest).drop 4).take size).take k) =
      data.take k := by
  have begins : (littleEndian32 BEGCHK).length = 4 := rfl
  have whole := (guarded_parts length).1
  have inside : ((littleEndian32 BEGCHK ++ data ++ littleEndian32 ENDCHK).take (size + 8)).length ≥ 4 + k := by
    rw [List.length_take,whole]
    omega
  rw [List.take_take,min_eq_left room,List.take_drop,List.take_append_of_le_length inside,List.take_take,
    min_eq_left (by omega),List.append_assoc,List.take_append,begins,List.take_of_length_le (by rw [begins]; omega),
    Nat.add_sub_cancel_left,← begins,List.drop_left,List.take_append_of_le_length (by omega)]

-- A block that the system moves gets its tags where it is then.
theorem realloc_guards {old : Nat} (length : data.length = old)
    (there : memory mem = some (littleEndian32 BEGCHK ++ data ++ littleEndian32 ENDCHK)) (size : Nat) (a : Answer) :
    ∃ block moved : List UInt8, realloc memory mem (size + 8) (some a) =
        some (Function.update (Function.update memory mem none) a.mem (some block),some a.mem) ∧
      block.length = size + 8 ∧ moved.length = size ∧
      guard_block (Function.update (Function.update memory mem none) a.mem (some block)) a.mem size =
        some (Function.update (Function.update memory mem none) a.mem
          (some (littleEndian32 BEGCHK ++ moved ++ littleEndian32 ENDCHK))) ∧
      moved.take (min old size) = data.take (min old size) := by
  let block := littleEndian32 BEGCHK ++ data ++ littleEndian32 ENDCHK
  let tail := ((List.range (size + 8)).drop block.length).map a.garbage
  have block_length : (block.take (size + 8) ++ tail).length = size + 8 := by
    simp only [tail,List.length_append,List.length_take,List.length_map,List.length_drop,List.length_range]
    omega
  have moved_length : (((block.take (size + 8) ++ tail).drop 4).take size).length = size := by
    rw [List.length_take,List.length_drop,block_length]
    omega
  have resized : realloc memory mem (size + 8) (some a) =
      some (Function.update (Function.update memory mem none) a.mem (some (block.take (size + 8) ++ tail)),
        some a.mem) := by
    simp [realloc,there,block,tail]
  have guarded := guard_block_spec (Function.update_self a.mem (some (block.take (size + 8) ++ tail))
    (Function.update memory mem none)) block_length
  rw [Function.update_idem] at guarded
  exact ⟨_,_,resized,block_length,moved_length,guarded,
    moved_spec length tail (min_le_left _ _) (min_le_right _ _)⟩

theorem realloc_keeps {session : Session} {site : Site} {answer : Option Answer} {ex : Option Nat}
    (represents : Represents session.mgr session.live cells) (member : b ∈ session.live) (small : size ≤ MAX_SIZE)
    (fresh : Fresh {(session.mgr.erase_mem_info b.1).getD session.mgr with
      memory := Function.update session.mgr.memory (b.1 - 4) none} answer ex) :
    ∃ t more, call session (.realloc b.1 size site answer ex) = some t ∧ Represents t.mgr t.live more ∧
      ∀ moved, t.returned = some moved →
        (t.mgr.contents moved size).take (min b.2 size) = (session.mgr.contents b.1 b.2).take (min b.2 size) := by
  obtain ⟨above,data,length,there⟩ := represents.intact b member
  obtain ⟨whole,_⟩ := guarded_parts length
  obtain ⟨s,rest,erased,same,after⟩ := represents.erase member session.mgr.memory
  have erased : session.mgr.erase_mem_info b.1 = some s := erased
  rw [erased,Option.getD_some] at fresh
  obtain ⟨free_block,p,is_node,free_node⟩ := fresh
  cases is_node
  have freed : Represents {s with memory := Function.update session.mgr.memory (b.1 - 4) none}
      (gains (loses session.live b.1) size none) rest := by
    rw [gains_none]
    exact after
  have there_still : s.memory (b.1 - 4) = some (littleEndian32 BEGCHK ++ data ++ littleEndian32 ENDCHK) := by
    rw [same]
    exact there
  by_cases zero : size = 0
  · subst zero
    have resized : realloc s.memory (b.1 - 4) 0 answer =
        some (Function.update session.mgr.memory (b.1 - 4) none,none) := by
      simp [realloc,there_still,same]
    refine ⟨⟨_,_,none⟩,rest,?_,freed,nofun⟩
    simp only [call,cplus_mgr_realloc,if_pos (represents.boundary member),erased,Option.bind_some,if_true,resized]
    rfl
  · have new_size : (if size = 0 then 0 else (size + 2 * 4) % 2^32) = size + 8 := by
      rw [if_neg zero]
      unfold MAX_SIZE at small
      omega
    have grown : ¬ size + 8 = 0 := by omega
    cases answer with
    | none =>
      have refused : realloc s.memory (b.1 - 4) (size + 8) none = some (session.mgr.memory,none) := by
        simp [realloc,there_still,same]
      refine ⟨⟨_,_,none⟩,rest,?_,freed,nofun⟩
      simp only [call,cplus_mgr_realloc,if_pos (represents.boundary member),erased,Option.bind_some,new_size,refused,
        if_pos zero,Memmgr.free,there,Option.map_some]
      rfl
    | some a =>
      have free := Option.isNone_iff_eq_none.mp (free_block a rfl)
      obtain ⟨block,moved,resized,_,moved_length,guarded,copied⟩ := realloc_guards length there size a
      obtain ⟨t,more,added,at_moved,kept⟩ :=
        after.add free (Option.isNone_iff_eq_none.mp free_node) moved_length site
      refine ⟨⟨t,_,some (a.mem + 4)⟩,more,?_,kept,?_⟩
      · simp only [call,cplus_mgr_realloc,if_pos (represents.boundary member),erased,Option.bind_some,new_size,
          resized,same,guarded,added,Option.map_some]
        rfl
      · intro ptr returned
        obtain rfl := Option.some.inj returned
        rw [contents_spec moved_length ((congrFun at_moved _).trans (Function.update_self _ _ _)),contents_spec length there]
        exact copied

theorem write_keeps {session : Session} {offset : Nat} (value : UInt8)
    (represents : Represents session.mgr session.live cells) (member : b ∈ session.live) (inside : offset < b.2) :
    ∃ t, call session (.write b.1 offset value) = some t ∧ Represents t.mgr t.live cells := by
  obtain ⟨written,wrote,intact⟩ := (represents.intact b member).write inside value
  obtain ⟨linked,start,last_is,nodup,count⟩ := represents.registers
  refine ⟨{session with
    mgr := {session.mgr with memory := Function.update session.mgr.memory (b.1 - 4) (some written)}},?_,
    ⟨linked,start,last_is,nodup,count⟩,represents.entries,represents.once,?_⟩
  · rw [call,wrote]
    rfl
  intro c listed
  by_cases here : c.1 = b.1
  · obtain rfl := represents.same_block listed member here
    exact intact
  · apply (represents.intact c listed).update
    have above := (represents.intact b member).1
    have above_there := (represents.intact c listed).1
    omega

theorem call_keeps {session : Session} {a : Action} (represents : Represents session.mgr session.live cells)
    (allowed : Allowed session a) :
    ∃ t more, call session a = some t ∧ Represents t.mgr t.live more ∧ Preserves ⟨session,a,t⟩ := by
  cases a with
  | malloc size site answer ex =>
    obtain ⟨t,more,called,after⟩ := malloc_keeps represents allowed.2
    exact ⟨t,more,called,after,trivial⟩
  | realloc ptr size site answer ex =>
    obtain ⟨listed,small,fresh⟩ := allowed
    obtain ⟨b,member,rfl⟩ := List.mem_map.mp listed
    obtain ⟨t,more,called,after,copied⟩ := realloc_keeps represents member small fresh
    refine ⟨t,more,called,after,?_⟩
    intro old moved at_ returned
    have same : (b.1,old) = b := represents.same_block at_ member rfl
    have size_is : old = b.2 := congrArg Prod.snd same
    rw [size_is]
    exact copied moved returned
  | free ptr =>
    obtain ⟨b,member,rfl⟩ := List.mem_map.mp allowed
    obtain ⟨t,more,called,after⟩ := free_keeps represents member
    exact ⟨t,more,called,after,trivial⟩
  | write ptr offset value =>
    obtain ⟨b,member,rfl,inside⟩ := allowed
    obtain ⟨t,called,after⟩ := write_keeps value represents member inside
    exact ⟨t,cells,called,after,trivial⟩

theorem Represents.tracked {session : Session} (represents : Represents session.mgr session.live cells) :
    Tracked session where
  registry := by
    refine ⟨cells.map Prod.snd,?_,?_⟩
    · rw [report_spec represents.registers,← represents.entries,List.length_map]
    · rw [← represents.entries,List.map_map]
      rfl
  once := represents.once
  in_use := by rw [represents.registers.count,← represents.entries,List.length_map]
  boundary b member := represents.boundary member
  guarded b member bytes length := represents.guarded member length
  sizes b member := by
    obtain ⟨_,data,length,there⟩ := represents.intact b member
    exact ⟨_,there,(guarded_parts length).1⟩
  calls a allowed := by
    obtain ⟨t,_,called,_⟩ := call_keeps represents allowed
    rw [called]
    rfl

theorem start_represents : Represents start.mgr start.live [] :=
  ⟨⟨trivial,rfl,nofun,List.nodup_nil,rfl⟩,rfl,List.nodup_nil,nofun⟩

theorem step_parts {session after : Session} {a : Action} (taken : Step session a after) :
    Allowed session a ∧ call session a = some after := by
  simp only [Step,Follows,advance] at taken
  split at taken
  · rename_i allowed
    exact ⟨allowed,taken⟩
  · cases taken

theorem step_keeps {session after : Session} {a : Action}
    (represents : ∃ cells, Represents session.mgr session.live cells) (taken : Step session a after) :
    (∃ cells, Represents after.mgr after.live cells) ∧ Preserves ⟨session,a,after⟩ := by
  obtain ⟨allowed,called⟩ := step_parts taken
  obtain ⟨cells,represents⟩ := represents
  obtain ⟨t,more,same,kept,preserves⟩ := call_keeps represents allowed
  rw [called] at same
  cases same
  exact ⟨⟨more,kept⟩,preserves⟩

theorem registry_tracks {moves : List (Move Session Action)} {session : Session}
    (run : Run Step start moves session) :
    Tracked session ∧ Throughout Tracked moves ∧ ∀ m ∈ moves, Preserves m := by
  have first : ∃ cells, Represents start.mgr start.live cells := ⟨[],start_represents⟩
  have kept := run.invariant (J := fun s => ∃ cells, Represents s.mgr s.live cells) first
    fun held taken => (step_keeps held taken).1
  have each := run.each (J := fun s => ∃ cells, Represents s.mgr s.live cells) (fun _ _ => True) first
    (fun held taken _ => (step_keeps held taken).1) (fun _ _ => trivial)
  obtain ⟨⟨cells,represents⟩,all⟩ := kept
  refine ⟨represents.tracked,?_,?_⟩
  · exact all.imp fun s ⟨_,held⟩ => held.tracked
  · intro m member
    obtain ⟨before,taken⟩ := each m member
    exact (step_keeps before taken).2

-- Two blocks; the first is written, moved to more room, and freed.
def site : Site := ⟨"src/list.c".toList,"list_new".toList,7⟩

def zeros (mem : Nat) : Option Answer := some ⟨mem,fun _ => 0⟩

def grown : List Action :=
  [.malloc 2 site (zeros 100) (some 1),.malloc 1 site (zeros 200) (some 2),.write 104 1 9,
   .realloc 104 3 site (zeros 300) (some 1),.realloc 204 0 site none (some 2),.free 304]

theorem grown_tracked : ∃ moves session, Run Step start moves session ∧ moves.map Move.action = grown ∧
    session.live = [] ∧ Tracked session ∧ Throughout Tracked moves ∧ ∀ m ∈ moves, Preserves m := by
  obtain ⟨moves,session,run,same,checked⟩ := Run.of_check advance start grown
    (fun result => decide (result.2.live = [])) (by decide +kernel)
  exact ⟨moves,session,run,same,by simpa using checked,registry_tracks run⟩

end Memmgr
end Libcplus
