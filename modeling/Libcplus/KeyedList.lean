import Libcplus.Data.Keys
import Libcplus.Data.Storage
import Libcplus.KeyTable
import Libcplus.Llist.Session

namespace Libcplus
open Bytes Memory Typedef Transition Program

-- A list whose data are the addresses of data objects, and the objects that are
-- there. An object that is not in the list belongs to the caller.
structure KeyedList where
  list : LinkedList Addr
  objects : Addr → Option Data

namespace KeyedList

def cplus_llist_new : KeyedList := ⟨llist_initialize_object,fun _ => none⟩

-- Texts that end in a NUL, each in a block of its own. A read behind a block does
-- not happen for them.
def strcmp : List UInt8 → List UInt8 → Int
  | a :: rest,b :: other => if a = b ∧ a ≠ 0 then strcmp rest other else (a.toNat : Int) - b.toNat
  | _,_ => 1

-- The key that is searched for is never NULL, and every node has an object.
def find_node_by_key (objects : Addr → Option Data) (key : List UInt8) (data : Addr) : Int :=
  match (objects data).bind Data.key with
  | none => 1
  | some data_key => strcmp data_key (key ++ [0])

-- What the allocations of a call give: the object of a new datum, the buffer of
-- its value, that of its key, and a node.
structure Allocations where
  object : Option Addr
  value : Outcome
  key : Outcome
  node : Option Addr

section Calls
variable (s : KeyedList) (key : List UInt8)

def put (object : Addr) (dt : Option Data) : KeyedList := {s with objects := Function.update s.objects object dt}

-- A routine on an object. `none` is a fault, or a lock that is never released.
def on_object {α : Type} (object : Addr) (routine : Data.Routine α) : Option (KeyedList × α) := do
  let dt ← s.objects object
  match routine dt with
  | .ok (result,after) => return (s.put object (some after),result)
  | .error _ => none

def get_if : Option (KeyedList × Option Addr) := do
  let (list,data) ← s.list.cplus_llist_get_if (some (find_node_by_key s.objects key))
  return ({s with list := list},data)

def push_back (data : Addr) (allocs : Allocations) : Option (KeyedList × Int) := do
  let (list,res) ← s.list.cplus_llist_push_back (some data) allocs.node
  return ({s with list := list},res)

-- cplus_data_new_ex with the object at the address that the allocator gives.
def new_object (type : CPLUS_DATA_TYPE) (value1 value2 : Pointer) (allocs : Allocations) :
    Option (KeyedList × Option Addr) :=
  match allocs.object with
  | none => some (s,none)
  | some object =>
    match Data.cplus_data_new_ex type value1 value2 (key.length % 2^32) (some (key ++ [0])) allocs.value allocs.key with
    | .error _ => none
    | .ok none => some (s,none)
    | .ok (some dt) => some (s.put object (some dt),some object)

def cplus_llist_add_data (type : CPLUS_DATA_TYPE) (value1 value2 : Pointer) (allocs : Allocations) :
    Option (KeyedList × Option Addr) :=
  if value1 = none then some (s,none)
  else do
    match ← s.get_if key with
    | (s,none) =>
      match ← s.new_object key type value1 value2 allocs with
      | (s,none) => return (s,none)
      | (s,some data) =>
        let (s,_) ← s.push_back data allocs
        return (s,some data)
    | (s,some data) =>
      let (s,_) ← s.on_object data (Data.cplus_data_set_value value1 value2 allocs.value)
      return (s,some data)

def cplus_llist_find_data : Option (KeyedList × Option Addr) := s.get_if key

-- The second half of cplus_llist_update_data, which follows the first whether or
-- not that has found the key.
def append_data (data : Addr) (target : Option Addr) (allocs : Allocations) : Option (KeyedList × Option Addr) := do
  let (s,res) ← s.on_object data (Data.cplus_data_set_key (key.length % 2^32) (some (key ++ [0])) allocs.key)
  if res = CPLUS_SUCCESS then
    let (s,res) ← s.push_back data allocs
    return (s,if res = CPLUS_SUCCESS then some data else target)
  else return (s,target)

def cplus_llist_update_data (data : Addr) (allocs : Allocations) : Option (KeyedList × Option Addr) := do
  match ← s.get_if key with
  | (s,none) => s.append_data key data none allocs
  | (s,some target) =>
    let src ← s.objects data
    let (s,res) ← s.on_object target (Data.cplus_data_clone_value src allocs.value)
    if res = CPLUS_SUCCESS then s.append_data key data (some target) allocs
    else return (s,none)

def cplus_llist_remove_data : Option (KeyedList × Int) := do
  match ← s.list.cplus_llist_pop_if (some (find_node_by_key s.objects key)) with
  | (list,none) => return ({s with list := list},CPLUS_SUCCESS)
  | (list,some data) => return (put {s with list := list} data none,CPLUS_SUCCESS)

end Calls

section Lists
open LinkedList (Refines Keeps accepts search_refines answer_holder moved_represents pop_if_keeps push_outside refines_count
  refines_contents)
variable {list : LinkedList Addr} {items : List Addr}

-- The nodes of the list hold these, in this order.
def Lists (list : LinkedList Addr) (items : List Addr) : Prop := ∃ sequence, Refines list sequence ∧ sequence.items = items

theorem keeps_called {T : Type} {give : T → Answer Addr} {called : Option (LinkedList Addr × T)}
    {meant : Sequence Addr} {target : T} (injective : ∀ a b, give a = give b → a = b)
    (kept : Keeps (called.map (.map id give)) (meant,some (give target))) :
    ∃ after, called = some (after,target) ∧ Lists after meant.items := by
  obtain ⟨after,answer,ran,refines,expected⟩ := kept
  obtain ⟨⟨list,result⟩,rfl,same⟩ := Option.map_eq_some_iff.mp ran
  obtain ⟨rfl,rfl⟩ := Prod.mk.inj same
  exact ⟨list,by rw [injective _ _ (expected _ rfl)],meant,refines,rfl⟩

theorem get_if_lists (lists : Lists list items) (comparator : Addr → Int) : ∃ link cursor,
    list.cplus_llist_get_if (some comparator) = some (list.moved link cursor,items.find? (accepts comparator)) ∧
      Lists (list.moved link cursor) items := by
  obtain ⟨sequence,refines,rfl⟩ := lists
  obtain ⟨cells,link,represents,same,sought,kept⟩ := search_refines (accepts comparator) refines
  refine ⟨link,_,?_,_,kept,rfl⟩
  have called : list.cplus_llist_get_if (some comparator) = (list.get_node_if comparator).bind LinkedList.answer := rfl
  rw [called,LinkedList.get_node_if,sought,← same]
  exact answer_holder (moved_represents represents) _

theorem pop_if_lists (lists : Lists list items) (comparator : Addr → Int) : ∃ after,
    list.cplus_llist_pop_if (some comparator) = some (after,items.find? (accepts comparator)) ∧
      Lists after (items.eraseP (accepts comparator)) := by
  obtain ⟨sequence,refines,rfl⟩ := lists
  obtain ⟨after,popped,lists⟩ := keeps_called (fun _ _ => Answer.data.inj) (pop_if_keeps refines comparator)
  refine ⟨after,popped,?_⟩
  by_cases some_found : sequence.items.any (accepts comparator) = true
  · rwa [Sequence.discard,if_pos some_found] at lists
  · have none_found : ∀ d ∈ sequence.items, ¬ accepts comparator d = true := by simpa using some_found
    rw [Sequence.discard,if_neg some_found] at lists
    rwa [List.eraseP_of_forall_not none_found]

theorem push_back_lists (lists : Lists list items) (data : Addr) {node : Addr} (fresh : list.nodes node = none) :
    ∃ after, list.cplus_llist_push_back (some data) (some node) = some (after,CPLUS_SUCCESS) ∧
      Lists after (items ++ [data]) := by
  obtain ⟨sequence,refines,rfl⟩ := lists
  obtain ⟨after,pushed,kept⟩ := push_outside refines data (.inr rfl) fresh
  rw [← refines_count refines] at pushed
  exact ⟨after,pushed,_,kept,List.insertIdx_length_self⟩

theorem lists_contents (lists : Lists list items) : list.contents = items := by
  obtain ⟨sequence,refines,rfl⟩ := lists
  exact refines_contents refines

end Lists

section Keys
open Data
variable {text key block : List UInt8} {dt after : Data} {garbage : Nat → UInt8}

-- Two texts compare as equal when they are.
theorem strcmp_text (held : c_string block = some text) (plain : 0 ∉ key) :
    strcmp block (key ++ [0]) = 0 ↔ text = key := by
  induction block generalizing text key with
  | nil => cases held
  | cons a rest ih =>
    rw [c_string_cons] at held
    split at held
    · rename_i zero
      cases held
      subst zero
      cases key with
      | nil => simp [strcmp]
      | cons b key =>
        have nonzero : (0 : UInt8) ≠ b := fun same => plain (same ▸ List.mem_cons_self)
        have apart : b.toNat ≠ 0 := fun same => nonzero (UInt8.toNat.inj same.symm)
        simp [strcmp,nonzero,apart]
    · rename_i nonzero
      obtain ⟨text,later,rfl⟩ := Option.map_eq_some_iff.mp held
      have apart : a.toNat ≠ 0 := fun same => nonzero (UInt8.toNat.inj same)
      cases key with
      | nil => simp [strcmp,nonzero,apart]
      | cons b key =>
        by_cases same : a = b
        · subst same
          have tail := ih later (fun member => plain (List.mem_cons_of_mem _ member))
          rw [List.cons_append,strcmp,if_pos ⟨rfl,nonzero⟩,tail]
          simp
        · have different : (a.toNat : Int) - b.toNat ≠ 0 := fun equal => same (UInt8.toNat.inj (by omega))
          rw [List.cons_append,strcmp,if_neg (fun both => same both.1)]
          simp [different,same]

-- An object whose key has this text.
def Bears (dt : Data) (key : List UInt8) : Prop := dt.spinlock = false ∧ dt.key.bind c_string = some key

-- An object that can be given a key: nobody holds its lock, and the buffer of the
-- key it may have is as long as it says.
def Usable (dt : Data) : Prop :=
  dt.spinlock = false ∧
    match dt.key with
    | none => dt.key_len = 0
    | some block => dt.key_len ≤ block.length

instance (dt : Data) : Decidable (Usable dt) := by
  unfold Usable
  split <;> infer_instance

-- Every object that is made without a key is one.
theorem new_usable {type : CPLUS_DATA_TYPE} {value1 value2 : Pointer} {alloc : Outcome}
    (made : cplus_data_new type value1 value2 alloc = .ok (some dt)) : Usable dt ∧ dt.key_len = 0 := by
  obtain ⟨free,no_key,no_len⟩ := Data.new_nameless made
  exact ⟨⟨free,by rw [no_key]; exact no_len⟩,no_len⟩

theorem set_key_bears (garbage : Nat → UInt8) (usable : Usable dt) (plain : 0 ∉ key) (named : key ≠ [])
    (small : key.length + 1 ≤ RSIZE_MAX_MEM) (old : dt.key_len ≤ RSIZE_MAX_MEM) : ∃ after,
      cplus_data_set_key (key.length % 2^32) (some (key ++ [0])) (some garbage) dt = .ok (CPLUS_SUCCESS,after) ∧
      Bears after key := by
  obtain ⟨free,buffer⟩ := usable
  obtain ⟨is_valid,mode,key_len,name,lock,code,size,value⟩ := dt
  cases free
  have limit : RSIZE_MAX_MEM < 2^32 := by decide
  have positive : 0 < key.length := List.length_pos_iff.mpr named
  have len : key.length % 4294967296 = key.length := Nat.mod_eq_of_lt (by omega)
  have whole : (key.length + 1) % 4294967296 = key.length + 1 := Nat.mod_eq_of_lt (by omega)
  have nonzero : ¬ key.length = 0 := by omega
  by_cases room : key.length < key_len
  · obtain ⟨block,rfl⟩ : ∃ block, name = some block := by
      cases name with
      | none => exact absurd buffer (show ¬ key_len = 0 by omega)
      | some block => exact ⟨block,rfl⟩
    obtain ⟨written,copied,read,_⟩ := Data.copied_key plain room buffer old
    refine ⟨⟨is_valid,mode,key_len,some written,false,code,size,value⟩,?_,rfl,read⟩
    simp [cplus_data_set_key,len,whole,nonzero,room,copied,DATA_SPIN_LOCK,DATA_SPIN_UNLOCK,access,
      run_bind,run_get,run_pure,ok_bind,-bind_pure_comp,run_set]
  · obtain ⟨block,given,length⟩ : ∃ block, allocate (some garbage) name (key.length + 1) = some block ∧
        block.length = key.length + 1 := by
      obtain ⟨block,obtained⟩ := Data.allocate_granted garbage name (key.length + 1)
      exact ⟨block,obtained,Data.allocate_length obtained⟩
    obtain ⟨written,copied,read,_⟩ := Data.copied_key plain (Nat.le_refl _) (Nat.le_of_eq length.symm) small
    refine ⟨⟨is_valid,mode,key.length + 1,some written,false,code,size,value⟩,?_,rfl,read⟩
    simp [cplus_data_set_key,len,whole,nonzero,room,given,copied,DATA_SPIN_LOCK,DATA_SPIN_UNLOCK,access,
      run_bind,run_get,run_pure,ok_bind,-bind_pure_comp,run_set]

theorem set_up_key_bears (garbage : Nat → UInt8) (usable : Usable dt) (plain : 0 ∉ key) (named : key ≠ [])
    (small : key.length + 1 ≤ RSIZE_MAX_MEM) (old : dt.key_len ≤ RSIZE_MAX_MEM) : ∃ after,
      set_up_key (key.length % 2^32) (some (key ++ [0])) (some garbage) dt = .ok (true,after) ∧ Bears after key := by
  obtain ⟨after,keyed,bears⟩ := set_key_bears garbage usable plain named small old
  have limit : RSIZE_MAX_MEM < 2^32 := by decide
  have positive : 0 < key.length % 2^32 := by
    rw [Nat.mod_eq_of_lt (by omega)]
    exact List.length_pos_iff.mpr named
  have ready : (some (key ++ [0]) : Pointer) ≠ none ∧ 0 < key.length % 2^32 := ⟨nofun,positive⟩
  refine ⟨after,?_,bears⟩
  rw [set_up_key,if_pos ready]
  exact Program.bind_ok keyed

-- What leaves the key alone leaves its text alone.
theorem keeps_bears {α : Type} {routine : Routine α} {result : α} (keeps : Data.Keeps false false routine)
    (bears : Bears dt key) (ran : routine dt = .ok (result,after)) : Bears after key := by
  obtain ⟨free,same⟩ := (keeps (dt.key,dt.key_len)).answer ⟨bears.1,rfl⟩ ran
  refine ⟨free,?_⟩
  rw [(Prod.mk.inj same).1]
  exact bears.2

theorem set_valid_success {res : Int} (ran : set_valid dt = .ok (res,after)) : res = CPLUS_SUCCESS := by
  obtain ⟨_,_,_,answered⟩ := Program.bind_parts ran
  cases answered
  rfl

theorem set_text_done {len need : Nat} {bufs : Pointer} {fill : Nat → List UInt8 → Routine Pointer} {done : Bool}
    (ran : set_text (some garbage) len bufs need fill dt = .ok (done,after)) : done = true := by
  obtain ⟨block,granted,_⟩ := Data.room_granted garbage len bufs need
  rcases Data.set_text_parts ran with ⟨_,refused,_,_⟩ | ⟨_,_,_,_,_,_,done,_⟩
  · cases granted.symm.trans refused
  · exact done

theorem set_array_done {len need : Nat} {bufs value2 : Pointer} {done : Bool}
    (ran : set_array (some garbage) len bufs need value2 dt = .ok (done,after)) : done = true := by
  obtain ⟨block,granted,_⟩ := Data.room_granted garbage len bufs need
  rcases Data.set_array_parts ran with ⟨_,refused,_,_⟩ | ⟨_,_,_,_,_,_,done,_⟩
  · cases granted.symm.trans refused
  · exact done

theorem spin_done {α : Type} {body : Routine α} {P : α → Prop} {result : α}
    (inside : ∀ dt after result, body dt = .ok (result,after) → P result) (ran : spin body dt = .ok (result,after)) :
    P result := by
  obtain ⟨_,_,_,rest⟩ := Program.bind_parts ran
  obtain ⟨_,_,done,last⟩ := Program.bind_parts rest
  obtain ⟨_,_,_,answered⟩ := Program.bind_parts last
  cases answered
  exact inside _ _ _ done

theorem settle_success {done : Bool} {res : Int} (set_ : done = true) (ran : settle done dt = .ok (res,after)) :
    res = CPLUS_SUCCESS := by
  subst set_
  exact set_valid_success ran

theorem set_value_success {source : List UInt8} {value2 : Pointer} {res : Int}
    (valued : dt.data_type ≠ .NULL ∧ dt.data_type ≠ .UNKNOWN)
    (ran : cplus_data_set_value (some source) value2 (some garbage) dt = .ok (res,after)) : res = CPLUS_SUCCESS := by
  obtain ⟨_,_,got,rest⟩ := Program.bind_parts ran
  cases got
  obtain ⟨_,_,_,_,_,_,_,value⟩ := dt
  cases value with
  | null => exact absurd rfl valued.1
  | unknown => exact absurd rfl valued.2
  | b b =>
    obtain ⟨_,_,_,rest⟩ := Program.bind_parts rest
    obtain ⟨_,_,_,last⟩ := Program.bind_parts rest
    exact set_valid_success last
  | integer type bits =>
    obtain ⟨_,_,_,last⟩ := Program.bind_parts rest
    exact set_valid_success last
  | real type bits =>
    obtain ⟨_,_,_,last⟩ := Program.bind_parts rest
    exact set_valid_success last
  | p p =>
    obtain ⟨_,_,_,rest⟩ := Program.bind_parts rest
    obtain ⟨_,_,_,last⟩ := Program.bind_parts rest
    exact set_valid_success last
  | str len bufs =>
    obtain ⟨_,_,spun,last⟩ := Program.bind_parts rest
    refine settle_success (spin_done (P := fun done => done = true) (fun _ _ _ ran => ?_) spun) last
    obtain ⟨_,_,_,filled⟩ := Program.bind_parts ran
    exact set_text_done filled
  | byte_array len bufs =>
    obtain ⟨_,_,spun,last⟩ := Program.bind_parts rest
    refine settle_success (spin_done (P := fun done => done = true) (fun _ _ _ ran => ?_) spun) last
    obtain ⟨_,_,_,filled⟩ := Program.bind_parts ran
    exact set_array_done filled

-- A new object with a value of a type that has values bears its key.
theorem data_new_bears {type : CPLUS_DATA_TYPE} {source : List UInt8} {value2 : Pointer} {given : Nat → UInt8}
    {result : Option Data} (valued : type ≠ .NULL ∧ type ≠ .UNKNOWN) (plain : 0 ∉ key) (named : key ≠ [])
    (small : key.length + 1 ≤ RSIZE_MAX_MEM)
    (made : cplus_data_new_ex type (some source) value2 (key.length % 2^32) (some (key ++ [0])) (some given)
      (some garbage) = .ok result) : ∃ dt, result = some dt ∧ Bears dt key := by
  unfold cplus_data_new_ex data_initialize_object at made
  have typed : (blank type).data_type = type := by cases type <;> rfl
  split at made
  · cases made
  · rename_i done last ran
    obtain ⟨valued_,dt,set_up,rest⟩ := Program.bind_parts ran
    obtain ⟨res,_,set_,answered⟩ := Program.bind_parts set_up
    have success := set_value_success (by rwa [typed]) set_
    have blank_ : At false (none,0) (blank type) := ⟨rfl,rfl⟩
    obtain ⟨free,same⟩ := (set_value_keeps _ _ _ (none,0)).answer blank_ set_
    cases answered
    subst success
    obtain ⟨no_name,no_len⟩ := Prod.mk.inj same
    have usable : Usable dt := by
      refine ⟨free,?_⟩
      rw [no_name]
      exact no_len
    obtain ⟨after,finished,bears⟩ :=
      set_up_key_bears garbage usable plain named small (by rw [no_len]; exact Nat.zero_le _)
    cases finished.symm.trans rest
    cases made
    exact ⟨_,rfl,bears⟩

-- What cplus_data_clone_value refuses: an object of another type, and a buffer
-- that is NULL and too small, which cplus_realloc does not make larger.
def Unclonable (target src : Data) : Prop :=
  target.data_type ≠ src.data_type ∨
    match target.value,src.value with
    | .str len none,.str src_len _ => src_len > len
    | .byte_array _ none,.byte_array _ _ => src.bufs_size > target.bufs_size
    | _,_ => False

instance (dt : Data) (key : List UInt8) : Decidable (Bears dt key) := by unfold Bears; infer_instance

instance (target src : Data) : Decidable (Unclonable target src) := by
  unfold Unclonable
  split <;> infer_instance

theorem clone_value_refused {src : Data} (refused : Unclonable dt src) (alloc : Outcome) : ∃ after,
    cplus_data_clone_value src alloc dt = .ok (CPLUS_FAIL,after) := by
  by_cases apart : dt.data_type ≠ src.data_type
  · have evaluated : cplus_data_clone_value src alloc dt =
        (if dt.data_type ≠ src.data_type then return CPLUS_FAIL else _ : Routine Int) dt := rfl
    rw [evaluated,if_pos apart]
    exact ⟨dt,rfl⟩
  · replace refused := refused.resolve_left apart
    obtain ⟨is_valid,mode,key_len,name,lock,code,size,value⟩ := dt
    obtain ⟨_,_,_,_,_,src_code,_,held⟩ := src
    split at refused
    · rename_i len src_len src_bufs same other
      cases same
      cases other
      refine ⟨⟨is_valid,mode,key_len,name,lock,src_code,size,.str len none⟩,?_⟩
      simp [cplus_data_clone_value,data_type,Value.data_type,refused,clone_room,run_bind,run_get,run_pure,ok_bind,-bind_pure_comp,run_set]
    · rename_i len src_len src_bufs same other
      cases same
      cases other
      refine ⟨⟨is_valid,mode,key_len,name,lock,code,size,.byte_array len none⟩,?_⟩
      simp [cplus_data_clone_value,data_type,Value.data_type,refused,clone_room,run_bind,run_get,run_pure,ok_bind,-bind_pure_comp,put_value,run_modify]
    · exact refused.elim

end Keys

-- The calls on a keyed list. An update gets an object of the caller, as the caller
-- has left it.
inductive Call where
  | add (type : CPLUS_DATA_TYPE) (key : List UInt8) (value1 value2 : Pointer) (allocs : Allocations)
  | update (key : List UInt8) (data : Addr) (dt : Data) (allocs : Allocations)
  | remove (key : List UInt8)

namespace Call

def key : Call → List UInt8
  | add _ key _ _ _ => key
  | update key _ _ _ => key
  | remove key => key

def sets : Call → Bool
  | add _ _ _ _ _ => true
  | update _ _ _ _ => true
  | remove _ => false

def run (s : KeyedList) : Call → Option KeyedList
  | add type key value1 value2 allocs => (s.cplus_llist_add_data key type value1 value2 allocs).map Prod.fst
  | update key data dt allocs => ((s.put data (some dt)).cplus_llist_update_data key data allocs).map Prod.fst
  | remove key => (s.cplus_llist_remove_data key).map Prod.fst

end Call

-- Allocations succeed, with addresses that are not in use.
def Granted (s : KeyedList) (allocs : Allocations) : Prop :=
  allocs.object.any (· ∉ s.list.contents) ∧ allocs.value.isSome ∧ allocs.key.isSome ∧
    allocs.node.any fun node => (s.list.nodes node).isNone

-- Keys are texts that are not empty, values have a type that has values, and the
-- object of an update is not in the list.
def Legal (s : KeyedList) (call : Call) : Prop :=
  (call.key ≠ [] ∧ 0 ∉ call.key) ∧
    match call with
    | .add type _ value1 _ allocs => (type ≠ .NULL ∧ type ≠ .UNKNOWN) ∧ value1 ≠ none ∧ Granted s allocs
    | .update _ data dt allocs => data ∉ s.list.contents ∧ Usable dt ∧ Granted s allocs
    | .remove _ => True

-- A key that cplus_mem_cpy_ex copies, and an update of a key that no node bears, which
-- goes into the key buffer of its object, or whose node refuses the value.
def Careful (s : KeyedList) : Call → Prop
  | .add _ key _ _ _ => key.length + 1 ≤ RSIZE_MAX_MEM
  | .update key _ dt _ => key.length + 1 ≤ RSIZE_MAX_MEM ∧
    ((∀ target ∈ s.list.contents, ∀ held ∈ s.objects target, ¬ Bears held key) → dt.key_len ≤ RSIZE_MAX_MEM) ∧
    ∀ target ∈ s.list.contents, ∀ held ∈ s.objects target, Bears held key → Unclonable held dt
  | .remove _ => True

instance (s : KeyedList) (allocs : Allocations) : Decidable (Granted s allocs) := by unfold Granted; infer_instance

instance (s : KeyedList) (call : Call) : Decidable (Legal s call) := by
  cases call <;> unfold Legal <;> infer_instance

instance (s : KeyedList) (call : Call) : Decidable (Careful s call) := by
  cases call <;> unfold Careful <;> infer_instance

def Step (s : KeyedList) (call : Call) (t : KeyedList) : Prop := Legal s call ∧ call.run s = some t

section Steps
variable {s t : KeyedList} {table : KeyTable Addr (List UInt8)} {key : List UInt8} {data : Addr} {allocs : Allocations}
  {dt : Data}

theorem put_self {object : Option Data} : (s.put data object).objects data = object := Function.update_self _ _ _

theorem put_other {object : Option Data} {other : Addr} (apart : other ≠ data) :
    (s.put data object).objects other = s.objects other := Function.update_of_ne apart _ _

-- The list is the table, and the objects bear its keys.
structure Valid (s : KeyedList) (table : KeyTable Addr (List UInt8)) : Prop where
  lists : Lists s.list table.items
  bears : ∀ data key, (data,key) ∈ table.entries → ∃ dt, s.objects data = some dt ∧ Bears dt key

theorem Valid.member (valid : Valid s table) (there : data ∈ table.items) :
    ∃ key dt, (data,key) ∈ table.entries ∧ s.objects data = some dt ∧ Bears dt key := by
  obtain ⟨⟨_,key⟩,entry,rfl⟩ := List.mem_map.mp there
  obtain ⟨dt,object,bears⟩ := valid.bears _ _ entry
  exact ⟨key,dt,entry,object,bears⟩

theorem Valid.unnamed (valid : Valid s table) (absent : ¬ table.Has key) :
    ∀ target ∈ table.items, ∀ held ∈ s.objects target, ¬ Bears held key := by
  intro target there held object bears
  obtain ⟨name,dt,entry,found,named⟩ := valid.member there
  cases object.symm.trans found
  obtain rfl := Option.some.inj (named.2.symm.trans bears.2)
  exact absent (KeyTable.has_entry entry)

theorem found_iff (object : s.objects data = some dt) {name : List UInt8} (bears : Bears dt name) (plain : 0 ∉ key) :
    LinkedList.accepts (find_node_by_key s.objects key) data = true ↔ name = key := by
  obtain ⟨block,held,read⟩ := Option.bind_eq_some_iff.mp bears.2
  have compared : find_node_by_key s.objects key data = strcmp block (key ++ [0]) := by
    rw [find_node_by_key,object,Option.bind_some,held]
  rw [LinkedList.accepts,decide_eq_true_iff,compared,strcmp_text read plain]

-- A search finds the entry of the key.
theorem find_entry (valid : Valid s table) (plain : 0 ∉ key) :
    (table.items.find? (LinkedList.accepts (find_node_by_key s.objects key)) = none ∧ ¬ table.Has key) ∨
    ∃ data, table.items.find? (LinkedList.accepts (find_node_by_key s.objects key)) = some data ∧
      (data,key) ∈ table.entries := by
  cases found : table.items.find? (LinkedList.accepts (find_node_by_key s.objects key)) with
  | none =>
    refine .inl ⟨rfl,fun has => ?_⟩
    obtain ⟨⟨data,_⟩,entry,rfl⟩ := List.mem_map.mp has
    obtain ⟨dt,object,bears⟩ := valid.bears _ _ entry
    have refused := List.find?_eq_none.mp found data (List.mem_map_of_mem (f := Prod.fst) entry)
    exact refused ((found_iff object bears plain).mpr rfl)
  | some data =>
    obtain ⟨name,dt,entry,object,bears⟩ := valid.member (List.mem_of_find?_eq_some found)
    obtain rfl := (found_iff object bears plain).mp (List.find?_some found)
    exact .inr ⟨data,rfl,entry⟩

theorem get_if_valid (valid : Valid s table) (plain : 0 ∉ key) : ∃ link cursor target,
    s.get_if key = some ({s with list := s.list.moved link cursor},target) ∧
    Valid {s with list := s.list.moved link cursor} table ∧
    ((target = none ∧ ¬ table.Has key) ∨ ∃ data, target = some data ∧ (data,key) ∈ table.entries) := by
  obtain ⟨link,cursor,got,lists⟩ := get_if_lists valid.lists (find_node_by_key s.objects key)
  refine ⟨link,cursor,_,?_,⟨lists,valid.bears⟩,find_entry valid plain⟩
  rw [get_if,got]
  rfl

theorem put_valid (valid : Valid s table) {object : Option Data}
    (bears : ∀ key, (data,key) ∈ table.entries → ∃ dt, object = some dt ∧ Bears dt key) :
    Valid (s.put data object) table := by
  refine ⟨valid.lists,fun other key entry => ?_⟩
  by_cases same : other = data
  · subst same
    obtain ⟨dt,there,bears⟩ := bears key entry
    exact ⟨dt,put_self.trans there,bears⟩
  · obtain ⟨dt,there,bears⟩ := valid.bears other key entry
    exact ⟨dt,(put_other same).trans there,bears⟩

theorem put_outside (valid : Valid s table) (outside : data ∉ table.items) (object : Option Data) :
    Valid (s.put data object) table :=
  put_valid valid fun _ entry => absurd (List.mem_map_of_mem (f := Prod.fst) entry) outside

theorem push_back_valid (allocs : Allocations) (valid : Valid s table) (object : s.objects data = some dt) (bears : Bears dt key)
    (absent : ¬ table.Has key) {node : Addr} (given : allocs.node = some node) (fresh : s.list.nodes node = none) :
    ∃ after, s.push_back data allocs = some (after,CPLUS_SUCCESS) ∧ Valid after (table.insert data key absent) := by
  obtain ⟨after,pushed,lists⟩ := push_back_lists valid.lists data fresh
  refine ⟨{s with list := after},by rw [push_back,given,pushed]; rfl,by rwa [KeyTable.insert_items],?_⟩
  intro other name entry
  rcases List.mem_append.mp entry with old | new
  · exact valid.bears _ _ old
  · cases List.mem_singleton.mp new
    exact ⟨dt,object,bears⟩

theorem on_object_parts {α : Type} {routine : Data.Routine α} {result : α}
    (ran : s.on_object data routine = some (t,result)) :
    ∃ dt after, s.objects data = some dt ∧ routine dt = .ok (result,after) ∧ t = s.put data (some after) := by
  obtain ⟨dt,object,rest⟩ := Option.bind_eq_some_iff.mp ran
  split at rest
  · rename_i done
    cases rest
    exact ⟨dt,_,object,done,rfl⟩
  · cases rest

theorem granted_parts {items : List Addr} (lists : Lists s.list items) (granted : Granted s allocs) :
    ∃ object node value name, allocs = ⟨some object,some value,some name,some node⟩ ∧ object ∉ items ∧
      s.list.nodes node = none := by
  obtain ⟨object,value,name,node⟩ := allocs
  obtain ⟨given,valued,named,fresh⟩ := granted
  obtain ⟨object,rfl,outside⟩ := (Option.any_eq_true _ _).mp given
  obtain ⟨value,rfl⟩ := Option.isSome_iff_exists.mp valued
  obtain ⟨name,rfl⟩ := Option.isSome_iff_exists.mp named
  obtain ⟨node,rfl,unused⟩ := (Option.any_eq_true _ _).mp fresh
  refine ⟨object,node,value,name,rfl,?_,Option.isNone_iff_eq_none.mp unused⟩
  rw [← lists_contents lists]
  exact of_decide_eq_true outside

-- After an add and after an update the key has an entry.
def Sets (table next : KeyTable Addr (List UInt8)) (key : List UInt8) : Prop :=
  ∀ other, next.Has other ↔ table.Has other ∨ other = key

theorem sets_there (there : (data,key) ∈ table.entries) : Sets table table key := by
  refine fun other => ⟨.inl,?_⟩
  rintro (has | rfl)
  · exact has
  · exact KeyTable.has_entry there

theorem add_keeps {type : CPLUS_DATA_TYPE} {value1 value2 : Pointer} {target : Option Addr} (valid : Valid s table)
    (legal : Legal s (.add type key value1 value2 allocs)) (careful : Careful s (.add type key value1 value2 allocs))
    (ran : s.cplus_llist_add_data key type value1 value2 allocs = some (t,target)) :
    ∃ next, Valid t next ∧ Sets table next key := by
  obtain ⟨⟨named,plain⟩,valued,there,granted⟩ := legal
  replace plain : 0 ∉ key := plain
  obtain ⟨object,node,value,name,rfl,outside,fresh⟩ := granted_parts valid.lists granted
  obtain ⟨source,rfl⟩ := Option.ne_none_iff_exists'.mp there
  obtain ⟨link,cursor,found,got,kept,which⟩ := get_if_valid valid plain
  simp only [cplus_llist_add_data,if_neg there,got,Option.bind_eq_bind,Option.bind_some] at ran
  rcases which with ⟨rfl,absent⟩ | ⟨data,rfl,entry⟩
  · obtain ⟨⟨after,made⟩,created,rest⟩ := Option.bind_eq_some_iff.mp ran
    simp only [new_object] at created
    split at created
    · cases created
    · rename_i failed
      obtain ⟨_,none_made,_⟩ := data_new_bears valued plain named careful failed
      cases none_made
    · rename_i dt new
      cases created
      obtain ⟨_,same,bears⟩ := data_new_bears valued plain named careful new
      cases same
      obtain ⟨last,pushed,done⟩ := push_back_valid ⟨some object,some value,some name,some node⟩
        (put_outside kept outside (some dt)) put_self bears absent rfl fresh
      obtain ⟨⟨_,_⟩,again,last_step⟩ := Option.bind_eq_some_iff.mp rest
      cases pushed.symm.trans again
      cases last_step
      exact ⟨_,done,fun other => KeyTable.has_insert absent⟩
  · obtain ⟨⟨after,res⟩,set_,rest⟩ := Option.bind_eq_some_iff.mp ran
    cases rest
    obtain ⟨dt,dt',held,done,rfl⟩ := on_object_parts set_
    refine ⟨table,put_valid kept fun name bound => ?_,sets_there entry⟩
    obtain ⟨_,same,bears⟩ := kept.bears _ _ bound
    cases held.symm.trans same
    exact ⟨dt',rfl,keeps_bears (Data.set_value_keeps _ _ _) bears done⟩

theorem append_keeps {target answer : Option Addr} (valid : Valid s table) (object : s.objects data = some dt)
    (usable : Usable dt) (outside : data ∉ table.items) (absent : ¬ table.Has key) (named : key ≠ []) (plain : 0 ∉ key)
    (small : key.length + 1 ≤ RSIZE_MAX_MEM) (old : dt.key_len ≤ RSIZE_MAX_MEM) {value name : Nat → UInt8}
    {place : Option Addr} {node : Addr} (fresh : s.list.nodes node = none)
    (ran : s.append_data key data target ⟨place,some value,some name,some node⟩ = some (t,answer)) :
    ∃ next, Valid t next ∧ Sets table next key := by
  obtain ⟨after,keyed,bears⟩ := set_key_bears name usable plain named small old
  obtain ⟨⟨_,res⟩,set_,rest⟩ := Option.bind_eq_some_iff.mp ran
  obtain ⟨_,_,same,done,rfl⟩ := on_object_parts set_
  cases object.symm.trans same
  cases keyed.symm.trans done
  obtain ⟨last,pushed,kept⟩ := push_back_valid ⟨place,some value,some name,some node⟩
    (put_outside valid outside (some after)) put_self bears absent rfl fresh
  obtain ⟨⟨_,_⟩,again,last_step⟩ := Option.bind_eq_some_iff.mp rest
  cases pushed.symm.trans again
  cases last_step
  exact ⟨_,kept,fun other => KeyTable.has_insert absent⟩

theorem update_keeps {target : Option Addr} (valid : Valid s table) (legal : Legal s (.update key data dt allocs))
    (careful : Careful s (.update key data dt allocs))
    (ran : (s.put data (some dt)).cplus_llist_update_data key data allocs = some (t,target)) :
    ∃ next, Valid t next ∧ Sets table next key := by
  obtain ⟨⟨named,plain⟩,unlisted,usable,granted⟩ := legal
  obtain ⟨small,old,refuses⟩ := careful
  replace plain : 0 ∉ key := plain
  obtain ⟨object,node,value,name,rfl,_,fresh⟩ := granted_parts valid.lists granted
  rw [lists_contents valid.lists] at unlisted refuses old
  obtain ⟨link,cursor,found,got,kept,which⟩ := get_if_valid (put_outside valid unlisted (some dt)) plain
  simp only [cplus_llist_update_data,got,Option.bind_eq_bind,Option.bind_some] at ran
  rcases which with ⟨rfl,absent⟩ | ⟨holder,rfl,entry⟩
  · have short : dt.key_len ≤ RSIZE_MAX_MEM := old (valid.unnamed absent)
    exact append_keeps kept put_self usable unlisted absent named plain small short fresh ran
  · have there : holder ∈ table.items := List.mem_map_of_mem (f := Prod.fst) entry
    have apart : holder ≠ data := fun same => unlisted (same ▸ there)
    obtain ⟨src,source,rest⟩ := Option.bind_eq_some_iff.mp ran
    cases put_self.symm.trans source
    obtain ⟨⟨_,res⟩,cloned,rest⟩ := Option.bind_eq_some_iff.mp rest
    obtain ⟨held,after,object_,done,rfl⟩ := on_object_parts cloned
    obtain ⟨_,same,bears⟩ := kept.bears _ _ entry
    cases object_.symm.trans same
    have refused : Unclonable held dt := refuses holder there held ((put_other apart).symm.trans object_) bears
    obtain ⟨_,failed⟩ := clone_value_refused refused (some value)
    cases failed.symm.trans done
    cases rest
    refine ⟨table,put_valid kept fun name bound => ?_,sets_there entry⟩
    obtain ⟨_,same,bears⟩ := kept.bears _ _ bound
    cases object_.symm.trans same
    exact ⟨after,rfl,keeps_bears (Data.clone_value_keeps dt _) bears done⟩

theorem remove_keeps {res : Int} (valid : Valid s table) (plain : 0 ∉ key)
    (ran : s.cplus_llist_remove_data key = some (t,res)) :
    ∃ next, Valid t next ∧ ∀ other, next.Has other ↔ table.Has other ∧ other ≠ key := by
  obtain ⟨after,popped,lists⟩ := pop_if_lists valid.lists (find_node_by_key s.objects key)
  have finds : ∀ data other, (data,other) ∈ table.entries →
      (LinkedList.accepts (find_node_by_key s.objects key) data = true ↔ other = key) := by
    intro data other entry
    obtain ⟨dt,object,bears⟩ := valid.bears _ _ entry
    exact found_iff object bears plain
  rw [← KeyTable.erase_items finds] at lists
  have bears : ∀ data other, (data,other) ∈ (table.erase key).entries → ∃ dt, s.objects data = some dt ∧ Bears dt other :=
    fun data other entry => valid.bears _ _ (List.mem_of_mem_eraseP entry)
  have kept : Valid {s with list := after} (table.erase key) := ⟨lists,bears⟩
  simp only [cplus_llist_remove_data,popped,Option.bind_eq_bind,Option.bind_some] at ran
  rcases find_entry valid plain with ⟨nothing,_⟩ | ⟨data,found,entry⟩
  · rw [nothing] at ran
    cases ran
    exact ⟨_,kept,fun _ => KeyTable.has_erase⟩
  · rw [found] at ran
    cases ran
    -- An entry of the object that is gone would be under this key.
    refine ⟨_,put_valid kept fun other bound => ?_,fun _ => KeyTable.has_erase⟩
    obtain ⟨dt,object,bears_other⟩ := valid.bears _ _ (List.mem_of_mem_eraseP bound)
    obtain ⟨_,same,bears_key⟩ := valid.bears _ _ entry
    cases object.symm.trans same
    obtain rfl := Option.some.inj (bears_other.2.symm.trans bears_key.2)
    exact absurd rfl (KeyTable.has_erase.mp (KeyTable.has_entry bound)).2

-- What the last call with a key was, if there was one.
def LastSets (calls : List Call) (key : List UInt8) : Bool :=
  (calls.filter fun call => call.key = key).getLast?.any Call.sets

theorem last_snoc (calls : List Call) (call : Call) (key : List UInt8) :
    LastSets (calls ++ [call]) key = if call.key = key then call.sets else LastSets calls key := by
  unfold LastSets
  rw [List.filter_append]
  by_cases same : call.key = key
  · simp [same]
  · simp [same]

theorem Sets.has {next : KeyTable Addr (List UInt8)} (sets : Sets table next key) (other : List UInt8) :
    next.Has other ↔ if key = other then true = true else table.Has other := by
  rw [sets other]
  split
  · rename_i same
    simp [same]
  · rename_i apart
    simp [Ne.symm apart]

theorem step_keeps {call : Call} (valid : Valid s table) (taken : Step s call t) (careful : Careful s call) :
    ∃ next, Valid t next ∧
      ∀ other, next.Has other ↔ if call.key = other then call.sets = true else table.Has other := by
  obtain ⟨legal,ran⟩ := taken
  cases call with
  | add type key value1 value2 allocs =>
    obtain ⟨⟨_,target⟩,called,rfl⟩ := Option.map_eq_some_iff.mp ran
    obtain ⟨next,kept,sets⟩ := add_keeps valid legal careful called
    exact ⟨next,kept,sets.has⟩
  | update key data dt allocs =>
    obtain ⟨⟨_,target⟩,called,rfl⟩ := Option.map_eq_some_iff.mp ran
    obtain ⟨next,kept,sets⟩ := update_keeps valid legal careful called
    exact ⟨next,kept,sets.has⟩
  | remove key =>
    obtain ⟨⟨_,res⟩,called,rfl⟩ := Option.map_eq_some_iff.mp ran
    obtain ⟨next,kept,left⟩ := remove_keeps valid legal.1.2 called
    refine ⟨next,kept,fun other => ?_⟩
    rw [left other]
    by_cases same : key = other
    · simp [Call.key,Call.sets,same]
    · simp [Call.key,same,Ne.symm same]

-- The table of a run has the keys that were last set.
theorem run_keeps {moves : List (Move KeyedList Call)} (run : Run Step cplus_llist_new moves s)
    (careful : Meets Careful moves) :
    ∃ table, Valid s table ∧ ∀ key, table.Has key ↔ LastSets (moves.map Move.action) key = true := by
  induction run with
  | nil =>
    refine ⟨.empty,⟨⟨_,LinkedList.empty_refines,rfl⟩,nofun⟩,fun key => ?_⟩
    exact ⟨fun has => absurd has KeyTable.not_has_empty,nofun⟩
  | snoc prior taken ih =>
    obtain ⟨before,last⟩ := meets_snoc.mp careful
    obtain ⟨table,valid,has⟩ := ih before
    obtain ⟨next,kept,after⟩ := step_keeps valid taken last
    refine ⟨next,kept,fun key => ?_⟩
    rw [after key,List.map_append,List.map_cons,List.map_nil,last_snoc]
    split
    · exact Iff.rfl
    · exact has key

-- The nodes whose object bears a key.
def bears_key (s : KeyedList) (key : List UInt8) (data : Addr) : Bool :=
  ((s.objects data).bind Data.key).bind c_string = some key

theorem bearers_once (valid : Valid s table) (key : List UInt8) : s.list.contents.countP (s.bears_key key) ≤ 1 := by
  rw [lists_contents valid.lists,KeyTable.items,List.countP_map]
  refine Nat.le_trans (Nat.le_of_eq (List.countP_congr fun entry there => ?_)) (table.key_once key)
  obtain ⟨dt,object,bears⟩ := valid.bears entry.1 entry.2 there
  have name : ((s.objects entry.1).bind Data.key).bind c_string = some entry.2 := by rw [object]; exact bears.2
  simp only [Function.comp,bears_key,name,Option.some.injEq,decide_eq_true_eq]

theorem keyed_map {moves : List (Move KeyedList Call)} (run : Run Step cplus_llist_new moves s)
    (careful : Meets Careful moves) :
    (∀ key, s.list.contents.countP (s.bears_key key) ≤ 1) ∧
    ∀ key, 0 ∉ key → ∃ after target, s.cplus_llist_find_data key = some (after,target) ∧
      (target ≠ none ↔ LastSets (moves.map Move.action) key = true) := by
  obtain ⟨table,valid,has⟩ := run_keeps run careful
  refine ⟨bearers_once valid,fun key plain => ?_⟩
  obtain ⟨link,cursor,target,got,_,which⟩ := get_if_valid valid plain
  refine ⟨_,target,got,?_⟩
  rw [← has key]
  rcases which with ⟨rfl,absent⟩ | ⟨data,rfl,entry⟩
  · exact ⟨fun some_found => absurd rfl some_found,fun there => absurd there absent⟩
  · exact ⟨fun _ => KeyTable.has_entry entry,nofun⟩

end Steps

section Runs
def advance (s : KeyedList) (call : Call) : Option KeyedList := if Legal s call then call.run s else none

theorem advance_step (s : KeyedList) (call : Call) (t : KeyedList) (taken : Follows advance s call t) : Step s call t := by
  unfold Follows advance at taken
  split at taken
  · rename_i legal
    exact ⟨legal,taken⟩
  · cases taken

theorem run_of_calls (calls : List Call) (check : List (Move KeyedList Call) × KeyedList → Bool)
    (passes : (execute advance cplus_llist_new calls).any check = true) : ∃ moves s,
      Run Step cplus_llist_new moves s ∧ moves.map Move.action = calls ∧ check (moves,s) = true := by
  obtain ⟨moves,s,run,same,checked⟩ := Run.of_check advance cplus_llist_new calls check passes
  exact ⟨moves,s,run.imp advance_step,same,checked⟩

def granted (n : Nat) : Allocations := ⟨some n,some fun _ => 0,some fun _ => 0,some n⟩

-- cplus_data_new_uint8.
def number (value : BitVec 8) : Data := ⟨true,0,0,none,false,0,0,.integer .UINT8 value⟩

def careful_calls : List Call :=
  [.add (.integer .UINT8) [97] (some [5]) none (granted 0),.update [98] 10 (number 6) (granted 1),
   .add (.integer .UINT8) [97] (some [7]) none (granted 2),.remove [97]]

theorem careful_found : ∃ moves s, Run Step cplus_llist_new moves s ∧ moves.map Move.action = careful_calls ∧
    (∃ after, s.cplus_llist_find_data [97] = some (after,none)) ∧
    ∃ after data, s.cplus_llist_find_data [98] = some (after,some data) := by
  obtain ⟨moves,s,run,same,checked⟩ := run_of_calls careful_calls
    (fun result => decide (Meets Careful result.1)) (by decide +kernel)
  obtain ⟨_,finds⟩ := keyed_map run (of_decide_eq_true checked)
  obtain ⟨first,a,found_a,set_a⟩ := finds [97] (by decide)
  obtain ⟨second,b,found_b,set_b⟩ := finds [98] (by decide)
  rw [same] at set_a set_b
  have gone : a = none := by simpa using mt set_a.mp (by decide)
  obtain ⟨data,there⟩ := Option.ne_none_iff_exists'.mp (set_b.mpr (by decide))
  exact ⟨moves,s,run,same,⟨first,gone ▸ found_a⟩,second,data,there ▸ found_b⟩

-- An update of a key that is there adds a second node, which a removal leaves.
def duplicating_calls : List Call :=
  [.add (.integer .UINT8) [97] (some [5]) none (granted 0),.update [97] 10 (number 6) (granted 1),.remove [97]]

theorem update_duplicates : ∃ moves s, Run Step cplus_llist_new moves s ∧ moves.map Move.action = duplicating_calls ∧
    (∃ m ∈ moves, m.after.list.contents.countP (m.after.bears_key [97]) = 2) ∧
    ∃ after data, s.cplus_llist_find_data [97] = some (after,some data) := by
  obtain ⟨moves,s,run,same,checked⟩ := run_of_calls duplicating_calls
    (fun result => decide (∃ m ∈ result.1,m.after.list.contents.countP (m.after.bears_key [97]) = 2) &&
      (result.2.cplus_llist_find_data [97]).any fun found => found.2.isSome) (by decide +kernel)
  obtain ⟨twice,left⟩ := (Bool.and_eq_true _ _).mp checked
  obtain ⟨⟨after,target⟩,found,there⟩ := (Option.any_eq_true _ _).mp left
  obtain ⟨data,rfl⟩ := Option.isSome_iff_exists.mp there
  exact ⟨moves,s,run,same,of_decide_eq_true twice,after,data,found⟩

end Runs

end KeyedList

end Libcplus
