import Libcplus.Llist.Pooled
import Libcplus.Llist.Session

namespace Libcplus
open LinkedList Typedef
variable {D : Type}

-- The calls in question: at the two ends, by value, and the lookups.
def Op.Deque : Op D → Prop
  | .push_at .. | .pop_of _ | .sort _ => False
  | _ => True

def Op.Removal : Op D → Prop
  | .pop_of _ | .pop_front | .pop_back | .pop_if _ | .delete_data _ => True
  | _ => False

-- How many items a removal has taken out, by its answer.
def Op.taken : Op D → Answer D → Nat
  | .pop_of _,.data target | .pop_front,.data target | .pop_back,.data target | .pop_if _,.data target =>
    target.toList.length
  | .delete_data _,.res res => if res = CPLUS_SUCCESS then 1 else 0
  | _,_ => 0

-- The item that a push brings.
def Op.item : Op D → Option D
  | .push_at _ data _ | .push_front data _ | .push_back data _ => data
  | _ => none

-- The same call, given another node.
def Op.supply (node : Option Addr) : Op D → Op D
  | .push_at index data _ => .push_at index data node
  | .push_front data _ => .push_front data node
  | .push_back data _ => .push_back data node
  | op => op

end Libcplus

-- What a call adds to the items, or takes off them.
namespace Sequence
open Libcplus LinkedList Typedef
variable {D : Type} {s : Sequence D} {index : Int}

theorem push_longer (s : Sequence D) (index : Int) (data : D) (node : Addr)
    (inside : 0 ≤ index ∧ index ≤ s.items.length) :
    (s.push index (some data) (some node)).2 = .res CPLUS_SUCCESS ∧
      (s.push index (some data) (some node)).1.items.length = s.items.length + 1 := by
  unfold push
  dsimp only
  rw [if_pos inside,insert_items,List.length_insertIdx_of_le_length (by omega)]
  exact ⟨rfl,rfl⟩

theorem pop_balance {target : Option D} (meant : (s.pop index).2 = .data target) :
    (s.pop index).1.items.length + target.toList.length = s.items.length := by
  unfold pop at meant ⊢
  split at meant
  · rename_i inside
    obtain rfl : s.items[s.slot index.toNat]? = target := Answer.data.inj meant
    rw [if_pos inside,remove_items,List.length_eraseIdx]
    by_cases there : s.slot index.toNat < s.items.length
    · rw [if_pos there,List.getElem?_eq_getElem there]
      show s.items.length - 1 + 1 = _
      omega
    · rw [if_neg there,List.getElem?_eq_none (by omega)]
      rfl
  · rename_i outside
    obtain rfl : none = target := Answer.data.inj meant
    rw [if_neg outside]
    rfl

theorem discard_balance (found : D → Bool) :
    (s.discard found).items.length + (s.items.find? found).toList.length = s.items.length := by
  rw [discard_items,List.length_eraseP]
  cases there : s.items.find? found with
  | none =>
    have nowhere : s.items.any found = false := by
      rw [List.any_eq_false]
      exact List.find?_eq_none.mp there
    rw [nowhere]
    rfl
  | some data =>
    have member := List.mem_of_find?_eq_some there
    have somewhere : s.items.any found = true := List.any_eq_true.mpr ⟨data,member,List.find?_some there⟩
    have positive := List.length_pos_of_mem member
    rw [somewhere]
    show s.items.length - 1 + 1 = _
    omega

theorem deleted [DecidableEq D] (s : Sequence D) (data : D) :
    (if (if data ∈ s.items then CPLUS_SUCCESS else CPLUS_FAIL) = CPLUS_SUCCESS then 1 else 0) =
      (s.items.find? (data = ·)).toList.length := by
  by_cases member : data ∈ s.items
  · have somewhere : (s.items.find? (data = ·)).isSome :=
      List.find?_isSome.mpr ⟨data,member,decide_eq_true rfl⟩
    obtain ⟨found,there⟩ := Option.isSome_iff_exists.mp somewhere
    rw [if_pos member,there]
    rfl
  · have nowhere : s.items.find? (data = ·) = none := by
      rw [List.find?_eq_none]
      rintro found there accepted
      rw [of_decide_eq_true accepted] at member
      exact member there
    rw [if_neg member,nowhere]
    rfl

theorem call_balance [DecidableEq D] {op : Op D} {answer : Answer D} (removal : op.Removal)
    (meant : (s.call op).2 = some answer) :
    (s.call op).1.items.length + op.taken answer = s.items.length := by
  have pops : ∀ index, ((s.pop index).map id some).2 = some answer → ∃ target, answer = .data target ∧
      (s.pop index).1.items.length + target.toList.length = s.items.length := by
    intro index given
    obtain ⟨target,shape⟩ : ∃ target, (s.pop index).2 = .data target := by
      unfold pop
      split <;> exact ⟨_,rfl⟩
    exact ⟨target,(Option.some.inj given).symm.trans shape,pop_balance shape⟩
  cases op with
  | pop_of index =>
    obtain ⟨target,rfl,balance⟩ := pops index meant
    exact balance
  | pop_front =>
    obtain ⟨target,rfl,balance⟩ := pops 0 meant
    exact balance
  | pop_back =>
    obtain ⟨target,rfl,balance⟩ := pops s.items.length meant
    exact balance
  | pop_if comparator =>
    cases comparator with
    | none =>
      obtain rfl := Option.some.inj meant
      rfl
    | some comparator =>
      obtain rfl := Option.some.inj meant
      exact discard_balance _
  | delete_data data =>
    cases data with
    | none =>
      obtain rfl := Option.some.inj meant
      rfl
    | some data =>
      obtain rfl := Option.some.inj meant
      refine Eq.trans ?_ (s.discard_balance (data = ·))
      exact congrArg _ (s.deleted data)
  | _ => cases removal

end Sequence

namespace Libcplus
open DoublyLinked Transition Memory Typedef

variable {D : Type}

namespace PooledList
open LinkedList
variable {layout : Node Addr D → Nat → UInt8} {pl : PooledList D} {list after : LinkedList D}
  {mp : Mempool} {stack chain : List Nat} {max_count : Nat} {s : Sequence D}

theorem lookup_spec [DecidableEq D] (backed : Backed max_count pl mp stack chain) {op : Op D}
    (lookup : op.Lookup) {answer : Answer D} (called : pl.list.call op = some (after,answer)) :
    Leaves max_count stack s.items.length (pl.call layout op) after answer (s.call op).1.items.length := by
  have quiet : op.Quiet := by
    cases op with
    | push_at | push_front | push_back | sort | clear => cases lookup
    | _ => trivial
  have frame : Frame pl.list after := call_frames quiet _ called
  have same : pl.call layout op = some (pl.write layout after,answer) := by
    cases op with
    | push_at | push_front | push_back | pop_of | pop_front | pop_back | pop_if | delete_data | clear | sort =>
      cases lookup
    | _ => exact congrArg (Option.map _) called
  rw [same,s.lookup_items lookup]
  exact backed.writes frame.absent

theorem call_spec [DecidableEq D] (backed : Backed max_count pl mp stack chain) (refines : Refines pl.list s)
    {op : Op D} (deque : op.Deque) {answer : Answer D}
    (called : pl.list.call (op.supply (stack.head?.map (· * SIZEOF_LLIST_NODE))) = some (after,answer))
    (meant : (s.call (op.supply (stack.head?.map (· * SIZEOF_LLIST_NODE)))).2 = some answer) :
    Leaves max_count stack s.items.length (pl.call layout op) after answer
      (s.call (op.supply (stack.head?.map (· * SIZEOF_LLIST_NODE)))).1.items.length := by
  have count := refines_count refines
  cases op with
  | push_front data heap =>
    obtain ⟨⟨list,res⟩,pushed,same⟩ := Option.map_eq_some_iff.mp called
    cases same
    exact (push_at_spec backed count pushed).map Answer.res
  | push_back data heap =>
    obtain ⟨⟨list,res⟩,pushed,same⟩ := Option.map_eq_some_iff.mp called
    cases same
    have last : s.push pl.list.count data (stack.head?.map (· * SIZEOF_LLIST_NODE)) =
        s.push s.items.length data (stack.head?.map (· * SIZEOF_LLIST_NODE)) := by rw [count]
    have leaves : Leaves max_count stack _ (pl.cplus_llist_push_at layout pl.list.count data heap) list res _ :=
      push_at_spec backed count pushed
    rw [last] at leaves
    exact leaves.map Answer.res
  | pop_front =>
    obtain ⟨⟨list,target⟩,popped,same⟩ := Option.map_eq_some_iff.mp called
    cases same
    have balance := Sequence.call_balance (by trivial) meant
    exact (pop_of_spec backed popped balance).map Answer.data
  | pop_back =>
    obtain ⟨⟨list,target⟩,popped,same⟩ := Option.map_eq_some_iff.mp called
    cases same
    have balance := Sequence.call_balance (by trivial) meant
    exact (pop_of_spec backed popped balance).map Answer.data
  | pop_if comparator =>
    obtain ⟨⟨list,target⟩,popped,same⟩ := Option.map_eq_some_iff.mp called
    cases same
    have balance := Sequence.call_balance (by trivial) meant
    exact (pop_if_spec backed popped balance).map Answer.data
  | delete_data data =>
    obtain ⟨⟨list,res⟩,removed,same⟩ := Option.map_eq_some_iff.mp called
    cases same
    have balance := Sequence.call_balance (by trivial) meant
    exact (delete_data_spec backed removed balance).map Answer.res
  | clear =>
    obtain ⟨⟨list,res⟩,cleared,same⟩ := Option.map_eq_some_iff.mp called
    cases same
    obtain ⟨cells,represents,_,data⟩ := refines
    have leaves := clear_spec backed represents cleared
    rw [← items_length,data] at leaves
    exact leaves.map Answer.res
  | push_at | pop_of | sort => cases deque
  | _ => exact lookup_spec backed (by trivial) called

-- A list without a mempool is the plain list.
theorem free_from_heap (fuel : Nat) (list : LinkedList D) (node : Option Addr) :
    free_from fuel ⟨list,none⟩ node = (LinkedList.free_from fuel list node).map (⟨·,none⟩) := by
  induction fuel generalizing list node with
  | zero => cases node <;> rfl
  | succ fuel ih =>
    cases node with
    | none => rfl
    | some node =>
      show (list.nodes node).bind _ = ((list.nodes node).bind _).map _
      cases list.nodes node with
      | none => rfl
      | some cell => exact ih (list.free_node node) cell.next

theorem answer_free_heap (result : LinkedList D × Option Addr) :
    answer_free layout ⟨list,none⟩ result = (LinkedList.answer_free result).map (.map (⟨·,none⟩) id) := by
  obtain ⟨after,_ | node⟩ := result
  · rfl
  · show (after.get_data node).bind _ = ((after.get_data node).map _).map _
    cases after.get_data node <;> rfl

theorem pop_of_heap (index : Int) : cplus_llist_pop_of layout ⟨list,none⟩ index =
    (list.cplus_llist_pop_of index).map (.map (⟨·,none⟩) id) := by
  unfold cplus_llist_pop_of LinkedList.cplus_llist_pop_of
  split
  · rfl
  · rw [Option.map_bind]
    exact congrArg _ (funext answer_free_heap)

theorem pop_if_heap (comparator : Option (D → Int)) : cplus_llist_pop_if layout ⟨list,none⟩ comparator =
    (list.cplus_llist_pop_if comparator).map (.map (⟨·,none⟩) id) := by
  cases comparator with
  | none => rfl
  | some comparator =>
    show (list.pop_if comparator).bind _ = ((list.pop_if comparator).bind _).map _
    rw [Option.map_bind]
    exact congrArg _ (funext answer_free_heap)

theorem push_at_heap (index : Int) (data : Option D) (heap : Option Addr) :
    cplus_llist_push_at layout ⟨list,none⟩ index data heap =
      (list.cplus_llist_push_at index data heap).map (.map (⟨·,none⟩) id) := by
  cases data with
  | none => rfl
  | some data =>
    unfold cplus_llist_push_at LinkedList.cplus_llist_push_at
    dsimp only
    split
    · rfl
    · cases heap with
      | none => rfl
      | some node =>
        show ((list.new_node node data).push_at index node).bind _ =
          ((list.new_node node data).push_at index node).map _
        cases (list.new_node node data).push_at index node <;> rfl

theorem delete_data_heap [DecidableEq D] (data : Option D) :
    cplus_llist_delete_data layout ⟨list,none⟩ data =
      (list.cplus_llist_delete_data data).map (.map (⟨·,none⟩) id) := by
  cases data with
  | none => rfl
  | some data =>
    show remove_data layout ⟨list,none⟩ data = (list.remove_data data).map _
    unfold remove_data LinkedList.remove_data
    dsimp only
    cases seek (fun found => data = found) (list.count + 1) list.reset_cur_node with
    | none => rfl
    | some result =>
      obtain ⟨after,_ | node⟩ := result
      · rfl
      · show (after.remove_node node).bind _ = ((after.remove_node node).bind _).map _
        cases after.remove_node node <;> rfl

theorem heap_answer {R T : Type} {called : Option (PooledList D × R)} {plain : Option (LinkedList D × R)}
    (same : called = plain.map (Prod.map (⟨·,none⟩) id)) (give : R → T) :
    called.map (Prod.map id give) = (plain.map (Prod.map id give)).map (Prod.map (⟨·,none⟩) id) := by
  rw [same,Option.map_map,Option.map_map]
  rfl

theorem heap_call [DecidableEq D] (list : LinkedList D) (op : Op D) :
    call layout ⟨list,none⟩ op = (list.call op).map (.map (⟨·,none⟩) id) := by
  cases op with
  | push_at index data heap => exact heap_answer (push_at_heap index data heap) Answer.res
  | push_front data heap => exact heap_answer (push_at_heap 0 data heap) Answer.res
  | push_back data heap => exact heap_answer (push_at_heap list.count data heap) Answer.res
  | pop_of index => exact heap_answer (pop_of_heap index) Answer.data
  | pop_front => exact heap_answer (pop_of_heap 0) Answer.data
  | pop_back => exact heap_answer (pop_of_heap list.count) Answer.data
  | pop_if comparator => exact heap_answer (pop_if_heap comparator) Answer.data
  | delete_data data => exact heap_answer (delete_data_heap data) Answer.res
  | clear =>
    have cleared : cplus_llist_clear ⟨list,none⟩ = list.cplus_llist_clear.map (.map (⟨·,none⟩) id) := by
      unfold cplus_llist_clear LinkedList.cplus_llist_clear
      rw [free_from_heap]
      cases LinkedList.free_from list.count list list.head <;> rfl
    exact heap_answer cleared Answer.res
  | _ => rfl

end PooledList

open LinkedList PooledList

-- A list with nodes from the heap and one with a mempool, given the same calls, and
-- the last answers of both. Either is none after a fault.
structure Twins (D : Type) where
  heap : Option (PooledList D)
  pooled : Option (PooledList D)
  heap_answer : Option (Answer D)
  pooled_answer : Option (Answer D)

namespace Twins

def start (pooled : PooledList D) : Twins D := ⟨cplus_llist_new,some pooled,none,none⟩

-- The calls in question. The heap has a node for a push as long as the other list
-- has fewer than max_count.
def Granted (max_count : Nat) (heap pooled : LinkedList D) : Op D → Prop
  | .push_front _ alloc | .push_back _ alloc =>
    (alloc ≠ none ↔ pooled.count < max_count) ∧ ∀ node ∈ alloc, heap.nodes node = none
  | .get_set_if _ allocs => allocs.Pairwise fun a b => a = none ∨ a ≠ b
  | .push_at .. | .pop_of _ | .sort _ => False
  | _ => True

instance (max_count : Nat) (heap pooled : LinkedList D) (op : Op D) :
    Decidable (Granted max_count heap pooled op) :=
  match op with
  | .push_front _ alloc | .push_back _ alloc => inferInstanceAs (Decidable (_ ∧ ∀ node ∈ alloc, _))
  | .get_set_if _ allocs => inferInstanceAs (Decidable (allocs.Pairwise _))
  | .push_at .. | .pop_of _ | .sort _ => isFalse id
  | .pop_front | .pop_back | .pop_if _ | .delete_data _ | .clear | .get_of _ | .get_if _ | .get_index_if _ |
    .get_next | .get_prev | .get_cycling_next => isTrue trivial

def call [DecidableEq D] (layout : Node Addr D → Nat → UInt8) (heap pooled : PooledList D) (op : Op D) : Twins D :=
  ⟨(heap.call layout op).map Prod.fst,(pooled.call layout op).map Prod.fst,
    (heap.call layout op).map Prod.snd,(pooled.call layout op).map Prod.snd⟩

def advance [DecidableEq D] (layout : Node Addr D → Nat → UInt8) (max_count : Nat) (s : Twins D) (op : Op D) :
    Option (Twins D) := do
  let heap ← s.heap
  let pooled ← s.pooled
  if Granted max_count heap.list pooled.list op then some (call layout heap pooled op) else none

-- Neither list has faulted, and they answer the same.
def Agrees (s : Twins D) : Prop := ∃ heap pooled answer, s.heap = some heap ∧ s.pooled = some pooled ∧
  s.heap_answer = some answer ∧ s.pooled_answer = some answer

-- A push fails when there are max_count items, and changes nothing, and is done when
-- there are fewer. A removal makes room for what it takes out.
structure Rooms (max_count : Nat) (op : Op D) (before after : LinkedList D) (answer : Answer D) : Prop where
  bounded : after.count ≤ max_count
  full : op.Pushes → before.count = max_count → after = before ∧ answer = .res CPLUS_FAIL
  pushed : op.item ≠ none → before.count < max_count →
    after.count = before.count + 1 ∧ answer = .res CPLUS_SUCCESS
  popped : op.Removal → after.count + op.taken answer = before.count

-- Both lists stand for the same items, and the free blocks are as many as items that
-- there is room for.
structure Paired (max_count : Nat) (list : LinkedList D) (pl : PooledList D) (s : Sequence D) : Prop where
  heap : Refines list s
  pooled : Refines pl.list s
  pool : ∃ mp stack chain, Backed max_count pl mp stack chain ∧ stack.length + s.items.length = max_count

variable {layout : Node Addr D → Nat → UInt8} {list : LinkedList D} {pl : PooledList D} {s : Sequence D}
  {max_count : Nat} {op : Op D} {node : Option Addr}

theorem deque_answers [DecidableEq D] (deque : op.Deque) : ∃ expected, (s.call op).2 = some expected := by
  cases op with
  | push_at | pop_of | sort => cases deque
  | pop_if comparator => cases comparator <;> exact ⟨_,rfl⟩
  | delete_data data => cases data <;> exact ⟨_,rfl⟩
  | get_if comparator => cases comparator <;> exact ⟨_,rfl⟩
  | get_index_if comparator => cases comparator <;> exact ⟨_,rfl⟩
  | get_set_if comparator allocs => cases comparator <;> exact ⟨_,rfl⟩
  | _ => exact ⟨_,rfl⟩

theorem granted_deque {heap : LinkedList D} (granted : Granted max_count heap list op) : op.Deque := by
  cases op with
  | push_at | pop_of | sort => cases granted
  | _ => trivial

-- A push means the same with any node.
theorem push_supply {index : Int} {data : Option D} {alloc : Option Addr} (same : alloc ≠ none ↔ node ≠ none) :
    s.push index data alloc = s.push index data node := by
  cases alloc with
  | none =>
    obtain rfl : node = none := by simpa using same
    rfl
  | some alloc =>
    obtain ⟨node,rfl⟩ := Option.ne_none_iff_exists'.mp (same.mp nofun)
    cases data <;> rfl

theorem supply_means [DecidableEq D] {heap : LinkedList D} (granted : Granted max_count heap list op)
    (same : list.count < max_count ↔ node ≠ none) : s.call op = s.call (op.supply node) := by
  cases op with
  | push_front data alloc => exact congrArg (Prod.map id some) (push_supply (granted.1.trans same))
  | push_back data alloc => exact congrArg (Prod.map id some) (push_supply (granted.1.trans same))
  | push_at | pop_of | sort => cases granted
  | _ => rfl

theorem refused_call [DecidableEq D] (pushes : op.Pushes) :
    list.call (op.supply none) = some (list,.res CPLUS_FAIL) := by
  have refused : ∀ index data, list.cplus_llist_push_at index data none = some (list,CPLUS_FAIL) := by
    intro index data
    cases data with
    | none => rfl
    | some data =>
      unfold LinkedList.cplus_llist_push_at
      exact ite_self _
  cases op with
  | push_at index data alloc => exact congrArg (Option.map _) (refused index data)
  | push_front data alloc => exact congrArg (Option.map _) (refused 0 data)
  | push_back data alloc => exact congrArg (Option.map _) (refused list.count data)
  | _ => cases pushes

theorem supplied_push [DecidableEq D] (deque : op.Deque) (item : op.item ≠ none) (node : Addr) :
    (s.call (op.supply (some node))).2 = some (.res CPLUS_SUCCESS) ∧
      (s.call (op.supply (some node))).1.items.length = s.items.length + 1 := by
  cases op with
  | push_front data alloc =>
    obtain ⟨data,rfl⟩ := Option.ne_none_iff_exists'.mp item
    have pushed := s.push_longer 0 data node ⟨by omega,by omega⟩
    exact ⟨congrArg some pushed.1,pushed.2⟩
  | push_back data alloc =>
    obtain ⟨data,rfl⟩ := Option.ne_none_iff_exists'.mp item
    have pushed := s.push_longer s.items.length data node ⟨by omega,by omega⟩
    exact ⟨congrArg some pushed.1,pushed.2⟩
  | push_at => cases deque
  | _ => exact absurd rfl item

-- The calls that are granted do what they mean on either list.
theorem granted_keeps [DecidableEq D] {other : LinkedList D} (refines : Refines list s)
    (granted : Granted max_count list other op) (few : list.count + 1 < 2^31 - 1) :
    Keeps (list.call op) (s.call op) := by
  have allowed : list.Allowed op := by
    cases op with
    | push_front data alloc => exact ⟨few,granted.2⟩
    | push_back data alloc => exact ⟨few,granted.2⟩
    | push_at | pop_of | sort => cases granted
    | get_set_if comparator allocs => exact granted
    | _ => trivial
  have reaches : list.Reaches op := by
    cases op with
    | push_at | pop_of => cases granted
    | _ => trivial
  have sorts : list.Sorts op := by
    cases op with
    | sort => cases granted
    | _ => trivial
  exact call_keeps refines allowed sorts reaches

theorem Granted.supply {heap : LinkedList D} (granted : Granted max_count heap list op)
    (room : list.count < max_count ↔ node ≠ none) (fresh : ∀ a ∈ node, list.nodes a = none) :
    Granted max_count list list (op.supply node) := by
  cases op with
  | push_front data alloc => exact ⟨room.symm,fresh⟩
  | push_back data alloc => exact ⟨room.symm,fresh⟩
  | push_at | pop_of | sort => cases granted
  | get_set_if comparator allocs => exact granted
  | _ => trivial

-- One call on both.
theorem call_paired [DecidableEq D] (layout : Node Addr D → Nat → UInt8) (paired : Paired max_count list pl s)
    (small : max_count ≤ MAX_NODE_COUNT) (granted : Granted max_count list pl.list op) : ∃ after next answer,
    PooledList.call layout ⟨list,none⟩ op = some (⟨after,none⟩,answer) ∧
      PooledList.call layout pl op = some (next,answer) ∧ Paired max_count after next (s.call op).1 ∧
      Rooms max_count op pl.list next.list answer := by
  obtain ⟨mp,stack,chain,backed,balance⟩ := paired.pool
  have count := refines_count paired.pooled
  have heap_count := refines_count paired.heap
  have bound : MAX_NODE_COUNT = 1048576 := rfl
  have deque := granted_deque granted
  have room : pl.list.count < max_count ↔ stack.head?.map (· * SIZEOF_LLIST_NODE) ≠ none := by
    cases stack with
    | nil =>
      rw [List.length_nil] at balance
      exact iff_of_false (by omega) (fun more => more rfl)
    | cons i below =>
      rw [List.length_cons] at balance
      exact iff_of_true (by omega) nofun
  have fresh : ∀ node ∈ stack.head?.map (· * SIZEOF_LLIST_NODE), pl.list.nodes node = none := by
    intro node top
    obtain ⟨i,here,rfl⟩ := Option.map_eq_some_iff.mp top
    exact backed.vacant (List.mem_of_mem_head? here)
  have means := supply_means (s := s) granted room
  obtain ⟨expected,answers⟩ := deque_answers (s := s) deque
  obtain ⟨after,answer,called,kept,given⟩ := granted_keeps paired.heap granted (by omega)
  obtain rfl : answer = expected := given expected answers
  rw [means] at answers
  obtain ⟨other,again,done,stays,agreed⟩ :=
    granted_keeps paired.pooled (granted.supply room fresh) (by omega)
  obtain rfl : again = answer := agreed answer answers
  obtain ⟨next,mp',stack',chain',ran,rfl,settled,left⟩ := call_spec backed paired.pooled deque done answers
  have length := refines_count stays
  rw [← means] at stays left answers length
  refine ⟨after,next,again,?_,ran,⟨kept,stays,mp',stack',chain',settled,left.trans balance⟩,?_,?_,?_,?_⟩
  · rw [heap_call,called]
    rfl
  · omega
  · intro pushes full
    obtain rfl : stack = [] := List.length_eq_zero_iff.mp (by omega)
    have refused := (refused_call pushes).symm.trans done
    obtain ⟨same,answered⟩ := Prod.mk.inj (Option.some.inj refused)
    exact ⟨same.symm,answered.symm⟩
  · intro item fewer
    obtain ⟨node,top⟩ := Option.ne_none_iff_exists'.mp (room.mp fewer)
    obtain ⟨success,longer⟩ := supplied_push (s := s) deque item node
    rw [top] at means
    rw [← means] at success longer
    refine ⟨by omega,?_⟩
    exact Option.some.inj (answers.symm.trans success)
  · intro removal
    have taken := Sequence.call_balance removal answers
    omega

def Invariant (max_count : Nat) (t : Twins D) : Prop := ∃ list pl s,
  t.heap = some ⟨list,none⟩ ∧ t.pooled = some pl ∧ Paired max_count list pl s

theorem prev_new_parts {outcome : Outcome} (made : cplus_llist_prev_new outcome max_count = some pl)
    (positive : 1 ≤ max_count) : max_count ≤ MAX_NODE_COUNT ∧ ∃ mp,
    Mempool.cplus_mempool_new outcome max_count SIZEOF_LLIST_NODE = some mp ∧
      pl = ⟨Libcplus.llist_initialize_object,some mp⟩ := by
  unfold cplus_llist_prev_new PooledList.llist_initialize_object at made
  split at made
  · cases made
  · refine ⟨by omega,?_⟩
    split at made
    · rw [if_pos (by omega)] at made
      cases made
    · rename_i mp new
      exact ⟨mp,new,(Option.some.inj made).symm⟩

theorem start_invariant {outcome : Outcome} (made : cplus_llist_prev_new outcome max_count = some pl)
    (positive : 1 ≤ max_count) : Invariant max_count (start pl) := by
  obtain ⟨small,mp,new,rfl⟩ := prev_new_parts made positive
  have room : max_count * SIZEOF_LLIST_NODE < 2^32 := by
    have bound : MAX_NODE_COUNT = 1048576 := rfl
    show max_count * 24 < 2^32
    omega
  obtain ⟨stands,count,size⟩ := Mempool.new_spec room new
  have backed : Backed max_count ⟨(Libcplus.llist_initialize_object : LinkedList D),some mp⟩ mp
      (List.range max_count) [] := ⟨rfl,stands,count,size,fun node held => absurd rfl held⟩
  refine ⟨Libcplus.llist_initialize_object,_,.start [],rfl,rfl,empty_refines,empty_refines,mp,_,_,backed,?_⟩
  rw [List.length_range]
  rfl

variable [DecidableEq D] {t next : Twins D}

theorem advance_parts {heap pooled : PooledList D} (there : t.heap = some heap) (here : t.pooled = some pooled)
    (taken : advance layout max_count t op = some next) :
    Granted max_count heap.list pooled.list op ∧ next = call layout heap pooled op := by
  unfold advance at taken
  rw [there,here] at taken
  simp only [Option.bind_eq_bind,Option.bind_some] at taken
  split at taken
  · rename_i granted
    exact ⟨granted,(Option.some.inj taken).symm⟩
  · cases taken

theorem step_spec (small : max_count ≤ MAX_NODE_COUNT) (valid : Invariant max_count t)
    (taken : advance layout max_count t op = some next) :
    Invariant max_count next ∧ next.Agrees ∧ ∃ before after answer, t.pooled = some before ∧
      next.pooled = some after ∧ next.pooled_answer = some answer ∧
      Rooms max_count op before.list after.list answer := by
  obtain ⟨list,pl,s,there,here,paired⟩ := valid
  obtain ⟨granted,rfl⟩ := advance_parts there here taken
  obtain ⟨after,last,answer,heap_done,done,kept,rooms⟩ := call_paired layout paired small granted
  have result : call layout ⟨list,none⟩ pl op = ⟨some ⟨after,none⟩,some last,some answer,some answer⟩ := by
    unfold call
    rw [heap_done,done]
    rfl
  rw [result]
  exact ⟨⟨after,last,_,rfl,rfl,kept⟩,⟨_,last,answer,rfl,rfl,rfl,rfl⟩,pl,last,answer,here,rfl,rfl,rooms⟩

-- The list with a mempool is the list with nodes from the heap, but for its pushes
-- when there are max_count items.
theorem pooled_refines (layout : Node Addr D → Nat → UInt8) {outcome : Outcome} {max_count : Nat}
    {pl : PooledList D} (positive : 1 ≤ max_count) (made : cplus_llist_prev_new outcome max_count = some pl)
    {moves : List (Move (Twins D) (Op D))} {t : Twins D}
    (run : Run (Follows (advance layout max_count)) (start pl) moves t) :
    ∀ m ∈ moves, m.after.Agrees ∧ ∃ before after answer, m.before.pooled = some before ∧
      m.after.pooled = some after ∧ m.after.pooled_answer = some answer ∧
      Rooms max_count m.action before.list after.list answer := by
  have small := (prev_new_parts made positive).1
  intro m member
  obtain ⟨valid,taken⟩ := run.each (fun _ _ => True) (start_invariant made positive)
    (fun valid taken _ => (step_spec small valid taken).1) (fun _ _ => trivial) m member
  exact (step_spec small valid taken).2

-- Two nodes: a third push fails, and goes through after a pop.
def two_calls : List (Op Nat) :=
  [.push_back (some 10) (some 1),.push_front (some 20) (some 2),.push_back (some 30) none,.get_of 1,.pop_front,
   .push_back (some 30) (some 2),.push_back (some 40) none,.delete_data (some 10),.pop_back,.pop_back]

def two_nodes : PooledList Nat :=
  ⟨Libcplus.llist_initialize_object,some ⟨2,24,2,0,List.replicate 48 0,some 0⟩⟩

def bytes_of (cell : Node Addr Nat) (k : Nat) : UInt8 := .ofNat (cell.data + k)

def two_answers : List (Option (Answer Nat)) :=
  [some (.res 0),some (.res 0),some (.res (-1)),some (.data (some 10)),some (.data (some 20)),some (.res 0),
   some (.res (-1)),some (.res 0),some (.data (some 30)),some (.data none)]

theorem two_refine : ∃ moves t, Run (Follows (advance bytes_of 2)) (start two_nodes) moves t ∧
    moves.map Move.action = two_calls ∧ moves.map (fun m => m.after.pooled_answer) = two_answers ∧
    ∀ m ∈ moves, m.after.Agrees := by
  have made : cplus_llist_prev_new (some fun _ => 0) 2 = some two_nodes := rfl
  obtain ⟨moves,t,run,same,checked⟩ := Run.of_check (advance bytes_of 2) (start two_nodes) two_calls
    (fun result => decide (result.1.map (fun m => m.after.pooled_answer) = two_answers)) (by decide +kernel)
  exact ⟨moves,t,run,same,of_decide_eq_true checked,
    fun m member => (pooled_refines bytes_of (by decide) made run m member).1⟩

end Twins

end Libcplus
