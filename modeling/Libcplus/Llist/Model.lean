import Mathlib.Algebra.Group.Nat.Defs
import Libcplus.BubbleSort
import Libcplus.DoublyLinked
import Libcplus.Typedef

namespace Libcplus
open DoublyLinked Typedef

abbrev Addr := Nat

-- `current` is a pointer to a link: the list's head, or a node's next or prev.
inductive Link where
  | head
  | next (node : Addr)
  | prev (node : Addr)
  deriving DecidableEq, Repr

-- struct linked_list with the nodes its pointers lead to, less the lock and the
-- mempool: where a node comes from is an argument of what allocates one.
structure LinkedList (D : Type) where
  count : Nat
  sort_count : Nat
  cur_index : Int
  head : Option Addr
  tail : Option Addr
  current : Link
  nodes : Heap Addr D

variable {D : Type}

def llist_initialize_object : LinkedList D := ⟨0,0,0,none,none,.head,fun _ => none⟩

namespace LinkedList

def is_empty (list : LinkedList D) : Prop := list.count = 0

instance (list : LinkedList D) : Decidable list.is_empty := inferInstanceAs (Decidable (_ = _))

def is_sort (list : LinkedList D) : Prop := list.count = list.sort_count

instance (list : LinkedList D) : Decidable list.is_sort := inferInstanceAs (Decidable (_ = _))

def reset_cur_node (list : LinkedList D) : LinkedList D := {list with cur_index := 0,current := .head}

-- Below, `none` is a read or a write through NULL or through a freed node.
def read_link (list : LinkedList D) : Link → Option (Option Addr)
  | .head => some list.head
  | .next node => (list.nodes node).map Node.next
  | .prev node => (list.nodes node).map Node.prev

-- *(list->current)
def get_current (list : LinkedList D) : Option (Option Addr) := list.read_link list.current

def free_node (list : LinkedList D) (node : Addr) : LinkedList D :=
  {list with nodes := Function.update list.nodes node none}

def new_node (list : LinkedList D) (node : Addr) (data : D) : LinkedList D :=
  {list with nodes := Function.update list.nodes node (some ⟨data,none,none⟩)}

def write_next (list : LinkedList D) (node : Addr) (next : Option Addr) : Option (LinkedList D) :=
  (list.nodes node).map fun _ => {list with nodes := set_next list.nodes (some node) next}

def write_prev (list : LinkedList D) (node : Addr) (prev : Option Addr) : Option (LinkedList D) :=
  (list.nodes node).map fun _ => {list with nodes := set_prev list.nodes (some node) prev}

-- `if (node) node->prev = value`
def write_prev_if (list : LinkedList D) (node : Option Addr) (prev : Option Addr) :
    Option (LinkedList D) :=
  match node with
  | none => some list
  | some node => list.write_prev node prev

def write_next_if (list : LinkedList D) (node : Option Addr) (next : Option Addr) :
    Option (LinkedList D) :=
  match node with
  | none => some list
  | some node => list.write_next node next

-- The three ways a node leaves the chain: pop_of and remove_node have the same.
def unlink_head (list : LinkedList D) (node : Addr) : Option (LinkedList D) := do
  let cell ← list.nodes node
  let list := {list with head := cell.next}
  let list ← list.write_prev_if cell.next none
  list.write_next node none

def unlink_tail (list : LinkedList D) (node : Addr) : Option (LinkedList D) := do
  let cell ← list.nodes node
  let list := {list with tail := cell.prev}
  let list ← list.write_next_if cell.prev none
  list.write_prev node none

def unlink_inner (list : LinkedList D) (node : Addr) : Option (LinkedList D) := do
  let cell ← list.nodes node
  let prev ← cell.prev
  let list ← list.write_next prev cell.next
  let cell ← list.nodes node
  let next ← cell.next
  let list ← list.write_prev next cell.prev
  let list ← list.write_next node none
  list.write_prev node none

-- list->count--, and an empty list has no ends.
def discount (list : LinkedList D) : LinkedList D :=
  let list := {list with count := list.count - 1}
  if list.is_empty then {list with head := none,tail := none} else list

def unlink (list : LinkedList D) (node : Addr) : Option (LinkedList D) :=
  if list.head = some node then list.unlink_head node
  else if list.tail = some node then list.unlink_tail node
  else list.unlink_inner node

def remove_node (list : LinkedList D) (node : Addr) : Option (LinkedList D) :=
  (list.unlink node).map fun list => list.discount.reset_cur_node

-- One step of the cursor, forwards and backwards: the link in the node there.
def step_next (list : LinkedList D) : Option (LinkedList D) := do
  let node ← (← list.get_current)
  return {list with current := .next node,cur_index := list.cur_index + 1}

def step_prev (list : LinkedList D) : Option (LinkedList D) := do
  let node ← (← list.get_current)
  return {list with current := .prev node,cur_index := list.cur_index - 1}

def get_next (list : LinkedList D) : Option (LinkedList D × Option Addr) := do
  match ← list.get_current with
  | none => return (list,none)
  | some node =>
    let cell ← list.nodes node
    match cell.next with
    | none => return (list,none)
    | some next => return (← list.step_next,some next)

def get_prev (list : LinkedList D) : Option (LinkedList D × Option Addr) := do
  match ← list.get_current with
  | none => return (list,none)
  | some node =>
    let cell ← list.nodes node
    match cell.prev with
    | none => return (list,none)
    | some prev => return (← list.step_prev,some prev)

-- while (index != list->cur_index), as many rounds as they are apart.
def walk_next : Nat → LinkedList D → Option (LinkedList D)
  | 0,list => some list
  | rounds+1,list => do walk_next rounds (← list.step_next)

def walk_prev : Nat → LinkedList D → Option (LinkedList D)
  | 0,list => some list
  | rounds+1,list => do walk_prev rounds (← list.step_prev)

def get_node_of (list : LinkedList D) (index : Int) : Option (LinkedList D × Option Addr) := do
  let list ←
    if index = list.cur_index then some list
    else if index > list.cur_index then walk_next (index - list.cur_index).toNat list
    else walk_prev (list.cur_index - index).toNat list
  return (list,← list.get_current)

-- The loop that get_node_if, get_index_if, pop_if and remove_data share: from
-- the head on, to the first node that `found` accepts or to the last node.
-- `none` is also a fuel that does not last.
def seek (found : D → Bool) : Nat → LinkedList D → Option (LinkedList D × Option Addr)
  | 0,_ => none
  | fuel+1,list => do
    match ← list.get_current with
    | none => return (list,none)
    | some node =>
      let cell ← list.nodes node
      if found cell.data then return (list,some node)
      else if cell.next = none then return (list,none)
      else seek found fuel (← list.step_next)

-- `data && !comparator(data, arg)`, where the data of a node is never NULL.
def accepts (comparator : D → Int) (data : D) : Bool := comparator data = 0

def get_node_if (list : LinkedList D) (comparator : D → Int) :
    Option (LinkedList D × Option Addr) :=
  seek (accepts comparator) (list.count + 1) list.reset_cur_node

def get_index_if (list : LinkedList D) (comparator : D → Int) : Option (LinkedList D × Int) := do
  match ← seek (accepts comparator) (list.count + 1) list.reset_cur_node with
  | (list,none) => return (list,CPLUS_FAIL)
  | (list,some _) => return (list,list.cur_index)

def pop_if (list : LinkedList D) (comparator : D → Int) : Option (LinkedList D × Option Addr) := do
  if list.is_empty then return (list.reset_cur_node,none)
  else
    match ← seek (accepts comparator) (list.count + 1) list.reset_cur_node with
    | (list,none) => return (list,none)
    | (list,some node) => return (← list.remove_node node,some node)

-- The part of pop_of in front of list->count--.
def unlink_of (list : LinkedList D) (index : Int) : Option (LinkedList D × Option Addr) :=
  if index = 0 then do
    let node ← list.head
    return ((← list.unlink_head node).reset_cur_node,some node)
  else if (list.count : Int) = index then do
    let node ← list.tail
    return ((← list.unlink_tail node).reset_cur_node,some node)
  else do
    match ← list.get_node_of index with
    | (list,none) => return (list,none)
    | (list,some node) => return (← list.unlink_inner node,some node)

def pop_of (list : LinkedList D) (index : Int) : Option (LinkedList D × Option Addr) :=
  if list.is_empty then some (list,none)
  else (list.unlink_of index).map fun (list,node) =>
    let list := list.discount
    (if list.is_empty then list.reset_cur_node else list,node)

def push_head (list : LinkedList D) (node : Addr) : Option (LinkedList D) := do
  let head ← list.head
  let list ← list.write_prev head (some node)
  let list ← list.write_next node (some head)
  return reset_cur_node {list with head := some node}

def push_tail (list : LinkedList D) (node : Addr) : Option (LinkedList D) := do
  let tail ← list.tail
  let list ← list.write_next tail (some node)
  let list ← list.write_prev node (some tail)
  return reset_cur_node {list with tail := some node}

def push_inner (list : LinkedList D) (target node : Addr) : Option (LinkedList D) := do
  let list ← list.write_next node (some target)
  let cell ← list.nodes target
  let list ← list.write_prev node cell.prev
  let cell ← list.nodes target
  let prev ← cell.prev
  let list ← list.write_next prev (some node)
  list.write_prev target (some node)

-- The part of push_at in front of list->count++.
def link_at (list : LinkedList D) (index : Int) (node : Addr) : Option (LinkedList D × Int) :=
  if list.is_empty then
    some (reset_cur_node {list with head := some node,tail := some node},CPLUS_SUCCESS)
  else if index = 0 then do return (← list.push_head node,CPLUS_SUCCESS)
  else if (list.count : Int) = index then do return (← list.push_tail node,CPLUS_SUCCESS)
  else do
    match ← list.get_node_of index with
    | (list,none) => return (list,CPLUS_FAIL)
    | (list,some target) => return (← list.push_inner target node,CPLUS_SUCCESS)

def push_at (list : LinkedList D) (index : Int) (node : Addr) : Option (LinkedList D × Int) :=
  (list.link_at index node).map fun (list,res) =>
    (if res = CPLUS_SUCCESS then {list with count := list.count + 1} else list,res)

-- The loop of get_set_if copies the data it accepts to a list of its own, made
-- for the first of them; only the nodes' allocations may fail. `allocs k` is the
-- answer to the k-th request for a node.
def copy_data (comparator : D → Int) (allocs : Nat → Option Addr) (k : Nat) (data : D)
    (target : Option (LinkedList D)) : Option (Nat × Option (LinkedList D)) :=
  if accepts comparator data then
    let target_list := target.getD llist_initialize_object
    match allocs k with
    | none => some (k + 1,some target_list)
    | some copy =>
      ((target_list.new_node copy data).push_at target_list.count copy).map fun pushed =>
        (k + 1,some pushed.1)
  else some (k,target)

def collect (comparator : D → Int) (allocs : Nat → Option Addr) :
    Nat → Nat → LinkedList D → Option (LinkedList D) →
      Option (LinkedList D × Option (LinkedList D))
  | 0,_,_,_ => none
  | fuel+1,k,list,target => do
    match ← list.get_current with
    | none => return (list,target)
    | some node =>
      let cell ← list.nodes node
      let (k,target) ← copy_data comparator allocs k cell.data target
      if cell.next = none then return (list,target)
      else collect comparator allocs fuel k (← list.step_next) target

def get_set_if (list : LinkedList D) (comparator : D → Int) (allocs : Nat → Option Addr) :
    Option (LinkedList D × Option (LinkedList D)) :=
  collect comparator allocs (list.count + 1) 0 list.reset_cur_node none

def remove_data [DecidableEq D] (list : LinkedList D) (data : D) : Option (LinkedList D × Int) := do
  match ← seek (fun found => data = found) (list.count + 1) list.reset_cur_node with
  | (list,none) => return (list,CPLUS_FAIL)
  | (list,some node) => return ((← list.remove_node node).free_node node,CPLUS_SUCCESS)

def swap_data (list : LinkedList D) (front back : Addr) : Option (LinkedList D) := do
  let first ← list.nodes front
  let second ← list.nodes back
  return {list with nodes := set_data (set_data list.nodes front second.data) back first.data}

-- The inner loop of llist_sort: the list, and node1 as the loop leaves it.
def sort_pass (comparator : D → D → Int) :
    Nat → LinkedList D → Option Addr → Option (LinkedList D × Option Addr)
  | size+1,list,some node1 => do
    let cell ← list.nodes node1
    match cell.next with
    | none => return (list,some node1)
    | some node2 =>
      let other ← list.nodes node2
      let list ← if 0 < comparator cell.data other.data then list.swap_data node1 node2 else some list
      sort_pass comparator size list (some node2)
  | _,list,node1 => some (list,node1)

def sort_rounds (comparator : D → D → Int) :
    Nat → Nat → LinkedList D → Option Addr → Option (LinkedList D)
  | rounds+1,size,list,some _ => do
    let (list,node1) ← sort_pass comparator size list list.head
    let list := {list with sort_count := (list.sort_count + 1) % 2^32}
    sort_rounds comparator rounds (size - 1) list node1
  | _,_,list,_ => some list

def llist_sort (list : LinkedList D) (comparator : D → D → Int) : Option (LinkedList D) :=
  sort_rounds comparator list.count list.count list list.head

-- The interface. A pointer argument may be NULL, and is checked before anything
-- else. Sizes and indices are exact: the list has fewer than 2^31 - 1 nodes.
def get_data (list : LinkedList D) (node : Addr) : Option D := (list.nodes node).map Node.data

-- `if ((node = ...)) target = get_data(node)`, and the node is freed by a pop.
def answer : LinkedList D × Option Addr → Option (LinkedList D × Option D)
  | (list,none) => some (list,none)
  | (list,some node) => (list.get_data node).map fun data => (list,some data)

def answer_free : LinkedList D × Option Addr → Option (LinkedList D × Option D)
  | (list,none) => some (list,none)
  | (list,some node) => (list.get_data node).map fun data => (list.free_node node,some data)

def cplus_llist_get_of (list : LinkedList D) (index : Int) : Option (LinkedList D × Option D) :=
  if 0 > index ∨ index > (list.count : Int) - 1 then some (list,none)
  else (list.get_node_of index).bind answer

def cplus_llist_get_index_if (list : LinkedList D) (comparator : Option (D → Int)) :
    Option (LinkedList D × Int) :=
  match comparator with
  | none => some (list,CPLUS_FAIL)
  | some comparator => list.get_index_if comparator

def cplus_llist_pop_of (list : LinkedList D) (index : Int) : Option (LinkedList D × Option D) :=
  if 0 > index ∨ index > list.count then some (list,none)
  else (list.pop_of index).bind answer_free

-- `alloc` is what the allocation of a node gives, NULL or a free address.
def cplus_llist_push_at (list : LinkedList D) (index : Int) (data : Option D) (alloc : Option Addr) :
    Option (LinkedList D × Int) :=
  match data with
  | none => some (list,CPLUS_FAIL)
  | some data =>
    if 0 > index ∨ index > list.count then some (list,CPLUS_FAIL)
    else
      match alloc with
      | none => some (list,CPLUS_FAIL)
      | some node => (list.new_node node data).push_at index node

def cplus_llist_pop_front (list : LinkedList D) : Option (LinkedList D × Option D) :=
  list.cplus_llist_pop_of 0

def cplus_llist_pop_back (list : LinkedList D) : Option (LinkedList D × Option D) :=
  list.cplus_llist_pop_of list.count

def cplus_llist_push_front (list : LinkedList D) (data : Option D) (alloc : Option Addr) :
    Option (LinkedList D × Int) := list.cplus_llist_push_at 0 data alloc

def cplus_llist_push_back (list : LinkedList D) (data : Option D) (alloc : Option Addr) :
    Option (LinkedList D × Int) := list.cplus_llist_push_at list.count data alloc

-- The loop of clear.
def free_from : Nat → LinkedList D → Option Addr → Option (LinkedList D)
  | _,list,none => some list
  | 0,_,some _ => none
  | fuel+1,list,some node => do
    let cell ← list.nodes node
    free_from fuel (list.free_node node) cell.next

def cplus_llist_clear (list : LinkedList D) : Option (LinkedList D × Int) := do
  let list ← free_from list.count list list.head
  let list := {list with count := 0,sort_count := 0,head := none,tail := none}
  return (list.reset_cur_node,CPLUS_SUCCESS)

def cplus_llist_get_set_if (list : LinkedList D) (comparator : Option (D → Int))
    (allocs : Nat → Option Addr) : Option (LinkedList D × Option (LinkedList D)) :=
  match comparator with
  | none => some (list,none)
  | some comparator => list.get_set_if comparator allocs

def cplus_llist_pop_if (list : LinkedList D) (comparator : Option (D → Int)) :
    Option (LinkedList D × Option D) :=
  match comparator with
  | none => some (list,none)
  | some comparator => (list.pop_if comparator).bind answer_free

def cplus_llist_get_if (list : LinkedList D) (comparator : Option (D → Int)) :
    Option (LinkedList D × Option D) :=
  match comparator with
  | none => some (list,none)
  | some comparator => (list.get_node_if comparator).bind answer

def cplus_llist_delete_data [DecidableEq D] (list : LinkedList D) (data : Option D) :
    Option (LinkedList D × Int) :=
  match data with
  | none => some (list,CPLUS_FAIL)
  | some data => list.remove_data data

def cplus_llist_sort (list : LinkedList D) (comparator : Option (D → D → Int)) :
    Option (LinkedList D × Int) :=
  match comparator with
  | none => some (list,CPLUS_FAIL)
  | some comparator =>
    (if list.is_sort then some list else list.llist_sort comparator).map fun list =>
      (list,if list.is_sort then CPLUS_SUCCESS else CPLUS_FAIL)

def cplus_llist_is_sort (list : LinkedList D) : Bool := list.is_sort

def cplus_llist_get_next (list : LinkedList D) : Option (LinkedList D × Option D) :=
  list.get_next.bind answer

def cplus_llist_get_prev (list : LinkedList D) : Option (LinkedList D × Option D) :=
  list.get_prev.bind answer

def cplus_llist_get_cycling_next (list : LinkedList D) : Option (LinkedList D × Option D) := do
  match ← list.get_current with
  | none => return (list,none)
  | some node =>
    let target ← list.get_data node
    match ← list.get_next with
    | (list,none) => return (list.reset_cur_node,some target)
    | (list,some _) => return (list,some target)

end LinkedList

end Libcplus
