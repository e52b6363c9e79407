import Libcplus.Llist.Frame
import Libcplus.Mempool

namespace Libcplus
open Bytes Memory DoublyLinked Typedef

-- struct linked_list with its mempool, which is NULL where the nodes come from the
-- heap. In a mempool the address of a node is its offset from mem_start.
structure PooledList (D : Type) where
  list : LinkedList D
  mempool : Option Mempool

variable {D : Type}

namespace PooledList
open LinkedList

def SIZEOF_LLIST_NODE : Nat := 24
def MAX_NODE_COUNT : Nat := 1024 * 1024

def llist_initialize_object (outcome : Outcome) (max_count : Nat) : Option (PooledList D) :=
  match Mempool.cplus_mempool_new outcome max_count SIZEOF_LLIST_NODE with
  | none => if 0 ≠ max_count then none else some ⟨Libcplus.llist_initialize_object,none⟩
  | some mempool => some ⟨Libcplus.llist_initialize_object,some mempool⟩

def cplus_llist_prev_new (outcome : Outcome) (max_count : Nat) : Option (PooledList D) :=
  if MAX_NODE_COUNT < max_count then none else llist_initialize_object outcome max_count

def cplus_llist_new : Option (PooledList D) := llist_initialize_object none 0

-- List and pool share the memory. The list puts the bytes of its nodes there,
-- which are whatever `layout` says,
def spill (layout : Node Addr D → Nat → UInt8) (nodes : Heap Addr D) (mp : Mempool) : Mempool :=
  {mp with mem_start := mp.mem_start.mapIdx fun p byte =>
    match nodes (p / mp.block_size * mp.block_size) with
    | some cell => layout cell (p % mp.block_size)
    | none => byte}

-- and a node whose bytes the pool has changed is none any more.
def spare (before after : Mempool) (nodes : Heap Addr D) : Heap Addr D := fun node =>
  if slice after.mem_start node after.block_size = slice before.mem_start node before.block_size then
    nodes node
  else none

-- The part of new_node that gets an address; `heap` is what cplus_malloc gives.
def new_node (pl : PooledList D) (heap : Option Addr) : Option (PooledList D × Option Addr) :=
  match pl.mempool with
  | none => some (pl,heap)
  | some mp => mp.cplus_mempool_alloc.map fun (after,node) =>
    (⟨{pl.list with nodes := spare mp after pl.list.nodes},some after⟩,node)

def free_node (pl : PooledList D) (node : Addr) : Option (PooledList D) :=
  match pl.mempool with
  | none => some ⟨pl.list.free_node node,none⟩
  | some mp => (mp.cplus_mempool_free node).map fun after =>
    ⟨{pl.list.free_node node with nodes := spare mp after (pl.list.free_node node).nodes},some after⟩

variable (layout : Node Addr D → Nat → UInt8)

def write (pl : PooledList D) (list : LinkedList D) : PooledList D :=
  ⟨list,pl.mempool.map (spill layout list.nodes)⟩

def answer_free (pl : PooledList D) : LinkedList D × Option Addr → Option (PooledList D × Option D)
  | (list,none) => some (pl.write layout list,none)
  | (list,some node) => do
    let target ← list.get_data node
    return (← (pl.write layout list).free_node node,some target)

def cplus_llist_pop_of (pl : PooledList D) (index : Int) : Option (PooledList D × Option D) :=
  if 0 > index ∨ index > pl.list.count then some (pl,none)
  else (pl.list.pop_of index).bind (pl.answer_free layout)

def cplus_llist_push_at (pl : PooledList D) (index : Int) (data : Option D) (heap : Option Addr) :
    Option (PooledList D × Int) :=
  match data with
  | none => some (pl,CPLUS_FAIL)
  | some data =>
    if 0 > index ∨ index > pl.list.count then some (pl,CPLUS_FAIL)
    else do
      match ← pl.new_node heap with
      | (pl,none) => return (pl,CPLUS_FAIL)
      | (pl,some node) =>
        let (list,res) ← (pl.list.new_node node data).push_at index node
        return (pl.write layout list,res)

def cplus_llist_pop_if (pl : PooledList D) (comparator : Option (D → Int)) :
    Option (PooledList D × Option D) :=
  match comparator with
  | none => some (pl,none)
  | some comparator => (pl.list.pop_if comparator).bind (pl.answer_free layout)

def remove_data [DecidableEq D] (pl : PooledList D) (data : D) : Option (PooledList D × Int) := do
  match ← seek (fun found => data = found) (pl.list.count + 1) pl.list.reset_cur_node with
  | (list,none) => return (pl.write layout list,CPLUS_FAIL)
  | (list,some node) =>
    let list ← list.remove_node node
    return (← (pl.write layout list).free_node node,CPLUS_SUCCESS)

def cplus_llist_delete_data [DecidableEq D] (pl : PooledList D) (data : Option D) :
    Option (PooledList D × Int) :=
  match data with
  | none => some (pl,CPLUS_FAIL)
  | some data => pl.remove_data layout data

def free_from : Nat → PooledList D → Option Addr → Option (PooledList D)
  | _,pl,none => some pl
  | 0,_,some _ => none
  | fuel+1,pl,some node => do
    let cell ← pl.list.nodes node
    free_from fuel (← pl.free_node node) cell.next

def cplus_llist_clear (pl : PooledList D) : Option (PooledList D × Int) := do
  let pl ← free_from pl.list.count pl pl.list.head
  let list := {pl.list with count := 0,sort_count := 0,head := none,tail := none}
  return ({pl with list := list.reset_cur_node},CPLUS_SUCCESS)

-- The calls that neither take a node nor free one work on the list itself.
def call [DecidableEq D] (pl : PooledList D) : Op D → Option (PooledList D × Answer D)
  | .push_at index data heap => (pl.cplus_llist_push_at layout index data heap).map (.map id .res)
  | .push_front data heap => (pl.cplus_llist_push_at layout 0 data heap).map (.map id .res)
  | .push_back data heap => (pl.cplus_llist_push_at layout pl.list.count data heap).map (.map id .res)
  | .pop_of index => (pl.cplus_llist_pop_of layout index).map (.map id .data)
  | .pop_front => (pl.cplus_llist_pop_of layout 0).map (.map id .data)
  | .pop_back => (pl.cplus_llist_pop_of layout pl.list.count).map (.map id .data)
  | .pop_if comparator => (pl.cplus_llist_pop_if layout comparator).map (.map id .data)
  | .delete_data data => (pl.cplus_llist_delete_data layout data).map (.map id .res)
  | .clear => pl.cplus_llist_clear.map (.map id .res)
  | op => (pl.list.call op).map (.map (pl.write layout) id)

-- The pool stands for a stack of free blocks, and the nodes of the list are in blocks
-- in use.
structure Backed (max_count : Nat) (pl : PooledList D) (mp : Mempool) (stack chain : List Nat) : Prop where
  mempool : pl.mempool = some mp
  stands : mp.Stands stack chain
  count : mp.block_count = max_count
  size : mp.block_size = SIZEOF_LLIST_NODE
  placed : ∀ node, pl.list.nodes node ≠ none →
    ∃ i < max_count, i ∉ stack ∧ node = i * SIZEOF_LLIST_NODE

-- What a call leaves, of a list with n items.
def Leaves {R : Type} (max_count : Nat) (stack : List Nat) (n : Nat) (called : Option (PooledList D × R))
    (list : LinkedList D) (res : R) (left : Nat) : Prop :=
  ∃ after mp stack' chain', called = some (after,res) ∧ after.list = list ∧
    Backed max_count after mp stack' chain' ∧ stack'.length + left = stack.length + n

variable {layout : Node Addr D → Nat → UInt8} {pl : PooledList D} {list after : LinkedList D}
  {mp : Mempool} {stack chain : List Nat} {max_count n i : Nat}

theorem same_block {i j : Nat} (same : i * SIZEOF_LLIST_NODE = j * SIZEOF_LLIST_NODE) : i = j :=
  Nat.eq_of_mul_eq_mul_right (by decide) same

theorem Backed.vacant (backed : Backed max_count pl mp stack chain) (member : i ∈ stack) :
    pl.list.nodes (i * SIZEOF_LLIST_NODE) = none := by
  by_contra held
  obtain ⟨j,_,outside,same⟩ := backed.placed _ held
  rw [same_block same] at member
  exact outside member

-- The bytes of the nodes are none of the links.
theorem spill_stands (stands : mp.Stands stack chain) (nodes : Heap Addr D)
    (vacant : ∀ i ∈ stack, nodes (i * mp.block_size) = none) :
    (spill layout nodes mp).Stands stack chain := by
  have room := stands.room
  have kept : ∀ i ∈ chain, Mempool.load32 (spill layout nodes mp).mem_start (i * mp.block_size) =
      Mempool.load32 mp.mem_start (i * mp.block_size) := by
    intro i member
    have nothing : nodes (i * mp.block_size) = none := by
      apply vacant
      rw [stands.parts]
      exact List.mem_append_left _ member
    unfold Mempool.load32
    congr 1
    refine slice_congr (List.length_mapIdx ..) fun p lower upper => ?_
    have block : p / mp.block_size = i := by
      have start : p = p - i * mp.block_size + i * mp.block_size := by omega
      rw [start,Nat.add_mul_div_right _ _ (by omega),Nat.div_eq_of_lt (by omega),Nat.zero_add]
    show (mp.mem_start.mapIdx _)[p]? = _
    rw [List.getElem?_mapIdx,block,nothing]
    exact Option.map_id' ..
  exact {stands with
    length := (List.length_mapIdx ..).trans stands.length
    threaded := Mempool.threaded_congr stands.threaded kept}

theorem Backed.write (backed : Backed max_count pl mp stack chain)
    (absent : ∀ node, pl.list.nodes node = none → list.nodes node = none) :
    Backed max_count (pl.write layout list) (spill layout list.nodes mp) stack chain where
  mempool := congrArg (Option.map _) backed.mempool
  stands := by
    refine spill_stands backed.stands _ fun i member => absent _ ?_
    rw [backed.size]
    exact backed.vacant member
  count := backed.count
  size := backed.size
  placed node held := backed.placed node fun none => held (absent node none)

theorem Backed.writes {R : Type} {res : R} (backed : Backed max_count pl mp stack chain)
    (absent : ∀ node, pl.list.nodes node = none → list.nodes node = none) :
    Leaves max_count stack n (some (pl.write layout list,res)) list res n :=
  ⟨_,_,_,_,rfl,rfl,backed.write absent,rfl⟩

theorem Backed.stays {R : Type} {res : R} (backed : Backed max_count pl mp stack chain) :
    Leaves max_count stack n (some (pl,res)) pl.list res n := ⟨_,_,_,_,rfl,rfl,backed,rfl⟩

-- A node for the list is a block that was free, and the other nodes are untouched.
theorem new_node_spec (backed : Backed max_count pl mp stack chain) (heap : Option Addr) :
    ∃ after chain', pl.new_node heap =
        some (⟨pl.list,some after⟩,stack.head?.map (· * SIZEOF_LLIST_NODE)) ∧
      Backed max_count ⟨pl.list,some after⟩ after stack.tail chain' := by
  obtain ⟨after,chain',done,stands,count,size⟩ := Mempool.alloc_spec backed.stands
  have spared : spare mp after pl.list.nodes = pl.list.nodes := by
    funext node
    unfold spare
    cases held : pl.list.nodes node with
    | none => rw [ite_self]
    | some cell =>
      obtain ⟨j,within,outside,rfl⟩ := backed.placed node (by rw [held]; nofun)
      have same := Mempool.alloc_spares backed.stands (backed.count ▸ within) outside done
      rw [backed.size] at same
      rw [size,backed.size,if_pos same]
  refine ⟨after,chain',?_,rfl,stands,count.trans backed.count,size.trans backed.size,?_⟩
  · unfold new_node
    rw [backed.mempool]
    simp only [done,Option.map_some,spared,backed.size]
  · intro node held
    obtain ⟨j,within,outside,same⟩ := backed.placed node held
    exact ⟨j,within,fun member => outside (List.mem_of_mem_tail member),same⟩

theorem free_node_spec (backed : Backed max_count pl mp stack chain) (within : i < max_count)
    (outside : i ∉ stack) : ∃ after,
    pl.free_node (i * SIZEOF_LLIST_NODE) = some ⟨pl.list.free_node (i * SIZEOF_LLIST_NODE),some after⟩ ∧
      Backed max_count ⟨pl.list.free_node (i * SIZEOF_LLIST_NODE),some after⟩ after (i :: stack)
        (i :: chain) := by
  obtain ⟨after,done,stands,count,size⟩ :=
    Mempool.free_spec backed.stands (backed.count ▸ within) outside
  have left : ∀ node, (pl.list.free_node (i * SIZEOF_LLIST_NODE)).nodes node ≠ none →
      node ≠ i * SIZEOF_LLIST_NODE ∧ pl.list.nodes node ≠ none := by
    intro node held
    refine ⟨?_,fun none => held ((frame_free _).absent node none)⟩
    rintro rfl
    exact held (Function.update_self ..)
  have spared : spare mp after (pl.list.free_node (i * SIZEOF_LLIST_NODE)).nodes =
      (pl.list.free_node (i * SIZEOF_LLIST_NODE)).nodes := by
    funext node
    unfold spare
    by_cases held : (pl.list.free_node (i * SIZEOF_LLIST_NODE)).nodes node = none
    · rw [held,ite_self]
    · obtain ⟨apart,before⟩ := left node held
      obtain ⟨j,_,_,rfl⟩ := backed.placed node before
      have same := Mempool.free_spares backed.stands.room (fun same => apart (congrArg (· * SIZEOF_LLIST_NODE) same)) done
      rw [backed.size] at same
      rw [size,backed.size,if_pos same]
  refine ⟨after,?_,rfl,stands,count.trans backed.count,size.trans backed.size,?_⟩
  · rw [backed.size] at done
    unfold free_node
    rw [backed.mempool]
    simp only [done,Option.map_some,spared]
  · intro node held
    obtain ⟨apart,before⟩ := left node held
    obtain ⟨j,inside,others,rfl⟩ := backed.placed node before
    refine ⟨j,inside,?_,rfl⟩
    rw [List.mem_cons,not_or]
    exact ⟨fun same => apart (congrArg (· * SIZEOF_LLIST_NODE) same),others⟩

theorem Leaves.map {R T : Type} {called : Option (PooledList D × R)} {res : R} {left : Nat}
    (leaves : Leaves max_count stack n called list res left) (give : R → T) :
    Leaves max_count stack n (called.map (.map id give)) list (give res) left := by
  obtain ⟨after,mp,stack',chain',rfl,same,backed,balance⟩ := leaves
  exact ⟨after,mp,stack',chain',rfl,same,backed,balance⟩

-- A node that is taken out of the list goes back to the pool.
theorem answer_free_spec (backed : Backed max_count pl mp stack chain) (frame : Frame pl.list list)
    {node : Option Addr} {target : Option D} {left : Nat}
    (answered : LinkedList.answer_free (list,node) = some (after,target))
    (balance : left + target.toList.length = n) :
    Leaves max_count stack n (pl.answer_free layout (list,node)) after target left := by
  cases node with
  | none =>
    cases answered
    obtain rfl : left = n := balance
    exact backed.writes frame.absent
  | some node =>
    obtain ⟨data,there,same⟩ := Option.map_eq_some_iff.mp answered
    cases same
    have held : pl.list.nodes node ≠ none := by
      intro nothing
      rw [get_data,frame.absent node nothing] at there
      cases there
    obtain ⟨i,within,outside,rfl⟩ := backed.placed node held
    have written : Backed max_count (pl.write layout list) _ stack chain := backed.write frame.absent
    obtain ⟨last,freed,kept⟩ := free_node_spec written within outside
    refine ⟨_,last,i :: stack,_,?_,rfl,kept,?_⟩
    · show (list.get_data _).bind _ = _
      rw [there,Option.bind_some,freed]
      rfl
    · rw [List.length_cons,← balance]
      show _ + 1 + left = _ + (left + 1)
      omega

theorem pop_of_spec (backed : Backed max_count pl mp stack chain) {index : Int} {target : Option D}
    {left : Nat} (called : pl.list.cplus_llist_pop_of index = some (after,target))
    (balance : left + target.toList.length = n) :
    Leaves max_count stack n (pl.cplus_llist_pop_of layout index) after target left := by
  unfold LinkedList.cplus_llist_pop_of at called
  unfold cplus_llist_pop_of
  split at called
  · rename_i outside
    cases called
    obtain rfl : left = n := balance
    rw [if_pos outside]
    exact backed.stays
  · rename_i inside
    obtain ⟨⟨list,node⟩,popped,answered⟩ := Option.bind_eq_some_iff.mp called
    rw [if_neg inside,popped]
    exact answer_free_spec backed (pop_of_frames index _ popped) answered balance

theorem pop_if_spec (backed : Backed max_count pl mp stack chain) {comparator : Option (D → Int)}
    {target : Option D} {left : Nat} (called : pl.list.cplus_llist_pop_if comparator = some (after,target))
    (balance : left + target.toList.length = n) :
    Leaves max_count stack n (pl.cplus_llist_pop_if layout comparator) after target left := by
  cases comparator with
  | none =>
    cases called
    obtain rfl : left = n := balance
    exact backed.stays
  | some comparator =>
    obtain ⟨⟨list,node⟩,popped,answered⟩ := Option.bind_eq_some_iff.mp called
    show Leaves max_count stack n ((pl.list.pop_if comparator).bind _) after target left
    rw [popped]
    exact answer_free_spec backed (pop_if_frames comparator _ popped) answered balance

theorem seek_live {found : D → Bool} {fuel : Nat} {node : Addr}
    (sought : seek found fuel list = some (after,some node)) : after.nodes node ≠ none := by
  induction fuel generalizing list with
  | zero => cases sought
  | succ fuel ih =>
    obtain ⟨current,_,sought⟩ := Option.bind_eq_some_iff.mp sought
    cases current with
    | none => cases sought
    | some here =>
      obtain ⟨cell,there,sought⟩ := Option.bind_eq_some_iff.mp sought
      split at sought
      · cases sought
        rw [there]
        nofun
      · split at sought
        · cases sought
        · obtain ⟨next,_,sought⟩ := Option.bind_eq_some_iff.mp sought
          exact ih sought

theorem delete_data_spec [DecidableEq D] (backed : Backed max_count pl mp stack chain) {data : Option D}
    {res : Int} {left : Nat} (called : pl.list.cplus_llist_delete_data data = some (after,res))
    (balance : left + (if res = CPLUS_SUCCESS then 1 else 0) = n) :
    Leaves max_count stack n (pl.cplus_llist_delete_data layout data) after res left := by
  cases data with
  | none =>
    cases called
    obtain rfl : left = n := balance
    exact backed.stays
  | some data =>
    obtain ⟨⟨list,node⟩,sought,removed⟩ := Option.bind_eq_some_iff.mp called
    have searched : Frame pl.list list := search_frames _ _ _ sought
    show Leaves max_count stack n (pl.remove_data layout data) after res left
    unfold remove_data
    rw [sought]
    cases node with
    | none =>
      cases removed
      obtain rfl : left = n := balance
      exact backed.writes searched.absent
    | some node =>
      obtain ⟨unlinked,took,same⟩ := Option.bind_eq_some_iff.mp removed
      cases same
      have frame : Frame pl.list unlinked := searched.trans (remove_node_frames node _ took)
      have held : pl.list.nodes node ≠ none := fun nothing =>
        seek_live sought (searched.absent node nothing)
      obtain ⟨i,within,outside,rfl⟩ := backed.placed node held
      have written : Backed max_count (pl.write layout unlinked) _ stack chain := backed.write frame.absent
      obtain ⟨last,freed,kept⟩ := free_node_spec written within outside
      refine ⟨_,last,i :: stack,_,?_,rfl,kept,?_⟩
      · simp only [Option.bind_eq_bind,Option.bind_some,took,freed]
        rfl
      · rw [List.length_cons,← balance]
        show _ + 1 + left = _ + (left + 1)
        omega

-- All nodes of the chain go back, from the head on.
theorem free_from_spec {front : Option Addr} {cells : List (Addr × D)} {fuel : Nat}
    (backed : Backed max_count pl mp stack chain) (linked : Linked pl.list.nodes front cells none)
    (nodup : (addresses cells).Nodup)
    (freed : LinkedList.free_from fuel pl.list (first cells none) = some list) :
    ∃ after mp' stack' chain', free_from fuel pl (first cells none) = some after ∧ after.list = list ∧
      Backed max_count after mp' stack' chain' ∧ stack'.length = stack.length + cells.length := by
  induction cells generalizing pl mp stack chain front fuel with
  | nil =>
    have done : LinkedList.free_from fuel pl.list none = some pl.list := by cases fuel <;> rfl
    obtain rfl : pl.list = list := Option.some.inj (done.symm.trans freed)
    exact ⟨pl,mp,stack,chain,by cases fuel <;> rfl,rfl,backed,rfl⟩
  | cons cell rest ih =>
    cases fuel with
    | zero => cases freed
    | succ fuel =>
      obtain ⟨here,later⟩ := linked
      obtain ⟨apart,rest_nodup⟩ := List.nodup_cons.mp nodup
      obtain ⟨i,within,outside,same⟩ := backed.placed cell.1 (by rw [here]; nofun)
      obtain ⟨last,released,kept⟩ := free_node_spec backed within outside
      have left : Linked (pl.list.free_node (i * SIZEOF_LLIST_NODE)).nodes (some cell.1) rest none := by
        refine linked_congr (fun a member => Function.update_of_ne ?_ _ _) later
        rintro rfl
        rw [← same] at member
        exact apart member
      have rest_freed : LinkedList.free_from fuel (pl.list.free_node (i * SIZEOF_LLIST_NODE))
          (first rest none) = some list := by
        have freed : (pl.list.nodes cell.1).bind _ = some list := freed
        rw [here,same] at freed
        exact freed
      obtain ⟨after,mp',stack',chain',done,list_same,settled,length⟩ := ih kept left rest_nodup rest_freed
      refine ⟨after,mp',stack',chain',?_,list_same,settled,?_⟩
      · show (pl.list.nodes cell.1).bind _ = _
        rw [here,same,Option.bind_some,released]
        exact done
      · rw [length,List.length_cons,List.length_cons]
        omega

theorem clear_spec {cells : List (Addr × D)} {res : Int} (backed : Backed max_count pl mp stack chain)
    (represents : Represents pl.list cells)
    (called : pl.list.cplus_llist_clear = some (after,res)) :
    Leaves max_count stack cells.length pl.cplus_llist_clear after res 0 := by
  obtain ⟨list,freed,same⟩ := Option.bind_eq_some_iff.mp called
  cases same
  rw [represents.head] at freed
  obtain ⟨last,mp',stack',chain',done,rfl,kept,length⟩ :=
    free_from_spec backed represents.linked represents.nodup freed
  unfold cplus_llist_clear
  rw [represents.head,done]
  exact ⟨_,mp',stack',chain',rfl,rfl,⟨kept.mempool,kept.stands,kept.count,kept.size,kept.placed⟩,length⟩

-- The node of a push comes from the top of the stack; on an empty one the push fails.
theorem push_at_spec {s : Sequence D} (backed : Backed max_count pl mp stack chain)
    (count : pl.list.count = s.items.length) {index : Int} {data : Option D} {heap : Option Addr} {res : Int}
    (called : pl.list.cplus_llist_push_at index data (stack.head?.map (· * SIZEOF_LLIST_NODE)) =
      some (after,res)) :
    Leaves max_count stack s.items.length (pl.cplus_llist_push_at layout index data heap) after res
      (s.push index data (stack.head?.map (· * SIZEOF_LLIST_NODE))).1.items.length := by
  cases data with
  | none =>
    cases called
    exact backed.stays
  | some data =>
    unfold LinkedList.cplus_llist_push_at at called
    unfold cplus_llist_push_at
    dsimp only at called ⊢
    by_cases outside : 0 > index ∨ index > pl.list.count
    · have refused : (s.push index (some data) (stack.head?.map (· * SIZEOF_LLIST_NODE))).1 = s := by
        unfold Sequence.push
        split
        · rw [if_neg (by omega)]
        · rfl
      rw [if_pos outside] at called ⊢
      cases called
      rw [refused]
      exact backed.stays
    · obtain ⟨grown,chain',took,kept⟩ := new_node_spec backed heap
      rw [if_neg outside] at called ⊢
      cases stack with
      | nil =>
        cases called
        refine ⟨⟨pl.list,some grown⟩,grown,[],chain',?_,rfl,kept,rfl⟩
        rw [took]
        rfl
      | cons i below =>
        have free := List.nodup_cons.mp backed.stands.nodup
        have within : i < max_count := backed.count ▸ Mempool.parts_within backed.stands List.mem_cons_self
        have taken : Backed max_count ⟨pl.list.new_node (i * SIZEOF_LLIST_NODE) data,some grown⟩ grown below
            chain' := by
          refine ⟨rfl,kept.stands,kept.count,kept.size,fun node held => ?_⟩
          by_cases same : node = i * SIZEOF_LLIST_NODE
          · exact ⟨i,within,free.1,same⟩
          · refine kept.placed node fun none => held ?_
            exact (Function.update_of_ne same _ _).trans none
        have frame : Frame (pl.list.new_node (i * SIZEOF_LLIST_NODE) data) after :=
          push_at_frames index _ _ called
        have longer : (s.push index (some data) (some (i * SIZEOF_LLIST_NODE))).1.items.length =
            s.items.length + 1 := by
          unfold Sequence.push
          dsimp only
          rw [if_pos (by omega),Sequence.insert_items,List.length_insertIdx_of_le_length (by omega)]
        have written : Backed max_count (write layout ⟨_,some grown⟩ after) _ below chain' :=
          taken.write frame.absent
        refine ⟨_,_,below,chain',?_,rfl,written,?_⟩
        · have called : (pl.list.new_node (i * SIZEOF_LLIST_NODE) data).push_at index
              (i * SIZEOF_LLIST_NODE) = some (after,res) := called
          rw [took]
          simp only [List.head?_cons,Option.map_some,Option.bind_eq_bind,Option.bind_some,called]
          rfl
        · show below.length + (s.push index (some data) (some (i * SIZEOF_LLIST_NODE))).1.items.length = _
          rw [longer,List.length_cons]
          omega

end PooledList

end Libcplus
