import Libcplus.Llist.Calls

namespace Libcplus
open DoublyLinked

variable {D : Type}

namespace LinkedList

-- What a call leaves alone where it neither sorts nor takes a new node: the count
-- of sort passes, and every address that holds no node.
structure Frame (list after : LinkedList D) : Prop where
  sort_count : after.sort_count = list.sort_count
  absent : ∀ node, list.nodes node = none → after.nodes node = none

variable {list after other : LinkedList D}

theorem Frame.refl (list : LinkedList D) : Frame list list := ⟨rfl,fun _ => id⟩

theorem Frame.trans (first : Frame list other) (second : Frame other after) : Frame list after :=
  ⟨second.sort_count.trans first.sort_count,fun node absent => second.absent node (first.absent node absent)⟩

-- The frame of a call that may fault; `view` is the list in its result.
def Frames {R : Type} (view : R → LinkedList D) (list : LinkedList D) (called : Option R) : Prop :=
  ∀ result, called = some result → Frame list (view result)

section Rules
variable {Q R : Type} {view : R → LinkedList D} {before : Q → LinkedList D} {called : Option Q}
  {result : R}

theorem Frames.of (frame : Frame list (view result)) : Frames view list (some result) := by
  rintro _ ⟨⟩
  exact frame

theorem Frames.bind {next : Q → Option R} (first : Frames before list called)
    (then_next : ∀ q, Frames view (before q) (next q)) : Frames view list (called.bind next) := by
  intro r same
  obtain ⟨q,here,there⟩ := Option.bind_eq_some_iff.mp same
  exact (first q here).trans (then_next q r there)

-- A read changes nothing.
theorem Frames.read {next : Q → Option R} (then_next : ∀ q, Frames view list (next q)) :
    Frames view list (called.bind next) := by
  intro r same
  obtain ⟨q,_,there⟩ := Option.bind_eq_some_iff.mp same
  exact then_next q r there

theorem Frames.map {give : Q → R} (first : Frames before list called)
    (then_give : ∀ q, Frame (before q) (view (give q))) : Frames view list (called.map give) := by
  intro r same
  obtain ⟨q,here,rfl⟩ := Option.map_eq_some_iff.mp same
  exact (first q here).trans (then_give q)

theorem Frames.either {P : Prop} [Decidable P] {left right : Option R} (first : Frames view list left)
    (second : Frames view list right) : Frames view list (if P then left else right) := by
  split
  · exact first
  · exact second

end Rules

theorem frame_reset : Frame list list.reset_cur_node := ⟨rfl,fun _ => id⟩

theorem frame_free (node : Addr) : Frame list (list.free_node node) := by
  refine ⟨rfl,fun other absent => ?_⟩
  show Function.update _ _ _ _ = _
  by_cases same : other = node
  · rw [same,Function.update_self]
  · rwa [Function.update_of_ne same]

theorem write_next_frames (node : Addr) (next : Option Addr) :
    Frames id list (list.write_next node next) := by
  intro after same
  obtain ⟨cell,here,rfl⟩ := Option.map_eq_some_iff.mp same
  refine ⟨rfl,fun other absent => ?_⟩
  have data : (set_next list.nodes (some node) next other).map Node.data = none := by
    rw [set_next_data,absent]
    rfl
  exact Option.map_eq_none_iff.mp data

theorem write_prev_frames (node : Addr) (prev : Option Addr) :
    Frames id list (list.write_prev node prev) := by
  intro after same
  obtain ⟨cell,here,rfl⟩ := Option.map_eq_some_iff.mp same
  refine ⟨rfl,fun other absent => ?_⟩
  have data : (set_prev list.nodes (some node) prev other).map Node.data = none := by
    rw [set_prev_data,absent]
    rfl
  exact Option.map_eq_none_iff.mp data

theorem write_next_if_frames (node next : Option Addr) : Frames id list (list.write_next_if node next) := by
  cases node with
  | none => exact .of (.refl _)
  | some node => exact write_next_frames node next

theorem write_prev_if_frames (node prev : Option Addr) : Frames id list (list.write_prev_if node prev) := by
  cases node with
  | none => exact .of (.refl _)
  | some node => exact write_prev_frames node prev

-- The ends of the list may move in between.
theorem frame_head (head : Option Addr) : Frame list {list with head := head} := ⟨rfl,fun _ => id⟩
theorem frame_tail (tail : Option Addr) : Frame list {list with tail := tail} := ⟨rfl,fun _ => id⟩

theorem Frames.from_head {R : Type} {view : R → LinkedList D} {called : Option R} (head : Option Addr)
    (frames : Frames view {list with head := head} called) : Frames view list called :=
  fun r same => (frame_head head).trans (frames r same)

theorem Frames.from_tail {R : Type} {view : R → LinkedList D} {called : Option R} (tail : Option Addr)
    (frames : Frames view {list with tail := tail} called) : Frames view list called :=
  fun r same => (frame_tail tail).trans (frames r same)

theorem unlink_head_frames (node : Addr) : Frames id list (list.unlink_head node) := by
  refine .read fun cell => .from_head cell.next ?_
  exact (write_prev_if_frames _ _).bind fun list => write_next_frames _ _

theorem unlink_tail_frames (node : Addr) : Frames id list (list.unlink_tail node) := by
  refine .read fun cell => .from_tail cell.prev ?_
  exact (write_next_if_frames _ _).bind fun list => write_prev_frames _ _

theorem unlink_inner_frames (node : Addr) : Frames id list (list.unlink_inner node) := by
  refine .read fun cell => .read fun prev => (write_next_frames _ _).bind fun list => ?_
  refine .read fun cell => .read fun next => (write_prev_frames _ _).bind fun list => ?_
  exact (write_next_frames _ _).bind fun list => write_prev_frames _ _

theorem frame_discount : Frame list list.discount := by
  unfold discount
  dsimp only
  split
  · exact ⟨rfl,fun _ => id⟩
  · exact ⟨rfl,fun _ => id⟩

theorem remove_node_frames (node : Addr) : Frames id list (list.remove_node node) := by
  have unlinks : Frames id list (list.unlink node) :=
    .either (unlink_head_frames node) (.either (unlink_tail_frames node) (unlink_inner_frames node))
  exact unlinks.map fun list => frame_discount.trans frame_reset

theorem step_next_frames : Frames id list list.step_next :=
  .read fun _ => .read fun _ => .of ⟨rfl,fun _ => id⟩

theorem step_prev_frames : Frames id list list.step_prev :=
  .read fun _ => .read fun _ => .of ⟨rfl,fun _ => id⟩

theorem walk_next_frames (rounds : Nat) : Frames id list (walk_next rounds list) := by
  induction rounds generalizing list with
  | zero => exact .of (.refl _)
  | succ rounds ih => exact step_next_frames.bind fun list => ih

theorem walk_prev_frames (rounds : Nat) : Frames id list (walk_prev rounds list) := by
  induction rounds generalizing list with
  | zero => exact .of (.refl _)
  | succ rounds ih => exact step_prev_frames.bind fun list => ih

theorem get_node_of_frames (index : Int) : Frames Prod.fst list (list.get_node_of index) := by
  have reads : ∀ list : LinkedList D,
      Frames Prod.fst list (list.get_current.bind fun current => some (list,current)) :=
    fun list => .read fun current => .of (.refl _)
  refine .either ?_ (.either ?_ ?_)
  · exact reads list
  · exact (walk_next_frames _).bind reads
  · exact (walk_prev_frames _).bind reads

theorem seek_frames (found : D → Bool) (fuel : Nat) : Frames Prod.fst list (seek found fuel list) := by
  induction fuel generalizing list with
  | zero => exact nofun
  | succ fuel ih =>
    refine .read fun current => ?_
    cases current with
    | none => exact .of (.refl _)
    | some node =>
      refine .read fun cell => .either (.of (.refl _)) (.either (.of (.refl _)) ?_)
      exact step_next_frames.bind fun list => ih

theorem Frames.from_reset {R : Type} {view : R → LinkedList D} {called : Option R}
    (frames : Frames view list.reset_cur_node called) : Frames view list called :=
  fun r same => frame_reset.trans (frames r same)

theorem search_frames (found : D → Bool) (fuel : Nat) :
    Frames Prod.fst list (seek found fuel list.reset_cur_node) := (seek_frames found fuel).from_reset

theorem pop_of_frames (index : Int) : Frames Prod.fst list (list.pop_of index) := by
  have unlinks : Frames Prod.fst list (list.unlink_of index) := by
    refine .either (.read fun node => ?_) (.either (.read fun node => ?_) ?_)
    · exact (unlink_head_frames node).bind fun list => .of frame_reset
    · exact (unlink_tail_frames node).bind fun list => .of frame_reset
    · refine (get_node_of_frames index).bind fun found => ?_
      obtain ⟨list,_ | node⟩ := found
      · exact .of (.refl _)
      · exact (unlink_inner_frames node).bind fun list => .of (.refl _)
  refine .either (.of (.refl _)) (unlinks.map fun result => ?_)
  dsimp only
  split
  · exact frame_discount.trans frame_reset
  · exact frame_discount

theorem pop_if_frames (comparator : D → Int) : Frames Prod.fst list (list.pop_if comparator) := by
  refine .either (.of frame_reset) ((search_frames _ _).bind fun found => ?_)
  obtain ⟨list,_ | node⟩ := found
  · exact .of (.refl _)
  · exact (remove_node_frames node).bind fun list => .of (.refl _)

theorem remove_data_frames [DecidableEq D] (data : D) : Frames Prod.fst list (list.remove_data data) := by
  refine (search_frames _ _).bind fun found => ?_
  obtain ⟨list,_ | node⟩ := found
  · exact .of (.refl _)
  · exact (remove_node_frames node).bind fun list => .of (frame_free node)

theorem collect_frames (comparator : D → Int) (allocs : Nat → Option Addr) (fuel k : Nat)
    (target : Option (LinkedList D)) :
    Frames Prod.fst list (collect comparator allocs fuel k list target) := by
  induction fuel generalizing list k target with
  | zero => exact nofun
  | succ fuel ih =>
    refine .read fun current => ?_
    cases current with
    | none => exact .of (.refl _)
    | some node =>
      refine .read fun cell => .read fun copied => .either (.of (.refl _)) ?_
      exact step_next_frames.bind fun list => ih _ _

theorem get_next_frames : Frames Prod.fst list list.get_next := by
  refine .read fun current => ?_
  cases current with
  | none => exact .of (.refl _)
  | some node =>
    refine .read fun cell => ?_
    obtain ⟨data,prev,_ | next⟩ := cell
    · exact .of (.refl _)
    · exact step_next_frames.bind fun list => .of (.refl _)

theorem get_prev_frames : Frames Prod.fst list list.get_prev := by
  refine .read fun current => ?_
  cases current with
  | none => exact .of (.refl _)
  | some node =>
    refine .read fun cell => ?_
    obtain ⟨data,_ | prev,next⟩ := cell
    · exact .of (.refl _)
    · exact step_prev_frames.bind fun list => .of (.refl _)

theorem push_head_frames (node : Addr) : Frames id list (list.push_head node) := by
  refine .read fun head => (write_prev_frames _ _).bind fun list => ?_
  exact (write_next_frames _ _).bind fun list => .of ((frame_head _).trans frame_reset)

theorem push_tail_frames (node : Addr) : Frames id list (list.push_tail node) := by
  refine .read fun tail => (write_next_frames _ _).bind fun list => ?_
  exact (write_prev_frames _ _).bind fun list => .of ((frame_tail _).trans frame_reset)

theorem push_inner_frames (target node : Addr) : Frames id list (list.push_inner target node) := by
  refine (write_next_frames _ _).bind fun list => .read fun cell => ?_
  refine (write_prev_frames _ _).bind fun list => .read fun cell => .read fun prev => ?_
  exact (write_next_frames _ _).bind fun list => write_prev_frames _ _

theorem push_at_frames (index : Int) (node : Addr) : Frames Prod.fst list (list.push_at index node) := by
  have links : Frames Prod.fst list (list.link_at index node) := by
    refine .either (.of ⟨rfl,fun _ => id⟩) (.either ?_ (.either ?_ ?_))
    · exact (push_head_frames node).bind fun list => .of (.refl _)
    · exact (push_tail_frames node).bind fun list => .of (.refl _)
    · refine (get_node_of_frames index).bind fun found => ?_
      obtain ⟨list,_ | target⟩ := found
      · exact .of (.refl _)
      · exact (push_inner_frames target node).bind fun list => .of (.refl _)
  refine links.map fun result => ?_
  dsimp only
  split
  · exact ⟨rfl,fun _ => id⟩
  · exact .refl _

theorem answer_frames (result : LinkedList D × Option Addr) : Frames Prod.fst result.1 (answer result) := by
  obtain ⟨list,_ | node⟩ := result
  · exact .of (.refl _)
  · intro r same
    obtain ⟨data,_,rfl⟩ := Option.map_eq_some_iff.mp same
    exact .refl _

theorem answer_free_frames (result : LinkedList D × Option Addr) :
    Frames Prod.fst result.1 (answer_free result) := by
  obtain ⟨list,_ | node⟩ := result
  · exact .of (.refl _)
  · intro r same
    obtain ⟨data,_,rfl⟩ := Option.map_eq_some_iff.mp same
    exact frame_free node

theorem cplus_llist_pop_of_frames (index : Int) : Frames Prod.fst list (list.cplus_llist_pop_of index) :=
  .either (.of (.refl _)) ((pop_of_frames index).bind answer_free_frames)

-- A push leaves alone what is not the node it takes.
theorem cplus_llist_push_at_frame {index res : Int} {data : Option D} {alloc : Option Addr}
    (pushed : list.cplus_llist_push_at index data alloc = some (after,res)) :
    after.sort_count = list.sort_count ∧
      ∀ node, alloc ≠ some node → list.nodes node = none → after.nodes node = none := by
  unfold cplus_llist_push_at at pushed
  cases data with
  | none =>
    cases pushed
    exact ⟨rfl,fun _ _ => id⟩
  | some data =>
    dsimp only at pushed
    split at pushed
    · cases pushed
      exact ⟨rfl,fun _ _ => id⟩
    · cases alloc with
      | none =>
        cases pushed
        exact ⟨rfl,fun _ _ => id⟩
      | some taken =>
        have frame : Frame (list.new_node taken data) after := push_at_frames index taken _ pushed
        refine ⟨frame.sort_count,fun node apart absent => frame.absent node ?_⟩
        have other : node ≠ taken := fun same => apart (congrArg some same.symm)
        exact (Function.update_of_ne other _ _).trans absent

end LinkedList

open LinkedList

-- The calls that take no node for the list, and neither sort nor clear it.
def Op.Quiet : Op D → Prop
  | .push_at .. | .push_front .. | .push_back .. | .sort _ | .clear => False
  | _ => True

theorem LinkedList.call_frames [DecidableEq D] {list : LinkedList D} {op : Op D} (quiet : op.Quiet) :
    Frames Prod.fst list (list.call op) := by
  cases op with
  | pop_of index => exact (cplus_llist_pop_of_frames index).map fun _ => .refl _
  | pop_front => exact (cplus_llist_pop_of_frames 0).map fun _ => .refl _
  | pop_back => exact (cplus_llist_pop_of_frames list.count).map fun _ => .refl _
  | pop_if comparator =>
    refine Frames.map ?_ fun _ => .refl _
    cases comparator with
    | none => exact .of (.refl _)
    | some comparator => exact (pop_if_frames comparator).bind answer_free_frames
  | delete_data data =>
    refine Frames.map ?_ fun _ => .refl _
    cases data with
    | none => exact .of (.refl _)
    | some data => exact remove_data_frames data
  | get_of index =>
    refine Frames.map ?_ fun _ => .refl _
    exact .either (.of (.refl _)) ((get_node_of_frames index).bind answer_frames)
  | get_if comparator =>
    refine Frames.map ?_ fun _ => .refl _
    cases comparator with
    | none => exact .of (.refl _)
    | some comparator => exact (search_frames _ _).bind answer_frames
  | get_index_if comparator =>
    refine Frames.map ?_ fun _ => .refl _
    cases comparator with
    | none => exact .of (.refl _)
    | some comparator =>
      refine (search_frames _ _).bind fun found => ?_
      obtain ⟨list,_ | node⟩ := found
      · exact .of (.refl _)
      · exact .of (.refl _)
  | get_set_if comparator allocs =>
    refine Frames.map ?_ fun _ => .refl _
    cases comparator with
    | none => exact .of (.refl _)
    | some comparator => exact (collect_frames comparator (answers allocs) _ _ _).from_reset
  | get_next => exact (get_next_frames.bind answer_frames).map fun _ => .refl _
  | get_prev => exact (get_prev_frames.bind answer_frames).map fun _ => .refl _
  | get_cycling_next =>
    refine Frames.map (.read fun current => ?_) fun _ => .refl _
    cases current with
    | none => exact .of (.refl _)
    | some node =>
      refine .read fun target => get_next_frames.bind fun found => ?_
      obtain ⟨list,_ | next⟩ := found
      · exact .of frame_reset
      · exact .of (.refl _)
  | _ => cases quiet

end Libcplus
