import Libcplus.Llist.Frame
import Libcplus.Llist.Session

namespace Libcplus
open DoublyLinked Transition Typedef

variable {D : Type}

namespace LinkedList
variable {list after other : LinkedList D} {cells : List (Addr × D)}
  {comparator : D → D → Int}

-- The comparisons that have something to sort by.
structure TotalPreorder (comparator : D → D → Int) : Prop where
  total : ∀ a b, comparator a b ≤ 0 ∨ comparator b a ≤ 0
  trans : ∀ a b c, comparator a b ≤ 0 → comparator b c ≤ 0 → comparator a c ≤ 0

def Sorted (comparator : D → D → Int) (items : List D) : Prop :=
  items.Pairwise fun a b => comparator a b ≤ 0

instance (comparator : D → D → Int) (items : List D) : Decidable (Sorted comparator items) :=
  inferInstanceAs (Decidable (items.Pairwise _))

def alike (comparator : D → D → Int) (a b : D) : Bool := comparator a b ≤ 0 ∧ comparator b a ≤ 0

theorem greater_false {a b : D} : greater comparator a b = false ↔ comparator a b ≤ 0 := by
  simp [greater]

theorem sorted_iff {items : List D} :
    Sorted comparator items ↔ items.Pairwise fun a b => greater comparator a b = false := by
  unfold Sorted
  simp only [greater_false]

theorem TotalPreorder.ordering (preorder : TotalPreorder comparator) :
    BubbleSort.Ordering (greater comparator) where
  one_way a b above := by
    have behind : ¬ comparator a b ≤ 0 := by simpa [greater] using above
    exact greater_false.mpr ((preorder.total a b).resolve_left behind)
  trans a b c first second := by
    rw [greater_false] at first second ⊢
    exact preorder.trans a b c first second

-- Two items that are alike to a third are alike to each other.
theorem TotalPreorder.tied (preorder : TotalPreorder comparator) (d a b : D)
    (here : alike comparator d a = true) (there : alike comparator d b = true) :
    greater comparator a b = false := by
  obtain ⟨_,above⟩ : comparator d a ≤ 0 ∧ comparator a d ≤ 0 := by simpa [alike] using here
  obtain ⟨below,_⟩ : comparator d b ≤ 0 ∧ comparator b d ≤ 0 := by simpa [alike] using there
  exact greater_false.mpr (preorder.trans a d b above below)

-- The same nodes with the same links; what data they hold may differ.
structure SameChain (list after : LinkedList D) : Prop where
  head : after.head = list.head
  tail : after.tail = list.tail
  count : after.count = list.count
  next : ∀ node, (after.nodes node).map Node.next = (list.nodes node).map Node.next
  prev : ∀ node, (after.nodes node).map Node.prev = (list.nodes node).map Node.prev

theorem SameChain.refl (list : LinkedList D) : SameChain list list := ⟨rfl,rfl,rfl,fun _ => rfl,fun _ => rfl⟩

theorem SameChain.trans (first : SameChain list other) (second : SameChain other after) :
    SameChain list after where
  head := second.head.trans first.head
  tail := second.tail.trans first.tail
  count := second.count.trans first.count
  next node := (second.next node).trans (first.next node)
  prev node := (second.prev node).trans (first.prev node)

theorem set_data_links (nodes : Heap Addr D) (a : Addr) (data : D) (node : Addr) :
    (set_data nodes a data node).map Node.next = (nodes node).map Node.next ∧
      (set_data nodes a data node).map Node.prev = (nodes node).map Node.prev := by
  unfold set_data
  by_cases here : node = a
  · subst here
    simp only [Function.update_self]
    cases nodes node <;> exact ⟨rfl,rfl⟩
  · rw [Function.update_of_ne here]
    exact ⟨rfl,rfl⟩

theorem swap_data_chain {front back : Addr} (swapped : list.swap_data front back = some after) :
    SameChain list after := by
  unfold swap_data at swapped
  simp only [Option.bind_eq_bind,Option.bind_eq_some_iff] at swapped
  obtain ⟨first,_,second,_,same⟩ := swapped
  cases same
  refine ⟨rfl,rfl,rfl,fun node => ?_,fun node => ?_⟩
  · exact ((set_data_links _ back first.data node).1).trans (set_data_links _ front second.data node).1
  · exact ((set_data_links _ back first.data node).2).trans (set_data_links _ front second.data node).2

theorem sort_pass_chain (size : Nat) {node last : Option Addr}
    (passed : sort_pass comparator size list node = some (after,last)) : SameChain list after := by
  induction size generalizing list node with
  | zero =>
    cases passed
    exact .refl _
  | succ size ih =>
    cases node with
    | none =>
      cases passed
      exact .refl _
    | some node1 =>
      simp only [sort_pass,Option.bind_eq_bind,Option.bind_eq_some_iff] at passed
      obtain ⟨cell,_,passed⟩ := passed
      cases ends : cell.next with
      | none =>
        rw [ends] at passed
        cases passed
        exact .refl _
      | some node2 =>
        simp only [ends,Option.bind_eq_some_iff] at passed
        obtain ⟨second,_,passed⟩ := passed
        split at passed
        · obtain ⟨swapped,exchanged,passed⟩ := Option.bind_eq_some_iff.mp passed
          exact (swap_data_chain exchanged).trans (ih passed)
        · exact ih passed

theorem sort_rounds_chain (rounds size : Nat) {node : Option Addr}
    (ran : sort_rounds comparator rounds size list node = some after) : SameChain list after := by
  induction rounds generalizing list size node with
  | zero =>
    cases ran
    exact .refl _
  | succ rounds ih =>
    cases node with
    | none =>
      cases ran
      exact .refl _
    | some start =>
      simp only [sort_rounds,Option.bind_eq_bind,Option.bind_eq_some_iff] at ran
      obtain ⟨⟨passed,last⟩,pass,ran⟩ := ran
      have same := sort_pass_chain size pass
      have counted : SameChain passed {passed with sort_count := (passed.sort_count + 1) % 2^32} :=
        ⟨rfl,rfl,rfl,fun _ => rfl,fun _ => rfl⟩
      exact (same.trans counted).trans (ih _ ran)

-- Sorting ends, for any comparison, with the same items on the same chain; for a
-- total preorder they are in order, and those that tie keep theirs.
theorem sort_correct (represents : Represents list cells) (comparator : D → D → Int) : ∃ after,
    list.llist_sort comparator = some after ∧ SameChain list after ∧
      after.contents.Perm list.contents ∧
      (TotalPreorder comparator → Sorted comparator after.contents ∧ ∀ d,
        after.contents.filter (alike comparator d) = list.contents.filter (alike comparator d)) := by
  obtain ⟨sorted,final,ran,kept,_,result,_⟩ := sort_spec comparator represents
  have arranged : sorted.contents = BubbleSort.bubble_sort (greater comparator) list.contents := by
    rw [contents_spec kept,result,contents_spec represents]
  refine ⟨sorted,ran,sort_rounds_chain _ _ ran,?_,fun preorder => ⟨?_,fun d => ?_⟩⟩
  · rw [arranged]
    exact BubbleSort.bubble_sort_perm _ _
  · rw [arranged,sorted_iff]
    exact BubbleSort.bubble_sort_sorted preorder.ordering _
  · rw [arranged]
    exact BubbleSort.bubble_sort_stable _ (preorder.tied d) _

-- Each round of the sort counts once.
theorem sort_rounds_count (rounds size : Nat) (represents : Represents list cells) {node : Option Addr}
    (more : cells ≠ []) (going : node ≠ none) (small : list.sort_count < 2^32)
    (ran : sort_rounds comparator rounds size list node = some after) :
    after.sort_count = (list.sort_count + rounds) % 2^32 := by
  induction rounds generalizing list cells size node with
  | zero =>
    cases ran
    exact (Nat.mod_eq_of_lt small).symm
  | succ rounds ih =>
    obtain ⟨start,rfl⟩ := Option.ne_none_iff_exists'.mp going
    have chain : Represents list ([] ++ cells) := represents
    obtain ⟨nodes,rest,last,passed,kept,same,_,goes⟩ := sort_pass_spec comparator size chain
    have rest_more : rest ≠ [] := by
      rintro rfl
      exact more (List.map_eq_nil_iff.mp same.symm)
    have noted : Represents {list.relinked list.head list.tail nodes with
        sort_count := (list.sort_count + 1) % 2^32} rest :=
      ⟨kept.linked,kept.nodup,kept.head,kept.tail,kept.count⟩
    unfold sort_rounds at ran
    rw [represents.head,passed] at ran
    have further := ih (size - 1) noted rest_more (goes more) (Nat.mod_lt _ (by decide)) ran
    rw [further,Nat.mod_add_mod]
    congr 1
    omega

theorem llist_sort_count (represents : Represents list cells) (small : list.sort_count < 2^32)
    (ran : list.llist_sort comparator = some after) :
    after.sort_count = (list.sort_count + list.count) % 2^32 := by
  unfold llist_sort at ran
  by_cases more : cells = []
  · rw [represents.count,more] at ran ⊢
    cases ran
    exact (Nat.mod_eq_of_lt small).symm
  · obtain ⟨node,there⟩ := ends_first more
    rw [represents.head] at ran
    exact sort_rounds_count _ _ represents more (by rw [there]; exact Option.some_ne_none node) small ran

section Runs

def by_key (a b : Nat × Nat) : Int := a.1 - b.1

theorem by_key_preorder : TotalPreorder by_key where
  total a b := by
    unfold by_key
    omega
  trans a b c := by
    unfold by_key
    omega

def tied_list : LinkedList (Nat × Nat) where
  count := 3
  sort_count := 0
  cur_index := 0
  head := some 0
  tail := some 2
  current := .head
  nodes a := [⟨(2,0),none,some 1⟩,⟨(1,1),some 0,some 2⟩,⟨(2,2),some 1,none⟩][a]?

theorem tied_represents : Represents tied_list [(0,(2,0)),(1,(1,1)),(2,(2,2))] :=
  ⟨⟨rfl,rfl,rfl,trivial⟩,by decide,rfl,rfl,rfl⟩

theorem tied_sorted : ∃ after, tied_list.llist_sort by_key = some after ∧ SameChain tied_list after ∧
    Sorted by_key after.contents ∧
    after.contents.filter (alike by_key (2,0)) = [(2,0),(2,2)] := by
  obtain ⟨after,ran,same,_,sorts⟩ := sort_correct tied_represents by_key
  obtain ⟨sorted,stable⟩ := sorts by_key_preorder
  exact ⟨after,ran,same,sorted,(stable (2,0)).trans (by decide)⟩

end Runs

end LinkedList

namespace LinkedList
variable {list after : LinkedList D} {s : Sequence D} {op : Op D} {answer : Answer D}

-- What the allocations and the size of the list allow, any index for a pop.
def Supplied (list : LinkedList D) : Op D → Prop
  | .pop_of _ => True
  | op => list.Allowed op

instance (list : LinkedList D) (op : Op D) : Decidable (list.Supplied op) :=
  match op with
  | .pop_of _ => instDecidableTrue
  | .push_at index data alloc => inferInstanceAs (Decidable (list.Allowed (.push_at index data alloc)))
  | .push_front data alloc => inferInstanceAs (Decidable (list.Allowed (.push_front data alloc)))
  | .push_back data alloc => inferInstanceAs (Decidable (list.Allowed (.push_back data alloc)))
  | .get_set_if comparator allocs => inferInstanceAs (Decidable (list.Allowed (.get_set_if comparator allocs)))
  | .pop_front | .pop_back | .pop_if _ | .delete_data _ | .clear | .sort _ | .get_of _ | .get_if _
  | .get_index_if _ | .get_next | .get_prev | .get_cycling_next => instDecidableTrue

-- Only a sort counts passes, and only clear forgets them.
theorem call_sort_count [DecidableEq D] (unordered : op.order = none) (called : list.call op = some (after,answer)) :
    after.sort_count = list.sort_count ∨ op = .clear ∧ after.sort_count = 0 := by
  have pushed : ∀ index data alloc, ((list.cplus_llist_push_at index data alloc).map (.map id Answer.res)) =
      some (after,answer) → after.sort_count = list.sort_count := by
    intro index data alloc ran
    obtain ⟨⟨_,res⟩,pushes,same⟩ := Option.map_eq_some_iff.mp ran
    cases same
    exact (cplus_llist_push_at_frame pushes).1
  cases op with
  | push_at index data alloc => exact .inl (pushed index data alloc called)
  | push_front data alloc => exact .inl (pushed 0 data alloc called)
  | push_back data alloc => exact .inl (pushed list.count data alloc called)
  | sort comparator =>
    cases comparator with
    | none =>
      cases called
      exact .inl rfl
    | some comparator => cases unordered
  | clear =>
    obtain ⟨⟨_,res⟩,cleared,same⟩ := Option.map_eq_some_iff.mp called
    cases same
    obtain ⟨freed,_,same⟩ := Option.bind_eq_some_iff.mp cleared
    cases same
    exact .inr ⟨rfl,rfl⟩
  | _ => exact .inl (call_frames (by trivial) _ called).sort_count

theorem call_contents [DecidableEq D] (refines : Refines list s) (op : Op D) :
    ((Sequence.start list.contents).call op).1.items = (s.call op).1.items :=
  Sequence.call_items op (refines_contents refines)

end LinkedList

open LinkedList

-- Calls on a list, with the comparison that the last call asked to sort by, and
-- the one of the last sort call so far.
structure Sorting (D : Type) where
  list : Option (LinkedList D)
  answer : Option (Answer D)
  asked : Option (D → D → Int)
  order : Option (D → D → Int)

namespace Sorting

def start : Sorting D := ⟨some llist_initialize_object,none,none,none⟩

-- A sort call succeeds and sorts, and a list that says it is sorted is.
def Truthful (s : Sorting D) : Prop := ∃ list, s.list = some list ∧
  (∀ comparator, s.asked = some comparator → TotalPreorder comparator →
    s.answer = some (.res CPLUS_SUCCESS) ∧ Sorted comparator list.contents) ∧
  (list.cplus_llist_is_sort = true → 2 ≤ list.count →
    ∃ comparator, s.order = some comparator ∧ Sorted comparator list.contents)

-- A property of the list in front of a call.
def Before (P : LinkedList D → Op D → Prop) (s : Sorting D) (op : Op D) : Prop :=
  ∃ list, s.list = some list ∧ P list op

instance (P : LinkedList D → Op D → Prop) [∀ list op, Decidable (P list op)] (s : Sorting D)
    (op : Op D) : Decidable (s.Before P op) :=
  inferInstanceAs (Decidable (∃ list ∈ s.list, P list op))

-- The edits by index that go right.
def Edits (list : LinkedList D) (op : Op D) : Prop := list.Allowed op ∧ list.Reaches op

instance (list : LinkedList D) (op : Op D) : Decidable (Edits list op) :=
  inferInstanceAs (Decidable (_ ∧ _))

variable [DecidableEq D]

def after (s : Sorting D) (op : Op D) : Sorting D :=
  let called := s.list.bind fun list => list.call op
  ⟨called.map Prod.fst,called.map Prod.snd,op.order,op.order.or s.order⟩

def Step (s : Sorting D) (op : Op D) (t : Sorting D) : Prop := s.Before Supplied op ∧ t = s.after op

def advance (s : Sorting D) (op : Op D) : Option (Sorting D) :=
  if s.Before Supplied op then some (s.after op) else none

theorem advance_step (s : Sorting D) (op : Op D) (t : Sorting D) (taken : Follows advance s op t) :
    Step s op t := by
  unfold Follows advance at taken
  split at taken
  · rename_i inside
    exact ⟨inside,(Option.some.inj taken).symm⟩
  · cases taken

-- What keeps the flag true: a sort finds the count of passes at 0, or is skipped
-- on a list in its order; no other call leaves as many items as passes were
-- counted, unless they are in the order of the last sort.
def Tells (order : Option (D → D → Int)) (list : LinkedList D) (op : Op D) : Prop :=
  match op.order with
  | some comparator =>
    if list.is_sort then Sorted comparator list.contents else list.sort_count = 0
  | none =>
    let left := ((Sequence.start list.contents).call op).1.items
    left.length = list.sort_count → ∀ comparator ∈ order, Sorted comparator left

instance (order : Option (D → D → Int)) (list : LinkedList D) (op : Op D) :
    Decidable (Tells order list op) := by
  unfold Tells
  split <;> infer_instance

def Flagged (s : Sorting D) (op : Op D) : Prop := s.Before (Tells s.order) op

instance (s : Sorting D) (op : Op D) : Decidable (s.Flagged op) :=
  inferInstanceAs (Decidable (s.Before _ op))

def Edited (s : Sorting D) (op : Op D) : Prop := s.Before Edits op

omit [DecidableEq D] in
instance (s : Sorting D) (op : Op D) : Decidable (s.Edited op) :=
  inferInstanceAs (Decidable (s.Before _ op))

-- The comparisons asked for can be sorted by.
def Ordered (op : Op D) : Prop := ∀ comparator, op.order = some comparator → TotalPreorder comparator

structure Holds (s : Sorting D) (list : LinkedList D) (sequence : Sequence D) : Prop where
  here : s.list = some list
  refines : Refines list sequence
  small : list.count < 2^31
  counted : list.sort_count < 2^32
  unsorted : s.order = none → list.sort_count = 0
  truthful : Truthful s

def Invariant (s : Sorting D) : Prop := ∃ list sequence, Holds s list sequence

variable {s t : Sorting D} {op : Op D} {list : LinkedList D} {sequence : Sequence D}

omit [DecidableEq D] in
theorem start_invariant : Invariant (start : Sorting D) := by
  refine ⟨_,_,rfl,empty_refines,Nat.two_pow_pos 31,Nat.two_pow_pos 32,fun _ => rfl,_,rfl,nofun,?_⟩
  exact fun _ two => absurd two (Nat.not_succ_le_zero 1)

omit [DecidableEq D] in
theorem sorted_short {comparator : D → D → Int} {items : List D} (short : items.length < 2) :
    Sorted comparator items := by
  match items with
  | [] => exact .nil
  | [a] => exact List.pairwise_singleton _ a

omit [DecidableEq D] in
theorem before_list {P : LinkedList D → Op D → Prop} (holds : Holds s list sequence) :
    s.Before P op ↔ P list op := by
  refine ⟨fun before => ?_,fun meets => ⟨list,holds.here,meets⟩⟩
  obtain ⟨same,there,meets⟩ := before
  obtain rfl : list = same := Option.some.inj (holds.here.symm.trans there)
  exact meets

-- A call other than a sort: what it leaves, and the passes counted.
theorem other_call (holds : Holds s list sequence) (unordered : op.order = none) (edits : Edits list op) :
    ∃ after answer, list.call op = some (after,answer) ∧ Refines after (sequence.call op).1 ∧
      after.contents = ((Sequence.start list.contents).call op).1.items ∧
      after.count = after.contents.length ∧
      (after.sort_count = list.sort_count ∨ op = .clear ∧ after.sort_count = 0) := by
  obtain ⟨after,answer,called,kept,_⟩ :=
    call_keeps holds.refines edits.1 (unordered_sorts unordered) edits.2
  have contents := refines_contents kept
  refine ⟨after,answer,called,kept,?_,?_,call_sort_count unordered called⟩
  · exact contents.trans (call_contents holds.refines op).symm
  · rw [contents]
    exact refines_count kept

theorem after_called {after : LinkedList D} {answer : Answer D} (holds : Holds s list sequence)
    (called : list.call op = some (after,answer)) :
    s.after op = ⟨some after,some answer,op.order,op.order.or s.order⟩ := by
  have ran : (s.list.bind fun list => list.call op) = some (after,answer) := by
    rw [holds.here]
    exact called
  unfold Sorting.after
  rw [ran]
  rfl

theorem count_small (holds : Holds s list sequence) (unordered : op.order = none)
    (supplied : list.Supplied op) : (sequence.call op).1.items.length < 2^31 := by
  have length := refines_count holds.refines
  have small := holds.small
  by_cases pushes : op.Pushes
  · have grows : (sequence.call op).1.items.length ≤ sequence.items.length + 1 := by
      cases op with
      | push_at index data alloc => exact sequence.push_length _ _ _
      | push_front data alloc => exact sequence.push_length _ _ _
      | push_back data alloc => exact sequence.push_length _ _ _
      | _ => cases pushes
    have room : list.count + 1 < 2^31 - 1 := by
      cases op with
      | push_at index data alloc => exact supplied.1
      | push_front data alloc => exact supplied.1
      | push_back data alloc => exact supplied.1
      | _ => cases pushes
    omega
  · have shrinks := sequence.call_length op pushes
    omega

theorem other_keeps (holds : Holds s list sequence) (unordered : op.order = none)
    (supplied : list.Supplied op) (edits : Edits list op) (tells : Tells s.order list op) :
    Invariant (s.after op) := by
  obtain ⟨after,answer,called,kept,contents,count,passes⟩ := other_call holds unordered edits
  have small : after.count < 2^31 := by
    rw [refines_count kept]
    exact count_small holds unordered supplied
  rw [after_called holds called,unordered]
  refine ⟨after,_,rfl,kept,small,?_,fun never => ?_,after,rfl,nofun,fun flag two => ?_⟩
  · rcases passes with same | ⟨_,zero⟩
    · rw [same]
      exact holds.counted
    · rw [zero]
      exact Nat.two_pow_pos 32
  · rcases passes with same | ⟨_,zero⟩
    · rw [same]
      exact holds.unsorted never
    · exact zero
  · have equal : after.count = after.sort_count := of_decide_eq_true flag
    rcases passes with same | ⟨_,zero⟩
    · have passed : after.contents.length = list.sort_count := by rw [← count,equal,same]
      simp only [Tells,unordered] at tells
      rw [contents] at passed ⊢
      cases order : s.order with
      | none =>
        have never := holds.unsorted order
        omega
      | some comparator => exact ⟨comparator,rfl,tells passed comparator order⟩
    · omega

theorem other_breaks (holds : Holds s list sequence) (unordered : op.order = none) (edits : Edits list op)
    (untold : ¬ Tells s.order list op) : ¬ Truthful (s.after op) := by
  obtain ⟨after,answer,called,_,contents,count,passes⟩ := other_call holds unordered edits
  rw [after_called holds called,unordered]
  simp only [Tells,unordered,Classical.not_forall] at untold
  obtain ⟨passed,comparator,order,unsorted⟩ := untold
  rintro ⟨_,⟨⟩,_,flagged⟩
  rw [← contents] at passed unsorted
  have long : 2 ≤ after.contents.length := by
    by_contra short
    exact unsorted (sorted_short (by omega))
  rcases passes with same | ⟨rfl,_⟩
  · have flag : after.cplus_llist_is_sort = true := decide_eq_true (by
      show after.count = after.sort_count
      rw [count,passed,same])
    obtain ⟨other,here,sorted⟩ := flagged flag (by rwa [count])
    have same_order : s.order = some other := here
    rw [order] at same_order
    cases same_order
    exact unsorted sorted
  · rw [contents] at long
    exact absurd long (Nat.not_succ_le_zero 1)

-- The two ways a sort call goes.
theorem sort_skipped {comparator : D → D → Int} (skipped : list.is_sort) :
    list.call (.sort (some comparator)) = some (list,.res CPLUS_SUCCESS) := by
  show ((list.cplus_llist_sort (some comparator)).map _) = _
  simp only [cplus_llist_sort,if_pos skipped,Option.map_some]
  rfl

theorem sort_ran {comparator : D → D → Int} (holds : Holds s list sequence) (unsorted : ¬ list.is_sort)
    (preorder : TotalPreorder comparator) : ∃ after,
    list.call (.sort (some comparator)) =
      some (after,.res (if list.sort_count = 0 then CPLUS_SUCCESS else CPLUS_FAIL)) ∧
    Refines after (sequence.sorted comparator) ∧ after.count = list.count ∧
    after.sort_count = (list.sort_count + list.count) % 2^32 ∧ Sorted comparator after.contents := by
  obtain ⟨cells,represents,_⟩ := id holds.refines
  obtain ⟨after,ran,same,_,sorts⟩ := sort_correct represents comparator
  have passes := llist_sort_count represents holds.counted ran
  have small := holds.small
  have counted := holds.counted
  have flag : after.is_sort ↔ list.sort_count = 0 := by
    unfold is_sort
    rw [same.count,passes]
    omega
  have called : list.call (.sort (some comparator)) =
      some (after,.res (if after.is_sort then CPLUS_SUCCESS else CPLUS_FAIL)) := by
    show ((list.cplus_llist_sort (some comparator)).map _) = _
    simp only [cplus_llist_sort,if_neg unsorted,ran,Option.map_some]
    rfl
  obtain ⟨other,answer,again,kept,_⟩ := LinkedList.sort_keeps holds.refines comparator (.inl unsorted)
  have same_after : some (after,Answer.res (if after.is_sort then CPLUS_SUCCESS else CPLUS_FAIL)) =
      some (other,answer) := called.symm.trans again
  cases same_after
  refine ⟨after,?_,kept,same.count,passes,(sorts preorder).1⟩
  rw [called]
  simp only [flag]

theorem sort_step {comparator : D → D → Int} (holds : Holds s list sequence)
    (preorder : TotalPreorder comparator) (tells : Tells s.order list (.sort (some comparator))) :
    Invariant (s.after (.sort (some comparator))) := by
  have ordered : (Op.sort (some comparator)).order = some comparator := rfl
  simp only [Tells,ordered] at tells
  by_cases skipped : list.is_sort
  · rw [if_pos skipped] at tells
    rw [after_called holds (sort_skipped skipped)]
    refine ⟨list,sequence,rfl,holds.refines,holds.small,holds.counted,nofun,list,rfl,?_,?_⟩
    · rintro _ ⟨⟩ _
      exact ⟨rfl,tells⟩
    · exact fun _ _ => ⟨comparator,rfl,tells⟩
  · rw [if_neg skipped] at tells
    obtain ⟨after,called,kept,count,passes,sorted⟩ := sort_ran holds skipped preorder
    rw [if_pos tells] at called
    rw [after_called holds called]
    refine ⟨after,_,rfl,kept,count ▸ holds.small,?_,nofun,after,rfl,?_,?_⟩
    · rw [passes]
      exact Nat.mod_lt _ (Nat.two_pow_pos 32)
    · rintro _ ⟨⟩ _
      exact ⟨rfl,sorted⟩
    · exact fun _ _ => ⟨comparator,rfl,sorted⟩

theorem sort_breaks {comparator : D → D → Int} (holds : Holds s list sequence)
    (preorder : TotalPreorder comparator) (untold : ¬ Tells s.order list (.sort (some comparator))) :
    ¬ Truthful (s.after (.sort (some comparator))) := by
  have ordered : (Op.sort (some comparator)).order = some comparator := rfl
  simp only [Tells,ordered] at untold
  rintro ⟨after,here,asked,_⟩
  obtain ⟨answered,sorted⟩ := asked comparator rfl preorder
  by_cases skipped : list.is_sort
  · rw [if_pos skipped] at untold
    rw [after_called holds (sort_skipped skipped)] at here
    cases here
    exact untold sorted
  · rw [if_neg skipped] at untold
    obtain ⟨_,called,_⟩ := sort_ran holds skipped preorder
    rw [if_neg untold] at called
    rw [after_called holds called] at answered
    cases answered

omit [DecidableEq D] in
theorem ordered_sort {comparator : D → D → Int} (order : op.order = some comparator) : op = .sort (some comparator) := by
  cases op with
  | sort asked => exact congrArg Op.sort order
  | _ => cases order

theorem step_keeps (valid : Invariant s) (taken : (Step s op t ∧ s.Edited op) ∧ Ordered op)
    (flagged : s.Flagged op) : Invariant t := by
  obtain ⟨list,sequence,holds⟩ := valid
  obtain ⟨⟨⟨supplied,rfl⟩,edited⟩,ordered⟩ := taken
  have edits := (before_list holds).mp edited
  rw [before_list holds] at supplied
  have tells := (before_list holds).mp flagged
  cases unordered : op.order with
  | none => exact other_keeps holds unordered supplied edits tells
  | some comparator =>
    obtain rfl := ordered_sort unordered
    exact sort_step holds (ordered comparator rfl) tells

theorem step_breaks (valid : Invariant s) (taken : (Step s op t ∧ s.Edited op) ∧ Ordered op)
    (unflagged : ¬ s.Flagged op) : ¬ Truthful t := by
  obtain ⟨list,sequence,holds⟩ := valid
  obtain ⟨⟨⟨_,rfl⟩,edited⟩,ordered⟩ := taken
  have edits := (before_list holds).mp edited
  have untold : ¬ Tells s.order list op := fun tells => unflagged ((before_list holds).mpr tells)
  cases unordered : op.order with
  | none => exact other_breaks holds unordered edits untold
  | some comparator =>
    obtain rfl := ordered_sort unordered
    exact sort_breaks holds (ordered comparator rfl) untold

-- In the runs whose edits by index go right and whose comparisons are orders, the
-- sort calls and the flag tell the truth exactly where the count of passes does.
theorem truthful_exact {moves : List (Move (Sorting D) (Op D))} (run : Run Step start moves s)
    (edited : Meets Edited moves) (ordered : Meets (fun _ op => Ordered op) moves) :
    Throughout Truthful moves ↔ Meets Flagged moves := by
  have steps := (run.meeting edited).meeting ordered
  refine steps.exact start_invariant step_keeps ?_ step_breaks
  rintro s ⟨_,_,holds⟩
  exact holds.truthful

-- Every sort finds no passes counted, and no other call leaves two elements or more
-- that are as many as were counted.
def Unconfused (s : Sorting D) (op : Op D) : Prop := s.Before (fun list op => match op.order with
  | some _ => list.sort_count = 0
  | none =>
    let left := ((Sequence.start list.contents).call op).1.items
    left.length = list.sort_count → left.length < 2) op

theorem unconfused_flagged (valid : Invariant s) (unconfused : s.Unconfused op) : s.Flagged op := by
  obtain ⟨list,sequence,holds⟩ := valid
  have alone := (before_list holds).mp unconfused
  refine (before_list holds).mpr ?_
  unfold Tells
  cases order : op.order with
  | some comparator =>
    simp only [order] at alone ⊢
    split
    · rename_i skipped
      have empty : list.contents.length = 0 := by
        rw [refines_contents holds.refines,← refines_count holds.refines]
        exact skipped.trans alone
      exact sorted_short (by omega)
    · exact alone
  | none =>
    simp only [order] at alone ⊢
    intro same comparator _
    exact sorted_short (alone same)

-- So a list that is cleared between two sorts, and not filled up to where the last one
-- left it, never misleads.
theorem unconfused_truthful {moves : List (Move (Sorting D) (Op D))} (run : Run Step start moves s)
    (edited : Meets Edited moves) (ordered : Meets (fun _ op => Ordered op) moves) (unconfused : Meets Unconfused moves) :
    Throughout Truthful moves := by
  have steps := (run.meeting edited).meeting ordered
  have kept := steps.keeps Unconfused start_invariant
    (fun valid taken unconfused => step_keeps valid taken (unconfused_flagged valid unconfused)) unconfused
  refine kept.2.imp fun s valid => ?_
  obtain ⟨_,_,holds⟩ := valid
  exact holds.truthful

theorem asked_last {moves : List (Move (Sorting D) (Op D))} (run : Run Step start moves s)
    (calls : List (Op D)) (last : Op D) (same : moves.map Move.action = calls ++ [last]) :
    s.asked = last.order := by
  cases run with
  | nil => exact absurd same.symm (List.append_ne_nil_of_right_ne_nil _ (List.cons_ne_nil _ _))
  | snoc prior taken =>
    obtain ⟨_,rfl⟩ := taken
    rw [List.map_append] at same
    exact congrArg Op.order (List.singleton_inj.mp (List.append_inj' same rfl).2)

section Runs

def descending (a b : Nat) : Int := b - a

theorem ascending_preorder : TotalPreorder Session.ascending where
  total a b := by
    unfold Session.ascending
    omega
  trans a b c := by
    unfold Session.ascending
    omega

theorem descending_preorder : TotalPreorder descending where
  total a b := by
    unfold descending
    omega
  trans a b c := by
    unfold descending
    omega

theorem run_of_calls (calls : List (Op Nat))
    (check : List (Move (Sorting Nat) (Op Nat)) × Sorting Nat → Bool)
    (passes : (execute advance start calls).any check = true) : ∃ moves s,
      Run Step (start : Sorting Nat) moves s ∧ moves.map Move.action = calls ∧ check (moves,s) = true := by
  obtain ⟨moves,s,run,same,checked⟩ := Run.of_check advance start calls check passes
  exact ⟨moves,s,run.imp advance_step,same,checked⟩

-- After the list was cleared it can be sorted again, and by another comparison.
def cleared_calls : List (Op Nat) :=
  [.push_back (some 3) (some 0),.push_back (some 1) (some 1),.sort (some Session.ascending),.get_of 1,
   .push_at 1 (some 2) (some 2),.pop_back,.clear,.push_back (some 1) (some 0),.push_back (some 2) (some 1),
   .sort (some descending)]

theorem cleared_ordered : ∀ op ∈ cleared_calls, Ordered op := by
  intro op member comparator order
  simp only [cleared_calls,List.mem_cons,List.not_mem_nil,or_false] at member
  rcases member with rfl | rfl | rfl | rfl | rfl | rfl | rfl | rfl | rfl | rfl <;> cases order
  · exact ascending_preorder
  · exact descending_preorder

theorem cleared_truthful : ∃ moves s, Run Step (start : Sorting Nat) moves s ∧
    moves.map Move.action = cleared_calls ∧ Throughout Truthful moves := by
  obtain ⟨moves,s,run,same,checked⟩ := run_of_calls cleared_calls (fun result =>
    decide (Meets Edited result.1 ∧ Meets Flagged result.1)) (by decide +kernel)
  obtain ⟨edited,flagged⟩ := of_decide_eq_true checked
  have ordered : Meets (fun _ op => Ordered op) moves := fun m member =>
    cleared_ordered _ (same ▸ List.mem_map_of_mem member)
  exact ⟨moves,s,run,same,(truthful_exact run edited ordered).mpr flagged⟩

-- Two passes counted for two items that are gone: the flag is up for [3,0], and
-- once there is a third item a sort that sorts says it failed.
def stale_calls : List (Op Nat) :=
  [.push_back (some 3) (some 0),.push_back (some 1) (some 1),.sort (some Session.ascending),.pop_front,
   .push_back (some 0) (some 0)]

def grown_calls : List (Op Nat) :=
  [.push_back (some 3) (some 0),.push_back (some 1) (some 1),.sort (some Session.ascending),
   .push_back (some 2) (some 2),.sort (some Session.ascending)]

theorem stale_flag_misleads :
    (∃ moves s, Run Step (start : Sorting Nat) moves s ∧ moves.map Move.action = stale_calls ∧
      s.list.map contents = some [3,0] ∧ s.list.map cplus_llist_is_sort = some true ∧ ¬ Truthful s) ∧
    (∃ moves s, Run Step (start : Sorting Nat) moves s ∧ moves.map Move.action = grown_calls ∧
      s.answer = some (.res CPLUS_FAIL) ∧ ¬ Truthful s) := by
  constructor
  · obtain ⟨moves,s,run,same,checked⟩ := run_of_calls stale_calls (fun result =>
      decide (result.2.list.map contents = some [3,0] ∧
        result.2.list.map cplus_llist_is_sort = some true ∧ result.2.list.map count = some 2 ∧
        result.2.order.map (fun order => order 3 0) = some 3)) (by decide +kernel)
    obtain ⟨held,flag,two,order⟩ := of_decide_eq_true checked
    refine ⟨moves,s,run,same,held,flag,fun truthful => ?_⟩
    obtain ⟨list,here,_,flagged⟩ := truthful
    rw [here] at held flag two
    obtain ⟨comparator,same_order,sorted⟩ :=
      flagged (Option.some.inj flag) (Nat.le_of_eq (Option.some.inj two).symm)
    rw [Option.some.inj held] at sorted
    rw [same_order] at order
    have below : comparator 3 0 ≤ 0 := (List.pairwise_cons.mp sorted).1 0 (List.mem_singleton.mpr rfl)
    have above : comparator 3 0 = 3 := Option.some.inj order
    omega
  · obtain ⟨moves,s,run,same,checked⟩ := run_of_calls grown_calls (fun result =>
      decide (result.2.answer = some (.res CPLUS_FAIL))) (by decide +kernel)
    have answered := of_decide_eq_true checked
    have asked : s.asked = some Session.ascending := asked_last run grown_calls.dropLast _ same
    refine ⟨moves,s,run,same,answered,fun truthful => ?_⟩
    obtain ⟨list,here,asks,_⟩ := truthful
    have success := (asks _ asked ascending_preorder).1
    rw [answered] at success
    cases success

end Runs

end Sorting

end Libcplus
