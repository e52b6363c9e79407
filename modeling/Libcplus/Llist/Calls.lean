import Libcplus.Llist.Loops

namespace Libcplus
open DoublyLinked Typedef

variable {D : Type}

-- The calls on a list. A pointer may be NULL; `alloc` and `allocs` are what the
-- allocations of nodes give in turn, an address or NULL.
inductive Op (D : Type) where
  | push_at (index : Int) (data : Option D) (alloc : Option Addr)
  | push_front (data : Option D) (alloc : Option Addr)
  | push_back (data : Option D) (alloc : Option Addr)
  | pop_of (index : Int)
  | pop_front
  | pop_back
  | pop_if (comparator : Option (D → Int))
  | delete_data (data : Option D)
  | clear
  | sort (comparator : Option (D → D → Int))
  | get_of (index : Int)
  | get_if (comparator : Option (D → Int))
  | get_index_if (comparator : Option (D → Int))
  | get_set_if (comparator : Option (D → Int)) (allocs : List (Option Addr))
  | get_next
  | get_prev
  | get_cycling_next

def Op.Pushes : Op D → Prop
  | .push_at .. | .push_front .. | .push_back .. => True
  | _ => False

def Op.Lookup : Op D → Prop
  | .get_of _ | .get_if _ | .get_index_if _ | .get_set_if .. | .get_next | .get_prev | .get_cycling_next => True
  | _ => False

-- The comparison that a call sorts by.
def Op.order : Op D → Option (D → D → Int)
  | .sort comparator => comparator
  | _ => none

def answers (allocs : List (Option Addr)) (k : Nat) : Option Addr := allocs[k]?.join

inductive Answer (D : Type) where
  | data (target : Option D)
  | res (res : Int)
  | list (items : Option (List D))
  deriving DecidableEq, Repr

namespace LinkedList

-- The data met from the head on.
def contents (list : LinkedList D) : List D :=
  items (trace list.nodes Node.next (list.count + 1) list.head)

def call [DecidableEq D] (list : LinkedList D) : Op D → Option (LinkedList D × Answer D)
  | .push_at index data alloc => (list.cplus_llist_push_at index data alloc).map (.map id .res)
  | .push_front data alloc => (list.cplus_llist_push_front data alloc).map (.map id .res)
  | .push_back data alloc => (list.cplus_llist_push_back data alloc).map (.map id .res)
  | .pop_of index => (list.cplus_llist_pop_of index).map (.map id .data)
  | .pop_front => list.cplus_llist_pop_front.map (.map id .data)
  | .pop_back => list.cplus_llist_pop_back.map (.map id .data)
  | .pop_if comparator => (list.cplus_llist_pop_if comparator).map (.map id .data)
  | .delete_data data => (list.cplus_llist_delete_data data).map (.map id .res)
  | .clear => list.cplus_llist_clear.map (.map id .res)
  | .sort comparator => (list.cplus_llist_sort comparator).map (.map id .res)
  | .get_of index => (list.cplus_llist_get_of index).map (.map id .data)
  | .get_if comparator => (list.cplus_llist_get_if comparator).map (.map id .data)
  | .get_index_if comparator => (list.cplus_llist_get_index_if comparator).map (.map id .res)
  | .get_set_if comparator allocs =>
    (list.cplus_llist_get_set_if comparator (answers allocs)).map (.map id fun target =>
      .list (target.map contents))
  | .get_next => list.cplus_llist_get_next.map (.map id .data)
  | .get_prev => list.cplus_llist_get_prev.map (.map id .data)
  | .get_cycling_next => list.cplus_llist_get_cycling_next.map (.map id .data)

end LinkedList

end Libcplus

-- What the calls mean on a plain sequence. No answer is expected of a sort.
namespace Sequence
open Libcplus LinkedList Typedef
variable {D : Type} (s : Sequence D)

def push (index : Int) (data : Option D) (alloc : Option Addr) : Sequence D × Answer D :=
  match data,alloc with
  | some data,some _ =>
    if 0 ≤ index ∧ index ≤ s.items.length then (s.insert index.toNat data,.res CPLUS_SUCCESS)
    else (s,.res CPLUS_FAIL)
  | _,_ => (s,.res CPLUS_FAIL)

def pop (index : Int) : Sequence D × Answer D :=
  if 0 ≤ index ∧ index ≤ s.items.length then
    (s.remove index.toNat,.data s.items[s.slot index.toNat]?)
  else (s,.data none)

def get (index : Int) : Sequence D × Answer D :=
  if 0 ≤ index then (s.visit index.toNat,.data s.items[index.toNat]?) else (s,.data none)

def sorted (comparator : D → D → Int) : Sequence D :=
  s.arrange (BubbleSort.bubble_sort (greater comparator) s.items)
    (BubbleSort.bubble_sort_perm _ s.items).length_eq

-- For a comparison that orders the items: a permutation in that order, and the
-- items that compare as equal keep theirs.
theorem sorted_spec {comparator : D → D → Int} (ordering : BubbleSort.Ordering (greater comparator)) :
    (s.sorted comparator).items.Perm s.items ∧
      ((s.sorted comparator).items.Pairwise fun a b => greater comparator a b = false) ∧
      ∀ alike : D → Bool, (∀ a b, alike a = true → alike b = true → greater comparator a b = false) →
        (s.sorted comparator).items.filter alike = s.items.filter alike :=
  ⟨BubbleSort.bubble_sort_perm _ _,BubbleSort.bubble_sort_sorted ordering _,
    fun _ tied => BubbleSort.bubble_sort_stable _ tied _⟩

def call [DecidableEq D] : Op D → Sequence D × Option (Answer D)
  | .push_at index data alloc => (s.push index data alloc).map id some
  | .push_front data alloc => (s.push 0 data alloc).map id some
  | .push_back data alloc => (s.push s.items.length data alloc).map id some
  | .pop_of index => (s.pop index).map id some
  | .pop_front => (s.pop 0).map id some
  | .pop_back => (s.pop s.items.length).map id some
  | .pop_if none => (s,some (.data none))
  | .pop_if (some comparator) =>
    (s.discard (accepts comparator),some (.data (s.items.find? (accepts comparator))))
  | .delete_data none => (s,some (.res CPLUS_FAIL))
  | .delete_data (some data) =>
    (s.discard (data = ·),some (.res (if data ∈ s.items then CPLUS_SUCCESS else CPLUS_FAIL)))
  | .clear => (.start [],some (.res CPLUS_SUCCESS))
  | .sort none => (s,none)
  | .sort (some comparator) => (s.sorted comparator,none)
  | .get_of index => (s.get index).map id some
  | .get_if none => (s,some (.data none))
  | .get_if (some comparator) =>
    (s.search (accepts comparator),some (.data (s.items.find? (accepts comparator))))
  | .get_index_if none => (s,some (.res CPLUS_FAIL))
  | .get_index_if (some comparator) => (s.search (accepts comparator),
    some (.res (((s.items.findIdx? (accepts comparator)).map Int.ofNat).getD CPLUS_FAIL)))
  | .get_set_if none _ => (s,some (.list none))
  | .get_set_if (some comparator) allocs =>
    (s.visit (s.items.length - 1),some (.list (s.select (accepts comparator) (granted (answers allocs)))))
  | .get_next => (s.forward,some (.data s.items[s.cursor + 1]?))
  | .get_prev => (s.backward,some (.data (if s.cursor = 0 then none else s.items[s.cursor - 1]?)))
  | .get_cycling_next => (s.turn,some (.data s.here))

theorem lookup_items [DecidableEq D] (s : Sequence D) {op : Op D} (lookup : op.Lookup) :
    (s.call op).1.items = s.items := by
  cases op with
  | get_of index =>
    show (s.get index).1.items = _
    unfold get
    split
    · exact s.visit_items _
    · rfl
  | get_if comparator => cases comparator <;> rfl
  | get_index_if comparator => cases comparator <;> rfl
  | get_set_if comparator allocs =>
    cases comparator with
    | none => rfl
    | some comparator => exact s.visit_items _
  | get_next => exact s.visit_items _
  | get_prev => exact s.visit_items _
  | get_cycling_next => exact s.turn_items
  | _ => cases lookup

-- What a call leaves of the items, wherever the cursor is.
theorem call_items [DecidableEq D] {s t : Sequence D} (op : Op D) (same : s.items = t.items) :
    (s.call op).1.items = (t.call op).1.items := by
  have pushes : ∀ index data alloc, (s.push index data alloc).1.items = (t.push index data alloc).1.items := by
    intro index data alloc
    unfold push
    rw [same]
    split
    · split
      · rw [insert_items,insert_items,same]
      · exact same
    · exact same
  have pops : ∀ index, (s.pop index).1.items = (t.pop index).1.items := by
    intro index
    unfold pop
    rw [same]
    split
    · rw [remove_items,remove_items,slot,slot,same]
    · exact same
  cases op with
  | push_at index data alloc => exact pushes index data alloc
  | push_front data alloc => exact pushes 0 data alloc
  | push_back data alloc =>
    refine (pushes _ data alloc).trans ?_
    rw [same]
    rfl
  | pop_of index => exact pops index
  | pop_front => exact pops 0
  | pop_back =>
    refine (pops _).trans ?_
    rw [same]
    rfl
  | pop_if comparator =>
    cases comparator with
    | none => exact same
    | some comparator =>
      refine (discard_items s _).trans ((congrArg _ same).trans ?_)
      exact (discard_items t _).symm
  | delete_data data =>
    cases data with
    | none => exact same
    | some data =>
      refine (discard_items s _).trans ((congrArg _ same).trans ?_)
      exact (discard_items t _).symm
  | clear => rfl
  | sort comparator =>
    cases comparator with
    | none => exact same
    | some comparator => exact congrArg (BubbleSort.bubble_sort (greater comparator)) same
  | _ => exact (lookup_items s (by trivial)).trans (same.trans (lookup_items t (by trivial)).symm)

theorem push_length (index : Int) (data : Option D) (alloc : Option Addr) :
    (s.push index data alloc).1.items.length ≤ s.items.length + 1 := by
  unfold push
  split
  · split
    · rw [insert_items,List.length_insertIdx]
      split <;> omega
    · exact Nat.le_succ _
  · exact Nat.le_succ _

-- Without a push there are no more items than before.
theorem call_length [DecidableEq D] (op : Op D) (quiet : ¬ op.Pushes) :
    (s.call op).1.items.length ≤ s.items.length := by
  have pops : ∀ index, (s.pop index).1.items.length ≤ s.items.length := by
    intro index
    unfold pop
    split
    · rw [remove_items]
      exact List.length_eraseIdx_le _ _
    · exact Nat.le_refl _
  cases op with
  | push_at index data alloc => exact absurd trivial quiet
  | push_front data alloc => exact absurd trivial quiet
  | push_back data alloc => exact absurd trivial quiet
  | pop_of index => exact pops index
  | pop_front => exact pops 0
  | pop_back => exact pops _
  | pop_if comparator =>
    cases comparator with
    | none => exact Nat.le_refl _
    | some comparator =>
      refine Nat.le_trans (Nat.le_of_eq (congrArg List.length (s.discard_items _))) ?_
      exact List.length_eraseP_le
  | delete_data data =>
    cases data with
    | none => exact Nat.le_refl _
    | some data =>
      refine Nat.le_trans (Nat.le_of_eq (congrArg List.length (s.discard_items _))) ?_
      exact List.length_eraseP_le
  | clear => exact Nat.zero_le _
  | sort comparator =>
    cases comparator with
    | none => exact Nat.le_refl _
    | some comparator => exact Nat.le_of_eq (BubbleSort.bubble_sort_perm _ _).length_eq
  | _ => exact Nat.le_of_eq (congrArg List.length (lookup_items s (by trivial)))

end Sequence
