import Libcplus.Llist.Lookups

namespace Libcplus
open DoublyLinked Transition

variable {D : Type}

namespace LinkedList
variable {list : LinkedList D} {left cells : List (Addr × D)} {cell : Addr × D} {s : Sequence D}

-- The node is the last one: its next link, read for the neighbour behind, is NULL.
theorem unlink_inner_faults (represents : Represents list (left ++ [cell])) :
    list.unlink_inner cell.1 = none := by
  have here : list.nodes cell.1 = some ⟨cell.2,last none left,none⟩ := linked_cell represents.linked
  obtain ⟨_,_,apart⟩ := nodup_parts represents.nodup
  unfold unlink_inner
  simp only [here,Option.bind_eq_bind,Option.bind_some]
  cases before : last none left with
  | none => rfl
  | some prev =>
    have not_prev : some prev ≠ some cell.1 := fun same =>
      apart prev (last_member before) (by rw [Option.some.inj same]; simp)
    rw [Option.bind_some]
    cases written : list.write_next prev none with
    | none => rfl
    | some after =>
      obtain ⟨_,_,rfl⟩ := Option.map_eq_some_iff.mp written
      have still : set_next list.nodes (some prev) none cell.1 = some ⟨cell.2,last none left,none⟩ :=
        (set_next_other not_prev).trans here
      simp only [Option.bind_some,still,Option.bind_none]

-- The last of several elements by its own index.
theorem pop_last_faults (refines : Refines list s) {i : Nat} (some_before : 0 < i)
    (at_end : i + 1 = list.count) : list.cplus_llist_pop_of i = none := by
  have count := refines_count refines
  rw [pop_called refines (show i ≤ s.items.length by omega)]
  obtain ⟨cells,represents,points,same⟩ := refines
  have length : s.items.length = cells.length := by rw [← same,items_length]
  rcases List.eq_nil_or_concat cells with rfl | ⟨left,cell,rfl⟩
  · rw [List.length_nil] at length
    omega
  · rw [List.concat_eq_append] at represents points length
    have size : left.length = i := by
      rw [List.length_append,List.length_singleton] at length
      omega
    obtain ⟨link,found,_⟩ := get_node_of_spec represents points (show i < _ by omega)
    have here : address (left ++ [cell]) i = some cell.1 := by
      rw [← size]
      exact address_right 0
    have faults : (list.moved link i).unlink_inner cell.1 = none :=
      unlink_inner_faults (moved_represents represents)
    have unlinks : list.unlink_of i = none := by
      unfold unlink_of
      rw [if_neg (show ¬ (i : Int) = 0 by omega),if_neg (show ¬ (list.count : Int) = i by omega),found,here]
      simp only [Option.bind_eq_bind,Option.bind_some,faults,Option.bind_none]
    have some_left : ¬ list.is_empty := by
      show ¬ list.count = 0
      omega
    rw [pop_of,if_neg some_left,unlinks]
    rfl

-- Element i comes off, and the others stay in order on one chain.
def Removes (list : LinkedList D) (i : Nat) : Prop := ∃ after rest,
  list.cplus_llist_pop_of i = some (after,list.contents[i]?) ∧ Represents after rest ∧
    items rest = list.contents.eraseIdx i

theorem removes_exact (refines : Refines list s) {i : Nat} (within : i < list.count) :
    Removes list i ↔ i = 0 ∨ i + 1 < list.count := by
  have count := refines_count refines
  have contents := refines_contents refines
  constructor
  · rintro ⟨after,rest,popped,_⟩
    by_contra last
    rw [pop_last_faults refines (show 0 < i by omega) (by omega)] at popped
    cases popped
  · intro place
    unfold Removes
    rw [contents]
    by_cases inner : 0 < i ∧ i + 1 < s.items.length
    · obtain ⟨after,rest,popped,kept,left_over,_⟩ := pop_between refines inner
      exact ⟨after,rest,popped,kept,left_over⟩
    · obtain rfl : i = 0 := by omega
      have more : s.items ≠ [] := List.length_pos_iff.mp (by omega)
      obtain ⟨after,popped,rest,kept,_,left_over⟩ := pop_first refines more
      exact ⟨after,rest,popped,kept,left_over⟩

end LinkedList

namespace Session
open LinkedList
variable [DecidableEq D] {s : Session D}

-- An element goes by its own index unless it is the last of several.
theorem indexed_removal {moves : List (Move (Session D) (Op D))} (run : Run (Step Turned) start moves s)
    {list : LinkedList D} (here : s.list = some list) {i : Nat} (within : i < list.count) :
    Removes list i ↔ i = 0 ∨ i + 1 < list.count := removes_exact (turned_refines run here) within

section Runs

def two_calls : List (Op Nat) := [.push_back (some 10) (some 0),.push_back (some 20) (some 1),.get_of 1]

theorem two_held : ∃ moves s list, Run (Step Turned) (start : Session Nat) moves s ∧
    moves.map Move.action = two_calls ∧ s.list = some list ∧ list.contents = [10,20] ∧ list.count = 2 := by
  obtain ⟨moves,s,run,same,checked⟩ := run_of_calls Turned two_calls
    (fun result => decide (result.2.list.map contents = some [10,20] ∧
      result.2.list.map count = some 2)) (by decide +kernel)
  obtain ⟨held,size⟩ := of_decide_eq_true checked
  obtain ⟨list,here,held⟩ := Option.map_eq_some_iff.mp held
  rw [here] at size
  exact ⟨moves,s,list,run,same,here,held,Option.some.inj size⟩

theorem first_removed : ∃ moves s list after rest, Run (Step Turned) (start : Session Nat) moves s ∧
    moves.map Move.action = two_calls ∧ s.list = some list ∧
    list.cplus_llist_pop_of 0 = some (after,some 10) ∧ Represents after rest ∧ items rest = [20] := by
  obtain ⟨moves,s,list,run,same,here,held,size⟩ := two_held
  obtain ⟨after,rest,popped,kept,left_over⟩ :=
    (indexed_removal run here (show 0 < list.count by omega)).mpr (.inl rfl)
  rw [held] at popped left_over
  exact ⟨moves,s,list,after,rest,run,same,here,popped,kept,left_over⟩

-- The node at index 1 of two has nothing behind it to link to.
theorem last_index_faults : ∃ moves s list, Run (Step Turned) (start : Session Nat) moves s ∧
    moves.map Move.action = two_calls ∧ s.list = some list ∧ list.count = 2 ∧
    list.cplus_llist_pop_of 1 = none ∧ ¬ Removes list 1 := by
  obtain ⟨moves,s,list,run,same,here,_,size⟩ := two_held
  have faults := pop_last_faults (turned_refines run here) (show 0 < 1 by omega) (show 1 + 1 = list.count by omega)
  refine ⟨moves,s,list,run,same,here,size,faults,?_⟩
  rintro ⟨after,rest,popped,_⟩
  rw [show ((1 : Nat) : Int) = 1 from rfl] at faults
  cases popped.symm.trans faults

end Runs

end Session

end Libcplus
