import Libcplus.Llist.Refines
import Libcplus.Transition

namespace Libcplus
open DoublyLinked Transition Typedef

variable {D : Type}

namespace LinkedList
variable {list after : LinkedList D} {s : Sequence D} {cells : List (Addr × D)}

-- The calls in question: an allocation gives an address that holds no node, the
-- list stays below 2^31 - 1 nodes, and the last node goes by the index behind it.
def Allowed (list : LinkedList D) : Op D → Prop
  | .push_at _ _ alloc | .push_front _ alloc | .push_back _ alloc =>
    list.count + 1 < 2^31 - 1 ∧ ∀ node ∈ alloc, list.nodes node = none
  | .pop_of index => ¬ (0 < index ∧ index + 1 = list.count)
  | .get_set_if _ allocs => allocs.Pairwise fun a b => a = none ∨ a ≠ b
  | _ => True

instance (list : LinkedList D) (op : Op D) : Decidable (list.Allowed op) := by
  cases op <;> unfold Allowed <;> infer_instance

-- No node comes or goes between two others by its index.
def AtEnds (list : LinkedList D) : Op D → Prop
  | .push_at index _ _ | .pop_of index => ¬ list.Interior index
  | _ => True

instance (list : LinkedList D) (index : Int) : Decidable (list.Interior index) :=
  inferInstanceAs (Decidable (_ ∧ _))

instance (list : LinkedList D) (op : Op D) : Decidable (list.AtEnds op) := by
  cases op <;> unfold AtEnds <;> infer_instance

-- A sort is skipped when count and sort_count agree, which they do by chance too:
-- no push and no pop resets sort_count.
def Sorts (list : LinkedList D) : Op D → Prop
  | .sort (some comparator) => ¬ list.is_sort ∨ Arranged comparator list.contents
  | _ => True

instance [DecidableEq D] (list : LinkedList D) (op : Op D) : Decidable (list.Sorts op) := by
  cases op <;> unfold Sorts <;> try infer_instance
  case sort comparator => cases comparator <;> simp only [Arranged] <;> infer_instance

theorem unordered_sorts {op : Op D} (unordered : op.order = none) : list.Sorts op := by
  cases op with
  | sort comparator =>
    obtain rfl : comparator = none := unordered
    trivial
  | _ => trivial

-- The edit between two nodes leaves the cursor on the position it stands for.
def Reaches (list : LinkedList D) : Op D → Prop
  | .push_at index data alloc =>
    list.Interior index → data ≠ none → alloc ≠ none → list.Ahead index
  | .pop_of index => list.Interior index → list.Ahead index
  | _ => True

instance (list : LinkedList D) (op : Op D) : Decidable (list.Reaches op) := by
  cases op <;> unfold Reaches <;> infer_instance

theorem answers_distinct {allocs : List (Option Addr)}
    (apart : allocs.Pairwise fun a b => a = none ∨ a ≠ b) : Distinct (answers allocs) := by
  have ordered : ∀ i j a, i < j → answers allocs i = some a → answers allocs j ≠ some a := by
    intro i j a before here there
    obtain ⟨inside,at_i⟩ := List.getElem?_eq_some_iff.mp (Option.join_eq_some_iff.mp here)
    obtain ⟨within,at_j⟩ := List.getElem?_eq_some_iff.mp (Option.join_eq_some_iff.mp there)
    rcases List.pairwise_iff_getElem.mp apart i j inside within before with none | differ
    · rw [at_i] at none
      cases none
    · exact differ (at_i.trans at_j.symm)
  intro i j a here there
  rcases Nat.lt_trichotomy i j with before | same | behind
  · exact absurd there (ordered i j a before here)
  · exact same
  · exact absurd here (ordered j i a behind there)

theorem refines_contents (refines : Refines list s) : list.contents = s.items := by
  obtain ⟨cells,represents,_,same⟩ := refines
  exact (contents_spec represents).trans same

theorem call_keeps [DecidableEq D] (refines : Refines list s) {op : Op D} (allowed : list.Allowed op)
    (sorts : list.Sorts op) (reaches : list.Reaches op) : Keeps (list.call op) (s.call op) := by
  have count := refines_count refines
  cases op with
  | push_at index data alloc => exact push_keeps refines index data alloc allowed.2 reaches
  | push_front data alloc =>
    refine push_keeps refines 0 data alloc allowed.2 fun inner => ?_
    exact absurd inner.1 (Int.lt_irrefl 0)
  | push_back data alloc =>
    show Keeps ((list.cplus_llist_push_at list.count data alloc).map _) _
    rw [count]
    refine push_keeps refines _ data alloc allowed.2 fun inner => ?_
    exact absurd inner.2 (by omega)
  | pop_of index => exact pop_keeps refines index allowed reaches
  | pop_front =>
    refine pop_keeps refines 0 (by omega) fun inner => ?_
    exact absurd inner.1 (Int.lt_irrefl 0)
  | pop_back =>
    show Keeps ((list.cplus_llist_pop_of list.count).map _) _
    rw [count]
    refine pop_keeps refines _ (by omega) fun inner => ?_
    exact absurd inner.2 (by omega)
  | pop_if comparator =>
    cases comparator with
    | none => exact keeps rfl refines
    | some comparator => exact pop_if_keeps refines comparator
  | delete_data data =>
    cases data with
    | none => exact keeps rfl refines
    | some data => exact delete_data_keeps refines data
  | clear => exact clear_keeps refines
  | sort comparator =>
    cases comparator with
    | none => exact ⟨list,.res CPLUS_FAIL,rfl,refines,nofun⟩
    | some comparator =>
      refine sort_keeps refines comparator ?_
      rw [← refines_contents refines]
      exact sorts
  | get_of index => exact get_of_keeps refines index
  | get_if comparator =>
    cases comparator with
    | none => exact keeps rfl refines
    | some comparator => exact get_if_keeps refines comparator
  | get_index_if comparator =>
    cases comparator with
    | none => exact keeps rfl refines
    | some comparator => exact get_index_if_keeps refines comparator
  | get_set_if comparator allocs =>
    cases comparator with
    | none =>
      exact ⟨list,.list none,rfl,refines,fun expected same => Option.some.inj same⟩
    | some comparator => exact get_set_if_keeps refines comparator (answers allocs) (answers_distinct allowed)
  | get_next => exact get_next_keeps refines
  | get_prev => exact get_prev_keeps refines
  | get_cycling_next => exact get_cycling_next_keeps refines

-- What can be read off a list: its chain both ways, its cursor, and each item by
-- its index.
structure Coherent (list : LinkedList D) (s : Sequence D) (chain : List (Addr × D)) : Prop where
  forward : trace list.nodes Node.next (list.count + 1) list.head = chain
  backward : trace list.nodes Node.prev (list.count + 1) list.tail = chain.reverse
  nodup : (addresses chain).Nodup
  count : chain.length = list.count
  data : items chain = s.items
  cur_index : list.cur_index = s.cursor
  current : list.get_current = some (address chain s.cursor)
  reads : ∀ i < list.count, ∃ after, list.cplus_llist_get_of i = some (after,s.items[i]?)

-- The part of it that says nothing about the cursor.
structure Readable (list : LinkedList D) (s : Sequence D) : Prop where
  contents : list.contents = s.items
  count : list.count = s.items.length
  reads : ∀ i < list.count, ∃ after, list.cplus_llist_get_of i = some (after,s.items[i]?)

theorem refines_coherent (refines : Refines list s) : ∃ chain, Coherent list s chain := by
  obtain ⟨cells,represents,points,same⟩ := id refines
  have count := refines_count refines
  have enough : cells.length ≤ list.count + 1 := by rw [represents.count]; omega
  refine ⟨cells,?_,?_,represents.nodup,represents.count.symm,same,points.index,
    reads_link represents points.link,fun i within => ?_⟩
  · rw [represents.head]
    exact trace_next represents.linked enough
  · rw [represents.tail]
    exact trace_prev represents.linked enough
  · obtain ⟨after,found,_⟩ := get_of_spec refines (count ▸ within)
    exact ⟨after,found⟩

theorem Coherent.readable {chain : List (Addr × D)} (coherent : Coherent list s chain) :
    Readable list s := by
  refine ⟨?_,?_,coherent.reads⟩
  · rw [LinkedList.contents,coherent.forward]
    exact coherent.data
  · rw [← coherent.count,← coherent.data,items_length]

theorem Readable.finds (readable : Readable list s) {i : Nat} (within : i < list.count) :
    list.get_node_of i ≠ some (after,none) := by
  intro nothing
  obtain ⟨other,found⟩ := readable.reads i within
  unfold cplus_llist_get_of at found
  rw [if_neg (by omega),nothing,List.getElem?_eq_getElem (readable.count ▸ within)] at found
  cases found

-- A cursor one node too far forward: the last index leads over the end.
theorem forward_unreadable {i : Nat} (represents : Represents list cells) (index : list.cur_index = i)
    (leads : LeadsTo cells list.current (i + 1)) (within : i + 1 < cells.length) :
    ¬ Readable list s := by
  intro readable
  have count := represents.count
  have rounds : (((cells.length - 1 : Nat) : Int) - list.cur_index).toNat = cells.length - 1 - i := by
    omega
  obtain ⟨link,walk,ends,_⟩ :=
    walk_next_spec (cells.length - 1 - i) represents leads (by omega)
  generalize at_end : list.cur_index + ((cells.length - 1 - i : Nat) : Int) = last at walk
  have beyond : address cells (i + 1 + (cells.length - 1 - i)) = none := address_none (by omega)
  have moved : Represents (list.moved link last) cells := moved_represents represents
  have reads : (list.moved link last).get_current = some none := by
    rw [← beyond]
    exact reads_link moved ends
  apply readable.finds (show cells.length - 1 < list.count by omega)
  · unfold get_node_of
    rw [if_neg (by omega),if_pos (by omega),rounds,walk]
    simp only [Option.bind_eq_bind,Option.bind_some,reads]
    rfl

theorem walk_prev_off (represents : Represents list cells) {p : Nat}
    (leads : LeadsTo cells list.current p) (within : p < cells.length) : ∃ after,
    walk_prev (p + 1) list = some after ∧ after.get_current = some none := by
  induction p generalizing list with
  | zero =>
    obtain ⟨node,step,here⟩ := step_prev_spec represents leads within
    obtain ⟨data,there⟩ := address_parts here
    refine ⟨list.moved (.prev node) (list.cur_index - 1),?_,?_⟩
    · rw [walk_prev,step]
      rfl
    · show (list.nodes node).map Node.prev = _
      rw [node_at represents.linked there]
      rfl
  | succ p ih =>
    obtain ⟨node,step,here⟩ := step_prev_spec represents leads within
    have moved : Represents (list.moved (.prev node) (list.cur_index - 1)) cells :=
      moved_represents represents
    obtain ⟨after,walk,reads⟩ := ih moved here (by omega)
    refine ⟨after,?_,reads⟩
    rw [walk_prev,step]
    exact walk

-- A cursor one node too far back: index 0 leads in front of the head.
theorem backward_unreadable {p : Nat} (represents : Represents list cells)
    (index : list.cur_index = (p + 1 : Nat)) (leads : LeadsTo cells list.current p)
    (within : p < cells.length) : ¬ Readable list s := by
  intro readable
  have count := represents.count
  have rounds : (list.cur_index - ((0 : Nat) : Int)).toNat = p + 1 := by omega
  obtain ⟨after,walk,reads⟩ := walk_prev_off represents leads within
  apply readable.finds (show 0 < list.count by omega)
  · unfold get_node_of
    rw [if_neg (by omega),if_neg (by omega),rounds,walk]
    simp only [Option.bind_eq_bind,Option.bind_some,reads]
    rfl

-- The calls that go wrong leave a list that cannot be read as it should.
theorem push_unreadable (refines : Refines list s) {index : Int} {data : D} {node : Addr} {res : Int}
    (inner : list.Interior index) (fresh : list.nodes node = none) (behind : ¬ list.Ahead index)
    (called : list.cplus_llist_push_at index (some data) (some node) = some (after,res))
    {other : Sequence D} : ¬ Readable after other := by
  have count := refines_count refines
  obtain ⟨above,below⟩ := inner
  obtain ⟨i,rfl⟩ := Int.eq_ofNat_of_zero_le (show 0 ≤ index by omega)
  have within : 0 < i ∧ i < s.items.length := by omega
  obtain ⟨result,cells,pushed,kept,arranged,shifted⟩ := push_between refines data within fresh
  rw [pushed] at called
  cases called
  refine forward_unreadable kept shifted.index (shifted.behind behind) ?_
  rw [← items_length,arranged,List.length_insertIdx_of_le_length (by omega)]
  omega

theorem pop_unreadable (refines : Refines list s) {index : Int} {target : Option D}
    (inner : list.Interior index) (not_last : ¬ (0 < index ∧ index + 1 = list.count))
    (behind : ¬ list.Ahead index) (called : list.cplus_llist_pop_of index = some (after,target))
    {other : Sequence D} : ¬ Readable after other := by
  have count := refines_count refines
  obtain ⟨above,below⟩ := inner
  obtain ⟨i,rfl⟩ := Int.eq_ofNat_of_zero_le (show 0 ≤ index by omega)
  have within : 0 < i ∧ i + 1 < s.items.length := by omega
  obtain ⟨result,cells,popped,kept,left_over,shifted⟩ := pop_between refines within
  rw [popped] at called
  cases called
  refine backward_unreadable kept (shifted.index.trans ?_) (shifted.behind behind) ?_
  · rw [Nat.sub_add_cancel within.1]
  · rw [← items_length,left_over,List.length_eraseIdx_of_lt (by omega)]
    omega

theorem sort_unreadable (refines : Refines list s) {comparator : D → D → Int} {res : Int}
    (skipped : list.is_sort) (unarranged : ¬ Arranged comparator list.contents)
    (called : list.cplus_llist_sort (some comparator) = some (after,res)) :
    ¬ Readable after (s.sorted comparator) := by
  intro readable
  simp only [cplus_llist_sort,if_pos skipped,Option.map_some,Option.some.injEq,Prod.mk.injEq] at called
  obtain ⟨rfl,_⟩ := called
  apply unarranged
  rw [refines_contents refines]
  exact readable.contents.symm.trans (refines_contents refines)

-- A pop that finds nothing touches nothing.
theorem pop_null (refines : Refines list s) {index : Int}
    (not_last : ¬ (0 < index ∧ index + 1 = list.count))
    (called : list.cplus_llist_pop_of index = some (after,none)) : after = list := by
  have count := refines_count refines
  by_cases inside : 0 ≤ index ∧ index ≤ s.items.length
  · obtain ⟨i,rfl⟩ := Int.eq_ofNat_of_zero_le inside.1
    by_cases empty : s.items = []
    · rw [pop_called refines (show i ≤ s.items.length by omega),(pop_empty refines empty i).1] at called
      cases called
      rfl
    · exfalso
      have size := List.length_pos_iff.mpr empty
      by_cases inner : 0 < i ∧ i + 1 < s.items.length
      · obtain ⟨result,cells,popped,_⟩ := pop_between refines inner
        rw [popped,List.getElem?_eq_getElem (by omega)] at called
        cases called
      · rcases Nat.eq_zero_or_pos i with rfl | some_left
        · obtain ⟨result,popped,_⟩ := pop_first refines empty
          rw [show ((0 : Nat) : Int) = 0 from rfl,popped,List.getElem?_eq_getElem size] at called
          cases called
        · obtain rfl : i = s.items.length := by omega
          obtain ⟨result,popped,_⟩ := pop_last refines empty
          rw [popped,List.getElem?_eq_getElem (by omega)] at called
          cases called
  · have stays : list.cplus_llist_pop_of index = some (list,none) := if_pos (by omega)
    rw [stays] at called
    cases called
    rfl

end LinkedList

-- The calls of pop_of.
def Op.Pops : Op D → Prop
  | .pop_of _ | .pop_front | .pop_back => True
  | _ => False

open LinkedList

-- Calls on a list and on a plain sequence side by side. `list` is none after a
-- fault, `expected` where the sequence says nothing about the answer.
structure Session (D : Type) where
  list : Option (LinkedList D)
  sequence : Sequence D
  answer : Option (Answer D)
  expected : Option (Answer D)

namespace Session

def start : Session D := ⟨some llist_initialize_object,.start [],none,none⟩

-- A property of the list in front of a call.
def Before (P : LinkedList D → Op D → Prop) (s : Session D) (op : Op D) : Prop :=
  ∃ list, s.list = some list ∧ P list op

instance (P : LinkedList D → Op D → Prop) [∀ list op, Decidable (P list op)] (s : Session D)
    (op : Op D) : Decidable (s.Before P op) :=
  inferInstanceAs (Decidable (∃ list ∈ s.list, P list op))

def Agrees (s : Session D) : Prop := ∀ expected, s.expected = some expected → s.answer = some expected

-- The list stands for its sequence, chain and cursor, and answered as it should.
def Represented (s : Session D) : Prop :=
  ∃ list chain, s.list = some list ∧ Coherent list s.sequence chain ∧ s.Agrees

-- Each index gives the item there, and the call was answered as it should be.
def Answered (s : Session D) : Prop :=
  ∃ list, s.list = some list ∧ Readable list s.sequence ∧ s.Agrees

def Invariant (s : Session D) : Prop :=
  ∃ list, s.list = some list ∧ Refines list s.sequence ∧ s.Agrees

variable {s t : Session D} {op : Op D}

theorem start_invariant : Invariant (start : Session D) := ⟨_,rfl,empty_refines,nofun⟩

theorem Invariant.represented (valid : Invariant s) : Represented s := by
  obtain ⟨list,here,refines,agrees⟩ := valid
  obtain ⟨chain,coherent⟩ := refines_coherent refines
  exact ⟨list,chain,here,coherent,agrees⟩

theorem Represented.answered (represented : Represented s) : Answered s := by
  obtain ⟨list,chain,here,coherent,agrees⟩ := represented
  exact ⟨list,here,coherent.readable,agrees⟩

variable [DecidableEq D]

def after (s : Session D) (op : Op D) : Session D :=
  let called := s.list.bind fun list => list.call op
  let meant := s.sequence.call op
  ⟨called.map Prod.fst,meant.1,called.map Prod.snd,meant.2⟩

def Step (domain : LinkedList D → Op D → Prop) (s : Session D) (op : Op D) (t : Session D) : Prop :=
  s.Before domain op ∧ t = s.after op

def advance (domain : LinkedList D → Op D → Prop) [∀ list op, Decidable (domain list op)]
    (s : Session D) (op : Op D) : Option (Session D) :=
  if s.Before domain op then some (s.after op) else none

theorem advance_step {domain : LinkedList D → Op D → Prop} [∀ list op, Decidable (domain list op)]
    (s : Session D) (op : Op D) (t : Session D) (taken : Follows (advance domain) s op t) :
    Step domain s op t := by
  unfold Follows advance at taken
  split at taken
  · rename_i inside
    exact ⟨inside,(Option.some.inj taken).symm⟩
  · cases taken

def Fits (list : LinkedList D) (op : Op D) : Prop := list.Sorts op ∧ list.Reaches op

instance (list : LinkedList D) (op : Op D) : Decidable (Fits list op) :=
  inferInstanceAs (Decidable (_ ∧ _))

theorem step_keeps (valid : Invariant s) (taken : Step Allowed s op t) (fits : s.Before Fits op) :
    Invariant t := by
  obtain ⟨list,here,refines,_⟩ := valid
  obtain ⟨⟨same,there,allowed⟩,rfl⟩ := taken
  obtain ⟨again,found,sorts,reaches⟩ := fits
  obtain rfl : list = same := Option.some.inj (here.symm.trans there)
  obtain rfl : list = again := Option.some.inj (here.symm.trans found)
  obtain ⟨after,answer,called,kept,agrees⟩ := call_keeps refines allowed sorts reaches
  refine ⟨after,?_,kept,fun expected meant => ?_⟩
  · show (s.list.bind _).map _ = _
    rw [here,Option.bind_some,called]
    rfl
  · show (s.list.bind _).map _ = _
    rw [here,Option.bind_some,called,← agrees expected meant]
    rfl

theorem step_breaks (valid : Invariant s) (taken : Step Allowed s op t) (unfit : ¬ s.Before Fits op) :
    ¬ Answered t := by
  obtain ⟨list,here,refines,_⟩ := valid
  obtain ⟨⟨same,there,allowed⟩,rfl⟩ := taken
  obtain rfl : list = same := Option.some.inj (here.symm.trans there)
  have missed : ¬ (list.Sorts op ∧ list.Reaches op) := fun fits => unfit ⟨list,here,fits⟩
  rintro ⟨after,result,readable,_⟩
  have called : (list.call op).map Prod.fst = some after := by
    have ran : (s.list.bind fun list => list.call op).map Prod.fst = some after := result
    rwa [here,Option.bind_some] at ran
  obtain ⟨⟨_,answer⟩,ran,rfl⟩ := Option.map_eq_some_iff.mp called
  cases op with
  | push_at index data alloc =>
    obtain ⟨inner,blocked⟩ := Classical.not_imp.mp fun reaches => missed ⟨trivial,reaches⟩
    obtain ⟨some_data,blocked⟩ := Classical.not_imp.mp blocked
    obtain ⟨some_alloc,behind⟩ := Classical.not_imp.mp blocked
    obtain ⟨data,rfl⟩ := Option.ne_none_iff_exists'.mp some_data
    obtain ⟨node,rfl⟩ := Option.ne_none_iff_exists'.mp some_alloc
    obtain ⟨⟨_,res⟩,pushed,ends⟩ := Option.map_eq_some_iff.mp ran
    cases ends
    exact push_unreadable refines inner (allowed.2 node rfl) behind pushed readable
  | pop_of index =>
    obtain ⟨inner,behind⟩ := Classical.not_imp.mp fun reaches => missed ⟨trivial,reaches⟩
    obtain ⟨⟨_,target⟩,popped,ends⟩ := Option.map_eq_some_iff.mp ran
    cases ends
    exact pop_unreadable refines inner allowed behind popped readable
  | sort comparator =>
    cases comparator with
    | none => exact missed ⟨trivial,trivial⟩
    | some comparator =>
      obtain ⟨skipped,unarranged⟩ := not_or.mp fun sorts => missed ⟨sorts,trivial⟩
      obtain ⟨⟨_,res⟩,sorted,ends⟩ := Option.map_eq_some_iff.mp ran
      cases ends
      exact sort_unreadable refines (Decidable.not_not.mp skipped) unarranged sorted readable
  | _ => exact missed ⟨trivial,trivial⟩

-- No push and no pop by index except at the two ends.
def EndsOnly (list : LinkedList D) (op : Op D) : Prop := list.Allowed op ∧ list.AtEnds op

omit [DecidableEq D] in
instance (list : LinkedList D) (op : Op D) : Decidable (EndsOnly list op) :=
  inferInstanceAs (Decidable (_ ∧ _))

omit [DecidableEq D] in
theorem ends_reach {list : LinkedList D} (ends : list.AtEnds op) : list.Reaches op := by
  cases op with
  | push_at index data alloc => exact fun inner => absurd inner ends
  | pop_of index => exact fun inner => absurd inner ends
  | _ => trivial

theorem Step.allowed (taken : Step EndsOnly s op t) : Step Allowed s op t := by
  obtain ⟨⟨list,here,allowed,_⟩,same⟩ := taken
  exact ⟨⟨list,here,allowed⟩,same⟩

theorem Step.fits (taken : Step EndsOnly s op t) (sorts : s.Before Sorts op) : s.Before Fits op := by
  obtain ⟨⟨list,here,_,ends⟩,_⟩ := taken
  obtain ⟨same,there,sorts⟩ := sorts
  obtain rfl : list = same := Option.some.inj (here.symm.trans there)
  exact ⟨list,here,sorts,ends_reach ends⟩

theorem represented_exact {moves : List (Move (Session D) (Op D))}
    (run : Run (Step EndsOnly) start moves s) :
    Throughout Represented moves ↔ Meets (Before Sorts) moves := by
  refine run.exact start_invariant ?_ Invariant.represented ?_
  · intro s op t valid taken sorts
    exact step_keeps valid taken.allowed (taken.fits sorts)
  · intro s op t valid taken unsorted represented
    refine step_breaks valid taken.allowed (fun fits => unsorted ?_) represented.answered
    obtain ⟨list,here,sorts,_⟩ := fits
    exact ⟨list,here,sorts⟩

section Runs
def ascending (a b : Nat) : Int := a - b

theorem run_of_calls (domain : LinkedList Nat → Op Nat → Prop) [∀ list op, Decidable (domain list op)]
    (calls : List (Op Nat)) (check : List (Move (Session Nat) (Op Nat)) × Session Nat → Bool)
    (passes : (execute (advance domain) start calls).any check = true) : ∃ moves s,
      Run (Step domain) (start : Session Nat) moves s ∧ moves.map Move.action = calls ∧
      check (moves,s) = true := by
  obtain ⟨moves,s,run,same,checked⟩ := Run.of_check (advance domain) start calls check passes
  exact ⟨moves,s,run.imp advance_step,same,checked⟩

def sorted_calls : List (Op Nat) :=
  [.push_back (some 3) (some 0),.push_back (some 1) (some 1),.push_front (some 2) (some 2),
   .sort (some ascending),.get_of 2,.get_prev,.pop_front]

theorem sorted_represented : ∃ moves s, Run (Step EndsOnly) (start : Session Nat) moves s ∧
    moves.map Move.action = sorted_calls ∧ Throughout Represented moves := by
  obtain ⟨moves,s,run,same,checked⟩ := run_of_calls EndsOnly sorted_calls
    (fun result => decide (Meets (Before Sorts) result.1)) (by decide +kernel)
  exact ⟨moves,s,run,same,(represented_exact run).mpr (of_decide_eq_true checked)⟩

-- Sorted once at two items, a list with two other items counts as sorted.
def resorted_calls : List (Op Nat) :=
  [.push_back (some 3) (some 0),.push_back (some 1) (some 1),.sort (some ascending),.pop_front,
   .push_back (some 0) (some 0),.sort (some ascending)]

theorem stale_sort_skipped : ∃ moves s, Run (Step EndsOnly) (start : Session Nat) moves s ∧
    moves.map Move.action = resorted_calls ∧ s.list.map contents = some [3,0] ∧
    s.sequence.items = [0,3] ∧ ¬ Represented s := by
  obtain ⟨moves,s,run,same,checked⟩ := run_of_calls EndsOnly resorted_calls
    (fun result => decide (result.2.list.map contents = some [3,0] ∧ result.2.sequence.items = [0,3]))
    (by decide +kernel)
  obtain ⟨held,meant⟩ := of_decide_eq_true checked
  refine ⟨moves,s,run,same,held,meant,fun represented => ?_⟩
  obtain ⟨list,chain,here,coherent,_⟩ := represented
  rw [here,Option.map_some,coherent.readable.contents,meant] at held
  exact absurd held (by decide)

end Runs

def NullPops (moves : List (Move (Session D) (Op D))) : Prop :=
  ∀ m ∈ moves, m.action.Pops → m.after.answer = some (.data none) → m.after.list = m.before.list

theorem null_pop_keeps (valid : Invariant s) (taken : Step Allowed s op t) (pops : op.Pops)
    (nothing : t.answer = some (.data none)) : t.list = s.list := by
  obtain ⟨list,here,refines,_⟩ := valid
  obtain ⟨⟨same,there,allowed⟩,rfl⟩ := taken
  obtain rfl : list = same := Option.some.inj (here.symm.trans there)
  have count := refines_count refines
  have answered : (s.list.bind fun list => list.call op).map Prod.snd = some (.data none) := nothing
  rw [here,Option.bind_some] at answered
  obtain ⟨⟨after,_⟩,called,rfl⟩ := Option.map_eq_some_iff.mp answered
  have popped : ∀ index : Int, ¬ (0 < index ∧ index + 1 = list.count) →
      (list.cplus_llist_pop_of index).map (.map id Answer.data) = some (after,.data none) →
      after = list := by
    intro index not_last ran
    obtain ⟨⟨_,target⟩,found,same⟩ := Option.map_eq_some_iff.mp ran
    cases same
    exact pop_null refines not_last found
  have unchanged : after = list := by
    cases op with
    | pop_of index => exact popped index allowed called
    | pop_front => exact popped 0 (by omega) called
    | pop_back => exact popped list.count (by omega) called
    | _ => cases pops
  show (s.list.bind _).map _ = _
  rw [here,Option.bind_some,called,unchanged]
  rfl

theorem edits_exact {moves : List (Move (Session D) (Op D))} (run : Run (Step Allowed) start moves s) :
    (Throughout Answered moves ∧ NullPops moves) ↔ Meets (Before Fits) moves := by
  have exact : Throughout Answered moves ↔ Meets (Before Fits) moves := by
    refine run.exact start_invariant step_keeps (fun valid => valid.represented.answered) step_breaks
  refine ⟨fun sound => exact.mp sound.1,fun met => ⟨exact.mpr met,fun m member pops nothing => ?_⟩⟩
  obtain ⟨valid,taken⟩ := run.each (Before Fits) start_invariant step_keeps met m member
  exact null_pop_keeps valid taken pops nothing

section Runs

-- The cursor comes to index 2 and to index 1 by next links, so the edits there
-- leave it right.
def edited_calls : List (Op Nat) :=
  [.push_back (some 10) (some 0),.push_back (some 20) (some 1),.push_back (some 30) (some 2),
   .push_at 2 (some 25) (some 3),.get_of 0,.push_at 1 (some 15) (some 4),.pop_of 2,.pop_of 9,.get_of 1]

theorem edited_answered : ∃ moves s, Run (Step Allowed) (start : Session Nat) moves s ∧
    moves.map Move.action = edited_calls ∧ Throughout Answered moves ∧ NullPops moves := by
  obtain ⟨moves,s,run,same,checked⟩ := run_of_calls Allowed edited_calls
    (fun result => decide (Meets (Before Fits) result.1)) (by decide +kernel)
  exact ⟨moves,s,run,same,(edits_exact run).mpr (of_decide_eq_true checked)⟩

-- Index 1 is reached from index 3, by the prev link of the node behind it: after
-- the push that link still leads to the old node.
def backward_calls : List (Op Nat) :=
  [.push_back (some 10) (some 0),.push_back (some 20) (some 1),.push_back (some 30) (some 2),
   .push_back (some 40) (some 3),.get_of 3,.get_of 1,.push_at 1 (some 15) (some 4),.get_of 1]

theorem backward_push_misread : ∃ moves s, Run (Step Allowed) (start : Session Nat) moves s ∧
    moves.map Move.action = backward_calls ∧ s.answer = some (.data (some 20)) ∧
    s.expected = some (.data (some 15)) ∧ ¬ Answered s := by
  obtain ⟨moves,s,run,same,checked⟩ := run_of_calls Allowed backward_calls
    (fun result => decide (result.2.answer = some (.data (some 20)) ∧
      result.2.expected = some (.data (some 15)))) (by decide +kernel)
  obtain ⟨answer,expected⟩ := of_decide_eq_true checked
  refine ⟨moves,s,run,same,answer,expected,fun answered => ?_⟩
  obtain ⟨list,_,_,agrees⟩ := answered
  have agreed := agrees _ expected
  rw [answer] at agreed
  exact absurd agreed (by decide)

end Runs

end Session

end Libcplus
