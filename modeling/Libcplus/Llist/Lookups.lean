import Libcplus.Llist.Session

namespace Libcplus
open DoublyLinked Transition Typedef

variable {D : Type}

namespace LinkedList
variable {list after : LinkedList D} {cells : List (Addr × D)} {s : Sequence D}

-- Nothing but the cursor has moved.
def Still (list after : LinkedList D) : Prop := ∃ link i, after = list.moved link i

-- The searches start over at the head, so it does not matter where the cursor was.
theorem reset_refines (represents : Represents list cells) :
    Refines list.reset_cur_node (.start list.contents) :=
  ⟨cells,reset_represents represents,start_points,(contents_spec represents).symm⟩

theorem get_if_still (represents : Represents list cells) (comparator : D → Int) : ∃ after,
    list.cplus_llist_get_if (some comparator) =
      some (after,list.contents.find? (accepts comparator)) ∧ Still list after := by
  obtain ⟨link,sought,_⟩ := search_spec (accepts comparator) represents
  refine ⟨list.moved link (Sequence.stop (accepts comparator) (items cells) : Nat),?_,link,_,rfl⟩
  show (list.get_node_if comparator).bind answer = _
  rw [get_node_if,sought,contents_spec represents]
  exact answer_holder (moved_represents represents) _

theorem get_index_if_still (represents : Represents list cells) (comparator : D → Int) : ∃ after,
    list.cplus_llist_get_index_if (some comparator) = some (after,
      ((list.contents.findIdx? (accepts comparator)).map Int.ofNat).getD CPLUS_FAIL) ∧ Still list after := by
  obtain ⟨link,sought,_⟩ := search_spec (accepts comparator) represents
  have moves : ∃ index, list.get_index_if comparator =
      some (list.moved link (Sequence.stop (accepts comparator) (items cells) : Nat),index) := by
    rw [get_index_if,sought]
    cases holder (accepts comparator) cells with
    | none => exact ⟨_,rfl⟩
    | some node => exact ⟨_,rfl⟩
  obtain ⟨index,moved⟩ := moves
  obtain ⟨after,answered,called,_,agrees⟩ := get_index_if_keeps (reset_refines represents) comparator
  have result : some (list.moved link (Sequence.stop (accepts comparator) (items cells) : Nat),
      Answer.res (D := D) index) = some (after,answered) := by
    rw [← called]
    exact (congrArg (Option.map (Prod.map id Answer.res)) moved).symm
  cases result
  have expected := agrees _ rfl
  cases expected
  exact ⟨_,moved,link,_,rfl⟩

-- With an address for each request, nothing accepted is left out.
theorem pick_all {granted : Nat → Bool} (all : ∀ k, granted k = true) (k : Nat) (chosen : List D) :
    Sequence.pick granted k chosen = chosen := by
  unfold Sequence.pick
  rw [List.filter_eq_self.mpr fun numbered _ => all numbered.2]
  exact List.zipIdx_map_fst k chosen

-- A list made of these items, or none for no items.
def Listed (target : Option (LinkedList D)) (chosen : List D) : Prop :=
  match target with
  | none => chosen = []
  | some target => chosen ≠ [] ∧ ∃ copies, Represents target copies ∧ items copies = chosen

theorem get_set_if_still (represents : Represents list cells) (comparator : D → Int)
    {allocs : Nat → Option Addr} (distinct : Distinct allocs) (enough : ∀ k, allocs k ≠ none) :
    ∃ after target, list.cplus_llist_get_set_if (some comparator) allocs = some (after,target) ∧
      Still list after ∧ Listed target (list.contents.filter (accepts comparator)) := by
  have chain : Represents list.reset_cur_node ([] ++ cells) := reset_represents represents
  obtain ⟨link,k,target,ran,_,gathers⟩ := collect_spec comparator distinct chain rfl rfl
    (show cells.length < list.count + 1 by rw [represents.count]; omega)
    (show Gathers allocs 0 none none from trivial)
  have all : ∀ k, granted allocs k = true := fun k => Option.isSome_iff_ne_none.mpr (enough k)
  refine ⟨_,target,ran,⟨link,_,rfl⟩,?_⟩
  rw [contents_spec represents]
  unfold Sequence.gather at gathers
  rw [pick_all all] at gathers
  generalize (items cells).filter (accepts comparator) = chosen at gathers
  cases chosen with
  | nil =>
    cases target with
    | none => rfl
    | some target => cases gathers
  | cons item rest =>
    cases target with
    | none => cases gathers
    | some target =>
      obtain ⟨copies,copied,same⟩ := gathers
      exact ⟨List.cons_ne_nil _ _,copies,copied.represents,same⟩

theorem pop_if_removes (represents : Represents list cells) (comparator : D → Int) : ∃ after rest,
    list.cplus_llist_pop_if (some comparator) =
      some (after,list.contents.find? (accepts comparator)) ∧
    Represents after rest ∧ items rest = list.contents.eraseP (accepts comparator) := by
  obtain ⟨after,answered,called,⟨rest,kept,_,same⟩,agrees⟩ :=
    pop_if_keeps (reset_refines represents) comparator
  obtain ⟨⟨_,target⟩,ran,result⟩ := Option.map_eq_some_iff.mp called
  cases result
  have expected := agrees _ rfl
  cases expected
  refine ⟨_,rest,?_,kept,?_⟩
  · exact ran
  · rw [same]
    exact Sequence.discard_items _ _

-- The four searches stop at the same item, whatever the cursor was.
theorem searches_agree (represents : Represents list cells) (comparator : D → Int)
    {allocs : Nat → Option Addr} (distinct : Distinct allocs) (enough : ∀ k, allocs k ≠ none) :
    ∃ found index,
      found = list.contents.find? (accepts comparator) ∧
      index = ((list.contents.findIdx? (accepts comparator)).map Int.ofNat).getD CPLUS_FAIL ∧
      (∃ after, list.cplus_llist_get_if (some comparator) = some (after,found) ∧ Still list after) ∧
      (∃ after, list.cplus_llist_get_index_if (some comparator) = some (after,index) ∧ Still list after) ∧
      (∃ after target, list.cplus_llist_get_set_if (some comparator) allocs = some (after,target) ∧
        Still list after ∧ Listed target (list.contents.filter (accepts comparator))) ∧
      ∃ after rest, list.cplus_llist_pop_if (some comparator) = some (after,found) ∧
        Represents after rest ∧
        items rest = if index = CPLUS_FAIL then list.contents else list.contents.eraseIdx index.toNat := by
  obtain ⟨after,rest,popped,kept,left_over⟩ := pop_if_removes represents comparator
  refine ⟨_,_,rfl,rfl,get_if_still represents comparator,get_index_if_still represents comparator,
    get_set_if_still represents comparator distinct enough,after,rest,popped,kept,?_⟩
  rw [left_over,List.eraseP_eq_eraseIdx]
  cases list.contents.findIdx? (accepts comparator) with
  | none => rfl
  | some i => exact (if_neg (show ¬ (i : Int) = -1 by omega)).symm

section Runs

def three_list : LinkedList Nat where
  count := 3
  sort_count := 0
  cur_index := 2
  head := some 0
  tail := some 2
  current := .next 1
  nodes a := [⟨5,none,some 1⟩,⟨7,some 0,some 2⟩,⟨5,some 1,none⟩][a]?

def seven (data : Nat) : Int := data - 7

theorem three_represents : Represents three_list [(0,5),(1,7),(2,5)] :=
  ⟨⟨rfl,rfl,rfl,trivial⟩,by decide,rfl,rfl,rfl⟩

theorem seven_found :
    (∃ after, three_list.cplus_llist_get_if (some seven) = some (after,some 7) ∧ Still three_list after) ∧
    (∃ after, three_list.cplus_llist_get_index_if (some seven) = some (after,1) ∧ Still three_list after) ∧
    (∃ after target, three_list.cplus_llist_get_set_if (some seven) some = some (after,target) ∧
      Still three_list after ∧ Listed target [7]) ∧
    ∃ after rest, three_list.cplus_llist_pop_if (some seven) = some (after,some 7) ∧
      Represents after rest ∧ items rest = [5,5] := by
  have distinct : Distinct some := fun i j a first second => Option.some.inj (first.trans second.symm)
  obtain ⟨found,index,rfl,rfl,element,place,set,popped⟩ :=
    searches_agree three_represents seven distinct fun k => Option.some_ne_none k
  exact ⟨element,place,set,popped⟩

end Runs

-- As many calls of get_cycling_next in a row, with what they return.
def cycle : Nat → LinkedList D → Option (LinkedList D × List (Option D))
  | 0,list => some (list,[])
  | m+1,list => do
    let (list,target) ← list.cplus_llist_get_cycling_next
    let (list,targets) ← cycle m list
    return (list,target :: targets)

theorem cycle_spec (refines : Refines list s) (m : Nat) : ∃ after,
    cycle m list = some (after,s.turns m) := by
  induction m generalizing list s with
  | zero => exact ⟨list,rfl⟩
  | succ m ih =>
    obtain ⟨next,answered,called,kept,agrees⟩ := get_cycling_next_keeps refines
    obtain ⟨⟨_,target⟩,ran,same⟩ := Option.map_eq_some_iff.mp called
    cases same
    have expected := agrees _ rfl
    cases expected
    obtain ⟨after,later⟩ := ih kept
    refine ⟨after,?_⟩
    unfold cycle
    rw [ran]
    simp only [Option.bind_eq_bind,Option.bind_some,id_eq] at later ⊢
    rw [later]
    rfl

end LinkedList

namespace Session
open LinkedList

-- Edits at the two ends, and the calls that sort nothing.
def Turned (list : LinkedList D) (op : Op D) : Prop := EndsOnly list op ∧ op.order = none

instance (list : LinkedList D) (op : Op D) : Decidable (Turned list op) :=
  inferInstanceAs (Decidable (_ ∧ _))

variable [DecidableEq D] {s t : Session D} {op : Op D}

theorem Step.ends (taken : Step Turned s op t) : Step EndsOnly s op t := by
  obtain ⟨⟨list,here,ends,_⟩,same⟩ := taken
  exact ⟨⟨list,here,ends⟩,same⟩

theorem turned_step (valid : Invariant s) (taken : Step Turned s op t) : Invariant t := by
  obtain ⟨list,here,_,unordered⟩ := taken.1
  exact step_keeps valid taken.ends.allowed (taken.ends.fits ⟨list,here,unordered_sorts unordered⟩)

theorem turned_refines {moves : List (Move (Session D) (Op D))} (run : Run (Step Turned) start moves s)
    {list : LinkedList D} (here : s.list = some list) : Refines list s.sequence := by
  obtain ⟨same,there,refines,_⟩ := (run.invariant start_invariant turned_step).1
  obtain rfl : list = same := Option.some.inj (here.symm.trans there)
  exact refines

-- From position c on, the calls go round and round, and past each item once in
-- every window of as many calls as there are items.
theorem round_robin {moves : List (Move (Session D) (Op D))} (run : Run (Step Turned) start moves s)
    {list : LinkedList D} (here : s.list = some list) (some_items : 0 < list.count) (m : Nat) :
    ∃ c after, list.cur_index = (c : Nat) ∧ c < list.count ∧
      cycle m list = some (after,(Sequence.rounds list.count c m).map (list.contents[·]?)) ∧
      ∀ j, j + list.count ≤ m →
        (((Sequence.rounds list.count c m).drop j).take list.count).Perm (List.range list.count) := by
  have refines := turned_refines run here
  have count := refines_count refines
  have more : s.sequence.items ≠ [] := List.length_pos_iff.mp (count ▸ some_items)
  obtain ⟨after,turned⟩ := cycle_spec refines m
  obtain ⟨chain,coherent⟩ := refines_coherent refines
  refine ⟨s.sequence.cursor,after,coherent.cur_index,?_,?_,fun j inside => ?_⟩
  · rw [count]
    rcases s.sequence.within with inside | zero
    · exact inside
    · rw [zero,← count]
      exact some_items
  · rw [turned,Sequence.turns_spec s.sequence more m,count,refines_contents refines]
  · exact Sequence.rounds_window inside

section Runs

def turned_calls : List (Op Nat) :=
  [.push_back (some 10) (some 0),.push_back (some 20) (some 1),.push_front (some 5) (some 2),
   .push_back (some 30) (some 3),.pop_if (some fun data => data - 20),.get_of 1]

theorem turned_round : ∃ moves s list after, Run (Step Turned) (start : Session Nat) moves s ∧
    moves.map Move.action = turned_calls ∧ s.list = some list ∧
    cycle 5 list = some (after,[some 10,some 30,some 5,some 10,some 30]) := by
  obtain ⟨moves,s,run,same,checked⟩ := run_of_calls Turned turned_calls
    (fun result => decide (result.2.list.map contents = some [5,10,30] ∧
      result.2.list.map count = some 3 ∧ result.2.list.map cur_index = some 1)) (by decide +kernel)
  obtain ⟨held,size,index⟩ := of_decide_eq_true checked
  obtain ⟨list,here,held⟩ := Option.map_eq_some_iff.mp held
  rw [here] at size index
  have three : list.count = 3 := Option.some.inj size
  have one : list.cur_index = 1 := Option.some.inj index
  obtain ⟨c,after,place,_,turned,_⟩ := round_robin run here (by omega) 5
  obtain rfl : c = 1 := by omega
  refine ⟨moves,s,list,after,run,same,here,?_⟩
  rw [turned,three,held]
  rfl

end Runs

end Session

end Libcplus
