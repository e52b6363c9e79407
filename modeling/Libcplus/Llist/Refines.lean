import Libcplus.Llist.Calls

namespace Libcplus
open DoublyLinked Typedef

variable {D : Type}

namespace LinkedList

-- The list stands for the sequence, its cursor included.
def Refines (list : LinkedList D) (s : Sequence D) : Prop :=
  ∃ cells, Represents list cells ∧ Points list cells s.cursor ∧ items cells = s.items

theorem items_length {cells : List (Addr × D)} : (items cells).length = cells.length :=
  List.length_map _

theorem refines_count {list : LinkedList D} {s : Sequence D} (refines : Refines list s) :
    list.count = s.items.length := by
  obtain ⟨cells,represents,_,same⟩ := refines
  rw [represents.count,← same,items_length]

-- A call does not fault, and does what it means; where an answer is expected, it
-- gives that one.
def Keeps (called : Option (LinkedList D × Answer D)) (meant : Sequence D × Option (Answer D)) : Prop :=
  ∃ after answer, called = some (after,answer) ∧ Refines after meant.1 ∧
    ∀ expected, meant.2 = some expected → answer = expected

variable {list after : LinkedList D} {s : Sequence D} {cells left right : List (Addr × D)}
  {cell : Addr × D} {k : Nat}

theorem keeps {T : Type} {give : T → Answer D} {called : Option (LinkedList D × T)} {target : T}
    (result : called = some (after,target)) (refines : Refines after s) :
    Keeps (called.map (.map id give)) (s,some (give target)) := by
  refine ⟨after,give target,?_,refines,fun expected same => Option.some.inj same⟩
  rw [result]
  rfl

theorem empty_refines : Refines (llist_initialize_object : LinkedList D) (.start []) :=
  ⟨[],empty_represents,⟨rfl,rfl,.inr rfl⟩,rfl⟩

theorem items_append : items (left ++ right) = items left ++ items right := List.map_append

theorem items_get (i : Nat) : (items cells)[i]? = cells[i]?.map Prod.snd := List.getElem?_map

theorem address_none {i : Nat} (beyond : cells.length ≤ i) : address cells i = none := by
  rw [address,List.getElem?_eq_none beyond]
  rfl

theorem contents_spec (represents : Represents list cells) : list.contents = items cells := by
  unfold contents
  rw [represents.head,trace_next represents.linked (by rw [represents.count]; omega)]

-- A search that stops nowhere else than the cursor says.
theorem moved_refines (represents : Represents list cells) {link : Link} {p : Nat}
    (leads : LeadsTo cells link p) (same : items cells = s.items) (cursor : s.cursor = p) :
    Refines (list.moved link p) s := by
  refine ⟨cells,moved_represents represents,⟨congrArg Nat.cast cursor.symm,?_,?_⟩,same⟩
  · rwa [cursor]
  · rw [← items_length,same]
    exact s.within

theorem answer_at (represents : Represents list cells) (i : Nat) :
    answer (list,address cells i) = some (list,(items cells)[i]?) := by
  rw [items_get,address]
  cases there : cells[i]? with
  | none => rfl
  | some cell =>
    show (list.get_data cell.1).map _ = _
    rw [get_data,node_at represents.linked there]
    rfl

theorem holder_parts {found : D → Bool} {node : Addr} (there : holder found cells = some node) :
    ∃ left data right, cells = left ++ (node,data) :: right ∧ found data = true ∧
      ∀ d ∈ items left, found d = false := by
  obtain ⟨cell,chosen,rfl⟩ := Option.map_eq_some_iff.mp there
  obtain ⟨accepted,left,right,same,refused⟩ := List.find?_eq_some_iff_append.mp chosen
  refine ⟨left,cell.2,right,same,accepted,fun d member => ?_⟩
  obtain ⟨other,early,rfl⟩ := List.mem_map.mp member
  simpa using refused other early

theorem find_items (found : D → Bool) :
    (items cells).find? found = (cells.find? fun cell => found cell.2).map Prod.snd :=
  List.find?_map

theorem answer_holder (represents : Represents list cells) (found : D → Bool) :
    answer (list,holder found cells) = some (list,(items cells).find? found) := by
  rw [find_items,holder]
  cases chosen : cells.find? fun cell => found cell.2 with
  | none => rfl
  | some cell =>
    obtain ⟨_,left,right,same,_⟩ := List.find?_eq_some_iff_append.mp chosen
    have linked := represents.linked
    rw [same] at linked
    show (list.get_data cell.1).map _ = _
    rw [get_data,linked_cell linked]
    rfl

theorem answer_free_spec {rest : List (Addr × D)} (removed : Removed after cell rest) :
    answer_free (after,some cell.1) = some (after.free_node cell.1,some cell.2) := by
  show (after.get_data cell.1).map _ = _
  rw [get_data,removed.data]
  rfl

theorem free_refines {rest : List (Addr × D)} (removed : Removed after cell rest)
    (points : Points after rest s.cursor) (same : items rest = s.items) :
    Refines (after.free_node cell.1) s :=
  ⟨rest,free_node_represents removed.represents removed.outside,
    ⟨points.index,points.link,points.within⟩,same⟩

-- The lookups.
theorem get_of_spec (refines : Refines list s) {i : Nat} (within : i < s.items.length) : ∃ after,
    list.cplus_llist_get_of i = some (after,s.items[i]?) ∧ Refines after (s.visit i) := by
  obtain ⟨cells,represents,points,same⟩ := refines
  have length : s.items.length = cells.length := by rw [← same,items_length]
  have count := represents.count
  obtain ⟨link,found,leads,_⟩ := get_node_of_spec represents points (show i < cells.length by omega)
  refine ⟨list.moved link i,?_,moved_refines represents leads ?_ ?_⟩
  · unfold cplus_llist_get_of
    rw [if_neg (by omega),found,← same]
    exact answer_at (moved_represents represents) i
  · rw [Sequence.visit,dif_pos within]
    exact same
  · rw [Sequence.visit,dif_pos within]

theorem get_of_keeps (refines : Refines list s) (index : Int) :
    Keeps ((list.cplus_llist_get_of index).map (.map id .data)) ((s.get index).map id some) := by
  obtain ⟨cells,represents,_,same⟩ := id refines
  have length : (list.count : Int) = s.items.length := by
    rw [represents.count,← same,items_length]
  by_cases inside : 0 ≤ index ∧ index < s.items.length
  · obtain ⟨i,rfl⟩ := Int.eq_ofNat_of_zero_le inside.1
    obtain ⟨after,found,kept⟩ := get_of_spec refines (show i < s.items.length by omega)
    rw [Sequence.get,if_pos inside.1]
    exact keeps found kept
  · have stays : list.cplus_llist_get_of index = some (list,none) := if_pos (by omega)
    unfold Sequence.get
    by_cases negative : 0 ≤ index
    · have beyond : ¬ index.toNat < s.items.length := by omega
      rw [if_pos negative,Sequence.visit,dif_neg beyond,List.getElem?_eq_none (by omega)]
      exact keeps stays refines
    · rw [if_neg negative]
      exact keeps stays refines

theorem search_refines (found : D → Bool) (refines : Refines list s) : ∃ cells link,
    Represents list cells ∧ items cells = s.items ∧
    seek found (list.count + 1) list.reset_cur_node =
      some (list.moved link (s.search found).cursor,holder found cells) ∧
    Refines (list.moved link (s.search found).cursor) (s.search found) := by
  obtain ⟨cells,represents,_,same⟩ := refines
  obtain ⟨link,sought,leads⟩ := search_spec found represents
  have place : Sequence.stop found (items cells) = (s.search found).cursor := by
    rw [same]
    rfl
  rw [place] at sought leads
  exact ⟨cells,link,represents,same,sought,moved_refines represents leads same rfl⟩

theorem get_if_keeps (refines : Refines list s) (comparator : D → Int) :
    Keeps ((list.cplus_llist_get_if (some comparator)).map (.map id .data))
      (s.search (accepts comparator),some (.data (s.items.find? (accepts comparator)))) := by
  obtain ⟨cells,link,represents,same,sought,kept⟩ := search_refines (accepts comparator) refines
  refine keeps ?_ kept
  show (list.get_node_if comparator).bind answer = _
  rw [get_node_if,sought,← same]
  exact answer_holder (moved_represents represents) _

theorem holder_none {found : D → Bool} (none : holder found cells = none) :
    ∀ d ∈ items cells, found d = false := by
  intro d member
  obtain ⟨cell,there,rfl⟩ := List.mem_map.mp member
  have refused := List.find?_eq_none.mp (Option.map_eq_none_iff.mp none) cell there
  simpa using refused

theorem get_index_if_keeps (refines : Refines list s) (comparator : D → Int) :
    Keeps ((list.cplus_llist_get_index_if (some comparator)).map (.map id .res))
      (s.search (accepts comparator),
        some (.res (((s.items.findIdx? (accepts comparator)).map Int.ofNat).getD CPLUS_FAIL))) := by
  obtain ⟨cells,link,represents,same,sought,kept⟩ := search_refines (accepts comparator) refines
  refine keeps ?_ kept
  show list.get_index_if comparator = _
  rw [get_index_if,sought]
  cases there : holder (accepts comparator) cells with
  | none =>
    have nowhere : s.items.findIdx? (accepts comparator) = none :=
      List.findIdx?_eq_none_iff.mpr (same ▸ holder_none there)
    rw [nowhere]
    rfl
  | some node =>
    obtain ⟨left,data,right,parts,accepted,refused⟩ := holder_parts there
    have split : s.items = items left ++ data :: items right := by rw [← same,parts,items_append]; rfl
    have first : s.items.findIdx (accepts comparator) = (items left).length := by
      rw [split]
      exact Sequence.findIdx_between refused accepted
    have within : s.items.findIdx (accepts comparator) < s.items.length := by
      rw [first,split,List.length_append,List.length_cons]
      omega
    have place : (s.search (accepts comparator)).cursor = s.items.findIdx (accepts comparator) := by
      show min _ _ = _
      omega
    have position : s.items.findIdx? (accepts comparator) = some (s.search (accepts comparator)).cursor :=
      List.findIdx?_eq_some_iff_findIdx_eq.mpr ⟨by rwa [place],place.symm⟩
    rw [position]
    rfl

-- The cursor's own steps.
theorem get_next_spec (represents : Represents list cells) (points : Points list cells s.cursor)
    (same : items cells = s.items) : ∃ after, Represents after cells ∧
      list.get_next = some (after,address cells (s.cursor + 1)) ∧ Refines after s.forward := by
  have length : s.items.length = cells.length := by rw [← same,items_length]
  have reads : list.get_current = some (address cells s.cursor) := reads_link represents points.link
  by_cases further : s.cursor + 1 < s.items.length
  · obtain ⟨cell,there,here⟩ := address_some (show s.cursor < cells.length by omega)
    obtain ⟨next,_,behind⟩ := address_some (show s.cursor + 1 < cells.length by omega)
    obtain ⟨node,step,leads⟩ :=
      step_next_spec represents points.link (show s.cursor < cells.length by omega)
    rw [points.index] at step
    refine ⟨list.moved (.next node) (s.cursor + 1 : Nat),moved_represents represents,?_,?_⟩
    · unfold get_next
      rw [reads,here]
      simp only [Option.bind_eq_bind,Option.bind_some,node_at represents.linked there,behind,step]
      rfl
    · refine moved_refines represents leads ?_ ?_
      · rw [Sequence.forward,Sequence.visit,dif_pos further]
        exact same
      · rw [Sequence.forward,Sequence.visit,dif_pos further]
  · have ends : address cells (s.cursor + 1) = none := address_none (by omega)
    refine ⟨list,represents,?_,?_⟩
    · unfold get_next
      rw [reads,ends]
      cases there : cells[s.cursor]? with
      | none =>
        rw [address,there]
        rfl
      | some cell =>
        rw [address,there]
        simp only [Option.bind_eq_bind,Option.bind_some,Option.map_some,node_at represents.linked there,
          ends]
        rfl
    · rw [Sequence.forward,Sequence.visit,dif_neg further]
      exact ⟨cells,represents,points,same⟩

theorem get_next_keeps (refines : Refines list s) :
    Keeps (list.cplus_llist_get_next.map (.map id .data)) (s.forward,some (.data s.items[s.cursor + 1]?)) := by
  obtain ⟨cells,represents,points,same⟩ := refines
  obtain ⟨after,still,ran,kept⟩ := get_next_spec represents points same
  refine keeps ?_ kept
  rw [cplus_llist_get_next,ran,← same]
  exact answer_at still _

theorem get_cycling_next_keeps (refines : Refines list s) :
    Keeps (list.cplus_llist_get_cycling_next.map (.map id .data)) (s.turn,some (.data s.here)) := by
  obtain ⟨cells,represents,points,same⟩ := refines
  have length : s.items.length = cells.length := by rw [← same,items_length]
  obtain ⟨after,still,ran,kept⟩ := get_next_spec represents points same
  have reads : list.get_current = some (address cells s.cursor) := reads_link represents points.link
  have here : s.here = cells[s.cursor]?.map Prod.snd := by rw [Sequence.here,← same,items_get]
  unfold cplus_llist_get_cycling_next
  rw [reads,ran,here]
  cases there : cells[s.cursor]? with
  | none =>
    have beyond := List.getElem?_eq_none_iff.mp there
    have none_left : cells = [] := List.length_eq_zero_iff.mp (by have := points.within; omega)
    have turns : s.turn = s := by
      have zero : s.cursor = 0 := by have := points.within; omega
      rw [Sequence.turn,if_neg (by omega)]
      exact Sequence.ext rfl zero.symm
    rw [turns,address,there]
    exact keeps rfl ⟨cells,represents,points,same⟩
  | some cell =>
    have data : list.get_data cell.1 = some cell.2 := by
      rw [get_data,node_at represents.linked there]
      rfl
    rw [address,there]
    by_cases further : s.cursor + 1 < s.items.length
    · obtain ⟨next,_,behind⟩ := address_some (show s.cursor + 1 < cells.length by omega)
      rw [Sequence.turn,if_pos further]
      refine keeps ?_ kept
      simp only [Option.bind_eq_bind,Option.bind_some,Option.map_some,data,behind]
      rfl
    · have ends : address cells (s.cursor + 1) = none := address_none (by omega)
      have restarts : Refines after.reset_cur_node (.start s.items) :=
        ⟨cells,reset_represents still,start_points,same⟩
      rw [Sequence.turn,if_neg further]
      refine keeps ?_ restarts
      simp only [Option.bind_eq_bind,Option.bind_some,Option.map_some,data,ends]
      rfl

theorem get_prev_keeps (refines : Refines list s) :
    Keeps (list.cplus_llist_get_prev.map (.map id .data))
      (s.backward,some (.data (if s.cursor = 0 then none else s.items[s.cursor - 1]?))) := by
  obtain ⟨cells,represents,points,same⟩ := refines
  have length : s.items.length = cells.length := by rw [← same,items_length]
  have reads : list.get_current = some (address cells s.cursor) := reads_link represents points.link
  by_cases first : s.cursor = 0
  · have stays : s.backward = s := by
      unfold Sequence.backward Sequence.visit
      split
      · exact Sequence.ext rfl (by show s.cursor - 1 = s.cursor; omega)
      · rfl
    rw [if_pos first,stays]
    refine keeps ?_ ⟨cells,represents,points,same⟩
    unfold cplus_llist_get_prev get_prev
    rw [reads,first]
    cases there : cells[0]? with
    | none =>
      rw [address,there]
      rfl
    | some cell =>
      rw [address,there]
      simp only [Option.bind_eq_bind,Option.bind_some,Option.map_some,node_at represents.linked there,
        address_before]
      rfl
  · have inside : s.cursor < cells.length := points.within.resolve_right first
    obtain ⟨cell,there,here⟩ := address_some inside
    obtain ⟨prev,_,before⟩ := address_some (show s.cursor - 1 < cells.length by omega)
    obtain ⟨node,step,leads⟩ := step_prev_spec represents points.link inside
    have behind : address_before cells s.cursor = some prev.1 := by
      rw [← before,← Nat.sub_add_cancel (Nat.pos_of_ne_zero first)]
      rfl
    have index : list.cur_index - 1 = (s.cursor - 1 : Nat) := by
      rw [points.index]
      omega
    have back : LeadsTo cells (.prev node) (s.cursor - 1) := by
      show address cells (s.cursor - 1 + 1) = some node
      rwa [Nat.sub_add_cancel (Nat.pos_of_ne_zero first)]
    have within : s.cursor - 1 < s.items.length := by omega
    have moves : s.backward = ⟨s.items,s.cursor - 1,.inl within⟩ := dif_pos within
    rw [index] at step
    rw [if_neg first,moves]
    refine keeps ?_ (moved_refines represents back same rfl)
    have still : Represents (list.moved (.prev node) (s.cursor - 1 : Nat)) cells :=
      moved_represents represents
    have target := answer_at still (s.cursor - 1)
    unfold cplus_llist_get_prev get_prev
    rw [reads,here]
    simp only [Option.bind_eq_bind,Option.bind_some,node_at represents.linked there,behind,step]
    rw [before,same] at target
    exact target

-- The pushes. In front of an item the cursor must come by a link that still
-- leads there.
theorem refused_push (refines : Refines list s) {index : Int} {data : Option D} {alloc : Option Addr}
    (refused : data = none ∨ alloc = none ∨ index < 0 ∨ s.items.length < index) :
    list.cplus_llist_push_at index data alloc = some (list,CPLUS_FAIL) ∧
      s.push index data alloc = (s,.res CPLUS_FAIL) := by
  have count : (list.count : Int) = s.items.length := by
    obtain ⟨cells,represents,_,same⟩ := refines
    rw [represents.count,← same,items_length]
  unfold cplus_llist_push_at Sequence.push
  cases data with
  | none => exact ⟨rfl,rfl⟩
  | some data =>
    by_cases inside : 0 ≤ index ∧ index ≤ s.items.length
    · obtain rfl : alloc = none := by
        rcases refused with none | none | below | above
        · cases none
        · exact none
        · omega
        · omega
      refine ⟨?_,rfl⟩
      simp only [if_neg (show ¬ (0 > index ∨ index > list.count) by omega)]
    · refine ⟨by simp only [if_pos (show 0 > index ∨ index > list.count by omega)],?_⟩
      cases alloc with
      | none => rfl
      | some node => simp only [if_neg inside]

theorem parts_at {i : Nat} (within : i ≤ cells.length) :
    ∃ left right, cells = left ++ right ∧ i = left.length :=
  ⟨cells.take i,cells.drop i,(List.take_append_drop i cells).symm,(List.length_take_of_le within).symm⟩

theorem arranged_push {node : Addr} {data : D} (same : items (left ++ right) = s.items) :
    items (left ++ (node,data) :: right) = s.items.insertIdx left.length data := by
  rw [← same,items_append,items_append,← items_length,Sequence.insertIdx_between]
  rfl

theorem push_called (refines : Refines list s) {i : Nat} (within : i ≤ s.items.length) (data : D)
    (node : Addr) : list.cplus_llist_push_at i (some data) (some node) =
      (list.new_node node data).push_at i node := by
  have count := refines_count refines
  exact if_neg (by omega)

theorem push_between (refines : Refines list s) {i : Nat} {node : Addr} (data : D)
    (inner : 0 < i ∧ i < s.items.length) (fresh : list.nodes node = none) : ∃ after cells,
    list.cplus_llist_push_at i (some data) (some node) = some (after,CPLUS_SUCCESS) ∧
      Represents after cells ∧ items cells = s.items.insertIdx i data ∧
      Shifted list after cells i (i + 1) := by
  rw [push_called refines (Nat.le_of_lt inner.2)]
  obtain ⟨cells,represents,points,same⟩ := refines
  have length : s.items.length = cells.length := by rw [← same,items_length]
  obtain ⟨left,rest,rfl,rfl⟩ := parts_at (show i ≤ cells.length by omega)
  obtain ⟨target,right,rfl⟩ : ∃ target right, rest = target :: right := by
    cases rest with
    | nil =>
      rw [List.append_nil] at length
      omega
    | cons target right => exact ⟨target,right,rfl⟩
  have outside := new_node_outside represents fresh
  have chain : Represents (list.new_node node data) (left ++ target :: right) :=
    new_node_represents represents outside
  have start : Points (list.new_node node data) (left ++ target :: right) s.cursor :=
    ⟨points.index,points.link,points.within⟩
  obtain ⟨after,pushed,kept,shifted⟩ :=
    push_inner_at chain start (new_node_loose outside) (List.length_pos_iff.mp inner.1)
  exact ⟨after,_,pushed,kept,arranged_push same,shifted.index,shifted.ahead,shifted.behind⟩

theorem push_outside (refines : Refines list s) {i : Nat} {node : Addr} (data : D)
    (at_end : i = 0 ∨ i = s.items.length) (fresh : list.nodes node = none) : ∃ after,
    list.cplus_llist_push_at i (some data) (some node) = some (after,CPLUS_SUCCESS) ∧
      Refines after (.start (s.items.insertIdx i data)) := by
  rw [push_called refines (show i ≤ s.items.length by omega)]
  obtain ⟨cells,represents,points,same⟩ := refines
  have length : s.items.length = cells.length := by rw [← same,items_length]
  obtain ⟨left,right,rfl,rfl⟩ := parts_at (show i ≤ cells.length by omega)
  have outside := new_node_outside represents fresh
  have chain : Represents (list.new_node node data) (left ++ right) :=
    new_node_represents represents outside
  have empty_side : left = [] ∨ right = [] := by
    rcases at_end with zero | all
    · exact .inl (List.length_eq_zero_iff.mp zero)
    · rw [List.length_append] at length
      exact .inr (List.length_eq_zero_iff.mp (by omega))
  obtain ⟨after,pushed,kept,start⟩ := push_end_spec chain (new_node_loose outside) empty_side
  exact ⟨after,pushed,_,kept,start,arranged_push same⟩

-- Strictly between two nodes, as far as the index goes.
def Interior (list : LinkedList D) (index : Int) : Prop := 0 < index ∧ index < list.count

theorem push_keeps (refines : Refines list s) (index : Int) (data : Option D) (alloc : Option Addr)
    (fresh : ∀ node, alloc = some node → list.nodes node = none)
    (ahead : Interior list index → data ≠ none → alloc ≠ none → list.Ahead index) :
    Keeps ((list.cplus_llist_push_at index data alloc).map (.map id .res))
      ((s.push index data alloc).map id some) := by
  by_cases refused : data = none ∨ alloc = none ∨ index < 0 ∨ s.items.length < index
  · obtain ⟨called,meant⟩ := refused_push refines refused
    rw [meant]
    exact keeps called refines
  · simp only [not_or] at refused
    obtain ⟨some_data,some_alloc,above,below⟩ := refused
    obtain ⟨data,rfl⟩ := Option.ne_none_iff_exists'.mp some_data
    obtain ⟨node,rfl⟩ := Option.ne_none_iff_exists'.mp some_alloc
    obtain ⟨i,rfl⟩ := Int.eq_ofNat_of_zero_le (show 0 ≤ index by omega)
    have count := refines_count refines
    have meant : s.push i (some data) (some node) = (s.insert i data,.res CPLUS_SUCCESS) :=
      if_pos (by omega)
    rw [meant]
    by_cases inner : 0 < i ∧ i < s.items.length
    · obtain ⟨after,cells,pushed,kept,arranged,shifted⟩ :=
        push_between refines data inner (fresh node rfl)
      have reached := ahead ⟨by omega,by omega⟩ some_data some_alloc
      refine keeps pushed ⟨cells,kept,?_,?_⟩
      · rw [Sequence.insert,dif_pos inner]
        refine ⟨shifted.index,shifted.ahead reached,.inl ?_⟩
        rw [← items_length,arranged,List.length_insertIdx_of_le_length (by omega)]
        exact Nat.lt_succ_of_lt inner.2
      · rw [Sequence.insert,dif_pos inner]
        exact arranged
    · have at_end : i = 0 ∨ i = s.items.length := by omega
      obtain ⟨after,pushed,kept⟩ := push_outside refines data at_end (fresh node rfl)
      rw [Sequence.insert,dif_neg inner]
      exact keeps pushed kept

-- The pops. The last node goes by the index behind it, not by its own.
theorem pop_called (refines : Refines list s) {i : Nat} (within : i ≤ s.items.length) :
    list.cplus_llist_pop_of i = (list.pop_of i).bind answer_free := by
  have count := refines_count refines
  exact if_neg (show ¬ (0 > (i : Int) ∨ (i : Int) > list.count) by omega)

theorem pop_between (refines : Refines list s) {i : Nat} (inner : 0 < i ∧ i + 1 < s.items.length) :
    ∃ after cells, list.cplus_llist_pop_of i = some (after,s.items[i]?) ∧
      Represents after cells ∧ items cells = s.items.eraseIdx i ∧ Shifted list after cells i (i - 1) := by
  rw [pop_called refines (show i ≤ s.items.length by omega)]
  obtain ⟨cells,represents,points,same⟩ := refines
  have length : s.items.length = cells.length := by rw [← same,items_length]
  obtain ⟨left,rest,rfl,rfl⟩ := parts_at (show i ≤ cells.length by omega)
  obtain ⟨cell,right,rfl⟩ : ∃ cell right, rest = cell :: right := by
    cases rest with
    | nil =>
      rw [List.append_nil] at length
      omega
    | cons cell right => exact ⟨cell,right,rfl⟩
  have further : right ≠ [] := by
    rintro rfl
    rw [List.length_append,List.length_singleton] at length
    omega
  obtain ⟨after,popped,removed,shifted⟩ :=
    pop_inner_of represents points (List.length_pos_iff.mp inner.1) further
  have target : s.items[left.length]? = some cell.2 := by
    rw [← same,items_get,List.getElem?_append_right (Nat.le_refl _),Nat.sub_self]
    rfl
  refine ⟨after.free_node cell.1,left ++ right,?_,
    free_node_represents removed.represents removed.outside,?_,
    shifted.index,shifted.ahead,shifted.behind⟩
  · rw [popped,target]
    exact answer_free_spec removed
  · rw [← same,items_append,items_append,← items_length]
    exact Sequence.eraseIdx_between.symm

theorem pop_empty (refines : Refines list s) (empty : s.items = []) (i : Nat) :
    list.pop_of i = some (list,none) ∧ Refines list (.start []) := by
  obtain ⟨cells,represents,points,same⟩ := refines
  obtain rfl : cells = [] := List.map_eq_nil_iff.mp (same.trans empty)
  have zero : s.cursor = 0 := points.within.resolve_left (Nat.not_lt_zero _)
  have start : Points list [] 0 := zero ▸ points
  exact ⟨if_pos ((is_empty_iff represents).mpr rfl),[],represents,start,rfl⟩

theorem pop_first (refines : Refines list s) (some_left : s.items ≠ []) : ∃ after,
    list.cplus_llist_pop_of 0 = some (after,s.items[0]?) ∧ Refines after (.start (s.items.eraseIdx 0)) := by
  have called := pop_called refines (Nat.zero_le _)
  obtain ⟨cells,represents,points,same⟩ := refines
  cases cells with
  | nil => exact absurd same.symm some_left
  | cons cell right =>
    obtain ⟨after,popped,removed,start⟩ := pop_front_spec represents
    refine ⟨after.free_node cell.1,?_,?_⟩
    · show list.cplus_llist_pop_of (0 : Nat) = _
      rw [called,← same]
      show (list.pop_of 0).bind answer_free = _
      rw [popped]
      exact answer_free_spec removed
    · rw [← same]
      exact free_refines removed start rfl

theorem pop_last (refines : Refines list s) (some_left : s.items ≠ []) : ∃ after,
    list.cplus_llist_pop_of s.items.length = some (after,s.items[s.items.length - 1]?) ∧
      Refines after (.start (s.items.eraseIdx (s.items.length - 1))) := by
  have count := refines_count refines
  rw [pop_called refines (Nat.le_refl _)]
  obtain ⟨cells,represents,points,same⟩ := refines
  rcases List.eq_nil_or_concat cells with rfl | ⟨left,cell,rfl⟩
  · exact absurd same.symm some_left
  · rw [List.concat_eq_append] at represents same
    have size : s.items.length - 1 = left.length := by
      rw [← same,items_length,List.length_append,List.length_singleton,Nat.add_sub_cancel]
    obtain ⟨after,popped,removed,start⟩ := pop_back_spec represents
    refine ⟨after.free_node cell.1,?_,?_⟩
    · have target : s.items[left.length]? = some cell.2 := by
        rw [← same,items_get,List.getElem?_append_right (Nat.le_refl _),Nat.sub_self]
        rfl
      rw [size,target,← count,popped]
      exact answer_free_spec removed
    · have left_over : s.items.eraseIdx left.length = items left := by
        rw [← same,items_append,← items_length]
        exact Sequence.eraseIdx_between.trans (List.append_nil _)
      rw [size,left_over]
      exact free_refines removed start rfl

theorem pop_keeps (refines : Refines list s) (index : Int)
    (within : ¬ (0 < index ∧ index + 1 = list.count))
    (ahead : Interior list index → list.Ahead index) :
    Keeps ((list.cplus_llist_pop_of index).map (.map id .data)) ((s.pop index).map id some) := by
  have count := refines_count refines
  by_cases inside : 0 ≤ index ∧ index ≤ s.items.length
  · obtain ⟨i,rfl⟩ := Int.eq_ofNat_of_zero_le inside.1
    have meant : s.pop i = (s.remove i,.data s.items[s.slot i]?) := if_pos inside
    rw [meant]
    by_cases inner : 0 < i ∧ i + 1 < s.items.length
    · obtain ⟨after,cells,popped,kept,left_over,shifted⟩ := pop_between refines inner
      have slot : s.slot i = i := if_neg (by omega)
      rw [slot]
      refine keeps popped ⟨cells,kept,?_,?_⟩
      · rw [Sequence.remove,dif_pos inner]
        refine ⟨shifted.index,shifted.ahead (ahead ⟨by omega,by omega⟩),.inl ?_⟩
        rw [← items_length,left_over,List.length_eraseIdx_of_lt (by omega)]
        show i < _
        omega
      · rw [Sequence.remove,dif_pos inner]
        exact left_over
    · rw [Sequence.remove,dif_neg inner]
      by_cases empty : s.items = []
      · obtain ⟨stays,kept⟩ := pop_empty refines empty i
        rw [empty]
        refine keeps ?_ kept
        rw [pop_called refines (show i ≤ s.items.length by omega),stays]
        rfl
      · rcases Nat.eq_zero_or_pos i with rfl | some_left
        · have slot : s.slot 0 = 0 := by
            unfold Sequence.slot
            split <;> rfl
          obtain ⟨after,popped,kept⟩ := pop_first refines empty
          rw [slot]
          exact keeps popped kept
        · obtain rfl : i = s.items.length := by omega
          have slot : s.slot s.items.length = s.items.length - 1 := if_pos rfl
          obtain ⟨after,popped,kept⟩ := pop_last refines empty
          rw [slot]
          exact keeps popped kept
  · have meant : s.pop index = (s,.data none) := if_neg inside
    have called : list.cplus_llist_pop_of index = some (list,none) := if_pos (by omega)
    rw [meant]
    exact keeps called refines

-- The searches that take a node out of the list.
theorem discard_none {found : D → Bool} (none : holder found cells = none) (same : items cells = s.items) :
    s.discard found = s.search found := by
  unfold Sequence.discard
  rw [if_neg]
  rw [List.any_eq_true]
  rintro ⟨d,member,accepted⟩
  rw [holder_none none d (same ▸ member)] at accepted
  cases accepted

-- What remove_node leaves when the search has found its node.
theorem remove_found {found : D → Bool} {node : Addr} (link : Link) (p : Int)
    (represents : Represents list cells) (there : holder found cells = some node)
    (same : items cells = s.items) : ∃ after data rest,
    (list.moved link p).remove_node node = some after ∧ Removed after (node,data) rest ∧
      s.items.find? found = some data ∧
      Refines (after.free_node node) (s.discard found) := by
  obtain ⟨left,data,right,rfl,accepted,refused⟩ := holder_parts there
  have chain : Represents (list.moved link p) (left ++ (node,data) :: right) :=
    moved_represents represents
  obtain ⟨after,took,removed,start⟩ := remove_node_spec chain
  have split : s.items = items left ++ data :: items right := by
    rw [← same,items_append]
    rfl
  have some_found : s.items.any found = true := by
    rw [split,List.any_append,List.any_cons,accepted,Bool.true_or,Bool.or_true]
  have left_over : s.discard found = .start (items (left ++ right)) := by
    rw [Sequence.discard,if_pos some_found,split,Sequence.eraseP_between refused accepted,items_append]
  refine ⟨after,data,left ++ right,took,removed,?_,?_⟩
  · rw [split,List.find?_append,List.find?_eq_none.mpr fun d member => by simp [refused d member],
      List.find?_cons_of_pos accepted]
    rfl
  · rw [left_over]
    exact free_refines removed start rfl

theorem pop_if_keeps (refines : Refines list s) (comparator : D → Int) :
    Keeps ((list.cplus_llist_pop_if (some comparator)).map (.map id .data))
      (s.discard (accepts comparator),some (.data (s.items.find? (accepts comparator)))) := by
  obtain ⟨cells,link,represents,same,sought,kept⟩ := search_refines (accepts comparator) refines
  have called : list.cplus_llist_pop_if (some comparator) = (list.pop_if comparator).bind answer_free := rfl
  rw [called]
  by_cases empty : list.is_empty
  · have no_cells := (is_empty_iff represents).mp empty
    have no_items : s.items = [] := by rw [← same,no_cells]; rfl
    have start : Refines list.reset_cur_node (.start []) :=
      ⟨[],reset_represents (no_cells ▸ represents),start_points,rfl⟩
    have gone : s.discard (accepts comparator) = .start [] := by
      rw [discard_none (show holder _ cells = none by rw [no_cells]; rfl) same]
      exact Sequence.ext no_items (by simp [Sequence.search,Sequence.stop,no_items])
    rw [gone,no_items]
    refine keeps ?_ start
    rw [pop_if,if_pos empty]
    rfl
  · cases there : holder (accepts comparator) cells with
    | none =>
      have nowhere : s.items.find? (accepts comparator) = none :=
        List.find?_eq_none.mpr fun d member => by simp [holder_none there d (same ▸ member)]
      rw [there] at sought
      rw [discard_none there same,nowhere]
      refine keeps ?_ kept
      simp only [pop_if,if_neg empty,sought]
      rfl
    | some node =>
      obtain ⟨after,data,rest,took,removed,target,left_over⟩ :=
        remove_found link (s.search (accepts comparator)).cursor represents there same
      rw [there] at sought
      rw [target]
      refine keeps ?_ left_over
      simp only [pop_if,if_neg empty,sought,Option.bind_eq_bind,Option.bind_some,took]
      exact answer_free_spec removed

theorem delete_data_keeps [DecidableEq D] (refines : Refines list s) (data : D) :
    Keeps ((list.cplus_llist_delete_data (some data)).map (.map id .res))
      (s.discard (data = ·),
        some (.res (if data ∈ s.items then CPLUS_SUCCESS else CPLUS_FAIL))) := by
  obtain ⟨cells,link,represents,same,sought,kept⟩ := search_refines (fun d => data = d) refines
  unfold cplus_llist_delete_data
  cases there : holder (fun d => data = d) cells with
  | none =>
    have absent : data ∉ s.items := fun member => by
      simpa using holder_none there data (same ▸ member)
    rw [there] at sought
    rw [discard_none there same,if_neg absent]
    refine keeps ?_ kept
    simp only [remove_data,sought]
    rfl
  | some node =>
    obtain ⟨after,found,rest,took,_,target,left_over⟩ :=
      remove_found link (s.search fun d => data = d).cursor represents there same
    have present : data ∈ s.items := by
      have same_data : data = found := by simpa using List.find?_some target
      exact same_data ▸ List.mem_of_find?_eq_some target
    rw [there] at sought
    rw [if_pos present]
    refine keeps ?_ left_over
    simp only [remove_data,sought,Option.bind_eq_bind,Option.bind_some,took]
    rfl

theorem clear_keeps (refines : Refines list s) :
    Keeps (list.cplus_llist_clear.map (.map id .res)) (.start [],some (.res CPLUS_SUCCESS)) := by
  obtain ⟨cells,represents,_⟩ := refines
  obtain ⟨after,cleared,empty,start⟩ := clear_spec represents
  exact keeps cleared ⟨[],empty,start,rfl⟩

-- A sort that runs moves the data only, so the cursor still stands where it stood.
theorem leads_congr {after : List (Addr × D)} (same : addresses after = addresses cells) {link : Link}
    {p : Nat} (leads : LeadsTo cells link p) : LeadsTo after link p := by
  have address_same : ∀ i, address after i = address cells i := by
    intro i
    have at_i := congrArg (·[i]?) same
    simp only [addresses,List.getElem?_map] at at_i
    exact at_i
  cases link with
  | head => exact leads
  | next node =>
    obtain ⟨j,there,place⟩ := leads
    exact ⟨j,(address_same j).trans there,place⟩
  | prev node => exact (address_same (p + 1)).trans leads

-- Where the source sorts the list, or has no need to.
def Arranged (comparator : D → D → Int) (items : List D) : Prop :=
  BubbleSort.bubble_sort (greater comparator) items = items

theorem arranged_iff {comparator : D → D → Int} (ordering : BubbleSort.Ordering (greater comparator))
    (items : List D) :
    Arranged comparator items ↔ items.Pairwise fun a b => greater comparator a b = false :=
  BubbleSort.bubble_sort_fixed ordering items

theorem sort_keeps (refines : Refines list s) (comparator : D → D → Int)
    (fits : ¬ list.is_sort ∨ Arranged comparator s.items) :
    Keeps ((list.cplus_llist_sort (some comparator)).map (.map id .res)) (s.sorted comparator,none) := by
  obtain ⟨cells,represents,points,same⟩ := refines
  by_cases skipped : list.is_sort
  · have arranged := fits.resolve_left (not_not_intro skipped)
    refine ⟨list,.res CPLUS_SUCCESS,?_,⟨cells,represents,points,?_⟩,nofun⟩
    · simp only [cplus_llist_sort,if_pos skipped,Option.map_some]
      rfl
    · exact same.trans arranged.symm
  · obtain ⟨sorted,after,ran,kept,still,result,current,index⟩ :=
      sort_spec comparator represents
    refine ⟨sorted,.res (if sorted.is_sort then CPLUS_SUCCESS else CPLUS_FAIL),?_,
      ⟨after,kept,?_,?_⟩,nofun⟩
    · simp only [cplus_llist_sort,if_neg skipped,ran]
      rfl
    · refine ⟨index.trans points.index,?_,?_⟩
      · rw [current]
        exact leads_congr still points.link
      · have size := congrArg List.length still
        rw [addresses,addresses,List.length_map,List.length_map] at size
        rw [size]
        exact points.within
    · rw [result,same]
      rfl

theorem gathers_contents {allocs : Nat → Option Addr} {target : Option (LinkedList D)}
    {got : Option (List D)} (gathers : Gathers allocs k target got) : target.map contents = got := by
  cases target with
  | none =>
    cases got with
    | none => rfl
    | some got => cases gathers
  | some target =>
    cases got with
    | none => cases gathers
    | some got =>
      obtain ⟨copies,copied,same⟩ := gathers
      exact congrArg some ((contents_spec copied.represents).trans same)

theorem get_set_if_keeps (refines : Refines list s) (comparator : D → Int) (allocs : Nat → Option Addr)
    (distinct : Distinct allocs) :
    Keeps ((list.cplus_llist_get_set_if (some comparator) allocs).map
        (.map id fun target => .list (target.map contents)))
      (s.visit (s.items.length - 1),
        some (.list (s.select (accepts comparator) (granted allocs)))) := by
  obtain ⟨cells,represents,_,same⟩ := refines
  have length : s.items.length = cells.length := by rw [← same,items_length]
  have chain : Represents list.reset_cur_node ([] ++ cells) := reset_represents represents
  obtain ⟨link,k,final,ran,leads,gathers⟩ := collect_spec comparator distinct chain rfl rfl
    (show cells.length < list.count + 1 by rw [represents.count]; omega)
    (show Gathers allocs 0 none none from trivial)
  have finish : ([] : List (Addr × D)).length + (cells.length - 1) = s.items.length - 1 := by
    rw [List.length_nil,length,Nat.zero_add]
  have last : (s.visit (s.items.length - 1)).cursor = s.items.length - 1 := by
    unfold Sequence.visit
    split
    · rfl
    · have := s.within
      omega
  have unmoved : (s.visit (s.items.length - 1)).items = s.items := by
    unfold Sequence.visit
    split <;> rfl
  rw [finish] at ran leads
  have listed : final.map contents = s.select (accepts comparator) (granted allocs) := by
    rw [gathers_contents gathers,Sequence.select,same]
  rw [← listed]
  exact keeps ran (moved_refines represents leads (same.trans unmoved.symm) last)

end LinkedList

end Libcplus
