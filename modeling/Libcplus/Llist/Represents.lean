import Libcplus.Llist.Model

namespace Libcplus
open DoublyLinked

variable {D : Type}

namespace LinkedList

-- The list is the chain of these cells, whatever its cursor.
structure Represents (list : LinkedList D) (cells : List (Addr × D)) : Prop where
  linked : Linked list.nodes none cells none
  nodup : (addresses cells).Nodup
  head : list.head = first cells none
  tail : list.tail = last none cells
  count : list.count = cells.length

-- The position that a link leads to: the node behind the one whose next it is,
-- or in front of the one whose prev it is.
def LeadsTo (cells : List (Addr × D)) : Link → Nat → Prop
  | .head,k => k = 0
  | .next node,k => ∃ j, address cells j = some node ∧ k = j + 1
  | .prev node,k => address cells (k + 1) = some node

-- The cursor is where cur_index says.
structure Points (list : LinkedList D) (cells : List (Addr × D)) (k : Nat) : Prop where
  index : list.cur_index = k
  link : LeadsTo cells list.current k
  within : k < cells.length ∨ k = 0

variable {list : LinkedList D} {cells left right : List (Addr × D)} {cell : Addr × D} {k p : Nat}

theorem address_some {i : Nat} (within : i < cells.length) :
    ∃ cell, cells[i]? = some cell ∧ address cells i = some cell.1 :=
  ⟨cells[i],List.getElem?_eq_getElem within,by rw [address,List.getElem?_eq_getElem within]; rfl⟩

theorem address_parts {i : Nat} {node : Addr} (there : address cells i = some node) :
    ∃ data, cells[i]? = some (node,data) := by
  obtain ⟨cell,same,rfl⟩ := Option.map_eq_some_iff.mp there
  exact ⟨cell.2,same⟩

theorem reads_link (represents : Represents list cells) {link : Link}
    (leads : LeadsTo cells link p) : list.read_link link = some (address cells p) := by
  cases link with
  | head =>
    obtain rfl : p = 0 := leads
    rw [read_link,represents.head,← first_drop,List.drop_zero]
  | next node =>
    obtain ⟨j,there,rfl⟩ := leads
    obtain ⟨data,same⟩ := address_parts there
    rw [read_link,node_at represents.linked same]
    rfl
  | prev node =>
    obtain ⟨data,same⟩ := address_parts leads
    rw [read_link,node_at represents.linked same]
    rfl

theorem start_points : Points (reset_cur_node list) cells 0 := ⟨rfl,rfl,.inr rfl⟩

-- The list with its cursor elsewhere.
def moved (list : LinkedList D) (link : Link) (cur_index : Int) : LinkedList D :=
  {list with current := link,cur_index := cur_index}

section Moved
variable {link other : Link} {i j : Int}

@[simp] theorem moved_moved : (list.moved link i).moved other j = list.moved other j := rfl
@[simp] theorem moved_self : list.moved list.current list.cur_index = list := rfl
@[simp] theorem moved_index : (list.moved link i).cur_index = i := rfl

theorem moved_represents (represents : Represents list cells) : Represents (list.moved link i) cells :=
  ⟨represents.linked,represents.nodup,represents.head,represents.tail,represents.count⟩

end Moved

theorem reset_represents (represents : Represents list cells) :
    Represents list.reset_cur_node cells := moved_represents represents

-- A step of the cursor leaves the node it stands on through one of its links.
theorem step_next_spec (represents : Represents list cells) (leads : LeadsTo cells list.current p)
    (within : p < cells.length) : ∃ node,
      list.step_next = some (list.moved (.next node) (list.cur_index + 1)) ∧
      LeadsTo cells (.next node) (p + 1) := by
  obtain ⟨cell,_,there⟩ := address_some within
  refine ⟨cell.1,?_,p,there,rfl⟩
  unfold step_next get_current
  rw [reads_link represents leads,there]
  rfl

theorem step_prev_spec (represents : Represents list cells) (leads : LeadsTo cells list.current p)
    (within : p < cells.length) : ∃ node,
      list.step_prev = some (list.moved (.prev node) (list.cur_index - 1)) ∧
      address cells p = some node := by
  obtain ⟨cell,_,there⟩ := address_some within
  refine ⟨cell.1,?_,there⟩
  unfold step_prev get_current
  rw [reads_link represents leads,there]
  rfl

theorem walk_next_spec (rounds : Nat) (represents : Represents list cells)
    (leads : LeadsTo cells list.current p) (within : p + rounds ≤ cells.length) : ∃ link,
      walk_next rounds list = some (list.moved link (list.cur_index + rounds)) ∧
      LeadsTo cells link (p + rounds) ∧ (0 < rounds → ∃ node, link = .next node) := by
  induction rounds generalizing list p with
  | zero => exact ⟨list.current,by simp [walk_next],leads,nofun⟩
  | succ rounds ih =>
    obtain ⟨node,step,next⟩ := step_next_spec represents leads (by omega)
    obtain ⟨link,walk,there,kind⟩ := ih (moved_represents represents) next (by omega)
    have place : p + 1 + rounds = p + (rounds + 1) := by omega
    have index : list.cur_index + 1 + (rounds : Int) = list.cur_index + (rounds + 1 : Nat) := by omega
    rw [moved_moved,moved_index,index] at walk
    refine ⟨link,?_,place ▸ there,fun _ => ?_⟩
    · simp only [walk_next,step,Option.bind_eq_bind,Option.bind_some,walk]
    · cases rounds with
      | zero => exact ⟨node,(congrArg current (Option.some.inj walk)).symm⟩
      | succ rounds => exact kind (by omega)

theorem walk_prev_spec (rounds : Nat) (represents : Represents list cells)
    (leads : LeadsTo cells list.current p) (within : p < cells.length) (room : rounds ≤ p) : ∃ link,
      walk_prev rounds list = some (list.moved link (list.cur_index - rounds)) ∧
      LeadsTo cells link (p - rounds) ∧ (0 < rounds → ∃ node, link = .prev node) := by
  induction rounds generalizing list p with
  | zero => exact ⟨list.current,by simp [walk_prev],leads,nofun⟩
  | succ rounds ih =>
    obtain ⟨node,step,here⟩ := step_prev_spec represents leads within
    have next : LeadsTo cells (.prev node) (p - 1) := by
      show address cells (p - 1 + 1) = some node
      rwa [Nat.sub_add_cancel (by omega)]
    obtain ⟨link,walk,there,kind⟩ := ih (moved_represents represents) next (by omega) (by omega)
    have place : p - 1 - rounds = p - (rounds + 1) := by omega
    have index : list.cur_index - 1 - (rounds : Int) = list.cur_index - (rounds + 1 : Nat) := by omega
    rw [moved_moved,moved_index,index] at walk
    refine ⟨link,?_,place ▸ there,fun _ => ?_⟩
    · simp only [walk_prev,step,Option.bind_eq_bind,Option.bind_some,walk]
    · cases rounds with
      | zero => exact ⟨node,(congrArg current (Option.some.inj walk)).symm⟩
      | succ rounds => exact kind (by omega)

-- Which link the cursor ends on depends on the side it comes from.
theorem get_node_of_spec (represents : Represents list cells) (points : Points list cells k)
    {i : Nat} (within : i < cells.length) : ∃ link,
      list.get_node_of i = some (list.moved link i,address cells i) ∧ LeadsTo cells link i ∧
      (k < i → ∃ node, link = .next node) ∧ (i < k → ∃ node, link = .prev node) ∧
      (i = k → link = list.current) := by
  have index := points.index
  have finish : ∀ {link : Link}, LeadsTo cells link i →
      (list.moved link i).get_current = some (address cells i) :=
    fun leads => reads_link (moved_represents represents) leads
  rcases Nat.lt_trichotomy k i with forwards | rfl | backwards
  · have rounds : ((i : Int) - list.cur_index).toNat = i - k := by omega
    obtain ⟨link,walk,leads,kind⟩ :=
      walk_next_spec (i - k) represents points.link (by omega)
    rw [show k + (i - k) = i by omega] at leads
    rw [show list.cur_index + ((i - k : Nat) : Int) = i by omega] at walk
    refine ⟨link,?_,leads,fun _ => kind (by omega),by omega,by omega⟩
    simp only [get_node_of,if_neg (show ¬ (i : Int) = list.cur_index by omega),
      if_pos (show (i : Int) > list.cur_index by omega),rounds,walk,Option.bind_eq_bind,
      Option.bind_some,finish leads]
    rfl
  · refine ⟨list.current,?_,points.link,by omega,by omega,fun _ => rfl⟩
    have stays : list.moved list.current k = list := by rw [← index,moved_self]
    have here := finish points.link
    rw [stays] at here ⊢
    simp only [get_node_of,if_pos index.symm,Option.bind_eq_bind,Option.bind_some,here]
    rfl
  · have rounds : (list.cur_index - (i : Int)).toNat = k - i := by omega
    have inside : k < cells.length := by
      rcases points.within with inside | zero
      · exact inside
      · omega
    obtain ⟨link,walk,leads,kind⟩ :=
      walk_prev_spec (k - i) represents points.link inside (by omega)
    rw [show k - (k - i) = i by omega] at leads
    rw [show list.cur_index - ((k - i : Nat) : Int) = i by omega] at walk
    refine ⟨link,?_,leads,by omega,fun _ => kind (by omega),by omega⟩
    simp only [get_node_of,if_neg (show ¬ (i : Int) = list.cur_index by omega),
      if_neg (show ¬ (i : Int) > list.cur_index by omega),rounds,walk,Option.bind_eq_bind,
      Option.bind_some,finish leads]
    rfl

-- The list with other links and other ends.
def relinked (list : LinkedList D) (head tail : Option Addr) (nodes : Heap Addr D) : LinkedList D :=
  {list with head := head,tail := tail,nodes := nodes}

variable {node : Addr} {data : D} {value : Option Addr}

section Writes
variable {head tail : Option Addr} {nodes : Heap Addr D}

@[simp] theorem relinked_nodes : (list.relinked head tail nodes).nodes = nodes := rfl

theorem write_next_spec (there : (nodes node).map Node.data = some data) :
    (list.relinked head tail nodes).write_next node value =
      some (list.relinked head tail (set_next nodes (some node) value)) := by
  obtain ⟨cell,found,_⟩ := Option.map_eq_some_iff.mp there
  show (nodes node).map _ = _
  rw [found]
  rfl

theorem write_prev_spec (there : (nodes node).map Node.data = some data) :
    (list.relinked head tail nodes).write_prev node value =
      some (list.relinked head tail (set_prev nodes (some node) value)) := by
  obtain ⟨cell,found,_⟩ := Option.map_eq_some_iff.mp there
  show (nodes node).map _ = _
  rw [found]
  rfl

end Writes

theorem cell_data (linked : Linked list.nodes none (left ++ cell :: right) none) :
    (list.nodes cell.1).map Node.data = some cell.2 := by
  rw [linked_cell linked]
  rfl

theorem unlink_head_spec (represents : Represents list (cell :: right)) : ∃ nodes,
    list.unlink_head cell.1 = some (list.relinked (first right none) list.tail nodes) ∧
      Linked nodes none right none ∧ (nodes cell.1).map Node.data = some cell.2 := by
  have linked := represents.linked
  have fresh := (List.nodup_cons.mp represents.nodup).1
  have here : list.nodes cell.1 = some ⟨cell.2,none,first right none⟩ := linked.1
  refine ⟨set_next (removal list.nodes [] right) (some cell.1) none,?_,?_,?_⟩
  · simp only [unlink_head,here,Option.bind_eq_bind,Option.bind_some]
    cases right with
    | nil =>
      exact write_next_spec (congrArg (Option.map Node.data) here)
    | cons next rest =>
      have there : (list.nodes next.1).map Node.data = some next.2 :=
        congrArg (Option.map Node.data) linked.2.1
      have kept : (set_prev list.nodes (some next.1) none cell.1).map Node.data = some cell.2 := by
        rw [set_prev_data,here]
        rfl
      show (write_prev (list.relinked (some next.1) list.tail list.nodes) next.1 none).bind _ = _
      rw [write_prev_spec there,Option.bind_some]
      exact write_next_spec kept
  · have joined : Linked (removal list.nodes [] right) none ([] ++ right) none :=
      linked_removal linked represents.nodup
    refine linked_congr (fun a member => set_next_other fun same => fresh ?_) joined
    obtain rfl : cell.1 = a := Option.some.inj same
    exact member
  · rw [set_next_data,removal,set_prev_data,set_next_data,here]
    rfl

theorem unlink_tail_spec (represents : Represents list (left ++ [cell])) : ∃ nodes,
    list.unlink_tail cell.1 = some (list.relinked list.head (last none left) nodes) ∧
      Linked nodes none left none ∧ (nodes cell.1).map Node.data = some cell.2 := by
  have linked := represents.linked
  have here : list.nodes cell.1 = some ⟨cell.2,last none left,none⟩ := linked_cell linked
  have fresh : cell.1 ∉ addresses left := fun member =>
    (nodup_parts represents.nodup).2.2 _ member (by simp)
  have next_kept : (set_next list.nodes (last none left) none cell.1).map Node.data = some cell.2 := by
    rw [set_next_data,here]
    rfl
  have alone : removal list.nodes left [] = set_next list.nodes (last none left) none := rfl
  refine ⟨set_prev (removal list.nodes left []) (some cell.1) none,?_,?_,?_⟩
  · simp only [unlink_tail,here,Option.bind_eq_bind,Option.bind_some,alone]
    cases before : last none left with
    | none =>
      rw [before] at next_kept
      show write_prev (list.relinked list.head none list.nodes) cell.1 none = _
      exact write_prev_spec next_kept
    | some prev =>
      obtain ⟨cells,other,rfl⟩ : ∃ cells other, left = cells ++ [other] := by
        rcases List.eq_nil_or_concat left with rfl | ⟨cells,other,rfl⟩
        · cases before
        · exact ⟨cells,other,List.concat_eq_append⟩
      rw [last_concat] at before next_kept
      cases before
      rw [List.append_assoc] at linked
      show (write_next (list.relinked list.head (some other.1) list.nodes) other.1 none).bind _ = _
      rw [write_next_spec (cell_data linked),Option.bind_some]
      exact write_prev_spec next_kept
  · have joined := linked_removal linked represents.nodup
    rw [List.append_nil] at joined
    refine linked_congr (fun a member => set_prev_other fun same => fresh ?_) joined
    obtain rfl : cell.1 = a := Option.some.inj same
    exact member
  · rw [set_prev_data,removal,set_prev_data]
    exact next_kept

theorem unlink_inner_spec (represents : Represents list (left ++ cell :: right)) {prev next : Addr}
    (before : last none left = some prev) (after : first right none = some next) : ∃ nodes,
    list.unlink_inner cell.1 = some (list.relinked list.head list.tail nodes) ∧
      Linked nodes none (left ++ right) none ∧ (nodes cell.1).map Node.data = some cell.2 := by
  have linked := represents.linked
  have here : list.nodes cell.1 = some ⟨cell.2,some prev,some next⟩ := by
    rw [linked_cell linked,before,after]
  obtain ⟨_,right_nodup,apart⟩ := nodup_parts represents.nodup
  have alone := List.nodup_cons.mp right_nodup
  have not_prev : some prev ≠ some cell.1 := fun same =>
    apart prev (last_member before) (by rw [Option.some.inj same]; simp)
  have prev_there : ∃ data, (list.nodes prev).map Node.data = some data := by
    rcases List.eq_nil_or_concat left with rfl | ⟨cells,other,rfl⟩
    · cases before
    · rw [List.concat_eq_append] at before linked
      rw [last_concat] at before
      cases before
      rw [List.append_assoc] at linked
      exact ⟨_,cell_data linked⟩
  have next_there : ∃ data, (list.nodes next).map Node.data = some data := by
    cases right with
    | nil => cases after
    | cons other cells =>
      cases after
      exact ⟨_,congrArg (Option.map Node.data) (linked_append.mp linked).2.2.1⟩
  obtain ⟨prev_data,prev_there⟩ := prev_there
  obtain ⟨next_data,next_there⟩ := next_there
  have joined : removal list.nodes left right =
      set_prev (set_next list.nodes (some prev) (some next)) (some next) (some prev) := by
    rw [removal,before,after]
  have kept : (removal list.nodes left right cell.1).map Node.data = some cell.2 := by
    rw [removal,set_prev_data,set_next_data,here]
    rfl
  refine ⟨set_prev (set_next (removal list.nodes left right) (some cell.1) none) (some cell.1) none,
    ?_,?_,?_⟩
  · have still : set_next list.nodes (some prev) (some next) cell.1 =
        some ⟨cell.2,some prev,some next⟩ := (set_next_other not_prev).trans here
    rw [joined] at kept ⊢
    simp only [unlink_inner,here,Option.bind_eq_bind,Option.bind_some]
    show (write_next (list.relinked list.head list.tail list.nodes) prev (some next)).bind _ = _
    rw [write_next_spec prev_there,Option.bind_some,relinked_nodes,still]
    simp only [Option.bind_some]
    rw [write_prev_spec (set_next_data.trans next_there),Option.bind_some,write_next_spec kept,
      Option.bind_some,write_prev_spec (set_next_data.trans kept)]
  · refine linked_congr (fun a member => ?_) (linked_removal linked represents.nodup)
    have other : some cell.1 ≠ some a := by
      rintro ⟨⟩
      rw [addresses_append,List.mem_append] at member
      rcases member with early | late
      · exact apart _ early (by simp)
      · exact alone.1 late
    rw [set_prev_other other,set_next_other other]
  · rw [set_prev_data,set_next_data]
    exact kept

theorem discount_spec (list : LinkedList D) {rest : List (Addr × D)} (linked : Linked list.nodes none rest none)
    (nodup : (addresses rest).Nodup) (count : list.count = rest.length + 1)
    (ends : rest ≠ [] → list.head = first rest none ∧ list.tail = last none rest) :
    Represents list.discount rest ∧ list.discount.nodes = list.nodes ∧
      list.discount.cur_index = list.cur_index ∧ list.discount.current = list.current := by
  have left : list.count - 1 = rest.length := by omega
  cases rest with
  | nil =>
    have empty : is_empty {list with count := list.count - 1} := left
    unfold discount
    rw [if_pos empty]
    exact ⟨⟨trivial,nodup,rfl,rfl,left⟩,rfl,rfl,rfl⟩
  | cons cell cells =>
    have more : ¬ is_empty {list with count := list.count - 1} := fun none : list.count - 1 = 0 => by
      rw [left] at none
      cases none
    obtain ⟨head,tail⟩ := ends nofun
    unfold discount
    rw [if_neg more]
    exact ⟨⟨linked,nodup,head,tail,left⟩,rfl,rfl,rfl⟩

-- A node taken out of the chain by its link, wherever it is; it is not freed yet.
structure Removed (after : LinkedList D) (cell : Addr × D) (rest : List (Addr × D)) : Prop where
  represents : Represents after rest
  outside : cell.1 ∉ addresses rest
  data : (after.nodes cell.1).map Node.data = some cell.2

theorem removed_nodup (represents : Represents list (left ++ cell :: right)) :
    (addresses (left ++ right)).Nodup := by
  obtain ⟨left_nodup,right_nodup,apart⟩ := nodup_parts represents.nodup
  rw [addresses_append]
  refine List.nodup_append.mpr ⟨left_nodup,(List.nodup_cons.mp right_nodup).2,?_⟩
  rintro a early b late rfl
  exact apart a early (List.mem_cons_of_mem _ late)

theorem removed_outside (represents : Represents list (left ++ cell :: right)) :
    cell.1 ∉ addresses (left ++ right) := by
  obtain ⟨_,cell_right,apart⟩ := nodup_parts represents.nodup
  rw [addresses_append,List.mem_append,not_or]
  exact ⟨fun early => apart cell.1 early (by simp),(List.nodup_cons.mp cell_right).1⟩

theorem discount_removed {head tail : Option Addr} {nodes : Heap Addr D}
    (represents : Represents list (left ++ cell :: right))
    (linked : Linked nodes none (left ++ right) none) (kept : (nodes cell.1).map Node.data = some cell.2)
    (ends : left ++ right ≠ [] → head = first (left ++ right) none ∧ tail = last none (left ++ right)) :
    Removed (list.relinked head tail nodes).discount cell (left ++ right) ∧
      (list.relinked head tail nodes).discount.cur_index = list.cur_index ∧
      (list.relinked head tail nodes).discount.current = list.current := by
  have count : (list.relinked head tail nodes).count = (left ++ right).length + 1 := by
    show list.count = _
    rw [represents.count,List.length_append,List.length_append,List.length_cons]
    omega
  obtain ⟨after,same,cursor⟩ :=
    discount_spec (list.relinked head tail nodes) linked (removed_nodup represents) count ends
  exact ⟨⟨after,removed_outside represents,by rw [same]; exact kept⟩,cursor⟩

theorem ends_first (more : cells ≠ []) : ∃ node, first cells none = some node := by
  cases cells with
  | nil => exact absurd rfl more
  | cons cell rest => exact ⟨cell.1,rfl⟩

theorem ends_last (more : cells ≠ []) : ∃ node, last none cells = some node := by
  rcases List.eq_nil_or_concat cells with rfl | ⟨before,cell,rfl⟩
  · exact absurd rfl more
  · exact ⟨cell.1,by rw [List.concat_eq_append,last_concat]⟩

-- The first node has the head, the last one the tail, and no other has either.
theorem head_apart (represents : Represents list (left ++ cell :: right)) (more : left ≠ []) :
    list.head ≠ some cell.1 := by
  intro same
  cases left with
  | nil => exact more rfl
  | cons other rest =>
    rw [represents.head] at same
    obtain ⟨_,_,apart⟩ := nodup_parts represents.nodup
    exact apart cell.1 (by rw [← Option.some.inj same]; simp) (by simp)

theorem tail_apart (represents : Represents list (left ++ cell :: right)) (more : right ≠ []) :
    list.tail ≠ some cell.1 := by
  intro same
  obtain ⟨_,cell_right,_⟩ := nodup_parts represents.nodup
  apply (List.nodup_cons.mp cell_right).1
  rw [represents.tail,last_append] at same
  cases right with
  | nil => exact absurd rfl more
  | cons other rest =>
    rcases List.eq_nil_or_concat (other :: rest) with none | ⟨before,final,ends⟩
    · cases none
    · rw [List.concat_eq_append] at ends
      rw [ends] at same ⊢
      rw [← List.cons_append,last_concat] at same
      rw [← Option.some.inj same]
      simp

theorem remove_node_spec (represents : Represents list (left ++ cell :: right)) : ∃ after,
    list.remove_node cell.1 = some after ∧ Removed after cell (left ++ right) ∧
      Points after (left ++ right) 0 := by
  have unlinked : ∃ head tail nodes,
      list.unlink cell.1 = some (list.relinked head tail nodes) ∧
      Linked nodes none (left ++ right) none ∧ (nodes cell.1).map Node.data = some cell.2 ∧
      (left ++ right ≠ [] → head = first (left ++ right) none ∧ tail = last none (left ++ right)) := by
    unfold unlink
    by_cases no_left : left = []
    · subst no_left
      obtain ⟨nodes,unlink,linked,kept⟩ := unlink_head_spec represents
      refine ⟨_,_,nodes,(if_pos represents.head).trans unlink,linked,kept,fun more => ⟨rfl,?_⟩⟩
      exact represents.tail.trans (last_front more _)
    · rw [if_neg (head_apart represents no_left)]
      have head : list.head = first (left ++ right) none := by
        rw [represents.head,first_append,first_append]
        exact first_behind no_left _
      by_cases no_right : right = []
      · subst no_right
        have is_tail : list.tail = some cell.1 := by rw [represents.tail,last_concat]
        obtain ⟨nodes,unlink,linked,kept⟩ := unlink_tail_spec represents
        rw [if_pos is_tail,List.append_nil] at *
        exact ⟨_,_,nodes,unlink,linked,kept,fun _ => ⟨head,rfl⟩⟩
      · have tail : list.tail = last none (left ++ right) := by
          rw [represents.tail,last_append,last_append]
          exact last_front no_right _
        obtain ⟨next,after⟩ := ends_first no_right
        obtain ⟨prev,before⟩ := ends_last no_left
        obtain ⟨nodes,unlink,linked,kept⟩ := unlink_inner_spec represents before after
        rw [if_neg (tail_apart represents no_right)]
        exact ⟨_,_,nodes,unlink,linked,kept,fun _ => ⟨head,tail⟩⟩
  obtain ⟨head,tail,nodes,unlink,linked,kept,ends⟩ := unlinked
  obtain ⟨removed,_⟩ := discount_removed represents linked kept ends
  refine ⟨_,?_,⟨reset_represents removed.represents,removed.outside,removed.data⟩,start_points⟩
  rw [remove_node,unlink]
  rfl

-- A fresh node is outside the chain, and does not change it.
theorem new_node_outside (represents : Represents list cells) (fresh : list.nodes node = none) :
    node ∉ addresses cells := fun member => linked_there represents.linked member fresh

theorem new_node_represents (represents : Represents list cells) (outside : node ∉ addresses cells) :
    Represents (list.new_node node data) cells := by
  refine {represents with linked := linked_congr (fun a member => ?_) represents.linked}
  refine Function.update_of_ne ?_ _ _
  rintro rfl
  exact outside member

theorem free_node_represents (represents : Represents list cells) (outside : node ∉ addresses cells) :
    Represents (list.free_node node) cells := by
  refine {represents with linked := linked_congr (fun a member => ?_) represents.linked}
  refine Function.update_of_ne ?_ _ _
  rintro rfl
  exact outside member

-- A node with its data that the chain has not got yet.
structure Loose (list : LinkedList D) (cells : List (Addr × D)) (cell : Addr × D) : Prop where
  here : list.nodes cell.1 = some ⟨cell.2,none,none⟩
  outside : cell.1 ∉ addresses cells

theorem new_node_loose (outside : node ∉ addresses cells) :
    Loose (list.new_node node data) cells (node,data) := ⟨Function.update_self _ _ _,outside⟩

theorem push_head_spec (represents : Represents list cells) (loose : Loose list cells cell)
    (more : cells ≠ []) : ∃ nodes,
    list.push_head cell.1 = some (list.relinked (some cell.1) list.tail nodes).reset_cur_node ∧
      Linked nodes none (cell :: cells) none := by
  cases cells with
  | nil => exact absurd rfl more
  | cons next rest =>
    have head : list.head = some next.1 := represents.head
    have next_there : (list.nodes next.1).map Node.data = some next.2 :=
      congrArg (Option.map Node.data) represents.linked.1
    have apart : some next.1 ≠ some cell.1 := fun same =>
      loose.outside (by rw [← Option.some.inj same]; simp)
    have still : set_prev list.nodes (some next.1) (some cell.1) cell.1 = some ⟨cell.2,none,none⟩ :=
      (set_prev_other apart).trans loose.here
    refine ⟨set_next (set_prev list.nodes (some next.1) (some cell.1)) (some cell.1) (some next.1),
      ?_,?_⟩
    · unfold push_head
      rw [head]
      show (write_prev (list.relinked list.head list.tail list.nodes) next.1 (some cell.1)).bind _ = _
      rw [write_prev_spec next_there,Option.bind_some,
        write_next_spec (congrArg (Option.map Node.data) still)]
      rfl
    · have chain : Linked list.nodes none ([] ++ next :: rest) none := represents.linked
      refine linked_insertion chain represents.nodup loose.outside ?_ ?_
      · rw [set_next_here,still]
        rfl
      · intro a other
        exact set_next_other fun same => other (Option.some.inj same).symm

theorem push_tail_spec (represents : Represents list cells) (loose : Loose list cells cell)
    (more : cells ≠ []) : ∃ nodes,
    list.push_tail cell.1 = some (list.relinked list.head (some cell.1) nodes).reset_cur_node ∧
      Linked nodes none (cells ++ [cell]) none := by
  rcases List.eq_nil_or_concat cells with rfl | ⟨before,prev,rfl⟩
  · exact absurd rfl more
  · rw [List.concat_eq_append] at *
    have tail : list.tail = some prev.1 := by rw [represents.tail,last_concat]
    have apart : some prev.1 ≠ some cell.1 := fun same =>
      loose.outside (by rw [← Option.some.inj same]; simp)
    have still : set_next list.nodes (some prev.1) (some cell.1) cell.1 = some ⟨cell.2,none,none⟩ :=
      (set_next_other apart).trans loose.here
    refine ⟨set_prev (set_next list.nodes (some prev.1) (some cell.1)) (some cell.1) (some prev.1),
      ?_,?_⟩
    · unfold push_tail
      rw [tail]
      show (write_next (list.relinked list.head list.tail list.nodes) prev.1 (some cell.1)).bind _ = _
      rw [write_next_spec (cell_data represents.linked),Option.bind_some,
        write_prev_spec (congrArg (Option.map Node.data) still)]
      rfl
    · have linked := represents.linked
      have nodup := represents.nodup
      have outside := loose.outside
      rw [← List.append_nil (before ++ [prev])] at linked nodup outside
      refine linked_insertion linked nodup outside ?_ ?_
      · rw [set_prev_here,still,last_concat]
        rfl
      · intro a other
        rw [last_concat]
        exact set_prev_other fun same => other (Option.some.inj same).symm

theorem push_inner_spec {target : Addr × D} (represents : Represents list (left ++ target :: right))
    (loose : Loose list (left ++ target :: right) cell) (more : left ≠ []) : ∃ nodes,
    list.push_inner target.1 cell.1 = some (list.relinked list.head list.tail nodes) ∧
      Linked nodes none (left ++ cell :: target :: right) none := by
  have linked := represents.linked
  obtain ⟨prev,before⟩ := ends_last more
  have target_here : list.nodes target.1 = some ⟨target.2,some prev,first right none⟩ := by
    rw [linked_cell linked,before]
  obtain ⟨_,_,apart⟩ := nodup_parts represents.nodup
  have outside := loose.outside
  rw [addresses_append,List.mem_append,not_or] at outside
  have not_target : some cell.1 ≠ some target.1 := fun same =>
    outside.2 (by rw [Option.some.inj same]; simp)
  have not_prev : some cell.1 ≠ some prev := fun same =>
    outside.1 (Option.some.inj same ▸ last_member before)
  have prev_target : some prev ≠ some target.1 := fun same =>
    apart prev (last_member before) (by rw [Option.some.inj same]; simp)
  obtain ⟨prev_node,prev_there⟩ := Option.ne_none_iff_exists'.mp
    (linked_there (linked_append.mp linked).1 (last_member before))
  -- The chain's own nodes while the fresh one gets its links.
  have kept : ∀ {a}, some cell.1 ≠ some a →
      set_prev (set_next list.nodes (some cell.1) (some target.1)) (some cell.1) (some prev) a =
        list.nodes a := fun other => (set_prev_other other).trans (set_next_other other)
  have placed : set_prev (set_next list.nodes (some cell.1) (some target.1)) (some cell.1) (some prev)
      cell.1 = some ⟨cell.2,some prev,some target.1⟩ := by
    rw [set_prev_here,set_next_here,loose.here]
    rfl
  refine ⟨set_prev (set_next (set_prev (set_next list.nodes (some cell.1) (some target.1))
    (some cell.1) (some prev)) (some prev) (some cell.1)) (some target.1) (some cell.1),?_,?_⟩
  · unfold push_inner
    show (write_next (list.relinked list.head list.tail list.nodes) cell.1 (some target.1)).bind _ = _
    rw [write_next_spec (congrArg (Option.map Node.data) loose.here),Option.bind_some]
    simp only [relinked_nodes,set_next_other not_target,target_here,Option.bind_eq_bind,
      Option.bind_some]
    rw [write_prev_spec (set_next_data.trans (congrArg (Option.map Node.data) loose.here)),
      Option.bind_some]
    simp only [relinked_nodes,kept not_target,target_here,Option.bind_some]
    rw [write_next_spec (congrArg (Option.map Node.data) ((kept not_prev).trans prev_there)),
      Option.bind_some]
    have data_there : (set_next (set_prev (set_next list.nodes (some cell.1) (some target.1))
        (some cell.1) (some prev)) (some prev) (some cell.1) target.1).map Node.data =
        some target.2 := by
      rw [set_next_data,kept not_target,target_here]
      rfl
    exact write_prev_spec data_there
  · refine linked_insertion linked represents.nodup loose.outside ?_ ?_
    · rw [set_prev_other (Ne.symm not_target),set_next_other (Ne.symm not_prev),placed,before]
      rfl
    · intro a other
      rw [before]
      exact set_prev_congr (set_next_congr (kept fun same => other (Option.some.inj same).symm))

end LinkedList

end Libcplus
