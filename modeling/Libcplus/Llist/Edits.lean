import Libcplus.Llist.Represents

namespace Libcplus
open DoublyLinked Typedef

variable {D : Type}

-- The link in the node behind a position, not in the node in front of it.
def Link.backward : Link → Bool
  | .prev _ => true
  | _ => false

namespace LinkedList
variable {list : LinkedList D} {cells left right : List (Addr × D)} {cell : Addr × D} {k : Nat}

-- Going to `index` leaves the cursor on a link in front of the node there.
def Ahead (list : LinkedList D) (index : Int) : Prop :=
  list.cur_index < index ∨ list.cur_index = index ∧ list.current.backward = false

instance (list : LinkedList D) (index : Int) : Decidable (list.Ahead index) :=
  inferInstanceAs (Decidable (_ ∨ _))

-- Where the cursor of the list stands after an edit between `left` and the rest
-- of `cells`: at the head after an edit at an end, otherwise on the link that
-- the search came by, which still leads to the node it led to.
structure Shifted (list after : LinkedList D) (cells : List (Addr × D)) (i p : Nat) : Prop where
  index : after.cur_index = i
  ahead : list.Ahead i → LeadsTo cells after.current i
  behind : ¬ list.Ahead i → LeadsTo cells after.current p

theorem is_empty_iff (represents : Represents list cells) : list.is_empty ↔ cells = [] := by
  unfold is_empty
  rw [represents.count,List.length_eq_zero_iff]

theorem address_left {i : Nat} (before : i < left.length) :
    address (left ++ right) i = address left i := by
  unfold address
  rw [List.getElem?_append_left before]

theorem address_right (i : Nat) : address (left ++ right) (left.length + i) = address right i := by
  unfold address
  rw [List.getElem?_append_right (by omega),Nat.add_sub_cancel_left]

-- The link by which an interior position was reached, and what it leads to once
-- a node stands in front of that position, or is gone from it.
theorem insertion_leads {link : Link} {target : Addr × D} (more : left ≠ [])
    (leads : LeadsTo (left ++ target :: right) link left.length) :
    LeadsTo (left ++ cell :: target :: right) link
      (if link.backward then left.length + 1 else left.length) := by
  have front := List.length_pos_iff.mpr more
  cases link with
  | head => exact absurd (show left.length = 0 from leads) (by omega)
  | next node =>
    obtain ⟨j,there,place⟩ := leads
    rw [address_left (by omega)] at there
    refine ⟨j,?_,place⟩
    rwa [address_left (by omega)]
  | prev node =>
    have there : address (left ++ target :: right) (left.length + 1) = some node := leads
    show address (left ++ cell :: target :: right) (left.length + 2) = some node
    rw [address_right] at there ⊢
    exact there

theorem removal_leads {link : Link} (more : left ≠ [])
    (leads : LeadsTo (left ++ cell :: right) link left.length) :
    LeadsTo (left ++ right) link (if link.backward then left.length - 1 else left.length) := by
  have front := List.length_pos_iff.mpr more
  cases link with
  | head => exact absurd (show left.length = 0 from leads) (by omega)
  | next node =>
    obtain ⟨j,there,place⟩ := leads
    rw [address_left (by omega)] at there
    refine ⟨j,?_,place⟩
    rwa [address_left (by omega)]
  | prev node =>
    have there : address (left ++ cell :: right) (left.length + 1) = some node := leads
    show address (left ++ right) (left.length - 1 + 1) = some node
    rw [address_right] at there
    rw [Nat.sub_add_cancel front,← Nat.add_zero left.length,address_right]
    exact there

-- get_node_of comes by such a link unless it stops in front of the cursor, or
-- finds the cursor there on a prev link already.
theorem backward_iff (points : Points list cells k) {i : Nat} {link : Link}
    (forwards : k < i → ∃ node, link = .next node) (backwards : i < k → ∃ node, link = .prev node)
    (stays : i = k → link = list.current) : link.backward = false ↔ list.Ahead i := by
  unfold Ahead
  rw [points.index]
  rcases Nat.lt_trichotomy k i with less | rfl | more
  · obtain ⟨node,rfl⟩ := forwards less
    exact ⟨fun _ => .inl (by omega),fun _ => rfl⟩
  · rw [stays rfl]
    refine ⟨fun kind => .inr ⟨rfl,kind⟩,?_⟩
    rintro (less | ⟨_,kind⟩)
    · omega
    · exact kind
  · obtain ⟨node,rfl⟩ := backwards more
    refine ⟨fun kind => Bool.noConfusion kind,?_⟩
    rintro (less | ⟨same,_⟩)
    · omega
    · omega

def grown (list : LinkedList D) : LinkedList D := {list with count := list.count + 1}

-- The chain and its ends with a node more.
theorem counted {head tail : Option Addr} {nodes : Heap Addr D} {link : Link} {index : Int}
    (represents : Represents list (left ++ right)) (outside : cell.1 ∉ addresses (left ++ right))
    (linked : Linked nodes none (left ++ cell :: right) none)
    (is_head : head = first (left ++ cell :: right) none)
    (is_tail : tail = last none (left ++ cell :: right)) :
    Represents ((list.relinked head tail nodes).moved link index).grown (left ++ cell :: right) := by
  refine ⟨linked,?_,is_head,is_tail,?_⟩
  · obtain ⟨left_nodup,right_nodup,apart⟩ := nodup_parts represents.nodup
    rw [addresses_append,List.mem_append,not_or] at outside
    rw [addresses_append]
    refine List.nodup_append.mpr ⟨left_nodup,List.nodup_cons.mpr ⟨outside.2,right_nodup⟩,?_⟩
    rintro a early b late rfl
    rcases List.mem_cons.mp late with rfl | further
    · exact outside.1 early
    · exact apart a early further
  · show list.count + 1 = _
    rw [represents.count,List.length_append,List.length_append,List.length_cons]
    omega

-- An end is where the source looks at the index alone.
theorem push_end_spec (represents : Represents list (left ++ right))
    (loose : Loose list (left ++ right) cell) (at_end : left = [] ∨ right = []) : ∃ after,
    list.push_at left.length cell.1 = some (after,CPLUS_SUCCESS) ∧
      Represents after (left ++ cell :: right) ∧ Points after (left ++ cell :: right) 0 := by
  have reaches : ∃ head tail nodes, list.link_at left.length cell.1 =
        some ((list.relinked head tail nodes).moved .head 0,CPLUS_SUCCESS) ∧
      Linked nodes none (left ++ cell :: right) none ∧
      head = first (left ++ cell :: right) none ∧ tail = last none (left ++ cell :: right) := by
    unfold link_at
    by_cases no_left : left = []
    · subst no_left
      by_cases no_right : right = []
      · subst no_right
        rw [if_pos ((is_empty_iff represents).mpr rfl)]
        exact ⟨_,_,list.nodes,rfl,⟨loose.here,trivial⟩,rfl,rfl⟩
      · rw [if_neg fun none => no_right ((is_empty_iff represents).mp none),if_pos (show (([] : List (Addr × D)).length : Int) = 0 from rfl)]
        obtain ⟨nodes,pushed,linked⟩ := push_head_spec represents loose no_right
        refine ⟨_,_,nodes,?_,linked,rfl,represents.tail.trans (last_front no_right _)⟩
        rw [pushed]
        rfl
    · obtain rfl : right = [] := at_end.resolve_left no_left
      have front := List.length_pos_iff.mpr no_left
      rw [List.append_nil] at represents loose
      rw [if_neg fun none => no_left ((is_empty_iff represents).mp none),
        if_neg (show ¬ (left.length : Int) = 0 by omega),
        if_pos (congrArg Nat.cast represents.count)]
      obtain ⟨nodes,pushed,linked⟩ := push_tail_spec represents loose no_left
      refine ⟨list.head,some cell.1,nodes,?_,linked,?_,last_concat.symm⟩
      · rw [pushed]
        rfl
      · rw [represents.head,first_append]
        exact first_behind no_left _
  obtain ⟨head,tail,nodes,pushed,linked,is_head,is_tail⟩ := reaches
  refine ⟨((list.relinked head tail nodes).moved .head 0).grown,?_,
    counted represents loose.outside linked is_head is_tail,rfl,rfl,.inr rfl⟩
  rw [push_at,pushed]
  rfl

theorem push_inner_at {target : Addr × D} (represents : Represents list (left ++ target :: right))
    (points : Points list (left ++ target :: right) k)
    (loose : Loose list (left ++ target :: right) cell) (more : left ≠ []) : ∃ after,
    list.push_at left.length cell.1 = some (after,CPLUS_SUCCESS) ∧
      Represents after (left ++ cell :: target :: right) ∧
      Shifted list after (left ++ cell :: target :: right) left.length (left.length + 1) := by
  have front := List.length_pos_iff.mpr more
  have length : (left ++ target :: right).length = left.length + (right.length + 1) := by simp
  obtain ⟨link,found,leads,forwards,backwards,stays⟩ :=
    get_node_of_spec represents points (show left.length < _ by omega)
  have kind := backward_iff points forwards backwards stays
  have here : address (left ++ target :: right) left.length = some target.1 := address_right 0
  have at_target : Represents (list.moved link left.length) (left ++ target :: right) :=
    moved_represents represents
  obtain ⟨nodes,pushed,linked⟩ := push_inner_spec at_target ⟨loose.here,loose.outside⟩ more
  have head : list.head = first (left ++ cell :: target :: right) none := by
    rw [represents.head,first_append,first_append]
    exact first_behind more _
  have tail : list.tail = last none (left ++ cell :: target :: right) := by
    rw [represents.tail,last_append,last_append]
    rfl
  have moved : LeadsTo (left ++ cell :: target :: right) link
      (if link.backward then left.length + 1 else left.length) := insertion_leads more leads
  refine ⟨((list.relinked list.head list.tail nodes).moved link left.length).grown,?_,
    counted represents loose.outside linked head tail,rfl,?_,?_⟩
  · have some := mt (is_empty_iff represents).mp (by simp)
    have count := represents.count
    unfold push_at link_at
    rw [if_neg some,if_neg (show ¬ (left.length : Int) = 0 by omega),
      if_neg (show ¬ (list.count : Int) = left.length by omega),found,here]
    simp only [Option.bind_eq_bind,Option.bind_some,pushed]
    rfl
  · intro ahead
    rwa [kind.mpr ahead] at moved
  · intro behind
    rwa [eq_true_of_ne_false (mt kind.mp behind)] at moved

theorem starts (index : list.cur_index = 0) (current : list.current = .head) : Points list cells 0 :=
  ⟨index,by rw [current]; rfl,.inr rfl⟩

-- What pop_of does once the node is out of the chain.
theorem pop_of_settles {index : Int} {unlinked : LinkedList D} {rest : List (Addr × D)}
    (some_left : ¬ list.is_empty) (unlink : list.unlink_of index = some (unlinked,some cell.1))
    (removed : Removed unlinked.discount cell rest) : ∃ after,
    list.pop_of index = some (after,some cell.1) ∧ Removed after cell rest ∧
      (after = unlinked.discount ∨ rest = [] ∧ after = unlinked.discount.reset_cur_node) := by
  unfold pop_of
  rw [if_neg some_left,unlink]
  by_cases none_left : unlinked.discount.is_empty
  · refine ⟨unlinked.discount.reset_cur_node,congrArg some (congrArg (·,_) (if_pos none_left)),
      ⟨reset_represents removed.represents,removed.outside,removed.data⟩,.inr ⟨?_,rfl⟩⟩
    exact (is_empty_iff removed.represents).mp none_left
  · exact ⟨_,congrArg some (congrArg (·,_) (if_neg none_left)),removed,.inl rfl⟩

-- An end that was taken off leaves the list at its start.
theorem pop_of_start {index : Int} {unlinked : LinkedList D} {rest : List (Addr × D)} (some_left : ¬ list.is_empty)
    (unlink : list.unlink_of index = some (unlinked,some cell.1)) (removed : Removed unlinked.discount cell rest)
    (starting : unlinked.discount.cur_index = 0) (current : unlinked.discount.current = .head) : ∃ after,
    list.pop_of index = some (after,some cell.1) ∧ Removed after cell rest ∧ Points after rest 0 := by
  obtain ⟨after,popped,gone,same | ⟨_,same⟩⟩ := pop_of_settles some_left unlink removed
  · rw [same] at popped gone
    exact ⟨_,popped,gone,starts starting current⟩
  · rw [same] at popped gone
    exact ⟨_,popped,gone,start_points⟩

theorem pop_front_spec (represents : Represents list (cell :: right)) : ∃ after,
    list.pop_of 0 = some (after,some cell.1) ∧ Removed after cell right ∧ Points after right 0 := by
  have some_left := mt (is_empty_iff represents).mp (by simp)
  obtain ⟨nodes,unlink,linked,kept⟩ := unlink_head_spec represents
  have chain : Represents list.reset_cur_node ([] ++ cell :: right) := reset_represents represents
  obtain ⟨removed,index,current⟩ := discount_removed chain linked kept
    fun more => ⟨rfl,represents.tail.trans (last_front more _)⟩
  have unlinked : list.unlink_of 0 =
      some (list.reset_cur_node.relinked (first right none) list.tail nodes,some cell.1) := by
    unfold unlink_of
    rw [if_pos rfl,represents.head]
    show (list.unlink_head cell.1).bind _ = _
    rw [unlink]
    rfl
  exact pop_of_start some_left unlinked removed index current

theorem pop_back_spec (represents : Represents list (left ++ [cell])) : ∃ after,
    list.pop_of list.count = some (after,some cell.1) ∧ Removed after cell left ∧
      Points after left 0 := by
  have some_left := mt (is_empty_iff represents).mp (by simp)
  obtain ⟨nodes,unlink,linked,kept⟩ := unlink_tail_spec represents
  have chain : Represents list.reset_cur_node (left ++ cell :: []) := reset_represents represents
  have linked' : Linked nodes none (left ++ []) none := by rwa [List.append_nil]
  obtain ⟨removed,index,current⟩ := discount_removed chain linked' kept fun more => by
    rw [List.append_nil] at more ⊢
    exact ⟨represents.head.trans (by rw [first_append]; exact first_behind more _),rfl⟩
  have unlinked : list.unlink_of list.count =
      some (list.reset_cur_node.relinked list.head (last none left) nodes,some cell.1) := by
    unfold unlink_of
    rw [if_neg fun none : (list.count : Int) = 0 => some_left (Int.ofNat.inj none),if_pos rfl,
      represents.tail,last_concat]
    show (list.unlink_tail cell.1).bind _ = _
    rw [unlink]
    rfl
  rw [List.append_nil] at removed
  exact pop_of_start some_left unlinked removed index current

theorem pop_inner_of (represents : Represents list (left ++ cell :: right))
    (points : Points list (left ++ cell :: right) k) (more : left ≠ []) (further : right ≠ []) :
    ∃ after, list.pop_of left.length = some (after,some cell.1) ∧ Removed after cell (left ++ right) ∧
      Shifted list after (left ++ right) left.length (left.length - 1) := by
  have front := List.length_pos_iff.mpr more
  have back := List.length_pos_iff.mpr further
  have length : (left ++ cell :: right).length = left.length + (right.length + 1) := by simp
  have some_left := mt (is_empty_iff represents).mp (by simp)
  obtain ⟨link,found,leads,forwards,backwards,stays⟩ :=
    get_node_of_spec represents points (show left.length < _ by omega)
  have kind := backward_iff points forwards backwards stays
  have here : address (left ++ cell :: right) left.length = some cell.1 := address_right 0
  have there : Represents (list.moved link left.length) (left ++ cell :: right) :=
    moved_represents represents
  obtain ⟨prev,before⟩ := ends_last more
  obtain ⟨next,behind⟩ := ends_first further
  obtain ⟨nodes,unlink,linked,kept⟩ := unlink_inner_spec there before behind
  obtain ⟨removed,index,current⟩ := discount_removed there linked kept fun _ =>
    ⟨(there.head.trans (by rw [first_append,first_append]; exact first_behind more _)),
      there.tail.trans (by rw [last_append,last_append]; exact last_front further _)⟩
  have unlinked : list.unlink_of left.length =
      some ((list.moved link left.length).relinked list.head list.tail nodes,some cell.1) := by
    have count := represents.count
    unfold unlink_of
    rw [if_neg (show ¬ (left.length : Int) = 0 by omega),
      if_neg (show ¬ (list.count : Int) = left.length by omega),found,here]
    simp only [Option.bind_eq_bind,Option.bind_some,unlink]
    rfl
  obtain ⟨after,popped,gone,same | ⟨none,_⟩⟩ := pop_of_settles some_left unlinked removed
  · rw [same] at popped gone
    have at_link : ((list.moved link left.length).relinked list.head list.tail nodes).discount.current =
      link := current
    have moved := removal_leads more leads
    refine ⟨_,popped,gone,index,?_,?_⟩
    · intro ahead
      rw [at_link]
      rwa [kind.mpr ahead] at moved
    · intro stays
      rw [at_link]
      rwa [eq_true_of_ne_false (mt kind.mp stays)] at moved
  · exact absurd (List.append_eq_nil_iff.mp none).1 more

end LinkedList

end Libcplus
