import Libcplus.Llist.Edits
import Libcplus.Sequence

namespace Libcplus
open DoublyLinked Typedef

variable {D : Type}

namespace LinkedList
variable {list : LinkedList D} {cells done rest : List (Addr × D)} {fuel : Nat}

def items (cells : List (Addr × D)) : List D := cells.map Prod.snd

-- The node of the first item accepted.
def holder (found : D → Bool) (cells : List (Addr × D)) : Option Addr :=
  (cells.find? fun cell => found cell.2).map Prod.fst

section Search
variable {found : D → Bool} {cell : Addr × D}

theorem holder_accepted (accepted : found cell.2 = true) : holder found (cell :: rest) = some cell.1 := by
  simp [holder,accepted]

theorem holder_refused (refused : found cell.2 = false) :
    holder found (cell :: rest) = holder found rest := by
  simp [holder,refused]

-- The loop of the searches, with `done` behind it.
theorem seek_spec (found : D → Bool) (represents : Represents list (done ++ rest))
    (index : list.cur_index = done.length) (leads : LeadsTo (done ++ rest) list.current done.length)
    (enough : rest.length < fuel) : ∃ link,
    seek found fuel list = some
      (list.moved link (done.length + Sequence.stop found (items rest) : Nat),holder found rest) ∧
      LeadsTo (done ++ rest) link (done.length + Sequence.stop found (items rest)) := by
  have stays : list.moved list.current (done.length : Nat) = list := by rw [← index,moved_self]
  induction rest generalizing list done fuel with
  | nil =>
    cases fuel with
    | zero => cases enough
    | succ fuel =>
      have reads : list.get_current = some (address (done ++ []) (done.length + 0)) :=
        reads_link represents leads
      rw [address_right] at reads
      refine ⟨list.current,?_,leads⟩
      rw [seek,reads]
      exact congrArg (fun list => some (list,none)) stays.symm
  | cons cell rest ih =>
    cases fuel with
    | zero => cases enough
    | succ fuel =>
      have reads : list.get_current = some (address (done ++ cell :: rest) (done.length + 0)) :=
        reads_link represents leads
      have here : list.nodes cell.1 = some ⟨cell.2,last none done,first rest none⟩ :=
        linked_cell represents.linked
      rw [address_right] at reads
      have at_cell : list.get_current = some (some cell.1) := reads
      unfold seek
      rw [at_cell]
      simp only [Option.bind_eq_bind,Option.bind_some,here]
      cases accepted : found cell.2 with
      | true =>
        have place : Sequence.stop found (items (cell :: rest)) = 0 := Sequence.stop_accepted accepted
        rw [place,holder_accepted accepted]
        exact ⟨list.current,congrArg (fun list => some (list,some cell.1)) stays.symm,leads⟩
      | false =>
        rw [holder_refused accepted]
        cases rest with
        | nil =>
          have place : Sequence.stop found (items [cell]) = 0 := Sequence.stop_single
          rw [place]
          exact ⟨list.current,congrArg (fun list => some (list,none)) stays.symm,leads⟩
        | cons next rest =>
          have place : Sequence.stop found (items (cell :: next :: rest)) =
              Sequence.stop found (items (next :: rest)) + 1 := Sequence.stop_refused accepted
          have behind : done ++ cell :: next :: rest = (done ++ [cell]) ++ next :: rest := by simp
          have one_more : (done ++ [cell]).length = done.length + 1 := by simp
          obtain ⟨node,step,there⟩ := step_next_spec represents leads (by simp)
          rw [behind,← one_more] at there
          rw [behind] at represents ⊢
          obtain ⟨link,sought,ends⟩ := ih (moved_represents represents)
            (show list.cur_index + 1 = _ by rw [one_more,index]; rfl) there
            (Nat.le_of_succ_le_succ enough) (by rw [moved_moved,one_more,index]; rfl)
          have total : (done ++ [cell]).length + Sequence.stop found (items (next :: rest)) =
              done.length + Sequence.stop found (items (cell :: next :: rest)) := by omega
          rw [total,moved_moved] at sought
          rw [total] at ends
          refine ⟨link,?_,ends⟩
          show Option.bind list.step_next (fun list => seek found fuel list) = _
          rw [step]
          exact sought

theorem search_spec (found : D → Bool) (represents : Represents list cells) : ∃ link,
    seek found (list.count + 1) list.reset_cur_node = some
      (list.moved link (Sequence.stop found (items cells) : Nat),holder found cells) ∧
      LeadsTo cells link (Sequence.stop found (items cells)) := by
  have chain : Represents list.reset_cur_node ([] ++ cells) := reset_represents represents
  obtain ⟨link,sought,ends⟩ := seek_spec found chain rfl rfl
    (show cells.length < list.count + 1 by rw [represents.count]; omega)
  have total : ([] : List (Addr × D)).length + Sequence.stop found (items cells) =
      Sequence.stop found (items cells) := Nat.zero_add _
  rw [total] at sought ends
  exact ⟨link,sought,ends⟩

end Search

theorem free_from_spec {front : Option Addr} (list : LinkedList D)
    (linked : Linked list.nodes front cells none) (nodup : (addresses cells).Nodup)
    (enough : cells.length ≤ fuel) : ∃ nodes,
    free_from fuel list (first cells none) = some (list.relinked list.head list.tail nodes) := by
  induction cells generalizing list front fuel with
  | nil => exact ⟨list.nodes,by cases fuel <;> rfl⟩
  | cons cell rest ih =>
    cases fuel with
    | zero => cases enough
    | succ fuel =>
      obtain ⟨here,later⟩ := linked
      obtain ⟨apart,rest_nodup⟩ := List.nodup_cons.mp nodup
      have kept : Linked (list.free_node cell.1).nodes (some cell.1) rest none := by
        refine linked_congr (fun a member => Function.update_of_ne ?_ _ _) later
        rintro rfl
        exact apart member
      obtain ⟨nodes,freed⟩ := ih (list.free_node cell.1) kept rest_nodup (Nat.le_of_succ_le_succ enough)
      refine ⟨nodes,?_⟩
      show (list.nodes cell.1).bind _ = _
      rw [here]
      exact freed

theorem clear_spec (represents : Represents list cells) : ∃ after,
    list.cplus_llist_clear = some (after,CPLUS_SUCCESS) ∧ Represents after [] ∧ Points after [] 0 := by
  obtain ⟨nodes,freed⟩ := free_from_spec list represents.linked represents.nodup
    (Nat.le_of_eq represents.count.symm)
  unfold cplus_llist_clear
  rw [represents.head,freed]
  exact ⟨_,rfl,⟨trivial,List.nodup_nil,rfl,rfl,rfl⟩,start_points⟩

-- Sorting moves the data, and no node.
section Sorting
variable {comparator : D → D → Int}

def greater (comparator : D → D → Int) (a b : D) : Bool := 0 < comparator a b

theorem swap_data_spec {left right : List (Addr × D)} {a b : Addr} {c d : D}
    (represents : Represents list (left ++ (a,c) :: (b,d) :: right)) : ∃ nodes,
    list.swap_data a b = some (list.relinked list.head list.tail nodes) ∧
      Represents (list.relinked list.head list.tail nodes) (left ++ (a,d) :: (b,c) :: right) := by
  obtain ⟨before,here,there,after⟩ := linked_append.mp represents.linked
  refine ⟨set_data (set_data list.nodes a d) b c,?_,?_⟩
  · unfold swap_data
    rw [here,there]
    rfl
  · have same : addresses (left ++ (a,d) :: (b,c) :: right) =
        addresses (left ++ (a,c) :: (b,d) :: right) := by simp
    refine ⟨linked_swap represents.linked represents.nodup,same ▸ represents.nodup,?_,?_,?_⟩
    · refine represents.head.trans ?_
      rw [first_append,first_append]
      rfl
    · refine represents.tail.trans ?_
      rw [last_append,last_append]
      rfl
    · refine represents.count.trans ?_
      rw [List.length_append,List.length_append]
      rfl

theorem sort_pass_spec (comparator : D → D → Int) (size : Nat) (represents : Represents list (done ++ rest)) :
    ∃ nodes after last,
      sort_pass comparator size list (first rest none) =
        some (list.relinked list.head list.tail nodes,last) ∧
      Represents (list.relinked list.head list.tail nodes) (done ++ after) ∧
      addresses after = addresses rest ∧
      items after = BubbleSort.pass (greater comparator) size (items rest) ∧
      (rest ≠ [] → last ≠ none) := by
  induction size generalizing list done rest with
  | zero =>
    refine ⟨list.nodes,rest,first rest none,?_,represents,rfl,?_,?_⟩
    · cases rest <;> rfl
    · cases rest <;> rfl
    · intro more
      obtain ⟨node,there⟩ := ends_first more
      rw [there]
      exact Option.some_ne_none node
  | succ size ih =>
    rcases rest with _ | ⟨⟨a,c⟩,_ | ⟨⟨b,d⟩,right⟩⟩
    · exact ⟨list.nodes,[],none,rfl,represents,rfl,rfl,fun more => absurd rfl more⟩
    · refine ⟨list.nodes,[(a,c)],some a,?_,represents,rfl,rfl,fun _ => Option.some_ne_none _⟩
      have here : list.nodes a = some ⟨c,last none done,none⟩ := linked_cell represents.linked
      show (list.nodes a).bind _ = _
      rw [here]
      rfl
    · obtain ⟨_,here,there,_⟩ := linked_append.mp represents.linked
      have unfolds : sort_pass comparator (size + 1) list (some a) =
          (if 0 < comparator c d then list.swap_data a b else some list).bind fun list =>
            sort_pass comparator size list (some b) := by
        rw [sort_pass,here]
        simp only [Option.bind_eq_bind,Option.bind_some,first]
        rw [there]
        by_cases swaps : 0 < comparator c d
        · simp only [Option.bind_some,if_pos swaps]
        · simp only [Option.bind_some,if_neg swaps]
      by_cases swaps : 0 < comparator c d
      · obtain ⟨nodes,swapped,chain⟩ := swap_data_spec represents
        rw [show done ++ (a,d) :: (b,c) :: right = (done ++ [(a,d)]) ++ (b,c) :: right by simp] at chain
        obtain ⟨nodes',after,last,passed,chain',same,result,more⟩ := ih chain
        refine ⟨nodes',(a,d) :: after,last,?_,?_,?_,?_,fun _ => more (List.cons_ne_nil _ _)⟩
        · show sort_pass comparator (size + 1) list (some a) = _
          rw [unfolds,if_pos swaps,swapped]
          exact passed
        · rwa [List.append_assoc] at chain'
        · exact congrArg (a :: ·) same
        · show d :: items after = BubbleSort.pass _ (size + 1) (c :: d :: items right)
          rw [BubbleSort.pass,if_pos (show greater comparator c d = true from decide_eq_true swaps),
            result]
          rfl
      · rw [show done ++ (a,c) :: (b,d) :: right = (done ++ [(a,c)]) ++ (b,d) :: right by simp]
          at represents
        obtain ⟨nodes',after,last,passed,chain',same,result,more⟩ := ih represents
        refine ⟨nodes',(a,c) :: after,last,?_,?_,?_,?_,fun _ => more (List.cons_ne_nil _ _)⟩
        · show sort_pass comparator (size + 1) list (some a) = _
          rw [unfolds,if_neg swaps]
          exact passed
        · rwa [List.append_assoc] at chain'
        · exact congrArg (a :: ·) same
        · show c :: items after = BubbleSort.pass _ (size + 1) (c :: d :: items right)
          rw [BubbleSort.pass,if_neg (by simpa [greater] using swaps),result]
          rfl

theorem sort_rounds_spec (rounds size : Nat) (represents : Represents list cells) {node : Option Addr}
    (more : cells ≠ []) (going : node ≠ none) :
    ∃ sorted after, sort_rounds comparator rounds size list node = some sorted ∧
      Represents sorted after ∧ addresses after = addresses cells ∧
      items after = BubbleSort.rounds (greater comparator) rounds size (items cells) ∧
      sorted.current = list.current ∧ sorted.cur_index = list.cur_index := by
  induction rounds generalizing list cells size node with
  | zero => exact ⟨list,cells,rfl,represents,rfl,rfl,rfl,rfl⟩
  | succ rounds ih =>
    obtain ⟨start,rfl⟩ := Option.ne_none_iff_exists'.mp going
    have chain : Represents list ([] ++ cells) := represents
    obtain ⟨nodes,after,last,passed,kept,same,result,goes⟩ :=
      sort_pass_spec comparator size chain
    have after_more : after ≠ [] := by
      rintro rfl
      exact more (List.map_eq_nil_iff.mp same.symm)
    have noted : Represents {list.relinked list.head list.tail nodes with
        sort_count := (list.sort_count + 1) % 2^32} after :=
      ⟨kept.linked,kept.nodup,kept.head,kept.tail,kept.count⟩
    obtain ⟨sorted,final,ran,ends,still,arranged,link,index⟩ :=
      ih (size - 1) noted after_more (goes more)
    refine ⟨sorted,final,?_,ends,still.trans same,?_,link,index⟩
    · unfold sort_rounds
      rw [represents.head,passed]
      exact ran
    · rw [arranged,result]
      rfl

theorem sort_spec (comparator : D → D → Int) (represents : Represents list cells) : ∃ sorted after,
    list.llist_sort comparator = some sorted ∧ Represents sorted after ∧
      addresses after = addresses cells ∧
      items after = BubbleSort.bubble_sort (greater comparator) (items cells) ∧
      sorted.current = list.current ∧ sorted.cur_index = list.cur_index := by
  unfold llist_sort BubbleSort.bubble_sort
  rw [represents.count,items,List.length_map]
  by_cases more : cells = []
  · subst more
    exact ⟨list,[],rfl,represents,rfl,rfl,rfl,rfl⟩
  · obtain ⟨node,there⟩ := ends_first more
    rw [represents.head]
    exact sort_rounds_spec _ _ represents more (by rw [there]; exact Option.some_ne_none node)

end Sorting

-- No address is given out twice.
def Distinct (allocs : Nat → Option Addr) : Prop :=
  ∀ i j a, allocs i = some a → allocs j = some a → i = j

section Collect
variable {allocs : Nat → Option Addr} {k : Nat} {target : LinkedList D} {copies : List (Addr × D)}

def granted (allocs : Nat → Option Addr) (k : Nat) : Bool := (allocs k).isSome

-- The list that the accepted items are copied to, after `k` requests for a node.
structure Copied (allocs : Nat → Option Addr) (k : Nat) (target : LinkedList D)
    (copies : List (Addr × D)) : Prop where
  represents : Represents target copies
  taken : ∀ a ∈ addresses copies, ∃ j < k, allocs j = some a

def Gathers (allocs : Nat → Option Addr) (k : Nat) :
    Option (LinkedList D) → Option (List D) → Prop
  | none,none => True
  | some target,some got => ∃ copies, Copied allocs k target copies ∧ items copies = got
  | _,_ => False

theorem empty_represents : Represents (llist_initialize_object : LinkedList D) [] :=
  ⟨trivial,List.nodup_nil,rfl,rfl,rfl⟩

theorem gathers_target {target : Option (LinkedList D)} {got : Option (List D)}
    (gathers : Gathers allocs k target got) : ∃ copies,
    Copied allocs k (target.getD llist_initialize_object) copies ∧ items copies = got.getD [] := by
  cases target with
  | none =>
    cases got with
    | none => exact ⟨[],⟨empty_represents,nofun⟩,rfl⟩
    | some got => cases gathers
  | some target =>
    cases got with
    | none => cases gathers
    | some got => exact gathers

theorem copy_spec (copied : Copied allocs k target copies) (distinct : Distinct allocs) {copy : Addr}
    (alloc : allocs k = some copy) (data : D) : ∃ after,
    (target.new_node copy data).push_at target.count copy = some (after,CPLUS_SUCCESS) ∧
      Copied allocs (k + 1) after (copies ++ [(copy,data)]) := by
  have outside : copy ∉ addresses copies := by
    intro member
    obtain ⟨j,earlier,same⟩ := copied.taken copy member
    exact absurd (distinct j k copy same alloc) (by omega)
  have chain : Represents (target.new_node copy data) (copies ++ []) := by
    rw [List.append_nil]
    exact new_node_represents copied.represents outside
  have loose : Loose (target.new_node copy data) (copies ++ []) (copy,data) := by
    rw [List.append_nil]
    exact new_node_loose outside
  obtain ⟨after,pushed,represents,_⟩ := push_end_spec chain loose (.inr rfl)
  refine ⟨after,?_,represents,?_⟩
  · rw [copied.represents.count]
    exact pushed
  · intro a member
    rw [addresses_append,List.mem_append] at member
    rcases member with early | late
    · obtain ⟨j,earlier,same⟩ := copied.taken a early
      exact ⟨j,by omega,same⟩
    · obtain rfl := List.mem_singleton.mp late
      exact ⟨k,by omega,alloc⟩

theorem copy_data_spec (comparator : D → Int) (distinct : Distinct allocs)
    {target : Option (LinkedList D)} {got : Option (List D)} (gathers : Gathers allocs k target got)
    (data : D) : ∃ k' after got', copy_data comparator allocs k data target = some (k',after) ∧
      Gathers allocs k' after got' ∧ ∀ rest,
      Sequence.gather (granted allocs) k got ((data :: rest).filter (accepts comparator)) =
        Sequence.gather (granted allocs) k' got' (rest.filter (accepts comparator)) := by
  unfold copy_data
  cases accepted : accepts comparator data with
  | false =>
    refine ⟨k,target,got,if_neg Bool.false_ne_true,gathers,fun rest => ?_⟩
    rw [List.filter_cons_of_neg (by simp [accepted])]
  | true =>
    obtain ⟨copies,copied,same⟩ := gathers_target gathers
    have filtered : ∀ rest, (data :: rest).filter (accepts comparator) =
        data :: rest.filter (accepts comparator) := fun rest => List.filter_cons_of_pos accepted
    rw [if_pos rfl]
    cases alloc : allocs k with
    | none =>
      refine ⟨k + 1,_,some (got.getD []),rfl,⟨copies,⟨copied.represents,?_⟩,same⟩,fun rest => ?_⟩
      · intro a member
        obtain ⟨j,earlier,taken⟩ := copied.taken a member
        exact ⟨j,by omega,taken⟩
      · rw [filtered,Sequence.gather_refused (by simp [granted,alloc])]
    | some copy =>
      obtain ⟨after,pushed,more⟩ := copy_spec copied distinct alloc data
      refine ⟨k + 1,some after,some (got.getD [] ++ [data]),?_,⟨_,more,?_⟩,fun rest => ?_⟩
      · simp only [pushed,Option.map_some]
      · rw [items,List.map_append,← items,same]
        rfl
      · rw [filtered,Sequence.gather_granted (by simp [granted,alloc])]

theorem collect_spec (comparator : D → Int) (distinct : Distinct allocs)
    (represents : Represents list (done ++ rest)) (index : list.cur_index = done.length)
    (leads : LeadsTo (done ++ rest) list.current done.length) (enough : rest.length < fuel)
    {target : Option (LinkedList D)} {got : Option (List D)} (gathers : Gathers allocs k target got) :
    ∃ link k' final, collect comparator allocs fuel k list target =
        some (list.moved link (done.length + (rest.length - 1) : Nat),final) ∧
      LeadsTo (done ++ rest) link (done.length + (rest.length - 1)) ∧
      Gathers allocs k' final
        (Sequence.gather (granted allocs) k got ((items rest).filter (accepts comparator))) := by
  have stays : list.moved list.current (done.length : Nat) = list := by rw [← index,moved_self]
  induction rest generalizing list done fuel k target got with
  | nil =>
    cases fuel with
    | zero => cases enough
    | succ fuel =>
      have reads : list.get_current = some (address (done ++ []) (done.length + 0)) :=
        reads_link represents leads
      rw [address_right] at reads
      refine ⟨list.current,k,target,?_,leads,gathers⟩
      rw [collect,reads]
      exact congrArg (fun list => some (list,target)) stays.symm
  | cons cell rest ih =>
    cases fuel with
    | zero => cases enough
    | succ fuel =>
      have reads : list.get_current = some (address (done ++ cell :: rest) (done.length + 0)) :=
        reads_link represents leads
      have here : list.nodes cell.1 = some ⟨cell.2,last none done,first rest none⟩ :=
        linked_cell represents.linked
      rw [address_right] at reads
      have at_cell : list.get_current = some (some cell.1) := reads
      obtain ⟨k',after,got',copied,still,carries⟩ := copy_data_spec comparator distinct gathers cell.2
      unfold collect
      rw [at_cell,show items (cell :: rest) = cell.2 :: items rest from rfl,carries]
      simp only [Option.bind_eq_bind,Option.bind_some,here,copied]
      cases rest with
      | nil =>
        exact ⟨list.current,k',after,congrArg (fun list => some (list,after)) stays.symm,leads,still⟩
      | cons next rest =>
        have behind : done ++ cell :: next :: rest = (done ++ [cell]) ++ next :: rest := by simp
        have one_more : (done ++ [cell]).length = done.length + 1 := by simp
        obtain ⟨node,step,there⟩ := step_next_spec represents leads (by simp)
        rw [behind,← one_more] at there
        rw [behind] at represents ⊢
        obtain ⟨link,k'',final,ran,ends,result⟩ := ih (moved_represents represents)
          (show list.cur_index + 1 = _ by rw [one_more,index]; rfl) there
          (Nat.le_of_succ_le_succ enough) still (by rw [moved_moved,one_more,index]; rfl)
        have total : (done ++ [cell]).length + ((next :: rest).length - 1) =
            done.length + ((cell :: next :: rest).length - 1) := by simp; omega
        rw [total,moved_moved] at ran
        rw [total] at ends
        refine ⟨link,k'',final,?_,ends,result⟩
        show Option.bind list.step_next (fun list => collect comparator allocs fuel k' list after) = _
        rw [step]
        exact ran

end Collect

end LinkedList

end Libcplus
