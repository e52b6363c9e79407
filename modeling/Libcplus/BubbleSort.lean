import Mathlib.Data.List.Basic

namespace BubbleSort
universe u
variable {D : Type u} (greater : D → D → Bool)

-- Compare `size` neighbours from the front on, and exchange those out of order.
def pass : Nat → List D → List D
  | size+1,a :: b :: rest =>
    if greater a b then b :: pass size (a :: rest) else a :: pass size (b :: rest)
  | _,items => items

def rounds : Nat → Nat → List D → List D
  | 0,_,items => items
  | count+1,size,items => rounds count (size - 1) (pass greater size items)

def bubble_sort (items : List D) : List D := rounds greater items.length items.length items

theorem pass_perm (size : Nat) (items : List D) : (pass greater size items).Perm items := by
  induction size generalizing items with
  | zero => cases items <;> exact .refl _
  | succ size ih =>
    match items with
    | [] => exact .refl _
    | [a] => exact .refl _
    | a :: b :: rest =>
      unfold pass
      split
      · exact ((ih (a :: rest)).cons b).trans (.swap a b rest)
      · exact (ih (b :: rest)).cons a

theorem rounds_perm (count size : Nat) (items : List D) :
    (rounds greater count size items).Perm items := by
  induction count generalizing size items with
  | zero => exact .refl _
  | succ count ih => exact (ih _ _).trans (pass_perm greater size items)

theorem bubble_sort_perm (items : List D) : (bubble_sort greater items).Perm items :=
  rounds_perm greater _ _ items

-- Items that never stand in for each other keep their order.
theorem pass_stable {alike : D → Bool} (tied : ∀ a b, alike a = true → alike b = true → greater a b = false)
    (size : Nat) (items : List D) : (pass greater size items).filter alike = items.filter alike := by
  induction size generalizing items with
  | zero => cases items <;> rfl
  | succ size ih =>
    match items with
    | [] => rfl
    | [a] => rfl
    | a :: b :: rest =>
      unfold pass
      split
      · rename_i swaps
        have apart : ¬ (alike a = true ∧ alike b = true) := fun both => by
          rw [tied a b both.1 both.2] at swaps
          cases swaps
        rw [List.filter_cons,ih,List.filter_cons,List.filter_cons,List.filter_cons]
        cases first : alike a <;> cases second : alike b <;> simp_all
      · rw [List.filter_cons,ih,← List.filter_cons]

theorem rounds_stable {alike : D → Bool} (tied : ∀ a b, alike a = true → alike b = true → greater a b = false)
    (count size : Nat) (items : List D) :
    (rounds greater count size items).filter alike = items.filter alike := by
  induction count generalizing size items with
  | zero => rfl
  | succ count ih => exact (ih _ _).trans (pass_stable greater tied size items)

theorem bubble_sort_stable {alike : D → Bool}
    (tied : ∀ a b, alike a = true → alike b = true → greater a b = false) (items : List D) :
    (bubble_sort greater items).filter alike = items.filter alike := rounds_stable greater tied _ _ items

theorem pass_sorted (size : Nat) (items : List D)
    (sorted : items.Pairwise fun a b => greater a b = false) : pass greater size items = items := by
  induction size generalizing items with
  | zero => cases items <;> rfl
  | succ size ih =>
    match items with
    | [] => rfl
    | [a] => rfl
    | a :: b :: rest =>
      obtain ⟨below,later⟩ := List.pairwise_cons.mp sorted
      rw [pass,if_neg (by simp [below b List.mem_cons_self]),ih _ later]

theorem rounds_fixed (count size : Nat) (items : List D)
    (sorted : items.Pairwise fun a b => greater a b = false) : rounds greater count size items = items := by
  induction count generalizing size with
  | zero => rfl
  | succ count ih => rw [rounds,pass_sorted greater size items sorted,ih]

-- What a comparison must satisfy to sort by.
structure Ordering : Prop where
  one_way : ∀ a b, greater a b = true → greater b a = false
  trans : ∀ a b c, greater a b = false → greater b c = false → greater a c = false

variable {greater}

theorem Ordering.self (ordering : Ordering greater) (a : D) : greater a a = false := by
  cases same : greater a a with
  | false => rfl
  | true => exact same.symm.trans (ordering.one_way a a same)

-- A pass over the part in front of a sorted rest moves that part's largest next to it.
theorem pass_parts (ordering : Ordering greater) (front back : List D) (some : front ≠ [])
    (below : ∀ a ∈ front, ∀ b ∈ back, greater a b = false) :
    ∃ before top, pass greater front.length (front ++ back) = before ++ top :: back ∧
      (before ++ [top]).Perm front ∧ ∀ a ∈ before, greater a top = false := by
  match front with
  | [] => exact absurd rfl some
  | [a] =>
    refine ⟨[],a,?_,.refl _,nofun⟩
    cases back with
    | nil => rfl
    | cons b rest =>
      have kept : greater a b = false := below a (by simp) b (by simp)
      simp [pass,kept]
  | a :: b :: rest =>
    by_cases swapped : greater a b = true
    · obtain ⟨before,top,result,perm,largest⟩ := pass_parts ordering (a :: rest) back nofun
        fun c member => below c (by
          rcases List.mem_cons.mp member with rfl | later
          · simp
          · simp [later])
      have first : greater a top = false := by
        rcases List.mem_append.mp (perm.symm.subset (List.mem_cons_self)) with early | same
        · exact largest a early
        · obtain rfl := List.mem_singleton.mp same
          exact ordering.self a
      refine ⟨b :: before,top,?_,?_,?_⟩
      · simp only [List.length_cons,List.cons_append] at result ⊢
        simp only [pass,swapped,if_true,result]
      · exact (perm.cons b).trans (.swap a b rest)
      · intro c member
        rcases List.mem_cons.mp member with rfl | later
        · exact ordering.trans c a top (ordering.one_way a c swapped) first
        · exact largest c later
    · have kept : greater a b = false := by simpa using swapped
      obtain ⟨before,top,result,perm,largest⟩ := pass_parts ordering (b :: rest) back nofun
        fun c member => below c (List.mem_cons_of_mem _ member)
      have first : greater b top = false := by
        rcases List.mem_append.mp (perm.symm.subset (List.mem_cons_self)) with early | same
        · exact largest b early
        · obtain rfl := List.mem_singleton.mp same
          exact ordering.self b
      refine ⟨a :: before,top,?_,perm.cons a,?_⟩
      · simp only [List.length_cons,List.cons_append] at result ⊢
        simp only [pass,kept,Bool.false_eq_true,if_false,result]
      · intro c member
        rcases List.mem_cons.mp member with rfl | later
        · exact ordering.trans c b top kept first
        · exact largest c later
  termination_by front.length

theorem rounds_sorted (ordering : Ordering greater) (front back : List D)
    (below : ∀ a ∈ front, ∀ b ∈ back, greater a b = false)
    (sorted : back.Pairwise fun a b => greater a b = false) :
    (rounds greater front.length front.length (front ++ back)).Pairwise
      fun a b => greater a b = false := by
  induction length : front.length generalizing front back with
  | zero =>
    obtain rfl := List.length_eq_zero_iff.mp length
    exact sorted
  | succ count ih =>
    obtain ⟨before,top,result,perm,largest⟩ := pass_parts ordering front back
      (List.length_pos_iff.mp (by omega)) below
    have size := perm.length_eq
    rw [List.length_append,List.length_singleton] at size
    rw [length] at result
    show (rounds greater count (count + 1 - 1) (pass greater (count + 1) (front ++ back))).Pairwise _
    rw [result,Nat.add_sub_cancel]
    have inside : ∀ a, a ∈ before ∨ a = top → a ∈ front := by
      intro a place
      apply perm.subset
      rcases place with early | rfl
      · exact List.mem_append_left _ early
      · exact List.mem_append_right _ (List.mem_singleton.mpr rfl)
    refine ih before (top :: back) (fun a early b member => ?_) ?_ (by omega)
    · rcases List.mem_cons.mp member with rfl | later
      · exact largest a early
      · exact below a (inside a (.inl early)) b later
    · exact List.pairwise_cons.mpr ⟨below top (inside top (.inr rfl)),sorted⟩

theorem bubble_sort_sorted (ordering : Ordering greater) (items : List D) :
    (bubble_sort greater items).Pairwise fun a b => greater a b = false := by
  have sorted := rounds_sorted ordering items [] nofun .nil
  rwa [List.append_nil] at sorted

theorem bubble_sort_fixed (ordering : Ordering greater) (items : List D) :
    bubble_sort greater items = items ↔ items.Pairwise fun a b => greater a b = false := by
  refine ⟨fun same => ?_,rounds_fixed greater _ _ items⟩
  rw [← same]
  exact bubble_sort_sorted ordering items

end BubbleSort
