import Mathlib.Data.List.Basic

-- A history of events, some of which turn a thing on and some off.
namespace History
universe u
variable {β : Type u} {on off : β → Bool} {initially : Prop} {history before between : List β} {m a : β}

-- It was turned on, or was on initially, and not off again after that.
def Since (initially : Prop) (on off : β → Bool) (history : List β) : Prop :=
  (initially ∧ ∀ m ∈ history, off m = false) ∨
  ∃ before m after, history = before ++ m :: after ∧ on m = true ∧ ∀ later ∈ after, off later = false

theorem since_nil (initial : initially) : Since initially on off [] := .inl ⟨initial,by simp⟩

theorem since_on (turned : on m = true) : Since initially on off (history ++ [m]) :=
  .inr ⟨history,m,[],rfl,turned,nofun⟩

theorem Since.snoc (since : Since initially on off history) (quiet : off m = false) :
    Since initially on off (history ++ [m]) := by
  have kept : ∀ {l : List β}, (∀ b ∈ l, off b = false) → ∀ b ∈ l ++ [m], off b = false := by
    intro l all b member
    rcases List.mem_append.mp member with early | last
    · exact all b early
    · rw [List.mem_singleton.mp last]
      exact quiet
  rcases since with ⟨initial,all⟩ | ⟨before,n,after,rfl,turned,all⟩
  · exact .inl ⟨initial,kept all⟩
  · exact .inr ⟨before,n,after ++ [m],by simp,turned,kept all⟩

theorem Since.weaken {less : β → Bool} (since : Since initially on off history)
    (fewer : ∀ m, less m = true → off m = true) : Since initially on less history := by
  have quiet : ∀ m, off m = false → less m = false := by
    intro m clear
    by_contra turned
    have := fewer m (by simpa using turned)
    simp [clear] at this
  rcases since with ⟨initial,all⟩ | ⟨before,n,after,split,turned,all⟩
  · exact .inl ⟨initial,fun m member => quiet m (all m member)⟩
  · exact .inr ⟨before,n,after,split,turned,fun m member => quiet m (all m member)⟩

theorem since_snoc :
    Since initially on off (history ++ [m]) ↔ on m = true ∨ (off m = false ∧ Since initially on off history) := by
  constructor
  · rintro (⟨initial,all⟩ | ⟨before,n,after,split,turned,all⟩)
    · right
      exact ⟨all m (by simp),.inl ⟨initial,fun b member => all b (List.mem_append_left _ member)⟩⟩
    · rcases List.eq_nil_or_concat after with rfl | ⟨front,last,rfl⟩
      · obtain ⟨_,tail⟩ := List.append_inj' split rfl
        obtain rfl := List.singleton_inj.mp tail
        exact .inl turned
      · rw [List.concat_eq_append,← List.cons_append,← List.append_assoc] at split
        obtain ⟨rfl,tail⟩ := List.append_inj' split rfl
        obtain rfl := List.singleton_inj.mp tail
        right
        exact ⟨all m (by simp),.inr ⟨before,n,front,rfl,turned,fun b member => all b (by simp [member])⟩⟩
  · rintro (turned | ⟨quiet,since⟩)
    · exact since_on turned
    · exact since.snoc quiet

-- Once it was turned off, only an event after that has turned it on.
theorem Since.after (since : Since initially on off (before ++ a :: between)) (cleared : off a = true)
    (differ : on a = false) : ∃ m ∈ between, on m = true := by
  have absurd_of : ∀ {l : List β}, a ∈ l → ¬ ∀ m ∈ l, off m = false := by
    intro l member all
    have := all a member
    simp [cleared] at this
  rcases since with ⟨_,all⟩ | ⟨front,m,later,split,turned,all⟩
  · exact absurd all (absurd_of (List.mem_append_right _ List.mem_cons_self))
  · rcases List.append_eq_append_iff.mp split with ⟨gap,rfl,rest⟩ | ⟨gap,rfl,rest⟩
    · cases gap with
      | nil =>
        obtain ⟨rfl,_⟩ := List.cons.inj rest
        simp [differ] at turned
      | cons b gap =>
        obtain ⟨rfl,rfl⟩ := List.cons.inj rest
        exact ⟨m,List.mem_append_right _ List.mem_cons_self,turned⟩
    · cases gap with
      | nil =>
        obtain ⟨rfl,_⟩ := List.cons.inj rest
        simp [differ] at turned
      | cons b gap =>
        obtain ⟨rfl,rfl⟩ := List.cons.inj rest
        exact absurd all (absurd_of (List.mem_append_right _ List.mem_cons_self))

end History
