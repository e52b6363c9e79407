import Mathlib.Data.List.Nodup

namespace Linearization
universe u v w
variable {ι : Type u} {O : Type v} {R S : Type w}

-- A history of calls and returns, each operation under the serial number of its call.
inductive Event (ι : Type u) (O : Type v) (R : Type w) where
  | call (client : ι) (serial : Nat) (op : O)
  | ret (client : ι) (serial : Nat) (answer : R)
  deriving DecidableEq

structure Entry (O : Type v) (R : Type w) where
  serial : Nat
  op : O
  answer : R

-- One operation had returned before the other was called.
def Precedes (history : List (Event ι O R)) (a b : Nat) : Prop :=
  ∃ front i answer back j op, history = front ++ .ret i a answer :: back ∧ .call j b op ∈ back

-- The operations in turn, one after the other, with the answers that they get.
def Legal (meaning : S → O → S × R) : S → List (Entry O R) → Prop
  | _,[] => True
  | s,e :: rest => (meaning s e.op).2 = e.answer ∧ Legal meaning (meaning s e.op).1 rest

def final (meaning : S → O → S × R) (s : S) (order : List (Entry O R)) : S :=
  order.foldl (fun s e => (meaning s e.op).1) s

-- A sequential execution that explains the history: of operations called there, with
-- all that have returned and their answers, and in an order that real time allows.
structure Explains (meaning : S → O → S × R) (origin : S) (history : List (Event ι O R))
    (order : List (Entry O R)) : Prop where
  nodup : (order.map Entry.serial).Nodup
  called : ∀ e ∈ order, ∃ i, .call i e.serial e.op ∈ history
  returned : ∀ i k answer, .ret i k answer ∈ history → ∃ e ∈ order, e.serial = k ∧ e.answer = answer
  legal : Legal meaning origin order
  ordered : order.Pairwise fun a b => ¬ Precedes history b.serial a.serial

def Linearizable (meaning : S → O → S × R) (origin : S) (history : List (Event ι O R)) : Prop :=
  ∃ order, Explains meaning origin history order

variable {meaning : S → O → S × R} {origin : S} {history : List (Event ι O R)} {order : List (Entry O R)}
  {a b k : Nat} {i : ι} {op : O} {answer : R}

theorem explains_nil : Explains meaning origin ([] : List (Event ι O R)) [] :=
  ⟨List.nodup_nil,nofun,nofun,trivial,List.Pairwise.nil⟩

theorem legal_snoc {e : Entry O R} (legal : Legal meaning origin order)
    (gives : (meaning (final meaning origin order) e.op).2 = e.answer) :
    Legal meaning origin (order ++ [e]) := by
  induction order generalizing origin with
  | nil => exact ⟨gives,trivial⟩
  | cons first rest ih =>
    obtain ⟨here,later⟩ := legal
    exact ⟨here,ih later gives⟩

theorem final_snoc (e : Entry O R) :
    final meaning origin (order ++ [e]) = (meaning (final meaning origin order) e.op).1 := by
  unfold final
  rw [List.foldl_append]
  rfl

-- A new event adds to the order of real time only in front of a call.
theorem precedes_snoc {event : Event ι O R} (precedes : Precedes (history ++ [event]) a b)
    (other : ∀ j op, event ≠ .call j b op) : Precedes history a b := by
  obtain ⟨front,i,answer,back,j,op,split,member⟩ := precedes
  rcases List.eq_nil_or_concat back with rfl | ⟨rest,last,rfl⟩
  · cases member
  · rw [List.concat_eq_append,← List.cons_append,← List.append_assoc] at split
    obtain ⟨same,tail⟩ := List.append_inj' split rfl
    obtain rfl := List.singleton_inj.mp tail
    rw [List.concat_eq_append] at member
    rcases List.mem_append.mp member with early | here
    · exact ⟨front,i,answer,rest,j,op,same,early⟩
    · exact absurd (List.mem_singleton.mp here).symm (other j op)

-- What the events do to an execution that explains what was before them.
theorem Explains.call (explains : Explains meaning origin history order)
    (fresh : ∀ e ∈ order, e.serial ≠ k) : Explains meaning origin (history ++ [.call i k op]) order where
  nodup := explains.nodup
  called e member := by
    obtain ⟨j,there⟩ := explains.called e member
    exact ⟨j,List.mem_append_left _ there⟩
  returned j n answer member := by
    rcases List.mem_append.mp member with early | last
    · exact explains.returned j n answer early
    · cases List.mem_singleton.mp last
  legal := explains.legal
  ordered := by
    apply explains.ordered.imp_of_mem
    intro a b first _ apart precedes
    refine apart (precedes_snoc precedes ?_)
    rintro j op ⟨⟩
    exact fresh a first rfl

theorem Explains.ret (explains : Explains meaning origin history order)
    (there : ∃ e ∈ order, e.serial = k ∧ e.answer = answer) :
    Explains meaning origin (history ++ [.ret i k answer]) order where
  nodup := explains.nodup
  called e member := by
    obtain ⟨j,there⟩ := explains.called e member
    exact ⟨j,List.mem_append_left _ there⟩
  returned j n given member := by
    rcases List.mem_append.mp member with early | last
    · exact explains.returned j n given early
    · cases List.mem_singleton.mp last
      exact there
  legal := explains.legal
  ordered := by
    apply explains.ordered.imp
    intro a b apart precedes
    exact apart (precedes_snoc precedes fun j op => nofun)

-- An operation takes effect: it comes last, and has not returned yet.
theorem Explains.decide (explains : Explains meaning origin history order) (called : .call i k op ∈ history)
    (fresh : ∀ e ∈ order, e.serial ≠ k) (gives : (meaning (final meaning origin order) op).2 = answer) :
    Explains meaning origin history (order ++ [⟨k,op,answer⟩]) where
  nodup := by
    rw [List.map_append,List.nodup_append]
    refine ⟨explains.nodup,List.nodup_singleton _,?_⟩
    intro a first b last same
    obtain ⟨e,member,rfl⟩ := List.mem_map.mp first
    obtain rfl : b = k := List.mem_singleton.mp last
    exact fresh e member same
  called e member := by
    rcases List.mem_append.mp member with early | last
    · exact explains.called e early
    · obtain rfl := List.mem_singleton.mp last
      exact ⟨i,called⟩
  returned j n given member := by
    obtain ⟨e,there,same⟩ := explains.returned j n given member
    exact ⟨e,List.mem_append_left _ there,same⟩
  legal := legal_snoc explains.legal gives
  ordered := by
    rw [List.pairwise_append]
    refine ⟨explains.ordered,List.pairwise_singleton _ _,?_⟩
    intro a member b last precedes
    obtain rfl := List.mem_singleton.mp last
    obtain ⟨front,j,given,back,_,_,split,_⟩ := precedes
    have there : .ret j k given ∈ history := by
      rw [split]
      exact List.mem_append_right _ List.mem_cons_self
    obtain ⟨e,earlier,same,_⟩ := explains.returned j k given there
    exact fresh e earlier same

end Linearization
