import Libcplus.Linearization
import Libcplus.Llist.Session

namespace Libcplus
open DoublyLinked Transition LinkedList Typedef

variable {D : Type}

-- The calls in question; `alloc` is what the allocation of the node will give.
inductive Request (D : Type) where
  | push_back (data : Option D) (alloc : Option Addr)
  | pop_back
  | pop_front
  deriving DecidableEq, Repr

-- What they mean on a plain sequence.
def Request.meaning (s : Sequence D) : Request D → Sequence D × Answer D
  | .push_back data alloc => s.push s.items.length data alloc
  | .pop_back => s.pop s.items.length
  | .pop_front => s.pop 0

-- Where a client is: in front of the get_size for its index, of the CHECK_IN_INTERVAL
-- with a get_size of its own, of the lock, or of the return.
inductive Client (D : Type) where
  | idle
  | sizing (serial : Nat) (request : Request D)
  | checking (serial : Nat) (request : Request D) (index : Int)
  | locking (serial : Nat) (request : Request D) (index : Int)
  | returning (serial : Nat) (request : Request D) (answer : Answer D)

-- A thread-safe list and its clients, with the history of their calls and returns.
-- `list` is none after a fault.
structure Shared (ι D : Type) where
  list : Option (LinkedList D)
  clients : ι → Client D
  calls : Nat
  history : List (Linearization.Event ι (Request D) (Answer D))

namespace Shared
variable {ι : Type} [DecidableEq ι]

def start : Shared ι D := ⟨some llist_initialize_object,fun _ => .idle,0,[]⟩

-- pop_front has its index, the others ask for the size.
def enter (serial : Nat) : Request D → Client D
  | .pop_front => .checking serial .pop_front 0
  | request => .sizing serial request

-- What CHECK_NOT_NULL and CHECK_IN_INTERVAL return, where they return.
def refusal (list : LinkedList D) (index : Int) : Request D → Option (Answer D)
  | .push_back none _ => some (.res CPLUS_FAIL)
  | .push_back (some _) _ => if 0 > index ∨ index > list.count then some (.res CPLUS_FAIL) else none
  | .pop_back | .pop_front => if 0 > index ∨ index > list.count then some (.data none) else none

-- Between the lock and the unlock of push_at and pop_of.
def locked (list : LinkedList D) (index : Int) : Request D → Option (LinkedList D × Answer D)
  | .push_back (some data) (some node) => ((list.new_node node data).push_at index node).map (.map id .res)
  | .push_back _ _ => some (list,.res CPLUS_FAIL)
  | .pop_back | .pop_front => ((list.pop_of index).bind answer_free).map (.map id .data)

-- A node from the heap holds no other, and the list stays below 2^31 - 1 nodes.
def Supplied (list : LinkedList D) : Request D → Prop
  | .push_back _ alloc => ∀ node ∈ alloc, list.nodes node = none ∧ list.count + 1 < 2^31 - 1
  | _ => True

instance (list : LinkedList D) (request : Request D) : Decidable (Supplied list request) :=
  match request with
  | .push_back _ alloc => inferInstanceAs (Decidable (∀ node ∈ alloc, _))
  | .pop_back | .pop_front => isTrue trivial

inductive Action (ι D : Type) where
  | call (i : ι) (request : Request D)
  | size (i : ι)
  | check (i : ι)
  | lock (i : ι)
  | ret (i : ι)

def put (s : Shared ι D) (i : ι) (client : Client D) : Shared ι D :=
  {s with clients := Function.update s.clients i client}

def call (s : Shared ι D) (i : ι) (request : Request D) : Shared ι D :=
  {s.put i (enter s.calls request) with
    calls := s.calls + 1
    history := s.history ++ [.call i s.calls request]}

def check (s : Shared ι D) (list : LinkedList D) (i : ι) (serial : Nat) (request : Request D) (index : Int) :
    Shared ι D :=
  match refusal list index request with
  | some answer => s.put i (.returning serial request answer)
  | none => s.put i (.locking serial request index)

def lock (s : Shared ι D) (list : LinkedList D) (i : ι) (serial : Nat) (request : Request D) (index : Int) :
    Shared ι D :=
  match locked list index request with
  | some (list,answer) => {s.put i (.returning serial request answer) with list := some list}
  | none => {s with list := none}

def ret (s : Shared ι D) (i : ι) (serial : Nat) (answer : Answer D) : Shared ι D :=
  {s.put i .idle with history := s.history ++ [.ret i serial answer]}

-- A step of one client. The list is read and written by one of them at a time.
def act (s : Shared ι D) (list : LinkedList D) : Action ι D → Option (Shared ι D)
  | .call i request =>
    match s.clients i with
    | .idle => some (s.call i request)
    | _ => none
  | .size i =>
    match s.clients i with
    | .sizing serial request => some (s.put i (.checking serial request list.count))
    | _ => none
  | .check i =>
    match s.clients i with
    | .checking serial request index => some (s.check list i serial request index)
    | _ => none
  | .lock i =>
    match s.clients i with
    | .locking serial request index =>
      if Supplied list request then some (s.lock list i serial request index) else none
    | _ => none
  | .ret i =>
    match s.clients i with
    | .returning serial _ answer => some (s.ret i serial answer)
    | _ => none

def advance (s : Shared ι D) (action : Action ι D) : Option (Shared ι D) :=
  s.list.bind fun list => s.act list action

-- No fault, and the answers are those of some sequential execution.
def Linear (s : Shared ι D) : Prop :=
  s.list ≠ none ∧ Linearization.Linearizable Request.meaning (.start []) s.history

-- The index that a call got from the size is the end of the list, still, when the check
-- refuses it for being too large and when the node is linked or unlinked. A list
-- without items has no other place, and one with a single item no other last item.
def Refusable (list : LinkedList D) (index : Int) : Request D → Prop
  | .push_back data alloc => data = none ∨ alloc = none ∨ index ≤ list.count
  | .pop_back => index ≤ list.count ∨ list.count = 0
  | .pop_front => True

def AtEnd (list : LinkedList D) (index : Int) : Request D → Prop
  | .push_back data alloc => data = none ∨ alloc = none ∨ index = list.count ∨ list.count = 0
  | .pop_back => index = list.count ∨ list.count = 0 ∨ index = 0 ∧ list.count = 1
  | .pop_front => True

instance (list : LinkedList D) (index : Int) (request : Request D) : Decidable (Refusable list index request) :=
  match request with
  | .push_back data alloc => inferInstanceAs (Decidable (data = none ∨ alloc = none ∨ index ≤ list.count))
  | .pop_back => inferInstanceAs (Decidable (index ≤ list.count ∨ list.count = 0))
  | .pop_front => isTrue trivial

instance (list : LinkedList D) (index : Int) (request : Request D) : Decidable (AtEnd list index request) :=
  match request with
  | .push_back data alloc =>
    inferInstanceAs (Decidable (data = none ∨ alloc = none ∨ index = list.count ∨ list.count = 0))
  | .pop_back => inferInstanceAs (Decidable (index = list.count ∨ list.count = 0 ∨ index = 0 ∧ list.count = 1))
  | .pop_front => isTrue trivial

def InTime (s : Shared ι D) : Action ι D → Prop
  | .check i =>
    match s.list,s.clients i with
    | some list,.checking _ request index => Refusable list index request
    | _,_ => True
  | .lock i =>
    match s.list,s.clients i with
    | some list,.locking _ request index => AtEnd list index request
    | _,_ => True
  | _ => True

instance (s : Shared ι D) (action : Action ι D) : Decidable (s.InTime action) := by
  unfold InTime
  split
  · split <;> infer_instance
  · split <;> infer_instance
  · infer_instance

variable {list after : LinkedList D} {q : Sequence D} {index : Int} {request : Request D} {answer : Answer D}

theorem pop_nothing (empty : q.items = []) : q.pop q.items.length = (.start [],.data none) := by
  have removed : q.remove 0 = .start [] := by
    unfold Sequence.remove
    rw [dif_neg fun inside => Nat.lt_irrefl 0 inside.1,empty]
    rfl
  unfold Sequence.pop
  rw [empty]
  exact Prod.ext removed rfl

theorem pop_single (single : q.items.length = 1) : q.pop q.items.length = q.pop 0 := by
  have removed : q.remove 1 = q.remove 0 := by
    unfold Sequence.remove Sequence.slot
    rw [dif_neg (by omega),dif_neg (by omega),if_pos single.symm,if_neg (by omega)]
  have slot : q.slot 1 = q.slot 0 := by
    unfold Sequence.slot
    rw [if_pos single.symm,if_neg (by omega)]
  unfold Sequence.pop
  rw [if_pos (by omega),if_pos (by omega),single]
  exact Prod.ext removed (congrArg (fun i => Answer.data q.items[i]?) slot)

theorem means_of {called : Option (LinkedList D × Answer D)} {meant : Sequence D × Answer D}
    (kept : Keeps called (meant.map id some)) :
    ∃ after, called = some (after,meant.2) ∧ Refines after meant.1 := by
  obtain ⟨after,answer,ran,refines,given⟩ := kept
  obtain rfl := given meant.2 rfl
  exact ⟨after,ran,refines⟩

-- A refusal is what the call means.
theorem refusal_means (refines : Refines list q) (nonneg : 0 ≤ index) (front : request = .pop_front → index = 0)
    (refused : refusal list index request = some answer) (fine : Refusable list index request) :
    Refines list (request.meaning q).1 ∧ (request.meaning q).2 = answer := by
  have count := refines_count refines
  cases request with
  | push_back data alloc =>
    cases data with
    | none =>
      cases refused
      exact ⟨refines,rfl⟩
    | some data =>
      have refused : (if 0 > index ∨ index > list.count then some (Answer.res CPLUS_FAIL) else none) =
        some answer := refused
      split at refused
      · cases refused
        rcases fine with no_data | rfl | within
        · cases no_data
        · exact ⟨refines,rfl⟩
        · omega
      · cases refused
  | pop_back =>
    have refused : (if 0 > index ∨ index > list.count then some (Answer.data none) else none) =
      some answer := refused
    split at refused
    · cases refused
      have empty : q.items = [] := by
        apply List.length_eq_zero_iff.mp
        rcases fine with within | none_left <;> omega
      have nothing : Request.meaning q .pop_back = (.start [],.data none) := pop_nothing empty
      rw [nothing]
      exact ⟨(pop_empty refines empty 0).2,rfl⟩
    · cases refused
  | pop_front =>
    obtain rfl := front rfl
    have refused : (if (0 : Int) > 0 ∨ (0 : Int) > list.count then some (Answer.data none) else none) =
      some answer := refused
    rw [if_neg (by omega)] at refused
    cases refused

-- What happens under the lock is what the call means.
theorem push_means (refines : Refines list q) {data : D} {node : Addr} (fresh : list.nodes node = none)
    (at_end : index = list.count ∨ list.count = 0) : ∃ after,
    locked list index (.push_back (some data) (some node)) =
        some (after,(q.push q.items.length (some data) (some node)).2) ∧
      Refines after (q.push q.items.length (some data) (some node)).1 := by
  have count := refines_count refines
  have same : (list.new_node node data).push_at index node =
      (list.new_node node data).push_at q.items.length node := by
    rcases at_end with last | empty
    · rw [last,count]
    · have no_items : (list.new_node node data).is_empty := empty
      unfold push_at link_at
      rw [if_pos no_items,if_pos no_items]
  have kept := means_of (push_keeps refines q.items.length (some data) (some node)
    (by rintro a ⟨⟩; exact fresh) (fun inner => absurd inner.2 (by omega)))
  rw [push_called refines (Nat.le_refl _),← same] at kept
  exact kept

theorem pop_means (refines : Refines list q) {i : Nat} (ends : i = 0 ∨ i = q.items.length) : ∃ after,
    ((list.pop_of i).bind answer_free).map (.map id .data) = some (after,(q.pop i).2) ∧
      Refines after (q.pop i).1 := by
  have count := refines_count refines
  rw [← pop_called refines (by omega)]
  exact means_of (pop_keeps refines i (by omega) (fun inner => absurd inner (by unfold Interior; omega)))

theorem locked_means (refines : Refines list q) (front : request = .pop_front → index = 0)
    (supplied : Supplied list request) (at_end : AtEnd list index request) : ∃ after,
    locked list index request = some (after,(request.meaning q).2) ∧ Refines after (request.meaning q).1 := by
  have count := refines_count refines
  cases request with
  | push_back data alloc =>
    cases data with
    | none => exact ⟨list,rfl,refines⟩
    | some data =>
      cases alloc with
      | none => exact ⟨list,rfl,refines⟩
      | some node =>
        apply push_means refines (supplied node rfl).1
        rcases at_end with no_data | no_node | at_end
        · cases no_data
        · cases no_node
        · exact at_end
  | pop_front =>
    obtain rfl := front rfl
    exact pop_means refines (.inl rfl)
  | pop_back =>
    rcases at_end with last | none_left | ⟨rfl,single⟩
    · rw [last,count]
      exact pop_means refines (.inr rfl)
    · have empty : q.items = [] := List.length_eq_zero_iff.mp (by omega)
      have nothing : Request.meaning q .pop_back = (.start [],.data none) := pop_nothing empty
      have stays : list.pop_of index = some (list,none) := if_pos none_left
      rw [nothing]
      refine ⟨list,?_,(pop_empty refines empty 0).2⟩
      unfold locked
      rw [stays]
      rfl
    · have same : Request.meaning q .pop_back = q.pop 0 := pop_single (by omega)
      rw [same]
      exact pop_means refines (.inl rfl)

def serial : Client D → Option Nat
  | .idle => none
  | .sizing k _ | .checking k _ _ | .locking k _ _ | .returning k _ _ => some k

section Invariant
open Linearization
variable {s t : Shared ι D} {history : List (Event ι (Request D) (Answer D))}
  {order : List (Entry (Request D) (Answer D))} {i j : ι} {k : Nat} {client : Client D}

-- A call that has had no effect yet.
def Open (history : List (Event ι (Request D) (Answer D))) (order : List (Entry (Request D) (Answer D))) (i : ι)
    (k : Nat) (request : Request D) : Prop := .call i k request ∈ history ∧ ∀ e ∈ order, e.serial ≠ k

def Holds (history : List (Event ι (Request D) (Answer D))) (order : List (Entry (Request D) (Answer D)))
    (i : ι) : Client D → Prop
  | .idle => True
  | .sizing k request => Open history order i k request ∧ request ≠ .pop_front
  | .checking k request index | .locking k request index =>
    Open history order i k request ∧ 0 ≤ index ∧ (request = .pop_front → index = 0)
  | .returning k _ answer => ∃ e ∈ order, e.serial = k ∧ e.answer = answer

-- The calls that have had their effect, in that order, explain the history, and lead to
-- what the list stands for.
structure Valid (s : Shared ι D) (current : LinkedList D) (order : List (Entry (Request D) (Answer D))) :
    Prop where
  list : s.list = some current
  refines : Refines current (final Request.meaning (.start []) order)
  explains : Explains Request.meaning (.start []) s.history order
  below : ∀ e ∈ order, e.serial < s.calls
  numbered : ∀ i k, serial (s.clients i) = some k → k < s.calls
  apart : ∀ i j k, serial (s.clients i) = some k → serial (s.clients j) = some k → i = j
  clients : ∀ i, Holds s.history order i (s.clients i)

omit [DecidableEq ι] in
theorem start_valid : Valid (start : Shared ι D) llist_initialize_object [] :=
  ⟨rfl,empty_refines,explains_nil,nofun,nofun,nofun,fun _ => trivial⟩

omit [DecidableEq ι] in
theorem Open.later {request : Request D} (opened : Open history order i k request)
    (event : Event ι (Request D) (Answer D)) : Open (history ++ [event]) order i k request :=
  ⟨List.mem_append_left _ opened.1,opened.2⟩

omit [DecidableEq ι] in
theorem Open.grow {request : Request D} {e : Entry (Request D) (Answer D)}
    (opened : Open history order i k request) (other : k ≠ e.serial) :
    Open history (order ++ [e]) i k request := by
  refine ⟨opened.1,fun entry member => ?_⟩
  rcases List.mem_append.mp member with early | last
  · exact opened.2 entry early
  · rw [List.mem_singleton.mp last]
    exact other.symm

omit [DecidableEq ι] in
theorem Holds.later (holds : Holds history order i client) (event : Event ι (Request D) (Answer D)) :
    Holds (history ++ [event]) order i client := by
  cases client with
  | idle => trivial
  | sizing k request => exact ⟨holds.1.later event,holds.2⟩
  | checking k request index => exact ⟨holds.1.later event,holds.2⟩
  | locking k request index => exact ⟨holds.1.later event,holds.2⟩
  | returning k request answer => exact holds

omit [DecidableEq ι] in
theorem Holds.grow {e : Entry (Request D) (Answer D)} (holds : Holds history order i client)
    (other : serial client ≠ some e.serial) : Holds history (order ++ [e]) i client := by
  cases client with
  | idle => trivial
  | sizing k request => exact ⟨holds.1.grow fun same => other (congrArg some same),holds.2⟩
  | checking k request index => exact ⟨holds.1.grow fun same => other (congrArg some same),holds.2⟩
  | locking k request index => exact ⟨holds.1.grow fun same => other (congrArg some same),holds.2⟩
  | returning k request answer =>
    obtain ⟨entry,member,same⟩ := holds
    exact ⟨entry,List.mem_append_left _ member,same⟩

theorem put_self : (s.put i client).clients i = client := Function.update_self ..

theorem put_other (apart : j ≠ i) : (s.put i client).clients j = s.clients j := Function.update_of_ne apart ..

-- A client keeps the serial number of its call until it returns.
theorem put_serial (kept : ∀ k, serial client = some k → serial (s.clients i) = some k)
    (there : serial ((s.put i client).clients j) = some k) : serial (s.clients j) = some k := by
  by_cases same : j = i
  · subst same
    apply kept
    rwa [put_self] at there
  · rwa [put_other same] at there

theorem put_clients {P : ι → Client D → Prop} (here : P i client) (others : ∀ j, j ≠ i → P j (s.clients j)) (j : ι) :
    P j ((s.put i client).clients j) := by
  by_cases same : j = i
  · subst same
    rwa [put_self]
  · rw [put_other same]
    exact others j same

theorem Valid.put (valid : Valid s list order) (kept : ∀ k, serial client = some k → serial (s.clients i) = some k)
    (holds : Holds s.history order i client) : Valid (s.put i client) list order where
  list := valid.list
  refines := valid.refines
  explains := valid.explains
  below := valid.below
  numbered j k there := valid.numbered j k (put_serial kept there)
  apart i j k here there := valid.apart i j k (put_serial kept here) (put_serial kept there)
  clients := put_clients holds fun j _ => valid.clients j

-- A call takes effect.
theorem Valid.decide (valid : Valid s list order) {request : Request D} (here : serial (s.clients i) = some k)
    (opened : Open s.history order i k request)
    (refines : Refines after (request.meaning (final Request.meaning (.start []) order)).1)
    (gives : (request.meaning (final Request.meaning (.start []) order)).2 = answer) :
    Valid {s.put i (.returning k request answer) with list := some after} after
      (order ++ [⟨k,request,answer⟩]) := by
  have kept : ∀ n, serial (.returning k request answer : Client D) = some n → serial (s.clients i) = some n :=
    fun n same => here.trans same
  refine ⟨rfl,?_,valid.explains.decide opened.1 opened.2 gives,?_,?_,?_,?_⟩
  · rw [final_snoc]
    exact refines
  · intro e member
    rcases List.mem_append.mp member with early | last
    · exact valid.below e early
    · rw [List.mem_singleton.mp last]
      exact valid.numbered i k here
  · intro j n there
    exact valid.numbered j n (put_serial kept there)
  · intro a b n first second
    exact valid.apart a b n (put_serial kept first) (put_serial kept second)
  · refine put_clients ⟨_,List.mem_append_right _ List.mem_cons_self,rfl,rfl⟩ fun j other => ?_
    refine (valid.clients j).grow fun same => other ?_
    exact valid.apart j i k same here

theorem Valid.call (valid : Valid s list order) (request : Request D) (idle : s.clients i = .idle) :
    Valid (s.call i request) list order := by
  have entered : serial (enter s.calls request) = some s.calls := by cases request <;> rfl
  have fresh : ∀ e ∈ order, e.serial ≠ s.calls := fun e member => Nat.ne_of_lt (valid.below e member)
  have numbers : ∀ j, (j = i ∧ serial ((s.call i request).clients j) = some s.calls) ∨
      j ≠ i ∧ serial ((s.call i request).clients j) = serial (s.clients j) := by
    intro j
    by_cases same : j = i
    · subst same
      exact .inl ⟨rfl,(congrArg serial put_self).trans entered⟩
    · exact .inr ⟨same,congrArg serial (put_other same)⟩
  refine ⟨valid.list,valid.refines,valid.explains.call fresh,?_,?_,?_,?_⟩
  · exact fun e member => Nat.lt_succ_of_lt (valid.below e member)
  · intro j n there
    rcases numbers j with ⟨_,new⟩ | ⟨_,old⟩
    · obtain rfl := Option.some.inj (new.symm.trans there)
      exact Nat.lt_succ_self _
    · exact Nat.lt_succ_of_lt (valid.numbered j n (old ▸ there))
  · intro a b n first second
    rcases numbers a with ⟨rfl,new⟩ | ⟨_,old⟩ <;> rcases numbers b with ⟨rfl,newer⟩ | ⟨_,older⟩
    · rfl
    · obtain rfl := Option.some.inj (new.symm.trans first)
      exact absurd (valid.numbered b _ (older ▸ second)) (Nat.lt_irrefl _)
    · obtain rfl := Option.some.inj (newer.symm.trans second)
      exact absurd (valid.numbered a _ (old ▸ first)) (Nat.lt_irrefl _)
    · exact valid.apart a b n (old ▸ first) (older ▸ second)
  · refine put_clients ?_ fun j _ => (valid.clients j).later _
    have opened : Open (s.history ++ [.call i s.calls request]) order i s.calls request :=
      ⟨List.mem_append_right _ List.mem_cons_self,fresh⟩
    cases request with
    | pop_front => exact ⟨opened,Int.le_refl 0,fun _ => rfl⟩
    | push_back data alloc => exact ⟨opened,nofun⟩
    | pop_back => exact ⟨opened,nofun⟩

theorem Valid.ret (valid : Valid s list order) {request : Request D}
    (here : s.clients i = .returning k request answer) : Valid (s.ret i k answer) list order := by
  have answered : ∃ e ∈ order, e.serial = k ∧ e.answer = answer := by
    have holds := valid.clients i
    rwa [here] at holds
  have left : Valid (s.put i .idle) list order := valid.put nofun trivial
  exact ⟨left.list,left.refines,left.explains.ret answered,left.below,left.numbered,left.apart,
    fun j => (left.clients j).later _⟩

-- A step of a client whose call is in time.
theorem step_valid {action : Action ι D} (valid : Valid s list order) (taken : advance s action = some t)
    (in_time : s.InTime action) : ∃ list order, Valid t list order := by
  have taken : s.act list action = some t := by
    unfold advance at taken
    rwa [valid.list] at taken
  cases action with
  | call i request =>
    unfold act at taken
    cases here : s.clients i with
    | idle =>
      simp only [here] at taken
      cases taken
      exact ⟨list,order,valid.call request here⟩
    | _ => simp [here] at taken
  | size i =>
    unfold act at taken
    have holds := valid.clients i
    cases here : s.clients i with
    | sizing k request =>
      simp only [here] at taken
      cases taken
      rw [here] at holds
      refine ⟨list,order,valid.put ?_ ⟨holds.1,by omega,fun front => absurd front holds.2⟩⟩
      intro n same
      rw [here]
      exact same
    | _ => simp [here] at taken
  | check i =>
    unfold act at taken
    have holds := valid.clients i
    cases here : s.clients i with
    | checking k request index =>
      simp only [here] at taken
      cases taken
      rw [here] at holds
      obtain ⟨opened,nonneg,front⟩ := holds
      have fine : Refusable list index request := by
        unfold InTime at in_time
        simp only [valid.list,here] at in_time
        exact in_time
      unfold check
      cases refused : refusal list index request with
      | some answer =>
        obtain ⟨kept,gives⟩ := refusal_means valid.refines nonneg front refused fine
        have decided := valid.decide (by rw [here]; rfl) opened kept gives
        rw [← valid.list] at decided
        exact ⟨list,_,decided⟩
      | none =>
        refine ⟨list,order,valid.put ?_ ⟨opened,nonneg,front⟩⟩
        intro n same
        rw [here]
        exact same
    | _ => simp [here] at taken
  | lock i =>
    unfold act at taken
    have holds := valid.clients i
    cases here : s.clients i with
    | locking k request index =>
      simp only [here] at taken
      split at taken
      · rename_i supplied
        cases taken
        rw [here] at holds
        obtain ⟨opened,nonneg,front⟩ := holds
        have at_end : AtEnd list index request := by
          unfold InTime at in_time
          simp only [valid.list,here] at in_time
          exact in_time
        obtain ⟨after,done,kept⟩ := locked_means valid.refines front supplied at_end
        unfold lock
        rw [done]
        exact ⟨after,_,valid.decide (by rw [here]; rfl) opened kept rfl⟩
      · cases taken
    | _ => simp [here] at taken
  | ret i =>
    unfold act at taken
    cases here : s.clients i with
    | returning k request answer =>
      simp only [here] at taken
      cases taken
      exact ⟨list,order,valid.ret here⟩
    | _ => simp [here] at taken

-- In a run where every call finds the end of the list where its size said it is, no
-- step faults, and every state's history is that of some sequential execution.
theorem linear_in_time {moves : List (Move (Shared ι D) (Action ι D))}
    (run : Run (Follows advance) start moves s) (met : Meets InTime moves) :
    s.Linear ∧ Throughout Linear moves := by
  have linear : ∀ s : Shared ι D, (∃ list order, Valid s list order) → s.Linear := by
    rintro s ⟨list,order,valid⟩
    refine ⟨?_,order,valid.explains⟩
    rw [valid.list]
    nofun
  obtain ⟨last,all⟩ := run.keeps (J := fun s => ∃ list order, Valid s list order) InTime ⟨_,_,start_valid⟩
    (fun ⟨_,_,valid⟩ taken in_time => step_valid valid taken in_time) met
  exact ⟨linear s last,all.imp linear⟩

end Invariant

section Runs

-- A push and a pop at the front overlap, then two pops at the back one after the other.
def timely_actions : List (Action Nat Nat) :=
  [.call 0 (.push_back (some 10) (some 1)),.call 1 .pop_front,.size 0,.check 1,.check 0,.lock 0,.lock 1,.ret 0,
   .call 0 (.push_back (some 20) (some 2)),.size 0,.ret 1,.call 1 .pop_back,.check 0,.lock 0,.size 1,.check 1,
   .lock 1,.ret 1,.ret 0,.call 1 .pop_back,.size 1,.check 1,.lock 1,.ret 1]

theorem timely_linear : ∃ moves s, Run (Follows advance) (start : Shared Nat Nat) moves s ∧
    moves.map Move.action = timely_actions ∧ s.Linear := by
  obtain ⟨moves,s,run,same,checked⟩ := Run.of_check advance (start : Shared Nat Nat) timely_actions
    (fun result => decide (Meets InTime result.1)) (by decide +kernel)
  exact ⟨moves,s,run,same,(linear_in_time run (of_decide_eq_true checked)).1⟩

-- Two items. A pop at the back has the index 2 and has passed its check, when another
-- takes the second item; then it walks over the end of the list.
def late_actions : List (Action Nat Nat) :=
  [.call 0 (.push_back (some 10) (some 1)),.size 0,.check 0,.lock 0,.ret 0,
   .call 0 (.push_back (some 20) (some 2)),.size 0,.check 0,.lock 0,.ret 0,.call 0 .pop_back,.size 0,.check 0,
   .call 1 .pop_back,.size 1,.check 1,.lock 1,.ret 1,.lock 0]

theorem late_pop_faults : ∃ moves s, Run (Follows advance) (start : Shared Nat Nat) moves s ∧
    moves.map Move.action = late_actions ∧ s.list.isNone ∧ ¬ s.Linear := by
  obtain ⟨moves,s,run,same,checked⟩ := Run.of_check advance (start : Shared Nat Nat) late_actions
    (fun result => result.2.list.isNone) (by decide +kernel)
  refine ⟨moves,s,run,same,checked,fun linear => linear.1 ?_⟩
  exact Option.isNone_iff_eq_none.mp checked

end Runs

end Shared

end Libcplus
