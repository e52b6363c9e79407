import Libcplus.Transition
import Mathlib.Order.Bounds.Defs

-- One semaphore, and the calls of cplus_semaphore_push that are under way.
namespace Libcplus.Semaphore
open Transition

def SEMAPHORE_MAX_VALUE : Nat := 32767

-- The system's own limit, at which sem_post fails.
def SEM_VALUE_MAX : Nat := 2147483647

-- A call of cplus_semaphore_push that passed its checks.
structure Push where
  count : Nat
  left : Nat
  failed : Bool
  deriving DecidableEq

structure State where
  value : Nat
  pushes : List Push
  waits : Nat

def start (initial_count : Nat) : State := ⟨initial_count,[],0⟩

-- A push is its checks first and then one sem_post at a time; a wait that succeeds
-- is one sem_wait, sem_trywait or sem_timedwait.
inductive Action where
  | push (count : Int)
  | post (k : Nat)
  | wait
  deriving DecidableEq

def remain (s : State) : Int := SEMAPHORE_MAX_VALUE - s.value

def cplus_semaphore_push (s : State) (count : Int) : State :=
  if SEMAPHORE_MAX_VALUE < remain s then s
  else if 1 > count ∨ count > remain s then s
  else {s with pushes := s.pushes ++ [⟨count.toNat,count.toNat,false⟩]}

-- The loop goes on as long as sem_post does.
def sem_post (s : State) (k : Nat) (p : Push) : State :=
  if s.value = SEM_VALUE_MAX then {s with pushes := s.pushes.set k {p with left := 0,failed := true}}
  else {s with value := s.value + 1,pushes := s.pushes.set k {p with left := p.left - 1}}

def advance (s : State) : Action → Option State
  | .push count => some (cplus_semaphore_push s count)
  | .post k => (s.pushes[k]?).bind fun p => if p.left = 0 then none else some (sem_post s k p)
  | .wait => if s.value = 0 then none else some {s with value := s.value - 1,waits := s.waits + 1}

def total (f : Push → Nat) : List Push → Nat
  | [] => 0
  | p :: rest => f p + total f rest

-- The posts still to come, the calls that have some to come, and the posts done.
def lefts (s : State) : Nat := total Push.left s.pushes
def under_way (s : State) : Nat := total (fun p => if p.left = 0 then 0 else 1) s.pushes
def posted (s : State) : Nat := total (fun p => p.count - p.left) s.pushes

-- A step that never makes more than n calls be under way.
def Within (n : Nat) (s : State) (action : Action) (t : State) : Prop :=
  advance s action = some t ∧ ∀ count, action = .push count → under_way s < n

variable {f : Push → Nat} {pushes : List Push} {p q : Push} {s t : State} {k n bound initial_count : Nat}

theorem total_append (f : Push → Nat) (pushes more : List Push) : total f (pushes ++ more) = total f pushes + total f more := by
  induction pushes with
  | nil => simp [total]
  | cons p rest ih => simp [total,ih,Nat.add_assoc]

theorem total_set (here : pushes[k]? = some p) (q : Push) : total f (pushes.set k q) + f p = total f pushes + f q := by
  induction pushes generalizing k with
  | nil => simp at here
  | cons r rest ih =>
    cases k with
    | zero =>
      cases here
      simp only [List.set_cons_zero,total]
      omega
    | succ k =>
      have same := ih (k := k) (by simpa using here)
      simp only [List.set_cons_succ,total]
      omega

-- Each call that is under way has no more than `bound` posts to come.
theorem lefts_bounded (small : ∀ p ∈ pushes, p.left ≤ bound) :
    total Push.left pushes ≤ total (fun p => if p.left = 0 then 0 else 1) pushes * bound := by
  induction pushes with
  | nil => simp [total]
  | cons p rest ih =>
    have fewer := ih fun q member => small q (List.mem_cons_of_mem _ member)
    have here := small p List.mem_cons_self
    simp only [total,Nat.add_mul]
    split <;> omega

-- What n calls at a time keep, when the system's limit is beyond their reach.
structure Sound (n initial_count : Nat) (s : State) : Prop where
  calls : ∀ p ∈ s.pushes, p.left ≤ p.count ∧ p.count ≤ SEMAPHORE_MAX_VALUE ∧ p.failed = false
  bounded : s.value + lefts s ≤ n * SEMAPHORE_MAX_VALUE
  counted : s.value + s.waits = initial_count + posted s

theorem start_sound (positive : 0 < n) (small : initial_count ≤ SEMAPHORE_MAX_VALUE) :
    Sound n initial_count (start initial_count) where
  calls := nofun
  bounded := small.trans (Nat.le_mul_of_pos_left _ positive)
  counted := rfl

theorem push_sound (sound : Sound n initial_count s) (count : Int) (room : under_way s < n) :
    Sound n initial_count (cplus_semaphore_push s count) := by
  unfold cplus_semaphore_push
  split
  · exact sound
  split
  · exact sound
  · rename_i _ accepted
    simp only [remain,not_or,not_lt] at accepted
    have fits : s.value + count.toNat ≤ SEMAPHORE_MAX_VALUE := by omega
    refine ⟨?_,?_,?_⟩
    · intro p member
      rcases List.mem_append.mp member with early | last
      · exact sound.calls p early
      · rw [List.mem_singleton.mp last]
        exact ⟨le_rfl,(Nat.le_add_left _ _).trans fits,rfl⟩
    · have others : lefts s ≤ under_way s * SEMAPHORE_MAX_VALUE :=
        lefts_bounded fun p member => (sound.calls p member).1.trans (sound.calls p member).2.1
      have more : under_way s * SEMAPHORE_MAX_VALUE + SEMAPHORE_MAX_VALUE ≤ n * SEMAPHORE_MAX_VALUE := by
        rw [← Nat.succ_mul]
        exact Nat.mul_le_mul_right _ room
      have now : total Push.left (s.pushes ++ [⟨count.toNat,count.toNat,false⟩]) = lefts s + count.toNat :=
        total_append _ _ _
      simp only [lefts] at now others ⊢
      omega
    · have now : total (fun p => p.count - p.left) (s.pushes ++ [⟨count.toNat,count.toNat,false⟩]) = posted s := by
        rw [total_append]
        simp [total,posted]
      have counted := sound.counted
      simp only [posted] at now counted ⊢
      omega

theorem post_sound (sound : Sound n initial_count s) (reach : n * SEMAPHORE_MAX_VALUE ≤ SEM_VALUE_MAX)
    (here : s.pushes[k]? = some p) (some_left : p.left ≠ 0) : Sound n initial_count (sem_post s k p) := by
  have member := List.mem_of_getElem? here
  obtain ⟨whole,small,unfailed⟩ := sound.calls p member
  have lefts_now := total_set (f := Push.left) here {p with left := p.left - 1}
  have posted_now := total_set (f := fun p => p.count - p.left) here {p with left := p.left - 1}
  have bounded := sound.bounded
  have counted := sound.counted
  simp only [lefts,posted] at bounded counted lefts_now posted_now
  unfold sem_post
  rw [if_neg (by omega)]
  refine ⟨?_,?_,?_⟩
  · intro q found
    rcases List.mem_or_eq_of_mem_set found with early | rfl
    · exact sound.calls q early
    · exact ⟨by simp only; omega,small,unfailed⟩
  · simp only [lefts]
    omega
  · simp only [posted]
    omega

theorem step_sound {action : Action} (reach : n * SEMAPHORE_MAX_VALUE ≤ SEM_VALUE_MAX) (sound : Sound n initial_count s)
    (taken : Within n s action t) : Sound n initial_count t := by
  obtain ⟨taken,room⟩ := taken
  cases action with
  | push count =>
    cases taken
    exact push_sound sound count (room count rfl)
  | post k =>
    obtain ⟨p,here,taken⟩ := Option.bind_eq_some_iff.mp taken
    split at taken
    · cases taken
    · cases taken
      exact post_sound sound reach here ‹_›
  | wait =>
    simp only [advance] at taken
    split at taken
    · cases taken
    · cases taken
      have bounded := sound.bounded
      have counted := sound.counted
      simp only [lefts,posted] at bounded counted
      refine ⟨sound.calls,?_,?_⟩
      · simp only [lefts]
        omega
      · simp only [posted]
        omega

-- The calls that return have done all their posts, and nothing else changes the value
-- but waits.
theorem pushes_whole {moves : List (Move State Action)} (positive : 0 < n) (reach : n * SEMAPHORE_MAX_VALUE ≤ SEM_VALUE_MAX)
    (small : initial_count ≤ SEMAPHORE_MAX_VALUE) (run : Run (Within n) (start initial_count) moves s) :
    (∀ p ∈ s.pushes, p.failed = false) ∧ s.value + s.waits = initial_count + posted s := by
  have sound := (run.invariant (start_sound positive small) (fun sound taken => step_sound reach sound taken)).1
  exact ⟨fun p member => (sound.calls p member).2.2,sound.counted⟩

-- Two calls that post in turns, and a wait between them.
theorem pushed_in_turns : ∃ moves s, Run (Within 2) (start 1) moves s ∧ s.value = 3 ∧
    (∀ p ∈ s.pushes, p.failed = false) ∧ s.value + s.waits = 1 + posted s := by
  have none : Run (Within 2) (start 1) [] (start 1) := .nil
  have both := (none.snoc (a := .push 2) ⟨rfl,fun _ _ => by decide⟩).snoc (a := .push 1) ⟨rfl,fun _ _ => by decide⟩
  have posts := ((both.snoc (a := .post 0) ⟨rfl,nofun⟩).snoc (a := .post 1) ⟨rfl,nofun⟩).snoc (a := .wait) ⟨rfl,nofun⟩
  have run := posts.snoc (a := .post 0) ⟨rfl,nofun⟩
  exact ⟨_,_,run,rfl,pushes_whole (by decide) (by decide) (by decide) run⟩

-- The waits take whatever is there.
theorem waits_run (n : Nat) (value : Nat) (pushes : List Push) (waits : Nat) :
    ∃ moves, Run (Within n) ⟨value,pushes,waits⟩ moves ⟨0,pushes,waits + value⟩ := by
  induction value generalizing waits with
  | zero => exact ⟨[],.nil⟩
  | succ value ih =>
    obtain ⟨moves,run⟩ := ih (waits + 1)
    have taken : Within n ⟨value + 1,pushes,waits⟩ .wait ⟨value,pushes,waits + 1⟩ := ⟨rfl,nofun⟩
    rw [Nat.add_assoc,Nat.add_comm 1] at run
    exact ⟨_,run.cons taken⟩

def whole_push : Push := ⟨SEMAPHORE_MAX_VALUE,SEMAPHORE_MAX_VALUE,false⟩

theorem total_replicate (m : Nat) (p : Push) : total f (List.replicate m p) = m * f p := by
  induction m with
  | zero => simp [total]
  | succ m ih => rw [List.replicate_succ,total,ih,Nat.succ_mul,Nat.add_comm]

-- Calls that all read the value before the first of them posts.
theorem pushes_run (waits m : Nat) (room : m ≤ n) :
    ∃ moves, Run (Within n) ⟨0,[],waits⟩ moves ⟨0,List.replicate m whole_push,waits⟩ := by
  induction m with
  | zero => exact ⟨[],.nil⟩
  | succ m ih =>
    obtain ⟨moves,run⟩ := ih (by omega)
    refine ⟨_,run.snoc (a := .push SEMAPHORE_MAX_VALUE) ⟨?_,fun _ _ => ?_⟩⟩
    · rw [List.replicate_succ']
      rfl
    · simp only [under_way,total_replicate,whole_push]
      rw [if_neg (by decide)]
      omega

theorem some_left (more : total Push.left pushes ≠ 0) : ∃ (k : Nat) (p : Push), pushes[k]? = some p ∧ p.left ≠ 0 := by
  induction pushes with
  | nil => exact (more rfl).elim
  | cons p rest ih =>
    by_cases done : p.left = 0
    · rw [total,done,Nat.zero_add] at more
      obtain ⟨k,q,here,left⟩ := ih more
      exact ⟨k + 1,q,by simpa using here,left⟩
    · exact ⟨0,p,rfl,done⟩

-- All calls come to their end.
theorem posts_run (n : Nat) (s : State) (fits : s.value + lefts s ≤ SEM_VALUE_MAX) :
    ∃ moves t, Run (Within n) s moves t ∧ t.value = s.value + lefts s := by
  induction more : lefts s generalizing s with
  | zero => exact ⟨[],s,.nil,rfl⟩
  | succ m ih =>
    have here : total Push.left s.pushes ≠ 0 := by
      simp only [lefts] at more
      omega
    obtain ⟨k,p,here,left⟩ := some_left here
    have now := total_set (f := Push.left) here {p with left := p.left - 1}
    have taken : Within n s (.post k) (sem_post s k p) := ⟨by simp [advance,here,left],nofun⟩
    simp only [lefts] at fits more now
    rw [sem_post,if_neg (by omega)] at taken
    obtain ⟨moves,t,run,reached⟩ := ih ⟨s.value + 1,s.pushes.set k {p with left := p.left - 1},s.waits⟩
      (by simp only [lefts]; omega) (by simp only [lefts]; omega)
    exact ⟨_,t,run.cons taken,by rw [reached]; simp only; omega⟩

-- The limit of the library is one for each call that is under way: the checks of a call
-- do not see the posts that the others still have to do.
theorem most_pushed (positive : 0 < n) (reach : n * SEMAPHORE_MAX_VALUE ≤ SEM_VALUE_MAX)
    (small : initial_count ≤ SEMAPHORE_MAX_VALUE) :
    IsGreatest {value | ∃ moves s, Run (Within n) (start initial_count) moves s ∧ s.value = value} (n * SEMAPHORE_MAX_VALUE) := by
  constructor
  · obtain ⟨_,drained⟩ := waits_run n initial_count [] 0
    obtain ⟨_,pushing⟩ := pushes_run (0 + initial_count) n le_rfl
    have all : lefts ⟨0,List.replicate n whole_push,0 + initial_count⟩ = n * SEMAPHORE_MAX_VALUE := total_replicate n whole_push
    obtain ⟨_,t,posting,reached⟩ := posts_run n ⟨0,List.replicate n whole_push,0 + initial_count⟩ (by rw [all]; simpa using reach)
    exact ⟨_,t,(drained.append pushing).append posting,by rw [reached,all]; simp⟩
  · rintro value ⟨moves,s,run,rfl⟩
    have sound := (run.invariant (start_sound positive small) (fun sound taken => step_sound reach sound taken)).1
    exact (Nat.le_add_right _ _).trans sound.bounded

theorem two_pushes : IsGreatest {value | ∃ moves s, Run (Within 2) (start 10) moves s ∧ s.value = value} 65534 :=
  most_pushed (by decide) (by decide) (by decide)

end Libcplus.Semaphore
