import Mathlib.Logic.Function.Basic
import Libcplus.History
import Libcplus.Transition
import Libcplus.Typedef

namespace Libcplus
open Transition History Typedef

-- struct pevent: what its mutex protects. `broadcast` is set once, by the constructor,
-- and makes the event one that is reset by hand.
structure Pevent where
  setted : Bool
  broadcast : Bool
  deriving DecidableEq

namespace Pevent

-- How a section of a wait ends: on the condition variable, or with a result.
inductive Progress where
  | asleep
  | done (res : Int)
  deriving DecidableEq

def take (evt : Pevent) : Pevent := if evt.broadcast = false then {evt with setted := false} else evt

-- unlock_and_wait_cond up to the first wait on the condition variable.
def unlock_and_wait_cond (evt : Pevent) (timeout : Nat) : Pevent × Progress :=
  if evt.setted = false then
    if 0 = timeout then (evt,.done CPLUS_FAIL) else (evt,.asleep)
  else (evt.take,.done 0)

-- One round of its loop: the condition variable returned `res`, for whatever reason.
def wait_cond (evt : Pevent) (res : Int) : Pevent × Progress :=
  if res ≠ 0 then (evt,.done CPLUS_FAIL)
  else if evt.setted = false then (evt,.asleep)
  else (evt.take,.done 0)

-- What the pthread calls on the mutex and the condition variable return is given:
-- `lock`, `unlock` and `cond` are 0 where they succeed.
def answer (progress : Progress) (unlock : Int) : Option Int :=
  match progress with
  | .asleep => none
  | .done res => some (if 0 ≠ res then CPLUS_FAIL else if 0 ≠ unlock then CPLUS_FAIL else CPLUS_SUCCESS)

def cplus_pevent_wait (evt : Pevent) (timeout : Nat) (lock unlock : Int) : Pevent × Option Int :=
  if 0 ≠ lock then (evt,some CPLUS_FAIL)
  else ((evt.unlock_and_wait_cond timeout).1,answer (evt.unlock_and_wait_cond timeout).2 unlock)

def cplus_pevent_reset (evt : Pevent) (lock unlock : Int) : Pevent × Int :=
  if 0 = lock then ({evt with setted := false},unlock) else (evt,CPLUS_FAIL)

def cplus_pevent_set (evt : Pevent) (lock cond : Int) : Pevent × Int :=
  if 0 = lock then ({evt with setted := true},cond) else (evt,CPLUS_FAIL)

def pevent_initialize_object (broadcast status : Bool) : Pevent :=
  if status then (cplus_pevent_set ⟨false,broadcast⟩ 0 0).1 else ⟨false,broadcast⟩

-- One event and the threads that wait on its condition variable.
structure State (Thread : Type) where
  evt : Pevent
  asleep : Thread → Bool

inductive Action (Thread : Type) where
  | set (t : Thread) (lock cond : Int)
  | reset (t : Thread) (lock unlock : Int)
  | wait (t : Thread) (timeout : Nat) (lock unlock : Int)
  | wake (t : Thread) (res unlock : Int)

section
variable {Thread : Type} [DecidableEq Thread]

def State.waiting (s : State Thread) (t : Thread) (result : Pevent × Option Int) :
    State Thread × Option Int :=
  (⟨result.1,Function.update s.asleep t result.2.isNone⟩,result.2)

-- A call, or the rest of one that was asleep; the answer is none while it sleeps.
def call (s : State Thread) : Action Thread → Option (State Thread × Option Int)
  | .set t lock cond =>
    if s.asleep t then none
    else some ({s with evt := (s.evt.cplus_pevent_set lock cond).1},
      some (s.evt.cplus_pevent_set lock cond).2)
  | .reset t lock unlock =>
    if s.asleep t then none
    else some ({s with evt := (s.evt.cplus_pevent_reset lock unlock).1},
      some (s.evt.cplus_pevent_reset lock unlock).2)
  | .wait t timeout lock unlock =>
    if s.asleep t then none
    else some (s.waiting t (s.evt.cplus_pevent_wait timeout lock unlock))
  | .wake t res unlock =>
    if s.asleep t then
      some (s.waiting t ((s.evt.wait_cond res).1,answer (s.evt.wait_cond res).2 unlock))
    else none

def advance (s : State Thread) (a : Action Thread) : Option (State Thread) := (call s a).map Prod.fst

abbrev Step : State Thread → Action Thread → State Thread → Prop := Follows advance

def cplus_pevent_new (broadcast status : Bool) : State Thread :=
  ⟨pevent_initialize_object broadcast status,fun _ => false⟩

def sets (m : Move (State Thread) (Action Thread)) : Bool :=
  match m.action with
  | .set _ lock _ => lock = 0
  | _ => false

def resets (m : Move (State Thread) (Action Thread)) : Bool :=
  match m.action with
  | .reset _ lock _ => lock = 0
  | _ => false

-- A wait, or the end of one, that answers CPLUS_SUCCESS.
def succeeds (m : Move (State Thread) (Action Thread)) : Bool :=
  match m.action with
  | .wait .. | .wake .. => (call m.before m.action).map Prod.snd = some (some CPLUS_SUCCESS)
  | _ => false

-- What takes the event away: a reset, and in auto-reset mode a wait that succeeds.
def clears (broadcast : Bool) (m : Move (State Thread) (Action Thread)) : Bool :=
  resets m || (!broadcast && succeeds m)

-- Everything one step does to the event.
structure Effect (m : Move (State Thread) (Action Thread)) : Prop where
  broadcast : m.after.evt.broadcast = m.before.evt.broadcast
  found : succeeds m = true → m.before.evt.setted = true ∧ sets m = false
  turned : sets m = true → resets m = false
  cleared : clears m.before.evt.broadcast m = true → m.after.evt.setted = false
  kept : m.after.evt.setted = true → sets m = true ∨ m.before.evt.setted = true

-- What a wait can do in one section.
structure Takes (evt : Pevent) (result : Pevent × Option Int) : Prop where
  broadcast : result.1.broadcast = evt.broadcast
  kept : result.1.setted = true → evt.setted = true
  found : result.2 = some CPLUS_SUCCESS → evt.setted = true
  cleared : result.2 = some CPLUS_SUCCESS → evt.broadcast = false → result.1.setted = false

omit [DecidableEq Thread] in
theorem takes_unchanged {evt : Pevent} {result : Option Int} (failed : result ≠ some CPLUS_SUCCESS) :
    Takes evt (evt,result) :=
  ⟨rfl,id,fun succeeded => absurd succeeded failed,fun succeeded => absurd succeeded failed⟩

omit [DecidableEq Thread] in
theorem takes_take {evt : Pevent} {result : Option Int} (setted : evt.setted = true) :
    Takes evt (evt.take,result) := by
  refine ⟨?_,fun _ => setted,fun _ => setted,fun _ auto => ?_⟩
  · unfold take
    split <;> rfl
  · simp only [take,auto,if_true]

omit [DecidableEq Thread] in
theorem answer_fail (unlock : Int) : answer (.done CPLUS_FAIL) unlock ≠ some CPLUS_SUCCESS := by
  simp [answer,CPLUS_FAIL,CPLUS_SUCCESS]

omit [DecidableEq Thread] in
theorem wait_takes (evt : Pevent) (timeout : Nat) (lock unlock : Int) :
    Takes evt (evt.cplus_pevent_wait timeout lock unlock) := by
  unfold cplus_pevent_wait unlock_and_wait_cond
  split
  · exact takes_unchanged (by simp [CPLUS_FAIL,CPLUS_SUCCESS])
  · cases setted : evt.setted with
    | false =>
      rw [if_pos rfl]
      split
      · exact takes_unchanged (answer_fail unlock)
      · exact takes_unchanged nofun
    | true =>
      rw [if_neg nofun]
      exact takes_take setted

omit [DecidableEq Thread] in
theorem wake_takes (evt : Pevent) (res unlock : Int) :
    Takes evt ((evt.wait_cond res).1,answer (evt.wait_cond res).2 unlock) := by
  unfold wait_cond
  split
  · exact takes_unchanged (answer_fail unlock)
  · cases setted : evt.setted with
    | false =>
      rw [if_pos rfl]
      exact takes_unchanged nofun
    | true =>
      rw [if_neg nofun]
      exact takes_take setted

variable {s next : State Thread}

theorem wait_effect {t : Thread} {result : Pevent × Option Int} {a : Action Thread}
    (takes : Takes s.evt result) (called : call s a = some (s.waiting t result))
    (waits : sets ⟨s,a,(s.waiting t result).1⟩ = false)
    (resets : resets ⟨s,a,(s.waiting t result).1⟩ = false) : Effect ⟨s,a,(s.waiting t result).1⟩ := by
  have answered : succeeds ⟨s,a,(s.waiting t result).1⟩ = true → result.2 = some CPLUS_SUCCESS := by
    intro succeeded
    unfold succeeds at succeeded
    split at succeeded
    · simpa [called,State.waiting] using succeeded
    · simpa [called,State.waiting] using succeeded
    · cases succeeded
  refine ⟨takes.broadcast,?_,?_,?_,?_⟩
  · intro succeeded
    exact ⟨takes.found (answered succeeded),waits⟩
  · intro turned
    rw [waits] at turned
    cases turned
  · intro cleared
    simp only [clears,resets,Bool.false_or,Bool.and_eq_true,Bool.not_eq_true'] at cleared
    exact takes.cleared (answered cleared.2) cleared.1
  · intro setted
    exact .inr (takes.kept setted)

theorem step_effect {a : Action Thread} (taken : Step s a next) : Effect ⟨s,a,next⟩ := by
  obtain ⟨result,called,rfl⟩ := Option.map_eq_some_iff.mp taken
  cases a with
  | set t lock cond =>
    simp only [call] at called
    split at called
    · cases called
    · cases called
      refine ⟨?_,nofun,fun _ => rfl,?_,?_⟩
      · simp only [cplus_pevent_set]
        split <;> rfl
      · intro cleared
        simp [clears,resets,succeeds] at cleared
      · intro setted
        by_cases locked : lock = 0
        · exact .inl (by simp [sets,locked])
        · right
          simpa [cplus_pevent_set,Ne.symm locked] using setted
  | reset t lock unlock =>
    simp only [call] at called
    split at called
    · cases called
    · cases called
      refine ⟨?_,nofun,nofun,?_,?_⟩
      · simp only [cplus_pevent_reset]
        split <;> rfl
      · intro cleared
        have locked : lock = 0 := by simpa [clears,resets,succeeds] using cleared
        simp [cplus_pevent_reset,locked]
      · intro setted
        right
        simp only [cplus_pevent_reset] at setted
        split at setted
        · cases setted
        · exact setted
  | wait t timeout lock unlock =>
    have ran := called
    simp only [call] at called
    split at called
    · cases called
    · cases called
      exact wait_effect (wait_takes s.evt timeout lock unlock) ran rfl rfl
  | wake t res unlock =>
    have ran := called
    simp only [call] at called
    split at called
    · cases called
      exact wait_effect (wake_takes s.evt res unlock) ran rfl rfl
    · cases called

variable {broadcast status : Bool} {moves : List (Move (State Thread) (Action Thread))}

omit [DecidableEq Thread] in
theorem new_evt (broadcast status : Bool) :
    (cplus_pevent_new broadcast status : State Thread).evt = ⟨status,broadcast⟩ := by
  cases status <;> rfl

-- An event that is set was set, or created so, and not taken away since.
theorem run_setted (run : Run Step (cplus_pevent_new broadcast status) moves s) :
    s.evt.broadcast = broadcast ∧
      (s.evt.setted = true → Since (status = true) sets (clears broadcast) moves) := by
  induction run with
  | nil =>
    rw [new_evt]
    exact ⟨rfl,fun setted => .inl ⟨setted,nofun⟩⟩
  | @snoc moves s a next prior taken ih =>
    obtain ⟨mode,since⟩ := ih
    have effect := step_effect taken
    refine ⟨effect.broadcast.trans mode,fun setted => ?_⟩
    rcases effect.kept setted with turned | before
    · exact since_on turned
    · apply (since before).snoc
      have cleared := effect.cleared
      by_contra clear
      rw [← mode] at clear
      have gone := cleared (by simpa using clear)
      rw [show next.evt.setted = true from setted] at gone
      cases gone

-- The count that a set pays for a wait, in auto-reset mode.
theorem run_count (run : Run Step (cplus_pevent_new false status) moves s) :
    moves.countP succeeds + s.evt.setted.toNat ≤ moves.countP sets + status.toNat := by
  induction run with
  | nil => simp [new_evt]
  | @snoc moves s a next prior taken ih =>
    obtain ⟨mode,_⟩ := run_setted prior
    have effect := step_effect taken
    have bound := Bool.toNat_le next.evt.setted
    rw [List.countP_append,List.countP_append,List.countP_singleton,List.countP_singleton]
    by_cases succeeded : succeeds ⟨s,a,next⟩ = true
    · obtain ⟨before,unset⟩ := effect.found succeeded
      have after : next.evt.setted = false := effect.cleared (by simp [clears,mode,succeeded])
      simp only [show s.evt.setted = true from before,Bool.toNat_true] at ih
      simp only [succeeded,unset,after,if_true,Bool.toNat_false]
      omega
    · rw [if_neg succeeded]
      cases setted : next.evt.setted with
      | false =>
        simp only [Bool.toNat_false]
        omega
      | true =>
        rcases effect.kept setted with turned | before
        · simp only [turned,if_true,Bool.toNat_true]
          omega
        · simp only [show s.evt.setted = true from before,Bool.toNat_true] at ih
          simp only [Bool.toNat_true]
          omega

theorem event_semantics (run : Run Step (cplus_pevent_new broadcast status) moves s) :
    (broadcast = false → moves.countP succeeds ≤ moves.countP sets + status.toNat ∧
      ∀ before a between b after, moves = before ++ a :: between ++ b :: after →
        succeeds a = true → succeeds b = true → ∃ m ∈ between, sets m = true) ∧
    (broadcast = true → ∀ before m after, moves = before ++ m :: after → succeeds m = true →
      Since (status = true) sets resets before) := by
  constructor
  · rintro rfl
    refine ⟨by have := run_count run; omega,?_⟩
    rintro before a between b after rfl first second
    obtain ⟨earlier,taken⟩ := run.reaches
    have since := (run_setted earlier).2 ((step_effect taken).found second).1
    have unset : sets a = false := by
      rw [List.append_assoc,List.cons_append] at run
      exact ((step_effect run.reaches.2).found first).2
    exact since.after (by simp [clears,first]) unset
  · rintro rfl before m after rfl succeeded
    obtain ⟨earlier,taken⟩ := run.reaches
    have since := (run_setted earlier).2 ((step_effect taken).found succeeded).1
    exact since.weaken fun m reset => by simp [clears,reset]

end

-- Two waiters and one set: a spurious wakeup, then the first of them to find the
-- event set takes it.
def two_waiters : List (Action Nat) :=
  [.wait 0 CPLUS_INFINITE_TIMEOUT 0 0,.wait 1 10 0 0,.wake 1 0 0,.set 2 0 0,.wake 0 0 0,.wake 1 0 0,
   .set 2 0 0,.wake 1 0 0]

-- Reset by hand: a waiter that wakes up behind the reset goes back to sleep, and after the
-- next set all waits succeed until the event is reset.
def late_wakeup : List (Action Nat) :=
  [.wait 0 CPLUS_INFINITE_TIMEOUT 0 0,.wait 1 10 0 0,.set 2 0 0,.reset 2 0 0,.wake 0 0 0,.set 2 0 0,.wake 0 0 0,
   .wake 1 0 0,.wait 3 0 0 0,.reset 2 0 0,.wait 3 0 0 0]

theorem two_waiters_counted :
    (∃ moves s, Run Step (cplus_pevent_new false false : State Nat) moves s ∧
      moves.map Move.action = two_waiters ∧ moves.countP succeeds = 2 ∧
      moves.countP succeeds ≤ moves.countP sets) ∧
    ∃ moves s, Run Step (cplus_pevent_new true false : State Nat) moves s ∧
      moves.map Move.action = late_wakeup ∧ moves.map succeeds =
        [false,false,false,false,false,false,true,true,true,false,false] ∧
      ∀ before m after, moves = before ++ m :: after → succeeds m = true → Since (false = true) sets resets before := by
  constructor
  · obtain ⟨moves,s,run,same,checked⟩ := Run.of_check advance (cplus_pevent_new false false : State Nat)
      two_waiters (fun result => decide (result.1.countP succeeds = 2)) (by decide +kernel)
    exact ⟨moves,s,run,same,of_decide_eq_true checked,((event_semantics run).1 rfl).1⟩
  · obtain ⟨moves,s,run,same,checked⟩ := Run.of_check advance (cplus_pevent_new true false : State Nat)
      late_wakeup (fun result => decide (result.1.map succeeds =
        [false,false,false,false,false,false,true,true,true,false,false])) (by decide +kernel)
    exact ⟨moves,s,run,same,of_decide_eq_true checked,(event_semantics run).2 rfl⟩

end Pevent
end Libcplus
