import Mathlib.Algebra.BigOperators.Group.List.Basic
import Mathlib.Algebra.Ring.Int.Defs
import Mathlib.Algebra.Ring.Nat
import Libcplus.Integers
import Libcplus.Transition

namespace Libcplus
open Transition

-- An eventfd without EFD_SEMAPHORE: a 64-bit counter. What it has no room for is
-- not written, and a read takes it all; of an empty one there is nothing to read.
def EFD_MAX : Nat := 2^64 - 2

def eventfd_write (counter : Nat) (count : UInt64) : Option Nat :=
  if counter + count.toNat ≤ EFD_MAX then some (counter + count.toNat) else none

def eventfd_read (counter : Nat) : Option (Nat × Nat) :=
  if 0 < counter then some (0,counter) else none

-- Where event_poll_proc is: in front of poll, of read, or of the callback with
-- the read_value it has got. The task runs it again and again.
inductive Reader where
  | poll
  | read
  | on_read (read_value : Nat)
  deriving DecidableEq, Repr

-- struct event_server as far as the events go, with the values that on_read was
-- called with and the counts that add_count has written.
structure EventServer where
  init_val : UInt32
  efd : Nat
  reader : Reader
  passed : List Int
  added : List Nat

namespace EventServer

def event_server_initialize_object (init_val : UInt32) : EventServer :=
  ⟨init_val,init_val.toNat,.poll,[],[]⟩

-- value = (int32_t)(read_value)
def value (read_value : Nat) : Int := Integers.read true (BitVec.ofNat 32 read_value)

-- What the system answers may be any failure: a poll or a read that is
-- interrupted, a write that is, or that would have to wait.
inductive Action where
  | add_count (count : UInt64) (written : Bool)
  | poll (readable : Bool)
  | read (done : Bool)
  | on_read
  deriving DecidableEq, Repr

def cplus_event_client_add_count (server : EventServer) (count : UInt64) (written : Bool) :
    Option EventServer :=
  if written then
    (eventfd_write server.efd count).map fun efd =>
      {server with efd := efd,added := server.added ++ [count.toNat]}
  else some server

def advance (server : EventServer) : Action → Option EventServer
  | .add_count count written => server.cplus_event_client_add_count count written
  | .poll readable =>
    match server.reader with
    | .poll =>
      if readable then if 0 < server.efd then some {server with reader := .read} else none
      else some server
    | _ => none
  | .read done =>
    match server.reader with
    | .read =>
      if done then (eventfd_read server.efd).map fun (efd,read_value) =>
        {server with efd := efd,reader := .on_read read_value}
      else some {server with reader := .poll}
    | _ => none
  | .on_read =>
    match server.reader with
    | .on_read read_value =>
      some {server with passed := server.passed ++ [value read_value],reader := .poll}
    | _ => none

-- Nothing is in the counter, and nothing on its way to the callback.
def Drained (server : EventServer) : Prop :=
  server.efd = 0 ∧ ∀ read_value, server.reader ≠ .on_read read_value

-- What came in, and what has been passed on or is still to be.
def total (server : EventServer) : Int := (server.init_val.toNat + server.added.sum : Nat)

def pending (server : EventServer) : Int :=
  match server.reader with
  | .on_read read_value => value read_value
  | _ => 0

def accounted (server : EventServer) : Int := server.passed.sum + server.pending + server.efd

-- A total that the type of the callback's value has room for.
def Fits (server : EventServer) : Action → Prop
  | .read true => server.efd < 2^31
  | _ => True

instance (server : EventServer) (action : Action) : Decidable (server.Fits action) := by
  unfold Fits; split <;> infer_instance

def lost (server : EventServer) : Action → Int
  | .read true => server.efd - value server.efd
  | _ => 0

variable {server next : EventServer} {action : Action}

theorem value_eq (n : Nat) : value n = (n : Int).bmod (2^32) := BitVec.toInt_ofNat' n

-- Narrowing takes something away, or nothing from a value that fits.
theorem value_le (n : Nat) : value n ≤ n := by
  rw [value_eq,Int.bmod_def]
  split <;> omega

theorem value_same (n : Nat) : value n = n ↔ n < 2^31 := by
  rw [value_eq,Int.bmod_def]
  split <;> omega

theorem lost_nonneg (server : EventServer) (action : Action) : 0 ≤ server.lost action := by
  unfold lost
  split
  · have := value_le server.efd
    omega
  · exact Int.le_refl 0

theorem lost_zero (server : EventServer) (action : Action) : server.lost action = 0 ↔ server.Fits action := by
  unfold lost Fits
  split
  · have := value_same server.efd
    omega
  · simp

-- Each step keeps the balance, but for what a read loses.
theorem step_balance (taken : server.advance action = some next) :
    next.accounted + server.lost action + server.total = server.accounted + next.total := by
  cases action with
  | add_count count written =>
    cases written with
    | false =>
      cases taken
      simp [lost]
    | true =>
      obtain ⟨efd,wrote,rfl⟩ := Option.map_eq_some_iff.mp taken
      unfold eventfd_write at wrote
      split at wrote
      · cases wrote
        simp only [accounted,total,pending,lost,List.sum_append,List.sum_singleton]
        omega
      · cases wrote
  | poll readable =>
    unfold advance at taken
    cases here : server.reader with
    | poll =>
      simp only [here] at taken
      split at taken
      · split at taken
        · cases taken
          simp [accounted,total,pending,lost,here]
        · cases taken
      · cases taken
        simp [lost]
    | _ => simp [here] at taken
  | read done =>
    unfold advance at taken
    cases here : server.reader with
    | read =>
      simp only [here] at taken
      cases done with
      | false =>
        cases taken
        simp [accounted,total,pending,lost,here]
      | true =>
        obtain ⟨⟨efd,read_value⟩,got,rfl⟩ := Option.map_eq_some_iff.mp taken
        unfold eventfd_read at got
        split at got
        · cases got
          simp only [accounted,total,pending,lost,here]
          omega
        · cases got
    | _ => simp [here] at taken
  | on_read =>
    unfold advance at taken
    cases here : server.reader with
    | on_read read_value =>
      simp only [here] at taken
      cases taken
      simp only [accounted,total,pending,lost,here,List.sum_append,List.sum_singleton]
      omega
    | _ => simp [here] at taken

theorem step_keeps_init (taken : server.advance action = some next) : next.init_val = server.init_val := by
  cases action with
  | add_count count written =>
    cases written with
    | false =>
      cases taken
      rfl
    | true =>
      obtain ⟨efd,_,rfl⟩ := Option.map_eq_some_iff.mp taken
      rfl
  | _ =>
    unfold advance at taken
    grind [Option.map_eq_some_iff]

-- Nothing is accounted twice, and all of it as long as every total read has fitted.
theorem run_balance {init_val : UInt32} {moves : List (Move EventServer Action)}
    (run : Run (Follows advance) (event_server_initialize_object init_val) moves server) :
    server.init_val = init_val ∧ server.accounted ≤ server.total ∧
      (server.accounted = server.total ↔ Meets Fits moves) := by
  induction run with
  | nil =>
    have balanced : (event_server_initialize_object init_val).accounted =
        (event_server_initialize_object init_val).total := by
      simp [accounted,total,pending,event_server_initialize_object]
    exact ⟨rfl,Int.le_of_eq balanced,iff_of_true balanced meets_nil⟩
  | snoc prior taken ih =>
    rename_i moves before action after
    obtain ⟨init,below,balanced⟩ := ih
    have balance := step_balance taken
    have loss := before.lost_nonneg action
    have lossless := before.lost_zero action
    refine ⟨(step_keeps_init taken).trans init,by omega,?_⟩
    rw [meets_snoc,← balanced,← lossless]
    omega

-- Once the counter is drained, the callback has been given what came in exactly
-- when no total it was given was too large for an int32_t.
theorem conserved_exact (init_val : UInt32) {moves : List (Move EventServer Action)}
    (run : Run (Follows advance) (event_server_initialize_object init_val) moves server)
    (drained : server.Drained) :
    server.passed.sum = (init_val.toNat + server.added.sum : Nat) ↔ Meets Fits moves := by
  obtain ⟨empty,idle⟩ := drained
  obtain ⟨init,_,balanced⟩ := run_balance run
  have settled : server.accounted = server.passed.sum := by
    have nothing : server.pending = 0 := by
      unfold pending
      split
      · rename_i read_value there
        exact absurd there (idle read_value)
      · rfl
    rw [accounted,nothing,empty]
    simp
  rw [← settled,← init]
  exact balanced

section Runs

-- Two adds are read as one, a third by itself.
def small_actions : List Action :=
  [.add_count 5 true,.poll true,.add_count 7 true,.read true,.add_count 1 true,.on_read,.poll true,
   .read true,.on_read]

theorem small_conserved : ∃ moves server,
    Run (Follows advance) (event_server_initialize_object 3) moves server ∧
    moves.map Move.action = small_actions ∧ server.passed = [15,1] ∧
    server.passed.sum = ((3 : UInt32).toNat + server.added.sum : Nat) := by
  obtain ⟨moves,server,run,same,checked⟩ := Run.of_check advance (event_server_initialize_object 3)
    small_actions (fun result => decide (Meets Fits result.1 ∧ result.2.efd = 0 ∧
      result.2.reader = .poll ∧ result.2.passed = [15,1])) (by decide +kernel)
  obtain ⟨fits,empty,idle,passed⟩ := of_decide_eq_true checked
  have drained : server.Drained := ⟨empty,fun read_value there => by
    rw [show server.reader = .poll from idle] at there
    cases there⟩
  exact ⟨moves,server,run,same,passed,(conserved_exact 3 run drained).mpr fits⟩

def large_actions : List Action := [.add_count 2147483648 true,.poll true,.read true,.on_read]

theorem large_lost : ∃ moves server,
    Run (Follows advance) (event_server_initialize_object 0) moves server ∧
    moves.map Move.action = large_actions ∧ server.Drained ∧ server.passed = [-2147483648] ∧
    server.added = [2147483648] ∧
    server.passed.sum ≠ ((0 : UInt32).toNat + server.added.sum : Nat) := by
  obtain ⟨moves,server,run,same,checked⟩ := Run.of_check advance (event_server_initialize_object 0)
    large_actions (fun result => decide (result.2.efd = 0 ∧ result.2.reader = .poll ∧
      result.2.passed = [-2147483648] ∧ result.2.added = [2147483648]))
    (by decide +kernel)
  obtain ⟨empty,idle,passed,added⟩ := of_decide_eq_true checked
  refine ⟨moves,server,run,same,⟨empty,fun read_value there => ?_⟩,passed,added,?_⟩
  · rw [show server.reader = .poll from idle] at there
    cases there
  · rw [show server.passed = [-2147483648] from passed,show server.added = [2147483648] from added]
    simp only [List.sum_singleton]
    omega

end Runs

end EventServer

end Libcplus
