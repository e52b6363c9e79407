import Libcplus.EventServer

-- An event server with CPLUS_EVENT_SERVER_FLAG_SYNC, whose eventfd is a semaphore.
namespace Libcplus.EventServer
open Transition

-- A read takes one of what there is.
def semaphore_read (counter : Nat) : Option (Nat × Nat) := if 0 < counter then some (counter - 1,1) else none

def advance_sync (server : EventServer) : Action → Option EventServer
  | .read done =>
    match server.reader with
    | .read =>
      if done then (semaphore_read server.efd).map fun (efd,read_value) => {server with efd := efd,reader := .on_read read_value}
      else some {server with reader := .poll}
    | _ => none
  | action => server.advance action

-- What came in has been passed on one by one, or is still there.
structure OneByOne (server : EventServer) : Prop where
  balanced : server.accounted = server.total
  ones : ∀ value ∈ server.passed, value = 1
  one : ∀ read_value, server.reader = .on_read read_value → read_value = 1

variable {server next : EventServer} {action : Action}

theorem sync_balance (taken : server.advance_sync action = some next) :
    next.accounted + server.total = server.accounted + next.total := by
  cases action with
  | read done =>
    unfold advance_sync at taken
    cases here : server.reader with
    | read =>
      simp only [here] at taken
      cases done with
      | false =>
        cases taken
        simp [accounted,total,pending,here]
      | true =>
        obtain ⟨⟨efd,read_value⟩,got,rfl⟩ := Option.map_eq_some_iff.mp taken
        unfold semaphore_read at got
        split at got
        · cases got
          have one : value 1 = 1 := by decide
          simp only [accounted,total,pending,here,one]
          omega
        · cases got
    | _ => simp [here] at taken
  | add_count count written =>
    have plain : server.advance (.add_count count written) = some next := taken
    simpa [lost] using step_balance plain
  | poll readable =>
    have plain : server.advance (.poll readable) = some next := taken
    simpa [lost] using step_balance plain
  | on_read =>
    have plain : server.advance .on_read = some next := taken
    simpa [lost] using step_balance plain

theorem sync_ones (before : OneByOne server) (taken : server.advance_sync action = some next) :
    (∀ value ∈ next.passed, value = 1) ∧ ∀ read_value, next.reader = .on_read read_value → read_value = 1 := by
  cases action with
  | add_count count written =>
    cases written with
    | false =>
      cases taken
      exact ⟨before.ones,before.one⟩
    | true =>
      obtain ⟨efd,_,rfl⟩ := Option.map_eq_some_iff.mp taken
      exact ⟨before.ones,before.one⟩
  | poll readable =>
    simp only [advance_sync,advance] at taken
    split at taken
    · split at taken
      · split at taken
        · cases taken
          exact ⟨before.ones,fun _ there => by cases there⟩
        · cases taken
      · cases taken
        exact ⟨before.ones,before.one⟩
    · cases taken
  | read done =>
    simp only [advance_sync] at taken
    split at taken
    · split at taken
      · obtain ⟨⟨efd,read_value⟩,got,rfl⟩ := Option.map_eq_some_iff.mp taken
        unfold semaphore_read at got
        split at got
        · cases got
          refine ⟨before.ones,fun read_value there => ?_⟩
          cases there
          rfl
        · cases got
      · cases taken
        exact ⟨before.ones,fun _ there => by cases there⟩
    · cases taken
  | on_read =>
    simp only [advance_sync,advance] at taken
    split at taken
    · rename_i read_value here
      cases taken
      refine ⟨fun passed member => ?_,fun _ there => by cases there⟩
      rcases List.mem_append.mp member with early | last
      · exact before.ones passed early
      · rw [List.mem_singleton.mp last,before.one read_value here]
        decide
    · cases taken

theorem sync_step (before : OneByOne server) (taken : server.advance_sync action = some next) : OneByOne next := by
  obtain ⟨ones,one⟩ := sync_ones before taken
  have balance := sync_balance taken
  have balanced := before.balanced
  exact ⟨by omega,ones,one⟩

theorem sum_ones {values : List Int} (ones : ∀ value ∈ values, value = 1) : values.sum = values.length := by
  rw [List.eq_replicate_of_mem ones,List.sum_replicate,List.length_replicate]
  simp

-- Whatever the counts are, on_read is called once for each of them, with 1, and
-- once for each of what the counter started with.
theorem sync_conserved (init_val : UInt32) {moves : List (Move EventServer Action)}
    (run : Run (Follows advance_sync) (event_server_initialize_object init_val) moves server) :
    (OneByOne server ∧ Throughout OneByOne moves) ∧ (server.Drained → (server.passed.length : Int) = server.total) := by
  have start : OneByOne (event_server_initialize_object init_val) := by
    refine ⟨?_,?_,?_⟩
    · simp [accounted,total,pending,event_server_initialize_object]
    · simp [event_server_initialize_object]
    · simp [event_server_initialize_object]
  have kept := run.invariant start fun before taken => sync_step before taken
  refine ⟨kept,fun drained => ?_⟩
  have balanced := kept.1.balanced
  have nothing : server.pending = 0 := by
    unfold pending
    split
    · exact (drained.2 _ ‹_›).elim
    · rfl
  rw [accounted,nothing,drained.1,sum_ones kept.1.ones] at balanced
  simpa using balanced

-- One that is there from the start, and a client that adds two.
theorem passed_one_by_one : ∃ moves server, Run (Follows advance_sync) (event_server_initialize_object 1) moves server ∧
    OneByOne server ∧ (server.passed.length : Int) = 3 := by
  obtain ⟨moves,server,run,_,checked⟩ := Run.of_check advance_sync (event_server_initialize_object 1)
    (.add_count 2 true :: (List.replicate 3 [.poll true,.read true,.on_read]).flatten)
    (fun result => decide (result.2.efd = 0 ∧ result.2.reader = .poll ∧ result.2.total = 3)) (by decide +kernel)
  obtain ⟨empty,polls,total⟩ := of_decide_eq_true checked
  have conserved := sync_conserved 1 run
  refine ⟨moves,server,run,conserved.1.1,?_⟩
  rw [conserved.2 ⟨empty,fun read_value there => by rw [polls] at there; cases there⟩,total]

end Libcplus.EventServer
