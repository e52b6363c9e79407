import Libcplus.Ipc.Safety

-- The while loop of ipc_packet_analyze ends, also on bytes that are no packets and when
-- no buffer is to be had.
namespace Libcplus.Ipc.Termination
open Bytes Memory Transition

-- One iteration, with the packet that it completes.
def Iterates (outcome : Nat → Outcome) (walker : Nat) (c : Conn) (event : Option Delivered) (next : Conn) : Prop :=
  c.recv_bufs_offset < walker ∧ iterate outcome c = some (next,event)

-- How many iterations may still come before one that consumes a byte. A length that is
-- complete leads to the data, or past it to the tail, and from either back to the head.
def idle (c : Conn) : Nat :=
  match c.recv_stage with
  | .recv_data_len => if c.sub_offset < 4 then 0 else 3
  | .recv_data => 2
  | .recv_tail => 1
  | _ => 0

def left (walker : Nat) (c : Conn) : Nat := 4*(walker - c.recv_bufs_offset) + idle c

-- What the iteration needs of the offsets.
structure Within (walker : Nat) (c : Conn) : Prop where
  walker : walker ≤ c.recv_bufs_size
  size : c.recv_bufs_size < 2^32

-- The size stays, and bytes are consumed or the connection is nearer to it.
structure Nearer (c next : Conn) : Prop where
  size : next.recv_bufs_size = c.recv_bufs_size
  nearer : c.recv_bufs_offset < next.recv_bufs_offset ∨ next.recv_bufs_offset = c.recv_bufs_offset ∧ idle next < idle c

variable {outcome : Nat → Outcome} {walker : Nat} {c next found : Conn} {event : Option Delivered}

theorem idle_le (c : Conn) : idle c ≤ 3 := by
  unfold idle
  split
  · split <;> omega
  · omega
  · omega
  · omega

theorem consumed_nearer {other : Conn} (size : other.recv_bufs_size = c.recv_bufs_size)
    (offset : other.recv_bufs_offset = c.recv_bufs_offset) : Nearer c (consume other) := by
  refine ⟨size,.inl ?_⟩
  simp only [consume,offset]
  exact Nat.lt_succ_self _

theorem head_nearer (ran : recv_head c = some (next,event)) : Nearer c next := by
  obtain ⟨expected,_,rest⟩ := Option.bind_eq_some_iff.mp ran
  obtain ⟨byte,_,same⟩ := Option.map_eq_some_iff.mp rest
  split at same
  · dsimp only at same
    split at same
    · cases same
      exact consumed_nearer rfl rfl
    · cases same
      exact consumed_nearer rfl rfl
  · cases same
    exact consumed_nearer rfl rfl

theorem seqn_nearer (ran : recv_seqn c = some (next,event)) : Nearer c next := by
  obtain ⟨byte,_,same⟩ := Option.map_eq_some_iff.mp ran
  cases same
  exact consumed_nearer rfl rfl

theorem cmd_nearer (ran : recv_cmd c = some (next,event)) : Nearer c next := by
  obtain ⟨byte,_,same⟩ := Option.map_eq_some_iff.mp ran
  cases same
  exact consumed_nearer rfl rfl

theorem tail_nearer (stage : c.recv_stage = .recv_tail) (ran : recv_tail c = some (next,event)) : Nearer c next := by
  obtain ⟨expected,_,rest⟩ := Option.bind_eq_some_iff.mp ran
  obtain ⟨byte,_,same⟩ := Option.map_eq_some_iff.mp rest
  split at same
  · dsimp only at same
    split at same
    · split at same
      · split at same
        · -- the asynchronous branch, which leaves the byte
          cases same
          refine ⟨rfl,.inr ⟨rfl,?_⟩⟩
          simp [idle,stage,set_event,drop_packet]
        · cases same
          exact consumed_nearer rfl rfl
      · cases same
        exact consumed_nearer rfl rfl
    · cases same
      exact consumed_nearer rfl rfl
  · cases same
    exact consumed_nearer rfl rfl

-- The length is complete, whatever the check of it did before.
theorem entered_nearer {n : Conn} {refused : Prop} [Decidable refused] {stage : Stage} (waits : idle c = 3)
    (later : stage = .recv_data ∨ stage = .recv_tail) (size : n.recv_bufs_size = c.recv_bufs_size)
    (offset : n.recv_bufs_offset = c.recv_bufs_offset) :
    Nearer c (enter_stage (if refused then drop_packet n else n) stage) := by
  refine ⟨?_,.inr ⟨?_,?_⟩⟩
  · split <;> exact size
  · split <;> exact offset
  · rw [waits]
    rcases later with rfl | rfl
    · exact Nat.lt_succ_self 2
    · exact Nat.lt_of_succ_lt (Nat.lt_succ_self 2)

theorem data_len_nearer (stage : c.recv_stage = .recv_data_len) (ran : recv_data_len c = some (next,event)) :
    Nearer c next := by
  unfold recv_data_len at ran
  dsimp only at ran
  split at ran
  · obtain ⟨byte,_,same⟩ := Option.map_eq_some_iff.mp ran
    cases same
    exact consumed_nearer rfl rfl
  · rename_i complete
    have waits : idle c = 3 := by simp [idle,stage,complete]
    generalize (if c.sub_offset = 0 then 0 else c.packet.data_len) = data_len at ran
    split at ran
    · cases ran
      exact entered_nearer waits (.inl rfl) rfl rfl
    · cases ran
      exact entered_nearer waits (.inr rfl) rfl rfl

-- Looking for a buffer leaves the rest of the connection alone.
structure Provides (c found : Conn) : Prop where
  size : found.recv_bufs_size = c.recv_bufs_size
  offset : found.recv_bufs_offset = c.recv_bufs_offset
  stage : found.recv_stage = c.recv_stage

theorem provide_keeps (ran : provide_databufs outcome c = some found) : Provides c found := by
  unfold provide_databufs at ran
  split at ran
  · split at ran
    · cases ran
      exact ⟨rfl,rfl,rfl⟩
    · obtain ⟨cleared,_,rfl⟩ := Option.map_eq_some_iff.mp ran
      exact ⟨rfl,rfl,rfl⟩
  · split at ran
    · cases ran
      exact ⟨rfl,rfl,rfl⟩
    · obtain ⟨cleared,_,rfl⟩ := Option.map_eq_some_iff.mp ran
      exact ⟨rfl,rfl,rfl⟩

-- With bytes left to read, a copy of none means that the data was complete.
theorem finish_nearer {other : Conn} {diff : Nat} (stage : c.recv_stage = .recv_data) (size : other.recv_bufs_size = c.recv_bufs_size)
    (offset : other.recv_bufs_offset = c.recv_bufs_offset + diff)
    (done : diff = 0 → sub32 other.packet.data_len other.packet_databufs_offset = 0) : Nearer c (finish_data other) := by
  have waits : idle c = 2 := by simp [idle,stage]
  rcases Nat.eq_zero_or_pos diff with rfl | positive
  · rw [finish_data,if_pos (Nat.le_of_eq (done rfl))]
    refine ⟨size,.inr ⟨offset,?_⟩⟩
    rw [waits]
    exact Nat.lt_succ_self 1
  · have moved : c.recv_bufs_offset < other.recv_bufs_offset := by omega
    unfold finish_data
    split
    · exact ⟨size,.inl moved⟩
    · exact ⟨size,.inl moved⟩

theorem data_nearer (stage : c.recv_stage = .recv_data) (room : c.recv_bufs_offset < c.recv_bufs_size)
    (small : c.recv_bufs_size < 2^32) (ran : recv_data outcome c = some (next,event)) : Nearer c next := by
  obtain ⟨found,provided,rest⟩ := Option.bind_eq_some_iff.mp ran
  obtain ⟨size,offset,same_stage⟩ := provide_keeps provided
  split at rest
  · cases rest
    refine ⟨size,.inr ⟨offset,?_⟩⟩
    simp [idle,stage,drop_packet]
  · obtain ⟨copied,copies,same⟩ := Option.map_eq_some_iff.mp rest
    cases same
    obtain ⟨bytes,_,rfl⟩ := Option.map_eq_some_iff.mp copies
    refine finish_nearer stage size (congrArg (· + _) offset) fun none_copied => ?_
    have free : 0 < sub32 found.recv_bufs_size found.recv_bufs_offset := by
      rw [size,offset,sub32_le (Nat.le_of_lt room) small]
      omega
    have lacking : sub32 found.packet.data_len found.packet_databufs_offset = 0 :=
      (Nat.min_eq_zero_iff.mp none_copied).resolve_right (Nat.ne_of_gt free)
    rw [none_copied]
    exact lacking

theorem iterate_nearer (within : Within walker c) (pass : Iterates outcome walker c event next) : Nearer c next := by
  obtain ⟨more,ran⟩ := pass
  unfold iterate at ran
  cases stage : c.recv_stage with
  | recv_head =>
    rw [stage] at ran
    exact head_nearer ran
  | recv_completed =>
    rw [stage] at ran
    exact head_nearer ran
  | recv_seqn =>
    rw [stage] at ran
    exact seqn_nearer ran
  | recv_cmd =>
    rw [stage] at ran
    exact cmd_nearer ran
  | recv_data_len =>
    rw [stage] at ran
    exact data_len_nearer stage ran
  | recv_data =>
    rw [stage] at ran
    exact data_nearer stage (Nat.lt_of_lt_of_le more within.walker) within.size ran
  | recv_tail =>
    rw [stage] at ran
    exact tail_nearer stage ran

theorem within_kept (within : Within walker c) (pass : Iterates outcome walker c event next) : Within walker next := by
  have same := (iterate_nearer within pass).size
  exact ⟨same ▸ within.walker,same ▸ within.size⟩

-- An iteration that consumes makes up for those that may come before the next one.
theorem left_falls (within : Within walker c) (pass : Iterates outcome walker c event next) : left walker next < left walker c := by
  obtain ⟨_,consumed | ⟨same,idler⟩⟩ := iterate_nearer within pass
  · have most := idle_le next
    have more := pass.1
    unfold left
    omega
  · unfold left
    rw [same]
    omega

-- Every connection whose received bytes lie inside its buffer. Iterations that consume
-- nothing are three in a row at most, and from a safe state the loop ends by its condition.
theorem loop_ends (outcome : Nat → Outcome) (c : Conn) (room : walker_count c ≤ c.recv_bufs_size)
    (small : c.recv_bufs_size < 2^32) :
    (∀ states : Nat → Conn, states 0 = c → ¬ Endless (Iterates outcome (walker_count c)) states) ∧
    (∀ moves next, Run (Iterates outcome (walker_count c)) c moves next → moves.length ≤ 4*c.recv_count.toNat + 3 ∧
      (next.recv_bufs_offset = c.recv_bufs_offset → moves.length ≤ 3)) ∧
    (Safe c → ∃ last events, ipc_packet_analyze outcome c = some (last,events) ∧ walker_count c ≤ last.recv_bufs_offset) := by
  have within : Within (walker_count c) c := ⟨room,small⟩
  refine ⟨?_,?_,?_⟩
  · intro states first
    exact not_endless (first ▸ within) within_kept left_falls
  · intro moves next run
    have few := run.lowers within within_kept left_falls
    have most := idle_le c
    simp only [left,walker_count] at few
    refine ⟨by omega,fun same => ?_⟩
    rw [same] at few
    omega
  · intro safe
    obtain ⟨last,events,_,ran,_,done⟩ := analyze_runs outcome [] safe room
    exact ⟨last,events,ran,done⟩

-- The loop's test and its body, as the event that the body leads to.
def pass (outcome : Nat → Outcome) (walker : Nat) (c : Conn) (event : Option Delivered) : Option Conn :=
  if c.recv_bufs_offset < walker then
    (iterate outcome c).bind fun next => if next.2 = event then some next.1 else none
  else none

theorem pass_iterates (taken : Follows (pass outcome walker) c event next) : Iterates outcome walker c event next := by
  have taken : pass outcome walker c event = some next := taken
  unfold pass at taken
  split at taken
  · obtain ⟨⟨found,told⟩,ran,same⟩ := Option.bind_eq_some_iff.mp taken
    refine ⟨‹_›,?_⟩
    split at same
    · rename_i told_event
      cases told_event
      cases same
      exact ran
    · cases same
  · cases taken

-- A header that announces two bytes, and one of them. Behind the ninth byte the length
-- is found complete, and there is no buffer for the data: two passes that consume nothing.
def malformed : Conn :=
  {connected true with
    recv_count := 10
    recv_bufs := [0x53,0x54,0x58,1,2,0,0,0,2,7] ++ List.replicate 502 0}

theorem malformed_ends :
    (∃ last events, ipc_packet_analyze (fun _ => none) malformed = some (last,events) ∧
      walker_count malformed ≤ last.recv_bufs_offset) ∧
    ∃ moves next, Run (Iterates (fun _ => none) (walker_count malformed)) malformed moves next ∧
      next.recv_bufs_offset = 9 ∧ moves.length = 9 + 2 ∧ moves.length ≤ 4*malformed.recv_count.toNat + 3 := by
  have safe : Safe malformed := by
    obtain ⟨_,size,offset,sub,completed,data_len,databufs,positive,idle,filling⟩ := connected_safe true
    exact ⟨by decide +kernel,size,offset,sub,completed,data_len,databufs,positive,idle,filling⟩
  obtain ⟨_,bounded,ends⟩ := loop_ends (fun _ => none) malformed (by decide) (by decide)
  refine ⟨ends safe,?_⟩
  obtain ⟨moves,next,run,_,checked⟩ := Run.of_check (pass (fun _ => none) (walker_count malformed)) malformed
    (List.replicate 11 none) (fun result => decide (result.2.recv_bufs_offset = 9 ∧ result.1.length = 9 + 2)) (by decide +kernel)
  obtain ⟨offset,length⟩ := of_decide_eq_true checked
  have passes := run.imp fun _ _ _ => pass_iterates
  exact ⟨moves,next,passes,offset,length,(bounded moves next passes).1⟩

end Libcplus.Ipc.Termination
