import Libcplus.Ipc.Safety

namespace Libcplus.Ipc
open Bytes Memory Transition

-- The same connection over other contents of recv_bufs.
def overlay (c : Conn) (recv_bufs : List UInt8) : Conn := {c with recv_bufs := recv_bufs}

variable {c : Conn} {outcome : Nat → Outcome} {bufs : List UInt8}

def overlaid (bufs : List UInt8) (pass : Conn × Option Delivered) : Conn × Option Delivered :=
  (overlay pass.1 bufs,pass.2)

-- The stages that read one byte see no more of recv_bufs than that byte.
theorem recv_head_overlay (read : bufs[c.recv_bufs_offset]? = c.recv_bufs[c.recv_bufs_offset]?) :
    recv_head (overlay c bufs) = (recv_head c).map (overlaid bufs) := by
  simp only [recv_head,overlay,read]
  cases IPC_CONN_PACKET_BEGIN_TAG[c.sub_offset]? with
  | none => rfl
  | some expected =>
    cases c.recv_bufs[c.recv_bufs_offset]? with
    | none => rfl
    | some byte =>
      by_cases same : expected = byte
      · by_cases last : IPC_CONN_PACKET_TAG_SIZE ≤ c.sub_offset + 1
        · simp only [Option.bind_some,Option.map_some,if_pos same,last,if_true]; rfl
        · simp only [Option.bind_some,Option.map_some,if_pos same,last,if_false]; rfl
      · simp only [Option.bind_some,Option.map_some,if_neg same]; rfl

theorem recv_seqn_overlay (read : bufs[c.recv_bufs_offset]? = c.recv_bufs[c.recv_bufs_offset]?) :
    recv_seqn (overlay c bufs) = (recv_seqn c).map (overlaid bufs) := by
  simp only [recv_seqn,overlay,read]
  cases c.recv_bufs[c.recv_bufs_offset]? <;> rfl

theorem recv_cmd_overlay (read : bufs[c.recv_bufs_offset]? = c.recv_bufs[c.recv_bufs_offset]?) :
    recv_cmd (overlay c bufs) = (recv_cmd c).map (overlaid bufs) := by
  simp only [recv_cmd,overlay,read]
  cases c.recv_bufs[c.recv_bufs_offset]? <;> rfl

theorem recv_data_len_overlay (read : bufs[c.recv_bufs_offset]? = c.recv_bufs[c.recv_bufs_offset]?) :
    recv_data_len (overlay c bufs) = (recv_data_len c).map (overlaid bufs) := by
  simp only [recv_data_len,overlay,read]
  by_cases more : c.sub_offset < 4
  · simp only [if_pos more]
    cases c.recv_bufs[c.recv_bufs_offset]? <;> rfl
  · have begun : ¬ c.sub_offset = 0 := by omega
    by_cases large : MAX_PACKET_DATA_SIZE < c.packet.data_len
    · by_cases positive : 0 < c.packet.data_len
      · simp only [more,begun,large,positive,if_true,if_false]; rfl
      · simp only [more,begun,large,positive,if_true,if_false]; rfl
    · by_cases positive : 0 < c.packet.data_len
      · simp only [more,begun,large,positive,if_true,if_false]; rfl
      · simp only [more,begun,large,positive,if_false]; rfl

theorem recv_tail_overlay (read : bufs[c.recv_bufs_offset]? = c.recv_bufs[c.recv_bufs_offset]?) :
    recv_tail (overlay c bufs) = (recv_tail c).map (overlaid bufs) := by
  simp only [recv_tail,overlay,read]
  cases IPC_CONN_PACKET_END_TAG[c.sub_offset]? with
  | none => rfl
  | some expected =>
    cases c.recv_bufs[c.recv_bufs_offset]? with
    | none => rfl
    | some byte =>
      by_cases same : expected = byte
      · by_cases last : IPC_CONN_PACKET_TAG_SIZE ≤ c.sub_offset + 1
        · simp only [Option.bind_some,Option.map_some,if_pos same,last,if_true,drop_packet]
          cases evt : c.evt_packet_received with
          | none => rfl
          | some flag =>
            by_cases async : c.is_async = true
            · simp only [set_event,async]; rfl
            · simp only [set_event,async]; rfl
        · simp only [Option.bind_some,Option.map_some,if_pos same,last,if_false]; rfl
      · simp only [Option.bind_some,Option.map_some,if_neg same]; rfl

theorem provide_databufs_overlay :
    provide_databufs outcome (overlay c bufs) =
      (provide_databufs outcome c).map fun found => overlay found bufs := by
  have same : enlarge outcome (overlay c bufs) = enlarge outcome c := rfl
  unfold provide_databufs
  by_cases small : c.packet_databufs_size < c.packet.data_len
  · have small_too : (overlay c bufs).packet_databufs_size < (overlay c bufs).packet.data_len := small
    rw [if_pos small,if_pos small_too,same]
    cases enlarge outcome c with
    | none => rfl
    | some block =>
      simp only [overlay]
      cases cplus_mem_set (some block) 0 c.packet.data_len <;> rfl
  · have enough_too : ¬ (overlay c bufs).packet_databufs_size < (overlay c bufs).packet.data_len := small
    rw [if_neg small,if_neg enough_too,show (overlay c bufs).packet_databufs = c.packet_databufs from rfl]
    cases c.packet_databufs with
    | some block => rfl
    | none =>
      simp only [overlay]
      cases cplus_mem_set (cplus_malloc (outcome c.allocations) c.packet_databufs_size) 0
        c.packet_databufs_size <;> rfl

-- The copy sees the bytes that it takes.
theorem copy_databufs_overlay (block : List UInt8) (there : c.packet_databufs = some block)
    (count : min (sub32 c.packet.data_len c.packet_databufs_offset)
      (sub32 c.recv_bufs_size c.recv_bufs_offset) = copied c)
    (bytes : slice bufs c.recv_bufs_offset (copied c) =
      slice c.recv_bufs c.recv_bufs_offset (copied c)) :
    copy_databufs (overlay c bufs) = (copy_databufs c).map fun next => overlay next bufs := by
  simp only [copy_databufs,overlay,count,there,cplus_mem_cpy_ex,bytes]
  split
  · rfl
  · cases slice c.recv_bufs c.recv_bufs_offset (copied c) with
    | none => rfl
    | some taken =>
      simp only [Option.bind_some]
      cases splice block c.packet_databufs_offset taken <;> rfl

theorem finish_data_overlay : finish_data (overlay c bufs) = overlay (finish_data c) bufs := by
  unfold finish_data
  by_cases done : sub32 c.packet.data_len c.packet_databufs_offset ≤ 0
  · rw [if_pos done,if_pos (show sub32 (overlay c bufs).packet.data_len
      (overlay c bufs).packet_databufs_offset ≤ 0 from done)]
    rfl
  · rw [if_neg done,if_neg (show ¬ sub32 (overlay c bufs).packet.data_len
      (overlay c bufs).packet_databufs_offset ≤ 0 from done)]

theorem recv_data_overlay (safe : Safe c) (stage : c.recv_stage = .recv_data)
    (room : c.recv_bufs_offset < c.recv_bufs_size)
    (bytes : slice bufs c.recv_bufs_offset (copied c) =
      slice c.recv_bufs c.recv_bufs_offset (copied c)) :
    recv_data outcome (overlay c bufs) = (recv_data outcome c).map (overlaid bufs) := by
  obtain ⟨found,provide,provided⟩ := provide_parts outcome safe stage
  simp only [recv_data,provide_databufs_overlay,provide,Option.map_some,Option.bind_some]
  have lacking := (safe.filling stage).1
  have copies : ∀ block, found.packet_databufs = some block →
      copy_databufs (overlay found bufs) = (copy_databufs found).map fun next => overlay next bufs := by
    intro block there
    cases provided with
    | kept =>
      exact copy_databufs_overlay block there (diff_copied lacking safe.data_len safe.size room) bytes
    | refused => cases there
    | obtained =>
      exact copy_databufs_overlay block there (diff_copied lacking safe.data_len safe.size room) bytes
  rw [show (overlay found bufs).packet_databufs = found.packet_databufs from rfl]
  cases there : found.packet_databufs with
  | none => rfl
  | some block =>
    simp only [copies block there]
    cases copy_databufs found with
    | none => rfl
    | some next =>
      simp only [Option.map_some,finish_data_overlay]
      rfl

theorem iterate_overlay (outcome : Nat → Outcome) (safe : Safe c) (room : c.recv_bufs_offset < c.recv_bufs_size)
    (read : bufs[c.recv_bufs_offset]? = c.recv_bufs[c.recv_bufs_offset]?)
    (bytes : c.recv_stage = .recv_data → slice bufs c.recv_bufs_offset (copied c) =
      slice c.recv_bufs c.recv_bufs_offset (copied c)) :
    iterate outcome (overlay c bufs) = (iterate outcome c).map (overlaid bufs) := by
  have same : (overlay c bufs).recv_stage = c.recv_stage := rfl
  unfold iterate
  rw [same]
  cases stage : c.recv_stage with
  | recv_head | recv_completed => exact recv_head_overlay read
  | recv_seqn => exact recv_seqn_overlay read
  | recv_cmd => exact recv_cmd_overlay read
  | recv_data_len => exact recv_data_len_overlay read
  | recv_data => exact recv_data_overlay safe stage room (bytes stage)
  | recv_tail => exact recv_tail_overlay read

-- Two sessions at the same point that agree on what has been received and not
-- yet looked at.
structure Twin (s t : Session) : Prop where
  conn : t.conn = overlay s.conn t.conn.recv_bufs
  length : t.conn.recv_bufs.length = s.conn.recv_bufs.length
  walker : t.walker = s.walker
  completed : t.completed = s.completed
  received : ∀ i, s.conn.recv_bufs_offset ≤ i → i < s.walker →
    t.conn.recv_bufs[i]? = s.conn.recv_bufs[i]?

-- A RECV_DATA pass that takes no more than was received.
def TakesReceived (s : Session) (a : Action) : Prop :=
  a = .pass → s.conn.recv_stage = .recv_data →
    copied s.conn ≤ s.walker - s.conn.recv_bufs_offset

instance (s : Session) (a : Action) : Decidable (TakesReceived s a) :=
  inferInstanceAs (Decidable (_ → _ → _))

variable {s t next : Session} {a : Action}

theorem pass_twin (bounded : s.Bounded) (twin : Twin s t)
    (taken : Session.Step outcome s .pass next) (honest : TakesReceived s .pass) :
    ∃ after, Session.Step outcome t .pass after ∧ Twin next after := by
  obtain ⟨room,walker,event,completed,result,pass⟩ := pass_parts bounded taken
  have running : s.conn.recv_bufs_offset < s.walker := by
    simp only [Follows,Session.advance] at taken
    split at taken
    · assumption
    · cases taken
  have same := pass_progress bounded.safe room pass
  have read := twin.received s.conn.recv_bufs_offset (Nat.le_refl _) running
  have bytes : s.conn.recv_stage = .recv_data →
      slice t.conn.recv_bufs s.conn.recv_bufs_offset (copied s.conn) =
        slice s.conn.recv_bufs s.conn.recv_bufs_offset (copied s.conn) := fun stage =>
    slice_congr twin.length fun i lower upper => by
      have within := honest rfl stage
      exact twin.received i lower (by omega)
  have mirrored := iterate_overlay outcome bounded.safe room read bytes
  rw [← twin.conn,result] at mirrored
  have offset : t.conn.recv_bufs_offset = s.conn.recv_bufs_offset := by rw [twin.conn]; rfl
  refine ⟨⟨overlay next.conn t.conn.recv_bufs,s.walker,s.completed ++ event.toList⟩,?_,?_⟩
  · simp only [Follows,Session.advance,offset,twin.walker,if_pos running,mirrored,Option.map_some,
      overlaid,twin.completed]
  · refine ⟨rfl,twin.length.trans (congrArg List.length same.1).symm,walker.symm,completed.symm,?_⟩
    intro i lower upper
    rw [walker] at upper
    have after : s.conn.recv_bufs_offset ≤ i := by
      rcases same.2.2 with moved | ⟨still,_⟩
      · omega
      · omega
    rw [same.1]
    exact twin.received i after upper

theorem wrap_offset_overlay : wrap_offset (overlay c bufs) = overlay (wrap_offset c) bufs := by
  unfold wrap_offset
  by_cases full : c.recv_bufs_size ≤ c.recv_bufs_offset
  · have full_too : (overlay c bufs).recv_bufs_size ≤ (overlay c bufs).recv_bufs_offset := full
    rw [if_pos full,if_pos full_too]
    rfl
  · have room_too : ¬ (overlay c bufs).recv_bufs_size ≤ (overlay c bufs).recv_bufs_offset := full
    rw [if_neg full,if_neg room_too]

theorem wrap_offset_bufs (c : Conn) : (wrap_offset c).recv_bufs = c.recv_bufs := by
  unfold wrap_offset
  split <;> rfl

-- A recv that brings nothing leaves nothing to be read.
theorem Twin.unread (twin : Twin s t) (nothing : c.recv_count.toNat = 0)
    (length : t.conn.recv_bufs.length = c.recv_bufs.length) :
    Twin ⟨c,walker_count c,s.completed⟩
      ⟨overlay c t.conn.recv_bufs,walker_count (overlay c t.conn.recv_bufs),t.completed⟩ := by
  refine ⟨rfl,length,rfl,twin.completed,?_⟩
  intro i lower upper
  simp only [walker_count,nothing,Nat.zero_add] at upper
  exact absurd upper (Nat.not_lt_of_le lower)

theorem recv_twin {received : Received} (twin : Twin s t)
    (taken : Session.Step outcome s (.recv received) next) :
    ∃ after, Session.Step outcome t (.recv received) after ∧ Twin next after := by
  obtain ⟨waiting,admissible,stored,store,rfl⟩ := recv_parts taken
  have open_status : s.conn.status ≠ .not_connected := by
    simp only [Follows,Session.advance] at taken
    split at taken
    · rename_i guard; exact guard.2.1
    · cases taken
  have room : recv_room t.conn = recv_room s.conn := by
    rw [twin.conn]
    simp only [recv_room,wrap_offset_overlay]
    rfl
  have guard : t.walker ≤ t.conn.recv_bufs_offset ∧ t.conn.status ≠ .not_connected ∧
      Admissible t.conn received := by
    refine ⟨?_,?_,?_⟩
    · rw [twin.walker,twin.conn]; exact waiting
    · rw [twin.conn]; exact open_status
    · cases received with
      | data bytes => exact ⟨admissible.1,room ▸ admissible.2⟩
      | closed | error => trivial
  have step : ∀ c, ipc_conn_recv t.conn received = some c →
      Session.Step outcome t (.recv received) ⟨c,walker_count c,t.completed⟩ := by
    intro c stored
    simp only [Follows,Session.advance,if_pos guard,stored,Option.map_some]
  have wrapped : wrap_offset t.conn = overlay (wrap_offset s.conn) t.conn.recv_bufs := by
    rw [← wrap_offset_overlay,← twin.conn]
  have same_length : t.conn.recv_bufs.length = (wrap_offset s.conn).recv_bufs.length := by
    rw [wrap_offset_bufs]; exact twin.length
  cases received with
  | data bytes =>
    simp only [ipc_conn_recv,store_received] at store
    cases spliced : splice (wrap_offset s.conn).recv_bufs (wrap_offset s.conn).recv_bufs_offset
        bytes with
    | none => simp [spliced] at store
    | some written =>
      simp only [spliced,Option.map_some,Option.some.injEq] at store
      have fits := (splice_parts spliced).1
      obtain ⟨other,other_spliced⟩ : ∃ other,
          splice t.conn.recv_bufs (wrap_offset s.conn).recv_bufs_offset bytes = some other :=
        ⟨_,splice_some (by rw [same_length]; exact fits)⟩
      refine ⟨_,step {wrap_offset t.conn with
        recv_bufs := other,recv_count := bytes.length,sock_error := none,status := .connected} ?_,?_⟩
      · simp only [ipc_conn_recv,store_received,wrapped,overlay,other_spliced,Option.map_some]
      · subst store
        refine ⟨?_,?_,?_,twin.completed,?_⟩
        · simp only [wrapped,overlay]
        · show other.length = written.length
          rw [splice_length other_spliced,splice_length spliced]
          exact same_length
        · simp only [walker_count,wrapped,overlay]
        · intro i lower upper
          simp only [walker_count,Int.toNat_natCast] at lower upper
          show other[i]? = written[i]?
          rw [splice_inside other_spliced lower (by omega),splice_inside spliced lower (by omega)]
  | closed =>
    simp only [ipc_conn_recv,store_received,Option.some.injEq] at store
    refine ⟨_,step {wrap_offset t.conn with recv_count := 0,status := .not_connected} rfl,?_⟩
    subst store
    rw [wrapped]
    exact twin.unread rfl same_length
  | error errno =>
    simp only [ipc_conn_recv,store_received,Option.some.injEq] at store
    refine ⟨_,step _ rfl,?_⟩
    subst store
    rw [wrapped]
    exact twin.unread rfl same_length

-- What recv_bufs held before has no part in what the session completes.
theorem stale_bytes_unseen {bufs : List UInt8} {moves : List (Move Session Action)}
    (bounded : s.Bounded) (waiting : s.walker ≤ s.conn.recv_bufs_offset)
    (length : bufs.length = s.conn.recv_bufs.length)
    (run : Run (Session.Step outcome) s moves t) (honest : Meets TakesReceived moves) :
    ∃ other after, Run (Session.Step outcome) {s with conn := overlay s.conn bufs} other after ∧
      other.map Move.action = moves.map Move.action ∧ after.completed = t.completed := by
  have start : Twin s {s with conn := overlay s.conn bufs} :=
    ⟨rfl,length,rfl,rfl,fun i lower upper => by omega⟩
  suffices twins : ∃ other after,
      Run (Session.Step outcome) {s with conn := overlay s.conn bufs} other after ∧
        other.map Move.action = moves.map Move.action ∧ Twin t after by
    obtain ⟨other,after,path,actions,twin⟩ := twins
    exact ⟨other,after,path,actions,twin.completed⟩
  induction run with
  | nil => exact ⟨[],_,.nil,rfl,start⟩
  | @snoc moves s' a t' prior taken ih =>
    obtain ⟨earlier,here⟩ := meets_snoc.mp honest
    obtain ⟨other,after,path,actions,twin⟩ := ih earlier
    have bounded' : s'.Bounded := (prior.invariant bounded step_bounded).1
    obtain ⟨next,step,next_twin⟩ : ∃ next, Session.Step outcome after a next ∧ Twin t' next := by
      cases a with
      | recv received => exact recv_twin twin taken
      | pass => exact pass_twin bounded' twin taken here
    exact ⟨_,next,path.snoc step,by simp [actions],next_twin⟩

def blank : Nat → Outcome := fun _ => some fun _ => 0

-- The packet of sequence number 1 with data 7, 8, in one chunk and cut after the 7.
def wholeChunk : List Action :=
  .recv (.data [0x53,0x54,0x58,1,2,0,0,0,2,7,8,0x45,0x54,0x58]) :: List.replicate 14 .pass

def cutChunks : List Action :=
  .recv (.data [0x53,0x54,0x58,1,2,0,0,0,2,7]) :: List.replicate 11 .pass ++
    .recv (.data [0x45,0x54,0x58]) :: List.replicate 3 .pass

def nines : List UInt8 := List.replicate 512 9

theorem nines_length : nines.length = (Session.start true).conn.recv_bufs.length := by
  show (List.replicate 512 9).length = (List.replicate 512 0).length
  rw [List.length_replicate,List.length_replicate]

theorem whole_chunk_unseen :
    ∃ other after, Run (Session.Step blank)
        {Session.start true with conn := overlay (Session.start true).conn nines} other after ∧
      other.map Move.action = wholeChunk ∧ after.completed = [⟨1,IPC_CMD_REQUEST,2,[7,8]⟩] := by
  obtain ⟨moves,t,result,run,actions⟩ := Run.of_executes (Session.advance blank)
    (Session.start true) wholeChunk (by decide +kernel)
  have honest : (execute (Session.advance blank) (Session.start true) wholeChunk).map
      (fun r => decide (Meets TakesReceived r.1)) = some true := by decide +kernel
  have completed : (execute (Session.advance blank) (Session.start true) wholeChunk).map
      (fun r => r.2.completed) = some [⟨1,IPC_CMD_REQUEST,2,[7,8]⟩] := by decide +kernel
  rw [result] at honest completed
  obtain ⟨other,after,path,same,unseen⟩ := stale_bytes_unseen
    (start_bounded true) (Nat.zero_le _) nines_length run (by simpa using honest)
  exact ⟨other,after,path,same.trans actions,unseen.trans (by simpa using completed)⟩

-- The byte after the cut is taken from recv_bufs before it arrives.
theorem cut_shows_stale :
    ¬ ∀ (outcome : Nat → Outcome) (s t : Session) (bufs : List UInt8)
      (moves : List (Move Session Action)), s.Bounded → s.conn.is_async = true →
      s.walker ≤ s.conn.recv_bufs_offset → bufs.length = s.conn.recv_bufs.length →
      Run (Session.Step outcome) s moves t →
      ∃ other after, Run (Session.Step outcome) {s with conn := overlay s.conn bufs} other after ∧
        other.map Move.action = moves.map Move.action ∧ after.completed = t.completed := by
  intro claim
  obtain ⟨moves,t,result,run,actions⟩ := Run.of_executes (Session.advance blank)
    (Session.start true) cutChunks (by decide +kernel)
  obtain ⟨other,after,path,same,unseen⟩ := claim blank _ t nines moves (start_bounded true) rfl
    (Nat.zero_le _) nines_length run
  have here : (execute (Session.advance blank) (Session.start true) cutChunks).map
      (fun r => r.2.completed) = some [⟨1,IPC_CMD_REQUEST,2,[7,0]⟩] := by decide +kernel
  have there : (execute (Session.advance blank)
      {Session.start true with conn := overlay (Session.start true).conn nines} cutChunks).map
      (fun r => r.2.completed) = some [⟨1,IPC_CMD_REQUEST,2,[7,9]⟩] := by decide +kernel
  rw [result] at here
  have ran := path.executes
  rw [same,actions] at ran
  rw [ran] at there
  simp only [Option.map_some,Option.some.injEq] at here there
  rw [here,there] at unseen
  cases unseen

end Libcplus.Ipc
