import Libcplus.Ipc.Safety

namespace Libcplus.Ipc
open Memory Transition

-- A complete length field that declares more data than the parser takes.
def Oversized (c : Conn) : Prop :=
  c.recv_stage = .recv_data_len ∧ c.sub_offset = 4 ∧ MAX_PACKET_DATA_SIZE < c.packet.data_len

instance (c : Conn) : Decidable (Oversized c) := inferInstanceAs (Decidable (_ ∧ _ ∧ _))

-- A pass of the run reads past such a field: the byte behind it is there.
def Looks (s : Session) (a : Action) : Prop := a = .pass ∧ Oversized s.conn

-- The parser goes back to the begin tag, allocates for packets it takes only, and
-- completes no other.
structure Drops (moves : List (Move Session Action)) (s : Session) : Prop where
  returns : ∀ m ∈ moves, Looks m.before m.action →
    m.after.conn.recv_stage = .recv_head ∧ m.after.conn.sub_offset = 0
  allocates : ∀ m ∈ moves, m.after.conn.allocations ≠ m.before.conn.allocations →
    m.before.conn.packet.data_len ≤ MAX_PACKET_DATA_SIZE
  delivers : ∀ packet ∈ s.completed, packet.data_len ≤ MAX_PACKET_DATA_SIZE

variable {c next : Conn} {outcome : Nat → Outcome} {event : Option Delivered} {s t : Session} {a : Action}

-- The packet whose data or end tag is awaited is one that the parser takes.
structure Moderate (c : Conn) : Prop where
  data : c.recv_stage = .recv_data → c.packet.data_len ≤ MAX_PACKET_DATA_SIZE
  tail : c.recv_stage = .recv_tail → c.packet.data_len ≤ MAX_PACKET_DATA_SIZE

theorem Moderate.other (data : (c.recv_stage == .recv_data) = false) (tail : (c.recv_stage == .recv_tail) = false) :
    Moderate c := by
  refine ⟨fun at_data => ?_,fun at_tail => ?_⟩
  · rw [at_data] at data
    cases data
  · rw [at_tail] at tail
    cases tail

theorem Moderate.of_len (small : c.packet.data_len ≤ MAX_PACKET_DATA_SIZE) : Moderate c :=
  ⟨fun _ => small,fun _ => small⟩

theorem pass_moderate (moderate : Moderate c) (pass : Pass outcome c next event) (fits : ¬ Oversized c) :
    Moderate next := by
  cases pass with
  | head_dropped | head_complete | seqn | cmd | tail_dropped | tail_complete | tail_stays =>
    exact .other rfl rfl
  | head_matched stage | length_byte stage =>
    apply Moderate.other
    · simp [consume,stage]
    · simp [consume,stage]
  | length_some stage last =>
    apply Moderate.of_len
    by_contra oversized
    exact fits ⟨stage,last,Nat.lt_of_not_le oversized⟩
  | length_none stage last zero => exact .of_len (Nat.le_trans (Nat.le_of_eq zero) (Nat.zero_le _))
  | data_refused => exact .other rfl rfl
  | data_copied stage provided =>
    apply Moderate.of_len
    have small := moderate.data stage
    unfold filled
    cases provided with
    | kept | refused | obtained => split <;> exact small
  | tail_matched stage => exact .of_len (moderate.tail stage)

-- The drop is undone by the statements below it.
theorem pass_oversized (pass : Pass outcome c next event) (oversized : Oversized c) :
    next.recv_stage = .recv_data ∧ next.packet.data_len = c.packet.data_len := by
  obtain ⟨stage,last,long⟩ := oversized
  cases pass with
  | length_some => exact ⟨rfl,rfl⟩
  | length_none _ _ zero =>
    rw [zero] at long
    cases long
  | length_byte _ _ more =>
    rw [last] at more
    cases Nat.lt_irrefl 4 more
  | head_dropped other | head_matched other | head_complete other | seqn other | cmd other | data_refused other
  | data_copied other | tail_dropped other | tail_matched other | tail_complete other | tail_stays other =>
    rw [stage] at other
    cases other

theorem pass_allocates (pass : Pass outcome c next event) (more : next.allocations ≠ c.allocations) :
    c.recv_stage = .recv_data := by
  cases pass with
  | data_refused stage | data_copied stage => exact stage
  | _ => exact absurd rfl more

theorem pass_delivers {packet : Delivered} (pass : Pass outcome c next event) (member : packet ∈ event.toList) :
    c.recv_stage = .recv_tail ∧ packet.data_len = c.packet.data_len := by
  cases pass with
  | tail_complete stage | tail_stays stage =>
    obtain rfl := List.mem_singleton.mp member
    exact ⟨stage,rfl⟩
  | _ => cases member

theorem recv_moderate {received : Received} (moderate : Moderate c) (stored : ipc_conn_recv c received = some next) :
    Moderate next ∧ next.allocations = c.allocations := by
  have kept := recv_untouched stored
  refine ⟨⟨?_,?_⟩,kept.allocations⟩
  · rw [kept.stage,kept.packet]
    exact moderate.data
  · rw [kept.stage,kept.packet]
    exact moderate.tail

structure Tempered (s : Session) : Prop where
  bounded : s.Bounded
  moderate : Moderate s.conn
  delivers : ∀ packet ∈ s.completed, packet.data_len ≤ MAX_PACKET_DATA_SIZE

theorem start_tempered (is_async : Bool) : Tempered (Session.start is_async) :=
  ⟨start_bounded is_async,.other rfl rfl,fun _ member => absurd member List.not_mem_nil⟩

theorem step_tempered (tempered : Tempered s) (taken : Session.Step outcome s a t) (fits : ¬ Looks s a) :
    Tempered t := by
  have bounded := step_bounded tempered.bounded taken
  cases a with
  | recv received =>
    obtain ⟨_,_,c,stored,rfl⟩ := recv_parts taken
    exact ⟨bounded,(recv_moderate tempered.moderate stored).1,tempered.delivers⟩
  | pass =>
    obtain ⟨_,_,event,completed,_,pass⟩ := pass_parts tempered.bounded taken
    refine ⟨bounded,pass_moderate tempered.moderate pass fun oversized => fits ⟨rfl,oversized⟩,fun packet member => ?_⟩
    rw [completed] at member
    rcases List.mem_append.mp member with old | new
    · exact tempered.delivers packet old
    · obtain ⟨stage,same⟩ := pass_delivers pass new
      rw [same]
      exact tempered.moderate.tail stage

theorem step_allocates (tempered : Tempered s) (taken : Session.Step outcome s a t)
    (more : t.conn.allocations ≠ s.conn.allocations) : s.conn.packet.data_len ≤ MAX_PACKET_DATA_SIZE := by
  cases a with
  | recv received =>
    obtain ⟨_,_,c,stored,rfl⟩ := recv_parts taken
    exact absurd (recv_moderate tempered.moderate stored).2 more
  | pass =>
    obtain ⟨_,_,event,_,_,pass⟩ := pass_parts tempered.bounded taken
    exact tempered.moderate.data (pass_allocates pass more)

theorem looks_enters (bounded : s.Bounded) (taken : Session.Step outcome s a t) (looks : Looks s a) :
    t.conn.recv_stage = .recv_data ∧ t.conn.packet.data_len = s.conn.packet.data_len := by
  obtain ⟨rfl,oversized⟩ := looks
  obtain ⟨_,_,_,_,_,pass⟩ := pass_parts bounded taken
  exact pass_oversized pass oversized

-- An oversized packet is never dropped: its data is awaited as any other's. The
-- runs that keep to the limit are those in which no peer declares such a packet.
theorem oversized_exact {outcome : Nat → Outcome} {is_async : Bool} {moves : List (Move Session Action)} {s : Session}
    (run : Run (Session.Step outcome) (Session.start is_async) moves s) :
    (Drops moves s ↔ Meets (fun s a => ¬ Looks s a) moves) ∧
    ∀ m ∈ moves, Looks m.before m.action →
      m.after.conn.recv_stage = .recv_data ∧ m.after.conn.packet.data_len = m.before.conn.packet.data_len := by
  have enters : ∀ m ∈ moves, Looks m.before m.action → m.after.conn.recv_stage = .recv_data ∧
      m.after.conn.packet.data_len = m.before.conn.packet.data_len := by
    intro m member looks
    have each := run.each (fun _ _ => True) (start_bounded is_async)
      (fun bounded taken _ => step_bounded bounded taken) (fun _ _ => trivial) m member
    exact looks_enters each.1 each.2 looks
  refine ⟨⟨fun drops m member looks => ?_,fun met => ?_⟩,enters⟩
  · have searching := (drops.returns m member looks).1
    rw [(enters m member looks).1] at searching
    cases searching
  · have each := run.each _ (start_tempered is_async) step_tempered met
    have last := (run.keeps _ (start_tempered is_async) step_tempered met).1
    exact ⟨fun m member looks => absurd looks (met m member),
      fun m member more => step_allocates (each m member).1 (each m member).2 more,last.delivers⟩

-- The last byte is the first of the packet's data.
theorem short_chunk_drops : ∃ moves s, Run (Session.Step fun _ => some fun _ => 0xAA) (Session.start true) moves s ∧
    moves.map Move.action = shortChunk ∧ Drops moves s := by
  obtain ⟨moves,s,run,actions,met⟩ := Run.of_check (Session.advance fun _ => some fun _ => 0xAA) (Session.start true)
    shortChunk (fun result => decide (∀ m ∈ result.1, ¬ Oversized m.before.conn)) (by decide +kernel)
  refine ⟨moves,s,run,actions,(oversized_exact run).1.mpr fun m member looks => ?_⟩
  exact of_decide_eq_true met m member looks.2

-- A header that declares 8193 bytes of data, of which one has arrived.
def longChunk : List Action :=
  .recv (.data [0x53,0x54,0x58,1,3,0,0,0x20,1,7]) :: List.replicate 10 .pass

theorem long_packet_awaited : ¬ ∀ (outcome : Nat → Outcome) (is_async : Bool) (moves : List (Move Session Action))
    (s : Session), Run (Session.Step outcome) (Session.start is_async) moves s → Drops moves s := by
  intro claim
  obtain ⟨moves,s,run,_,found⟩ := Run.of_check (Session.advance fun _ => some fun _ => 0xAA) (Session.start true) longChunk
    (fun result => decide (∃ m ∈ result.1, m.action = .pass ∧ Oversized m.before.conn ∧
      m.after.conn.recv_stage = .recv_data)) (by decide +kernel)
  obtain ⟨m,member,passes,oversized,awaits⟩ := of_decide_eq_true found
  have searching := ((claim _ _ moves s run).returns m member ⟨passes,oversized⟩).1
  rw [awaits] at searching
  cases searching

end Libcplus.Ipc
