import Mathlib.Tactic.ByContra
import Libcplus.Transducer
import Libcplus.Ipc.Safety

namespace Libcplus.Ipc
open Bytes Memory Transducer

-- What the parser is for, without buffers: where it stands in the byte stream
-- and what it has collected of the packet it is in.
inductive Scan where
  | head (matched : Nat)
  | seqn
  | cmd (seqn : UInt8)
  | data_len (seqn cmd : UInt8) (length read : Nat)
  | data (seqn cmd : UInt8) (length : Nat) (payload : List UInt8)
  | tail (seqn cmd : UInt8) (length : Nat) (payload : List UInt8) (matched : Nat)
  deriving DecidableEq, Repr

-- A header is complete: a packet without data goes straight to its end tag.
def begun (seqn cmd : UInt8) (length : Nat) : Scan :=
  if 0 < length then .data seqn cmd length [] else .tail seqn cmd length [] 0

-- What happens at a byte: a begin tag is complete, or a packet is.
inductive Signal where
  | header
  | packet (delivered : Delivered)
  deriving DecidableEq, Repr

def Signal.completed : Signal → Option Delivered
  | .header => none
  | .packet delivered => some delivered

-- The event of a connection after these signals: reset by a begin tag, set by a packet.
def heard (evt : Option Bool) (signals : List Signal) : Option Bool :=
  signals.foldl (fun evt signal => evt.map fun _ => signal.completed.isSome) evt

def feed : Scan → UInt8 → Scan × Option Signal
  | .head matched,b =>
    if IPC_CONN_PACKET_BEGIN_TAG[matched]? = some b then
      if matched < 2 then (.head (matched + 1),none) else (.seqn,some .header)
    else (.head 0,none)
  | .seqn,b => (.cmd b,none)
  | .cmd seqn,b => (.data_len seqn b 0 0,none)
  | .data_len seqn cmd length read,b =>
    (if read < 3 then .data_len seqn cmd (readNext length b) (read + 1)
      else begun seqn cmd (readNext length b),none)
  | .data seqn cmd length payload,b =>
    (if payload.length + 1 < length then .data seqn cmd length (payload ++ [b])
      else .tail seqn cmd length (payload ++ [b]) 0,none)
  | .tail seqn cmd length payload matched,b =>
    if IPC_CONN_PACKET_END_TAG[matched]? = some b then
      if matched < 2 then (.tail seqn cmd length payload (matched + 1),none)
      else (.head 0,some (.packet ⟨seqn,cmd,length,payload⟩))
    else (.head 0,none)

-- Inside a packet's data, with some of it already there.
def MidPayload : Scan → Prop
  | .data _ _ _ payload => payload ≠ []
  | _ => False

def payload (c : Conn) : List UInt8 := (c.packet_databufs.getD []).take c.packet_databufs_offset

-- Where a connection stands. A length whose four bytes are in counts as read,
-- though the parser looks at it only when the next byte is there.
def scan (c : Conn) : Scan :=
  match c.recv_stage with
  | .recv_head | .recv_completed => .head c.sub_offset
  | .recv_seqn => .seqn
  | .recv_cmd => .cmd c.packet.seqn
  | .recv_data_len =>
    if c.sub_offset < 4 then .data_len c.packet.seqn c.packet.cmd (length_read c) c.sub_offset
    else begun c.packet.seqn c.packet.cmd c.packet.data_len
  | .recv_data => .data c.packet.seqn c.packet.cmd c.packet.data_len (payload c)
  | .recv_tail => .tail c.packet.seqn c.packet.cmd c.packet.data_len (delivered c).data c.sub_offset

def window (c : Conn) (last : Nat) : List UInt8 :=
  (c.recv_bufs.drop c.recv_bufs_offset).take (last - c.recv_bufs_offset)

variable {c next : Conn} {outcome : Nat → Outcome} {event : Option Delivered}

theorem window_byte {byte : UInt8} (read : c.recv_bufs[c.recv_bufs_offset]? = some byte) :
    window c (c.recv_bufs_offset + 1) = [byte] := by
  rw [window,Nat.add_sub_cancel_left,List.take_one,List.head?_drop,read]
  rfl

-- Payload bytes, as many as the packet still lacks or fewer.
theorem feed_payload (seqn cmd : UInt8) (length : Nat) (before bytes : List UInt8)
    (fits : before.length + bytes.length ≤ length) (some : before.length < length) :
    feedAll feed (.data seqn cmd length before) bytes =
      (if before.length + bytes.length < length then .data seqn cmd length (before ++ bytes)
        else .tail seqn cmd length (before ++ bytes) 0,[]) := by
  induction bytes generalizing before with
  | nil => simp [some]
  | cons b rest ih =>
    simp only [List.length_cons] at fits
    by_cases last : before.length + 1 < length
    · have extended : (before ++ [b]).length = before.length + 1 := by simp
      have later := ih (before ++ [b]) (by omega) (by omega)
      have joined : before.length + 1 + rest.length = before.length + (rest.length + 1) := by omega
      simp only [feedAll_cons,feed,if_pos last,later,extended,joined,List.append_assoc,
        List.singleton_append,List.length_cons,Option.toList_none,List.nil_append]
    · obtain rfl : rest = [] := List.length_eq_zero_iff.mp (by omega)
      simp [feedAll_cons,feed,last]

theorem payload_length (safe : Safe c) (stage : c.recv_stage = .recv_data) :
    (payload c).length = c.packet_databufs_offset := by
  obtain ⟨lacking,first | ⟨block,there,enough⟩⟩ := safe.filling stage
  · rw [payload,first,List.take_zero]
    rfl
  · have length := safe.databufs block there
    rw [payload,there,Option.getD_some,List.length_take]
    omega

-- A pass through RECV_DATA takes the next bytes of recv_bufs into the payload.
theorem copied_feeds {found : Conn} {block written : List UInt8} (safe : Safe c)
    (room : c.recv_bufs_offset < c.recv_bufs_size) (stage : c.recv_stage = .recv_data)
    (provided : Provided outcome c found) (there : found.packet_databufs = some block)
    (spliced : splice block c.packet_databufs_offset
      ((c.recv_bufs.drop c.recv_bufs_offset).take (copied c)) = some written) :
    (filled found written).recv_bufs_offset = c.recv_bufs_offset + copied c ∧
    feedAll feed (scan c) (window c (c.recv_bufs_offset + copied c)) =
      (scan (filled found written),[]) := by
  have lacking := (safe.filling stage).1
  obtain ⟨some,whole,within⟩ := copied_bounds lacking room
  have bytes : ((c.recv_bufs.drop c.recv_bufs_offset).take (copied c)).length = copied c := by
    rw [List.length_take,List.length_drop,safe.bufs]
    omega
  -- what the buffer held before the pass is the payload so far
  have before : block.take c.packet_databufs_offset = payload c := by
    cases provided with
    | kept there' =>
      rw [there] at there'
      rw [payload,there,Option.getD_some]
    | refused => cases there
    | obtained first => rw [payload,first,List.take_zero,List.take_zero]
  have taken := splice_take spliced
  rw [bytes,before] at taken
  have shape : found.recv_stage = .recv_data ∧ found.packet = c.packet ∧
      found.packet_databufs_offset = c.packet_databufs_offset ∧
      found.recv_bufs_offset = c.recv_bufs_offset ∧ copied found = copied c ∧
      found.sub_offset = c.sub_offset := by
    cases provided with
    | kept => exact ⟨stage,rfl,rfl,rfl,rfl,rfl⟩
    | refused => cases there
    | obtained => exact ⟨stage,rfl,rfl,rfl,rfl,rfl⟩
  obtain ⟨found_stage,packet,databufs_offset,offset,count,sub⟩ := shape
  have zero : c.sub_offset ≤ sub_offset_bound .recv_data := by rw [← stage]; exact safe.sub
  have zero : c.sub_offset = 0 := Nat.le_zero.mp zero
  have start : scan c = .data c.packet.seqn c.packet.cmd c.packet.data_len (payload c) := by
    simp only [scan,stage]
  have length := payload_length safe stage
  rw [window,Nat.add_sub_cancel_left,start,feed_payload _ _ _ _ _ (by omega) (by omega),bytes,length,
    ← taken]
  by_cases full : c.packet.data_len ≤ c.packet_databufs_offset + copied c
  · have ends : c.packet_databufs_offset + copied c = c.packet.data_len := by omega
    rw [if_neg (by omega),ends]
    simp only [filled,packet,databufs_offset,count,offset,if_pos full,scan,delivered,sub,zero,
      Option.getD_some]
    exact ⟨trivial,trivial⟩
  · rw [if_pos (by omega)]
    simp only [filled,packet,databufs_offset,count,offset,if_neg full,scan,found_stage,payload,
      Option.getD_some]
    exact ⟨trivial,trivial⟩

-- A connection whose completed packets leave the tail stage by a byte: one
-- without an event, as ipc_conn_create makes an asynchronous one, or not asynchronous.
def Plain (c : Conn) : Prop := c.is_async = false ∨ c.evt_packet_received = none

theorem create_plain (is_async : Bool) : Plain (connected is_async) := by
  cases is_async
  · exact .inl rfl
  · exact .inr rfl

theorem plain_of_outer (same : outer next = outer c) (plain : Plain c) : Plain next := by
  simp only [outer,Prod.mk.injEq] at same
  rcases plain with sync | quiet
  · exact .inl (same.1.trans sync)
  · have := same.2.2.2.2.2
    rw [quiet] at this
    exact .inr (by simpa using this)

-- One pass of the parser is the scanner over the bytes it consumes, with the
-- same packets completed and the event set and reset by the same signals.
structure Feeds (c next : Conn) (bytes : List UInt8) (events : List Delivered)
    (signals : List Signal) : Prop where
  scan : feedAll feed (scan c) bytes = (Ipc.scan next,signals)
  events : events = signals.filterMap Signal.completed
  event : next.evt_packet_received = heard c.evt_packet_received signals

theorem pass_feeds (safe : Safe c) (room : c.recv_bufs_offset < c.recv_bufs_size)
    (succeed : ∀ k, outcome k ≠ none)
    (plain : Plain c)
    (pass : Pass outcome c next event) :
    ∃ signals, Feeds c next (window c next.recv_bufs_offset) event.toList signals := by
  have empty : window c c.recv_bufs_offset = [] := by simp [window]
  cases pass with
  | head_dropped stage tag read differs =>
    have start : scan c = .head c.sub_offset := by simp only [scan,stage]
    refine ⟨[],?_,rfl,rfl⟩
    show feedAll feed (scan c) (window c (c.recv_bufs_offset + 1)) = _
    rw [window_byte read,feedAll_single,start]
    simp [feed,tag,differs,scan,consume,drop_packet]
  | head_matched stage tag read more =>
    have start : scan c = .head c.sub_offset := by simp only [scan,stage]
    refine ⟨[],?_,rfl,rfl⟩
    show feedAll feed (scan c) (window c (c.recv_bufs_offset + 1)) = _
    rw [window_byte read,feedAll_single,start]
    simp [feed,tag,more,scan,consume,stage]
  | head_complete stage tag read last =>
    have start : scan c = .head c.sub_offset := by simp only [scan,stage]
    refine ⟨[.header],?_,rfl,rfl⟩
    show feedAll feed (scan c) (window c (c.recv_bufs_offset + 1)) = _
    rw [last] at tag
    rw [window_byte read,feedAll_single,start,last]
    simp [feed,tag,scan,consume]
  | seqn stage read =>
    refine ⟨[],?_,rfl,rfl⟩
    show feedAll feed (scan c) (window c (c.recv_bufs_offset + 1)) = _
    rw [window_byte read,feedAll_single]
    simp [feed,scan,consume,stage]
  | cmd stage read =>
    refine ⟨[],?_,rfl,rfl⟩
    show feedAll feed (scan c) (window c (c.recv_bufs_offset + 1)) = _
    have zero := Nat.le_zero.mp (stage ▸ safe.sub)
    rw [window_byte read,feedAll_single]
    simp [feed,scan,consume,stage,length_read,zero]
  | length_byte stage read more =>
    refine ⟨[],?_,rfl,rfl⟩
    show feedAll feed (scan c) (window c (c.recv_bufs_offset + 1)) = _
    rw [window_byte read,feedAll_single]
    simp only [scan,stage,if_pos more,feed,consume,length_read,Nat.add_one_ne_zero,if_false]
    by_cases further : c.sub_offset < 3
    · simp [further,show c.sub_offset + 1 < 4 by omega]
    · simp [further,show ¬ c.sub_offset + 1 < 4 by omega]
  | length_some stage last positive =>
    refine ⟨[],?_,rfl,rfl⟩
    show feedAll feed (scan c) (window c c.recv_bufs_offset) = _
    have idle := safe.idle (by rw [stage]; decide)
    rw [empty]
    simp [scan,stage,last,begun,positive,payload,idle]
  | length_none stage last zero =>
    refine ⟨[],?_,rfl,rfl⟩
    show feedAll feed (scan c) (window c c.recv_bufs_offset) = _
    rw [empty]
    simp [scan,stage,last,begun,zero,delivered]
    cases c.packet.data <;> rfl
  | data_refused stage provided missing =>
    cases provided with
    | kept there => rw [there] at missing; cases missing
    | refused first refusal => exact absurd refusal (succeed _)
    | obtained => cases missing
  | @data_copied found block written stage provided there length enough spliced =>
    obtain ⟨offset,fed⟩ := copied_feeds safe room stage provided there spliced
    refine ⟨[],by rw [offset]; exact fed,rfl,?_⟩
    have kept : (filled found written).evt_packet_received = found.evt_packet_received := by
      unfold filled
      split <;> rfl
    rw [kept]
    cases provided <;> rfl
  | tail_dropped stage tag read differs =>
    refine ⟨[],?_,rfl,rfl⟩
    show feedAll feed (scan c) (window c (c.recv_bufs_offset + 1)) = _
    rw [window_byte read,feedAll_single]
    simp [feed,tag,differs,scan,consume,drop_packet,stage]
  | tail_matched stage tag read more =>
    refine ⟨[],?_,rfl,rfl⟩
    show feedAll feed (scan c) (window c (c.recv_bufs_offset + 1)) = _
    rw [window_byte read,feedAll_single]
    simp [feed,tag,more,scan,consume,stage,delivered]
  | tail_complete stage tag read last moves =>
    refine ⟨[.packet (delivered c)],?_,rfl,rfl⟩
    show feedAll feed (scan c) (window c (c.recv_bufs_offset + 1)) = _
    rw [last] at tag
    rw [window_byte read,feedAll_single]
    simp [feed,tag,last,scan,consume,stage,delivered,set_event,drop_packet]
  | tail_stays stage tag read last stays =>
    rcases plain with sync | quiet
    · rw [sync] at stays; cases stays.1
    · exact absurd quiet stays.2

theorem Feeds.append {middle : Conn} {left right : List UInt8} {early late : List Delivered}
    {first second : List Signal} (one : Feeds c middle left early first)
    (two : Feeds middle next right late second) :
    Feeds c next (left ++ right) (early ++ late) (first ++ second) := by
  refine ⟨?_,?_,?_⟩
  · rw [feedAll_append,one.scan,two.scan]
  · rw [List.filterMap_append,← one.events,← two.events]
  · rw [two.event,one.event]
    exact List.foldl_append.symm

theorem Feeds.none (c : Conn) : Feeds c c [] [] [] := ⟨rfl,rfl,rfl⟩

theorem Feeds.stopped {walker : Nat} (done : c.recv_bufs_offset = walker) : Feeds c c (window c walker) [] [] := by
  rw [window,done,Nat.sub_self,List.take_zero]
  exact .none c

theorem pass_offset (safe : Safe c) (room : c.recv_bufs_offset < c.recv_bufs_size)
    (pass : Pass outcome c next event) :
    next.recv_bufs_offset = c.recv_bufs_offset ∨
      next.recv_bufs_offset = c.recv_bufs_offset + 1 ∨
      c.recv_stage = .recv_data ∧ next.recv_bufs_offset = c.recv_bufs_offset + copied c := by
  cases pass with
  | length_some | length_none | tail_stays => exact .inl rfl
  | data_refused stage provided =>
    refine .inl ?_
    cases provided <;> rfl
  | data_copied stage provided there length enough spliced =>
    exact .inr (.inr ⟨stage,(copied_feeds safe room stage provided there spliced).1⟩)
  | _ => exact .inr (.inl rfl)

theorem pass_grows (safe : Safe c) (room : c.recv_bufs_offset < c.recv_bufs_size)
    (pass : Pass outcome c next event) : c.recv_bufs_offset ≤ next.recv_bufs_offset := by
  rcases pass_offset safe room pass with still | byte | ⟨_,payload⟩
  · omega
  · omega
  · omega

theorem window_append (same : next.recv_bufs = c.recv_bufs) {last : Nat}
    (after : c.recv_bufs_offset ≤ next.recv_bufs_offset) (before : next.recv_bufs_offset ≤ last) :
    window c last = window c next.recv_bufs_offset ++ window next last := by
  obtain ⟨first,split⟩ := Nat.exists_eq_add_of_le after
  obtain ⟨second,rest⟩ := Nat.exists_eq_add_of_le before
  have total : last - c.recv_bufs_offset = first + second := by omega
  have here : next.recv_bufs_offset - c.recv_bufs_offset = first := by omega
  have there : last - next.recv_bufs_offset = second := by omega
  simp only [window,same,total,here,there,List.take_add,List.drop_drop,← split]

-- A chunk is whole when it fills recv_bufs or does not end inside a packet's data.
def Whole (c : Conn) (walker : Nat) : Prop :=
  walker = c.recv_bufs_size ∨ ¬ MidPayload (feedAll feed (scan c) (window c walker)).1

-- So the copy of a RECV_DATA pass does not go past what was received.
theorem whole_copied (safe : Safe c) {walker : Nat} (running : c.recv_bufs_offset < walker)
    (within : walker ≤ c.recv_bufs_size) (stage : c.recv_stage = .recv_data)
    (whole : Whole c walker) : c.recv_bufs_offset + copied c ≤ walker := by
  rcases whole with filled | ends
  · have := (copied_bounds (safe.filling stage).1 (Nat.lt_of_lt_of_le running within)).2.2
    omega
  · by_contra past
    apply ends
    have start : scan c = .data c.packet.seqn c.packet.cmd c.packet.data_len (payload c) := by
      simp only [scan,stage]
    have length := payload_length safe stage
    have bytes : (window c walker).length = walker - c.recv_bufs_offset := by
      rw [window,List.length_take,List.length_drop,safe.bufs]
      omega
    have lacks : copied c ≤ c.packet.data_len - c.packet_databufs_offset := Nat.min_le_left _ _
    rw [start,feed_payload _ _ _ _ _ (by omega) (by omega),if_pos (by omega)]
    show payload c ++ window c walker ≠ []
    intro none
    have := congrArg List.length none
    rw [List.length_append,List.length_nil] at this
    omega

theorem pass_whole {walker : Nat} {events : List Delivered} {signals : List Signal}
    (fed : Feeds c next (window c next.recv_bufs_offset) events signals)
    (same : next.recv_bufs = c.recv_bufs) (size : next.recv_bufs_size = c.recv_bufs_size)
    (after : c.recv_bufs_offset ≤ next.recv_bufs_offset) (before : next.recv_bufs_offset ≤ walker)
    (whole : Whole c walker) : Whole next walker := by
  rcases whole with filled | ends
  · exact .inl (filled.trans size.symm)
  · refine .inr ?_
    rw [window_append same after before,feedAll_append,fed.scan] at ends
    exact ends

-- Over a whole chunk the parser is the scanner, and it stops at the chunk's end.
theorem loop_feeds (succeed : ∀ k, outcome k ≠ none) (walker fuel : Nat) (c last : Conn)
    (events : List Delivered) (safe : Safe c) (within : walker ≤ c.recv_bufs_size)
    (offset : c.recv_bufs_offset ≤ walker)
    (plain : Plain c) (whole : Whole c walker)
    (result : analyze_loop outcome walker fuel c = some (last,events)) :
    (∃ signals, Feeds c last (window c walker) events signals) ∧ Safe last ∧
      last.recv_bufs_offset = walker ∧ outer last = outer c := by
  induction fuel generalizing c events with
  | zero =>
    simp only [analyze_loop] at result
    split at result
    · cases result
    · cases result
      have done : last.recv_bufs_offset = walker := by omega
      exact ⟨⟨[],.stopped done⟩,safe,done,rfl⟩
  | succ fuel ih =>
    by_cases running : c.recv_bufs_offset < walker
    · have room := Nat.lt_of_lt_of_le running within
      obtain ⟨next,event,taken,pass⟩ := iterate_pass outcome safe room
      obtain ⟨same,size,_⟩ := pass_progress safe room pass
      obtain ⟨signals,fed⟩ := pass_feeds safe room succeed plain pass
      have outer_same := pass_outer pass
      have grows := pass_grows safe room pass
      have stays : next.recv_bufs_offset ≤ walker := by
        rcases pass_offset safe room pass with still | byte | ⟨stage,payload⟩
        · omega
        · omega
        · have := whole_copied safe running within stage whole
          omega
      simp only [analyze_loop,if_pos running,taken,Option.bind_some] at result
      cases later : analyze_loop outcome walker fuel next with
      | none => simp [later] at result
      | some rest =>
        obtain ⟨final,more⟩ := rest
        simp only [later,Option.map_some,Option.some.injEq,Prod.mk.injEq] at result
        obtain ⟨rfl,rfl⟩ := result
        obtain ⟨⟨others,rest_fed⟩,final_safe,stopped,final_outer⟩ := ih next more
          (pass_safe safe room pass) (by rw [size]; exact within) stays (plain_of_outer outer_same plain)
          (pass_whole fed same size grows stays whole) later
        refine ⟨⟨signals ++ others,?_⟩,final_safe,stopped,final_outer.trans outer_same⟩
        rw [window_append same grows stays]
        exact fed.append rest_fed
    · simp only [analyze_loop,if_neg running] at result
      cases result
      have done : last.recv_bufs_offset = walker := by omega
      exact ⟨⟨[],.stopped done⟩,safe,done,rfl⟩

theorem wrap_offset_scan (c : Conn) : scan (wrap_offset c) = scan c := by
  unfold wrap_offset
  split <;> rfl

theorem wrap_offset_size (c : Conn) : (wrap_offset c).recv_bufs_size = c.recv_bufs_size := by
  unfold wrap_offset
  split <;> rfl

theorem wrap_offset_event (c : Conn) :
    (wrap_offset c).evt_packet_received = c.evt_packet_received := by
  unfold wrap_offset
  split <;> rfl

-- The same condition on what a recv brings, before it is stored.
def WholeChunk (c : Conn) (bytes : List UInt8) : Prop :=
  (wrap_offset c).recv_bufs_offset + bytes.length = c.recv_bufs_size ∨
    ¬ MidPayload (feedAll feed (scan c) bytes).1

structure Taken (c : Conn) (bytes : List UInt8) (last : Conn) : Prop where
  safe : Safe last
  plain : Plain last
  status : last.status = .connected
  sock_error : last.sock_error = none
  recv_count : last.recv_count = bytes.length
  recv_timeout : last.recv_timeout = c.recv_timeout
  async : last.is_async = c.is_async
  event : last.evt_packet_received.isSome = c.evt_packet_received.isSome
  offset : last.recv_bufs_offset = (wrap_offset c).recv_bufs_offset + bytes.length

-- What recv leaves to the parser.
structure Stored (c : Conn) (bytes : List UInt8) (stored : Conn) : Prop where
  scan : Ipc.scan stored = Ipc.scan c
  window : Ipc.window stored (walker_count stored) = bytes
  offset : stored.recv_bufs_offset = (wrap_offset c).recv_bufs_offset
  ends : walker_count stored = (wrap_offset c).recv_bufs_offset + bytes.length
  size : stored.recv_bufs_size = c.recv_bufs_size
  outer : outer stored = (c.is_async,c.recv_timeout,.connected,none,(bytes.length : Int),c.evt_packet_received.isSome)
  event : stored.evt_packet_received = c.evt_packet_received

theorem recv_chunk {bytes : List UInt8} {stored : Conn} (store : ipc_conn_recv c (.data bytes) = some stored) :
    Stored c bytes stored := by
  simp only [ipc_conn_recv,store_received,Option.map_eq_some_iff] at store
  obtain ⟨recv_bufs,spliced,rfl⟩ := store
  have wrapped_outer := wrap_offset_outer c
  simp only [outer,Prod.mk.injEq] at wrapped_outer
  obtain ⟨async,timeout,_,_,_,evt⟩ := wrapped_outer
  refine ⟨wrap_offset_scan c,?_,rfl,Nat.add_comm _ _,wrap_offset_size c,?_,wrap_offset_event c⟩
  · simp only [window,walker_count,Int.toNat_natCast,Nat.add_sub_cancel]
    exact splice_slice spliced
  · simp only [outer,async,timeout,evt]

-- One call of ipc_conn_proc that receives a whole chunk.
theorem proc_feeds (succeed : ∀ k, outcome k ≠ none) {bytes : List UInt8} (safe : Safe c)
    (plain : Plain c) (status : c.status ≠ .not_connected)
    (admissible : Admissible c (.data bytes)) (whole : WholeChunk c bytes) :
    ∃ last events signals, ipc_conn_proc outcome c (.data bytes) = some (last,events) ∧
      Feeds c last bytes events signals ∧ Taken c bytes last := by
  obtain ⟨stored,store,stored_safe,walker⟩ := recv_safe safe admissible
  obtain ⟨last,events,_,result,_,_⟩ := analyze_runs outcome [] stored_safe walker
  have returned : ipc_conn_proc outcome c (.data bytes) = some (last,events) := by
    simp only [ipc_conn_proc,if_neg status,store,Option.bind_some,result]
  have chunk := recv_chunk store
  have stored_outer := chunk.outer
  simp only [outer,Prod.mk.injEq] at stored_outer
  obtain ⟨async,timeout,connected,no_error,count,evt⟩ := stored_outer
  have stored_plain : Plain stored := by
    rw [Plain,async,chunk.event]
    exact plain
  have stored_whole : Whole stored (walker_count stored) := by
    unfold Whole
    rw [chunk.window,chunk.scan,chunk.ends,chunk.size]
    exact whole
  obtain ⟨⟨signals,fed⟩,last_safe,stopped,last_outer⟩ := loop_feeds succeed _ _ stored last events
    stored_safe walker (by rw [walker_count]; omega) stored_plain stored_whole result
  have last_plain := plain_of_outer last_outer stored_plain
  simp only [outer,Prod.mk.injEq] at last_outer
  obtain ⟨last_async,last_timeout,last_status,last_error,last_count,last_evt⟩ := last_outer
  rw [chunk.window] at fed
  refine ⟨last,events,signals,returned,⟨?_,fed.events,?_⟩,last_safe,last_plain,last_status.trans connected,
    last_error.trans no_error,last_count.trans count,last_timeout.trans timeout,last_async.trans async,
    last_evt.trans evt,stopped.trans chunk.ends⟩
  · rw [← chunk.scan]; exact fed.scan
  · rw [← chunk.event]; exact fed.event

end Libcplus.Ipc
