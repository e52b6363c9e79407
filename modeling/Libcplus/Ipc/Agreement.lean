import Libcplus.Ipc.Blocking
import Libcplus.Ipc.Channel

-- The two receivers of the protocol: ipc_recv_packet, which a client waits in, and the
-- parser of a connection.
namespace Libcplus.Ipc.Agreement
open Bytes Memory Program Transducer Blocking

-- Each chunk fits the room its recv is given and does not end inside a packet's data
-- with recv_bufs unfilled.
def Uncut (outcome : Nat → Outcome) : Conn → List (List UInt8) → Prop
  | _,[] => True
  | c,chunk :: rest => Admissible c (.data chunk) ∧ WholeChunk c chunk ∧
    ∀ first ∈ ipc_conn_proc outcome c (.data chunk), Uncut outcome first.1 rest

instance decidableUncut (outcome : Nat → Outcome) : (c : Conn) → (chunks : List (List UInt8)) → Decidable (Uncut outcome c chunks)
  | _,[] => .isTrue trivial
  | c,chunk :: rest =>
    have _later : DecidablePred fun first : Conn × List Delivered => Uncut outcome first.1 rest :=
      fun first => decidableUncut outcome first.1 rest
    inferInstanceAs (Decidable (_ ∧ _ ∧ ∀ first ∈ ipc_conn_proc outcome c (.data chunk),Uncut outcome first.1 rest))

theorem receive_uncut {outcome : Nat → Outcome} {c : Conn} (succeed : ∀ k, outcome k ≠ none) (chunks : List (List UInt8))
    {received : List UInt8} (synced : Synced c received) (uncut : Uncut outcome c chunks) :
    ∃ last, receive outcome c chunks = some (last,(feedAll feed (scan c) chunks.flatten).2.filterMap Signal.completed) ∧
      Synced last (received ++ chunks.flatten) := by
  induction chunks generalizing c received with
  | nil => exact ⟨c,rfl,by simpa using synced⟩
  | cons chunk more ih =>
    obtain ⟨admissible,whole,later⟩ := uncut
    obtain ⟨next,events,signals,result,fed,taken⟩ :=
      proc_feeds succeed synced.safe synced.plain synced.status admissible whole
    have next_synced := taken_synced synced admissible taken (by rw [fed.scan])
    obtain ⟨last,final,last_synced⟩ := ih next_synced (later _ result)
    refine ⟨last,?_,by rw [List.flatten_cons,← List.append_assoc]; exact last_synced⟩
    rw [List.flatten_cons,feedAll_append,fed.scan,List.filterMap_append,← fed.events]
    simp only [receive,result,Option.bind_some,final,Option.map_some]

-- One frame, whatever its command and however long.
theorem feed_frame (seqn cmd : UInt8) (data : List UInt8) (small : data.length < 2^32) :
    feedAll feed (.head 0) (header seqn cmd data.length ++ (data ++ trailer)) =
      (.head 0,[.header,.packet ⟨seqn,cmd,data.length,data⟩]) := by
  rw [feedAll_append,feed_header _ _ small,feedAll_append,feed_data,feed_trailer]
  rfl

variable {packet : Packet Unit} {size output_bufs_len : Nat} {outcome : Outcome} {received : List Received}
  {output_bufs : Option (List UInt8)} {n : Int} {r t : Receipt}

theorem modify_keeps {change : Receipt → Receipt} (same : ∀ r, (change r).packet = r.packet) :
    Takes (fun _ => True) (fun r => r.packet = packet) (fun r => r.packet = packet) (modify change : Receiving PUnit) :=
  .modify fun r here => (same r).trans here

abbrev Keeps {α : Type} (packet : Packet Unit) (prog : Receiving α) : Prop :=
  Takes (fun _ => True) (fun r => r.packet = packet) (fun r => r.packet = packet) prog

theorem socket_keeps : Keeps packet (cplus_socket_recv size) := by
  apply Takes.of_answers
  intro s answer t here ran
  unfold cplus_socket_recv at ran
  split at ran
  · cases ran
    exact here
  · split at ran <;> cases ran <;> exact here

theorem copy_keeps (block : List UInt8) : Keeps packet (copy_payload output_bufs_len block) := by
  refine .get fun r here => (socket_keeps.weaken fun s same => same ▸ here).bind fun answer => ?_
  simp only
  apply Takes.bind
  · exact modify_keeps fun _ => rfl
  intro _
  apply Takes.ite
  · intro _
    refine .get fun s kept => ?_
    split
    · exact .throw trivial
    · exact Takes.bind (.modify fun u same => same ▸ kept) fun _ => .pure _
  · intro _ _ _
    trivial

theorem payload_keeps : Keeps packet (recv_payload outcome output_bufs_len) := by
  refine .get fun r here => ?_
  apply Takes.ite
  · intro _
    split
    · exact (Takes.pure (0 : Int)).weaken fun s same => same ▸ here
    · exact (copy_keeps _).weaken fun s same => same ▸ here
  · intro _
    exact (Takes.pure (0 : Int)).weaken fun s same => same ▸ here

-- The length that a frame was received with.
theorem frame_small (ran : recv_frame outcome output_bufs_len r = .ok (n,t)) : t.packet.data_len < 2^32 := by
  obtain ⟨seqn,cmd,length,later,u,last,opens,payload,_,rfl⟩ := recv_frame_iff.mp ran
  obtain ⟨_,_,_,_,_,_,_,small⟩ := opens
  have kept : Keeps ⟨seqn,cmd,length,()⟩ (recv_payload outcome output_bufs_len) := payload_keeps
  have same : u.packet = ⟨seqn,cmd,length,()⟩ := kept.answer rfl payload
  show u.packet.data_len < 2^32
  rw [same]
  exact small

-- What ipc_recv_packet accepts as a packet is one to the parser: the same bytes, in
-- any chunks that do not break its data, complete that packet and nothing else.
theorem receivers_agree (room : ∀ block, output_bufs = some block → block.length = output_bufs_len)
    (straight : ¬ Misleads received output_bufs output_bufs_len outcome)
    (returned : ipc_recv_packet outcome output_bufs_len (waiting received packet output_bufs) = some (n,r)) (accepted : 0 ≤ n) :
    ∃ payload, payload.length = r.packet.data_len ∧
      (∀ block, r.output_bufs = some block → 0 < payload.length →
        n = payload.length ∧ block.take payload.length = payload) ∧
      ∀ allocations chunks is_async, (∀ k, allocations k ≠ none) → chunks.flatten = r.consumed →
        Uncut allocations (connected is_async) chunks → ∃ last, receive allocations (connected is_async) chunks =
          some (last,[⟨r.packet.seqn,r.packet.cmd,r.packet.data_len,payload⟩]) := by
  unfold ipc_recv_packet at returned
  cases ran : recv_frame outcome output_bufs_len (waiting received packet output_bufs) with
  | error reason =>
    rw [ran] at returned
    cases reason with
    | none => cases returned
    | some r =>
      cases returned
      exact absurd accepted (by decide)
  | ok answer =>
    obtain ⟨m,t⟩ := answer
    rw [ran] at returned
    cases returned
    have kept : (free_recv_data t).packet = t.packet := by
      unfold free_recv_data
      split <;> rfl
    have small : (free_recv_data t).packet.data_len < 2^32 := by
      rw [kept]
      exact frame_small ran
    obtain ⟨payload,length,consumed,copied⟩ := free_truthful.mpr (frame_truthful room ran straight) accepted
    refine ⟨payload,length,copied,fun allocations chunks is_async succeed flatten uncut => ?_⟩
    obtain ⟨last,receives,_⟩ := receive_uncut succeed chunks (connected_synced is_async) uncut
    have start : scan (connected is_async) = .head 0 := rfl
    rw [start,flatten,consumed,← length,feed_frame _ _ _ (by rw [length]; exact small)] at receives
    exact ⟨last,length ▸ receives⟩

-- Two bytes of data, read into a buffer of two, and cut inside the begin tag and
-- between the data and the end tag for the parser.
theorem two_bytes_agreed : ∃ n r, ipc_recv_packet (some fun _ => 0) 2 (waiting whole_packet ⟨0,0,0,()⟩ (some [0,0])) = some (n,r) ∧
    n = 2 ∧ r.output_bufs = some [0x61,0x62] ∧ ∃ last, receive zeroed (connected true) [(encode twoBytes).take 2,
      ((encode twoBytes).drop 2).take 9,(encode twoBytes).drop 11] =
        some (last,[⟨r.packet.seqn,r.packet.cmd,r.packet.data_len,[0x61,0x62]⟩]) := by
  have read : (ipc_recv_packet (some fun _ => 0) 2 (waiting whole_packet ⟨0,0,0,()⟩ (some [0,0]))).any fun answer =>
      decide (answer.1 = 2 ∧ answer.2.output_bufs = some [0x61,0x62] ∧ answer.2.packet.data_len = 2 ∧
        answer.2.consumed = encode twoBytes) := by decide
  obtain ⟨⟨n,r⟩,returned,found⟩ := (Option.any_eq_true _ _).mp read
  obtain ⟨two,copied,length,consumed⟩ : n = 2 ∧ r.output_bufs = some [0x61,0x62] ∧ r.packet.data_len = 2 ∧
    r.consumed = encode twoBytes := of_decide_eq_true found
  obtain ⟨payload,whole,filled,agrees⟩ := receivers_agree whole_packet_room whole_packet_straight returned (by rw [two]; decide)
  have cut : [(encode twoBytes).take 2,((encode twoBytes).drop 2).take 9,(encode twoBytes).drop 11].flatten = encode twoBytes := by
    decide
  obtain ⟨last,receives⟩ := agrees zeroed _ true (fun _ => Option.some_ne_none _) (cut.trans consumed.symm) (by decide +kernel)
  have data : payload = [0x61,0x62] := by
    have front := (filled _ copied (by rw [whole,length]; decide)).2
    rw [whole,length] at front
    exact front.symm
  exact ⟨n,r,returned,two,copied,last,data ▸ receives⟩

end Libcplus.Ipc.Agreement
