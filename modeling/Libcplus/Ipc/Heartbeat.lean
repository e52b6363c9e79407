import Libcplus.Ipc.Construction

-- The heartbeats of a client, which reads the acknowledgement of each from the socket
-- itself.
namespace Libcplus.Ipc.Heartbeat
open Bytes Memory Blocking Typedef
open Construction (heartbeat_packet cplus_ipc_client_send_heartbeat)

variable {send : Nat → Int} {received later last : List Received} {seqn : Nat} {number cmd : UInt8} {length : Nat}

-- Without a buffer the data is passed over, so only a header and an end tag count.
theorem frame_read (packet : Packet Unit) (opens : Opens received number cmd length later) (closes : Gives later trailer last) :
    ∃ r, ipc_recv_packet none 0 (waiting received packet none) = some (0,r) ∧
      r.packet = ⟨number,cmd,length,()⟩ ∧ r.received = last := by
  have skipped : Skipped none 0 none := .inl rfl
  have payload := payload_skipped (r := opened (waiting received packet none) number cmd length later) (.inr skipped)
  have frame := recv_frame_iff.mpr ⟨number,cmd,length,later,_,last,opens,payload,closes,rfl⟩
  refine ⟨_,by rw [ipc_recv_packet,frame],?_,?_⟩
  · rfl
  · rfl

theorem frame_parts {packet : Packet Unit} {n : Int} {r : Receipt}
    (returned : ipc_recv_packet none 0 (waiting received packet none) = some (n,r)) (accepted : 0 ≤ n) :
    ∃ length later, Opens received r.packet.seqn r.packet.cmd length later ∧ Gives later trailer r.received := by
  unfold ipc_recv_packet at returned
  cases ran : recv_frame none 0 (waiting received packet none) with
  | error reason =>
    rw [ran] at returned
    cases reason with
    | none => cases returned
    | some r =>
      cases returned
      exact absurd accepted (by decide)
  | ok answer =>
    obtain ⟨m,t⟩ := answer
    rw [ran] at returned
    cases returned
    obtain ⟨number,cmd,length,later,u,last,opens,payload,closes,rfl⟩ := recv_frame_iff.mp ran
    have skipped : Skipped none 0 none := .inl rfl
    cases payload.symm.trans (payload_skipped (.inr skipped))
    exact ⟨length,later,opens,closes⟩

-- A heartbeat went out and its own acknowledgement came back, and nothing less.
theorem heartbeat_exact : cplus_ipc_client_send_heartbeat seqn send received = some CPLUS_SUCCESS ↔
    0 ≤ (ipc_send_packet send (heartbeat_packet seqn)).1 ∧ ∃ length later last,
      Opens received (heartbeat_packet seqn).seqn IPC_CMD_ACK length later ∧ Gives later trailer last := by
  unfold cplus_ipc_client_send_heartbeat
  by_cases sent : 0 ≤ (ipc_send_packet send (heartbeat_packet seqn)).1
  · rw [if_pos sent,Option.map_eq_some_iff]
    constructor
    · intro ⟨⟨n,r⟩,returned,result⟩
      by_cases own : 0 ≤ n ∧ (heartbeat_packet seqn).seqn = r.packet.seqn ∧ IPC_CMD_ACK = r.packet.cmd
      · obtain ⟨accepted,number,command⟩ := own
        obtain ⟨length,later,opens,closes⟩ := frame_parts returned accepted
        rw [← number,← command] at opens
        exact ⟨sent,length,later,r.received,opens,closes⟩
      · simp only [if_neg own] at result
        exact absurd result (by decide)
    · intro ⟨_,length,later,last,opens,closes⟩
      obtain ⟨r,returned,packet,_⟩ := frame_read ⟨0,0,0,()⟩ opens closes
      have own : 0 ≤ (0 : Int) ∧ (heartbeat_packet seqn).seqn = r.packet.seqn ∧ IPC_CMD_ACK = r.packet.cmd := by
        rw [packet]
        exact ⟨Int.le_refl 0,rfl,rfl⟩
      exact ⟨(0,r),returned,if_pos own⟩
  · rw [if_neg sent]
    exact ⟨fun failed => absurd failed (by decide),fun both => absurd both.1 sent⟩

-- What a call leaves unread: all of it when the heartbeat could not be sent.
def unread (seqn : Nat) (send : Nat → Int) (received : List Received) : Option (List Received) :=
  if 0 ≤ (ipc_send_packet send (heartbeat_packet seqn)).1 then
    (ipc_recv_packet none 0 (waiting received ⟨0,0,0,()⟩ none)).map fun read => read.2.received
  else some received

-- Heartbeats one after another on one connection: what a call leaves unread is there
-- for the next.
def heartbeats (sends : Nat → Nat → Int) : Nat → Nat → List Received → Option (List Int × List Received)
  | 0,_,received => some ([],received)
  | count+1,seqn,received =>
    (cplus_ipc_client_send_heartbeat seqn (sends count) received).bind fun res =>
      (unread seqn (sends count) received).bind fun later =>
        (heartbeats sends count (ACCUMULATE_SEQUENCE_NUMBER seqn) later).map fun rest => (res :: rest.1,rest.2)

-- An acknowledgement as its sender's sends cut it.
def acknowledgement (number : UInt8) : List Received := (pieces ⟨number,IPC_CMD_ACK,0,none⟩).map .data

-- The acknowledgements of the heartbeats from a number on.
def acknowledgements : Nat → Nat → List Received
  | 0,_ => []
  | count+1,number => acknowledgement (.ofNat number) ++ acknowledgements count (number + 1)

theorem acknowledgement_read (number : UInt8) (later : List Received) : ∃ middle,
    Opens (acknowledgement number ++ later) number IPC_CMD_ACK 0 middle ∧ Gives middle trailer later :=
  ⟨_,⟨_,_,_,⟨_,rfl,rfl⟩,⟨_,rfl,rfl⟩,⟨_,rfl,rfl⟩,⟨_,rfl,rfl⟩,by decide⟩,_,rfl,rfl⟩

theorem acknowledgement_number {number other : UInt8} {length : Nat} {middle : List Received}
    (opens : Opens (acknowledgement number ++ later) other cmd length middle) : other = number := by
  obtain ⟨_,_,_,⟨_,first,_⟩,⟨_,second,given⟩,_⟩ := opens
  cases first
  cases second
  exact (List.singleton_inj.mp given).symm

variable {sends : Nat → Nat → Int}

theorem heartbeat_number (seqn : Nat) (small : seqn ≤ 255) : (heartbeat_packet seqn).seqn = .ofNat (seqn + 1) := by
  show UInt8.ofNat (ACCUMULATE_SEQUENCE_NUMBER seqn) = _
  unfold ACCUMULATE_SEQUENCE_NUMBER
  split
  · have wrapped : seqn = 255 := by omega
    rw [wrapped]
    rfl
  · rfl

-- A heartbeat that reads the acknowledgement with this number.
theorem heartbeat_reads (count first : Nat) (small : seqn ≤ 255)
    (whole : 0 ≤ (ipc_send_packet (sends count) (heartbeat_packet seqn)).1) (later : List Received) :
    cplus_ipc_client_send_heartbeat seqn (sends count) (acknowledgement (.ofNat first) ++ later) =
      some (if first % 256 = (seqn + 1) % 256 then CPLUS_SUCCESS else CPLUS_FAIL) := by
  obtain ⟨middle,opens,closes⟩ := acknowledgement_read (.ofNat first) later
  have number := heartbeat_number seqn small
  by_cases same : first % 256 = (seqn + 1) % 256
  · have own : (heartbeat_packet seqn).seqn = .ofNat first := by
      rw [number]
      apply UInt8.toNat_inj.mp
      rw [UInt8.toNat_ofNat',UInt8.toNat_ofNat']
      exact same.symm
    rw [if_pos same,heartbeat_exact,own]
    exact ⟨whole,0,middle,later,opens,closes⟩
  · rw [if_neg same]
    refine (Construction.heartbeat_answers seqn (sends count) _).resolve_left fun success => same ?_
    obtain ⟨_,_,_,_,others,_⟩ := heartbeat_exact.mp success
    have own := acknowledgement_number others
    rw [number] at own
    have values := congrArg UInt8.toNat own
    rw [UInt8.toNat_ofNat',UInt8.toNat_ofNat'] at values
    exact values.symm

-- Once so many acknowledgements came too late, every heartbeat that follows reads one
-- of those before: all of them fail, unless the numbers have gone round.
theorem heartbeats_late (sends : Nat → Nat → Int) (late : Nat) (whole : ∀ count seqn, 0 ≤ (ipc_send_packet (sends count) (heartbeat_packet seqn)).1)
    (count seqn first : Nat) (small : seqn ≤ 255) (behind : (first + late) % 256 = (seqn + 1) % 256) (later : List Received) :
    heartbeats sends count seqn (acknowledgements count first ++ later) =
      some (List.replicate count (if late % 256 = 0 then CPLUS_SUCCESS else CPLUS_FAIL),later) := by
  induction count generalizing seqn first with
  | zero => rfl
  | succ count ih =>
    have result := heartbeat_reads count first small (whole count seqn) (acknowledgements count (first + 1) ++ later)
    obtain ⟨middle,opens,closes⟩ := acknowledgement_read (.ofNat first) (acknowledgements count (first + 1) ++ later)
    obtain ⟨r,read,_,remains⟩ := frame_read ⟨0,0,0,()⟩ opens closes
    have taken : unread seqn (sends count) (acknowledgement (.ofNat first) ++ (acknowledgements count (first + 1) ++ later)) =
        some (acknowledgements count (first + 1) ++ later) := by
      rw [unread,if_pos (whole count seqn),read,Option.map_some,remains]
    have next : ACCUMULATE_SEQUENCE_NUMBER seqn % 256 = (seqn + 1) % 256 := by
      unfold ACCUMULATE_SEQUENCE_NUMBER
      split <;> omega
    have rest := ih (ACCUMULATE_SEQUENCE_NUMBER seqn) (first + 1) (accumulate_small seqn) (by omega)
    have own : (if first % 256 = (seqn + 1) % 256 then CPLUS_SUCCESS else CPLUS_FAIL) =
        if late % 256 = 0 then CPLUS_SUCCESS else CPLUS_FAIL := by
      have same : first % 256 = (seqn + 1) % 256 ↔ late % 256 = 0 := by omega
      simp only [same]
    rw [own] at result
    rw [acknowledgements,List.append_assoc,heartbeats,result,Option.bind_some,taken,Option.bind_some]
    simp only [rest,Option.map_some,List.replicate_succ]

theorem heartbeat_whole (seqn : Nat) : 0 ≤ (ipc_send_packet (fun k => [3,1,1,4,3].getD k 0) (heartbeat_packet seqn)).1 := by
  have sent : (ipc_send_packet (fun k => [3,1,1,4,3].getD k 0) (heartbeat_packet seqn)).1 = 0 := rfl
  rw [sent]

-- One acknowledgement too late, and the heartbeats 7 to 9 fail with those of 6 to 8.
theorem heartbeats_one_late : heartbeats (fun _ k => [3,1,1,4,3].getD k 0) 3 6 (acknowledgements 3 6) =
    some ([CPLUS_FAIL,CPLUS_FAIL,CPLUS_FAIL],[]) := by
  have failed := heartbeats_late (fun _ k => [3,1,1,4,3].getD k 0) 1 (fun _ seqn => heartbeat_whole seqn) 3 6 6
    (by decide) (by decide) []
  rw [List.append_nil] at failed
  exact failed

end Libcplus.Ipc.Heartbeat
