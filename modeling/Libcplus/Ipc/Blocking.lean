import Libcplus.Ipc.Decode
import Libcplus.Program

-- ipc_recv_packet, which a client uses to wait for one packet.
namespace Libcplus.Ipc.Blocking
open Bytes Memory Program Typedef

-- What the call works on: what each recv to come brings, the bytes they brought so
-- far, the caller's packet and buffer, the temporary block, and how often a block was
-- given to cplus_free.
structure Receipt where
  received : List Received
  consumed : List UInt8
  packet : Packet Unit
  output_bufs : Option (List UInt8)
  recv_data : Option (List UInt8)
  freed : Nat
  deriving DecidableEq

-- The loop is left by a break, which keeps what was done, or by a faulting access.
abbrev Receiving (α : Type) := Prog Receipt (Option Receipt) α

def leave {α : Type} : Receiving α := fun r => .error (some r)

-- One recv brings no more bytes than it is asked for. A length that is not
-- positive as an int32_t is refused. When nothing more comes the wait times out.
def cplus_socket_recv (data_len : Nat) : Receiving (Int × List UInt8) := fun r =>
  if int32 data_len ≤ 0 then .ok ((CPLUS_FAIL,[]),r)
  else match r.received with
    | [] => .ok ((CPLUS_FAIL,[]),r)
    | .data bytes :: later =>
      let bytes := bytes.take data_len
      .ok (((bytes.length : Int),bytes),{r with received := later,consumed := r.consumed ++ bytes})
    | .closed :: later => .ok ((0,[]),{r with received := later})
    | .error _ :: later => .ok ((CPLUS_FAIL,[]),{r with received := later})

def recv_tag (tag : List UInt8) : Receiving Unit := do
  let answer ← cplus_socket_recv IPC_CONN_PACKET_TAG_SIZE
  if answer.1 = IPC_CONN_PACKET_TAG_SIZE ∧ tag.take IPC_CONN_PACKET_TAG_SIZE = answer.2 then return () else leave

def store_packet (change : Packet Unit → List UInt8 → Packet Unit) (size : Nat) : Receiving Unit := do
  let answer ← cplus_socket_recv size
  modify fun r => {r with packet := change r.packet answer.2}
  if answer.1 = size then return () else leave

-- The bytes go into the field as they come; a field of four bytes may be left with
-- some of them.
def store_seqn (packet : Packet Unit) (bytes : List UInt8) : Packet Unit :=
  {packet with seqn := bytes.headD packet.seqn}

def store_cmd (packet : Packet Unit) (bytes : List UInt8) : Packet Unit :=
  {packet with cmd := bytes.headD packet.cmd}

def store_data_len (packet : Packet Unit) (bytes : List UInt8) : Packet Unit :=
  {packet with data_len := readLittle (bytes ++ (littleEndian32 packet.data_len).drop bytes.length)}

def ntohl (n : Nat) : Nat := (littleEndian32 n).foldl readNext 0

-- cplus_free is a macro, which leaves CPLUS_NULL in recv_data.
def Receipt.free (r : Receipt) : Receipt := {r with recv_data := none,freed := r.freed + 1}

-- The data goes through the block to the caller's buffer, whose copy is not looked at.
def copy_payload (output_bufs_len : Nat) (block : List UInt8) : Receiving Int := do
  let data_len := (← get).packet.data_len
  let answer ← cplus_socket_recv data_len
  let recv_data := some (answer.2 ++ block.drop answer.2.length)
  modify fun r => {r with recv_data := recv_data}
  if 0 < answer.1 ∧ (data_len : Int) = answer.1 then
    match cplus_mem_cpy_ex (← get).output_bufs 0 output_bufs_len recv_data 0 data_len with
    | none => throw none
    | some copied =>
      modify fun r => {r with output_bufs := copied.2}.free
      return answer.1
  else leave

-- The data, when there is some and the caller gave a buffer. The answer is recv_count.
def recv_payload (outcome : Outcome) (output_bufs_len : Nat) : Receiving Int := do
  let r ← get
  if 0 < r.packet.data_len ∧ r.output_bufs ≠ none ∧ 0 < output_bufs_len then
    match cplus_malloc outcome r.packet.data_len with
    | none => return 0
    | some block => copy_payload output_bufs_len block
  else return 0

def recv_frame (outcome : Outcome) (output_bufs_len : Nat) : Receiving Int := do
  recv_tag IPC_CONN_PACKET_BEGIN_TAG
  store_packet store_seqn 1
  store_packet store_cmd 1
  store_packet store_data_len 4
  modify fun r => {r with packet := {r.packet with data_len := ntohl r.packet.data_len}}
  let recv_count ← recv_payload outcome output_bufs_len
  recv_tag IPC_CONN_PACKET_END_TAG
  return recv_count

-- A block that the loop left behind is freed after it.
def free_recv_data (r : Receipt) : Receipt := if r.recv_data = none then r else r.free

-- With a socket and a packet. The timeouts only decide what the recvs bring.
def ipc_recv_packet (outcome : Outcome) (output_bufs_len : Nat) (r : Receipt) : Option (Int × Receipt) :=
  match recv_frame outcome output_bufs_len r with
  | .ok (res,r) => some (res,free_recv_data r)
  | .error (some r) => some (CPLUS_FAIL,free_recv_data r)
  | .error none => none

-- The next recv is given these bytes, if it asks for as many.
def Gives (received : List Received) (bytes : List UInt8) (later : List Received) : Prop :=
  ∃ more, received = .data more :: later ∧ more.take bytes.length = bytes

-- The recvs up to the length field bring a packet's header.
def Opens (received : List Received) (seqn cmd : UInt8) (length : Nat) (later : List Received) : Prop :=
  ∃ one two three, Gives received (IPC_CONN_PACKET_BEGIN_TAG.take IPC_CONN_PACKET_TAG_SIZE) one ∧
    Gives one [seqn] two ∧ Gives two [cmd] three ∧ Gives three (bigEndian32 length) later ∧ length < 2^32

-- A result that is not negative answers for one frame, with all its data in the
-- buffer that the caller gave.
def Truthful (n : Int) (r : Receipt) : Prop :=
  0 ≤ n → ∃ payload, payload.length = r.packet.data_len ∧
    r.consumed = header r.packet.seqn r.packet.cmd r.packet.data_len ++ (payload ++ trailer) ∧
    ∀ block, r.output_bufs = some block → 0 < payload.length →
      n = payload.length ∧ block.take payload.length = payload

variable {r t u : Receipt} {outcome : Outcome} {size output_bufs_len : Nat} {bytes : List UInt8} {n : Int}

-- After some bytes.
def Receipt.take (r : Receipt) (bytes : List UInt8) (later : List Received) : Receipt :=
  {r with received := later,consumed := r.consumed ++ bytes}

-- The recv answers as many bytes as it was asked for.
theorem socket_recv_iff (positive : 0 < size) (small : size < 2^31) :
    cplus_socket_recv size r = .ok (((size : Int),bytes),t) ↔
      ∃ later, bytes.length = size ∧ Gives r.received bytes later ∧ t = r.take bytes later := by
  have accepted : ¬ int32 size ≤ 0 := by
    rw [int32_small small]
    omega
  have failed : CPLUS_FAIL ≠ (size : Int) := by
    simp only [CPLUS_FAIL]
    omega
  simp only [cplus_socket_recv,if_neg accepted]
  constructor
  · intro ran
    cases next : r.received with
    | nil =>
      rw [next] at ran
      simp only [Except.ok.injEq,Prod.mk.injEq] at ran
      exact absurd ran.1.1 failed
    | cons result later =>
      rw [next] at ran
      cases result with
      | data more =>
        simp only [Except.ok.injEq,Prod.mk.injEq,Int.natCast_inj] at ran
        obtain ⟨⟨length,same⟩,rfl⟩ := ran
        rw [same] at length ⊢
        exact ⟨later,length,⟨more,rfl,by rw [length,same]⟩,rfl⟩
      | closed =>
        simp only [Except.ok.injEq,Prod.mk.injEq] at ran
        omega
      | error errno =>
        simp only [Except.ok.injEq,Prod.mk.injEq] at ran
        exact absurd ran.1.1 failed
  · rintro ⟨later,length,⟨more,next,given⟩,rfl⟩
    rw [next]
    rw [length] at given
    simp only [given,length]
    rfl

-- A check at the end of a part.
theorem check_iff {c : Prop} [Decidable c] : (if c then pure () else leave : Receiving Unit) r = .ok ((),t) ↔ c ∧ t = r := by
  by_cases passes : c
  · rw [if_pos passes,run_pure]
    simp [passes,eq_comm]
  · rw [if_neg passes]
    exact iff_of_false nofun fun passed => passes passed.1

theorem recv_tag_iff {tag : List UInt8} (length : tag.length = 4) :
    recv_tag tag r = .ok ((),t) ↔ ∃ later, Gives r.received (tag.take 3) later ∧ t = r.take (tag.take 3) later := by
  have three : (tag.take 3).length = 3 := List.length_take_of_le (by omega)
  rw [recv_tag,bind_iff]
  constructor
  · rintro ⟨⟨count,bytes⟩,u,ran,checked⟩
    obtain ⟨⟨rfl,rfl⟩,rfl⟩ := check_iff.mp checked
    obtain ⟨later,_,given,rfl⟩ := (socket_recv_iff (by decide) (by decide)).mp ran
    exact ⟨later,given,rfl⟩
  · rintro ⟨later,given,rfl⟩
    have ran := (socket_recv_iff (by decide) (by decide)).mpr ⟨later,three,given,rfl⟩
    exact ⟨_,_,ran,check_iff.mpr ⟨⟨rfl,rfl⟩,rfl⟩⟩

theorem store_packet_iff {change : Packet Unit → List UInt8 → Packet Unit} (positive : 0 < size) (small : size < 2^31) :
    store_packet change size r = .ok ((),t) ↔ ∃ bytes later, bytes.length = size ∧ Gives r.received bytes later ∧
      t = {r.take bytes later with packet := change r.packet bytes} := by
  rw [store_packet,bind_iff]
  constructor
  · rintro ⟨⟨count,bytes⟩,u,ran,stored⟩
    rw [run_bind,run_modify,ok_bind] at stored
    obtain ⟨rfl,rfl⟩ := check_iff.mp stored
    obtain ⟨later,length,given,rfl⟩ := (socket_recv_iff positive small).mp ran
    exact ⟨bytes,later,length,given,rfl⟩
  · rintro ⟨bytes,later,length,given,rfl⟩
    refine ⟨_,_,(socket_recv_iff positive small).mpr ⟨later,length,given,rfl⟩,?_⟩
    rw [run_bind,run_modify,ok_bind]
    exact check_iff.mpr ⟨rfl,rfl⟩

-- The field is filled in the order of the bytes and then turned round.
theorem ntohl_stored (packet : Packet Unit) (length : bytes.length = 4) :
    ntohl (store_data_len packet bytes).data_len = bytes.foldl readNext 0 := by
  have covered : (littleEndian32 packet.data_len).drop bytes.length = [] := by
    rw [length]
    rfl
  rw [ntohl,store_data_len,covered,List.append_nil,read_littleEndian32 length]

def opened (r : Receipt) (seqn cmd : UInt8) (length : Nat) (later : List Received) : Receipt :=
  {r.take (header seqn cmd length) later with packet := ⟨seqn,cmd,length,()⟩}

theorem header_opened (r : Receipt) (seqn cmd : UInt8) (one two three later : List Received) (length : bytes.length = 4) :
    let tagged := r.take (IPC_CONN_PACKET_BEGIN_TAG.take 3) one
    let numbered := {tagged.take [seqn] two with packet := store_seqn tagged.packet [seqn]}
    let commanded := {numbered.take [cmd] three with packet := store_cmd numbered.packet [cmd]}
    let stored := {commanded.take bytes later with packet := store_data_len commanded.packet bytes}
    {stored with packet := {stored.packet with data_len := ntohl stored.packet.data_len}} =
      opened r seqn cmd (bytes.foldl readNext 0) later := by
  intro tagged numbered commanded stored
  have turned : ntohl stored.packet.data_len = bytes.foldl readNext 0 := ntohl_stored _ length
  simp only [opened,header,(read_bigEndian length).2,turned]
  simp [stored,commanded,numbered,tagged,Receipt.take,store_data_len,store_cmd,store_seqn,IPC_CONN_PACKET_TAG_SIZE]

theorem recv_frame_iff : recv_frame outcome output_bufs_len r = .ok (n,t) ↔
    ∃ seqn cmd length later u last, Opens r.received seqn cmd length later ∧
      recv_payload outcome output_bufs_len (opened r seqn cmd length later) = .ok (n,u) ∧
      Gives u.received trailer last ∧ t = u.take trailer last := by
  rw [recv_frame]
  simp only [bind_iff]
  constructor
  · rintro ⟨_,_,tag,_,_,at_seqn,_,_,at_cmd,_,_,at_len,_,_,turned,_,_,payload,_,_,closed,done⟩
    obtain ⟨one,begins,rfl⟩ := (recv_tag_iff rfl).mp tag
    obtain ⟨_,two,length,first,rfl⟩ := (store_packet_iff (by decide) (by decide)).mp at_seqn
    obtain ⟨seqn,rfl⟩ := List.length_eq_one_iff.mp length
    obtain ⟨_,three,length,second,rfl⟩ := (store_packet_iff (by decide) (by decide)).mp at_cmd
    obtain ⟨cmd,rfl⟩ := List.length_eq_one_iff.mp length
    obtain ⟨bytes,later,length,third,rfl⟩ := (store_packet_iff (by decide) (by decide)).mp at_len
    obtain ⟨small,same⟩ := read_bigEndian length
    obtain ⟨last,ends,rfl⟩ := (recv_tag_iff rfl).mp closed
    cases turned
    cases done
    have opens := header_opened r seqn cmd one two three later length
    rw [← same] at third
    exact ⟨seqn,cmd,_,later,_,last,⟨one,two,three,begins,first,second,third,small⟩,
      (congrArg (recv_payload outcome output_bufs_len) opens.symm).trans payload,ends,rfl⟩
  · rintro ⟨seqn,cmd,length,later,u,last,⟨one,two,three,begins,first,second,third,small⟩,payload,ends,rfl⟩
    have opens := header_opened r seqn cmd one two three later (bigEndian32_length length)
    rw [bigEndian32_read small] at opens
    exact ⟨_,_,(recv_tag_iff rfl).mpr ⟨one,begins,rfl⟩,_,_,
      (store_packet_iff (by decide) (by decide)).mpr ⟨[seqn],two,rfl,first,rfl⟩,_,_,
      (store_packet_iff (by decide) (by decide)).mpr ⟨[cmd],three,rfl,second,rfl⟩,_,_,
      (store_packet_iff (by decide) (by decide)).mpr ⟨bigEndian32 length,later,rfl,third,rfl⟩,_,_,rfl,n,u,
      (congrArg (recv_payload outcome output_bufs_len) opens).trans payload,_,_,
      (recv_tag_iff rfl).mpr ⟨last,ends,rfl⟩,rfl⟩

-- No buffer for the data, or no block to receive it in: it is not asked for.
def Skipped (output_bufs : Option (List UInt8)) (output_bufs_len : Nat) (outcome : Outcome) : Prop :=
  output_bufs = none ∨ output_bufs_len = 0 ∨ outcome = none

variable {block data : List UInt8}

-- Where the data is asked for and still skipped, the block was refused.
theorem skipped_refused {length : Nat} {output_bufs : Option (List UInt8)}
    (asked : 0 < length ∧ output_bufs ≠ none ∧ 0 < output_bufs_len)
    (skipped : length = 0 ∨ Skipped output_bufs output_bufs_len outcome) : outcome = none := by
  obtain ⟨some_data,there,positive⟩ := asked
  obtain zero | missing | zero | refused := skipped
  · exact absurd zero (Nat.ne_of_gt some_data)
  · exact absurd missing there
  · exact absurd zero (Nat.ne_of_gt positive)
  · exact refused

theorem payload_skipped (skipped : r.packet.data_len = 0 ∨ Skipped r.output_bufs output_bufs_len outcome) :
    recv_payload outcome output_bufs_len r = .ok (0,r) := by
  rw [recv_payload,run_bind,run_get,ok_bind]
  split
  · rename_i asked
    cases skipped_refused asked skipped
    rfl
  · rfl

theorem socket_recv_small {count : Int} (counts : size < 2^32) (ran : cplus_socket_recv size r = .ok ((count,bytes),t))
    (some_bytes : 0 < count) : 0 < size ∧ size < 2^31 := by
  apply int32_positive counts
  intro refused
  rw [cplus_socket_recv,if_pos refused] at ran
  cases ran
  exact absurd some_bytes (by decide)

-- What the copy does once the whole data is there.
theorem copy_read (there : r.output_bufs = some block) (positive : 0 < output_bufs_len) (room : block.length = output_bufs_len)
    (length : data.length = r.packet.data_len) (some_data : 0 < data.length) {received : List UInt8}
    (fresh : received.length = data.length) {later : List Received} (given : Gives r.received data later)
    (small : data.length < 2^31) : copy_payload output_bufs_len received r = .ok ((data.length : Int),
      {r.take data later with
        recv_data := none
        output_bufs := some (copied_out data.length data block)
        freed := r.freed + 1}) := by
  have ran := (socket_recv_iff some_data small).mpr ⟨later,rfl,given,rfl⟩
  have whole : data ++ received.drop data.length = data := by
    rw [← fresh,List.drop_length,List.append_nil]
  have passes : 0 < (data.length : Int) ∧ True := ⟨by omega,trivial⟩
  obtain ⟨done,copies⟩ := mem_cpy_ex_out (room ▸ positive) (Nat.le_refl data.length)
  rw [room] at copies
  rw [copy_payload,run_bind,run_get,ok_bind]
  simp only [← length]
  rw [bind_ok ran,run_bind,run_modify,ok_bind]
  simp only [whole]
  rw [if_pos passes,run_bind,run_get,ok_bind]
  simp only [Receipt.take,there,copies]
  rfl

theorem copy_parts (counts : r.packet.data_len < 2^32) {received : List UInt8}
    (ran : copy_payload output_bufs_len received r = .ok (n,u)) : ∃ data later, r.packet.data_len < 2^31 ∧
      0 < r.packet.data_len ∧ data.length = r.packet.data_len ∧ Gives r.received data later := by
  rw [copy_payload,run_bind,run_get,ok_bind] at ran
  obtain ⟨⟨count,data⟩,t,brought,rest⟩ := bind_parts ran
  rw [run_bind,run_modify,ok_bind] at rest
  by_cases passes : 0 < count ∧ (r.packet.data_len : Int) = count
  · obtain ⟨some_data,small⟩ := socket_recv_small counts brought passes.1
    obtain ⟨positive,rfl⟩ := passes
    obtain ⟨later,length,given,_⟩ := (socket_recv_iff some_data small).mp brought
    exact ⟨data,later,small,some_data,length,given⟩
  · simp only [if_neg passes] at rest
    cases rest

theorem payload_asked (some_data : 0 < r.packet.data_len) (there : r.output_bufs = some block)
    (positive : 0 < output_bufs_len) (granted : outcome ≠ none) : ∃ received,
      received.length = r.packet.data_len ∧
      recv_payload outcome output_bufs_len r = copy_payload output_bufs_len received r := by
  obtain ⟨garbage,rfl⟩ := Option.ne_none_iff_exists'.mp granted
  have asked : 0 < r.packet.data_len ∧ r.output_bufs ≠ none ∧ 0 < output_bufs_len :=
    ⟨some_data,by rw [there]; exact Option.some_ne_none block,positive⟩
  obtain ⟨received,obtained⟩ : ∃ received, cplus_malloc (some garbage) r.packet.data_len = some received := ⟨_,rfl⟩
  refine ⟨received,malloc_length obtained,?_⟩
  rw [recv_payload,run_bind,run_get,ok_bind]
  simp only [if_pos asked,obtained]

-- What the socket, the buffer and the allocator bring together for a wrong answer:
-- data that is not read, with an end tag at its beginning, or data that is read and
-- not copied, with an end tag behind it.
inductive Misleads (received : List Received) (output_bufs : Option (List UInt8)) (output_bufs_len : Nat)
    (outcome : Outcome) : Prop where
  | skipped {seqn cmd length later last} (opens : Opens received seqn cmd length later) (some_data : 0 < length)
      (skipped : Skipped output_bufs output_bufs_len outcome) (closes : Gives later trailer last)
  | lost {seqn cmd length later block data more last} (opens : Opens received seqn cmd length later)
      (some_data : 0 < length) (small : length < 2^31) (there : output_bufs = some block) (positive : 0 < output_bufs_len)
      (granted : outcome ≠ none) (whole : data.length = length) (given : Gives later data more)
      (refused : output_bufs_len < length ∨ RSIZE_MAX_MEM < output_bufs_len) (differs : block.take length ≠ data)
      (closes : Gives more trailer last)

def waiting (received : List Received) (packet : Packet Unit) (output_bufs : Option (List UInt8)) : Receipt :=
  ⟨received,[],packet,output_bufs,none,0⟩

variable {received : List Received} {packet : Packet Unit} {output_bufs : Option (List UInt8)}

-- The call with the data in the caller's buffer, as far as it is copied.
def answered (output_bufs : Option (List UInt8)) (seqn cmd : UInt8) (data : List UInt8) (later : List Received) : Receipt :=
  ⟨later,header seqn cmd data.length ++ data,⟨seqn,cmd,data.length,()⟩,output_bufs,none,1⟩

theorem payload_read {seqn cmd : UInt8} {length : Nat} {later more : List Received}
    (room : ∀ block, output_bufs = some block → block.length = output_bufs_len) (there : output_bufs = some block)
    (positive : 0 < output_bufs_len) (granted : outcome ≠ none) (whole : data.length = length) (some_data : 0 < length)
    (small : length < 2^31) (given : Gives later data more) :
    recv_payload outcome output_bufs_len (opened (waiting received packet output_bufs) seqn cmd length later) =
      .ok ((data.length : Int),answered (some (copied_out data.length data block)) seqn cmd data more) := by
  subst whole
  obtain ⟨fresh,length,asked⟩ := payload_asked (r := opened (waiting received packet output_bufs) seqn cmd data.length later)
    some_data there positive granted
  rw [asked,copy_read (r := opened (waiting received packet output_bufs) seqn cmd data.length later) there positive
    (room block there) rfl some_data length given small]
  rfl

theorem frame_misleads (room : ∀ block, output_bufs = some block → block.length = output_bufs_len)
    (misleads : Misleads received output_bufs output_bufs_len outcome) : ∃ n t,
      recv_frame outcome output_bufs_len (waiting received packet output_bufs) = .ok (n,t) ∧ ¬ Truthful n t := by
  cases misleads with
  | @skipped seqn cmd length later last opens some_data skipped closes =>
    have passed := payload_skipped (r := opened (waiting received packet output_bufs) seqn cmd length later) (.inr skipped)
    refine ⟨0,_,recv_frame_iff.mpr ⟨seqn,cmd,length,later,_,last,opens,passed,closes,rfl⟩,fun truthful => ?_⟩
    obtain ⟨payload,whole,consumed,_⟩ := truthful (Int.le_refl 0)
    have lengths := congrArg List.length consumed
    simp only [opened,waiting,Receipt.take,List.length_append,List.length_nil] at whole lengths
    omega
  | @lost seqn cmd length later block data more last opens some_data small there positive granted whole given refused differs closes =>
    subst whole
    refine ⟨_,_,recv_frame_iff.mpr ⟨seqn,cmd,data.length,later,_,last,opens,
      payload_read room there positive granted rfl some_data small given,closes,rfl⟩,fun truthful => ?_⟩
    obtain ⟨payload,length,consumed,copies⟩ := truthful (Int.natCast_nonneg _)
    have same : payload = data := by
      simp only [answered,Receipt.take,List.append_assoc,List.append_cancel_left_eq,List.append_cancel_right_eq] at consumed
      exact consumed.symm
    subst same
    have kept : copied_out payload.length payload block = block := if_neg (by rw [room block there]; omega)
    exact differs (kept ▸ (copies _ rfl some_data).2)

theorem frame_truthful (room : ∀ block, output_bufs = some block → block.length = output_bufs_len)
    (ran : recv_frame outcome output_bufs_len (waiting received packet output_bufs) = .ok (n,t))
    (straight : ¬ Misleads received output_bufs output_bufs_len outcome) : Truthful n t := by
  intro _
  obtain ⟨seqn,cmd,length,later,u,last,opens,payload,closes,rfl⟩ := recv_frame_iff.mp ran
  rcases Nat.eq_zero_or_pos length with rfl | some_data
  · cases payload.symm.trans (payload_skipped (.inl rfl))
    exact ⟨[],rfl,rfl,fun _ _ more => absurd more (Nat.lt_irrefl 0)⟩
  · by_cases skipped : Skipped output_bufs output_bufs_len outcome
    · cases payload.symm.trans (payload_skipped (.inr skipped))
      exact absurd (.skipped opens some_data skipped closes) straight
    · simp only [Skipped,not_or] at skipped
      obtain ⟨present,nonzero,granted⟩ := skipped
      obtain ⟨block,there⟩ := Option.ne_none_iff_exists'.mp present
      have positive := Nat.pos_of_ne_zero nonzero
      obtain ⟨_,_,asked⟩ := payload_asked (r := opened (waiting received packet output_bufs) seqn cmd length later)
        some_data there positive granted
      have ⟨_,_,_,_,_,_,_,counts⟩ := opens
      obtain ⟨data,more,small,_,whole,given⟩ := copy_parts counts (asked.symm.trans payload)
      cases payload.symm.trans (payload_read room there positive granted whole some_data small given)
      refine ⟨data,rfl,by simp [answered,Receipt.take],fun written same _ => ⟨rfl,?_⟩⟩
      cases same
      unfold copied_out
      split
      · rw [List.take_length]
        exact List.take_left
      · rename_i refused
        rw [room block there] at refused
        subst whole
        by_contra differs
        exact straight (.lost opens some_data small there positive granted rfl given (by omega) differs closes)

theorem free_truthful : Truthful n (free_recv_data r) ↔ Truthful n r := by
  unfold free_recv_data
  split <;> rfl

-- The copy stays inside both buffers, as long as the caller's is as long as it says.
def Room (output_bufs_len : Nat) (r : Receipt) : Prop := ∀ block, r.output_bufs = some block → block.length = output_bufs_len

abbrev Returns {α : Type} (output_bufs_len : Nat) (prog : Receiving α) : Prop :=
  Takes (· ≠ none) (Room output_bufs_len) (Room output_bufs_len) prog

theorem leave_returns {α : Type} : Returns output_bufs_len (leave : Receiving α) := fun _ _ => Option.some_ne_none _

theorem check_returns {c : Prop} [Decidable c] : Returns output_bufs_len (if c then pure () else leave : Receiving Unit) :=
  .ite (fun _ => .pure ()) fun _ => leave_returns

theorem socket_answers (size : Nat) (r : Receipt) : ∃ answer received consumed,
    cplus_socket_recv size r = .ok (answer,{r with received := received,consumed := consumed}) := by
  unfold cplus_socket_recv
  split
  · exact ⟨_,_,_,rfl⟩
  · split <;> exact ⟨_,_,_,rfl⟩

theorem socket_returns : Returns output_bufs_len (cplus_socket_recv size) := by
  intro r room
  obtain ⟨answer,received,consumed,ran⟩ := socket_answers size r
  rw [ran]
  exact room

theorem tag_returns (tag : List UInt8) : Returns output_bufs_len (recv_tag tag) :=
  socket_returns.bind fun _ => check_returns

theorem store_returns (change : Packet Unit → List UInt8 → Packet Unit) : Returns output_bufs_len (store_packet change size) :=
  socket_returns.bind fun _ => Takes.bind (.modify fun _ room => room) fun _ => check_returns

theorem copy_returns {r : Receipt} {fresh : List UInt8} (positive : 0 < output_bufs_len)
    (length : fresh.length = r.packet.data_len) (room : Room output_bufs_len r) :
    Takes (· ≠ none) (· = r) (Room output_bufs_len) (copy_payload output_bufs_len fresh) := by
  intro s same
  subst same
  obtain ⟨⟨count,bytes⟩,received,consumed,ran⟩ := socket_answers s.packet.data_len s
  rw [copy_payload,run_bind,run_get,ok_bind]
  simp only
  rw [bind_ok ran,run_bind,run_modify,ok_bind]
  by_cases passes : 0 < count ∧ (s.packet.data_len : Int) = count
  · simp only [if_pos passes]
    rw [run_bind,run_get,ok_bind]
    simp only
    cases there : s.output_bufs with
    | none =>
      simp only [cplus_mem_cpy_ex]
      exact no_block
    | some block =>
      have within : s.packet.data_len ≤ (bytes ++ fresh.drop bytes.length).length := by
        rw [List.length_append,List.length_drop]
        omega
      obtain ⟨done,copies⟩ := mem_cpy_ex_out (room block there ▸ positive) within
      have kept : (copied_out s.packet.data_len (bytes ++ fresh.drop bytes.length) block).length = block.length :=
        copied_out_length within
      rw [room block there] at copies kept
      simp only [copies]
      intro other same
      cases same
      exact kept
  · simp only [if_neg passes]
    exact Option.some_ne_none _

theorem payload_returns : Returns output_bufs_len (recv_payload outcome output_bufs_len) := by
  refine .get fun r room => ?_
  apply Takes.ite
  · intro asked
    cases obtained : cplus_malloc outcome r.packet.data_len with
    | none => exact (Takes.pure (0 : Int)).weaken fun s same => same ▸ room
    | some block => exact copy_returns asked.2.2 (malloc_length obtained) room
  · intro _
    exact (Takes.pure (0 : Int)).weaken fun s same => same ▸ room

theorem frame_returns : Returns output_bufs_len (recv_frame outcome output_bufs_len) :=
  (tag_returns _).bind fun _ => (store_returns _).bind fun _ => (store_returns _).bind fun _ => (store_returns _).bind fun _ =>
    Takes.bind (.modify fun _ room => room) fun _ => payload_returns.bind fun _ => (tag_returns _).bind fun _ => .pure _

theorem recv_returns {received : List Received} {packet : Packet Unit} {output_bufs : Option (List UInt8)}
    (room : Room output_bufs_len (waiting received packet output_bufs)) :
    ∃ answer, ipc_recv_packet outcome output_bufs_len (waiting received packet output_bufs) = some answer := by
  have returns : Returns output_bufs_len (recv_frame outcome output_bufs_len) := frame_returns
  have ended := returns _ room
  unfold ipc_recv_packet
  cases ran : recv_frame outcome output_bufs_len (waiting received packet output_bufs) with
  | ok answer => exact ⟨_,rfl⟩
  | error reason =>
    rw [ran] at ended
    obtain ⟨t,rfl⟩ := Option.ne_none_iff_exists'.mp ended
    exact ⟨_,rfl⟩

-- No block is left, and at most so many were freed.
def Clean (n : Nat) (r : Receipt) : Prop := r.recv_data = none ∧ r.freed ≤ n

abbrev Frees {α : Type} (n m : Nat) (prog : Receiving α) : Prop :=
  Takes (fun reason => ∀ r, reason = some r → Clean 1 (free_recv_data r)) (Clean n) (Clean m) prog

theorem clean_ended {k : Nat} (small : k ≤ 1) (clean : Clean k r) : Clean 1 (free_recv_data r) := by
  unfold free_recv_data
  rw [if_pos clean.1]
  exact ⟨clean.1,Nat.le_trans clean.2 small⟩

theorem socket_frees {k : Nat} : Frees k k (cplus_socket_recv size) := by
  intro r clean
  obtain ⟨answer,received,consumed,ran⟩ := socket_answers size r
  rw [ran]
  exact clean

theorem check_frees {k : Nat} {c : Prop} [Decidable c] (small : k ≤ 1) :
    Frees k k (if c then pure () else leave : Receiving Unit) := by
  refine .ite (fun _ => .pure ()) fun _ r clean t same => ?_
  cases same
  exact clean_ended small clean

theorem tag_frees {k : Nat} (small : k ≤ 1) (tag : List UInt8) : Frees k k (recv_tag tag) :=
  socket_frees.bind fun _ => check_frees small

theorem store_frees (change : Packet Unit → List UInt8 → Packet Unit) : Frees 0 0 (store_packet change size) :=
  socket_frees.bind fun _ => Takes.bind (.modify fun _ clean => clean) fun _ => check_frees (Nat.zero_le 1)

-- Behind the loop.
theorem fresh_ended (fresh : r.freed = 0) : Clean 1 (free_recv_data r) := by
  unfold free_recv_data
  split
  · exact ⟨‹_›,by omega⟩
  · exact ⟨rfl,Nat.le_of_eq (congrArg (· + 1) fresh)⟩

theorem copy_frees (block : List UInt8) : Frees 0 1 (copy_payload output_bufs_len block) := by
  refine .get fun r clean => Takes.bind (socket_frees.weaken fun _ same => same ▸ clean) fun answer => ?_
  have stored : Takes (fun reason => ∀ r, reason = some r → Clean 1 (free_recv_data r)) (Clean 0) (fun s => s.freed = 0)
      (modify fun s => {s with recv_data := some (answer.2 ++ block.drop answer.2.length)} : Receiving Unit) :=
    .modify fun s clean => Nat.le_zero.mp clean.2
  refine stored.bind fun _ => .ite (fun _ => .get fun s fresh => ?_) fun _ s fresh t same => ?_
  · split
    · exact fun _ _ => nofun
    · refine Takes.bind (.modify fun t same => ?_) fun _ => .pure _
      subst same
      exact ⟨rfl,Nat.le_of_eq (congrArg (· + 1) fresh)⟩
  · cases same
    exact fresh_ended fresh

theorem payload_frees : Frees 0 1 (recv_payload outcome output_bufs_len) := by
  refine .get fun r clean => (Takes.ite (fun _ => ?_) fun _ => ?_).weaken fun _ same => same ▸ clean
  · split
    · exact (Takes.pure (0 : Int)).imp fun _ clean => ⟨clean.1,Nat.le_succ_of_le clean.2⟩
    · exact copy_frees _
  · exact (Takes.pure (0 : Int)).imp fun _ clean => ⟨clean.1,Nat.le_succ_of_le clean.2⟩

theorem frame_frees : Frees 0 1 (recv_frame outcome output_bufs_len) :=
  (tag_frees (Nat.zero_le 1) _).bind fun _ => (store_frees _).bind fun _ => (store_frees _).bind fun _ => (store_frees _).bind fun _ =>
    Takes.bind (.modify fun _ clean => clean) fun _ => payload_frees.bind fun _ => (tag_frees (Nat.le_refl 1) _).bind fun _ => .pure _

-- Whichever way the call ends, the block is freed, and only once.
theorem recv_freed {received : List Received} {packet : Packet Unit} {output_bufs : Option (List UInt8)}
    (ran : ipc_recv_packet outcome output_bufs_len (waiting received packet output_bufs) = some (n,r)) :
    r.recv_data = none ∧ r.freed ≤ 1 := by
  have frees : Frees 0 1 (recv_frame outcome output_bufs_len) := frame_frees
  have start : Clean 0 (waiting received packet output_bufs) := ⟨rfl,Nat.le_refl 0⟩
  unfold ipc_recv_packet at ran
  split at ran
  · rename_i done
    cases ran
    exact clean_ended (Nat.le_refl 1) (frees.answer start done)
  · rename_i left_
    cases ran
    exact frees.ends start left_ _ rfl
  · cases ran

-- Each call with a buffer as long as it is said to be.
theorem blocking_exact (received : List Received) (packet : Packet Unit) (output_bufs : Option (List UInt8))
    (output_bufs_len : Nat) (outcome : Outcome) (room : ∀ block, output_bufs = some block → block.length = output_bufs_len) :
    ∃ n r, ipc_recv_packet outcome output_bufs_len (waiting received packet output_bufs) = some (n,r) ∧
      (Truthful n r ↔ ¬ Misleads received output_bufs output_bufs_len outcome) := by
  have returns : Returns output_bufs_len (recv_frame outcome output_bufs_len) := frame_returns
  have ended := returns (waiting received packet output_bufs) room
  cases ran : recv_frame outcome output_bufs_len (waiting received packet output_bufs) with
  | ok answer =>
    obtain ⟨n,t⟩ := answer
    refine ⟨n,free_recv_data t,by simp only [ipc_recv_packet,ran],?_⟩
    rw [free_truthful]
    refine ⟨fun truthful misleads => ?_,frame_truthful room ran⟩
    obtain ⟨_,_,other,wrong⟩ := frame_misleads room misleads
    rw [ran] at other
    cases other
    exact wrong truthful
  | error reason =>
    rw [ran] at ended
    obtain ⟨t,rfl⟩ := Option.ne_none_iff_exists'.mp ended
    refine ⟨CPLUS_FAIL,free_recv_data t,by simp only [ipc_recv_packet,ran],?_⟩
    refine iff_of_true (fun more => absurd more (by decide)) fun misleads => ?_
    obtain ⟨_,_,other,_⟩ := frame_misleads room misleads
    rw [ran] at other
    cases other

-- A packet as its sender's six sends cut it.
def whole_packet : List Received := (pieces twoBytes.packet).map .data

theorem whole_packet_straight : ¬ Misleads whole_packet (some [0,0]) 2 (some fun _ => 0) := by
  have two : ∀ seqn cmd length later, Opens whole_packet seqn cmd length later → length = 2 := by
    intro seqn cmd length later opens
    obtain ⟨_,_,_,⟨_,first,_⟩,⟨_,second,_⟩,⟨_,third,_⟩,⟨_,fourth,given⟩,small⟩ := opens
    cases first
    cases second
    cases third
    cases fourth
    have read := bigEndian32_read small
    rw [← given] at read
    exact read.symm
  intro misleads
  cases misleads with
  | skipped opens some_data skipped => simp [Skipped] at skipped
  | lost opens _ _ _ _ _ _ _ refused =>
    rw [two _ _ _ _ opens] at refused
    revert refused
    decide

theorem whole_packet_room : ∀ block, some ([0,0] : List UInt8) = some block → block.length = 2 := by
  rintro _ ⟨⟩
  rfl

theorem whole_packet_read : ∃ n r, ipc_recv_packet (some fun _ => 0) 2 (waiting whole_packet ⟨0,0,0,()⟩ (some [0,0])) = some (n,r) ∧
    Truthful n r := by
  obtain ⟨n,r,result,truthful⟩ := blocking_exact whole_packet ⟨0,0,0,()⟩ (some [0,0]) 2 (some fun _ => 0) whole_packet_room
  exact ⟨n,r,result,truthful.mpr whole_packet_straight⟩

-- Three bytes of data that are an end tag, for a caller without a buffer.
theorem data_taken_for_tag : ¬ ∀ (received : List Received) (packet : Packet Unit) (output_bufs : Option (List UInt8))
    (output_bufs_len : Nat) (outcome : Outcome) (n : Int) (r : Receipt),
    (∀ block, output_bufs = some block → block.length = output_bufs_len) →
    ipc_recv_packet outcome output_bufs_len (waiting received packet output_bufs) = some (n,r) → Truthful n r := by
  intro claim
  have truthful := claim [.data [0x53,0x54,0x58],.data [1],.data [3],.data [0,0,0,3],.data [0x45,0x54,0x58]] ⟨0,0,0,()⟩ none 0
    none 0 _ no_block rfl
  obtain ⟨payload,length,consumed,_⟩ := truthful (Int.le_refl 0)
  have lengths := congrArg List.length consumed
  rw [List.length_append,List.length_append,header_length,length] at lengths
  cases lengths

end Libcplus.Ipc.Blocking
