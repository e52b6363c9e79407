import Libcplus.Ipc.Decode

namespace Libcplus.Ipc
open Bytes Memory Transducer Transition

def beginTag : List UInt8 := IPC_CONN_PACKET_BEGIN_TAG.take IPC_CONN_PACKET_TAG_SIZE

-- Where a word first stands in a text.
def FirstAt (word text : List UInt8) (position : Nat) : Prop :=
  word <+: text.drop position ∧ ∀ earlier < position, ¬ word <+: text.drop earlier

instance (word text : List UInt8) (position : Nat) : Decidable (FirstAt word text position) :=
  inferInstanceAs (Decidable (_ ∧ _))

-- How many of "S" and "ST" stand in a row at the end of a text, here last byte first.
-- Each of them either begins a match or is lost when it ends the match before it.
def starts : List UInt8 → Nat
  | 0x54 :: 0x53 :: before => starts before + 1
  | 0x53 :: before => starts before + 1
  | _ => 0

-- A match that the parser has begun is open at the end of the text.
def Unfinished (text : List UInt8) : Prop := starts text.reverse % 2 = 1

instance (text : List UInt8) : Decidable (Unfinished text) := inferInstanceAs (Decidable (_ = _))

variable {c next last : Conn} {outcome : Nat → Outcome} {g : List UInt8}

theorem starts_s (before : List UInt8) : starts (0x53 :: before) = starts before + 1 := by
  simp [starts]

theorem starts_st (before : List UInt8) : starts (0x54 :: 0x53 :: before) = starts before + 1 := by
  simp [starts]

theorem starts_other {b : UInt8} (before : List UInt8) (s : b ≠ 0x53) (t : b ≠ 0x54) : starts (b :: before) = 0 := by
  unfold starts
  split
  · simp_all
  · simp_all
  · rfl

theorem starts_t {before : List UInt8} (lone : before.head? ≠ some 0x53) : starts (0x54 :: before) = 0 := by
  unfold starts
  split
  · simp_all
  · simp_all
  · rfl

-- What the parser has matched of the tag when a text without the tag ends.
inductive Searching : List UInt8 → Nat → Prop where
  | none {text} (closed : ¬ Unfinished text) : Searching text 0
  | one {text} (unfinished : Unfinished (text ++ [0x53])) : Searching (text ++ [0x53]) 1
  | two {text} (unfinished : Unfinished (text ++ [0x53,0x54])) : Searching (text ++ [0x53,0x54]) 2

theorem unfinished_snoc (text : List UInt8) (b : UInt8) : Unfinished (text ++ [b]) ↔ starts (b :: text.reverse) % 2 = 1 := by
  rw [Unfinished,List.reverse_append]
  rfl

theorem unfinished_s (text : List UInt8) : Unfinished (text ++ [0x53]) ↔ ¬ Unfinished text := by
  rw [unfinished_snoc,starts_s,Unfinished]
  omega

theorem unfinished_st (text : List UInt8) : Unfinished (text ++ [0x53] ++ [0x54]) ↔ Unfinished (text ++ [0x53]) := by
  rw [unfinished_snoc,unfinished_snoc,List.reverse_append,starts_s]
  exact iff_of_eq (congrArg (· % 2 = 1) (starts_st _))

theorem unfinished_other (text : List UInt8) {b : UInt8} (s : b ≠ 0x53) (t : b ≠ 0x54) : ¬ Unfinished (text ++ [b]) := by
  rw [unfinished_snoc,starts_other _ s t]
  decide

theorem unfinished_t {text : List UInt8} (lone : text.getLast? ≠ some 0x53) : ¬ Unfinished (text ++ [0x54]) := by
  rw [unfinished_snoc,starts_t (by rwa [List.head?_reverse])]
  decide

-- A byte that is not the next one of the tag.
theorem searching_lost {matched : Nat} (searching : Searching g matched) {b : UInt8}
    (differs : IPC_CONN_PACKET_BEGIN_TAG[matched]? ≠ some b) : ¬ Unfinished (g ++ [b]) := by
  by_cases s : b = 0x53
  · subst s
    rw [unfinished_s,not_not]
    cases searching with
    | none => exact absurd rfl differs
    | one unfinished | two unfinished => exact unfinished
  · by_cases t : b = 0x54
    · subst t
      cases searching with
      | none closed =>
        rcases List.eq_nil_or_concat g with rfl | ⟨before,last,rfl⟩
        · exact unfinished_t nofun
        · by_cases same : last = 0x53
          · subst same
            rw [List.concat_eq_append] at closed ⊢
            rwa [unfinished_st]
          · apply unfinished_t
            simpa using same
      | one => exact absurd rfl differs
      | two =>
        apply unfinished_t
        simp
    · exact unfinished_other g s t

-- Up to the first begin tag the parser only searches.
theorem feed_searching (absent : ¬ beginTag <:+: g) : ∃ matched, Searching g matched ∧
    feedAll feed (.head 0) g = (.head matched,[]) := by
  induction g using List.reverseRecOn with
  | nil => exact ⟨0,.none (by decide),rfl⟩
  | append_singleton before b ih =>
    obtain ⟨matched,searching,fed⟩ := ih fun inside => absent (inside.trans (List.prefix_append _ _).isInfix)
    rw [feedAll_append,fed,feedAll_single]
    by_cases next : IPC_CONN_PACKET_BEGIN_TAG[matched]? = some b
    · cases searching with
      | none closed =>
        cases next
        exact ⟨1,.one ((unfinished_s before).mpr closed),by simp [feed,IPC_CONN_PACKET_BEGIN_TAG]⟩
      | @one text unfinished =>
        cases next
        have open_still := (unfinished_st text).mpr unfinished
        rw [List.append_assoc] at open_still ⊢
        exact ⟨2,.two open_still,by simp [feed,IPC_CONN_PACKET_BEGIN_TAG]⟩
      | @two text unfinished =>
        cases next
        exact absurd ⟨text,[],by simp [beginTag,IPC_CONN_PACKET_BEGIN_TAG,IPC_CONN_PACKET_TAG_SIZE]⟩ absent
    · exact ⟨0,.none (searching_lost searching next),by simp [feed,next]⟩

-- The bytes that the packet at hand has taken so far, at least.
def spent : Scan → Nat
  | .head matched => matched
  | .seqn => 3
  | .cmd _ => 4
  | .data_len _ _ _ read => 5 + read
  | .data _ _ _ payload => HEADER_SIZE + payload.length
  | .tail _ _ length _ matched => HEADER_SIZE + length + matched

-- What a packet takes besides its data.
def FRAME_SIZE : Nat := HEADER_SIZE + IPC_CONN_PACKET_TAG_SIZE

theorem encode_length (packet : WirePacket) : (encode packet).length = FRAME_SIZE + packet.data.length := by
  rw [encode_parts,List.length_append,List.length_append,header_length]
  simp only [trailer,FRAME_SIZE,IPC_CONN_PACKET_END_TAG,IPC_CONN_PACKET_TAG_SIZE,List.take_succ_cons,List.take_zero,
    List.length_cons,List.length_nil]
  omega

theorem begun_spent (seqn cmd : UInt8) (length : Nat) : spent (begun seqn cmd length) = HEADER_SIZE := by
  unfold begun
  split
  · rfl
  · simp only [spent]
    omega

theorem completes_nothing {signal : Option Signal} {P : Delivered → Prop} (nothing : signal.bind Signal.completed = none) :
    ∀ packet, signal = some (.packet packet) → P packet := by
  rintro packet rfl
  cases nothing

theorem feed_spent (state : Scan) (b : UInt8) : spent (feed state b).1 ≤ spent state + 1 ∧
    ∀ packet, (feed state b).2 = some (.packet packet) → FRAME_SIZE + packet.data_len ≤ spent state + 1 := by
  cases state with
  | head matched =>
    simp only [feed]
    split
    · split
      · exact ⟨Nat.le_refl _,completes_nothing rfl⟩
      · refine ⟨?_,completes_nothing rfl⟩
        simp only [spent]
        omega
    · exact ⟨Nat.zero_le _,completes_nothing rfl⟩
  | seqn | cmd => exact ⟨Nat.le_refl _,completes_nothing rfl⟩
  | data_len seqn cmd length read =>
    simp only [feed]
    split
    · exact ⟨Nat.le_refl _,completes_nothing rfl⟩
    · refine ⟨?_,completes_nothing rfl⟩
      rw [begun_spent]
      simp only [spent,HEADER_SIZE]
      omega
  | data seqn cmd length payload =>
    simp only [feed]
    split
    · refine ⟨?_,completes_nothing rfl⟩
      simp only [spent,List.length_append,List.length_singleton]
      omega
    · refine ⟨?_,completes_nothing rfl⟩
      simp only [spent]
      omega
  | tail seqn cmd length payload matched =>
    simp only [feed]
    split
    · split
      · exact ⟨Nat.le_refl _,completes_nothing rfl⟩
      · refine ⟨Nat.zero_le _,fun packet same => ?_⟩
        cases same
        simp only [spent,FRAME_SIZE,IPC_CONN_PACKET_TAG_SIZE]
        omega
    · exact ⟨Nat.zero_le _,completes_nothing rfl⟩

-- A packet is completed by no fewer bytes than its own.
theorem feedAll_spent (state : Scan) (bytes : List UInt8) {packet : Delivered}
    (member : Signal.packet packet ∈ (feedAll feed state bytes).2) :
    FRAME_SIZE + packet.data_len ≤ spent state + bytes.length := by
  induction bytes generalizing state with
  | nil => cases member
  | cons b rest ih =>
    obtain ⟨more,last⟩ := feed_spent state b
    rw [feedAll_cons] at member
    rw [List.length_cons]
    rcases List.mem_append.mp member with here | later
    · have := last packet (Option.mem_toList.mp here)
      omega
    · have := ih _ later
      omega

theorem mem_completed {signals : List Signal} {packet : Delivered} (member : packet ∈ signals.filterMap Signal.completed) :
    Signal.packet packet ∈ signals := by
  obtain ⟨signal,there,same⟩ := List.mem_filterMap.mp member
  cases signal with
  | header => cases same
  | packet => cases same; exact there

-- Bytes that one copy takes complete nothing.
theorem window_copied (safe : Safe c) (room : c.recv_bufs_offset < c.recv_bufs_size) (stage : c.recv_stage = .recv_data)
    {walker : Nat} (before : walker ≤ c.recv_bufs_offset + copied c) :
    (feedAll feed (scan c) (window c walker)).2 = [] := by
  have lacking := (safe.filling stage).1
  have within := (copied_bounds lacking room).2.1
  have start : scan c = .data c.packet.seqn c.packet.cmd c.packet.data_len (payload c) := by
    simp only [scan,stage]
  have length := payload_length safe stage
  have bytes : (window c walker).length ≤ copied c := by
    rw [window,List.length_take]
    omega
  rw [start,feed_payload _ _ _ _ _ (by omega) (by omega)]

-- A chunk that is not whole may be read past its end, but nothing is completed there.
theorem loop_events (succeed : ∀ k, outcome k ≠ none) (walker fuel : Nat) (c last : Conn) (events : List Delivered)
    (safe : Safe c) (within : walker ≤ c.recv_bufs_size) (plain : Plain c)
    (result : analyze_loop outcome walker fuel c = some (last,events)) :
    events = (feedAll feed (scan c) (window c walker)).2.filterMap Signal.completed := by
  induction fuel generalizing c events with
  | zero =>
    simp only [analyze_loop] at result
    split at result
    · cases result
    · cases result
      rw [window,Nat.sub_eq_zero_of_le (by omega),List.take_zero]
      rfl
  | succ fuel ih =>
    by_cases running : c.recv_bufs_offset < walker
    · have room := Nat.lt_of_lt_of_le running within
      obtain ⟨next,event,taken,pass⟩ := iterate_pass outcome safe room
      obtain ⟨same,size,_⟩ := pass_progress safe room pass
      obtain ⟨signals,fed⟩ := pass_feeds safe room succeed plain pass
      simp only [analyze_loop,if_pos running,taken,Option.bind_some,Option.map_eq_some_iff,Prod.mk.injEq] at result
      obtain ⟨⟨final,more⟩,later,rfl,rfl⟩ := result
      have rest := ih next more (pass_safe safe room pass) (by rw [size]; exact within)
        (plain_of_outer (pass_outer pass) plain) later
      by_cases before : next.recv_bufs_offset ≤ walker
      · have after := pass_grows safe room pass
        rw [window_append same after before,feedAll_append,fed.scan,List.filterMap_append,← fed.events,← rest]
      · -- only a copy of packet data goes past the walker
        obtain ⟨stage,copies⟩ : c.recv_stage = .recv_data ∧ next.recv_bufs_offset = c.recv_bufs_offset + copied c := by
          rcases pass_offset safe room pass with still | byte | copies
          · omega
          · omega
          · exact copies
        have quiet := window_copied safe room stage (Nat.le_of_eq copies)
        rw [fed.scan] at quiet
        have short : (feedAll feed (scan c) (window c walker)).2 = [] := window_copied safe room stage (by omega)
        rw [short,fed.events,rest,show signals = [] from quiet,
          window,Nat.sub_eq_zero_of_le (by omega),List.take_zero]
        rfl
    · simp only [analyze_loop,if_neg running] at result
      cases result
      rw [window,Nat.sub_eq_zero_of_le (by omega),List.take_zero]
      rfl

theorem absent_of_first {packet : WirePacket} (first : FirstAt beginTag (g ++ encode packet) g.length) :
    ¬ beginTag <:+: g := by
  rintro ⟨front,back,same⟩
  have length := congrArg List.length same
  simp only [List.length_append,beginTag,IPC_CONN_PACKET_BEGIN_TAG,IPC_CONN_PACKET_TAG_SIZE,List.take_succ_cons,
    List.take_zero,List.length_cons,List.length_nil] at length
  refine first.2 front.length (by omega) ⟨back ++ encode packet,?_⟩
  rw [← same,List.append_assoc,List.append_assoc,List.drop_left]

-- A packet behind bytes without a begin tag.
theorem feed_behind (absent : ¬ beginTag <:+: g) (packet : WirePacket) :
    (feedAll feed (.head 0) (g ++ encode packet)).2.filterMap Signal.completed = [packet.delivered] ↔ ¬ Unfinished g := by
  obtain ⟨matched,searching,fed⟩ := feed_searching absent
  rw [feedAll_append,fed,List.nil_append]
  have lost : ∀ matched, IPC_CONN_PACKET_BEGIN_TAG[matched]? ≠ some 0x53 →
      (feedAll feed (.head matched) (encode packet)).2.filterMap Signal.completed ≠ [packet.delivered] := by
    intro matched differs same
    obtain ⟨rest,bytes⟩ : ∃ rest, encode packet = 0x53 :: rest := ⟨_,rfl⟩
    have length := encode_length packet
    have member : packet.delivered ∈ (feedAll feed (.head matched) (encode packet)).2.filterMap Signal.completed := by
      rw [same]
      exact List.mem_singleton_self _
    rw [bytes,feedAll_cons] at member
    simp only [feed,if_neg differs,Option.toList_none,List.nil_append] at member
    have enough := feedAll_spent _ _ (mem_completed member)
    rw [bytes,List.length_cons] at length
    simp only [spent,WirePacket.delivered] at enough
    omega
  cases searching with
  | none closed =>
    rw [feed_encode]
    exact iff_of_true rfl closed
  | one unfinished => exact iff_of_false (lost 1 (by decide)) (not_not.mpr unfinished)
  | two unfinished => exact iff_of_false (lost 2 (by decide)) (not_not.mpr unfinished)

theorem recv_plain {received : Received} (plain : Plain c) (stored : ipc_conn_recv c received = some next) : Plain next := by
  have kept := recv_untouched stored
  unfold Plain
  rw [kept.is_async,kept.event]
  exact plain

theorem run_plain {is_async : Bool} {moves : List (Move Session Action)} {s : Session}
    (run : Run (Session.Step outcome) (Session.start is_async) moves s) : s.Bounded ∧ Plain s.conn := by
  refine (run.invariant (J := fun s => s.Bounded ∧ Plain s.conn) ⟨start_bounded is_async,create_plain is_async⟩
    fun {s a t} held taken => ⟨step_bounded held.1 taken,?_⟩).1
  cases a with
  | recv received =>
    obtain ⟨_,_,_,stored,rfl⟩ := recv_parts taken
    exact recv_plain held.2 stored
  | pass =>
    obtain ⟨_,_,_,_,_,pass⟩ := pass_parts held.1 taken
    exact plain_of_outer (pass_outer pass) held.2

-- An asynchronous connection that waits for a begin tag, with nothing of it matched.
theorem resync_exact {before outcome : Nat → Outcome} {moves : List (Move Session Action)} {s t : Session}
    (run : Run (Session.Step before) (Session.start true) moves s) (stage : s.conn.recv_stage = .recv_head)
    (fresh : s.conn.sub_offset = 0) (succeed : ∀ k, outcome k ≠ none) (g : List UInt8) (packet : WirePacket)
    (first : FirstAt beginTag (g ++ encode packet) g.length)
    (arrives : Session.Step outcome s (.recv (.data (g ++ encode packet))) t) :
    ∃ last events, ipc_packet_analyze outcome t.conn = some (last,events) ∧
      (events = [packet.delivered] ↔ ¬ Unfinished g) := by
  obtain ⟨bounded,plain⟩ := run_plain run
  obtain ⟨_,admissible,stored,store,rfl⟩ := recv_parts arrives
  obtain ⟨next,same,safe,walker⟩ := recv_safe bounded.safe admissible
  rw [store] at same
  cases same
  have chunk := recv_chunk store
  have start : scan s.conn = .head 0 := by simp only [scan,stage,fresh]
  obtain ⟨last,events,_,result,_⟩ := analyze_runs outcome [] safe walker
  refine ⟨last,events,result,?_⟩
  rw [loop_events succeed _ _ _ _ _ safe walker (recv_plain plain store) result,chunk.window,chunk.scan,start]
  exact feed_behind (absent_of_first first) packet

-- The first "S" begins a match, the second ends it and is lost with it.
theorem double_s_resynced : ∃ t last,
    Session.Step zeroed (Session.start true) (.recv (.data ([0x53,0x53] ++ encode twoBytes))) t ∧
      ipc_packet_analyze zeroed t.conn = some (last,[twoBytes.delivered]) := by
  obtain ⟨t,arrives⟩ : ∃ t, Session.Step zeroed (Session.start true) (.recv (.data ([0x53,0x53] ++ encode twoBytes))) t :=
    Option.isSome_iff_exists.mp (by decide +kernel)
  have begins : Run (Session.Step zeroed) (Session.start true) [] (Session.start true) := .nil
  obtain ⟨last,events,result,delivers⟩ := resync_exact begins rfl rfl
    (fun _ => by simp [zeroed]) [0x53,0x53] twoBytes (by decide) arrives
  rw [delivers.mpr (by decide)] at result
  exact ⟨t,last,arrives,result⟩

-- The "S" of the begin tag is lost with the match that it ends.
theorem single_s_swallows : ¬ ∀ (before outcome : Nat → Outcome) (moves : List (Move Session Action)) (s t : Session)
    (g : List UInt8) (packet : WirePacket), Run (Session.Step before) (Session.start true) moves s →
    s.conn.recv_stage = .recv_head → s.conn.sub_offset = 0 → (∀ k, outcome k ≠ none) →
    FirstAt beginTag (g ++ encode packet) g.length →
    Session.Step outcome s (.recv (.data (g ++ encode packet))) t →
    ∃ last, ipc_packet_analyze outcome t.conn = some (last,[packet.delivered]) := by
  intro claim
  obtain ⟨t,arrives,lost⟩ : ∃ t, Session.Step zeroed (Session.start true) (.recv (.data ([0x53] ++ encode twoBytes))) t ∧
      (ipc_packet_analyze zeroed t.conn).map Prod.snd = some [] := by
    have found : ((Session.start true).advance zeroed (.recv (.data ([0x53] ++ encode twoBytes)))).any
        (fun t => decide ((ipc_packet_analyze zeroed t.conn).map Prod.snd = some [])) = true := by decide +kernel
    obtain ⟨t,taken,check⟩ := (Option.any_eq_true _ _).mp found
    exact ⟨t,taken,of_decide_eq_true check⟩
  obtain ⟨last,result⟩ := claim zeroed zeroed [] (Session.start true) t [0x53] twoBytes .nil rfl rfl
    (fun _ => by simp [zeroed]) (by decide) arrives
  rw [result] at lost
  cases lost

end Libcplus.Ipc
