import Libcplus.Systime
import Libcplus.Typedef
import Libcplus.Ipc.Blocking

-- The timeouts that ipc_recv_packet passes to its recvs, each what the ones before it left.
namespace Libcplus.Ipc.Deadline
open Bytes Memory Program Typedef
open Blocking (Receipt Receiving Gives Opens Skipped Room waiting opened)

-- What the call works on, its own timeout, how often it read the clock, and the
-- timeouts that it passed on.
structure Timed where
  receipt : Receipt
  timeout : UInt32
  reads : Nat
  passed : List UInt32
  deriving DecidableEq

abbrev Timing (α : Type) := Prog Timed (Option Timed) α

def leave {α : Type} : Timing α := fun s => .error (some s)

def untimed {α : Type} (part : Receiving α) : Timing α := fun s =>
  match part s.receipt with
  | .ok (a,r) => .ok (a,{s with receipt := r})
  | .error (some r) => .error (some {s with receipt := r})
  | .error none => .error none

def cplus_systime_get_tick (clock : Nat → UInt32) : Timing UInt32 := fun s =>
  .ok (clock s.reads,{s with reads := s.reads + 1})

-- A part with one recv, which is given the timeout. What it took since curr_tick
-- is subtracted when all that was asked for came.
def timed {α : Type} (clock : Nat → UInt32) (curr_tick : UInt32) (part : Receiving α) : Timing α := do
  modify fun s => {s with passed := s.passed ++ [s.timeout]}
  let a ← untimed part
  let now ← cplus_systime_get_tick clock
  modify fun s => {s with timeout := s.timeout - Systime.cplus_systime_elapsed_tick curr_tick now}
  return a

def recv_whole (size : Nat) : Receiving (List UInt8) := do
  let answer ← Blocking.cplus_socket_recv size
  if answer.1 = size then return answer.2 else Blocking.leave

-- The tag is looked at after the subtraction.
def recv_tag (clock : Nat → UInt32) (tag : List UInt8) : Timing Unit := do
  let curr_tick ← cplus_systime_get_tick clock
  let bytes ← timed clock curr_tick (recv_whole IPC_CONN_PACKET_TAG_SIZE)
  if tag.take IPC_CONN_PACKET_TAG_SIZE = bytes then return () else leave

def store_packet (clock : Nat → UInt32) (change : Packet Unit → List UInt8 → Packet Unit) (size : Nat) : Timing Unit := do
  let curr_tick ← cplus_systime_get_tick clock
  timed clock curr_tick (Blocking.store_packet change size)

def ask_payload (clock : Nat → UInt32) (curr_tick : UInt32) (outcome : Outcome) (output_bufs_len : Nat) (r : Receipt) : Timing Int :=
  if 0 < r.packet.data_len ∧ r.output_bufs ≠ none ∧ 0 < output_bufs_len then
    match cplus_malloc outcome r.packet.data_len with
    | none => return 0
    | some block => timed clock curr_tick (Blocking.copy_payload output_bufs_len block)
  else return 0

def recv_payload (clock : Nat → UInt32) (outcome : Outcome) (output_bufs_len : Nat) : Timing Int := do
  let curr_tick ← cplus_systime_get_tick clock
  let s ← get
  ask_payload clock curr_tick outcome output_bufs_len s.receipt

def turn_length : Receiving Unit :=
  modify fun r => {r with packet := {r.packet with data_len := Blocking.ntohl r.packet.data_len}}

def recv_frame (clock : Nat → UInt32) (outcome : Outcome) (output_bufs_len : Nat) : Timing Int := do
  recv_tag clock IPC_CONN_PACKET_BEGIN_TAG
  store_packet clock Blocking.store_seqn 1
  store_packet clock Blocking.store_cmd 1
  store_packet clock Blocking.store_data_len 4
  untimed turn_length
  let recv_count ← recv_payload clock outcome output_bufs_len
  recv_tag clock IPC_CONN_PACKET_END_TAG
  return recv_count

def free_recv_data (s : Timed) : Timed := {s with receipt := Blocking.free_recv_data s.receipt}

def ipc_recv_packet (clock : Nat → UInt32) (outcome : Outcome) (output_bufs_len : Nat) (s : Timed) : Option (Int × Timed) :=
  match recv_frame clock outcome output_bufs_len s with
  | .ok (res,s) => some (res,free_recv_data s)
  | .error (some s) => some (CPLUS_FAIL,free_recv_data s)
  | .error none => none

def called (r : Receipt) (t : UInt32) : Timed := ⟨r,t,0,[]⟩

variable {clock : Nat → UInt32} {t : UInt32} {s u : Timed} {k n : Nat} {α β : Type}

-- Without its clock the call is the one whose timeouts only decide what comes.
section Erasure

def erased (result : Except (Option Timed) (α × Timed)) : Except (Option Receipt) (α × Receipt) :=
  match result with
  | .ok (a,s) => .ok (a,s.receipt)
  | .error reason => .error (reason.map Timed.receipt)

def Erases (prog : Timing α) (part : Receiving α) : Prop := ∀ s, erased (prog s) = part s.receipt

variable {prog : Timing α} {part : Receiving α} {rest : α → Timing β} {later : α → Receiving β}

theorem Erases.bind (first : Erases prog part) (next : ∀ a, Erases (rest a) (later a)) :
    Erases (prog >>= rest) (part >>= later) := by
  intro s
  have erases := first s
  rw [run_bind,run_bind,← erases]
  cases prog s with
  | ok answer => exact next answer.1 answer.2
  | error reason => rfl

-- What only reads the clock or counts leaves no trace.
theorem Erases.after {γ : Type} {quiet : Timing γ} {rest : γ → Timing α}
    (answers : ∀ s, ∃ a u, quiet s = .ok (a,u) ∧ u.receipt = s.receipt)
    (next : ∀ a, Erases (rest a) part) : Erases (quiet >>= rest) part := by
  intro s
  obtain ⟨a,u,ran,same⟩ := answers s
  rw [bind_ok ran,next a u,same]

theorem Erases.before {quiet : α → Timing α} (first : Erases prog part)
    (answers : ∀ a s, ∃ u, quiet a s = .ok (a,u) ∧ u.receipt = s.receipt) : Erases (prog >>= quiet) part := by
  intro s
  have erases := first s
  rw [run_bind,← erases]
  cases prog s with
  | ok answer =>
    obtain ⟨u,ran,same⟩ := answers answer.1 answer.2
    rw [ok_bind,ran]
    simp only [erased,same]
  | error reason => rfl

theorem Erases.pure (a : α) : Erases (pure a) (pure a) := fun _ => rfl

theorem Erases.ite {c : Prop} [Decidable c] {other : Timing α} {another : Receiving α} (yes : c → Erases prog part)
    (no : ¬ c → Erases other another) : Erases (if c then prog else other) (if c then part else another) := by
  split
  · exact yes ‹c›
  · exact no ‹¬ c›

theorem leave_erases : Erases (leave : Timing α) Blocking.leave := fun _ => rfl

theorem untimed_erases (part : Receiving α) : Erases (untimed part) part := by
  intro s
  unfold untimed
  cases part s.receipt with
  | ok answer => rfl
  | error reason => cases reason <;> rfl

theorem get_tick_answers (clock : Nat → UInt32) (s : Timed) :
    ∃ tick u, cplus_systime_get_tick clock s = .ok (tick,u) ∧ u.receipt = s.receipt := ⟨_,_,rfl,rfl⟩

theorem timed_erases (clock : Nat → UInt32) (curr_tick : UInt32) (part : Receiving α) : Erases (timed clock curr_tick part) part := by
  apply Erases.after
  · intro s
    exact ⟨⟨⟩,_,rfl,rfl⟩
  · intro _
    apply (untimed_erases part).before
    intro a s
    exact ⟨_,rfl,rfl⟩

theorem tag_parts (tag : List UInt8) : Blocking.recv_tag tag = (do
    let bytes ← recv_whole IPC_CONN_PACKET_TAG_SIZE
    if tag.take IPC_CONN_PACKET_TAG_SIZE = bytes then return () else Blocking.leave) := by
  funext r
  obtain ⟨answer,_,_,ran⟩ := Blocking.socket_answers IPC_CONN_PACKET_TAG_SIZE r
  rw [Blocking.recv_tag,recv_whole,bind_assoc,bind_ok ran,bind_ok ran]
  by_cases whole : answer.1 = IPC_CONN_PACKET_TAG_SIZE
  · simp only [whole,true_and,if_true,pure_bind]
  · simp only [whole,false_and,if_false]
    rfl

theorem tag_erases (tag : List UInt8) : Erases (recv_tag clock tag) (Blocking.recv_tag tag) := by
  rw [tag_parts]
  apply Erases.after (get_tick_answers clock)
  intro curr_tick
  apply (timed_erases clock curr_tick _).bind
  intro bytes
  exact .ite (fun _ => .pure ()) fun _ => leave_erases

theorem store_erases (change : Packet Unit → List UInt8 → Packet Unit) (size : Nat) :
    Erases (store_packet clock change size) (Blocking.store_packet change size) := by
  apply Erases.after (get_tick_answers clock)
  intro curr_tick
  exact timed_erases clock curr_tick _

theorem payload_erases (outcome : Outcome) (output_bufs_len : Nat) :
    Erases (recv_payload clock outcome output_bufs_len) (Blocking.recv_payload outcome output_bufs_len) := by
  apply Erases.after (get_tick_answers clock)
  intro curr_tick s
  rw [Blocking.recv_payload,run_bind,run_bind,run_get,run_get,ok_bind,ok_bind]
  unfold ask_payload
  apply Erases.ite
  · intro _
    cases cplus_malloc outcome s.receipt.packet.data_len with
    | none => exact .pure 0
    | some block => exact timed_erases clock curr_tick _
  · intro _
    exact .pure 0

theorem frame_erases (outcome : Outcome) (output_bufs_len : Nat) :
    Erases (recv_frame clock outcome output_bufs_len) (Blocking.recv_frame outcome output_bufs_len) :=
  (tag_erases _).bind fun _ => (store_erases _ _).bind fun _ => (store_erases _ _).bind fun _ => (store_erases _ _).bind fun _ =>
    (untimed_erases turn_length).bind fun _ => (payload_erases outcome output_bufs_len).bind fun recv_count =>
      (tag_erases _).bind fun _ => .pure recv_count

theorem packet_erases (outcome : Outcome) (output_bufs_len : Nat) (s : Timed) :
    (ipc_recv_packet clock outcome output_bufs_len s).map (fun answer => (answer.1,answer.2.receipt)) =
      Blocking.ipc_recv_packet outcome output_bufs_len s.receipt := by
  have erases : Erases (recv_frame clock outcome output_bufs_len) (Blocking.recv_frame outcome output_bufs_len) :=
    frame_erases outcome output_bufs_len
  unfold ipc_recv_packet Blocking.ipc_recv_packet
  rw [← erases s]
  cases recv_frame clock outcome output_bufs_len s with
  | ok answer => rfl
  | error reason => cases reason <;> rfl

end Erasure

-- What the recv at a place took, as the calls of the clock around it say: two for
-- each recv that another one follows.
def elapsed (clock : Nat → UInt32) (k : Nat) : UInt32 := Systime.cplus_systime_elapsed_tick (clock (2*k)) (clock (2*k + 1))

def remaining (clock : Nat → UInt32) (t : UInt32) : Nat → UInt32
  | 0 => t
  | k + 1 => remaining clock t k - elapsed clock k

def spent (clock : Nat → UInt32) : Nat → Nat
  | 0 => 0
  | k + 1 => spent clock k + (elapsed clock k).toNat

def logged (clock : Nat → UInt32) (t : UInt32) (n : Nat) : List UInt32 := (List.range n).map (remaining clock t)

-- A timeout that wrapped would be above the one before it.
structure Kept (clock : Nat → UInt32) (t : UInt32) (passed : List UInt32) : Prop where
  falling : passed.Pairwise fun earlier later => later ≤ earlier
  within : ∀ timeout ∈ passed, timeout ≤ t
  unwrapped : t.toNat ≠ CPLUS_INFINITE_TIMEOUT → ∀ k timeout, passed[k]? = some timeout →
    timeout.toNat + spent clock k = t.toNat
  infinite : t.toNat = CPLUS_INFINITE_TIMEOUT → ∀ timeout ∈ passed, timeout.toNat = CPLUS_INFINITE_TIMEOUT

-- The first recvs took no longer than the caller allows, and no time at all when
-- the caller sets no limit.
def InTime (clock : Nat → UInt32) (t : UInt32) (k : Nat) : Prop :=
  spent clock k ≤ t.toNat ∧ (t.toNat = CPLUS_INFINITE_TIMEOUT → spent clock k = 0)

theorem spent_mono {j : Nat} (before : j ≤ k) : spent clock j ≤ spent clock k := by
  induction before with
  | refl => exact Nat.le_refl _
  | step _ ih => exact Nat.le_trans ih (Nat.le_add_right _ _)

theorem remaining_exact (enough : spent clock k ≤ t.toNat) : (remaining clock t k).toNat + spent clock k = t.toNat := by
  induction k with
  | zero => rfl
  | succ k ih =>
    have before := ih (Nat.le_trans (spent_mono (Nat.le_succ k)) enough)
    simp only [spent] at enough ⊢
    have fits : elapsed clock k ≤ remaining clock t k := by
      rw [UInt32.le_iff_toNat_le]
      omega
    rw [remaining,UInt32.toNat_sub_of_le _ _ fits]
    rw [UInt32.le_iff_toNat_le] at fits
    omega

-- A difference that wraps is above what it was taken from.
theorem sub_le_iff (timeout took : UInt32) : timeout - took ≤ timeout ↔ took ≤ timeout := by
  have large := timeout.toNat_lt
  have small := took.toNat_lt
  rw [UInt32.le_iff_toNat_le,UInt32.le_iff_toNat_le,UInt32.toNat_sub]
  omega

theorem logged_getElem {j : Nat} : (logged clock t n)[j]? = if j < n then some (remaining clock t j) else none := by
  unfold logged
  split
  · simp [*]
  · simp [*]

theorem falling_spent (falls : ∀ j < n, remaining clock t (j + 1) ≤ remaining clock t j) : spent clock n ≤ t.toNat := by
  induction n with
  | zero => exact Nat.zero_le _
  | succ n ih =>
    have enough := ih fun j before => falls j (Nat.lt_succ_of_lt before)
    have fits := (sub_le_iff _ _).mp (falls n (Nat.lt_succ_self n))
    have left := remaining_exact enough
    rw [UInt32.le_iff_toNat_le] at fits
    simp only [spent]
    omega

theorem kept_iff : Kept clock t (logged clock t (n + 1)) ↔ InTime clock t n := by
  constructor
  · intro kept
    have falls : ∀ j < n, remaining clock t (j + 1) ≤ remaining clock t j := by
      intro j before
      have pairs := List.pairwise_map.mp kept.falling
      rw [List.pairwise_iff_getElem] at pairs
      have lower := pairs j (j + 1) (by simp; omega) (by simp; omega) (Nat.lt_succ_self j)
      simpa using lower
    have enough := falling_spent falls
    refine ⟨enough,fun forever => ?_⟩
    have last := kept.infinite forever (remaining clock t n) (List.mem_map.mpr ⟨n,by simp,rfl⟩)
    have left := remaining_exact enough
    omega
  · intro ⟨enough,forever⟩
    have left : ∀ j ≤ n, (remaining clock t j).toNat + spent clock j = t.toNat := fun j before =>
      remaining_exact (Nat.le_trans (spent_mono before) enough)
    refine ⟨?_,?_,?_,?_⟩
    · rw [logged,List.pairwise_map,List.pairwise_iff_getElem]
      intro i j first second before
      simp only [List.length_range,List.getElem_range] at first second ⊢
      have earlier := left i (by omega)
      have later := left j (by omega)
      have more : spent clock i ≤ spent clock j := spent_mono (Nat.le_of_lt before)
      rw [UInt32.le_iff_toNat_le]
      omega
    · intro timeout there
      obtain ⟨j,before,rfl⟩ := List.mem_map.mp there
      have here := left j (by simp at before; omega)
      rw [UInt32.le_iff_toNat_le]
      omega
    · intro _ j timeout there
      rw [logged_getElem] at there
      split at there
      · cases there
        exact left j (by omega)
      · cases there
    · intro limitless timeout there
      obtain ⟨j,before,rfl⟩ := List.mem_map.mp there
      have smaller : j ≤ n := by
        simp at before
        omega
      have here := left j smaller
      have none_spent := forever limitless
      have less : spent clock j ≤ spent clock n := spent_mono smaller
      omega

-- The recv at this place brings all that it is asked for and another one follows:
-- the begin tag, the three fields, and the data when it is read.
inductive Followed (received : List Received) (output_bufs : Option (List UInt8)) (output_bufs_len : Nat) (outcome : Outcome) :
    Nat → Prop where
  | tag {one} (begins : Gives received (IPC_CONN_PACKET_BEGIN_TAG.take IPC_CONN_PACKET_TAG_SIZE) one) :
      Followed received output_bufs output_bufs_len outcome 0
  | seqn {one seqn two} (begins : Gives received (IPC_CONN_PACKET_BEGIN_TAG.take IPC_CONN_PACKET_TAG_SIZE) one)
      (first : Gives one [seqn] two) : Followed received output_bufs output_bufs_len outcome 1
  | cmd {one seqn two cmd three} (begins : Gives received (IPC_CONN_PACKET_BEGIN_TAG.take IPC_CONN_PACKET_TAG_SIZE) one)
      (first : Gives one [seqn] two) (second : Gives two [cmd] three) : Followed received output_bufs output_bufs_len outcome 2
  | data_len {seqn cmd length later} (opens : Opens received seqn cmd length later) :
      Followed received output_bufs output_bufs_len outcome 3
  | data {seqn cmd length later data more} (opens : Opens received seqn cmd length later)
      (asked : ¬ Skipped output_bufs output_bufs_len outcome) (positive : 0 < length) (small : length < 2^31)
      (whole : data.length = length) (given : Gives later data more) : Followed received output_bufs output_bufs_len outcome 4

structure Ready (clock : Nat → UInt32) (t : UInt32) (k : Nat) (s : Timed) : Prop where
  timeout : s.timeout = remaining clock t k
  passed : s.passed = logged clock t k

def log (result : Except (Option Timed) (α × Timed)) : Option (List UInt32) :=
  match result with
  | .ok (_,s) => some s.passed
  | .error (some s) => some s.passed
  | .error none => none

theorem logged_succ : logged clock t (k + 1) = logged clock t k ++ [remaining clock t k] := by
  simp [logged,List.range_succ]

-- After a look at the clock.
def Timed.read (s : Timed) : Timed := {s with reads := s.reads + 1}

-- After a recv that brought what it was asked for.
def Timed.past (s : Timed) (clock : Nat → UInt32) (curr_tick : UInt32) (r : Receipt) : Timed where
  receipt := r
  timeout := s.timeout - Systime.cplus_systime_elapsed_tick curr_tick (clock s.reads)
  reads := s.reads + 1
  passed := s.passed ++ [s.timeout]

section Calls
variable {curr_tick : UInt32} {part : Receiving α} {prog : Timing α} {rest : α → Timing β} {a : α} {r : Receipt}

theorem Ready.logs (ready : Ready clock t k s) : s.passed ++ [s.timeout] = logged clock t (k + 1) := by
  rw [logged_succ,ready.passed,ready.timeout]

theorem Ready.past (ready : Ready clock t k s) (stop : s.reads = 2*k + 1) :
    Ready clock t (k + 1) (s.past clock (clock (2*k)) r) := by
  refine ⟨?_,ready.logs⟩
  simp only [Timed.past,ready.timeout,stop]
  rfl

theorem timed_goes (ran : part s.receipt = .ok (a,r)) :
    timed clock curr_tick part s = .ok (a,s.past clock curr_tick r) := by
  simp only [timed,run_bind,run_modify,ok_bind,untimed,ran,cplus_systime_get_tick,run_pure]
  rfl

theorem timed_ends (ready : Ready clock t k s) (ran : part s.receipt = .error (some r)) :
    log (timed clock curr_tick part s) = some (logged clock t (k + 1)) := by
  simp only [timed,run_bind,run_modify,ok_bind,untimed,ran]
  exact congrArg some ready.logs

theorem timed_not {reason : Option Receipt} (ran : part s.receipt = .error reason) (b : α) (u : Timed) :
    timed clock curr_tick part s ≠ .ok (b,u) := by
  intro goes
  have erases := timed_erases clock curr_tick part s
  rw [goes] at erases
  cases erases.trans ran

theorem log_bind (ran : prog s = .ok (a,u)) : log ((prog >>= rest) s) = log (rest a u) := by
  rw [bind_ok ran]

theorem log_ends {passed : List UInt32} (logs : log (prog s) = some passed) (ends : ∀ a u, prog s ≠ .ok (a,u)) :
    log ((prog >>= rest) s) = some passed := by
  rw [run_bind]
  cases ran : prog s with
  | ok answer => exact absurd ran (ends answer.1 answer.2)
  | error reason =>
    rw [ran] at logs
    cases reason <;> exact logs

theorem tick_bind {rest : UInt32 → Timing β} : (cplus_systime_get_tick clock >>= rest) s =
    rest (clock s.reads) s.read := rfl

end Calls

-- One recv, before which the clock was read.
structure Stage (clock : Nat → UInt32) (t : UInt32) (prog : Timing Unit) (part : Receiving Unit) : Prop where
  erases : Erases prog part
  goes : ∀ k s r, Ready clock t k s → part s.receipt = .ok (⟨⟩,r) → ∃ u, prog s = .ok (⟨⟩,u) ∧ u.receipt = r ∧
    u.passed = logged clock t (k + 1) ∧ (s.reads = 2*k → u.reads = 2*(k + 1) ∧ Ready clock t (k + 1) u)
  ends : ∀ k s, Ready clock t k s → (∀ r, part s.receipt ≠ .ok (⟨⟩,r)) → log (prog s) = some (logged clock t (k + 1))

-- What returns for a buffer of any length stops with what it worked on.
theorem part_ends {part : Receiving α} {r : Receipt} {reason : Option Receipt} (returns : ∀ {len}, Blocking.Returns len part)
    (ran : part r = .error reason) : ∃ v, reason = some v := by
  have room : Room (r.output_bufs.getD []).length r := by
    intro block there
    rw [there]
    rfl
  exact Option.ne_none_iff_exists'.mp (returns.ends room ran)

theorem whole_returns {size len : Nat} : Blocking.Returns len (recv_whole size) :=
  Blocking.socket_returns.bind fun _ => .ite (fun _ => .pure _) fun _ => Blocking.leave_returns

theorem Ready.read (ready : Ready clock t k s) : Ready clock t k s.read := ⟨ready.timeout,ready.passed⟩

-- The clock was read before the recv and is read once after it.
theorem Ready.next {r : Receipt} (ready : Ready clock t k s) (even : s.reads = 2*k) :
    (s.read.past clock (clock s.reads) r).reads = 2*(k + 1) ∧ Ready clock t (k + 1) (s.read.past clock (clock s.reads) r) := by
  refine ⟨?_,?_⟩
  · simp only [Timed.past,Timed.read,even]
    rfl
  · have start : clock s.reads = clock (2*k) := congrArg clock even
    rw [start]
    exact ready.read.past (congrArg (· + 1) even)

theorem tag_stage (tag : List UInt8) : Stage clock t (recv_tag clock tag) (Blocking.recv_tag tag) := by
  refine ⟨tag_erases tag,?_,?_⟩
  · intro k s r ready ran
    rw [tag_parts] at ran
    obtain ⟨bytes,v,whole,checked⟩ := bind_parts ran
    obtain ⟨same,rfl⟩ := Blocking.check_iff.mp checked
    refine ⟨s.read.past clock (clock s.reads) r,?_,rfl,ready.read.logs,ready.next⟩
    rw [recv_tag,tick_bind,bind_ok (timed_goes (s := s.read) whole),if_pos same]
    rfl
  · intro k s ready refused
    rw [recv_tag,tick_bind]
    cases whole : recv_whole IPC_CONN_PACKET_TAG_SIZE s.receipt with
    | ok answer =>
      rw [log_bind (timed_goes (s := s.read) whole)]
      split
      · exact congrArg some ready.read.logs
      · exact congrArg some ready.read.logs
    | error reason =>
      obtain ⟨v,rfl⟩ := part_ends whole_returns whole
      exact log_ends (timed_ends ready.read whole) (timed_not whole)

theorem store_stage (change : Packet Unit → List UInt8 → Packet Unit) (size : Nat) :
    Stage clock t (store_packet clock change size) (Blocking.store_packet change size) := by
  refine ⟨store_erases change size,?_,?_⟩
  · intro k s r ready ran
    refine ⟨s.read.past clock (clock s.reads) r,?_,rfl,ready.read.logs,ready.next⟩
    rw [store_packet,tick_bind,timed_goes (s := s.read) ran]
  · intro k s ready refused
    rw [store_packet,tick_bind]
    cases stored : Blocking.store_packet change size s.receipt with
    | ok answer => exact absurd stored (refused answer.2)
    | error reason =>
      obtain ⟨v,rfl⟩ := part_ends (Blocking.store_returns change) stored
      exact timed_ends ready.read stored

section Count
variable {received later after : List Received} {output_bufs : Option (List UInt8)} {output_bufs_len : Nat} {outcome : Outcome}
  {bytes others : List UInt8}

theorem Gives.unique (first : Gives received bytes later) (second : Gives received others after)
    (same : bytes.length = others.length) : bytes = others ∧ later = after := by
  obtain ⟨more,rfl,taken⟩ := first
  obtain ⟨_,next,given⟩ := second
  cases next
  exact ⟨by rw [← taken,same,given],rfl⟩

theorem Opens.unique {seqn cmd seqn' cmd' : UInt8} {length length' : Nat} (first : Opens received seqn cmd length later)
    (second : Opens received seqn' cmd' length' after) : length = length' ∧ later = after := by
  obtain ⟨_,_,_,begins,at_seqn,at_cmd,at_len,small⟩ := first
  obtain ⟨_,_,_,begins',at_seqn',at_cmd',at_len',small'⟩ := second
  obtain ⟨_,rfl⟩ := Gives.unique begins begins' rfl
  obtain ⟨_,rfl⟩ := Gives.unique at_seqn at_seqn' rfl
  obtain ⟨_,rfl⟩ := Gives.unique at_cmd at_cmd' rfl
  obtain ⟨same,rfl⟩ := Gives.unique at_len at_len' (by rw [bigEndian32_length,bigEndian32_length])
  rw [← bigEndian32_read small,← bigEndian32_read small',same]
  exact ⟨rfl,rfl⟩

theorem Followed.before (followed : Followed received output_bufs output_bufs_len outcome (k + 1)) :
    Followed received output_bufs output_bufs_len outcome k := by
  cases followed with
  | seqn begins => exact .tag begins
  | cmd begins first => exact .seqn begins first
  | data_len opens =>
    obtain ⟨_,_,_,begins,first,second,_⟩ := opens
    exact .cmd begins first second
  | data opens => exact .data_len opens

theorem Followed.earlier {j : Nat} (followed : Followed received output_bufs output_bufs_len outcome k) (before : j ≤ k) :
    Followed received output_bufs output_bufs_len outcome j := by
  induction before with
  | refl => exact followed
  | step _ ih => exact ih followed.before

theorem followed_iff (last : 0 < n → Followed received output_bufs output_bufs_len outcome (n - 1))
    (none_more : ¬ Followed received output_bufs output_bufs_len outcome n) (j : Nat) :
    Followed received output_bufs output_bufs_len outcome j ↔ j < n := by
  constructor
  · intro followed
    by_contra beyond
    exact none_more (followed.earlier (Nat.le_of_not_lt beyond))
  · intro before
    exact (last (Nat.zero_lt_of_lt before)).earlier (Nat.le_sub_one_of_lt before)

end Count

-- The last recv, whatever it brings.
theorem last_tag (tag : List UInt8) (ready : Ready clock t k s) (count : Int) :
    log ((recv_tag clock tag >>= fun _ => pure count) s) = some (logged clock t (k + 1)) := by
  have stage : Stage clock t (recv_tag clock tag) (Blocking.recv_tag tag) := tag_stage tag
  by_cases closes : ∃ r, Blocking.recv_tag tag s.receipt = .ok (⟨⟩,r)
  · obtain ⟨r,ran⟩ := closes
    obtain ⟨u,goes,_,passed,_⟩ := stage.goes k s r ready ran
    rw [log_bind goes,← passed]
    rfl
  · rw [not_exists] at closes
    refine log_ends (stage.ends k s ready closes) fun a u goes => closes u.receipt ?_
    rw [← stage.erases s,goes]
    rfl

section Runs
variable {received later : List Received} {packet : Packet Unit} {output_bufs : Option (List UInt8)} {output_bufs_len : Nat}
  {outcome : Outcome} {seqn cmd : UInt8} {length : Nat} {block : List UInt8}

-- What is left of a call once the length is known.
def closing (clock : Nat → UInt32) (outcome : Outcome) (output_bufs_len : Nat) : Timing Int := do
  let recv_count ← recv_payload clock outcome output_bufs_len
  recv_tag clock IPC_CONN_PACKET_END_TAG
  return recv_count

-- The recvs of a call that another one follows are counted by n.
def Calls (clock : Nat → UInt32) (t : UInt32) (received : List Received) (output_bufs : Option (List UInt8)) (output_bufs_len : Nat)
    (outcome : Outcome) (passed : Option (List UInt32)) : Prop :=
  ∃ n, passed = some (logged clock t (n + 1)) ∧ ∀ j, Followed received output_bufs output_bufs_len outcome j ↔ j < n

variable {r : Receipt} {curr_tick : UInt32}

theorem payload_reads : recv_payload clock outcome output_bufs_len s =
    ask_payload clock (clock s.reads) outcome output_bufs_len s.receipt s.read := rfl

theorem ask_skips (skipped : r.packet.data_len = 0 ∨ Skipped r.output_bufs output_bufs_len outcome) :
    ask_payload clock curr_tick outcome output_bufs_len r = pure 0 := by
  unfold ask_payload
  split
  · rename_i asked
    cases Blocking.skipped_refused asked skipped
    rfl
  · rfl

theorem ask_reads (some_data : 0 < r.packet.data_len) (asked : ¬ Skipped r.output_bufs output_bufs_len outcome) :
    ∃ block, block.length = r.packet.data_len ∧ ask_payload clock curr_tick outcome output_bufs_len r =
      timed clock curr_tick (Blocking.copy_payload output_bufs_len block) := by
  simp only [Skipped,not_or] at asked
  obtain ⟨there,nonzero,granted⟩ := asked
  obtain ⟨garbage,rfl⟩ := Option.ne_none_iff_exists'.mp granted
  obtain ⟨block,obtained⟩ : ∃ block, cplus_malloc (some garbage) r.packet.data_len = some block := ⟨_,rfl⟩
  refine ⟨block,malloc_length obtained,?_⟩
  rw [ask_payload,if_pos ⟨some_data,there,Nat.pos_of_ne_zero nonzero⟩,obtained]

theorem closing_skipped (opens : Opens received seqn cmd length later)
    (same : s.receipt = opened (waiting received packet output_bufs) seqn cmd length later) (ready : Ready clock t 4 s)
    (skipped : length = 0 ∨ Skipped output_bufs output_bufs_len outcome) :
    Calls clock t received output_bufs output_bufs_len outcome (log (closing clock outcome output_bufs_len s)) := by
  have passes : recv_payload clock outcome output_bufs_len s = .ok (0,s.read) := by
    rw [payload_reads,ask_skips (same ▸ skipped)]
    rfl
  refine ⟨4,?_,followed_iff ?_ ?_⟩
  · rw [closing,log_bind passes]
    exact last_tag _ ready.read 0
  · intro _
    exact .data_len opens
  · intro followed
    cases followed with
    | data others asked positive =>
      obtain ⟨rfl,_⟩ := Opens.unique opens others
      obtain rfl | skipped := skipped
      · exact Nat.lt_irrefl 0 positive
      · exact asked skipped

theorem closing_asked (opens : Opens received seqn cmd length later)
    (same : s.receipt = opened (waiting received packet output_bufs) seqn cmd length later) (ready : Ready clock t 4 s)
    (even : s.reads = 2*4) (room : ∀ block, output_bufs = some block → block.length = output_bufs_len) (some_data : 0 < length)
    (asked : ¬ Skipped output_bufs output_bufs_len outcome) :
    Calls clock t received output_bufs output_bufs_len outcome (log (closing clock outcome output_bufs_len s)) := by
  have positive : 0 < output_bufs_len := Nat.pos_of_ne_zero fun zero => asked (.inr (.inl zero))
  have ⟨_,_,_,_,_,_,_,counts⟩ := opens
  obtain ⟨block,fresh,starts⟩ : ∃ block, block.length = s.receipt.packet.data_len ∧
      recv_payload clock outcome output_bufs_len s =
        timed clock (clock s.reads) (Blocking.copy_payload output_bufs_len block) s.read := by
    rw [payload_reads,same]
    obtain ⟨block,fresh,starts⟩ := ask_reads (r := opened (waiting received packet output_bufs) seqn cmd length later) some_data asked
    exact ⟨block,fresh,congrFun starts s.read⟩
  cases ran : Blocking.copy_payload output_bufs_len block s.receipt with
  | ok answer =>
    have goes : timed clock (clock s.reads) (Blocking.copy_payload output_bufs_len block) s.read =
      .ok (answer.1,s.read.past clock (clock s.reads) answer.2) := timed_goes ran
    rw [same] at ran
    obtain ⟨data,more,small,_,whole,given⟩ := Blocking.copy_parts counts ran
    refine ⟨5,?_,followed_iff ?_ nofun⟩
    · rw [closing,log_bind (starts.trans goes)]
      exact last_tag _ (ready.next even).2 _
    · intro _
      exact .data opens asked some_data small whole given
  | error reason =>
    have rooms : Room output_bufs_len s.receipt := by
      rw [same]
      exact room
    obtain ⟨r,rfl⟩ := Option.ne_none_iff_exists'.mp ((Blocking.copy_returns positive fresh rooms).ends rfl ran)
    refine ⟨4,?_,followed_iff ?_ ?_⟩
    · refine log_ends ?_ ?_
      · rw [starts]
        exact timed_ends ready.read ran
      · rw [starts]
        exact timed_not ran
    · intro _
      exact .data_len opens
    · intro followed
      cases followed with
      | @data _ _ _ _ data more others asked _ small whole given =>
        obtain ⟨rfl,rfl⟩ := Opens.unique opens others
        obtain ⟨there,_⟩ := not_or.mp asked
        obtain ⟨held,there⟩ := Option.ne_none_iff_exists'.mp there
        rw [same] at ran fresh
        subst whole
        have reads := Blocking.copy_read (r := opened (waiting received packet output_bufs) seqn cmd data.length later) there positive
          (room held there) rfl some_data fresh given small
        cases ran.symm.trans reads

theorem Stage.stops {prog : Timing Unit} {part : Receiving Unit} {rest : Unit → Timing α} (stage : Stage clock t prog part)
    (ready : Ready clock t k s) (refused : ∀ r, part s.receipt ≠ .ok (⟨⟩,r)) :
    log ((prog >>= rest) s) = some (logged clock t (k + 1)) := by
  refine log_ends (stage.ends k s ready refused) fun a u goes => refused u.receipt ?_
  rw [← stage.erases s,goes]
  rfl

theorem tag_next {tag : List UInt8} (length : tag.length = 4) (ready : Ready clock t k s) (even : s.reads = 2*k)
    (given : Gives s.receipt.received (tag.take IPC_CONN_PACKET_TAG_SIZE) later) : ∃ u, recv_tag clock tag s = .ok (⟨⟩,u) ∧
      u.receipt = s.receipt.take (tag.take IPC_CONN_PACKET_TAG_SIZE) later ∧ u.reads = 2*(k + 1) ∧ Ready clock t (k + 1) u := by
  obtain ⟨u,ran,same,_,next⟩ := (tag_stage tag).goes k s _ ready ((Blocking.recv_tag_iff length).mpr ⟨later,given,rfl⟩)
  exact ⟨u,ran,same,next even⟩

theorem tag_stops {tag : List UInt8} {rest : Unit → Timing α} (length : tag.length = 4) (ready : Ready clock t k s)
    (refused : ¬ ∃ later, Gives s.receipt.received (tag.take IPC_CONN_PACKET_TAG_SIZE) later) :
    log ((recv_tag clock tag >>= rest) s) = some (logged clock t (k + 1)) := by
  refine (tag_stage tag).stops ready fun r ran => ?_
  obtain ⟨later,given,_⟩ := (Blocking.recv_tag_iff length).mp ran
  exact refused ⟨later,given⟩

variable {change : Packet Unit → List UInt8 → Packet Unit} {size : Nat} {bytes : List UInt8}

theorem store_next (change : Packet Unit → List UInt8 → Packet Unit) (size : Nat) (positive : 0 < size) (small : size < 2^31)
    (ready : Ready clock t k s) (even : s.reads = 2*k) (whole : bytes.length = size)
    (given : Gives s.receipt.received bytes later) : ∃ u, store_packet clock change size s = .ok (⟨⟩,u) ∧
      u.receipt = {s.receipt.take bytes later with packet := change s.receipt.packet bytes} ∧ u.reads = 2*(k + 1) ∧
      Ready clock t (k + 1) u := by
  obtain ⟨u,ran,same,_,next⟩ := (store_stage change size).goes k s _ ready
    ((Blocking.store_packet_iff positive small).mpr ⟨bytes,later,whole,given,rfl⟩)
  exact ⟨u,ran,same,next even⟩

theorem store_stops {rest : Unit → Timing α} (positive : 0 < size) (small : size < 2^31) (ready : Ready clock t k s)
    (refused : ¬ ∃ bytes later, bytes.length = size ∧ Gives s.receipt.received bytes later) :
    log ((store_packet clock change size >>= rest) s) = some (logged clock t (k + 1)) := by
  refine (store_stage change size).stops ready fun r ran => ?_
  obtain ⟨bytes,later,whole,given,_⟩ := (Blocking.store_packet_iff positive small).mp ran
  exact refused ⟨bytes,later,whole,given⟩

-- A field of one byte.
theorem one_byte : (∃ bytes later, bytes.length = 1 ∧ Gives received bytes later) ↔ ∃ byte later, Gives received [byte] later := by
  constructor
  · intro ⟨bytes,later,one,given⟩
    obtain ⟨byte,rfl⟩ := List.length_eq_one_iff.mp one
    exact ⟨byte,later,given⟩
  · intro ⟨byte,later,given⟩
    exact ⟨[byte],later,rfl,given⟩

theorem closing_calls (opens : Opens received seqn cmd length later)
    (same : s.receipt = opened (waiting received packet output_bufs) seqn cmd length later) (ready : Ready clock t 4 s)
    (even : s.reads = 2*4) (room : ∀ block, output_bufs = some block → block.length = output_bufs_len) :
    Calls clock t received output_bufs output_bufs_len outcome (log (closing clock outcome output_bufs_len s)) := by
  by_cases skipped : length = 0 ∨ Skipped output_bufs output_bufs_len outcome
  · exact closing_skipped opens same ready skipped
  · obtain ⟨nonzero,asked⟩ := not_or.mp skipped
    exact closing_asked opens same ready even room (Nat.pos_of_ne_zero nonzero) asked

theorem frame_calls (room : ∀ block, output_bufs = some block → block.length = output_bufs_len) :
    Calls clock t received output_bufs output_bufs_len outcome
      (log (recv_frame clock outcome output_bufs_len (called (waiting received packet output_bufs) t))) := by
  have ready : Ready clock t 0 (called (waiting received packet output_bufs) t) := ⟨rfl,rfl⟩
  rw [recv_frame]
  by_cases begins : ∃ one, Gives received (IPC_CONN_PACKET_BEGIN_TAG.take IPC_CONN_PACKET_TAG_SIZE) one
  swap
  · refine ⟨0,tag_stops rfl ready begins,followed_iff nofun fun followed => ?_⟩
    cases followed with
    | tag given => exact begins ⟨_,given⟩
  obtain ⟨one,begins⟩ := begins
  obtain ⟨s1,ran,tagged,even,ready⟩ := tag_next rfl ready rfl begins
  rw [log_bind ran]
  have comes : s1.receipt.received = one := by rw [tagged]; rfl
  by_cases first : ∃ seqn two, Gives one [seqn] two
  swap
  · refine ⟨1,?_,followed_iff (fun _ => .tag begins) fun followed => ?_⟩
    · apply store_stops (by decide) (by decide) ready
      rw [comes,one_byte]
      exact first
    · cases followed with
      | seqn others given =>
        obtain ⟨_,rfl⟩ := Gives.unique begins others rfl
        exact first ⟨_,_,given⟩
  obtain ⟨seqn,two,first⟩ := first
  obtain ⟨s2,ran,numbered,even,ready⟩ := store_next Blocking.store_seqn 1 (by decide) (by decide) ready even rfl (comes ▸ first)
  rw [log_bind ran]
  have comes : s2.receipt.received = two := by rw [numbered]; rfl
  by_cases second : ∃ cmd three, Gives two [cmd] three
  swap
  · refine ⟨2,?_,followed_iff (fun _ => .seqn begins first) fun followed => ?_⟩
    · apply store_stops (by decide) (by decide) ready
      rw [comes,one_byte]
      exact second
    · cases followed with
      | cmd others other given =>
        obtain ⟨_,rfl⟩ := Gives.unique begins others rfl
        obtain ⟨_,rfl⟩ := Gives.unique first other rfl
        exact second ⟨_,_,given⟩
  obtain ⟨cmd,three,second⟩ := second
  obtain ⟨s3,ran,commanded,even,ready⟩ := store_next Blocking.store_cmd 1 (by decide) (by decide) ready even rfl (comes ▸ second)
  rw [log_bind ran]
  have comes : s3.receipt.received = three := by rw [commanded]; rfl
  by_cases third : ∃ bytes later, bytes.length = 4 ∧ Gives three bytes later
  swap
  · refine ⟨3,?_,followed_iff (fun _ => .cmd begins first second) fun followed => ?_⟩
    · apply store_stops (by decide) (by decide) ready
      rw [comes]
      exact third
    · cases followed with
      | data_len opens =>
        obtain ⟨_,_,_,others,other,another,given,_⟩ := opens
        obtain ⟨_,rfl⟩ := Gives.unique begins others rfl
        obtain ⟨_,rfl⟩ := Gives.unique first other rfl
        obtain ⟨_,rfl⟩ := Gives.unique second another rfl
        exact third ⟨_,_,bigEndian32_length _,given⟩
  obtain ⟨bytes,later,whole,third⟩ := third
  obtain ⟨s4,ran,stored,even,ready⟩ := store_next Blocking.store_data_len 4 (by decide) (by decide) ready even whole (comes ▸ third)
  obtain ⟨small,same⟩ := read_bigEndian whole
  have opens : Opens received seqn cmd (bytes.foldl readNext 0) later := by
    refine ⟨one,two,three,begins,first,second,?_,small⟩
    rw [same]
    exact third
  have turned : {s4.receipt with packet := {s4.receipt.packet with data_len := Blocking.ntohl s4.receipt.packet.data_len}} =
      opened (waiting received packet output_bufs) seqn cmd (bytes.foldl readNext 0) later := by
    rw [← Blocking.header_opened _ seqn cmd one two three later whole,stored,commanded,numbered,tagged]
    rfl
  have turns : untimed turn_length s4 =
      .ok (⟨⟩,{s4 with receipt := opened (waiting received packet output_bufs) seqn cmd (bytes.foldl readNext 0) later}) := by
    rw [← turned]
    rfl
  rw [log_bind ran,log_bind turns]
  exact closing_calls opens rfl ⟨ready.timeout,ready.passed⟩ even room

theorem in_time_iff : (∀ j < n, InTime clock t (j + 1)) ↔ InTime clock t n := by
  constructor
  · intro every
    cases n with
    | zero => exact ⟨Nat.zero_le _,fun _ => rfl⟩
    | succ k => exact every k (Nat.lt_succ_self k)
  · intro ⟨enough,forever⟩ j before
    have less : spent clock (j + 1) ≤ spent clock n := spent_mono before
    refine ⟨Nat.le_trans less enough,fun limitless => ?_⟩
    have none_spent := forever limitless
    omega

theorem packet_logs {passed : List UInt32} (logs : log (recv_frame clock outcome output_bufs_len s) = some passed) :
    ∃ n u, ipc_recv_packet clock outcome output_bufs_len s = some (n,u) ∧ u.passed = passed := by
  unfold ipc_recv_packet
  cases ran : recv_frame clock outcome output_bufs_len s with
  | ok answer =>
    rw [ran] at logs
    exact ⟨_,_,rfl,Option.some.inj logs⟩
  | error reason =>
    rw [ran] at logs
    cases reason with
    | none => cases logs
    | some u => exact ⟨_,_,rfl,Option.some.inj logs⟩

-- Each call with a buffer as long as it is said to be. The timeouts are kept if the
-- recvs that another one follows took together no longer than the caller allows.
theorem deadline_exact (clock : Nat → UInt32) (t : UInt32) (received : List Received) (packet : Packet Unit)
    (output_bufs : Option (List UInt8)) (output_bufs_len : Nat) (outcome : Outcome)
    (room : ∀ block, output_bufs = some block → block.length = output_bufs_len) :
    ∃ n s, ipc_recv_packet clock outcome output_bufs_len (called (waiting received packet output_bufs) t) = some (n,s) ∧
      (Kept clock t s.passed ↔
        ∀ j, Followed received output_bufs output_bufs_len outcome j → InTime clock t (j + 1)) := by
  have calls : Calls clock t received output_bufs output_bufs_len outcome
    (log (recv_frame clock outcome output_bufs_len (called (waiting received packet output_bufs) t))) := frame_calls room
  obtain ⟨followed,logs,counts⟩ := calls
  obtain ⟨n,s,returns,passed⟩ := packet_logs logs
  refine ⟨n,s,returns,?_⟩
  rw [passed,kept_iff,← in_time_iff]
  exact forall_congr' fun j => by rw [counts j]

-- A whole packet that comes at once.
theorem deadline_at_once : ∃ n s, ipc_recv_packet (fun _ => 100) (some fun _ => 0) 2
      (called (waiting Blocking.whole_packet ⟨0,0,0,()⟩ (some [0,0])) 10) = some (n,s) ∧ Kept (fun _ => 100) 10 s.passed := by
  have room : ∀ block, some ([0,0] : List UInt8) = some block → block.length = 2 := fun block same => by cases same; rfl
  obtain ⟨n,s,returns,kept⟩ := deadline_exact (fun _ => 100) 10 Blocking.whole_packet ⟨0,0,0,()⟩ (some [0,0]) 2
    (some fun _ => 0) room
  refine ⟨n,s,returns,kept.mpr fun j followed => ?_⟩
  cases followed <;> exact ⟨by decide,by decide⟩

-- The begin tag comes two ms after the time was up.
theorem deadline_wraps : ¬ ∀ (clock : Nat → UInt32) (t : UInt32) (received : List Received) (packet : Packet Unit)
    (output_bufs : Option (List UInt8)) (output_bufs_len : Nat) (outcome : Outcome) (n : Int) (s : Timed),
    (∀ block, output_bufs = some block → block.length = output_bufs_len) →
    ipc_recv_packet clock outcome output_bufs_len (called (waiting received packet output_bufs) t) = some (n,s) →
    Kept clock t s.passed := by
  intro claim
  have kept := claim (fun reads => if reads = 0 then 100 else 112) 10 [.data [0x53,0x54,0x58]] ⟨0,0,0,()⟩ none 0 none _ _ no_block rfl
  have within := kept.within 4294967294 (by decide)
  revert within
  decide

end Runs

end Libcplus.Ipc.Deadline
