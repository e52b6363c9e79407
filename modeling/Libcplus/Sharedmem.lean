import Libcplus.Descriptors
import Libcplus.Transition

namespace Libcplus
open Descriptors Transition

-- The three calls that make an object; `new` is `open` first, and `create` after
-- an ENOENT.
inductive Creation where
  | create
  | opening
  | new
  deriving DecidableEq, Repr

-- Where an object is: in front of shm_open; of fstat or ftruncate; of mmap; of the
-- close in its creation; returned to the caller. Then in cplus_sharedmem_delete, in
-- front of its close, from the exit of a failed creation or for the caller; freed.
inductive Phase where
  | named
  | opened
  | sized
  | mapped
  | live
  | failing
  | deleting
  | gone
  deriving DecidableEq, Repr

-- struct shared_mem as far as its descriptor goes, INVALID_FD being none.
structure SharedMem where
  creation : Creation
  phase : Phase
  fd : Option Nat
  deriving DecidableEq, Repr

-- Who a descriptor is open for: an object, or anything else in the process.
inductive Owner where
  | object (serial : Nat)
  | other
  deriving DecidableEq, Repr

-- A close() by an object, and whose descriptor it closed.
structure Close where
  closer : Nat
  hit : Option Owner
  deriving DecidableEq, Repr

-- A process, with the objects made so far, and what was opened and closed for them.
structure Process where
  table : Table Owner
  objects : List SharedMem
  opens : List Nat
  closes : List Close

namespace Sharedmem

def start (inherited : Nat) : Process := ⟨List.replicate inherited (some .other),[],[],[]⟩

inductive Answer where
  | done
  | enoent
  | failed
  deriving DecidableEq, Repr

-- The system calls of the objects, one at a time and in any order between them,
-- with what the system answers; and what the rest of the process does.
inductive Action where
  | malloc (creation : Creation)
  | shm_open (k : Nat) (answer : Answer)
  | set_size (k : Nat) (done : Bool)
  | mmap (k : Nat) (done : Bool)
  | close (k : Nat)
  | delete (k : Nat)
  | exit (k : Nat)
  | leave (k : Nat)
  | other_open
  | other_close (n : Nat)
  deriving DecidableEq, Repr

def set_object (s : Process) (k : Nat) (shmem : SharedMem) : Process :=
  {s with objects := s.objects.set k shmem}

-- close(shmem->fd), which does not touch the field.
def close_fd (s : Process) (k : Nat) (fd : Option Nat) : Process :=
  match fd with
  | none => s
  | some n => {s with
      table := Descriptors.close s.table n
      closes := s.closes ++ [⟨k,holder s.table n⟩]}

-- An open that succeeds gives the lowest free number.
def shm_open (s : Process) (k : Nat) (shmem : SharedMem) : Answer → Process
  | .done => {set_object s k {shmem with phase := .opened,fd := some (lowest s.table)} with
      table := take s.table (.object k)
      opens := s.opens ++ [k]}
  | .enoent =>
    match shmem.creation with
    | .new => set_object s k {shmem with creation := .create}
    | _ => set_object s k {shmem with phase := .failing}
  | .failed => set_object s k {shmem with phase := .failing}

-- The part of cplus_sharedmem_delete from its close on.
def leave (s : Process) (k : Nat) (shmem : SharedMem) : Process :=
  set_object (close_fd s k shmem.fd) k {shmem with phase := .gone,fd := none}

-- A step of the object's thread, from the phase it belongs to.
def object_step (s : Process) (k : Nat) (phase : Phase) (next : SharedMem → Process) : Option Process :=
  (s.objects[k]?).bind fun shmem => if shmem.phase = phase then some (next shmem) else none

def advance (s : Process) : Action → Option Process
  | .malloc creation => some {s with objects := s.objects ++ [⟨creation,.named,none⟩]}
  | .shm_open k answer => object_step s k .named fun shmem => shm_open s k shmem answer
  | .set_size k done => object_step s k .opened fun shmem =>
      set_object s k {shmem with phase := if done then .sized else .failing}
  | .mmap k done => object_step s k .sized fun shmem =>
      set_object s k {shmem with phase := if done then .mapped else .failing}
  | .close k => object_step s k .mapped fun shmem =>
      set_object (close_fd s k shmem.fd) k {shmem with phase := .live}
  | .delete k => object_step s k .live fun shmem => set_object s k {shmem with phase := .deleting}
  | .exit k => object_step s k .failing (leave s k)
  | .leave k => object_step s k .deleting (leave s k)
  | .other_open => some {s with table := take s.table .other}
  | .other_close n =>
    if holder s.table n = some .other then some {s with table := Descriptors.close s.table n} else none

-- The descriptor that is an object's own: from shm_open to the close in its
-- creation, or in the delete that a failed creation ends with.
def owns (shmem : SharedMem) : Option Nat :=
  match shmem.phase with
  | .live | .deleting | .gone => none
  | _ => shmem.fd

def opened (s : Process) (k : Nat) : Nat := s.opens.count k

def closed (s : Process) (k : Nat) : Nat := (s.closes.map Close.hit).count (some (.object k))

-- No close hits a descriptor of somebody else, and what a call obtained has been
-- closed once when the object is returned or freed.
structure Owned (s : Process) : Prop where
  hits : ∀ c ∈ s.closes, ∀ owner, c.hit = some owner → owner = .object c.closer
  once : ∀ k, opened s k ≤ 1
  settled : ∀ k shmem, s.objects[k]? = some shmem → shmem.phase = .live ∨ shmem.phase = .gone →
    closed s k = opened s k

-- The number that a returned object still has in its fd, when it is deleted, is
-- not open for anybody.
def Unused (s : Process) : Action → Prop
  | .leave k => ∀ shmem ∈ s.objects[k]?, ∀ n ∈ shmem.fd, holder s.table n = none
  | _ => True

instance (s : Process) (action : Action) : Decidable (Unused s action) := by
  cases action <;> unfold Unused <;> infer_instance

-- What one object has of the table.
structure Holding (table : Table Owner) (k : Nat) (shmem : Option SharedMem) (opened closed : Nat) :
    Prop where
  place : ∀ n, shmem.bind owns = some n → holder table n = some (.object k)
  alone : held table (.object k) = if (shmem.bind owns).isSome then 1 else 0
  balance : held table (.object k) + closed = opened
  once : opened ≤ 1
  unopened : (∀ x, shmem = some x → x.phase = .named) → opened = 0

structure Sound (s : Process) : Prop where
  hits : ∀ c ∈ s.closes, ∀ owner, c.hit = some owner → owner = .object c.closer
  holding : ∀ k, Holding s.table k s.objects[k]? (opened s k) (closed s k)

variable {s t : Process} {k : Nat} {shmem next : SharedMem} {table : Table Owner} {x : Option SharedMem}
  {o c n : Nat} {owner : Owner}

theorem start_sound (inherited : Nat) : Sound (start inherited) where
  hits := nofun
  holding k := by
    have nothing : held (List.replicate inherited (some Owner.other)) (.object k) = 0 := by
      unfold held
      rw [List.count_replicate]
      simp
    exact ⟨nofun,nothing,nothing,Nat.zero_le 1,fun _ => rfl⟩

-- What happens to the descriptors of others does not concern the object.
theorem Holding.take_other (holding : Holding table k x o c) (apart : owner ≠ .object k) :
    Holding (take table owner) k x o c := by
  have same : held (take table owner) (.object k) = held table (.object k) := by
    rw [held_take,if_neg apart,Nat.add_zero]
  refine ⟨fun n mine => ?_,same.trans holding.alone,same ▸ holding.balance,holding.once,holding.unopened⟩
  have there := holding.place n mine
  have used : n ≠ lowest table := by
    rintro rfl
    rw [lowest_free] at there
    cases there
  rw [holder_take,if_neg used]
  exact there

theorem Holding.close_other (holding : Holding table k x o c) (there : holder table n = some owner)
    (apart : owner ≠ .object k) : Holding (Descriptors.close table n) k x o c := by
  have same : held (Descriptors.close table n) (.object k) = held table (.object k) := by
    have balance := held_close there (.object k)
    rwa [if_neg apart,Nat.add_zero] at balance
  refine ⟨fun m mine => ?_,same.trans holding.alone,same ▸ holding.balance,holding.once,holding.unopened⟩
  have here := holding.place m mine
  have other : m ≠ n := by
    rintro rfl
    exact apart (Option.some.inj (there.symm.trans here))
  rw [holder_close,if_neg other]
  exact here

-- The object's own steps.
theorem Holding.moves (holding : Holding table k (some shmem) o c) (same : owns next = owns shmem)
    (later : next.phase = .named → shmem.phase = .named) : Holding table k (some next) o c where
  place n mine := holding.place n (same.symm.trans mine)
  alone := by
    have alone := holding.alone
    simp only [Option.bind_some] at alone ⊢
    simp only [alone,same]
  balance := holding.balance
  once := holding.once
  unopened named := holding.unopened fun x here => by
    cases here
    exact later (named next rfl)

theorem Holding.takes (holding : Holding table k (some shmem) o c) (named : shmem.phase = .named)
    (mine : owns next = some (lowest table)) (later : next.phase ≠ .named) :
    Holding (take table (.object k)) k (some next) (o + 1) c := by
  have unopened : o = 0 := holding.unopened fun x here => by
    cases here
    exact named
  have before : held table (.object k) = 0 := by
    have balance := holding.balance
    omega
  have one : held (take table (.object k)) (.object k) = 1 := by rw [held_take,before,if_pos rfl]
  refine ⟨fun n here => ?_,?_,?_,by omega,fun all => absurd (all next rfl) later⟩
  · have place : lowest table = n := Option.some.inj (mine.symm.trans here)
    rw [holder_take,if_pos place.symm]
  · rw [one]
    simp [mine]
  · have balance := holding.balance
    omega

theorem Holding.closes (holding : Holding table k (some shmem) o c) (mine : owns shmem = some n)
    (nothing : owns next = none) (later : next.phase ≠ .named) :
    Holding (Descriptors.close table n) k (some next) o (c + 1) := by
  have there := holding.place n mine
  have alone : held table (.object k) = 1 := by
    have alone := holding.alone
    simpa [mine] using alone
  have left_over : held (Descriptors.close table n) (.object k) = 0 := by
    have balance := held_close there (.object k)
    rw [if_pos rfl] at balance
    omega
  refine ⟨fun m here => ?_,?_,?_,holding.once,fun all => absurd (all next rfl) later⟩
  · rw [Option.bind_some,nothing] at here
    cases here
  · rw [left_over]
    simp [nothing]
  · have balance := holding.balance
    omega

theorem set_here (here : s.objects[k]? = some shmem) (next : SharedMem) (j : Nat) :
    (s.objects.set k next)[j]? = if j = k then some next else s.objects[j]? := by
  obtain ⟨inside,_⟩ := List.getElem?_eq_some_iff.mp here
  rw [List.getElem?_set]
  by_cases same : k = j
  · subst same
    rw [if_pos rfl,if_pos rfl,if_pos inside]
  · rw [if_neg same,if_neg (Ne.symm same)]

-- A step of one object, from what it does to the object and to all others.
theorem sound_of (here : s.objects[k]? = some shmem)
    (objects : t.objects = s.objects.set k next)
    (hits : ∀ c ∈ t.closes, ∀ owner, c.hit = some owner → owner = .object c.closer)
    (mine : Holding t.table k (some next) (opened t k) (closed t k))
    (others : ∀ j, j ≠ k → Holding t.table j s.objects[j]? (opened t j) (closed t j)) : Sound t := by
  refine ⟨hits,fun j => ?_⟩
  rw [objects,set_here here]
  by_cases same : j = k
  · subst same
    rw [if_pos rfl]
    exact mine
  · rw [if_neg same]
    exact others j same

theorem set_sound (sound : Sound s) (here : s.objects[k]? = some shmem) (same : owns next = owns shmem)
    (later : next.phase = .named → shmem.phase = .named) : Sound (set_object s k next) := by
  have holding := sound.holding k
  rw [here] at holding
  exact sound_of here rfl sound.hits (holding.moves same later) fun j _ => sound.holding j

theorem take_sound (sound : Sound s) (here : s.objects[k]? = some shmem) (named : shmem.phase = .named) :
    Sound (shm_open s k shmem .done) := by
  have holding := sound.holding k
  rw [here] at holding
  have one_more : opened (shm_open s k shmem .done) k = opened s k + 1 := by
    show (s.opens ++ [k]).count k = _
    rw [List.count_append,List.count_singleton_self]
    rfl
  refine sound_of here rfl sound.hits ?_ fun j apart => ?_
  · rw [one_more]
    exact holding.takes named rfl nofun
  · have same : opened (shm_open s k shmem .done) j = opened s j := by
      show (s.opens ++ [k]).count j = _
      rw [List.count_append,List.count_singleton]
      simp [opened,Ne.symm apart]
    rw [same]
    exact (sound.holding j).take_other fun equal => apart (Owner.object.inj equal).symm

theorem closed_snoc (s : Process) (j : Nat) (c : Close) (closes : List Close) (more : closes = s.closes ++ [c]) :
    (closes.map Close.hit).count (some (.object j)) = closed s j + if c.hit = some (.object j) then 1 else 0 := by
  rw [more,List.map_append,List.count_append,List.map_singleton,List.count_singleton]
  simp [closed]

theorem hits_snoc (sound : Sound s) {c : Close}
    (own : ∀ owner, c.hit = some owner → owner = .object c.closer) :
    ∀ d ∈ s.closes ++ [c], ∀ owner, d.hit = some owner → owner = .object d.closer := by
  intro d member
  rcases List.mem_append.mp member with early | last
  · exact sound.hits d early
  · obtain rfl := List.mem_singleton.mp last
    exact own

-- A close of the descriptor that the object owns.
theorem close_own (sound : Sound s) (here : s.objects[k]? = some shmem) (mine : owns shmem = some n)
    (nothing : owns next = none) (later : next.phase ≠ .named) :
    Sound (set_object (close_fd s k (some n)) k next) := by
  have holding := sound.holding k
  rw [here] at holding
  have there : holder s.table n = some (.object k) := holding.place n mine
  have hits := hits_snoc sound (c := ⟨k,holder s.table n⟩) fun owner hit => by
    exact Option.some.inj (hit.symm.trans there)
  refine sound_of here rfl hits ?_ fun j apart => ?_
  · have one_more : closed (set_object (close_fd s k (some n)) k next) k = closed s k + 1 :=
      (closed_snoc s k ⟨k,holder s.table n⟩ _ rfl).trans (by rw [if_pos there])
    rw [one_more]
    exact holding.closes mine nothing later
  · have other : holder s.table n ≠ some (.object j) := by
      rw [there]
      exact fun equal => apart (Owner.object.inj (Option.some.inj equal)).symm
    have same : closed (set_object (close_fd s k (some n)) k next) j = closed s j :=
      (closed_snoc s j ⟨k,holder s.table n⟩ _ rfl).trans (by rw [if_neg other,Nat.add_zero])
    rw [same]
    exact (sound.holding j).close_other there fun equal => apart (Owner.object.inj equal).symm

-- A close of a number that is not open for anybody.
theorem close_unused (sound : Sound s) (here : s.objects[k]? = some shmem) (free : holder s.table n = none)
    (same : owns next = owns shmem) (later : next.phase = .named → shmem.phase = .named) :
    Sound (set_object (close_fd s k (some n)) k next) := by
  have holding := sound.holding k
  rw [here] at holding
  have hits := hits_snoc sound (c := ⟨k,holder s.table n⟩) fun owner hit => by
    rw [free] at hit
    cases hit
  have table : (close_fd s k (some n)).table = s.table := close_free free
  have kept : ∀ j, closed (set_object (close_fd s k (some n)) k next) j = closed s j := by
    intro j
    refine (closed_snoc s j ⟨k,holder s.table n⟩ _ rfl).trans ?_
    rw [if_neg (by rw [free]; exact nofun),Nat.add_zero]
  refine sound_of here rfl hits ?_ fun j _ => ?_
  · rw [kept k]
    exact table ▸ holding.moves same later
  · rw [kept j]
    exact table ▸ sound.holding j

theorem object_parts {phase : Phase} {step : SharedMem → Process} (taken : object_step s k phase step = some t) :
    ∃ shmem, s.objects[k]? = some shmem ∧ shmem.phase = phase ∧ t = step shmem := by
  obtain ⟨shmem,here,taken⟩ := Option.bind_eq_some_iff.mp taken
  split at taken
  · rename_i at_phase
    exact ⟨shmem,here,at_phase,(Option.some.inj taken).symm⟩
  · cases taken

theorem malloc_sound (sound : Sound s) (creation : Creation) :
    Sound {s with objects := s.objects ++ [⟨creation,.named,none⟩]} := by
  refine ⟨sound.hits,fun k => ?_⟩
  have holding := sound.holding k
  rcases Nat.lt_trichotomy k s.objects.length with before | rfl | behind
  · show Holding s.table k (s.objects ++ _)[k]? _ _
    rw [List.getElem?_append_left before]
    exact holding
  · rw [List.getElem?_eq_none (Nat.le_refl _)] at holding
    show Holding s.table _ (s.objects ++ _)[s.objects.length]? _ _
    rw [List.getElem?_concat_length]
    exact ⟨nofun,holding.alone,holding.balance,holding.once,fun _ => holding.unopened nofun⟩
  · rw [List.getElem?_eq_none (by omega)] at holding
    show Holding s.table k (s.objects ++ _)[k]? _ _
    rw [List.getElem?_eq_none (by rw [List.length_append,List.length_singleton]; omega)]
    exact holding

-- The two ways through the delete, and the close in front of them.
theorem exit_sound (sound : Sound s) (here : s.objects[k]? = some shmem) (mine : owns shmem = shmem.fd)
    (nothing : owns next = none) (later : next.phase ≠ .named) :
    Sound (set_object (close_fd s k shmem.fd) k next) := by
  cases fd : shmem.fd with
  | none =>
    rw [fd] at mine
    exact set_sound sound here (nothing.trans mine.symm) fun named => absurd named later
  | some n => exact close_own sound here (mine.trans fd) nothing later

theorem leave_sound (sound : Sound s) (here : s.objects[k]? = some shmem) (deleting : shmem.phase = .deleting)
    (unused : Unused s (.leave k)) : Sound (leave s k shmem) := by
  have nothing : owns shmem = none := by simp only [owns,deleting]
  unfold leave
  cases fd : shmem.fd with
  | none => exact set_sound sound here nothing.symm nofun
  | some n => exact close_unused sound here (unused shmem here n fd) nothing.symm nofun

theorem step_sound {action : Action} (sound : Sound s) (taken : advance s action = some t)
    (unused : Unused s action) : Sound t := by
  cases action with
  | malloc creation =>
    cases taken
    exact malloc_sound sound creation
  | shm_open k answer =>
    obtain ⟨shmem,here,named,rfl⟩ := object_parts taken
    have fails : Sound (set_object s k {shmem with phase := .failing}) :=
      set_sound sound here (by simp only [owns,named]) nofun
    cases answer with
    | done => exact take_sound sound here named
    | enoent =>
      unfold shm_open
      dsimp only
      split
      · exact set_sound sound here (by simp only [owns,named]) fun _ => named
      · exact fails
    | failed => exact fails
  | set_size k done =>
    obtain ⟨shmem,here,opened,rfl⟩ := object_parts taken
    cases done with
    | true => exact set_sound sound here (by simp only [owns,opened,if_true]) nofun
    | false => exact set_sound sound here (by simp only [owns,opened,Bool.false_eq_true,if_false]) nofun
  | mmap k done =>
    obtain ⟨shmem,here,sized,rfl⟩ := object_parts taken
    cases done with
    | true => exact set_sound sound here (by simp only [owns,sized,if_true]) nofun
    | false => exact set_sound sound here (by simp only [owns,sized,Bool.false_eq_true,if_false]) nofun
  | close k =>
    obtain ⟨shmem,here,mapped,rfl⟩ := object_parts taken
    exact exit_sound sound here (by simp only [owns,mapped]) rfl nofun
  | delete k =>
    obtain ⟨shmem,here,live,rfl⟩ := object_parts taken
    exact set_sound sound here (by simp only [owns,live]) nofun
  | exit k =>
    obtain ⟨shmem,here,failing,rfl⟩ := object_parts taken
    exact exit_sound sound here (by simp only [owns,failing]) rfl nofun
  | leave k =>
    obtain ⟨shmem,here,deleting,rfl⟩ := object_parts taken
    exact leave_sound sound here deleting unused
  | other_open =>
    cases taken
    exact ⟨sound.hits,fun k => (sound.holding k).take_other nofun⟩
  | other_close n =>
    have closed : (if holder s.table n = some .other then some {s with table := Descriptors.close s.table n}
        else none) = some t := taken
    split at closed
    · rename_i there
      cases closed
      exact ⟨sound.hits,fun k => (sound.holding k).close_other there nofun⟩
    · cases closed

theorem Sound.owned (sound : Sound s) : Owned s where
  hits := sound.hits
  once k := (sound.holding k).once
  settled k shmem here done := by
    have holding := sound.holding k
    rw [here] at holding
    have nothing : owns shmem = none := by
      unfold owns
      rcases done with live | gone
      · simp only [live]
      · simp only [gone]
    have alone := holding.alone
    have balance := holding.balance
    simp [nothing] at alone
    omega

-- A delete that finds its old number in use closes a descriptor that is not its own.
theorem step_breaks {action : Action} (sound : Sound s) (taken : advance s action = some t)
    (used : ¬ Unused s action) : ¬ Owned t := by
  intro owned
  cases action with
  | leave k =>
    obtain ⟨shmem,here,deleting,rfl⟩ := object_parts taken
    apply used
    intro same there n fd
    obtain rfl : shmem = same := Option.some.inj (here.symm.trans there)
    cases hit : holder s.table n with
    | none => rfl
    | some owner =>
      exfalso
      have holding := sound.holding k
      rw [here] at holding
      have alone : held s.table (.object k) = 0 := by
        have alone := holding.alone
        have nothing : owns shmem = none := by simp only [owns,deleting]
        simpa [nothing] using alone
      have closed : (⟨k,some owner⟩ : Close) ∈ (leave s k shmem).closes := by
        unfold leave
        rw [show shmem.fd = some n from fd]
        show _ ∈ s.closes ++ [⟨k,holder s.table n⟩]
        rw [hit]
        exact List.mem_append_right _ List.mem_cons_self
      have own : owner = .object k := owned.hits _ closed owner rfl
      rw [own] at hit
      have member : some (Owner.object k) ∈ s.table := List.mem_of_getElem? (holder_some.mp hit)
      have positive := List.count_pos_iff.mpr member
      unfold held at alone
      omega
  | _ => exact used trivial

-- The descriptors are each closed once, and by their own objects, in the runs where
-- no object is deleted while the number of its closed descriptor is in use again.
theorem owned_exact (inherited : Nat) {moves : List (Move Process Action)}
    (run : Run (Follows advance) (start inherited) moves s) :
    Throughout Owned moves ↔ Meets Unused moves :=
  run.exact (start_sound inherited) step_sound Sound.owned step_breaks

section Turns

-- Between the calls, and after the last one.
def Resting (phase : Phase) : Prop := phase = .live ∨ phase = .gone

-- A call starts when no other is under way, and nothing else of the process opens a
-- descriptor.
def InTurn (s : Process) : Action → Prop
  | .malloc _ | .delete _ => ∀ shmem ∈ s.objects, Resting shmem.phase
  | .other_open => False
  | _ => True

structure Turns (s : Process) : Prop where
  single : ∀ {i j : Nat} {a b : SharedMem}, s.objects[i]? = some a → s.objects[j]? = some b →
    ¬ Resting a.phase → ¬ Resting b.phase → i = j
  apart : ∀ {k : Nat} {shmem : SharedMem} {n : Nat}, s.objects[k]? = some shmem → shmem.fd = some n →
    holder s.table n ≠ some .other

theorem turns_set (turns : Turns s) (here : s.objects[k]? = some shmem) (objects : t.objects = s.objects.set k next)
    (alone : ¬ Resting shmem.phase ∨ ∀ x ∈ s.objects, Resting x.phase)
    (others : ∀ n, holder t.table n = some .other → holder s.table n = some .other)
    (own : ∀ n, next.fd = some n → holder t.table n ≠ some .other) : Turns t where
  single := by
    intro i j a b first second busy also
    rw [objects,set_here here] at first second
    -- an object beside the one whose turn it is
    have resting : ∀ l x, l ≠ k → s.objects[l]? = some x → Resting x.phase := by
      intro l x apart there
      rcases alone with under_way | all
      · by_contra busy
        exact apart (turns.single there here busy under_way)
      · exact all x (List.mem_of_getElem? there)
    split at first
    · split at second
      · rename_i this that
        rw [this,that]
      · exact absurd (resting j b ‹_› second) also
    · exact absurd (resting i a ‹_› first) busy
  apart := by
    intro j x n there fd
    rw [objects,set_here here] at there
    split at there
    · cases there
      exact own n fd
    · exact fun other => turns.apart there fd (others n other)

theorem take_others (table : Table Owner) (k n : Nat) (other : holder (take table (.object k)) n = some .other) :
    holder table n = some .other := by
  rw [holder_take] at other
  split at other
  · cases other
  · exact other

theorem close_others (s : Process) (k : Nat) (fd : Option Nat) (n : Nat)
    (other : holder (close_fd s k fd).table n = some .other) : holder s.table n = some .other := by
  cases fd with
  | none => exact other
  | some m =>
    have other : holder (Descriptors.close s.table m) n = some .other := other
    rw [holder_close] at other
    split at other
    · cases other
    · exact other

theorem moved_turns (turns : Turns s) (here : s.objects[k]? = some shmem) (same : next.fd = shmem.fd)
    (alone : ¬ Resting shmem.phase ∨ ∀ x ∈ s.objects, Resting x.phase) : Turns (set_object s k next) :=
  turns_set turns here rfl alone (fun _ => id) fun _ fd => turns.apart here (same ▸ fd)

theorem closed_turns (turns : Turns s) (here : s.objects[k]? = some shmem) (under_way : ¬ Resting shmem.phase)
    (kept : ∀ n, next.fd = some n → shmem.fd = some n) : Turns (set_object (close_fd s k shmem.fd) k next) := by
  have objects : (close_fd s k shmem.fd).objects = s.objects := by
    unfold close_fd
    split <;> rfl
  refine turns_set turns here (by rw [set_object,objects]) (.inl under_way) (close_others s k shmem.fd) fun n fd other => ?_
  exact turns.apart here (kept n fd) (close_others s k shmem.fd n other)

theorem open_turns (turns : Turns s) (here : s.objects[k]? = some shmem) (under_way : ¬ Resting shmem.phase)
    (answer : Answer) : Turns (shm_open s k shmem answer) := by
  cases answer with
  | done =>
    refine turns_set turns here rfl (.inl under_way) (take_others s.table k) fun n fd => ?_
    have lowest_ : n = lowest s.table := (Option.some.inj fd).symm
    show holder (take s.table (.object k)) n ≠ _
    rw [holder_take,if_pos lowest_]
    nofun
  | enoent =>
    unfold shm_open
    dsimp only
    split
    · exact moved_turns turns here rfl (.inl under_way)
    · exact moved_turns turns here rfl (.inl under_way)
  | failed => exact moved_turns turns here rfl (.inl under_way)

theorem malloc_turns (turns : Turns s) (creation : Creation) (resting : ∀ shmem ∈ s.objects, Resting shmem.phase) :
    Turns {s with objects := s.objects ++ [⟨creation,.named,none⟩]} := by
  have fresh {i : Nat} {a : SharedMem} (there : (s.objects ++ [⟨creation,.named,none⟩])[i]? = some a) (busy : ¬ Resting a.phase) :
      i = s.objects.length := by
    rcases Nat.lt_trichotomy i s.objects.length with inside | last | beyond
    · rw [List.getElem?_append_left inside] at there
      exact absurd (resting a (List.mem_of_getElem? there)) busy
    · exact last
    · rw [List.getElem?_eq_none (by rw [List.length_append,List.length_singleton]; omega)] at there
      cases there
  refine ⟨fun first second busy also => (fresh first busy).trans (fresh second also).symm,?_⟩
  intro k shmem n there fd
  rcases Nat.lt_or_ge k s.objects.length with inside | beyond
  · rw [List.getElem?_append_left inside] at there
    exact turns.apart there fd
  · rw [List.getElem?_append_right beyond] at there
    rw [List.mem_singleton.mp (List.mem_of_getElem? there)] at fd
    cases fd

theorem step_turns {action : Action} (turns : Turns s) (taken : advance s action = some t) (in_turn : InTurn s action) :
    Turns t := by
  cases action with
  | malloc creation =>
    cases taken
    exact malloc_turns turns creation in_turn
  | shm_open k answer =>
    obtain ⟨shmem,here,named,rfl⟩ := object_parts taken
    exact open_turns turns here (by simp [Resting,named]) answer
  | set_size k done =>
    obtain ⟨shmem,here,opened,rfl⟩ := object_parts taken
    exact moved_turns turns here rfl (.inl (by simp [Resting,opened]))
  | mmap k done =>
    obtain ⟨shmem,here,sized,rfl⟩ := object_parts taken
    exact moved_turns turns here rfl (.inl (by simp [Resting,sized]))
  | close k =>
    obtain ⟨shmem,here,mapped,rfl⟩ := object_parts taken
    exact closed_turns turns here (by simp [Resting,mapped]) fun _ fd => fd
  | delete k =>
    obtain ⟨shmem,here,_,rfl⟩ := object_parts taken
    exact moved_turns turns here rfl (.inr in_turn)
  | exit k =>
    obtain ⟨shmem,here,failing,rfl⟩ := object_parts taken
    exact closed_turns turns here (by simp [Resting,failing]) nofun
  | leave k =>
    obtain ⟨shmem,here,deleting,rfl⟩ := object_parts taken
    exact closed_turns turns here (by simp [Resting,deleting]) nofun
  | other_open => exact in_turn.elim
  | other_close n =>
    have closed : (if holder s.table n = some .other then some {s with table := Descriptors.close s.table n}
        else none) = some t := taken
    split at closed
    · cases closed
      exact ⟨turns.single,fun there fd other => turns.apart there fd (close_others s 0 (some n) _ other)⟩
    · cases closed

theorem resting_owns (resting : Resting shmem.phase) : owns shmem = none := by
  rcases resting with live | gone
  · simp [owns,live]
  · simp [owns,gone]

theorem holder_owns {j : Nat} (sound : Sound s) (hit : holder s.table n = some (.object j)) :
    ∃ shmem, s.objects[j]? = some shmem ∧ owns shmem ≠ none := by
  have positive : 0 < held s.table (.object j) := List.count_pos_iff.mpr (List.mem_of_getElem? (holder_some.mp hit))
  rw [(sound.holding j).alone] at positive
  cases there : s.objects[j]? with
  | none =>
    rw [there] at positive
    cases positive
  | some shmem =>
    refine ⟨shmem,rfl,fun nothing => ?_⟩
    rw [there,Option.bind_some,nothing] at positive
    cases positive

theorem unused_turns {action : Action} (sound : Sound s) (turns : Turns s) (taken : advance s action = some t) :
    Unused s action := by
  cases action with
  | leave k =>
    intro shmem here n fd
    obtain ⟨same,found,deleting,rfl⟩ := object_parts taken
    cases found.symm.trans here
    cases hit : holder s.table n with
    | none => rfl
    | some owner =>
      cases owner with
      | other => exact absurd hit (turns.apart here fd)
      | object j =>
        -- Only the object whose turn it is could have a number, and it has closed its own.
        obtain ⟨other,there,owning⟩ := holder_owns sound hit
        have busy : ¬ Resting other.phase := fun resting => owning (resting_owns resting)
        obtain rfl := turns.single there here busy (by simp [Resting,deleting])
        cases there.symm.trans here
        exact absurd (by simp [owns,deleting]) owning
  | _ => trivial

-- Calls one after another are safe while nothing else of the process opens a descriptor.
theorem in_turn_unused (inherited : Nat) {moves : List (Move Process Action)}
    (run : Run (Follows advance) (start inherited) moves s) (in_turn : Meets InTurn moves) : Meets Unused moves := by
  intro m member
  have turns : Turns (start inherited) := ⟨nofun,nofun⟩
  have kept : ∀ {s t : Process} {action : Action}, Sound s ∧ Turns s → advance s action = some t → InTurn s action →
      Sound t ∧ Turns t := by
    intro s t action ⟨sound,turns⟩ taken in_turn
    have unused := unused_turns sound turns taken
    exact ⟨step_sound sound taken unused,step_turns turns taken in_turn⟩
  obtain ⟨⟨sound,turns⟩,taken⟩ := run.each (J := fun s => Sound s ∧ Turns s) InTurn ⟨start_sound inherited,turns⟩
    kept in_turn m member
  exact unused_turns sound turns taken

end Turns

section Runs

-- A failed creation, one that ends in a delete, and another object after it.
def quiet_actions : List Action :=
  [.malloc .opening,.shm_open 0 .enoent,.exit 0,.malloc .new,.shm_open 1 .enoent,.shm_open 1 .done,
   .set_size 1 true,.mmap 1 false,.exit 1,.malloc .create,.shm_open 2 .done,.set_size 2 true,
   .mmap 2 true,.close 2,.delete 2,.leave 2,.malloc .create,.shm_open 3 .done]

theorem quiet_owned : ∃ moves s, Run (Follows advance) (start 3) moves s ∧
    moves.map Move.action = quiet_actions ∧ Throughout Owned moves := by
  obtain ⟨moves,s,run,same,checked⟩ := Run.of_check advance (start 3) quiet_actions
    (fun result => decide (Meets Unused result.1)) (by decide +kernel)
  exact ⟨moves,s,run,same,(owned_exact 3 run).mpr (of_decide_eq_true checked)⟩

-- The second object gets the number of the first one's closed descriptor, and
-- the delete of the first closes it.
def reused_actions : List Action :=
  [.malloc .create,.shm_open 0 .done,.set_size 0 true,.mmap 0 true,.close 0,.malloc .create,
   .shm_open 1 .done,.delete 0,.leave 0]

theorem reused_closed : ∃ moves s, Run (Follows advance) (start 3) moves s ∧
    moves.map Move.action = reused_actions ∧ ⟨0,some (.object 1)⟩ ∈ s.closes ∧ ¬ Owned s := by
  obtain ⟨moves,s,run,same,checked⟩ := Run.of_check advance (start 3) reused_actions
    (fun result => decide (⟨0,some (.object 1)⟩ ∈ result.2.closes)) (by decide +kernel)
  have closed := of_decide_eq_true checked
  refine ⟨moves,s,run,same,closed,fun owned => ?_⟩
  cases owned.hits _ closed (.object 1) rfl

end Runs

end Sharedmem

end Libcplus
