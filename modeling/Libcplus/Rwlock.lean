import Mathlib.Algebra.Group.Nat.Defs
import Libcplus.Transition
import Libcplus.Typedef

namespace Libcplus
open Transition Typedef

namespace Rwlock

-- The next access of a thread in a call; `adding` and `lowering` carry the count that
-- it has read. Whether the lock was taken for reading is not kept in the source: here
-- it only tells the two unlocks apart.
inductive Pc where
  | idle
  | marking (read : Bool)
  | counting
  | adding (count : Nat)
  | unlocking
  | released (read : Bool)
  | subtracting
  | lowering (count : Nat)
  | testing
  | clearing
  deriving DecidableEq

-- Between the pthread call and the end of the status update.
def Pc.updating : Pc → Bool
  | .idle | .unlocking => false
  | _ => true

-- After pthread_rwlock_unlock.
def Pc.releasing : Pc → Bool
  | .released _ | .subtracting | .lowering _ | .testing | .clearing => true
  | _ => false

-- A read lock that is not in count_rdlocked yet, and one that is still in it.
def Pc.uncounted : Pc → Bool
  | .marking true | .counting | .adding _ => true
  | _ => false

def Pc.counted : Pc → Bool
  | .released true | .subtracting | .lowering _ => true
  | _ => false

-- The lock taken by the call that the thread is in, st_locked not set for it yet.
def Pc.fresh : Pc → Nat
  | .marking _ => 1
  | _ => 0

end Rwlock

-- struct rwlock with its threads: who holds the pthread lock, and the two fields.
structure Rwlock (Thread : Type) where
  writer : Option Thread
  readers : List Thread
  st_locked : Bool
  count_rdlocked : Nat
  pc : Thread → Rwlock.Pc

namespace Rwlock

inductive Action (Thread : Type) where
  | wrlock (t : Thread)
  | rdlock (t : Thread)
  | refused (t : Thread)
  | unlock (t : Thread)
  | access (t : Thread)

section
variable {Thread : Type} [DecidableEq Thread]

def rwlock_initialize_object : Rwlock Thread := ⟨none,[],false,0,fun _ => .idle⟩

def goto (lock : Rwlock Thread) (t : Thread) (pc : Pc) : Rwlock Thread :=
  {lock with pc := Function.update lock.pc t pc}

-- A uint32_t.
def increment (count : Nat) : Nat := (count + 1) % 2^32

def decrement (count : Nat) : Nat := if count = 0 then 2^32 - 1 else count - 1

-- How often a thread holds the lock: a read lock can be taken again.
def holds (lock : Rwlock Thread) (t : Thread) : Nat :=
  (if lock.writer = some t then 1 else 0) + lock.readers.count t

def pthread_rwlock_unlock (lock : Rwlock Thread) (t : Thread) : Rwlock Thread :=
  if lock.writer = some t then goto {lock with writer := none} t (.released false)
  else goto {lock with readers := lock.readers.erase t} t (.released true)

def access (lock : Rwlock Thread) (t : Thread) : Option (Rwlock Thread) :=
  match lock.pc t with
  | .marking read => some (goto {lock with st_locked := true} t (if read then .counting else .idle))
  | .counting => some (goto lock t (.adding lock.count_rdlocked))
  | .adding count => some (goto {lock with count_rdlocked := increment count} t .idle)
  | .unlocking => some (pthread_rwlock_unlock lock t)
  | .released _ => some (goto lock t (if 0 = lock.count_rdlocked then .clearing else .subtracting))
  | .subtracting => some (goto lock t (.lowering lock.count_rdlocked))
  | .lowering count => some (goto {lock with count_rdlocked := decrement count} t .testing)
  | .testing => some (goto lock t (if 0 = lock.count_rdlocked then .clearing else .idle))
  | .clearing => some (goto {lock with st_locked := false} t .idle)
  | .idle => none

-- A lock call waits, or tries, until the pthread call succeeds or gives up. Threads
-- only unlock what they hold.
def advance (lock : Rwlock Thread) : Action Thread → Option (Rwlock Thread)
  | .wrlock t =>
    if lock.pc t = .idle ∧ lock.writer = none ∧ lock.readers = [] then
      some (goto {lock with writer := some t} t (.marking false))
    else none
  | .rdlock t =>
    if lock.pc t = .idle ∧ lock.writer = none then
      some (goto {lock with readers := t :: lock.readers} t (.marking true))
    else none
  | .refused t => if lock.pc t = .idle then some lock else none
  | .unlock t =>
    if lock.pc t = .idle ∧ 0 < holds lock t then
      if true = lock.st_locked then some (goto lock t .unlocking) else some lock
    else none
  | .access t => access lock t

abbrev Step : Rwlock Thread → Action Thread → Rwlock Thread → Prop := Follows advance

-- What the call answers, when this step is its last.
def answer (m : Move (Rwlock Thread) (Action Thread)) : Option Int :=
  match m.action with
  | .refused _ => some CPLUS_FAIL
  | .unlock _ => if true = m.before.st_locked then none else some CPLUS_FAIL
  | .access t => if m.after.pc t = .idle then some CPLUS_SUCCESS else none
  | _ => none

-- Whenever no update is under way, the status says whether the lock is held.
def Honest (lock : Rwlock Thread) : Prop :=
  (∀ t, (lock.pc t).updating = false) → (lock.st_locked = true ↔ ∃ t, 0 < holds lock t)

-- An unlock does not fail, and gives up one hold of the lock.
def Unlocks (m : Move (Rwlock Thread) (Action Thread)) : Prop :=
  ∀ t, ((m.action = .unlock t ∨ m.action = .access t) → answer m ≠ some CPLUS_FAIL) ∧
    (m.action = .access t → m.before.pc t = .unlocking → holds m.after t + 1 = holds m.before t)

-- The thread has held the lock since before the last time it set st_locked.
def marked (lock : Rwlock Thread) (t : Thread) : Bool := (lock.pc t).fresh < holds lock t

-- The steps that go wrong: a count stored that has changed since it was read, the
-- unlock of a writer that finds a count, which is of readers that came after it, and
-- st_locked cleared under a thread that has set it and holds the lock.
def OrderlyAt (lock : Rwlock Thread) : Pc → Prop
  | .adding count => count = lock.count_rdlocked ∧ count + 1 < 2^32
  | .lowering count => count = lock.count_rdlocked
  | .released read => read = false → 0 = lock.count_rdlocked
  | .clearing => ∀ u, marked lock u = false
  | _ => True

def Orderly (lock : Rwlock Thread) : Action Thread → Prop
  | .access t => OrderlyAt lock (lock.pc t)
  | _ => True

instance [Fintype Thread] (lock : Rwlock Thread) : (pc : Pc) → Decidable (OrderlyAt lock pc)
  | .adding _ => inferInstanceAs (Decidable (_ ∧ _))
  | .lowering _ => inferInstanceAs (Decidable (_ = _))
  | .released _ => inferInstanceAs (Decidable (_ → _))
  | .clearing => inferInstanceAs (Decidable (∀ _, _))
  | .idle | .marking _ | .counting | .unlocking | .subtracting | .testing => inferInstanceAs (Decidable True)

instance [Fintype Thread] (lock : Rwlock Thread) (a : Action Thread) : Decidable (Orderly lock a) := by
  cases a <;> unfold Orderly <;> infer_instance

structure Truthful [Fintype Thread] (lock : Rwlock Thread) : Prop where
  exclusive : ∀ t, lock.writer = some t → lock.readers = []
  writing : ∀ t, lock.pc t = .marking false → lock.writer = some t
  reading : ∀ t, (lock.pc t).uncounted = true → t ∈ lock.readers
  held : ∀ t, lock.pc t = .unlocking → 0 < holds lock t
  count : lock.count_rdlocked + Transition.count (fun pc => pc.uncounted = true) lock.pc =
    lock.readers.length + Transition.count (fun pc => pc.counted = true) lock.pc
  marks : ∀ t, marked lock t = true → lock.st_locked = true
  clears : lock.st_locked = true →
    (∃ t, 0 < holds lock t) ∨ ∃ t, (lock.pc t).releasing = true

@[simp] theorem goto_pc (lock : Rwlock Thread) (t u : Thread) (pc : Pc) :
    (goto lock t pc).pc u = if u = t then pc else lock.pc u := by
  simp [goto,Function.update_apply]

@[simp] theorem goto_holds (lock : Rwlock Thread) (t u : Thread) (pc : Pc) :
    holds (goto lock t pc) u = holds lock u := rfl

theorem holds_writer {lock : Rwlock Thread} {t : Thread} (writes : lock.writer = some t) :
    0 < holds lock t := by
  rw [holds,if_pos writes]
  omega

theorem holds_reader {lock : Rwlock Thread} {t : Thread} (reads : t ∈ lock.readers) : 0 < holds lock t := by
  have present := List.count_pos_iff.mpr reads
  unfold holds
  omega

theorem increment_spec {count : Nat} (room : count + 1 < 2^32) : increment count = count + 1 :=
  Nat.mod_eq_of_lt room

theorem decrement_spec {count : Nat} (positive : 0 < count) : decrement count = count - 1 :=
  if_neg (Nat.ne_of_gt positive)

theorem marked_of {lock : Rwlock Thread} {t : Thread} (held : 0 < holds lock t)
    (settled : (lock.pc t).fresh = 0) : marked lock t = true := by
  rw [marked,settled]
  exact decide_eq_true held

theorem ite_toNat (b : Bool) : (if b = true then 1 else 0) = b.toNat := by cases b <;> rfl

variable {lock next : Rwlock Thread} {t u : Thread}

variable [Fintype Thread]

theorem initial_truthful : Truthful (rwlock_initialize_object : Rwlock Thread) where
  exclusive := nofun
  writing := nofun
  reading := nofun
  held := nofun
  count := rfl
  marks t := by simp [marked,holds,rwlock_initialize_object]
  clears := nofun

-- Fewer threads are counting up than there are read locks.
theorem Truthful.uncounted_le (truthful : Truthful lock) :
    Transition.count (fun pc => pc.uncounted = true) lock.pc ≤ lock.readers.length := by
  have inside : (Finset.univ.filter fun t => (lock.pc t).uncounted = true) ⊆ lock.readers.toFinset := by
    intro t member
    exact List.mem_toFinset.mpr (truthful.reading t (by simpa using member))
  exact (Finset.card_le_card inside).trans (List.toFinset_card_le _)

theorem Truthful.counted_pos (truthful : Truthful lock) (counted : (lock.pc t).counted = true) :
    0 < lock.count_rdlocked := by
  have room := truthful.uncounted_le
  have count := truthful.count
  have here : 0 < Transition.count (fun pc => pc.counted = true) lock.pc :=
    Finset.card_pos.mpr ⟨t,by simpa using counted⟩
  omega

-- A count that is not 0 belongs to a read lock, or to one being given up.
theorem Truthful.counted (truthful : Truthful lock) (positive : lock.count_rdlocked ≠ 0) :
    (∃ t, 0 < holds lock t) ∨ ∃ t, (lock.pc t).counted = true := by
  cases readers : lock.readers with
  | cons t rest =>
    left
    refine ⟨t,?_⟩
    have here : 0 < lock.readers.count t := List.count_pos_iff.mpr (by simp [readers])
    unfold holds
    omega
  | nil =>
    right
    have count := truthful.count
    rw [readers,List.length_nil] at count
    have here : 0 < Transition.count (fun pc => pc.counted = true) lock.pc := by omega
    obtain ⟨t,member⟩ := Finset.card_pos.mp here
    exact ⟨t,by simpa using member⟩

-- What one thread's step must see to. The others keep their place, and their holds.
structure Goes (lock next : Rwlock Thread) (t : Thread) (pc : Pc) : Prop where
  place : next.pc = Function.update lock.pc t pc
  others : ∀ u, u ≠ t → (next.writer = some u ↔ lock.writer = some u) ∧
    next.readers.count u = lock.readers.count u
  exclusive : ∀ u, next.writer = some u → next.readers = []
  writing : pc = .marking false → next.writer = some t
  reading : pc.uncounted = true → t ∈ next.readers
  held : pc = .unlocking → 0 < holds next t
  count : next.count_rdlocked + lock.readers.length + pc.uncounted.toNat + (lock.pc t).counted.toNat =
    lock.count_rdlocked + next.readers.length + (lock.pc t).uncounted.toNat + pc.counted.toNat
  marks : pc.fresh < holds next t → next.st_locked = true
  marked : ∀ u, u ≠ t → marked lock u = true → next.st_locked = true
  clears : next.st_locked = true → (∃ u, 0 < holds next u) ∨ ∃ u, (next.pc u).releasing = true

omit [Fintype Thread] in
theorem Goes.pc {pc : Pc} (goes : Goes lock next t pc) (u : Thread) :
    next.pc u = if u = t then pc else lock.pc u := by
  rw [goes.place,Function.update_apply]

omit [Fintype Thread] in
theorem Goes.holds {pc : Pc} (goes : Goes lock next t pc) (other : u ≠ t) : holds next u = holds lock u := by
  obtain ⟨writer,readers⟩ := goes.others u other
  simp only [Rwlock.holds,writer,readers]

theorem Goes.truthful {pc : Pc} (goes : Goes lock next t pc) (truthful : Truthful lock) : Truthful next where
  exclusive := goes.exclusive
  writing u here := by
    rw [goes.pc] at here
    by_cases same : u = t
    · subst same
      exact goes.writing (by simpa using here)
    · exact (goes.others u same).1.mpr (truthful.writing u (by simpa [same] using here))
  reading u here := by
    rw [goes.pc] at here
    by_cases same : u = t
    · subst same
      exact goes.reading (by simpa using here)
    · apply List.count_pos_iff.mp
      rw [(goes.others u same).2]
      exact List.count_pos_iff.mpr (truthful.reading u (by simpa [same] using here))
  held u here := by
    rw [goes.pc] at here
    by_cases same : u = t
    · subst same
      exact goes.held (by simpa using here)
    · rw [goes.holds same]
      exact truthful.held u (by simpa [same] using here)
  count := by
    have less := count_update (fun pc : Pc => pc.uncounted = true) lock.pc t pc
    have more := count_update (fun pc : Pc => pc.counted = true) lock.pc t pc
    have total := truthful.count
    have step := goes.count
    simp only [ite_toNat] at less more
    rw [goes.place]
    omega
  marks u here := by
    by_cases same : u = t
    · subst same
      apply goes.marks
      simpa [Rwlock.marked,goes.pc] using here
    · apply goes.marked u same
      simpa [Rwlock.marked,goes.pc,same,goes.holds same] using here
  clears := goes.clears

-- The thread goes on, the lock and its fields as they are.
omit [Fintype Thread] in
theorem goes_on {pc : Pc} (exclusive : ∀ u, lock.writer = some u → lock.readers = [])
    (marks : ∀ u, marked lock u = true → lock.st_locked = true) (writing : pc ≠ .marking false)
    (reading : pc.uncounted = true → t ∈ lock.readers) (held : pc = .unlocking → 0 < holds lock t)
    (uncounted : pc.uncounted = (lock.pc t).uncounted) (counted : pc.counted = (lock.pc t).counted)
    (fresh : (lock.pc t).fresh ≤ pc.fresh)
    (clears : lock.st_locked = true → (∃ u, 0 < holds lock u) ∨ pc.releasing = true ∨
      ∃ u, u ≠ t ∧ (lock.pc u).releasing = true) : Goes lock (goto lock t pc) t pc where
  place := rfl
  others _ _ := ⟨.rfl,rfl⟩
  exclusive := exclusive
  writing here := absurd here writing
  reading := reading
  held := held
  count := by
    show lock.count_rdlocked + _ + _ + _ = lock.count_rdlocked + lock.readers.length + _ + _
    rw [uncounted,counted]
  marks here := marks t (by simpa [marked] using Nat.lt_of_le_of_lt fresh here)
  marked u _ here := marks u here
  clears locked := by
    rcases clears locked with holder | releasing | ⟨u,other,releasing⟩
    · exact .inl holder
    · exact .inr ⟨t,by simpa using releasing⟩
    · exact .inr ⟨u,by simpa [other] using releasing⟩

omit [Fintype Thread] in
theorem wrlock_goes (idle : lock.pc t = .idle) (free : lock.writer = none) (empty : lock.readers = []) :
    Goes lock (goto {lock with writer := some t} t (.marking false)) t (.marking false) where
  place := rfl
  others u other := by simp [goto,free,Ne.symm other]
  exclusive _ _ := empty
  writing _ := rfl
  reading := nofun
  held := nofun
  count := by simp [goto,idle,Pc.uncounted,Pc.counted]
  marks here := by simp [Pc.fresh,holds,goto,empty] at here
  marked u other here := by simp [marked,holds,free,empty] at here
  clears _ := .inl ⟨t,holds_writer rfl⟩

omit [Fintype Thread] in
theorem rdlock_goes (marks : ∀ u, marked lock u = true → lock.st_locked = true) (idle : lock.pc t = .idle)
    (free : lock.writer = none) :
    Goes lock (goto {lock with readers := t :: lock.readers} t (.marking true)) t (.marking true) where
  place := rfl
  others u other := by simp [goto,List.count_cons_of_ne (Ne.symm other)]
  exclusive u here := by simp [goto,free] at here
  writing := nofun
  reading _ := List.mem_cons_self
  held := nofun
  count := by
    simp only [goto,idle,Pc.uncounted,Pc.counted,List.length_cons,Bool.toNat_true,Bool.toNat_false]
    omega
  marks here := by
    apply marks t
    apply marked_of
    · simp only [Pc.fresh,holds,goto,List.count_cons_self,free,reduceCtorEq,if_false] at here ⊢
      omega
    · rw [idle]
      rfl
  marked u _ here := marks u here
  clears _ := .inl ⟨t,holds_reader List.mem_cons_self⟩

omit [Fintype Thread] in
theorem marking_goes {read : Bool} (exclusive : ∀ u, lock.writer = some u → lock.readers = [])
    (held : 0 < holds lock t) (member : read = true → t ∈ lock.readers) (marking : lock.pc t = .marking read) :
    Goes lock (goto {lock with st_locked := true} t (if read then .counting else .idle)) t
      (if read then .counting else .idle) where
  place := rfl
  others _ _ := ⟨.rfl,rfl⟩
  exclusive := exclusive
  writing := by cases read <;> nofun
  reading := by cases read with
    | false => nofun
    | true => exact fun _ => member rfl
  held := by cases read <;> nofun
  count := by cases read <;> simp [goto,marking,Pc.uncounted,Pc.counted]
  marks _ := rfl
  marked _ _ _ := rfl
  clears _ := .inl ⟨t,held⟩

omit [Fintype Thread] in
theorem adding_goes {count : Nat} (exclusive : ∀ u, lock.writer = some u → lock.readers = [])
    (marks : ∀ u, marked lock u = true → lock.st_locked = true) (member : t ∈ lock.readers)
    (adding : lock.pc t = .adding count) (fresh : count = lock.count_rdlocked) (room : count + 1 < 2^32) :
    Goes lock (goto {lock with count_rdlocked := increment count} t .idle) t .idle where
  place := rfl
  others _ _ := ⟨.rfl,rfl⟩
  exclusive := exclusive
  writing := nofun
  reading := nofun
  held := nofun
  count := by
    simp only [goto,adding,Pc.uncounted,Pc.counted,Bool.toNat_true,Bool.toNat_false,increment_spec room]
    omega
  marks here := marks t (marked_of here (by rw [adding]; rfl))
  marked u _ here := marks u here
  clears _ := .inl ⟨t,holds_reader member⟩

omit [Fintype Thread] in
theorem lowering_goes {count : Nat} (exclusive : ∀ u, lock.writer = some u → lock.readers = [])
    (marks : ∀ u, marked lock u = true → lock.st_locked = true) (lowering : lock.pc t = .lowering count)
    (fresh : count = lock.count_rdlocked) (positive : 0 < count) :
    Goes lock (goto {lock with count_rdlocked := decrement count} t .testing) t .testing where
  place := rfl
  others _ _ := ⟨.rfl,rfl⟩
  exclusive := exclusive
  writing := nofun
  reading := nofun
  held := nofun
  count := by
    have lowered := decrement_spec positive
    simp only [goto,lowering,Pc.uncounted,Pc.counted,Bool.toNat_true,Bool.toNat_false,lowered]
    omega
  marks here := marks t (marked_of here (by rw [lowering]; rfl))
  marked u _ here := marks u here
  clears _ := .inr ⟨t,by simp [Pc.releasing]⟩

omit [Fintype Thread] in
theorem clearing_goes (exclusive : ∀ u, lock.writer = some u → lock.readers = [])
    (clearing : lock.pc t = .clearing) (alone : ∀ u, marked lock u = false) :
    Goes lock (goto {lock with st_locked := false} t .idle) t .idle where
  place := rfl
  others _ _ := ⟨.rfl,rfl⟩
  exclusive := exclusive
  writing := nofun
  reading := nofun
  held := nofun
  count := by simp [goto,clearing,Pc.uncounted,Pc.counted]
  marks here := by
    have none := alone t
    simp only [marked,clearing,decide_eq_false_iff_not] at none
    exact absurd here none
  marked u _ here := by simp [alone u] at here
  clears := nofun

-- pthread_rwlock_unlock gives up one hold of its thread.
omit [Fintype Thread] in
theorem unlocking_goes (exclusive : ∀ u, lock.writer = some u → lock.readers = [])
    (marks : ∀ u, marked lock u = true → lock.st_locked = true) (unlocking : lock.pc t = .unlocking)
    (held : 0 < holds lock t) :
    ∃ read, Goes lock (pthread_rwlock_unlock lock t) t (.released read) ∧
      holds (pthread_rwlock_unlock lock t) t + 1 = holds lock t := by
  unfold pthread_rwlock_unlock
  by_cases writes : lock.writer = some t
  · have empty := exclusive t writes
    rw [if_pos writes]
    refine ⟨false,⟨rfl,?_,nofun,nofun,nofun,nofun,?_,?_,?_,?_⟩,?_⟩
    · intro u other
      simp [goto,writes,Ne.symm other]
    · simp [goto,unlocking,Pc.uncounted,Pc.counted]
    · intro here
      simp [holds,goto,empty] at here
    · intro u _ here
      exact marks u here
    · exact fun _ => .inr ⟨t,by simp [Pc.releasing]⟩
    · simp [holds,goto,writes,empty]
  · have present : 0 < lock.readers.count t := by simpa [holds,writes] using held
    have member := List.count_pos_iff.mp present
    have shorter := List.length_erase_of_mem member
    have longer := List.length_pos_of_mem member
    rw [if_neg writes]
    refine ⟨true,⟨rfl,?_,?_,nofun,nofun,nofun,?_,?_,?_,?_⟩,?_⟩
    · intro u other
      exact ⟨.rfl,List.count_erase_of_ne other⟩
    · intro u here
      have empty := exclusive u here
      simp [empty] at member
    · simp only [goto,unlocking,Pc.uncounted,Pc.counted,shorter,Bool.toNat_true,Bool.toNat_false]
      omega
    · intro _
      exact marks t (marked_of held (by rw [unlocking]; rfl))
    · intro u _ here
      exact marks u here
    · exact fun _ => .inr ⟨t,by simp [Pc.releasing]⟩
    · simp only [holds,goto,writes,if_false,List.count_erase_self]
      omega

theorem counted_releasing {pc : Pc} (counted : pc.counted = true) : pc.releasing = true := by
  cases pc with
  | released read => rfl
  | subtracting | lowering _ => rfl
  | _ => cases counted

-- Two places with the same standing towards the lock and the count.
structure Alongside (old pc : Pc) : Prop where
  writing : pc ≠ .marking false
  uncounted : pc.uncounted = old.uncounted
  counted : pc.counted = old.counted
  fresh : old.fresh = pc.fresh

theorem Truthful.on {old pc : Pc} (truthful : Truthful lock) (place : lock.pc t = old)
    (alongside : Alongside old pc) (held : pc = .unlocking → 0 < holds lock t)
    (clears : lock.st_locked = true → (∃ u, 0 < holds lock u) ∨ pc.releasing = true ∨
      ∃ u, u ≠ t ∧ (lock.pc u).releasing = true) : Truthful (goto lock t pc) := by
  obtain ⟨writing,uncounted,counted,fresh⟩ := alongside
  rw [← place] at uncounted counted fresh
  refine (goes_on truthful.exclusive truthful.marks writing ?_ held uncounted counted fresh.le
    clears).truthful truthful
  intro here
  exact truthful.reading t (uncounted ▸ here)

-- A thread that is not releasing leaves what is to be cleared to the others.
theorem Truthful.elsewhere (truthful : Truthful lock) (quiet : (lock.pc t).releasing = false)
    (locked : lock.st_locked = true) :
    (∃ u, 0 < holds lock u) ∨ ∃ u, u ≠ t ∧ (lock.pc u).releasing = true := by
  rcases truthful.clears locked with holder | ⟨u,releasing⟩
  · exact .inl holder
  · refine .inr ⟨u,?_,releasing⟩
    rintro rfl
    rw [quiet] at releasing
    cases releasing

theorem access_truthful (truthful : Truthful lock) (orderly : OrderlyAt lock (lock.pc t))
    (taken : access lock t = some next) : Truthful next := by
  unfold access at taken
  cases place : lock.pc t with
  | idle => simp [place] at taken
  | marking read =>
    simp only [place,Option.some.injEq] at taken
    subst taken
    have member : read = true → t ∈ lock.readers := by
      rintro rfl
      exact truthful.reading t (by rw [place]; rfl)
    have held : 0 < holds lock t := by
      cases read with
      | false => exact holds_writer (truthful.writing t place)
      | true => exact holds_reader (member rfl)
    exact (marking_goes truthful.exclusive held member place).truthful truthful
  | counting =>
    simp only [place,Option.some.injEq] at taken
    subst taken
    refine truthful.on place ⟨nofun,rfl,rfl,rfl⟩ nofun ?_
    intro locked
    exact (truthful.elsewhere (by rw [place]; rfl) locked).imp_right .inr
  | adding count =>
    simp only [place,Option.some.injEq] at taken
    rw [place] at orderly
    subst taken
    have member := truthful.reading t (by rw [place]; rfl)
    exact (adding_goes truthful.exclusive truthful.marks member place orderly.1 orderly.2).truthful truthful
  | unlocking =>
    simp only [place,Option.some.injEq] at taken
    subst taken
    obtain ⟨read,goes,_⟩ := unlocking_goes truthful.exclusive truthful.marks place (truthful.held t place)
    exact goes.truthful truthful
  | released read =>
    simp only [place,Option.some.injEq] at taken
    rw [place] at orderly
    subst taken
    cases read with
    | false =>
      rw [if_pos (orderly rfl)]
      exact truthful.on place ⟨nofun,rfl,rfl,rfl⟩ nofun fun _ => .inr (.inl rfl)
    | true =>
      have positive := truthful.counted_pos (t := t) (by rw [place]; rfl)
      rw [if_neg (Nat.ne_of_lt positive)]
      exact truthful.on place ⟨nofun,rfl,rfl,rfl⟩ nofun fun _ => .inr (.inl rfl)
  | subtracting =>
    simp only [place,Option.some.injEq] at taken
    subst taken
    exact truthful.on place ⟨nofun,rfl,rfl,rfl⟩ nofun fun _ => .inr (.inl rfl)
  | lowering count =>
    simp only [place,Option.some.injEq] at taken
    rw [place] at orderly
    subst taken
    have positive := truthful.counted_pos (t := t) (by rw [place]; rfl)
    have fresh : count = lock.count_rdlocked := orderly
    exact (lowering_goes truthful.exclusive truthful.marks place fresh (fresh ▸ positive)).truthful truthful
  | testing =>
    simp only [place,Option.some.injEq] at taken
    subst taken
    by_cases zero : 0 = lock.count_rdlocked
    · rw [if_pos zero]
      exact truthful.on place ⟨nofun,rfl,rfl,rfl⟩ nofun fun _ => .inr (.inl rfl)
    · rw [if_neg zero]
      refine truthful.on place ⟨nofun,rfl,rfl,rfl⟩ nofun ?_
      intro _
      rcases truthful.counted (Ne.symm zero) with holder | ⟨u,counted⟩
      · exact .inl holder
      · refine .inr (.inr ⟨u,?_,counted_releasing counted⟩)
        rintro rfl
        rw [place] at counted
        cases counted
  | clearing =>
    simp only [place,Option.some.injEq] at taken
    rw [place] at orderly
    subst taken
    exact (clearing_goes truthful.exclusive place orderly).truthful truthful

theorem step_truthful {a : Action Thread} (truthful : Truthful lock) (taken : Step lock a next)
    (orderly : Orderly lock a) : Truthful next := by
  unfold Step Follows advance at taken
  cases a with
  | wrlock t =>
    simp only at taken
    split at taken
    · rename_i guard
      cases taken
      exact (wrlock_goes guard.1 guard.2.1 guard.2.2).truthful truthful
    · cases taken
  | rdlock t =>
    simp only at taken
    split at taken
    · rename_i guard
      cases taken
      exact (rdlock_goes truthful.marks guard.1 guard.2).truthful truthful
    · cases taken
  | refused t =>
    simp only at taken
    split at taken
    · cases taken
      exact truthful
    · cases taken
  | unlock t =>
    simp only at taken
    split at taken
    · rename_i guard
      split at taken
      · cases taken
        refine truthful.on guard.1 ⟨nofun,rfl,rfl,rfl⟩ (fun _ => guard.2) ?_
        intro locked
        exact (truthful.elsewhere (by rw [guard.1]; rfl) locked).imp_right .inr
      · cases taken
        exact truthful
    · cases taken
  | access t => exact access_truthful truthful orderly taken

theorem Truthful.honest (truthful : Truthful lock) : Honest lock := by
  intro quiet
  constructor
  · intro locked
    rcases truthful.clears locked with holder | ⟨t,releasing⟩
    · exact holder
    · have none := quiet t
      cases place : lock.pc t <;> simp [place,Pc.releasing,Pc.updating] at releasing none
  · rintro ⟨t,held⟩
    apply truthful.marks t
    apply marked_of held
    have none := quiet t
    cases place : lock.pc t with
    | marking read => simp [place,Pc.updating] at none
    | _ => rfl

theorem unlocks {m : Move (Rwlock Thread) (Action Thread)} (truthful : Truthful m.before)
    (taken : Step m.before m.action m.after) : Unlocks m := by
  intro t
  constructor
  · rintro (unlocks | accesses)
    · simp only [Step,Follows,unlocks,advance] at taken
      split at taken
      · rename_i guard
        have locked := truthful.marks t (marked_of guard.2 (by rw [guard.1]; rfl))
        simp [answer,unlocks,locked]
      · cases taken
    · simp only [answer,accesses]
      split <;> simp [CPLUS_SUCCESS,CPLUS_FAIL]
  · intro accesses place
    simp only [Step,Follows,accesses,advance,access,place,Option.some.injEq] at taken
    rw [← taken]
    obtain ⟨_,_,less⟩ := unlocking_goes truthful.exclusive truthful.marks place (truthful.held t place)
    exact less

theorem status_truthful {moves : List (Move (Rwlock Thread) (Action Thread))}
    (run : Run Step rwlock_initialize_object moves lock) (orderly : Meets Orderly moves) :
    Honest lock ∧ Throughout Honest moves ∧ ∀ m ∈ moves, Unlocks m := by
  have kept := run.keeps Orderly initial_truthful step_truthful orderly
  refine ⟨kept.1.honest,kept.2.imp fun _ truthful => truthful.honest,fun m member => ?_⟩
  obtain ⟨truthful,taken⟩ := run.each Orderly initial_truthful step_truthful orderly m member
  exact unlocks truthful taken

end

-- Two readers overlap, and a writer comes after them.
def readers_then_writer : List (Action Bool) :=
  [.rdlock false,.access false,.access false,.access false,.rdlock true,.access true,.access true,.access true,
   .unlock false,.access false,.access false,.access false,.access false,.access false,
   .refused false,.unlock true,.access true,.access true,.access true,.access true,.access true,.access true,
   .wrlock false,.access false,.unlock false,.access false,.access false,.access false]

theorem readers_then_writer_truthful : ∃ moves, ∃ lock : Rwlock Bool,
    Run Step rwlock_initialize_object moves lock ∧ moves.map Move.action = readers_then_writer ∧
      Honest lock ∧ Throughout Honest moves ∧ ∀ m ∈ moves, Unlocks m := by
  obtain ⟨moves,lock,run,same,checked⟩ := Run.of_check advance (rwlock_initialize_object : Rwlock Bool)
    readers_then_writer (fun result => decide (Meets Orderly result.1)) (by decide +kernel)
  exact ⟨moves,lock,run,same,status_truthful run (of_decide_eq_true checked)⟩

-- One writer has unlocked and the next has locked when the first clears the status.
def writer_after_writer : List (Action Bool) :=
  [.wrlock false,.access false,.unlock false,.access false,.wrlock true,.access true,.access false,.access false,
   .unlock true]

theorem writer_after_writer_dishonest :
    ¬ ∀ moves, ∀ lock : Rwlock Bool, Run Step rwlock_initialize_object moves lock →
      Honest lock ∧ ∀ m ∈ moves, Unlocks m := by
  intro claimed
  obtain ⟨moves,lock,run,_,checked⟩ := Run.of_check advance (rwlock_initialize_object : Rwlock Bool)
    writer_after_writer (fun result => decide ((∀ t, (result.2.pc t).updating = false) ∧
      result.2.st_locked = false ∧ 0 < holds result.2 true)) (by decide +kernel)
  obtain ⟨quiet,unlocked,held⟩ := of_decide_eq_true checked
  have locked := ((claimed moves lock run).1 quiet).mpr ⟨true,held⟩
  rw [unlocked] at locked
  cases locked

end Rwlock
end Libcplus
