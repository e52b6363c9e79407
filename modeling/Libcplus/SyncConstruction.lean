import Libcplus.Ownership

-- The objects of mutex.c, pevent.c and rwlock.c, with what they acquire and release.
namespace Libcplus.SyncConstruction
open Ownership Program

inductive Kind where
  | block
  | region
  | attr
  | mutex
  | cond
  | rwlock
  deriving DecidableEq

-- An assertion that fails, and a destroy of something that was never initialised.
inductive Fault where
  | assertion
  | uninitialised
  deriving DecidableEq

abbrev Making (α : Type) := Prog (Ledger Kind) Fault α

def cplus_malloc (granted : Bool) : Making (Option Nat) := acquire granted .block

def cplus_free (block : Nat) : Making Unit := release block

inductive INIT_MODE where
  | INIT_NONE
  | INIT_CREATE
  | INIT_OPEN
  | INIT_HYBRID
  deriving DecidableEq

structure Region where
  number : Nat
  is_owner : Bool
  deriving DecidableEq

-- `found` is that cplus_sharedmem_new opens what is there already.
structure RegionOutcome where
  granted : Bool
  found : Bool

def INIT_MODE.owner (o : RegionOutcome) : INIT_MODE → Bool
  | .INIT_CREATE => true
  | .INIT_HYBRID => !o.found
  | _ => false

-- The switch over the mode, which gives nothing for INIT_NONE. What is mapped is not null.
def shared_mem (mode : INIT_MODE) (o : RegionOutcome) : Making (Option Region) := do
  let number ← acquire (mode ≠ .INIT_NONE && o.granted) .region
  return number.map fun number => ⟨number,mode.owner o⟩

def cplus_sharedmem_delete (region : Region) : Making Unit := release region.number

-- A pthread object, none if it was not initialised here.
def destroy : Option Nat → Making Unit
  | some number => release number
  | none => throw .uninitialised

-- The part of each delete for the shared memory, in which only the owner destroys.
def delete_shared (shared_mem : Option Region) (destroys : Making Unit) : Making Unit :=
  match shared_mem with
  | some region => do
    (if region.is_owner then destroys else pure ())
    cplus_sharedmem_delete region
  | none => destroys

structure Mutex where
  block : Nat
  mutex : Option (Option Nat)
  shared_mem : Option Region
  deriving DecidableEq

structure MutexOutcome where
  block : Bool
  printed : Bool
  region : RegionOutcome
  attr : Bool
  pshared : Bool
  mutex : Bool

def cplus_mutex_delete (mtx : Mutex) : Making Unit := do
  delete_shared mtx.shared_mem (whenSome destroy mtx.mutex)
  cplus_free mtx.block

-- The label exit.
def no_mutex (mtx : Mutex) : Making (Option Mutex) := do
  cplus_mutex_delete mtx
  return none

-- The attributes are destroyed when something fails.
def init_shared_mutex (o : MutexOutcome) (block : Nat) (region : Region) : Making (Option Mutex) :=
  demand (acquire o.attr .attr) (no_mutex ⟨block,none,some region⟩) fun attr =>
    demand (if o.pshared then acquire o.mutex .mutex else return none) (do
      release attr
      no_mutex ⟨block,none,some region⟩) fun mutex => return some ⟨block,some (some mutex),some region⟩

def mutex_initialize_object (o : MutexOutcome) (named : Bool) (mode : INIT_MODE) : Making (Option Mutex) :=
  demand (cplus_malloc o.block) (return none) fun block =>
    if named then
      if o.printed then
        demand (shared_mem mode o.region) (no_mutex ⟨block,none,none⟩) fun region =>
          if region.is_owner then init_shared_mutex o block region else return some ⟨block,some none,some region⟩
      else no_mutex ⟨block,none,none⟩
    else demand (acquire o.mutex .mutex) (no_mutex ⟨block,none,none⟩) fun mutex => return some ⟨block,some (some mutex),none⟩

structure Pevent where
  block : Nat
  ptr_mutex : Option (Option Nat)
  ptr_cond : Option (Option Nat)
  shared_mem : Option Region
  deriving DecidableEq

structure PeventOutcome where
  block : Bool
  printed : Bool
  region : RegionOutcome
  mutexattr : Bool
  mutex_pshared : Bool
  mutex : Bool
  condattr : Bool
  setclock : Bool
  cond_pshared : Bool
  cond : Bool

def cplus_pevent_delete (evt : Pevent) : Making Unit := do
  delete_shared evt.shared_mem do
    whenSome destroy evt.ptr_mutex
    whenSome destroy evt.ptr_cond
  cplus_free evt.block

def no_event (evt : Pevent) : Making (Option Pevent) := do
  cplus_pevent_delete evt
  return none

-- The condition variable, in shared memory or not; what is left when it fails has no
-- pointer to the mutex yet.
def init_cond (o : PeventOutcome) (block mutex : Nat) (region : Option Region) : Making (Option Pevent) :=
  demand (acquire o.condattr .attr) (no_event ⟨block,none,none,region⟩) fun attr =>
    demand (if o.setclock && (region.isNone || o.cond_pshared) then acquire o.cond .cond else return none) (do
      release attr
      no_event ⟨block,none,none,region⟩) fun cond => do
        release attr
        return some ⟨block,some (some mutex),some (some cond),region⟩

def init_shared_pevent (o : PeventOutcome) (block : Nat) (region : Region) : Making (Option Pevent) :=
  demand (acquire o.mutexattr .attr) (no_event ⟨block,none,none,some region⟩) fun attr =>
    demand (if o.mutex_pshared then acquire o.mutex .mutex else return none) (do
      release attr
      no_event ⟨block,none,none,some region⟩) fun mutex => do
        release attr
        init_cond o block mutex (some region)

-- That a status sets the event changes nothing here.
def pevent_initialize_object (o : PeventOutcome) (named : Bool) (mode : INIT_MODE) : Making (Option Pevent) :=
  demand (cplus_malloc o.block) (return none) fun block =>
    if named then
      if o.printed then
        demand (shared_mem mode o.region) (no_event ⟨block,none,none,none⟩) fun region =>
          if region.is_owner then init_shared_pevent o block region
          else return some ⟨block,some none,some none,some region⟩
      else no_event ⟨block,none,none,none⟩
    else demand (acquire o.mutex .mutex) (no_event ⟨block,none,none,none⟩) fun mutex => init_cond o block mutex none

inductive CPLUS_RWLOCK_MODE where
  | MODE_NONE
  | MODE_CREATE
  | MODE_OPEN
  | MODE_HYBRID
  | MODE_MAX
  deriving DecidableEq

inductive CPLUS_RWLOCK_KIND where
  | KIND_NONE
  | KIND_PREFER_READER
  | KIND_PREFER_WRITER
  | KIND_PREFER_WRITER_NONRECURSIVE
  | KIND_MAX
  deriving DecidableEq

inductive PTHREAD_RWLOCK_KIND where
  | PREFER_READER_NP
  | PREFER_WRITER_NP
  | PREFER_WRITER_NONRECURSIVE_NP
  deriving DecidableEq

def convert_rwlock_kind : CPLUS_RWLOCK_KIND → PTHREAD_RWLOCK_KIND
  | .KIND_PREFER_WRITER => .PREFER_WRITER_NP
  | .KIND_PREFER_WRITER_NONRECURSIVE => .PREFER_WRITER_NONRECURSIVE_NP
  | _ => .PREFER_READER_NP

structure RwlockConfig where
  name : Bool
  mode : CPLUS_RWLOCK_MODE
  kind : CPLUS_RWLOCK_KIND

-- The attributes with their defaults.
structure Attr where
  number : Nat
  kind : PTHREAD_RWLOCK_KIND
  pshared : Bool
  deriving DecidableEq

-- `kind` and `pshared` are what the lock was initialised with.
structure Rwlock where
  block : Nat
  rwlock : Option Nat
  kind : PTHREAD_RWLOCK_KIND
  pshared : Bool
  shared_mem : Option Region
  deriving DecidableEq

structure RwlockOutcome where
  block : Bool
  kind_attr : Bool
  setkind : Bool
  printed : Bool
  region : RegionOutcome
  shared_attr : Bool
  pshared : Bool
  rwlock : Bool

-- The pointer to the lock is never null, but to the one in the object before there is
-- another.
def cplus_rwlock_delete : Option Rwlock → Making Unit
  | none => throw .assertion
  | some lock => do
    delete_shared lock.shared_mem (destroy lock.rwlock)
    cplus_free lock.block

def destroy_attr (attr : Option Attr) : Making Unit := whenSome (fun attr => release attr.number) attr

def no_lock (attr : Option Attr) (lock : Option Rwlock) : Making (Option Rwlock) := do
  destroy_attr attr
  cplus_rwlock_delete lock
  return none

def fresh (block : Nat) (shared_mem : Option Region) : Rwlock := ⟨block,none,.PREFER_READER_NP,false,shared_mem⟩

def rwlockattr_init (granted : Bool) : Making (Option Attr) := do
  let number ← acquire granted .attr
  return number.map fun number => ⟨number,.PREFER_READER_NP,false⟩

def init_lock (o : RwlockOutcome) (attr : Option Attr) (block : Nat) (region : Option Region) : Making (Option Rwlock) :=
  demand (acquire o.rwlock .rwlock) (no_lock attr (some (fresh block region))) fun rwlock => do
    destroy_attr attr
    return some ⟨block,some rwlock,attr.elim .PREFER_READER_NP Attr.kind,attr.elim false Attr.pshared,region⟩

-- The attributes that there are, or else new ones.
def attributes (o : RwlockOutcome) : Option Attr → Making (Option Attr)
  | some attr => return some attr
  | none => rwlockattr_init o.shared_attr

def init_shared_lock (o : RwlockOutcome) (attr : Option Attr) (block : Nat) (region : Region) : Making (Option Rwlock) := do
  match ← attributes o attr with
  | none => init_lock o none block (some region)
  | some attr =>
    if o.pshared then init_lock o (some {attr with pshared := true}) block (some region)
    else no_lock (some attr) (some (fresh block (some region)))

def CPLUS_RWLOCK_MODE.init_mode : CPLUS_RWLOCK_MODE → INIT_MODE
  | .MODE_CREATE => .INIT_CREATE
  | .MODE_OPEN => .INIT_OPEN
  | .MODE_HYBRID => .INIT_HYBRID
  | _ => .INIT_NONE

-- From the name on.
def name_lock (o : RwlockOutcome) (config : RwlockConfig) (block : Nat) (attr : Option Attr) : Making (Option Rwlock) :=
  if config.name && config.mode ≠ .MODE_NONE then
    if o.printed then
      demand (shared_mem config.mode.init_mode o.region) (no_lock attr (some (fresh block none))) fun region =>
        if region.is_owner then init_shared_lock o attr block region
        else do
          destroy_attr attr
          return some (fresh block (some region))
    else no_lock attr (some (fresh block none))
  else init_lock o attr block none

def rwlock_initialize_object (o : RwlockOutcome) (config : RwlockConfig) : Making (Option Rwlock) :=
  demand (cplus_malloc o.block) (no_lock none none) fun block => do
    if config.kind ≠ .KIND_MAX ∧ config.kind ≠ .KIND_NONE then do
      match ← rwlockattr_init o.kind_attr with
      | none => name_lock o config block none
      | some attr =>
        if o.setkind then name_lock o config block (some {attr with kind := convert_rwlock_kind config.kind})
        else no_lock (some attr) (some (fresh block none))
    else name_lock o config block none

def Region.owns (region : Region) : Multiset Nat := {region.number}

-- What is not the object's own to destroy is not counted.
def Mutex.owns (mtx : Mutex) : Multiset Nat :=
  ownedBy ({·}) mtx.mutex.join + (ownedBy Region.owns mtx.shared_mem + {mtx.block})

def Pevent.owns (evt : Pevent) : Multiset Nat :=
  (ownedBy ({·}) evt.ptr_mutex.join + ownedBy ({·}) evt.ptr_cond.join) + (ownedBy Region.owns evt.shared_mem + {evt.block})

def Rwlock.owns (lock : Rwlock) : Multiset Nat :=
  ownedBy ({·}) lock.rwlock + (ownedBy Region.owns lock.shared_mem + {lock.block})

-- The object does not destroy what is in its memory.
def Foreign (shared_mem : Option Region) : Prop := ∃ region, shared_mem = some region ∧ region.is_owner = false

-- What a pointer leads to was initialised here exactly when it is the object's own.
def Destroyable (shared_mem : Option Region) (object : Option (Option Nat)) : Prop :=
  ∀ place, object = some place → (place = none ↔ Foreign shared_mem)

variable {owned : Multiset Nat} {region : Option Region}

theorem shared_mem_passes (mode : INIT_MODE) (o : RegionOutcome) : Passes 0 (shared_mem mode o) fun region rest =>
    rest = ownedBy Region.owns region ∧ ((region.isSome = true ↔ mode ≠ .INIT_NONE ∧ o.granted = true) ∧
      ∀ r, region = some r → r.is_owner = mode.owner o) := by
  have acquired : Passes 0 (acquire (mode ≠ .INIT_NONE && o.granted) .region : Making (Option Nat)) _ := .acquire _ Kind.region
  apply acquired.bind
  rintro number _ ⟨rfl,refused⟩
  refine .pure _ ⟨?_,?_,?_⟩
  · cases number <;> rfl
  · cases number <;> simp_all
  · intro r made
    obtain ⟨n,_,rfl⟩ := Option.map_eq_some_iff.mp made
    rfl

theorem delete_shared_discharges {destroys : Making Unit} (own : ¬ Foreign region → Discharges owned destroys)
    (foreign : Foreign region → owned = 0) : Discharges (owned + ownedBy Region.owns region) (delete_shared region destroys) := by
  cases region with
  | none =>
    rw [ownedBy_none,add_zero]
    exact own fun ⟨_,there,_⟩ => by cases there
  | some region =>
    have released : Discharges (Region.owns region) (cplus_sharedmem_delete region) := .release region.number
    cases owner : region.is_owner with
    | true =>
      have discharges := own fun ⟨_,there,other⟩ => by cases there; rw [owner] at other; cases other
      unfold delete_shared
      simp only [owner,if_true]
      exact discharges.then released
    | false =>
      rw [foreign ⟨region,rfl,owner⟩,zero_add]
      unfold delete_shared
      simp only [owner]
      exact released

theorem destroy_discharges {object : Option (Option Nat)} (destroyable : Destroyable region object) (own : ¬ Foreign region) :
    Discharges (ownedBy ({·}) object.join) (whenSome destroy object) := by
  cases object with
  | none => exact .pure () rfl
  | some place =>
    cases place with
    | none => exact (own ((destroyable none rfl).mp rfl)).elim
    | some number => exact .release number

theorem foreign_owns {object : Option (Option Nat)} (destroyable : Destroyable region object) (foreign : Foreign region) :
    (ownedBy ({·}) object.join : Multiset Nat) = 0 := by
  cases object with
  | none => rfl
  | some place => rw [(destroyable place rfl).mpr foreign]; rfl

theorem mutex_deleted {mtx : Mutex} (destroyable : Destroyable mtx.shared_mem mtx.mutex) :
    Discharges mtx.owns (cplus_mutex_delete mtx) := by
  have shared := delete_shared_discharges (destroy_discharges destroyable) (foreign_owns destroyable)
  have freed : Discharges {mtx.block} (cplus_free mtx.block) := .release mtx.block
  have all := shared.then freed
  rwa [add_assoc] at all

theorem pevent_deleted {evt : Pevent} (mutex : Destroyable evt.shared_mem evt.ptr_mutex)
    (cond : Destroyable evt.shared_mem evt.ptr_cond) : Discharges evt.owns (cplus_pevent_delete evt) := by
  have shared : Discharges ((ownedBy ({·}) evt.ptr_mutex.join + ownedBy ({·}) evt.ptr_cond.join) +
      ownedBy Region.owns evt.shared_mem) (delete_shared evt.shared_mem _) :=
    delete_shared_discharges (fun own => (destroy_discharges mutex own).then (destroy_discharges cond own))
      fun foreign => by rw [foreign_owns mutex foreign,foreign_owns cond foreign,add_zero]
  have freed : Discharges {evt.block} (cplus_free evt.block) := .release evt.block
  have all := shared.then freed
  rwa [add_assoc] at all

theorem rwlock_deleted {lock : Rwlock} (destroyable : Destroyable lock.shared_mem (some lock.rwlock)) :
    Discharges lock.owns (cplus_rwlock_delete (some lock)) := by
  have shared : Discharges (ownedBy ({·}) (some lock.rwlock).join + _) (delete_shared lock.shared_mem (destroy lock.rwlock)) :=
    delete_shared_discharges (destroy_discharges destroyable) (foreign_owns destroyable)
  have freed : Discharges {lock.block} (cplus_free lock.block) := .release lock.block
  have all := shared.then freed
  rwa [add_assoc] at all

-- How a new ends: with an object exactly when `granted`, and exactly when `left` with
-- something that nobody will release.
def Leaves {β : Type} (owns : β → Multiset Nat) (such : β → Prop) (granted left : Prop) (made : Option β)
    (rest : Multiset Nat) : Prop :=
  ∃ extra : Option Nat, rest = ownedBy owns made + ownedBy ({·}) extra ∧ (made.isSome = true ↔ granted) ∧
    (extra.isSome = true ↔ left) ∧ ∀ b, made = some b → such b

section Leaves
variable {β : Type} {owns : β → Multiset Nat} {such : β → Prop} {granted left : Prop} {b : β}

theorem leaves_nothing (refused : ¬ granted) (clean : ¬ left) : Leaves owns such granted left none 0 :=
  ⟨none,rfl,by simp [refused],by simp [clean],fun _ there => by cases there⟩

theorem leaves_object (all : granted) (clean : ¬ left) (sound : such b) : Leaves owns such granted left (some b) (owns b) :=
  ⟨none,by simp,by simp [all],by simp [clean],fun _ there => by cases there; exact sound⟩

theorem leaves_both (all : granted) (left_ : left) (sound : such b) (number : Nat) :
    Leaves owns such granted left (some b) (owns b + {number}) :=
  ⟨some number,rfl,by simp [all],by simp [left_],fun _ there => by cases there; exact sound⟩

theorem leaves_extra (refused : ¬ granted) (left_ : left) (number : Nat) : Leaves owns such granted left none {number} :=
  ⟨some number,by simp,by simp [refused],by simp [left_],fun _ there => by cases there⟩

-- What is left over is so for good: the delete of what was made gives up the rest.
theorem leaves_deleted {prog : Making (Option β)} {delete : β → Making Unit} (passes : Passes 0 prog (Leaves owns such granted left))
    (deleted : ∀ b, such b → Discharges (owns b) (delete b)) : ∃ made t extra, prog opened = .ok (made,t) ∧
      (made.isSome = true ↔ granted) ∧ (extra.isSome = true ↔ left) ∧
      ∃ u, whenSome delete made t = .ok ((),u) ∧ Holds u (ownedBy ({·}) extra) := by
  obtain ⟨made,t,_,ran,⟨extra,rfl,decided,leftover,sound⟩,holds⟩ := passes opened 0 holds_opened
  have discharges : Discharges (ownedBy owns made) (whenSome delete made) := .whenSome fun b there => deleted b (sound b there)
  rw [add_zero] at holds
  obtain ⟨_,u,_,ended,rfl,remains⟩ := discharges t (ownedBy ({·}) extra) holds
  rw [zero_add] at remains
  exact ⟨made,t,extra,ran,decided,leftover,u,ended,remains⟩

end Leaves

-- An init that is tried only when the attributes could be set.
theorem init_passes (set_ granted : Bool) (kind : Kind) :
    Passes 0 (if set_ then acquire granted kind else return none : Making (Option Nat)) fun number rest =>
      rest = ownedBy ({·}) number ∧ (number.isSome = true ↔ set_ = true ∧ granted = true) := by
  cases set_ with
  | false => exact .pure none ⟨rfl,by simp⟩
  | true =>
    have acquired : Passes 0 (acquire granted kind : Making (Option Nat)) _ := .acquire granted kind
    refine acquired.imp fun number rest known => ⟨known.1,?_⟩
    cases number <;> simp_all

theorem unset (region : Option Region) : Destroyable region none := fun _ there => by cases there

def MutexOutcome.Initialised (o : MutexOutcome) : Prop := o.attr = true ∧ o.pshared = true ∧ o.mutex = true

def MutexOutcome.Mapped (o : MutexOutcome) (mode : INIT_MODE) : Prop :=
  o.printed = true ∧ mode ≠ .INIT_NONE ∧ o.region.granted = true

def MutexOutcome.Granted (o : MutexOutcome) (named : Bool) (mode : INIT_MODE) : Prop :=
  o.block = true ∧ if named then o.Mapped mode ∧ (mode.owner o.region = true → o.Initialised) else o.mutex = true

def Mutex.Sound (mtx : Mutex) : Prop := Destroyable mtx.shared_mem mtx.mutex

theorem no_mutex_passes {granted left : Prop} {block : Nat} (region : Option Region) (refused : ¬ granted) (clean : ¬ left) :
    Passes (ownedBy Region.owns region + {block}) (no_mutex ⟨block,none,region⟩)
      (Leaves Mutex.owns Mutex.Sound granted left) := by
  have deleted : Discharges (Mutex.owns ⟨block,none,region⟩) _ := mutex_deleted (unset region)
  have owns : Mutex.owns ⟨block,none,region⟩ = ownedBy Region.owns region + {block} := zero_add _
  rw [← owns,← add_zero (Mutex.owns _)]
  exact deleted.then (.pure none (leaves_nothing refused clean))

theorem owner_not_foreign {region : Region} (owner : region.is_owner = true) : ¬ Foreign (some region) := by
  rintro ⟨_,there,other⟩
  cases there
  rw [owner] at other
  cases other

theorem own_destroyable {region : Option Region} (own : ¬ Foreign region) (number : Nat) :
    Destroyable region (some (some number)) := by
  intro place there
  cases there
  exact iff_of_false nofun own

theorem init_shared_mutex_passes (o : MutexOutcome) (block : Nat) {region : Region} (owner : region.is_owner = true) :
    Passes (region.owns + {block}) (init_shared_mutex o block region)
      (Leaves Mutex.owns Mutex.Sound o.Initialised o.Initialised) := by
  unfold MutexOutcome.Initialised
  have attributes : Passes 0 (acquire o.attr .attr : Making (Option Nat)) _ := .acquire o.attr Kind.attr
  apply attributes.demand_new
  · intro refused
    have denied := refused.mp rfl
    exact no_mutex_passes (some region) (by simp [denied]) (by simp [denied])
  intro attr unrefused
  have granted : o.attr = true := by simpa using unrefused
  apply (init_passes o.pshared o.mutex .mutex).demand_new
  · intro refused
    have denied : ¬ (o.pshared = true ∧ o.mutex = true) := by simpa using refused
    have released : Discharges {attr} (release attr : Making Unit) := .release attr
    exact released.then (no_mutex_passes (some region) (fun all => denied all.2) fun all => denied all.2)
  · intro mutex given
    have both : o.pshared = true ∧ o.mutex = true := by simpa using given
    have all : o.attr = true ∧ o.pshared = true ∧ o.mutex = true := ⟨granted,both⟩
    have sound : Mutex.Sound ⟨block,some (some mutex),some region⟩ := own_destroyable (owner_not_foreign owner) mutex
    refine .pure _ ?_
    have together : {mutex} + ({attr} + (region.owns + {block})) = Mutex.owns ⟨block,some (some mutex),some region⟩ + {attr} := by
      simp only [Mutex.owns,Option.join_some,ownedBy_some]
      abel
    rw [together]
    exact leaves_both all all sound attr

-- The memory of another's object is not to be destroyed.
theorem foreign_destroyable {region : Region} (foreign : region.is_owner = false) : Destroyable (some region) (some none) := by
  intro place there
  cases there
  exact iff_of_true rfl ⟨region,rfl,foreign⟩

def MutexOutcome.Left (o : MutexOutcome) (named : Bool) (mode : INIT_MODE) : Prop :=
  o.Granted named mode ∧ named = true ∧ mode.owner o.region = true

theorem mutex_new_passes (o : MutexOutcome) (named : Bool) (mode : INIT_MODE) : Passes 0 (mutex_initialize_object o named mode)
    (Leaves Mutex.owns Mutex.Sound (o.Granted named mode) (o.Left named mode)) := by
  unfold MutexOutcome.Left MutexOutcome.Granted
  have memory : Passes 0 (cplus_malloc o.block) _ := .acquire o.block Kind.block
  apply memory.demand_new
  · intro refused
    have denied := refused.mp rfl
    exact .pure none (leaves_nothing (by simp [denied]) (by simp [denied]))
  intro block unrefused
  have granted : o.block = true := by simpa using unrefused
  have failed : Passes (0 + {block}) (no_mutex ⟨block,none,none⟩) (Leaves Mutex.owns Mutex.Sound False False) :=
    no_mutex_passes none id id
  rw [zero_add] at failed
  rw [add_zero]
  cases named with
  | false =>
    have mutex : Passes 0 (acquire o.mutex .mutex : Making (Option Nat)) _ := .acquire o.mutex Kind.mutex
    apply mutex.demand_new
    · intro refused
      have denied := refused.mp rfl
      simpa [Leaves,denied] using failed
    · intro number unrefused
      have initialised : o.mutex = true := by simpa using unrefused
      have own : ¬ Foreign none := fun ⟨_,there,_⟩ => by cases there
      have owns : Mutex.owns ⟨block,some (some number),none⟩ = {number} + {block} := by simp [Mutex.owns]
      rw [← owns]
      exact .pure _ (leaves_object ⟨granted,initialised⟩ (by simp) (own_destroyable own number))
  | true =>
    simp only [if_true]
    split
    · rename_i printed
      apply (shared_mem_passes mode o.region).demand_new
      · rintro ⟨unmapped,_⟩
        have denied : ¬ o.Mapped mode := fun all => by cases unmapped.mpr all.2
        simpa [Leaves,denied] using failed
      rintro region ⟨mapped,owner⟩
      have shared : o.Mapped mode := ⟨printed,mapped.mp rfl⟩
      have mine := owner region rfl
      split
      · rename_i own
        rw [mine] at own
        refine (init_shared_mutex_passes o block (mine.trans own)).imp fun mtx rest leaves => ?_
        simpa [Leaves,granted,shared,own] using leaves
      · rename_i foreign
        have other : region.is_owner = false := by simpa using foreign
        rw [mine] at foreign
        have owns : Mutex.owns ⟨block,some none,some region⟩ = region.owns + {block} := by simp [Mutex.owns]
        rw [← owns]
        exact .pure _ (leaves_object ⟨granted,shared,fun own => (foreign own).elim⟩ (fun all => foreign all.2.2)
          (foreign_destroyable other))
    · rename_i unprinted
      have denied : ¬ o.Mapped mode := fun all => unprinted all.1
      simpa [Leaves,denied] using failed

-- Exactly the attributes are left over, of each mutex that is made in shared memory.
theorem mutex_attr_left (o : MutexOutcome) (named : Bool) (mode : INIT_MODE) :
    ∃ mtx t attr, mutex_initialize_object o named mode opened = .ok (mtx,t) ∧ (mtx.isSome = true ↔ o.Granted named mode) ∧
      (attr.isSome = true ↔ o.Left named mode) ∧
      ∃ u, whenSome cplus_mutex_delete mtx t = .ok ((),u) ∧ Holds u (ownedBy ({·}) attr) :=
  leaves_deleted (mutex_new_passes o named mode) fun _ destroyable => mutex_deleted destroyable

def Pevent.Sound (evt : Pevent) : Prop := Destroyable evt.shared_mem evt.ptr_mutex ∧ Destroyable evt.shared_mem evt.ptr_cond

def PeventOutcome.MutexReady (o : PeventOutcome) : Prop := o.mutexattr = true ∧ o.mutex_pshared = true ∧ o.mutex = true

def PeventOutcome.CondReady (o : PeventOutcome) (shared : Bool) : Prop :=
  o.condattr = true ∧ (o.setclock = true ∧ (shared = true → o.cond_pshared = true)) ∧ o.cond = true

def PeventOutcome.Mapped (o : PeventOutcome) (mode : INIT_MODE) : Prop :=
  o.printed = true ∧ mode ≠ .INIT_NONE ∧ o.region.granted = true

def PeventOutcome.Granted (o : PeventOutcome) (named : Bool) (mode : INIT_MODE) : Prop :=
  o.block = true ∧ if named then o.Mapped mode ∧ (mode.owner o.region = true → o.MutexReady ∧ o.CondReady true)
    else o.mutex = true ∧ o.CondReady false

-- The mutex was initialised, and the condition variable could not be.
def PeventOutcome.Left (o : PeventOutcome) (named : Bool) (mode : INIT_MODE) : Prop :=
  o.block = true ∧ if named then o.Mapped mode ∧ mode.owner o.region = true ∧ o.MutexReady ∧ ¬ o.CondReady true
    else o.mutex = true ∧ ¬ o.CondReady false

section
variable {granted left : Prop} {block : Nat}

theorem pevent_sound_deleted {evt : Pevent} (sound : evt.Sound) : Discharges evt.owns (cplus_pevent_delete evt) :=
  pevent_deleted sound.1 sound.2

theorem unset_owns (block : Nat) (region : Option Region) :
    Pevent.owns ⟨block,none,none,region⟩ = ownedBy Region.owns region + {block} := by
  simp [Pevent.owns]

theorem no_event_passes (region : Option Region) (refused : ¬ granted) (clean : ¬ left) :
    Passes (ownedBy Region.owns region + {block}) (no_event ⟨block,none,none,region⟩) (Leaves Pevent.owns Pevent.Sound granted left) := by
  have deleted : Discharges (Pevent.owns ⟨block,none,none,region⟩) _ := pevent_sound_deleted ⟨unset region,unset region⟩
  rw [← unset_owns,← add_zero (Pevent.owns _)]
  exact deleted.then (.pure none (leaves_nothing refused clean))

-- The mutex is initialised, and no pointer leads to it.
theorem no_event_left (region : Option Region) (mutex : Nat) (refused : ¬ granted) (left_ : left) :
    Passes ({mutex} + (ownedBy Region.owns region + {block})) (no_event ⟨block,none,none,region⟩)
      (Leaves Pevent.owns Pevent.Sound granted left) := by
  have deleted : Discharges (Pevent.owns ⟨block,none,none,region⟩) _ := pevent_sound_deleted ⟨unset region,unset region⟩
  rw [← unset_owns,add_comm]
  exact deleted.then (.pure none (leaves_extra refused left_ mutex))

theorem init_cond_passes (o : PeventOutcome) (mutex : Nat) {region : Option Region} (own : ¬ Foreign region) :
    Passes ({mutex} + (ownedBy Region.owns region + {block})) (init_cond o block mutex region)
      (Leaves Pevent.owns Pevent.Sound (o.CondReady region.isSome) (¬ o.CondReady region.isSome)) := by
  have attributes : Passes 0 (acquire o.condattr .attr : Making (Option Nat)) _ := .acquire o.condattr Kind.attr
  apply attributes.demand_new
  · intro refused
    have denied : ¬ o.CondReady region.isSome := fun ready => by simp [ready.1] at refused
    exact no_event_left region mutex denied denied
  intro attr unrefused
  have granted : o.condattr = true := by simpa using unrefused
  have allowed : (o.setclock && (region.isNone || o.cond_pshared)) = true ↔
      o.setclock = true ∧ (region.isSome = true → o.cond_pshared = true) := by
    cases region <;> simp
  have released : Discharges {attr} (release attr : Making Unit) := .release attr
  apply (init_passes (o.setclock && (region.isNone || o.cond_pshared)) o.cond .cond).demand_new
  · intro refused
    have denied : ¬ o.CondReady region.isSome := fun ready => by cases refused.mpr ⟨allowed.mpr ready.2.1,ready.2.2⟩
    exact released.then (no_event_left region mutex denied denied)
  · intro cond given
    have both := given.mp rfl
    have ready : o.CondReady region.isSome := ⟨granted,allowed.mp both.1,both.2⟩
    have together : {cond} + ({attr} + ({mutex} + (ownedBy Region.owns region + {block}))) =
        {attr} + Pevent.owns ⟨block,some (some mutex),some (some cond),region⟩ := by
      simp only [Pevent.owns,Option.join_some,ownedBy_some]
      abel
    rw [together]
    exact released.then (.pure _ (leaves_object ready (fun unready => unready ready)
      ⟨own_destroyable own mutex,own_destroyable own cond⟩))

theorem init_shared_pevent_passes (o : PeventOutcome) {region : Region} (owner : region.is_owner = true) :
    Passes (region.owns + {block}) (init_shared_pevent o block region)
      (Leaves Pevent.owns Pevent.Sound (o.MutexReady ∧ o.CondReady true) (o.MutexReady ∧ ¬ o.CondReady true)) := by
  have attributes : Passes 0 (acquire o.mutexattr .attr : Making (Option Nat)) _ := .acquire o.mutexattr Kind.attr
  apply attributes.demand_new
  · intro refused
    have denied : ¬ o.MutexReady := fun ready => by simp [ready.1] at refused
    exact no_event_passes (some region) (fun all => denied all.1) fun all => denied all.1
  intro attr unrefused
  have granted : o.mutexattr = true := by simpa using unrefused
  have released : Discharges {attr} (release attr : Making Unit) := .release attr
  apply (init_passes o.mutex_pshared o.mutex .mutex).demand_new
  · intro refused
    have denied : ¬ o.MutexReady := fun ready => by cases refused.mpr ready.2
    exact released.then (no_event_passes (some region) (fun all => denied all.1) fun all => denied all.1)
  · intro mutex given
    have ready : o.MutexReady := ⟨granted,given.mp rfl⟩
    have passes : Passes _ (init_cond o block mutex (some region)) _ := init_cond_passes o mutex (owner_not_foreign owner)
    have together : {mutex} + ({attr} + (region.owns + {block})) = {attr} + ({mutex} + (ownedBy Region.owns (some region) + {block})) := by
      rw [ownedBy_some]
      abel
    rw [together]
    refine released.then (passes.imp fun evt rest leaves => ?_)
    simpa [Leaves,ready] using leaves

end

theorem pevent_new_passes (o : PeventOutcome) (named : Bool) (mode : INIT_MODE) : Passes 0 (pevent_initialize_object o named mode)
    (Leaves Pevent.owns Pevent.Sound (o.Granted named mode) (o.Left named mode)) := by
  unfold PeventOutcome.Left PeventOutcome.Granted
  have memory : Passes 0 (cplus_malloc o.block) _ := .acquire o.block Kind.block
  apply memory.demand_new
  · intro refused
    have denied := refused.mp rfl
    exact .pure none (leaves_nothing (by simp [denied]) (by simp [denied]))
  intro block unrefused
  have granted : o.block = true := by simpa using unrefused
  have failed : Passes (0 + {block}) (no_event ⟨block,none,none,none⟩) (Leaves Pevent.owns Pevent.Sound False False) :=
    no_event_passes none id id
  rw [zero_add] at failed
  rw [add_zero]
  cases named with
  | false =>
    have mutex : Passes 0 (acquire o.mutex .mutex : Making (Option Nat)) _ := .acquire o.mutex Kind.mutex
    apply mutex.demand_new
    · intro refused
      have denied := refused.mp rfl
      simpa [Leaves,denied] using failed
    · intro number unrefused
      have initialised : o.mutex = true := by simpa using unrefused
      have passes : Passes _ (init_cond o block number none) _ := init_cond_passes o number fun ⟨_,there,_⟩ => by cases there
      rw [ownedBy_none,zero_add] at passes
      simpa [Leaves,granted,initialised] using passes
  | true =>
    simp only [if_true]
    split
    · rename_i printed
      apply (shared_mem_passes mode o.region).demand_new
      · rintro ⟨unmapped,_⟩
        have denied : ¬ o.Mapped mode := fun all => by cases unmapped.mpr all.2
        simpa [Leaves,denied] using failed
      rintro region ⟨mapped,owner⟩
      have shared : o.Mapped mode := ⟨printed,mapped.mp rfl⟩
      have mine := owner region rfl
      split
      · rename_i own
        rw [mine] at own
        refine (init_shared_pevent_passes o (mine.trans own)).imp fun evt rest leaves => ?_
        simpa [Leaves,granted,shared,own] using leaves
      · rename_i foreign
        have other : region.is_owner = false := by simpa using foreign
        rw [mine] at foreign
        have owns : Pevent.owns ⟨block,some none,some none,some region⟩ = region.owns + {block} := by simp [Pevent.owns]
        rw [← owns]
        refine .pure _ (leaves_object ⟨granted,shared,fun own => (foreign own).elim⟩ (fun all => foreign all.2.2.1) ?_)
        exact ⟨foreign_destroyable other,foreign_destroyable other⟩
    · rename_i unprinted
      have denied : ¬ o.Mapped mode := fun all => unprinted all.1
      simpa [Leaves,denied] using failed

-- Exactly the mutex is left over, of each event whose condition variable fails after it.
theorem pevent_mutex_left (o : PeventOutcome) (named : Bool) (mode : INIT_MODE) :
    ∃ evt t mutex, pevent_initialize_object o named mode opened = .ok (evt,t) ∧ (evt.isSome = true ↔ o.Granted named mode) ∧
      (mutex.isSome = true ↔ o.Left named mode) ∧
      ∃ u, whenSome cplus_pevent_delete evt t = .ok ((),u) ∧ Holds u (ownedBy ({·}) mutex) :=
  leaves_deleted (pevent_new_passes o named mode) fun _ sound => pevent_sound_deleted sound

def Attr.owns (attr : Attr) : Multiset Nat := {attr.number}

def Rwlock.Sound (lock : Rwlock) : Prop := Destroyable lock.shared_mem (some lock.rwlock)

def Faults (prog : Making (Option Rwlock)) : Prop := ∀ s, ∃ fault, prog s = .error fault

-- There is a lock, which owns all of what there was, or a fault.
def Settles (granted : Prop) (owned : Multiset Nat) (prog : Making (Option Rwlock)) (such : Rwlock → Prop) : Prop :=
  ∀ s frame, Holds s (owned + frame) → (granted → ∃ lock t, prog s = .ok (some lock,t) ∧ such lock ∧ Holds t (lock.owns + frame)) ∧
    (¬ granted → ∃ fault, prog s = .error fault)

section
variable {granted more : Prop} {prog : Making (Option Rwlock)} {such : Rwlock → Prop} {block : Nat} {attr : Option Attr}

theorem Settles.of_faults (faults : Faults prog) (refused : ¬ granted) : Settles granted owned prog such :=
  fun s _ _ => ⟨fun all => (refused all).elim,fun _ => faults s⟩

theorem Settles.of_passes (passes : Passes owned prog fun lock rest => ∃ l, lock = some l ∧ such l ∧ rest = l.owns)
    (all : granted) : Settles granted owned prog such := by
  intro s frame holds
  obtain ⟨_,t,_,ran,⟨l,rfl,sound,rfl⟩,left_⟩ := passes s frame holds
  exact ⟨fun _ => ⟨l,t,ran,sound,left_⟩,fun refused => (refused all).elim⟩

theorem Settles.imp {less : Rwlock → Prop} (settles : Settles granted owned prog less) (same : granted ↔ more)
    (weaker : ∀ lock, less lock → such lock) : Settles more owned prog such := by
  intro s frame holds
  obtain ⟨makes,faults⟩ := settles s frame holds
  rw [same] at makes faults
  refine ⟨fun all => ?_,faults⟩
  obtain ⟨lock,t,ran,sound,left_⟩ := makes all
  exact ⟨lock,t,ran,weaker lock sound,left_⟩

theorem Settles.bind {α : Type} {first : Making α} {next : α → Making (Option Rwlock)} {mid : α → Multiset Nat → Prop}
    (passes : Passes owned first mid) (then_ : ∀ a rest, mid a rest → Settles granted rest (next a) such) :
    Settles granted owned (first >>= next) such := by
  intro s frame holds
  obtain ⟨a,t,rest,ran,reached,left_⟩ := passes s frame holds
  rw [bind_ok ran]
  exact then_ a rest reached t frame left_

theorem Settles.demand {β : Type} {make : Making (Option β)} {fail : Making (Option Rwlock)} {next : β → Making (Option Rwlock)}
    {owns : β → Multiset Nat} {known : Option β → Prop} (made : Passes 0 make fun b rest => rest = ownedBy owns b ∧ known b)
    (fails : known none → Settles granted owned fail such)
    (goes : ∀ b, known (some b) → Settles granted (owns b + owned) (next b) such) :
    Settles granted owned (Ownership.demand make fail next) such := by
  rw [← zero_add owned]
  apply Settles.bind (made.beside owned)
  rintro b _ ⟨_,⟨rfl,here⟩,rfl⟩
  cases b with
  | none =>
    rw [ownedBy_none,zero_add]
    exact fails here
  | some b => exact goes b here

theorem attr_destroyed (attr : Option Attr) : Discharges (ownedBy Attr.owns attr) (destroy_attr attr) :=
  .whenSome fun attr _ => Discharges.release attr.number

-- Every failure ends in the destroy of a lock that was not initialised.
theorem no_lock_faults (attr : Option Attr) (block : Nat) (own : ¬ Foreign region) : Faults (no_lock attr (some (fresh block region))) := by
  intro s
  have destroyed : ∃ t, destroy_attr attr s = .ok ((),t) := by
    cases attr with
    | none => exact ⟨s,rfl⟩
    | some attr => exact ⟨_,rfl⟩
  obtain ⟨t,ran⟩ := destroyed
  refine ⟨.uninitialised,?_⟩
  rw [no_lock,bind_ok ran]
  cases region with
  | none => rfl
  | some region =>
    have owner : region.is_owner = true := by
      cases mine : region.is_owner with
      | true => rfl
      | false => exact (own ⟨region,rfl,mine⟩).elim
    simp only [cplus_rwlock_delete,fresh,delete_shared,owner,if_true]
    rfl

theorem no_object_faults : Faults (no_lock none none) := fun _ => ⟨.assertion,rfl⟩

theorem init_lock_settles (o : RwlockOutcome) (attr : Option Attr) (block : Nat) (own : ¬ Foreign region) :
    Settles (o.rwlock = true) (ownedBy Attr.owns attr + (ownedBy Region.owns region + {block})) (init_lock o attr block region)
      fun lock => lock.Sound ∧ lock.kind = attr.elim .PREFER_READER_NP Attr.kind ∧ lock.pshared = attr.elim false Attr.pshared := by
  have lock : Passes 0 (acquire o.rwlock .rwlock : Making (Option Nat)) fun number rest =>
      rest = ownedBy ({·}) number ∧ (number = none ↔ o.rwlock = false) := .acquire o.rwlock Kind.rwlock
  refine Settles.demand lock (fun refused => ?_) fun rwlock given => ?_
  · have denied := refused.mp rfl
    exact .of_faults (no_lock_faults attr block own) (by simp [denied])
  · have granted : o.rwlock = true := by simpa using given
    have together : {rwlock} + (ownedBy Attr.owns attr + (ownedBy Region.owns region + {block})) =
        ownedBy Attr.owns attr + (({rwlock} : Multiset Nat) + (ownedBy Region.owns region + {block})) := by abel
    rw [together]
    refine .of_passes ((attr_destroyed attr).then (.pure _ ⟨_,rfl,⟨?_,rfl,rfl⟩,rfl⟩)) granted
    exact own_destroyable own rwlock

theorem rwlockattr_init_passes (granted : Bool) : Passes 0 (rwlockattr_init granted) fun attr rest =>
    rest = ownedBy Attr.owns attr ∧ ((attr.isSome = true ↔ granted = true) ∧
      ∀ a, attr = some a → a.kind = .PREFER_READER_NP ∧ a.pshared = false) := by
  have acquired : Passes 0 (acquire granted .attr : Making (Option Nat)) _ := .acquire granted Kind.attr
  apply acquired.bind
  rintro number _ ⟨rfl,refused⟩
  refine .pure _ ⟨?_,?_,?_⟩
  · cases number <;> rfl
  · cases number <;> simp_all
  · intro a made
    obtain ⟨n,_,rfl⟩ := Option.map_eq_some_iff.mp made
    exact ⟨rfl,rfl⟩

def has_attr (o : RwlockOutcome) (attr : Option Attr) : Bool := attr.isSome || o.shared_attr

-- Shared memory gets a lock that is shared only if there are attributes for it.
theorem init_shared_lock_settles (o : RwlockOutcome) (attr : Option Attr) (block : Nat) {region : Region} (owner : region.is_owner = true) :
    Settles ((has_attr o attr = true → o.pshared = true) ∧ o.rwlock = true)
      (ownedBy Attr.owns attr + (region.owns + {block})) (init_shared_lock o attr block region)
      fun lock => lock.Sound ∧ lock.kind = attr.elim .PREFER_READER_NP Attr.kind ∧ lock.pshared = has_attr o attr := by
  have own := owner_not_foreign owner
  have gets : Passes (ownedBy Attr.owns attr + (region.owns + {block})) (attributes o attr) fun a rest =>
        rest = ownedBy Attr.owns a + (region.owns + {block}) ∧ (a.isSome = true ↔ has_attr o attr = true) ∧
          a.elim .PREFER_READER_NP Attr.kind = attr.elim .PREFER_READER_NP Attr.kind := by
    cases attr with
    | some attr => exact .pure _ ⟨rfl,by simp [has_attr],rfl⟩
    | none =>
      rw [ownedBy_none]
      apply ((rwlockattr_init_passes o.shared_attr).beside (region.owns + {block})).imp
      rintro a _ ⟨_,⟨rfl,some_,fresh⟩,rfl⟩
      refine ⟨rfl,by simpa [has_attr] using some_,?_⟩
      cases a with
      | none => rfl
      | some a => exact (fresh a rfl).1
  apply Settles.bind gets
  rintro a _ ⟨rfl,some_,kind⟩
  cases a with
  | none =>
    have without : has_attr o attr = false := by simpa using some_
    refine (init_lock_settles o none block own).imp (by simp [without]) fun lock sound => ?_
    exact ⟨sound.1,sound.2.1.trans kind,sound.2.2.trans without.symm⟩
  | some a =>
    have with_ : has_attr o attr = true := some_.mp rfl
    dsimp only
    split
    · rename_i allowed
      refine (init_lock_settles o (some {a with pshared := true}) block own).imp (by simp [allowed]) fun lock sound => ?_
      exact ⟨sound.1,sound.2.1.trans kind,sound.2.2.trans with_.symm⟩
    · rename_i refused
      exact .of_faults (no_lock_faults (some a) block own) fun all => refused (all.1 with_)

def RwlockConfig.named (config : RwlockConfig) : Bool := config.name && config.mode ≠ .MODE_NONE

def RwlockConfig.asks (config : RwlockConfig) : Bool := config.kind ≠ .KIND_MAX && config.kind ≠ .KIND_NONE

-- There are attributes for the kind.
def RwlockOutcome.kept (o : RwlockOutcome) (config : RwlockConfig) : Bool := config.asks && o.kind_attr

def RwlockOutcome.kind (o : RwlockOutcome) (config : RwlockConfig) : PTHREAD_RWLOCK_KIND :=
  if o.kept config then convert_rwlock_kind config.kind else .PREFER_READER_NP

-- What a lock needs from the name on.
def RwlockOutcome.Named (o : RwlockOutcome) (config : RwlockConfig) (kept : Bool) : Prop :=
  if config.named then (o.printed = true ∧ config.mode ≠ .MODE_MAX ∧ o.region.granted = true) ∧
    (config.mode.init_mode.owner o.region = true → ((kept || o.shared_attr) = true → o.pshared = true) ∧ o.rwlock = true)
  else o.rwlock = true

def RwlockOutcome.Granted (o : RwlockOutcome) (config : RwlockConfig) : Prop :=
  o.block = true ∧ (o.kept config = true → o.setkind = true) ∧ o.Named config (o.kept config)

-- What it is initialised with, if it is initialised here.
def RwlockOutcome.Settings (o : RwlockOutcome) (config : RwlockConfig) (kind : PTHREAD_RWLOCK_KIND) (kept : Bool) (lock : Rwlock) : Prop :=
  lock.rwlock.isSome = true → lock.kind = kind ∧ lock.pshared = (config.named && (kept || o.shared_attr))

theorem name_lock_settles (o : RwlockOutcome) (config : RwlockConfig) (block : Nat) (attr : Option Attr)
    (private_ : ∀ a, attr = some a → a.pshared = false) :
    Settles (o.Named config attr.isSome) (ownedBy Attr.owns attr + {block}) (name_lock o config block attr)
      fun lock => lock.Sound ∧ o.Settings config (attr.elim .PREFER_READER_NP Attr.kind) attr.isSome lock := by
  unfold RwlockOutcome.Named RwlockOutcome.Settings name_lock
  have unshared : ¬ Foreign none := fun ⟨_,there,_⟩ => by cases there
  by_cases named : config.named = true
  · have names : (config.name && decide (config.mode ≠ .MODE_NONE)) = true := named
    rw [if_pos named,if_pos names]
    simp only [named,Bool.true_and]
    by_cases printed : o.printed = true
    · rw [if_pos printed]
      refine Settles.demand (shared_mem_passes config.mode.init_mode o.region) ?_ ?_
      · rintro ⟨unmapped,_⟩
        refine .of_faults (no_lock_faults attr block unshared) fun all => ?_
        have mapped : config.mode.init_mode ≠ .INIT_NONE ∧ o.region.granted = true := by
          refine ⟨?_,all.1.2.2⟩
          have valid := all.1.2.1
          unfold RwlockConfig.named at named
          cases mode : config.mode <;> simp_all [CPLUS_RWLOCK_MODE.init_mode]
        cases unmapped.mpr mapped
      rintro region ⟨mapped,owner⟩
      have shared := mapped.mp rfl
      have valid : config.mode ≠ .MODE_MAX := fun max => shared.1 (by rw [max]; rfl)
      have mine := owner region rfl
      rw [add_left_comm]
      split
      · rename_i own
        rw [mine] at own
        refine (init_shared_lock_settles o attr block (mine.trans own)).imp ?_ fun lock sound => ⟨sound.1,fun _ => sound.2⟩
        simp [has_attr,printed,valid,shared,own]
      · rename_i foreign
        have other : region.is_owner = false := by simpa using foreign
        rw [mine] at foreign
        refine .of_passes ((attr_destroyed attr).then (.pure _ ⟨_,rfl,⟨foreign_destroyable other,nofun⟩,?_⟩)) ?_
        · simp [Rwlock.owns,fresh]
        · exact ⟨⟨printed,valid,shared.2⟩,fun own => (foreign own).elim⟩
    · rw [if_neg printed]
      exact .of_faults (no_lock_faults attr block unshared) fun all => printed all.1.1
  · have unnamed : ¬ (config.name && decide (config.mode ≠ .MODE_NONE)) = true := named
    rw [if_neg named,if_neg unnamed]
    have settles := init_lock_settles o attr block unshared
    rw [ownedBy_none,zero_add] at settles
    refine settles.imp Iff.rfl fun lock sound => ⟨sound.1,fun _ => ⟨sound.2.1,?_⟩⟩
    rw [sound.2.2]
    cases attr with
    | none => simp [named]
    | some a => simpa [named] using private_ a rfl

theorem rwlock_new_settles (o : RwlockOutcome) (config : RwlockConfig) : Settles (o.Granted config) 0 (rwlock_initialize_object o config)
    fun lock => lock.Sound ∧ o.Settings config (o.kind config) (o.kept config) lock := by
  unfold RwlockOutcome.Granted
  have memory : Passes 0 (cplus_malloc o.block) fun number rest => rest = ownedBy ({·}) number ∧ (number = none ↔ o.block = false) :=
    .acquire o.block Kind.block
  refine Settles.demand memory (fun refused => ?_) fun block unrefused => ?_
  · have denied := refused.mp rfl
    exact .of_faults no_object_faults (by simp [denied])
  have granted : o.block = true := by simpa using unrefused
  rw [add_zero]
  have plain := name_lock_settles o config block none nofun
  rw [ownedBy_none,zero_add] at plain
  by_cases asks : config.asks = true
  · have asked : config.kind ≠ .KIND_MAX ∧ config.kind ≠ .KIND_NONE := by simpa [RwlockConfig.asks] using asks
    rw [if_pos asked]
    have attributes := (rwlockattr_init_passes o.kind_attr).beside {block}
    rw [zero_add] at attributes
    apply Settles.bind attributes
    rintro attr _ ⟨_,⟨rfl,some_,defaults⟩,rfl⟩
    cases attr with
    | none =>
      have without : o.kept config = false := by simpa [RwlockOutcome.kept,asks] using some_
      have kind : o.kind config = .PREFER_READER_NP := by simp [RwlockOutcome.kind,without]
      rw [ownedBy_none,zero_add,without,kind]
      exact plain.imp (by simp [granted]) fun _ sound => sound
    | some attr =>
      have kept : o.kept config = true := by simpa [RwlockOutcome.kept,asks] using some_
      have kind : o.kind config = convert_rwlock_kind config.kind := by simp [RwlockOutcome.kind,kept]
      rw [kept,kind]
      dsimp only
      split
      · rename_i set_
        have settles := name_lock_settles o config block (some {attr with kind := convert_rwlock_kind config.kind})
          fun a there => by cases there; exact (defaults attr rfl).2
        exact settles.imp (by simp [granted,set_]) fun _ sound => sound
      · rename_i unset
        exact .of_faults (no_lock_faults (some attr) block fun ⟨_,there,_⟩ => by cases there) fun all => unset (all.2.1 rfl)
  · have unasked : ¬ (config.kind ≠ .KIND_MAX ∧ config.kind ≠ .KIND_NONE) := by simpa [RwlockConfig.asks] using asks
    have without : o.kept config = false := by simp [RwlockOutcome.kept,asks]
    have kind : o.kind config = .PREFER_READER_NP := by simp [RwlockOutcome.kind,without]
    rw [if_neg unasked,without,kind]
    exact plain.imp (by simp [granted]) fun _ sound => sound

end

-- A lock that can be made has what was asked for, but where there were no attributes for
-- it, and gives everything back; there is no other end of a new than a fault.
theorem rwlock_made_or_fault (o : RwlockOutcome) (config : RwlockConfig) :
    (o.Granted config → ∃ lock t, rwlock_initialize_object o config opened = .ok (some lock,t) ∧
      o.Settings config (o.kind config) (o.kept config) lock ∧
      ∃ u, cplus_rwlock_delete (some lock) t = .ok ((),u) ∧ ReleasedOnce u) ∧
    (¬ o.Granted config → ∃ fault, rwlock_initialize_object o config opened = .error fault) := by
  obtain ⟨makes,faults⟩ := rwlock_new_settles o config opened 0 holds_opened
  refine ⟨fun all => ?_,faults⟩
  obtain ⟨lock,t,ran,⟨sound,settings⟩,holds⟩ := makes all
  obtain ⟨_,u,_,deleted,rfl,remains⟩ := rwlock_deleted sound t 0 holds
  rw [add_zero] at remains
  exact ⟨lock,t,ran,settings,u,deleted,(released_once_iff remains).mpr rfl⟩

end Libcplus.SyncConstruction
