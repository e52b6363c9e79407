import Libcplus.Registry
import Libcplus.Sharedmem

-- The shared memory objects of all processes, which find one another by name.
namespace Libcplus.Segments
open Registry Transition

-- struct shared_mem in the process `pid`. An owner_id of -1 is none, and so is a
-- segment as long as shm_open has not answered.
structure Shmem (ν : Type) where
  pid : Nat
  creation : Creation
  phase : Phase
  name : ν
  size : Nat
  segment : Option Nat
  is_owner : Bool
  owner_id : Option Nat
  deriving DecidableEq

-- A shm_unlink by an object of this segment, and the segment whose name it removed.
structure Unlink where
  segment : Option Nat
  hit : Option Nat
  deriving DecidableEq

-- `sizes` is what fstat says of each segment.
structure System (ν : Type) where
  names : Table ν
  sizes : Nat → Nat
  objects : List (Shmem ν)
  unlinks : List Unlink

def start (ν : Type) : System ν := ⟨empty,fun _ => 0,[],[]⟩

-- The system calls of the objects, one at a time and in any order between them,
-- with what the system answers; a process that forks; and one that ends without
-- deleting its objects.
inductive Action (ν : Type) where
  | malloc (pid : Nat) (creation : Creation) (name : ν) (size : Nat)
  | shm_open (k : Nat) (granted : Bool)
  | set_size (k : Nat) (done : Bool)
  | mmap (k : Nat) (done : Bool)
  | close (k : Nat)
  | delete (k : Nat)
  | leave (k : Nat)
  | fork (parent child : Nat)
  | exit (pid : Nat)

variable {ν : Type}

def cplus_sharedmem_is_owner (shmem : Shmem ν) : Bool := shmem.is_owner && decide (shmem.owner_id = some shmem.pid)

def set_object (s : System ν) (k : Nat) (shmem : Shmem ν) : System ν := {s with objects := s.objects.set k shmem}

-- O_CREAT with O_EXCL. The segment is empty until ftruncate.
def make_segment [DecidableEq ν] (s : System ν) (k : Nat) (shmem : Shmem ν) : System ν :=
  {set_object s k {shmem with phase := .opened,segment := some s.names.made,is_owner := true,owner_id := some shmem.pid} with
    names := s.names.enter shmem.name
    sizes := Function.update s.sizes s.names.made 0}

def find_segment (s : System ν) (k : Nat) (shmem : Shmem ν) (segment : Nat) : System ν :=
  set_object s k {shmem with phase := .opened,segment := some segment,is_owner := false}

def fail (s : System ν) (k : Nat) (shmem : Shmem ν) : System ν := set_object s k {shmem with phase := .failing}

-- `new` goes on to create after an ENOENT.
def shm_open [DecidableEq ν] (s : System ν) (k : Nat) (granted : Bool) (shmem : Shmem ν) : System ν :=
  if granted then
    match shmem.creation,s.names.bound shmem.name with
    | .create,none => make_segment s k shmem
    | .create,some _ => fail s k shmem
    | .opening,none => fail s k shmem
    | .opening,some segment => find_segment s k shmem segment
    | .new,none => set_object s k {shmem with creation := .create}
    | .new,some segment => find_segment s k shmem segment
  else fail s k shmem

-- ftruncate in the one that made the segment, fstat in the others.
def set_size (s : System ν) (k : Nat) (done : Bool) (shmem : Shmem ν) : System ν :=
  match done,shmem.segment with
  | true,some segment =>
    if shmem.is_owner then {set_object s k {shmem with phase := .sized} with sizes := Function.update s.sizes segment shmem.size}
    else set_object s k {shmem with phase := .sized,size := s.sizes segment}
  | _,_ => fail s k shmem

-- There is no mapping of no bytes.
def mmap (s : System ν) (k : Nat) (done : Bool) (shmem : Shmem ν) : System ν :=
  if done = true ∧ shmem.size ≠ 0 then set_object s k {shmem with phase := .mapped} else fail s k shmem

-- The part of cplus_sharedmem_delete that other processes notice.
def leave [DecidableEq ν] (s : System ν) (k : Nat) (shmem : Shmem ν) : System ν :=
  if cplus_sharedmem_is_owner shmem then
    {set_object s k {shmem with phase := .gone} with
      names := s.names.unlink shmem.name
      unlinks := s.unlinks ++ [⟨shmem.segment,s.names.bound shmem.name⟩]}
  else set_object s k {shmem with phase := .gone}

-- A child has copies of the objects of its parent.
def copies (s : System ν) (parent child : Nat) : List (Shmem ν) :=
  (s.objects.filter fun shmem => shmem.pid = parent ∧ shmem.phase = .live).map fun shmem => {shmem with pid := child}

def end_process (pid : Nat) (shmem : Shmem ν) : Shmem ν := if shmem.pid = pid then {shmem with phase := .gone} else shmem

-- A step of the object's thread, from one of the phases it belongs to.
def object_step (s : System ν) (k : Nat) (phases : List Phase) (next : Shmem ν → System ν) : Option (System ν) :=
  (s.objects[k]?).bind fun shmem => if shmem.phase ∈ phases then some (next shmem) else none

def advance [DecidableEq ν] (s : System ν) : Action ν → Option (System ν)
  | .malloc pid creation name size => some {s with objects := s.objects ++ [⟨pid,creation,.named,name,size,none,false,none⟩]}
  | .shm_open k granted => object_step s k [.named] (shm_open s k granted)
  | .set_size k done => object_step s k [.opened] (set_size s k done)
  | .mmap k done => object_step s k [.sized] (mmap s k done)
  | .close k => object_step s k [.mapped] fun shmem => set_object s k {shmem with phase := .live}
  | .delete k => object_step s k [.live] fun shmem => set_object s k {shmem with phase := .deleting}
  | .leave k => object_step s k [.failing,.deleting] (leave s k)
  | .fork parent child =>
    if s.objects.any fun shmem => shmem.pid = child ∧ shmem.phase ≠ .gone then none
    else some {s with objects := s.objects ++ copies s parent child}
  | .exit pid => some {s with objects := s.objects.map (end_process pid)}

-- A child does not get the number of a process whose objects it may have copies of.
def Fresh (s : System ν) : Action ν → Prop
  | .fork _ child => ∀ shmem ∈ s.objects, shmem.owner_id ≠ some child
  | _ => True

-- The name that an object is going to remove, with its segment.
def claim (shmem : Shmem ν) : Option (ν × Nat) :=
  if shmem.phase ≠ .gone ∧ cplus_sharedmem_is_owner shmem = true then shmem.segment.map fun segment => (shmem.name,segment)
  else none

abbrev System.claims (s : System ν) : Nat → Option (ν × Nat) := Registry.claims claim s.objects

-- No process ends with a name that it has to remove.
def Orderly (s : System ν) : Action ν → Prop
  | .exit pid => ∀ shmem ∈ s.objects, shmem.pid = pid → claim shmem = none
  | _ => True

instance (s : System ν) (action : Action ν) : Decidable (Fresh s action) := by
  cases action <;> unfold Fresh <;> infer_instance

structure Consistent (s : System ν) : Prop where
  -- Each shm_unlink removed the name of the segment that its own object had made.
  unlinks : ∀ u ∈ s.unlinks, ∃ segment, u.segment = some segment ∧ u.hit = some segment
  -- As long as its maker is there, a name stands for the maker's segment.
  owners : ∀ shmem ∈ s.objects, shmem.phase ≠ .gone → cplus_sharedmem_is_owner shmem = true →
    ∃ segment, shmem.segment = some segment ∧ s.names.bound shmem.name = some segment
  -- An object that a caller got is as large as its segment, and that is not empty.
  attached : ∀ shmem ∈ s.objects, shmem.phase = .live →
    ∃ segment, shmem.segment = some segment ∧ shmem.size = s.sizes segment ∧ shmem.size ≠ 0

instance [DecidableEq ν] (s : System ν) (action : Action ν) : Decidable (Orderly s action) := by
  cases action <;> unfold Orderly <;> infer_instance

def Attached (phase : Phase) : Prop := phase = .mapped ∨ phase = .live ∨ phase = .deleting

-- What holds of an object on its way, among `made` segments of these sizes.
structure Holding (made : Nat) (sizes : Nat → Nat) (shmem : Shmem ν) : Prop where
  named : shmem.phase = .named → shmem.is_owner = false
  old : ∀ {segment}, shmem.segment = some segment → segment < made
  maker : shmem.is_owner = true → ∃ segment, shmem.segment = some segment
  first : shmem.is_owner = true → shmem.phase = .opened → shmem.owner_id = some shmem.pid
  -- Until its maker sets the size of a segment, it is empty.
  raw : ∀ {segment}, shmem.segment = some segment → shmem.is_owner = true → shmem.phase = .opened → sizes segment = 0
  sized : shmem.phase = .sized → ∃ segment, shmem.segment = some segment ∧ (shmem.size = sizes segment ∨ shmem.size = 0)
  attached : Attached shmem.phase → ∃ segment, shmem.segment = some segment ∧ shmem.size = sizes segment ∧ shmem.size ≠ 0

-- `orderly` says that no process has left a name behind.
structure Sound (orderly : Prop) (s : System ν) : Prop where
  kept : Kept s.names s.claims
  complete : orderly → Complete s.names s.claims
  each : ∀ {j : Nat} {shmem}, s.objects[j]? = some shmem → Holding s.names.made s.sizes shmem
  unlinks : ∀ u ∈ s.unlinks, ∃ segment, u.segment = some segment ∧ u.hit = some segment

variable {orderly : Prop} {s t : System ν} {shmem next : Shmem ν} {k j made segment : Nat} {sizes : Nat → Nat}

theorem claim_parts {name : ν} (mine : claim shmem = some (name,segment)) : shmem.phase ≠ .gone ∧
    cplus_sharedmem_is_owner shmem = true ∧ shmem.segment = some segment ∧ shmem.name = name := by
  unfold claim at mine
  split at mine
  · rename_i owner
    obtain ⟨_,there,same⟩ := Option.map_eq_some_iff.mp mine
    cases same
    exact ⟨owner.1,owner.2,there,rfl⟩
  · cases mine

theorem claim_of (present : shmem.phase ≠ .gone) (owner : cplus_sharedmem_is_owner shmem = true)
    (there : shmem.segment = some segment) : claim shmem = some (shmem.name,segment) := by
  unfold claim
  rw [if_pos ⟨present,owner⟩,there]
  rfl

theorem claims_moved (here : s.objects[k]? = some shmem) (next : Shmem ν) :
    (set_object s k next).claims = Function.update s.claims k (claim next) := claims_set here next

theorem claims_kept (here : s.objects[k]? = some shmem) (same : claim next = claim shmem) :
    (set_object s k next).claims = s.claims := claims_same here same

theorem set_sound (sound : Sound orderly s) (here : s.objects[k]? = some shmem) (same : claim next = claim shmem)
    (holding : Holding s.names.made s.sizes next) : Sound orderly (set_object s k next) where
  kept := by
    rw [claims_kept here same]
    exact sound.kept
  complete := by
    rw [claims_kept here same]
    exact sound.complete
  each := by
    intro j x there
    obtain ⟨_,rfl⟩ | ⟨_,there⟩ := set_parts here there
    · exact holding
    · exact sound.each there
  unlinks := sound.unlinks

theorem claim_moves (phase : Phase) (present : shmem.phase ≠ .gone) (stays : phase ≠ .gone) :
    claim {shmem with phase := phase} = claim shmem := by
  simp [claim,cplus_sharedmem_is_owner,present,stays]

theorem claim_gone (ended : shmem.phase = .gone) : claim shmem = none := by simp [claim,ended]

theorem claim_named (foreign : shmem.is_owner = false) : claim shmem = none := by
  simp [claim,cplus_sharedmem_is_owner,foreign]

theorem fail_sound (sound : Sound orderly s) (here : s.objects[k]? = some shmem) (present : shmem.phase ≠ .gone) :
    Sound orderly (fail s k shmem) := by
  have holding := sound.each here
  exact set_sound sound here (claim_moves .failing present (by simp))
    ⟨nofun,holding.old,holding.maker,nofun,nofun,nofun,by simp [Attached]⟩

-- One more segment, which is empty.
theorem Holding.grow (holding : Holding made sizes shmem) :
    Holding (made + 1) (Function.update sizes made 0) shmem where
  named := holding.named
  old := fun there => Nat.lt_succ_of_lt (holding.old there)
  maker := holding.maker
  first := holding.first
  raw := by
    intro segment there owner opened
    rw [Function.update_of_ne (Nat.ne_of_lt (holding.old there))]
    exact holding.raw there owner opened
  sized := by
    intro phase
    obtain ⟨segment,there,size⟩ := holding.sized phase
    refine ⟨segment,there,?_⟩
    rwa [Function.update_of_ne (Nat.ne_of_lt (holding.old there))]
  attached := by
    intro phase
    obtain ⟨segment,there,size⟩ := holding.attached phase
    refine ⟨segment,there,?_⟩
    rwa [Function.update_of_ne (Nat.ne_of_lt (holding.old there))]

theorem find_sound (sound : Sound orderly s) (here : s.objects[k]? = some shmem) (named : shmem.phase = .named)
    (bound : s.names.bound shmem.name = some segment) : Sound orderly (find_segment s k shmem segment) := by
  apply set_sound sound here
  · rw [claim_named rfl,claim_named ((sound.each here).named named)]
  · refine ⟨nofun,?_,nofun,nofun,fun _ owner _ => (Bool.false_ne_true owner).elim,nofun,by simp [Attached]⟩
    intro segment there
    cases there
    exact sound.kept.old bound

-- Nobody else has used a segment whose size its maker is about to set.
theorem Holding.resize (holding : Holding made sizes shmem) {size : Nat} (empty : sizes segment = 0)
    (apart : shmem.segment = some segment → ¬ (shmem.is_owner = true ∧ shmem.phase = .opened)) :
    Holding made (Function.update sizes segment size) shmem where
  named := holding.named
  old := holding.old
  maker := holding.maker
  first := holding.first
  raw := by
    intro other there owner opened
    have different : other ≠ segment := by
      rintro rfl
      exact apart there ⟨owner,opened⟩
    rw [Function.update_of_ne different]
    exact holding.raw there owner opened
  sized := by
    intro phase
    obtain ⟨other,there,size⟩ := holding.sized phase
    refine ⟨other,there,?_⟩
    by_cases this : other = segment
    · rw [this,empty] at size
      exact .inr (size.elim id id)
    · rwa [Function.update_of_ne this]
  attached := by
    intro phase
    obtain ⟨other,there,same,positive⟩ := holding.attached phase
    have different : other ≠ segment := by
      rintro rfl
      exact positive (same.trans empty)
    exact ⟨other,there,by rwa [Function.update_of_ne different],positive⟩

theorem size_sound (sound : Sound orderly s) (here : s.objects[k]? = some shmem) (opened : shmem.phase = .opened) (done : Bool) :
    Sound orderly (set_size s k done shmem) := by
  have present : shmem.phase ≠ .gone := by simp [opened]
  have holding := sound.each here
  have moved (size : Nat) : claim {shmem with phase := .sized,size := size} = claim shmem := by
    simp [claim,cplus_sharedmem_is_owner,present]
  unfold set_size
  split
  · rename_i segment there
    split
    · rename_i owner
      have empty := holding.raw there owner opened
      have mine : s.claims k = some (shmem.name,segment) :=
        (claims_at here).trans (claim_of present (by simp [cplus_sharedmem_is_owner,owner,holding.first owner opened]) there)
      have same := claims_kept here (moved shmem.size)
      refine ⟨same ▸ sound.kept,same ▸ sound.complete,?_,sound.unlinks⟩
      · intro j x found
        obtain ⟨_,rfl⟩ | ⟨other,found⟩ := set_parts here found
        · refine ⟨nofun,holding.old,holding.maker,nofun,nofun,fun _ => ⟨segment,there,.inl ?_⟩,by simp [Attached]⟩
          exact (Function.update_self segment shmem.size s.sizes).symm
        · apply (sound.each found).resize empty
          rintro theirs ⟨owner,opened⟩
          have first := (sound.each found).first owner opened
          have also : s.claims j = some (x.name,segment) :=
            (claims_at found).trans (claim_of (by simp [opened]) (by simp [cplus_sharedmem_is_owner,owner,first]) theirs)
          exact other (sound.kept.sole also mine)
    · exact set_sound sound here (moved _) ⟨nofun,holding.old,holding.maker,nofun,nofun,fun _ => ⟨segment,there,.inl rfl⟩,
        by simp [Attached]⟩
  · exact fail_sound sound here present

theorem mmap_sound (sound : Sound orderly s) (here : s.objects[k]? = some shmem) (sized : shmem.phase = .sized) (done : Bool) :
    Sound orderly (mmap s k done shmem) := by
  have present : shmem.phase ≠ .gone := by simp [sized]
  have holding := sound.each here
  unfold mmap
  split
  · rename_i granted
    refine set_sound sound here (claim_moves .mapped present (by simp))
      ⟨nofun,holding.old,holding.maker,nofun,nofun,nofun,fun _ => ?_⟩
    obtain ⟨segment,there,same | empty⟩ := holding.sized sized
    · exact ⟨segment,there,same,granted.2⟩
    · exact (granted.2 empty).elim
  · exact fail_sound sound here present

-- From the mapping on, an object keeps what it has.
theorem attached_sound (sound : Sound orderly s) (here : s.objects[k]? = some shmem) (attached : Attached shmem.phase) {phase : Phase}
    (then_ : Attached phase) : Sound orderly (set_object s k {shmem with phase := phase}) := by
  have holding := sound.each here
  have present : shmem.phase ≠ .gone := by
    intro gone
    simp [Attached,gone] at attached
  have stays : phase ≠ .gone := by
    rintro rfl
    simp [Attached] at then_
  refine set_sound sound here (claim_moves phase present stays)
    ⟨?_,holding.old,holding.maker,?_,?_,?_,fun _ => holding.attached attached⟩
  · rintro rfl
    simp [Attached] at then_
  · rintro _ rfl
    simp [Attached] at then_
  · rintro _ _ _ rfl
    simp [Attached] at then_
  · rintro rfl
    simp [Attached] at then_

-- An object that is gone keeps its place.
theorem Holding.ended (holding : Holding made sizes shmem) : Holding made sizes {shmem with phase := .gone} :=
  ⟨nofun,holding.old,holding.maker,nofun,nofun,nofun,by simp [Attached]⟩

-- The objects of a process that ends lose their claims.
theorem claims_exit (s : System ν) (pid : Nat) (j : Nat) :
    System.claims {s with objects := s.objects.map (end_process pid)} j =
      (s.objects[j]?).bind fun shmem => if shmem.pid = pid then none else claim shmem := by
  unfold System.claims claims
  rw [List.getElem?_map]
  cases s.objects[j]? with
  | none => rfl
  | some x =>
    simp only [Option.map_some,Option.bind_some,end_process]
    split
    · exact claim_gone rfl
    · rfl

theorem exit_sound (sound : Sound orderly s) (pid : Nat)
    (idle : orderly → ∀ shmem ∈ s.objects, shmem.pid = pid → claim shmem = none) :
    Sound orderly {s with objects := s.objects.map (end_process pid)} where
  kept := by
    apply sound.kept.fewer
    intro j c mine
    rw [claims_exit] at mine
    obtain ⟨x,here,mine⟩ := Option.bind_eq_some_iff.mp mine
    split at mine
    · cases mine
    · exact (claims_at here).trans mine
  complete := by
    intro all name segment bound
    obtain ⟨j,mine⟩ := sound.complete all name segment bound
    refine ⟨j,?_⟩
    obtain ⟨x,here,mine⟩ := Option.bind_eq_some_iff.mp mine
    rw [claims_exit,here,Option.bind_some,if_neg,mine]
    intro ends
    rw [idle all x (List.mem_of_getElem? here) ends] at mine
    cases mine
  each := by
    intro j x there
    rw [List.getElem?_map] at there
    obtain ⟨y,here,same⟩ := Option.map_eq_some_iff.mp there
    have holding := sound.each here
    unfold end_process at same
    split at same
    · rw [← same]
      exact holding.ended
    · rwa [← same]
  unlinks := sound.unlinks

-- A copy in a child has nothing to remove.
theorem copy_parts {parent child : Nat} {x : Shmem ν} (member : x ∈ copies s parent child) :
    ∃ y ∈ s.objects, y.phase = .live ∧ x = {y with pid := child} := by
  unfold copies at member
  obtain ⟨y,there,rfl⟩ := List.mem_map.mp member
  obtain ⟨there,live⟩ := List.mem_filter.mp there
  exact ⟨y,there,(of_decide_eq_true live).2,rfl⟩

theorem copy_claim {parent child : Nat} {x : Shmem ν} (fresh : ∀ y ∈ s.objects, y.owner_id ≠ some child)
    (member : x ∈ copies s parent child) : claim x = none := by
  obtain ⟨y,there,_,rfl⟩ := copy_parts member
  simp [claim,cplus_sharedmem_is_owner,fresh y there]

theorem more_sound (sound : Sound orderly s) {more : List (Shmem ν)} (idle : ∀ x ∈ more, claim x = none)
    (holding : ∀ x ∈ more, Holding s.names.made s.sizes x) : Sound orderly {s with objects := s.objects ++ more} where
  kept := by
    have same : System.claims {s with objects := s.objects ++ more} = s.claims := claims_more idle
    exact same ▸ sound.kept
  complete := by
    have same : System.claims {s with objects := s.objects ++ more} = s.claims := claims_more idle
    exact same ▸ sound.complete
  each := by
    intro j x there
    rcases Nat.lt_or_ge j s.objects.length with inside | beyond
    · rw [List.getElem?_append_left inside] at there
      exact sound.each there
    · rw [List.getElem?_append_right beyond] at there
      exact holding x (List.mem_of_getElem? there)
  unlinks := sound.unlinks

theorem fork_sound (sound : Sound orderly s) {parent child : Nat} (fresh : ∀ y ∈ s.objects, y.owner_id ≠ some child) :
    Sound orderly {s with objects := s.objects ++ copies s parent child} := by
  apply more_sound sound
  · intro x member
    exact copy_claim fresh member
  · intro x member
    obtain ⟨y,there,live,rfl⟩ := copy_parts member
    obtain ⟨j,here⟩ := List.mem_iff_getElem?.mp there
    have holding := sound.each here
    refine ⟨?_,holding.old,holding.maker,?_,?_,?_,fun _ => holding.attached (.inr (.inl live))⟩
    · simp [live]
    · simp [live]
    · simp [live]
    · simp [live]

theorem malloc_sound (sound : Sound orderly s) (pid : Nat) (creation : Creation) (name : ν) (size : Nat) :
    Sound orderly {s with objects := s.objects ++ [⟨pid,creation,.named,name,size,none,false,none⟩]} := by
  apply more_sound sound
  · intro x member
    rw [List.mem_singleton.mp member]
    rfl
  · intro x member
    rw [List.mem_singleton.mp member]
    exact ⟨fun _ => rfl,nofun,nofun,nofun,fun there => (Option.some_ne_none _ there.symm).elim,nofun,by simp [Attached]⟩

theorem object_parts {phases : List Phase} {step : Shmem ν → System ν} (taken : object_step s k phases step = some t) :
    ∃ shmem, s.objects[k]? = some shmem ∧ shmem.phase ∈ phases ∧ t = step shmem := by
  unfold object_step at taken
  obtain ⟨shmem,here,taken⟩ := Option.bind_eq_some_iff.mp taken
  split at taken
  · cases taken
    exact ⟨shmem,here,‹_›,rfl⟩
  · cases taken

theorem Sound.consistent (sound : Sound orderly s) : Consistent s where
  unlinks := sound.unlinks
  owners := by
    intro shmem member present owner
    obtain ⟨k,here⟩ := List.mem_iff_getElem?.mp member
    have owned : shmem.is_owner = true := by
      simp only [cplus_sharedmem_is_owner,Bool.and_eq_true] at owner
      exact owner.1
    obtain ⟨segment,there⟩ := (sound.each here).maker owned
    exact ⟨segment,there,sound.kept.holds ((claims_at here).trans (claim_of present owner there))⟩
  attached := by
    intro shmem member live
    obtain ⟨k,here⟩ := List.mem_iff_getElem?.mp member
    exact (sound.each here).attached (.inr (.inl live))

-- Every name that is bound has an object that will remove it.
def Removable (s : System ν) : Prop := ∀ name segment, s.names.bound name = some segment →
  ∃ shmem ∈ s.objects, shmem.phase ≠ .gone ∧ cplus_sharedmem_is_owner shmem = true ∧ shmem.name = name ∧
    shmem.segment = some segment

theorem Sound.removable (sound : Sound True s) : Removable s := by
  intro name segment bound
  obtain ⟨k,mine⟩ := sound.complete trivial name segment bound
  obtain ⟨shmem,here,mine⟩ := Option.bind_eq_some_iff.mp mine
  obtain ⟨present,owner,there,same⟩ := claim_parts mine
  exact ⟨shmem,List.mem_of_getElem? here,present,owner,same,there⟩

-- A process that ends before it removed its name leaves it for good.
theorem exit_breaks (sound : Sound True s) {pid : Nat} (messy : ¬ Orderly s (.exit pid)) :
    ¬ Removable {s with objects := s.objects.map (end_process pid)} := by
  intro removable
  simp only [Orderly,not_forall] at messy
  obtain ⟨shmem,member,ends,mine⟩ := messy
  obtain ⟨⟨name,segment⟩,mine⟩ := Option.ne_none_iff_exists'.mp mine
  obtain ⟨k,here⟩ := List.mem_iff_getElem?.mp member
  have holds : s.claims k = some (name,segment) := (claims_at here).trans mine
  obtain ⟨other,member,present,owner,_,there⟩ := removable name segment (sound.kept.holds holds)
  obtain ⟨j,found⟩ := List.mem_iff_getElem?.mp member
  have also := (claims_exit s pid j).symm.trans ((claims_at found).trans (claim_of present owner there))
  obtain ⟨x,before,also⟩ := Option.bind_eq_some_iff.mp also
  split at also
  · cases also
  · rename_i stays
    obtain rfl := sound.kept.sole ((claims_at before).trans also) holds
    rw [here] at before
    cases before
    exact stays ends

variable [DecidableEq ν]

theorem claims_make (here : s.objects[k]? = some shmem) :
    (make_segment s k shmem).claims = Function.update s.claims k (some (shmem.name,s.names.made)) := by
  refine (claims_moved here _).trans (congrArg _ ?_)
  exact claim_of (by simp) (by simp [cplus_sharedmem_is_owner]) rfl

theorem make_sound (sound : Sound orderly s) (here : s.objects[k]? = some shmem) (named : shmem.phase = .named)
    (free : s.names.bound shmem.name = none) : Sound orderly (make_segment s k shmem) where
  kept := by
    rw [claims_make here]
    exact sound.kept.enter free
  complete := by
    intro all
    rw [claims_make here]
    apply (sound.complete all).enter
    exact (claims_at here).trans (claim_named ((sound.each here).named named))
  each := by
    intro j x there
    obtain ⟨_,rfl⟩ | ⟨_,there⟩ := set_parts here there
    · refine ⟨nofun,?_,fun _ => ⟨_,rfl⟩,fun _ _ => rfl,?_,nofun,by simp [Attached]⟩
      · intro segment there
        cases there
        exact Nat.lt_succ_self _
      · intro segment there _ _
        cases there
        exact Function.update_self ..
    · exact (sound.each there).grow
  unlinks := sound.unlinks

theorem open_sound (sound : Sound orderly s) (here : s.objects[k]? = some shmem) (named : shmem.phase = .named) (granted : Bool) :
    Sound orderly (shm_open s k granted shmem) := by
  have failed : Sound orderly (fail s k shmem) := fail_sound sound here (by simp [named])
  unfold shm_open
  split
  · split
    · exact make_sound sound here named ‹_›
    · exact failed
    · exact failed
    · exact find_sound sound here named ‹_›
    · have holding := sound.each here
      exact set_sound sound here rfl
        ⟨holding.named,holding.old,holding.maker,holding.first,holding.raw,holding.sized,holding.attached⟩
    · exact find_sound sound here named ‹_›
  · exact failed

theorem leave_sound (sound : Sound orderly s) (here : s.objects[k]? = some shmem) (present : shmem.phase ≠ .gone) :
    Sound orderly (leave s k shmem) := by
  have holding := sound.each here
  unfold leave
  split
  · rename_i owner
    have owned : shmem.is_owner = true := by
      simp only [cplus_sharedmem_is_owner,Bool.and_eq_true] at owner
      exact owner.1
    obtain ⟨segment,there⟩ := holding.maker owned
    have mine : s.claims k = some (shmem.name,segment) := (claims_at here).trans (claim_of present owner there)
    have now := claims_moved here {shmem with phase := .gone}
    rw [claim_gone rfl] at now
    refine ⟨now ▸ sound.kept.unlink mine,fun all => now ▸ (sound.complete all).unlink mine,?_,?_⟩
    · intro j x found
      obtain ⟨_,rfl⟩ | ⟨_,found⟩ := set_parts here found
      · exact holding.ended
      · exact sound.each found
    · intro u member
      rcases List.mem_append.mp member with early | last
      · exact sound.unlinks u early
      · rw [List.mem_singleton.mp last]
        exact ⟨segment,there,sound.kept.holds mine⟩
  · rename_i foreign
    apply set_sound sound here _ holding.ended
    rw [claim_gone rfl]
    simp [claim,foreign]

theorem step_sound {action : Action ν} (sound : Sound orderly s) (taken : advance s action = some t) (fresh : Fresh s action)
    (ordered : orderly → Orderly s action) : Sound orderly t := by
  cases action with
  | malloc pid creation name size =>
    cases taken
    exact malloc_sound sound pid creation name size
  | shm_open k granted =>
    obtain ⟨shmem,here,phase,rfl⟩ := object_parts taken
    exact open_sound sound here (List.mem_singleton.mp phase) granted
  | set_size k done =>
    obtain ⟨shmem,here,phase,rfl⟩ := object_parts taken
    exact size_sound sound here (List.mem_singleton.mp phase) done
  | mmap k done =>
    obtain ⟨shmem,here,phase,rfl⟩ := object_parts taken
    exact mmap_sound sound here (List.mem_singleton.mp phase) done
  | close k =>
    obtain ⟨shmem,here,phase,rfl⟩ := object_parts taken
    exact attached_sound sound here (.inl (List.mem_singleton.mp phase)) (.inr (.inl rfl))
  | delete k =>
    obtain ⟨shmem,here,phase,rfl⟩ := object_parts taken
    exact attached_sound sound here (.inr (.inl (List.mem_singleton.mp phase))) (.inr (.inr rfl))
  | leave k =>
    obtain ⟨shmem,here,phase,rfl⟩ := object_parts taken
    apply leave_sound sound here
    intro gone
    simp [gone] at phase
  | fork parent child =>
    simp only [advance] at taken
    split at taken
    · cases taken
    · cases taken
      exact fork_sound sound fresh
  | exit pid =>
    cases taken
    exact exit_sound sound pid ordered

theorem start_sound (orderly : Prop) (ν : Type) : Sound orderly (start ν) := ⟨kept_empty,fun _ => complete_empty,nofun,nofun⟩

-- However processes make, find, copy and delete their objects: nobody removes a name
-- of somebody else's segment, and nobody gets a segment that its maker has not finished.
theorem segments_kept {moves : List (Move (System ν) (Action ν))} (run : Run (Follows advance) (start ν) moves s)
    (fresh : Meets Fresh moves) : Consistent s ∧ Throughout Consistent moves := by
  obtain ⟨sound,throughout⟩ := run.keeps Fresh (start_sound False ν)
    (fun sound taken fresh => step_sound sound taken fresh False.elim) fresh
  exact ⟨sound.consistent,throughout.imp fun _ sound => sound.consistent⟩

-- One process finds the segment before it has a size, another time it gets it; the
-- child of the maker deletes its copy; and the name is used anew.
def shared_actions : List (Action Nat) :=
  [.malloc 1 .new 0 64,.shm_open 0 true,.shm_open 0 true,.malloc 2 .opening 0 0,.shm_open 1 true,.set_size 1 true,
   .mmap 1 true,.leave 1,.set_size 0 true,.mmap 0 true,.close 0,.malloc 2 .new 0 8,.shm_open 2 true,.set_size 2 true,
   .mmap 2 true,.close 2,.fork 1 3,.delete 3,.leave 3,.delete 0,.leave 0,.malloc 2 .create 0 8,.shm_open 4 true]

theorem shared_kept : ∃ moves s, Run (Follows advance) (start Nat) moves s ∧ moves.map Move.action = shared_actions ∧
    s.names.bound 0 = some 1 ∧ s.unlinks = [⟨some 0,some 0⟩] ∧ Consistent s := by
  obtain ⟨moves,s,run,same,checked⟩ := Run.of_check advance (start Nat) shared_actions
    (fun result => decide (Meets Fresh result.1 ∧ result.2.names.bound 0 = some 1 ∧ result.2.unlinks = [⟨some 0,some 0⟩]))
    (by decide +kernel)
  obtain ⟨fresh,bound,unlinks⟩ := of_decide_eq_true checked
  exact ⟨moves,s,run,same,bound,unlinks,(segments_kept run fresh).1⟩

-- What a step does to the names, and to those that will remove them.
inductive Renames (s t : System ν) : Prop where
  | kept (names : t.names = s.names) (part : ∀ j c, t.claims j = some c → s.claims j = some c)
  | made (k : Nat) (name : ν) (free : s.names.bound name = none) (names : t.names = s.names.enter name)
      (claims : t.claims = Function.update s.claims k (some (name,s.names.made)))
  | removed (k : Nat) (name : ν) (segment : Nat) (mine : s.claims k = some (name,segment)) (names : t.names = s.names.unlink name)
      (claims : t.claims = Function.update s.claims k none)

omit [DecidableEq ν] in
theorem same_part (same : t.claims = s.claims) : ∀ j c, t.claims j = some c → s.claims j = some c := by
  intro j c mine
  rwa [← same]

theorem moved_renames (here : s.objects[k]? = some shmem) (same : claim next = claim shmem) : Renames s (set_object s k next) :=
  .kept rfl (same_part (claims_kept here same))

theorem open_renames (sound : Sound orderly s) (here : s.objects[k]? = some shmem) (named : shmem.phase = .named) (granted : Bool) :
    Renames s (shm_open s k granted shmem) := by
  have failed : Renames s (fail s k shmem) := moved_renames here (claim_moves .failing (by simp [named]) (by simp))
  have found (segment : Nat) : Renames s (find_segment s k shmem segment) := by
    apply moved_renames here
    rw [claim_named rfl,claim_named ((sound.each here).named named)]
  unfold shm_open
  split
  · split
    · exact .made k shmem.name ‹_› rfl (claims_make here)
    · exact failed
    · exact failed
    · exact found _
    · exact moved_renames here rfl
    · exact found _
  · exact failed

theorem size_renames (here : s.objects[k]? = some shmem) (present : shmem.phase ≠ .gone) (done : Bool) :
    Renames s (set_size s k done shmem) := by
  have moved (size : Nat) : claim {shmem with phase := .sized,size := size} = claim shmem := by
    simp [claim,cplus_sharedmem_is_owner,present]
  unfold set_size
  split
  · split
    · exact .kept rfl (same_part (claims_kept here (moved shmem.size)))
    · exact moved_renames here (moved _)
  · exact moved_renames here (claim_moves .failing present (by simp))

theorem leave_renames (sound : Sound orderly s) (here : s.objects[k]? = some shmem) (present : shmem.phase ≠ .gone) :
    Renames s (leave s k shmem) := by
  have now := claims_moved here {shmem with phase := .gone}
  rw [claim_gone rfl] at now
  unfold leave
  split
  · rename_i owner
    have owned : shmem.is_owner = true := by
      simp only [cplus_sharedmem_is_owner,Bool.and_eq_true] at owner
      exact owner.1
    obtain ⟨segment,there⟩ := (sound.each here).maker owned
    exact .removed k shmem.name segment ((claims_at here).trans (claim_of present owner there)) rfl now
  · refine .kept rfl fun j c mine => ?_
    rw [now] at mine
    obtain ⟨_,none_⟩ | ⟨_,mine⟩ := updated mine
    · cases none_
    · exact mine

omit [DecidableEq ν] in
theorem exit_part (s : System ν) (pid j : Nat) (c : ν × Nat)
    (mine : System.claims {s with objects := s.objects.map (end_process pid)} j = some c) :
    s.claims j = some c ∧ ∀ shmem, s.objects[j]? = some shmem → shmem.pid ≠ pid := by
  rw [claims_exit] at mine
  obtain ⟨x,here,mine⟩ := Option.bind_eq_some_iff.mp mine
  split at mine
  · cases mine
  · refine ⟨(claims_at here).trans mine,fun shmem found => ?_⟩
    cases here.symm.trans found
    assumption

theorem step_renames {action : Action ν} (sound : Sound orderly s) (taken : advance s action = some t) (fresh : Fresh s action) :
    Renames s t := by
  cases action with
  | malloc pid creation name size =>
    cases taken
    exact .kept rfl (same_part (claims_more fun x member => by rw [List.mem_singleton.mp member]; rfl))
  | shm_open k granted =>
    obtain ⟨shmem,here,phase,rfl⟩ := object_parts taken
    exact open_renames sound here (List.mem_singleton.mp phase) granted
  | set_size k done =>
    obtain ⟨shmem,here,phase,rfl⟩ := object_parts taken
    exact size_renames here (by simp [List.mem_singleton.mp phase]) done
  | mmap k done =>
    obtain ⟨shmem,here,phase,rfl⟩ := object_parts taken
    have present : shmem.phase ≠ .gone := by simp [List.mem_singleton.mp phase]
    unfold mmap
    split
    · exact moved_renames here (claim_moves .mapped present (by simp))
    · exact moved_renames here (claim_moves .failing present (by simp))
  | close k =>
    obtain ⟨shmem,here,phase,rfl⟩ := object_parts taken
    exact moved_renames here (claim_moves .live (by simp [List.mem_singleton.mp phase]) (by simp))
  | delete k =>
    obtain ⟨shmem,here,phase,rfl⟩ := object_parts taken
    exact moved_renames here (claim_moves .deleting (by simp [List.mem_singleton.mp phase]) (by simp))
  | leave k =>
    obtain ⟨shmem,here,phase,rfl⟩ := object_parts taken
    apply leave_renames sound here
    intro gone
    simp [gone] at phase
  | fork parent child =>
    simp only [advance] at taken
    split at taken
    · cases taken
    · cases taken
      exact .kept rfl (same_part (claims_more fun x member => copy_claim fresh member))
  | exit pid =>
    cases taken
    exact .kept rfl fun j c mine => (exit_part s pid j c mine).1

-- A name that nobody removes any more stays, whatever is done afterwards.
theorem abandoned_stays {action : Action ν} {name : ν} (sound : Sound orderly s) (taken : advance s action = some t)
    (fresh : Fresh s action) (left : Abandoned s.names s.claims name segment) : Abandoned t.names t.claims name segment := by
  cases step_renames sound taken fresh with
  | kept names part =>
    rw [names]
    exact left.fewer part
  | made k other free names claims =>
    rw [names,claims]
    exact left.enter free
  | removed k other o mine names claims =>
    rw [names,claims]
    exact left.unlink sound.kept mine

-- The names that processes left behind so far.
def LeftBehind (moves : List (Move (System ν) (Action ν))) (name : ν) (segment : Nat) : Prop :=
  ∃ m ∈ moves, ∃ pid, m.action = .exit pid ∧ ∃ shmem ∈ m.before.objects, shmem.pid = pid ∧ claim shmem = some (name,segment)

theorem left_abandoned {moves : List (Move (System ν) (Action ν))} (run : Run (Follows advance) (start ν) moves s)
    (fresh : Meets Fresh moves) {name : ν} (left : LeftBehind moves name segment) : Abandoned s.names s.claims name segment := by
  induction run with
  | nil =>
    obtain ⟨_,member,_⟩ := left
    cases member
  | @snoc moves s a t prior taken ih =>
    obtain ⟨earlier,here⟩ := meets_snoc.mp fresh
    have sound : Sound False s := (prior.keeps Fresh (start_sound False ν)
      (fun sound taken fresh => step_sound sound taken fresh False.elim) earlier).1
    obtain ⟨m,member,pid,exits,shmem,there,ends,mine⟩ := left
    rcases List.mem_append.mp member with before | last
    · exact abandoned_stays sound taken here (ih earlier ⟨m,before,pid,exits,shmem,there,ends,mine⟩)
    · -- the process that ends here
      obtain rfl := List.mem_singleton.mp last
      cases exits
      cases taken
      obtain ⟨k,found⟩ := List.mem_iff_getElem?.mp there
      refine sound.kept.abandons ((claims_at found).trans mine) fun j c theirs => ?_
      obtain ⟨theirs,stays⟩ := exit_part s pid j c theirs
      refine ⟨?_,theirs⟩
      rintro rfl
      exact stays shmem found ends

-- Names are removed with their segments exactly when no process ends without deleting
-- the objects that it owns, and the names of one that does stay for good.
theorem names_freed {moves : List (Move (System ν) (Action ν))} (run : Run (Follows advance) (start ν) moves s)
    (fresh : Meets Fresh moves) : (Throughout Removable moves ↔ Meets Orderly moves) ∧
      ∀ name segment, LeftBehind moves name segment → s.names.bound name = some segment := by
  constructor
  · apply (run.meeting fresh).exact (start_sound True ν)
    · intro s a t sound taken orderly
      exact step_sound sound taken.1 taken.2 fun _ => orderly
    · intro s sound
      exact sound.removable
    · intro s a t sound taken messy
      cases a with
      | exit pid =>
        cases taken.1
        exact exit_breaks sound messy
      | _ => exact (messy trivial).elim
  · intro name segment left
    exact (left_abandoned run fresh left).bound

-- A maker that ends while it waits for ftruncate, and another process that cannot make
-- a segment of that name any more.
def left_actions : List (Action Nat) :=
  [.malloc 1 .create 0 8,.shm_open 0 true,.exit 1,.malloc 2 .create 0 8,.shm_open 1 true,.leave 1]

theorem name_left : ∃ moves s, Run (Follows advance) (start Nat) moves s ∧ moves.map Move.action = left_actions ∧
    s.names.bound 0 = some 0 ∧ ¬ Throughout Removable moves := by
  obtain ⟨moves,s,run,same,checked⟩ := Run.of_check advance (start Nat) left_actions
    (fun result => decide (Meets Fresh result.1 ∧ ¬ Meets Orderly result.1 ∧ result.2.names.bound 0 = some 0)) (by decide +kernel)
  obtain ⟨fresh,messy,bound⟩ := of_decide_eq_true checked
  exact ⟨moves,s,run,same,bound,fun removable => messy ((names_freed run fresh).1.mp removable)⟩

end Libcplus.Segments
