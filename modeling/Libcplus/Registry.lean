import Mathlib.Logic.Function.Basic

-- Names that stand for objects, and who is going to remove them.
namespace Registry
variable {ν ι : Type}

-- Objects are numbered as they are made.
structure Table (ν : Type) where
  bound : ν → Option Nat
  made : Nat

def empty : Table ν := ⟨fun _ => none,0⟩

def Table.enter [DecidableEq ν] (r : Table ν) (name : ν) : Table ν :=
  ⟨Function.update r.bound name (some r.made),r.made + 1⟩

def Table.unlink [DecidableEq ν] (r : Table ν) (name : ν) : Table ν :=
  {r with bound := Function.update r.bound name none}

-- `claim i` is the name that `i` is going to remove, with the object it made for it.
structure Kept (r : Table ν) (claim : ι → Option (ν × Nat)) : Prop where
  holds : ∀ {i name object}, claim i = some (name,object) → r.bound name = some object
  sole : ∀ {i j name other object}, claim i = some (name,object) → claim j = some (other,object) → i = j
  old : ∀ {name object}, r.bound name = some object → object < r.made
  single : ∀ {name other object}, r.bound name = some object → r.bound other = some object → name = other

-- No name is left without somebody who removes it.
def Complete (r : Table ν) (claim : ι → Option (ν × Nat)) : Prop :=
  ∀ name object, r.bound name = some object → ∃ i, claim i = some (name,object)

variable {r : Table ν} {claim less : ι → Option (ν × Nat)} {i j : ι} {name : ν} {object : Nat}

theorem kept_empty : Kept (empty : Table ν) fun _ : ι => none := ⟨nofun,nofun,nofun,nofun⟩

theorem complete_empty : Complete (empty : Table ν) claim := nofun

theorem Kept.fewer (kept : Kept r claim) (part : ∀ {i c}, less i = some c → claim i = some c) : Kept r less where
  holds := fun mine => kept.holds (part mine)
  sole := fun mine other => kept.sole (part mine) (part other)
  old := kept.old
  single := kept.single

-- A name has one remover at most.
theorem Kept.exclusive {other : Nat} (kept : Kept r claim) (mine : claim i = some (name,object))
    (theirs : claim j = some (name,other)) : i = j := by
  have same : some object = some other := (kept.holds mine).symm.trans (kept.holds theirs)
  cases same
  exact kept.sole mine theirs

-- What `claim` is after it changed for `i` only.
theorem updated [DecidableEq ι] {c d : Option (ν × Nat)} (now : Function.update claim i d j = c) :
    j = i ∧ d = c ∨ j ≠ i ∧ claim j = c := by
  by_cases this : j = i
  · rw [this,Function.update_self] at now
    exact .inl ⟨this,now⟩
  · rw [Function.update_of_ne this] at now
    exact .inr ⟨this,now⟩

-- Objects in a list, each with the claim it makes.
section Lists
variable {β : Type} {claim : β → Option (ν × Nat)} {objects more : List β} {b next : β} {j k : Nat}

def claims (claim : β → Option (ν × Nat)) (objects : List β) (k : Nat) : Option (ν × Nat) := (objects[k]?).bind claim

theorem claims_at (here : objects[k]? = some b) : claims claim objects k = claim b := by
  unfold claims
  rw [here]
  rfl

theorem set_parts (here : objects[k]? = some b) {c : β} (there : (objects.set k next)[j]? = some c) :
    j = k ∧ c = next ∨ j ≠ k ∧ objects[j]? = some c := by
  by_cases this : j = k
  · subst this
    rw [List.getElem?_set_self (List.getElem?_eq_some_iff.mp here).1] at there
    exact .inl ⟨rfl,(Option.some.inj there).symm⟩
  · rw [List.getElem?_set_ne (Ne.symm this)] at there
    exact .inr ⟨this,there⟩

theorem claims_set (here : objects[k]? = some b) (next : β) :
    claims claim (objects.set k next) = Function.update (claims claim objects) k (claim next) := by
  funext j
  unfold claims
  by_cases this : j = k
  · subst this
    rw [Function.update_self,List.getElem?_set_self (List.getElem?_eq_some_iff.mp here).1]
    rfl
  · rw [Function.update_of_ne this,List.getElem?_set_ne (Ne.symm this)]

-- An object that goes on without a change of its claim.
theorem claims_same (here : objects[k]? = some b) (same : claim next = claim b) :
    claims claim (objects.set k next) = claims claim objects := by
  have now : claim next = claims claim objects k := same.trans (claims_at here).symm
  rw [claims_set here,now,Function.update_eq_self]

-- More objects, without a claim.
theorem claims_more (idle : ∀ c ∈ more, claim c = none) : claims claim (objects ++ more) = claims claim objects := by
  funext j
  unfold claims
  rcases Nat.lt_or_ge j objects.length with inside | beyond
  · rw [List.getElem?_append_left inside]
  · rw [List.getElem?_append_right beyond,List.getElem?_eq_none beyond]
    cases there : more[j - objects.length]? with
    | none => rfl
    | some c => exact idle c (List.mem_of_getElem? there)

-- A change of all objects that only takes claims away.
theorem claims_map {change : β → β} {c : ν × Nat} (less : ∀ b c, claim (change b) = some c → claim b = some c)
    (mine : claims claim (objects.map change) j = some c) : claims claim objects j = some c := by
  unfold claims at mine ⊢
  rw [List.getElem?_map] at mine
  cases there : objects[j]? with
  | none =>
    rw [there] at mine
    cases mine
  | some b =>
    rw [there] at mine
    exact less b c mine

end Lists

section Names
variable [DecidableEq ν]

@[simp] theorem enter_self (r : Table ν) (name : ν) : (r.enter name).bound name = some r.made := Function.update_self ..

theorem enter_other {n : ν} (apart : n ≠ name) : (r.enter name).bound n = r.bound n := Function.update_of_ne apart ..

@[simp] theorem enter_made (r : Table ν) (name : ν) : (r.enter name).made = r.made + 1 := rfl

@[simp] theorem unlink_self (r : Table ν) (name : ν) : (r.unlink name).bound name = none := Function.update_self ..

theorem unlink_other {n : ν} (apart : n ≠ name) : (r.unlink name).bound n = r.bound n := Function.update_of_ne apart ..

@[simp] theorem unlink_made (r : Table ν) (name : ν) : (r.unlink name).made = r.made := rfl

theorem Kept.old_unlink (kept : Kept r claim) {n : ν} (bound : (r.unlink name).bound n = some object) : object < r.made := by
  by_cases this : n = name
  · rw [this,unlink_self] at bound
    cases bound
  · exact kept.old ((unlink_other this).symm.trans bound)

theorem Kept.single_unlink (kept : Kept r claim) {n m : ν} (bound : (r.unlink name).bound n = some object)
    (also : (r.unlink name).bound m = some object) : n = m := by
  by_cases this : n = name
  · rw [this,unlink_self] at bound
    cases bound
  by_cases that : m = name
  · rw [that,unlink_self] at also
    cases also
  · rw [unlink_other this] at bound
    rw [unlink_other that] at also
    exact kept.single bound also

-- A name that nobody claims may go.
theorem Kept.unlink_free (kept : Kept r claim) (free : ∀ i object, claim i ≠ some (name,object)) :
    Kept (r.unlink name) claim where
  holds := by
    intro i n o mine
    have apart : n ≠ name := by
      intro same
      rw [same] at mine
      exact free i o mine
    exact (unlink_other apart).trans (kept.holds mine)
  sole := kept.sole
  old := kept.old_unlink
  single := kept.single_unlink

end Names

variable [DecidableEq ν] [DecidableEq ι]

theorem Kept.enter (kept : Kept r claim) (free : r.bound name = none) :
    Kept (r.enter name) (Function.update claim i (some (name,r.made))) where
  holds := by
    intro k n o mine
    obtain ⟨_,made⟩ | ⟨_,mine⟩ := updated mine
    · cases made
      exact enter_self r name
    · have bound := kept.holds mine
      have apart : n ≠ name := by
        intro same
        rw [same,free] at bound
        cases bound
      exact (enter_other apart).trans bound
  sole := by
    intro k l n m o mine theirs
    have fresh {k : ι} {n : ν} (claims : claim k = some (n,r.made)) : False :=
      Nat.lt_irrefl _ (kept.old (kept.holds claims))
    obtain ⟨this,made⟩ | ⟨_,mine⟩ := updated mine
    · cases made
      obtain ⟨that,_⟩ | ⟨_,theirs⟩ := updated theirs
      · rw [this,that]
      · exact (fresh theirs).elim
    · obtain ⟨_,made⟩ | ⟨_,theirs⟩ := updated theirs
      · cases made
        exact (fresh mine).elim
      · exact kept.sole mine theirs
  old := by
    intro n o bound
    by_cases this : n = name
    · rw [this,enter_self] at bound
      cases bound
      exact Nat.lt_succ_self _
    · rw [enter_other this] at bound
      exact Nat.lt_succ_of_lt (kept.old bound)
  single := by
    intro n m o bound also
    by_cases this : n = name
    · by_cases that : m = name
      · rw [this,that]
      · rw [this,enter_self] at bound
        rw [enter_other that] at also
        cases bound
        exact (Nat.lt_irrefl _ (kept.old also)).elim
    · rw [enter_other this] at bound
      by_cases that : m = name
      · rw [that,enter_self] at also
        cases also
        exact (Nat.lt_irrefl _ (kept.old bound)).elim
      · rw [enter_other that] at also
        exact kept.single bound also

theorem Kept.unlink (kept : Kept r claim) (mine : claim i = some (name,object)) :
    Kept (r.unlink name) (Function.update claim i none) where
  holds := by
    intro k n o claims
    obtain ⟨_,made⟩ | ⟨other,claims⟩ := updated claims
    · cases made
    · have apart : n ≠ name := by
        intro same
        subst same
        exact other (kept.exclusive claims mine)
      exact (unlink_other apart).trans (kept.holds claims)
  sole := by
    intro k l n m o claims theirs
    obtain ⟨_,gone⟩ | ⟨_,claims⟩ := updated claims
    · cases gone
    · obtain ⟨_,gone⟩ | ⟨_,theirs⟩ := updated theirs
      · cases gone
      · exact kept.sole claims theirs
  old := kept.old_unlink
  single := kept.single_unlink

theorem Complete.enter (complete : Complete r claim) (idle : claim i = none) :
    Complete (r.enter name) (Function.update claim i (some (name,r.made))) := by
  intro n o bound
  by_cases this : n = name
  · rw [this,enter_self] at bound
    cases bound
    rw [this]
    exact ⟨i,Function.update_self ..⟩
  · obtain ⟨k,claims⟩ := complete _ _ ((enter_other this).symm.trans bound)
    have apart : k ≠ i := by
      rintro rfl
      rw [idle] at claims
      cases claims
    exact ⟨k,(Function.update_of_ne apart ..).trans claims⟩

theorem Complete.unlink (complete : Complete r claim) (mine : claim i = some (name,object)) :
    Complete (r.unlink name) (Function.update claim i none) := by
  intro n o bound
  by_cases this : n = name
  · rw [this,unlink_self] at bound
    cases bound
  · obtain ⟨k,claims⟩ := complete _ _ ((unlink_other this).symm.trans bound)
    have apart : k ≠ i := by
      rintro rfl
      rw [mine] at claims
      cases claims
      exact this rfl
    exact ⟨k,(Function.update_of_ne apart ..).trans claims⟩

-- A name whose object nobody is going to remove.
structure Abandoned (r : Table ν) (claim : ι → Option (ν × Nat)) (name : ν) (object : Nat) : Prop where
  bound : r.bound name = some object
  free : ∀ i, claim i ≠ some (name,object)

section Abandoned
variable {other : ν} {o : Nat}

omit [DecidableEq ν] [DecidableEq ι] in
-- One that gives up its claim leaves the name without another remover.
theorem Kept.abandons (kept : Kept r claim) (mine : claim i = some (name,object))
    (part : ∀ j c, less j = some c → j ≠ i ∧ claim j = some c) : Abandoned r less name object where
  bound := kept.holds mine
  free := by
    intro j theirs
    obtain ⟨apart,theirs⟩ := part j _ theirs
    exact apart (kept.sole theirs mine)

omit [DecidableEq ν] [DecidableEq ι] in
theorem Abandoned.fewer (left : Abandoned r claim name object) (part : ∀ j c, less j = some c → claim j = some c) :
    Abandoned r less name object := ⟨left.bound,fun j theirs => left.free j (part j _ theirs)⟩

theorem Abandoned.enter (left : Abandoned r claim name object) (free : r.bound other = none) :
    Abandoned (r.enter other) (Function.update claim i (some (other,r.made))) name object := by
  have apart : name ≠ other := by
    rintro rfl
    cases free.symm.trans left.bound
  refine ⟨(enter_other apart).trans left.bound,fun j theirs => ?_⟩
  obtain ⟨_,now⟩ | ⟨_,theirs⟩ := updated theirs
  · cases now
    exact apart rfl
  · exact left.free j theirs

theorem Abandoned.unlink (left : Abandoned r claim name object) (kept : Kept r claim) (mine : claim i = some (other,o)) :
    Abandoned (r.unlink other) (Function.update claim i none) name object := by
  have apart : name ≠ other := by
    rintro rfl
    cases left.bound.symm.trans (kept.holds mine)
    exact left.free i mine
  refine ⟨(unlink_other apart).trans left.bound,fun j theirs => ?_⟩
  obtain ⟨_,now⟩ | ⟨_,theirs⟩ := updated theirs
  · cases now
  · exact left.free j theirs

end Abandoned

-- Users of objects under a name. `usage i` is the name that `i` came by, with its object.
structure Shared (r : Table ν) (usage : ι → Option (ν × Nat)) : Prop where
  agreed : ∀ {i j name object other}, usage i = some (name,object) → usage j = some (name,other) → object = other
  current : ∀ {i name object other}, usage i = some (name,object) → r.bound name = some other → object = other
  used : ∀ {i name object}, usage i = some (name,object) → object < r.made
  old : ∀ {name object}, r.bound name = some object → object < r.made

-- The objects in use can be found under their names.
def Found (r : Table ν) (usage : ι → Option (ν × Nat)) : Prop := ∀ i name object, usage i = some (name,object) → r.bound name = some object

section Shared
variable {usage : ι → Option (ν × Nat)}

omit [DecidableEq ν] [DecidableEq ι] in
theorem shared_empty : Shared (empty : Table ν) fun _ : ι => none := ⟨nofun,nofun,nofun,nofun⟩

-- Users that have what others have.
omit [DecidableEq ν] [DecidableEq ι] in
theorem Shared.among (shared : Shared r usage) (part : ∀ {i c}, less i = some c → ∃ j, usage j = some c) : Shared r less where
  agreed := by
    intro i j name object other mine theirs
    obtain ⟨_,mine⟩ := part mine
    obtain ⟨_,theirs⟩ := part theirs
    exact shared.agreed mine theirs
  current := by
    intro i name object other mine bound
    obtain ⟨_,mine⟩ := part mine
    exact shared.current mine bound
  used := by
    intro i name object mine
    obtain ⟨_,mine⟩ := part mine
    exact shared.used mine
  old := shared.old

omit [DecidableEq ν] in
theorem Shared.find (shared : Shared r usage) (bound : r.bound name = some object) :
    Shared r (Function.update usage i (some (name,object))) where
  agreed := by
    intro k l n o other mine theirs
    obtain ⟨_,now⟩ | ⟨_,mine⟩ := updated mine
    · cases now
      obtain ⟨_,also⟩ | ⟨_,theirs⟩ := updated theirs
      · cases also
        rfl
      · exact (shared.current theirs bound).symm
    · obtain ⟨_,now⟩ | ⟨_,theirs⟩ := updated theirs
      · cases now
        exact shared.current mine bound
      · exact shared.agreed mine theirs
  current := by
    intro k n o other mine there
    obtain ⟨_,now⟩ | ⟨_,mine⟩ := updated mine
    · cases now
      rw [bound] at there
      exact Option.some.inj there
    · exact shared.current mine there
  used := by
    intro k n o mine
    obtain ⟨_,now⟩ | ⟨_,mine⟩ := updated mine
    · cases now
      exact shared.old bound
    · exact shared.used mine
  old := shared.old

-- An object is made under a name that nobody uses.
theorem Shared.enter (shared : Shared r usage) (unused : ∀ j object, usage j ≠ some (name,object)) :
    Shared (r.enter name) (Function.update usage i (some (name,r.made))) where
  agreed := by
    intro k l n o other mine theirs
    obtain ⟨_,now⟩ | ⟨_,mine⟩ := updated mine
    · cases now
      obtain ⟨_,also⟩ | ⟨_,theirs⟩ := updated theirs
      · cases also
        rfl
      · exact (unused _ _ theirs).elim
    · obtain ⟨_,now⟩ | ⟨_,theirs⟩ := updated theirs
      · cases now
        exact (unused _ _ mine).elim
      · exact shared.agreed mine theirs
  current := by
    intro k n o other mine there
    obtain ⟨_,now⟩ | ⟨_,mine⟩ := updated mine
    · cases now
      rw [enter_self] at there
      exact Option.some.inj there
    · have apart : n ≠ name := by
        intro same
        rw [same] at mine
        exact unused _ _ mine
      rw [enter_other apart] at there
      exact shared.current mine there
  used := by
    intro k n o mine
    obtain ⟨_,now⟩ | ⟨_,mine⟩ := updated mine
    · cases now
      exact Nat.lt_succ_self _
    · exact Nat.lt_succ_of_lt (shared.used mine)
  old := by
    intro n o bound
    by_cases this : n = name
    · rw [this,enter_self] at bound
      cases bound
      exact Nat.lt_succ_self _
    · rw [enter_other this] at bound
      exact Nat.lt_succ_of_lt (shared.old bound)

omit [DecidableEq ι] in
theorem Shared.unlink (shared : Shared r usage) : Shared (r.unlink name) usage where
  agreed := shared.agreed
  current := by
    intro i n o other mine bound
    by_cases this : n = name
    · rw [this,unlink_self] at bound
      cases bound
    · rw [unlink_other this] at bound
      exact shared.current mine bound
  used := shared.used
  old := by
    intro n o bound
    by_cases this : n = name
    · rw [this,unlink_self] at bound
      cases bound
    · rw [unlink_other this] at bound
      exact shared.old bound

omit [DecidableEq ν] [DecidableEq ι] in
theorem Found.among (found : Found r usage) (part : ∀ {i c}, less i = some c → ∃ j, usage j = some c) : Found r less := by
  intro i name object mine
  obtain ⟨j,theirs⟩ := part mine
  exact found j name object theirs

omit [DecidableEq ν] in
theorem Found.find (found : Found r usage) (bound : r.bound name = some object) :
    Found r (Function.update usage i (some (name,object))) := by
  intro k n o mine
  obtain ⟨_,now⟩ | ⟨_,mine⟩ := updated mine
  · cases now
    exact bound
  · exact found k n o mine

theorem Found.enter (found : Found r usage) (free : r.bound name = none) :
    Found (r.enter name) (Function.update usage i (some (name,r.made))) := by
  intro k n o mine
  obtain ⟨_,now⟩ | ⟨_,mine⟩ := updated mine
  · cases now
    exact enter_self r name
  · have bound := found k n o mine
    have apart : n ≠ name := by
      intro same
      rw [same,free] at bound
      cases bound
    exact (enter_other apart).trans bound

omit [DecidableEq ι] in
theorem Found.unlink (found : Found r usage) (unused : ∀ i object, usage i ≠ some (name,object)) : Found (r.unlink name) usage := by
  intro i n o mine
  have apart : n ≠ name := by
    intro same
    rw [same] at mine
    exact unused i o mine
  exact (unlink_other apart).trans (found i n o mine)

end Shared

end Registry
