import Libcplus.KeyedList
import Libcplus.Data.Overwrite

-- The values of a keyed list: what is found under a key after something was put there.
namespace Libcplus.KeyedList
open Bytes Memory Typedef Transition Program Data

-- Adds and removals, of any type and under any key, that of no character too.
def Usual (s : KeyedList) : Call → Prop
  | .add _ key _ _ allocs => 0 ∉ key ∧ Granted s allocs
  | .update _ _ _ _ => False
  | .remove key => 0 ∉ key

instance (s : KeyedList) : (call : Call) → Decidable (Usual s call)
  | .add _ key _ _ allocs => inferInstanceAs (Decidable (0 ∉ key ∧ Granted s allocs))
  | .update _ _ _ _ => inferInstanceAs (Decidable False)
  | .remove key => inferInstanceAs (Decidable (0 ∉ key))

def Puts (s : KeyedList) (call : Call) (t : KeyedList) : Prop := Usual s call ∧ call.run s = some t

-- The object at an address bears a key.
def Named (s : KeyedList) (data : Addr) (key : List UInt8) : Prop := ∃ dt, s.objects data = some dt ∧ Bears dt key

-- An add that returns an object, after which the key finds one with the type and the value.
def PutGet (s : KeyedList) (key : List UInt8) (content : Content) (allocs : Allocations) : Prop :=
  ∃ t data u found dt,
    s.cplus_llist_add_data key content.type content.value1 content.value2 allocs = some (t,some data) ∧
    t.cplus_llist_find_data key = some (u,some found) ∧ u.objects found = some dt ∧ content.Of dt.value

-- What is there under the key takes the value, or nothing is, and the key is one that is
-- copied and the value one that a new object takes.
def Agrees (s : KeyedList) (key : List UInt8) (content : Content) : Prop :=
  (∀ data ∈ s.list.contents, ∀ dt, s.objects data = some dt → Bears dt key → content.Fits dt.value) ∧
    ((∃ data ∈ s.list.contents, s.Named data key) ∨
      key ≠ [] ∧ key.length + 1 ≤ RSIZE_MAX_MEM ∧ content.Fits (.zero content.type))

section Objects
variable {dt after : Data} {key name : List UInt8} {res : Int} {value1 value2 : Pointer} {alloc : Outcome}
  {type : CPLUS_DATA_TYPE} {key_garbage : Nat → UInt8}

-- An object of the list: nobody holds its lock, its buffers are as long as it says, and
-- its key is a text, if it has one.
structure Kept (dt : Data) : Prop where
  free : dt.spinlock = false
  holds : Holds dt
  key : dt.key = none ∨ ∃ name, Bears dt name

theorem Bears.unique (bears : Bears dt name) (other : Bears dt key) : name = key :=
  Option.some.inj (bears.2.symm.trans other.2)

theorem set_value_kept (kept : Kept dt) (ran : cplus_data_set_value value1 value2 alloc dt = .ok (res,after)) :
    Kept after ∧ ∀ name, Bears after name ↔ Bears dt name := by
  obtain ⟨free,same⟩ := (Data.set_value_keeps value1 value2 alloc (dt.key,dt.key_len)).answer ⟨kept.free,rfl⟩ ran
  have key : after.key = dt.key := (Prod.mk.inj same).1
  have bears : ∀ name, Bears after name ↔ Bears dt name := by
    intro name
    unfold Bears
    rw [key,free,kept.free]
  refine ⟨⟨free,(set_value_stays value1 value2 alloc).answer kept.holds ran,?_⟩,bears⟩
  rcases kept.key with none_ | ⟨name,here⟩
  · exact .inl (key.trans none_)
  · exact .inr ⟨name,(bears name).mpr here⟩

-- A new object is made in two steps: its value, and its key.
theorem new_parts (made : cplus_data_new_ex type value1 value2 (key.length % 2^32) (some (key ++ [0])) alloc
      (some key_garbage) = .ok (some after)) : ∃ dt, set_up_value value1 value2 alloc (blank type) = .ok (true,dt) ∧
    set_up_key (key.length % 2^32) (some (key ++ [0])) (some key_garbage) dt = .ok (true,after) := by
  unfold cplus_data_new_ex data_initialize_object at made
  split at made
  · cases made
  · rename_i done last ran
    split at made
    · rename_i finished
      cases made
      obtain ⟨valued,dt,first,rest⟩ := bind_parts ran
      cases valued
      · cases rest
        cases finished
      · refine ⟨dt,first,?_⟩
        cases finished
        exact rest
    · cases made

-- A value that a constructor has set, with no key yet.
structure Keyless (dt : Data) : Prop where
  free : dt.spinlock = false
  holds : Holds dt
  key : dt.key = none
  key_len : dt.key_len = 0

theorem valued_keyless (ran : set_up_value value1 value2 alloc (blank type) = .ok (true,dt)) : Keyless dt := by
  have stays : Stays (set_up_value value1 value2 alloc) :=
    .ite (fun _ => (set_value_stays _ _ _).bind fun _ => .pure _) fun _ => .pure _
  obtain ⟨free,same⟩ := (set_up_value_keeps _ _ _ (none,0)).answer ⟨rfl,rfl⟩ ran
  obtain ⟨no_key,no_len⟩ := Prod.mk.inj same
  exact ⟨free,stays.answer (blank_holds type) ran,no_key,no_len⟩

theorem Keyless.usable (keyless : Keyless dt) : Usable dt ∧ dt.key_len ≤ RSIZE_MAX_MEM := by
  refine ⟨⟨keyless.free,?_⟩,?_⟩
  · rw [keyless.key]
    exact keyless.key_len
  · rw [keyless.key_len]
    exact Nat.zero_le _

theorem Keyless.nameless (keyless : Keyless dt) : ¬ Bears dt name := by
  intro bears
  have read := bears.2
  rw [keyless.key] at read
  cases read

theorem set_up_key_value {key_len : Nat} {key : Pointer} {done : Bool}
    (ran : set_up_key key_len key alloc dt = .ok (done,after)) : after.value = dt.value := by
  have leaves : Takes (fun _ => True) (fun found : Data => found.value = dt.value)
      (fun found => found.value = dt.value) (set_up_key key_len key alloc) := by
    refine .ite (fun _ => ?_) fun _ => .pure _
    exact (set_key_leaves (fun _ _ _ same held => same.trans held) _ _ _).bind fun _ => .pure _
  exact leaves.answer rfl ran

-- A key of no character is not set.
theorem keyed_kept (keyless : Keyless dt) (plain : 0 ∉ key) (small : key.length + 1 ≤ RSIZE_MAX_MEM)
    (ran : set_up_key (key.length % 2^32) (some (key ++ [0])) (some key_garbage) dt = .ok (true,after)) :
    Kept after ∧ ∀ name, Bears after name ↔ name = key ∧ key ≠ [] := by
  have stays : Stays (set_up_key (key.length % 2^32) (some (key ++ [0])) (some key_garbage)) :=
    .ite (fun _ => (set_key_stays _ _ _).bind fun _ => .pure _) fun _ => .pure _
  have holds := stays.answer keyless.holds ran
  by_cases named : key = []
  · subst named
    cases ran
    exact ⟨⟨keyless.free,holds,.inl keyless.key⟩,fun name => iff_of_false keyless.nameless fun both => both.2 rfl⟩
  · obtain ⟨usable,old⟩ := keyless.usable
    obtain ⟨same,finished,bears⟩ := set_up_key_bears key_garbage usable plain named small old
    cases finished.symm.trans ran
    refine ⟨⟨bears.1,holds,.inr ⟨key,bears⟩⟩,fun name => ⟨fun other => ⟨other.unique bears,named⟩,?_⟩⟩
    rintro ⟨rfl,_⟩
    exact bears

end Objects

section Shelves
variable {s t after : KeyedList} {items : List Addr} {data object : Addr} {key : List UInt8} {dt : Data} {allocs : Allocations}

-- The nodes have one object each, and no two of them bear one key.
structure Shelved (s : KeyedList) (items : List Addr) : Prop where
  lists : Lists s.list items
  nodup : items.Nodup
  kept : ∀ data ∈ items, ∃ dt, s.objects data = some dt ∧ Kept dt
  unique : ∀ a ∈ items, ∀ b ∈ items, ∀ key, s.Named a key → s.Named b key → a = b

theorem new_shelved : Shelved cplus_llist_new [] :=
  ⟨⟨_,LinkedList.empty_refines,rfl⟩,List.nodup_nil,nofun,nofun⟩

-- A search looks for the objects that bear the key.
theorem accepts_named (there : s.objects data = some dt) (kept : Kept dt) (plain : 0 ∉ key) :
    LinkedList.accepts (find_node_by_key s.objects key) data = true ↔ s.Named data key := by
  have here : s.Named data key ↔ Bears dt key := by
    constructor
    · rintro ⟨other,same,bears⟩
      cases there.symm.trans same
      exact bears
    · exact fun bears => ⟨dt,there,bears⟩
  rw [here]
  rcases kept.key with none_ | ⟨name,bears⟩
  · have apart : find_node_by_key s.objects key data = 1 := by
      rw [find_node_by_key,there,Option.bind_some,none_]
    rw [LinkedList.accepts,apart]
    refine iff_of_false (by decide) fun bears => ?_
    have read := bears.2
    rw [none_] at read
    cases read
  · rw [found_iff there bears plain]
    constructor
    · rintro rfl
      exact bears
    · exact fun other => bears.unique other

theorem get_if_shelved (shelved : Shelved s items) (plain : 0 ∉ key) : ∃ link cursor target,
    s.get_if key = some ({s with list := s.list.moved link cursor},target) ∧
    Shelved {s with list := s.list.moved link cursor} items ∧
    ((target = none ∧ ∀ data ∈ items, ¬ s.Named data key) ∨
      ∃ data ∈ items, target = some data ∧ s.Named data key) := by
  obtain ⟨link,cursor,got,lists⟩ := get_if_lists shelved.lists (find_node_by_key s.objects key)
  refine ⟨link,cursor,items.find? (LinkedList.accepts (find_node_by_key s.objects key)),?_,
    ⟨lists,shelved.nodup,shelved.kept,shelved.unique⟩,?_⟩
  · rw [get_if,got]
    rfl
  · cases found : items.find? (LinkedList.accepts (find_node_by_key s.objects key)) with
    | none =>
      refine .inl ⟨rfl,fun data member named => ?_⟩
      obtain ⟨dt,there,kept⟩ := shelved.kept data member
      exact List.find?_eq_none.mp found data member ((accepts_named there kept plain).mpr named)
    | some data =>
      have member := List.mem_of_find?_eq_some found
      obtain ⟨dt,there,kept⟩ := shelved.kept data member
      exact .inr ⟨data,member,rfl,(accepts_named there kept plain).mp (List.find?_some found)⟩

theorem named_put {other : Addr} {name : List UInt8} {found : Data} (there : s.objects data = some dt)
    (same : ∀ name, Bears found name ↔ Bears dt name) :
    (s.put data (some found)).Named other name ↔ s.Named other name := by
  by_cases here : other = data
  · subst here
    constructor
    · rintro ⟨_,stored,bears⟩
      cases put_self.symm.trans stored
      exact ⟨dt,there,(same name).mp bears⟩
    · rintro ⟨_,stored,bears⟩
      cases there.symm.trans stored
      exact ⟨found,put_self,(same name).mpr bears⟩
  · unfold Named
    rw [put_other here]

-- A new value of an object.
theorem put_shelved {found : Data} (shelved : Shelved s items) (there : s.objects data = some dt) (kept : Kept found)
    (same : ∀ name, Bears found name ↔ Bears dt name) : Shelved (s.put data (some found)) items := by
  refine ⟨shelved.lists,shelved.nodup,fun other member => ?_,fun a one b two name => ?_⟩
  · by_cases here : other = data
    · exact ⟨found,here ▸ put_self,kept⟩
    · rw [put_other here]
      exact shelved.kept other member
  · rw [named_put there same,named_put there same]
    exact shelved.unique a one b two name

-- A new object, under a key that none has.
theorem push_shelved (allocs : Allocations) (shelved : Shelved s items) (outside : data ∉ items) (kept : Kept dt)
    (new : ∀ name, Bears dt name → ∀ other ∈ items, ¬ s.Named other name) {node : Addr} (given : allocs.node = some node)
    (unused : s.list.nodes node = none) : ∃ after,
      (s.put data (some dt)).push_back data allocs = some (after,CPLUS_SUCCESS) ∧
      Shelved after (items ++ [data]) ∧ after.objects = (s.put data (some dt)).objects := by
  obtain ⟨list,pushed,lists⟩ := push_back_lists shelved.lists data unused
  have apart : ∀ other ∈ items, other ≠ data := fun other member same => outside (same ▸ member)
  have named_old : ∀ other ∈ items, ∀ name, (s.put data (some dt)).Named other name ↔ s.Named other name := by
    intro other member name
    unfold Named
    rw [put_other (apart other member)]
  have named_new : ∀ name, (s.put data (some dt)).Named data name → Bears dt name := by
    rintro name ⟨_,there,bears⟩
    cases put_self.symm.trans there
    exact bears
  refine ⟨{s.put data (some dt) with list := list},?_,⟨lists,?_,fun other member => ?_,fun a one b two name => ?_⟩,rfl⟩
  · rw [push_back,given]
    exact (congrArg (Option.bind · _) pushed).trans rfl
  · apply List.nodup_append.mpr
    refine ⟨shelved.nodup,List.nodup_singleton _,?_⟩
    intro other member last single
    rw [List.mem_singleton.mp single]
    exact apart other member
  · rcases List.mem_append.mp member with old | here
    · obtain ⟨held,there,kept⟩ := shelved.kept other old
      exact ⟨held,(put_other (apart other old)).trans there,kept⟩
    · rw [List.mem_singleton.mp here]
      exact ⟨dt,put_self,kept⟩
  · intro first second
    have first : (s.put data (some dt)).Named a name := first
    have second : (s.put data (some dt)).Named b name := second
    rcases List.mem_append.mp one with old_a | here_a
    · rcases List.mem_append.mp two with old_b | here_b
      · exact shelved.unique a old_a b old_b name ((named_old a old_a name).mp first) ((named_old b old_b name).mp second)
      · rw [List.mem_singleton.mp here_b] at second
        exact absurd ((named_old a old_a name).mp first) (new name (named_new name second) a old_a)
    · rw [List.mem_singleton.mp here_a] at first
      rcases List.mem_append.mp two with old_b | here_b
      · exact absurd ((named_old b old_b name).mp second) (new name (named_new name first) b old_b)
      · rw [List.mem_singleton.mp here_a,List.mem_singleton.mp here_b]

theorem add_shelved {type : CPLUS_DATA_TYPE} {value1 value2 : Pointer} {target : Option Addr} (shelved : Shelved s items)
    (plain : 0 ∉ key) (granted : Granted s allocs) (careful : key.length + 1 ≤ RSIZE_MAX_MEM)
    (ran : s.cplus_llist_add_data key type value1 value2 allocs = some (t,target)) : ∃ next, Shelved t next := by
  obtain ⟨object,node,value,name,rfl,outside,unused⟩ := granted_parts shelved.lists granted
  by_cases missing : value1 = none
  · rw [cplus_llist_add_data,if_pos missing] at ran
    cases ran
    exact ⟨items,shelved⟩
  obtain ⟨link,cursor,found,got,moved,which⟩ := get_if_shelved shelved plain
  simp only [cplus_llist_add_data,if_neg missing,got,Option.bind_eq_bind,Option.bind_some] at ran
  rcases which with ⟨rfl,absent⟩ | ⟨data,member,rfl,named⟩
  · obtain ⟨⟨after,made⟩,created,rest⟩ := Option.bind_eq_some_iff.mp ran
    simp only [new_object] at created
    split at created
    · cases created
    · cases created
      cases rest
      exact ⟨items,moved⟩
    · rename_i dt new
      cases created
      obtain ⟨first,valued,keyed⟩ := new_parts new
      obtain ⟨kept,bears⟩ := keyed_kept (valued_keyless valued) plain careful keyed
      obtain ⟨last,pushed,done,_⟩ := push_shelved ⟨some object,some value,some name,some node⟩ moved outside kept
        (fun name here other there => ((bears name).mp here).1 ▸ absent other there) rfl unused
      obtain ⟨⟨_,_⟩,again,last_step⟩ := Option.bind_eq_some_iff.mp rest
      cases pushed.symm.trans again
      cases last_step
      exact ⟨_,done⟩
  · obtain ⟨⟨after,res⟩,set_,rest⟩ := Option.bind_eq_some_iff.mp ran
    cases rest
    obtain ⟨dt,dt',there,done,rfl⟩ := on_object_parts set_
    obtain ⟨_,same,kept⟩ := moved.kept data member
    cases there.symm.trans same
    obtain ⟨kept,bears⟩ := set_value_kept kept done
    exact ⟨items,put_shelved moved there kept bears⟩

theorem remove_shelved {res : Int} (shelved : Shelved s items) (ran : s.cplus_llist_remove_data key = some (t,res)) :
    ∃ next, Shelved t next := by
  obtain ⟨after,popped,lists⟩ := pop_if_lists shelved.lists (find_node_by_key s.objects key)
  simp only [cplus_llist_remove_data,popped,Option.bind_eq_bind,Option.bind_some] at ran
  have rest : ∀ data ∈ items.eraseP (LinkedList.accepts (find_node_by_key s.objects key)), data ∈ items :=
    fun data => List.mem_of_mem_eraseP
  have nodup : (items.eraseP (LinkedList.accepts (find_node_by_key s.objects key))).Nodup :=
    shelved.nodup.sublist List.eraseP_sublist
  cases found : items.find? (LinkedList.accepts (find_node_by_key s.objects key)) with
  | none =>
    rw [found] at ran
    cases ran
    exact ⟨_,lists,nodup,fun data member => shelved.kept data (rest data member),
      fun a one b two => shelved.unique a (rest a one) b (rest b two)⟩
  | some data =>
    rw [found] at ran
    cases ran
    have gone : data ∉ items.eraseP (LinkedList.accepts (find_node_by_key s.objects key)) := by
      obtain ⟨_,before,behind,same,others⟩ := List.find?_eq_some_iff_append.mp found
      have nodup := shelved.nodup
      rw [same] at nodup ⊢
      have refused : ∀ other ∈ before, ¬ LinkedList.accepts (find_node_by_key s.objects key) other = true := by
        intro other member
        simpa using others other member
      rw [List.eraseP_append_right _ refused,List.eraseP_cons_of_pos (List.find?_some found)]
      exact (List.nodup_cons.mp (List.perm_middle.nodup_iff.mp nodup)).1
    have apart : ∀ other ∈ items.eraseP (LinkedList.accepts (find_node_by_key s.objects key)), other ≠ data :=
      fun other member same => gone (same ▸ member)
    refine ⟨_,lists,nodup,fun other member => ?_,fun a one b two name first second => ?_⟩
    · obtain ⟨held,there,kept⟩ := shelved.kept other (rest other member)
      exact ⟨held,(put_other (apart other member)).trans there,kept⟩
    · obtain ⟨one_dt,there,bears⟩ := first
      obtain ⟨two_dt,there_too,bears_too⟩ := second
      rw [put_other (apart a one)] at there
      rw [put_other (apart b two)] at there_too
      exact shelved.unique a (rest a one) b (rest b two) name ⟨one_dt,there,bears⟩ ⟨two_dt,there_too,bears_too⟩

theorem step_shelved {call : Call} (shelved : Shelved s items) (taken : Puts s call t) (careful : Careful s call) :
    ∃ next, Shelved t next := by
  obtain ⟨usual,ran⟩ := taken
  cases call with
  | add type key value1 value2 allocs =>
    obtain ⟨⟨_,target⟩,called,rfl⟩ := Option.map_eq_some_iff.mp ran
    exact add_shelved shelved usual.1 usual.2 careful called
  | update key data dt allocs => cases usual
  | remove key =>
    obtain ⟨⟨_,res⟩,called,rfl⟩ := Option.map_eq_some_iff.mp ran
    exact remove_shelved shelved called

theorem run_shelved {moves : List (Move KeyedList Call)} (run : Run Puts cplus_llist_new moves s)
    (careful : Meets Careful moves) : ∃ items, Shelved s items :=
  (run.keeps (J := fun s => ∃ items, Shelved s items) Careful ⟨[],new_shelved⟩
    (fun ⟨_,shelved⟩ taken meets => step_shelved shelved taken meets) careful).1

end Shelves

section Values
variable {s t : KeyedList} {items : List Addr} {data object node : Addr} {key : List UInt8} {dt after : Data}
  {content : Content} {allocs : Allocations}

theorem content_given (content : Content) : content.value1 ≠ none := by cases content <;> exact nofun

theorem find_shelved (shelved : Shelved s items) (plain : 0 ∉ key) (member : data ∈ items) (named : s.Named data key) :
    ∃ u, s.cplus_llist_find_data key = some (u,some data) ∧ u.objects = s.objects := by
  obtain ⟨link,cursor,target,got,_,which⟩ := get_if_shelved shelved plain
  rcases which with ⟨_,absent⟩ | ⟨other,there,rfl,also⟩
  · exact absurd named (absent data member)
  · rw [shelved.unique other there data member key also named] at got
    exact ⟨_,got,rfl⟩

-- The key has an object, which is given the value.
theorem held_put_get (content : Content) (allocs : Allocations) (shelved : Shelved s items) (plain : 0 ∉ key) (member : data ∈ items)
    (there : s.objects data = some dt) (bears : Bears dt key) : PutGet s key content allocs ↔
      ∃ res after, cplus_data_set_value content.value1 content.value2 allocs.value dt = .ok (res,after) ∧
        content.Of after.value := by
  obtain ⟨link,cursor,target,got,moved,which⟩ := get_if_shelved shelved plain
  obtain rfl : target = some data := by
    rcases which with ⟨_,absent⟩ | ⟨other,also,rfl,named⟩
    · exact absurd ⟨dt,there,bears⟩ (absent data member)
    · rw [shelved.unique other also data member key named ⟨dt,there,bears⟩]
  obtain ⟨_,same,kept⟩ := shelved.kept data member
  cases there.symm.trans same
  have finds : ∀ {res : Int} {after : Data},
      cplus_data_set_value content.value1 content.value2 allocs.value dt = .ok (res,after) → ∃ t,
      s.cplus_llist_add_data key content.type content.value1 content.value2 allocs = some (t,some data) ∧
      t.objects data = some after ∧ ∃ u, t.cplus_llist_find_data key = some (u,some data) ∧ u.objects = t.objects := by
    intro res after ran
    obtain ⟨kept_after,same⟩ := set_value_kept kept ran
    have shelved_after := put_shelved moved there kept_after same
    refine ⟨_,?_,put_self,find_shelved shelved_after plain member ⟨after,put_self,(same key).mpr bears⟩⟩
    simp only [cplus_llist_add_data,if_neg (content_given content),got,Option.bind_eq_bind,Option.bind_some,on_object,
      there,ran]
    rfl
  constructor
  · rintro ⟨t,target,u,found,held,added,sought,stored,of⟩
    have called := added
    simp only [cplus_llist_add_data,if_neg (content_given content),got,Option.bind_eq_bind,Option.bind_some] at called
    obtain ⟨⟨_,res⟩,set_,_⟩ := Option.bind_eq_some_iff.mp called
    obtain ⟨_,after,here,ran,_⟩ := on_object_parts set_
    cases there.symm.trans here
    obtain ⟨t',again,at_data,u',found',same⟩ := finds ran
    cases added.symm.trans again
    cases sought.symm.trans found'
    rw [same,at_data] at stored
    cases stored
    exact ⟨res,_,ran,of⟩
  · rintro ⟨res,after,ran,of⟩
    obtain ⟨t,added,at_data,u,found,same⟩ := finds ran
    exact ⟨t,data,u,data,after,added,found,(congrFun same data).trans at_data,of⟩

-- Two texts that compare as equal agree up to the NUL.
theorem strcmp_front {block : List UInt8} (plain : 0 ∉ key) (same : strcmp block (key ++ [0]) = 0) :
    key.length < block.length ∧ block.take key.length = key := by
  induction key generalizing block with
  | nil =>
    cases block with
    | nil => cases same
    | cons a rest => exact ⟨Nat.succ_pos _,rfl⟩
  | cons b key ih =>
    obtain ⟨nonzero,plain⟩ := not_or.mp (mt List.mem_cons.mpr plain)
    cases block with
    | nil => cases same
    | cons a rest =>
      rw [List.cons_append,strcmp] at same
      split at same
      · rename_i both
        obtain ⟨longer,front⟩ := ih plain same
        refine ⟨Nat.succ_lt_succ longer,?_⟩
        rw [List.length_cons,List.take_succ_cons,front,both.1]
      · rename_i apart
        have equal : a = b := UInt8.toNat.inj (by omega)
        exact absurd ⟨equal,fun zero => nonzero (zero.symm.trans equal)⟩ apart

-- The buffer of a first key has as many bytes as the counter of its length, which are
-- those of the key only where cplus_mem_cpy_ex copies that many.
theorem first_key {key_len : Nat} {source block : List UInt8} {res : Int} (keyless : Keyless dt)
    (ran : cplus_data_set_key key_len (some source) (some fun _ => 0) dt = .ok (res,after)) (there : after.key = some block) :
    block.length = (key_len + 1) % 2^32 ∧ (RSIZE_MAX_MEM < (key_len + 1) % 2^32 → ∀ c ∈ block, c = 0) := by
  obtain ⟨free,_,no_key,no_len⟩ := keyless
  obtain ⟨is_valid,mode,_,_,_,code,size,value⟩ := dt
  cases free
  cases no_key
  cases no_len
  unfold cplus_data_set_key at ran
  split at ran
  · cases ran
    cases there
  obtain ⟨_,_,locked,ran⟩ := bind_parts ran
  cases locked
  obtain ⟨_,_,got,ran⟩ := bind_parts ran
  cases got
  split at ran
  · obtain ⟨copied,_,copies,ran⟩ := bind_parts ran
    cases copies
    cases ran
    cases there
  · obtain ⟨copied,_,copies,ran⟩ := bind_parts ran
    cases ran
    have done := (access_parts copies).1
    obtain ⟨full,same,length⟩ := mem_cpy_ex_length done
    cases there.symm.trans same
    refine ⟨length.trans (by simp),fun large => ?_⟩
    rw [mem_cpy_ex_refuses (.inr (.inr (.inl large)))] at done
    cases done
    cases same
    simp

-- A key that is too long to be copied leaves what was in its buffer, or a part of it.
theorem long_key_lost (keyless : Keyless dt) (plain : 0 ∉ key) (named : key ≠ []) (long : RSIZE_MAX_MEM < key.length + 1)
    (ran : set_up_key (key.length % 2^32) (some (key ++ [0])) (some fun _ => 0) dt = .ok (true,after)) {block : List UInt8}
    (there : after.key = some block) : strcmp block (key ++ [0]) ≠ 0 := by
  have lost : block.length ≤ key.length ∨ ∀ c ∈ block, c = 0 := by
    unfold set_up_key at ran
    split at ran
    · obtain ⟨res,_,set_,answered⟩ := bind_parts ran
      obtain ⟨_,rfl⟩ := Prod.mk.inj (Except.ok.inj answered)
      obtain ⟨length,zeros⟩ := first_key keyless set_ there
      by_cases large : RSIZE_MAX_MEM < (key.length % 2^32 + 1) % 2^32
      · exact .inr (zeros large)
      · exact .inl (by omega)
    · cases ran
      rw [keyless.key] at there
      cases there
  intro same
  obtain ⟨longer,front⟩ := strcmp_front plain same
  rcases lost with shorter | zeros
  · exact absurd longer (Nat.not_lt.mpr shorter)
  · obtain ⟨c,rest,rfl⟩ := List.exists_cons_of_ne_nil named
    have first : c ∈ block := List.mem_of_mem_take (front ▸ List.mem_cons_self)
    exact plain (zeros c first ▸ List.mem_cons_self)

-- An object that no search takes for another.
def Answers (dt : Data) (key : List UInt8) : Prop := ∃ block, dt.key = some block ∧ strcmp block (key ++ [0]) = 0

theorem bears_answers (bears : Bears dt key) (plain : 0 ∉ key) : Answers dt key := by
  obtain ⟨block,held,read⟩ := Option.bind_eq_some_iff.mp bears.2
  exact ⟨block,held,(strcmp_text read plain).mpr rfl⟩

theorem accepts_answers {objects : Addr → Option Data} (there : objects data = some dt) :
    LinkedList.accepts (find_node_by_key objects key) data = true ↔ Answers dt key := by
  unfold LinkedList.accepts find_node_by_key Answers
  rw [there,Option.bind_some,decide_eq_true_iff]
  cases dt.key with
  | none => exact iff_of_false one_ne_zero (by rintro ⟨_,same,_⟩; cases same)
  | some block =>
    constructor
    · exact fun same => ⟨block,rfl,same⟩
    · rintro ⟨_,⟨⟩,same⟩
      exact same

-- The key has no object, and a new one is found if its key answers.
theorem fresh_put_get (content : Content) (value name : Nat → UInt8) (shelved : Shelved s items) (plain : 0 ∉ key) (absent : ∀ data ∈ items, ¬ s.Named data key)
    (outside : object ∉ items) (unused : s.list.nodes node = none) :
    PutGet s key content ⟨some object,some value,some name,some node⟩ ↔
      ∃ dt, cplus_data_new_ex content.type content.value1 content.value2 (key.length % 2^32) (some (key ++ [0]))
        (some value) (some name) = .ok (some dt) ∧ content.Of dt.value ∧ Answers dt key := by
  obtain ⟨link,cursor,target,got,moved,which⟩ := get_if_shelved shelved plain
  obtain rfl : target = none := by
    rcases which with ⟨none_,_⟩ | ⟨other,also,rfl,named⟩
    · exact none_
    · exact absurd named (absent other also)
  have finds : ∀ {dt : Data}, cplus_data_new_ex content.type content.value1 content.value2 (key.length % 2^32)
      (some (key ++ [0])) (some value) (some name) = .ok (some dt) → ∃ t u target,
      s.cplus_llist_add_data key content.type content.value1 content.value2
        ⟨some object,some value,some name,some node⟩ = some (t,some object) ∧
      t.cplus_llist_find_data key = some (u,target) ∧ u.objects object = some dt ∧
      (Answers dt key → target = some object) ∧ (∀ found, target = some found → found = object ∧ Answers dt key) := by
    intro dt new
    obtain ⟨list,pushed,lists⟩ := push_back_lists moved.lists object unused
    let t : KeyedList := {put {s with list := s.list.moved link cursor} object (some dt) with list := list}
    obtain ⟨link',cursor',sought,_⟩ := get_if_lists lists (find_node_by_key t.objects key)
    have stored : (put {s with list := s.list.moved link cursor} object (some dt)).push_back object
        ⟨some object,some value,some name,some node⟩ = some (t,CPLUS_SUCCESS) := by
      unfold push_back
      exact (congrArg (Option.bind · _) pushed).trans rfl
    have there : t.objects object = some dt := put_self
    have others : items.find? (LinkedList.accepts (find_node_by_key t.objects key)) = none := by
      apply List.find?_eq_none.mpr
      intro other member accepted
      have same : t.objects other = s.objects other := put_other fun same => outside (same ▸ member)
      obtain ⟨held,here,kept⟩ := shelved.kept other member
      obtain ⟨_,here_too,bears⟩ := (accepts_named (s := t) (same.trans here) kept plain).mp accepted
      exact absent other member ⟨_,same.symm.trans here_too,bears⟩
    rw [List.find?_append,others,Option.none_or] at sought
    refine ⟨t,{t with list := list.moved link' cursor'},[object].find? (LinkedList.accepts (find_node_by_key t.objects key)),
      ?_,?_,there,fun answers => ?_,fun found same => ?_⟩
    · simp only [cplus_llist_add_data,if_neg (content_given content),got,Option.bind_eq_bind,Option.bind_some,new_object,
        new,stored]
      rfl
    · rw [cplus_llist_find_data,get_if,sought]
      rfl
    · exact List.find?_cons_of_pos ((accepts_answers there).mpr answers)
    · have accepted := List.find?_some same
      obtain rfl := List.mem_singleton.mp (List.mem_of_find?_eq_some same)
      exact ⟨rfl,(accepts_answers there).mp accepted⟩
  constructor
  · rintro ⟨t,target,u,found,held,added,sought,stored,of⟩
    have called := added
    simp only [cplus_llist_add_data,if_neg (content_given content),got,Option.bind_eq_bind,Option.bind_some] at called
    obtain ⟨⟨_,made⟩,created,rest⟩ := Option.bind_eq_some_iff.mp called
    simp only [new_object] at created
    split at created
    · cases created
    · cases created
      cases rest
    · rename_i dt new
      obtain ⟨t',u',target',again,sought',there,_,found_iff⟩ := finds new
      cases added.symm.trans again
      cases sought.symm.trans sought'
      obtain ⟨rfl,answers⟩ := found_iff found rfl
      cases stored.symm.trans there
      exact ⟨_,new,of,answers⟩
  · rintro ⟨dt,new,of,answers⟩
    obtain ⟨t,u,target,added,sought,there,found,_⟩ := finds new
    obtain rfl := found answers
    exact ⟨t,object,u,object,dt,added,sought,there,of⟩

theorem content_valued (content : Content) : content.type ≠ .NULL ∧ content.type ≠ .UNKNOWN := by
  cases content <;> exact ⟨nofun,nofun⟩

-- A new object has the value and answers to the key, whatever its buffers held before.
theorem fresh_exact (plain : 0 ∉ key) (proper : content.Proper) :
    (∀ value name, ∃ dt, cplus_data_new_ex content.type content.value1 content.value2 (key.length % 2^32)
      (some (key ++ [0])) (some value) (some name) = .ok (some dt) ∧ content.Of dt.value ∧ Answers dt key) ↔
      key ≠ [] ∧ key.length + 1 ≤ RSIZE_MAX_MEM ∧ content.Fits (.zero content.type) := by
  have given := content_given content
  have overwritten : (∀ garbage, ∃ res after, cplus_data_set_value content.value1 content.value2 (some garbage)
      (blank content.type) = .ok (res,after) ∧ content.Of after.value) ↔ content.Fits (.zero content.type) :=
    Content.overwrite_exact rfl (blank_holds content.type) proper
  constructor
  · intro every
    refine ⟨?_,?_,overwritten.mp fun garbage => ?_⟩
    · rintro rfl
      obtain ⟨dt,new,_,block,there,_⟩ := every (fun _ => 0) fun _ => 0
      obtain ⟨first,valued,keyed⟩ := new_parts new
      cases keyed
      cases (valued_keyless valued).key.symm.trans there
    · by_contra long
      obtain ⟨dt,new,_,block,there,same⟩ := every (fun _ => 0) fun _ => 0
      obtain ⟨first,valued,keyed⟩ := new_parts new
      have named : key ≠ [] := by
        rintro rfl
        exact long (by decide)
      exact long_key_lost (valued_keyless valued) plain named (Nat.lt_of_not_le long) keyed there same
    · obtain ⟨dt,new,of,_⟩ := every garbage fun _ => 0
      obtain ⟨first,valued,keyed⟩ := new_parts new
      rw [set_up_value,if_pos given] at valued
      obtain ⟨res,_,ran,answered⟩ := bind_parts valued
      obtain ⟨_,rfl⟩ := Prod.mk.inj (Except.ok.inj answered)
      exact ⟨res,_,ran,set_up_key_value keyed ▸ of⟩
  · rintro ⟨named,small,fits⟩ value name
    obtain ⟨res,first,ran,of⟩ := overwritten.mpr fits value
    obtain ⟨source,source_given⟩ := Option.ne_none_iff_exists'.mp given
    have typed : (blank content.type).data_type = content.type := by cases content <;> rfl
    have success : res = CPLUS_SUCCESS := by
      rw [source_given] at ran
      exact set_value_success (typed.symm ▸ content_valued content) ran
    subst success
    have valued : set_up_value content.value1 content.value2 (some value) (blank content.type) = .ok (true,first) := by
      rw [set_up_value,if_pos given]
      exact bind_ok ran
    have keyless := valued_keyless valued
    obtain ⟨usable,old⟩ := keyless.usable
    obtain ⟨dt,keyed,bears⟩ := set_up_key_bears name usable plain named small old
    refine ⟨dt,?_,(set_up_key_value keyed).symm ▸ of,bears_answers bears plain⟩
    have made : set_up content.value1 content.value2 (key.length % 2^32) (some (key ++ [0])) (some value) (some name)
        (blank content.type) = .ok (true,dt) := (bind_ok valued).trans keyed
    unfold cplus_data_new_ex data_initialize_object
    rw [made]
    rfl

-- What is put under a key is found there exactly when the object under it takes the
-- value; one of another type keeps its type.
theorem put_get_exact {moves : List (Move KeyedList Call)} (run : Run Puts cplus_llist_new moves s)
    (careful : Meets Careful moves) (plain : 0 ∉ key) (proper : content.Proper) (outside : object ∉ s.list.contents)
    (unused : s.list.nodes node = none) :
    (∀ value name, PutGet s key content ⟨some object,some value,some name,some node⟩) ↔ s.Agrees key content := by
  obtain ⟨items,shelved⟩ := run_shelved run careful
  have contents := lists_contents shelved.lists
  rw [contents] at outside
  unfold Agrees
  rw [contents]
  by_cases held : ∃ data ∈ items, s.Named data key
  · obtain ⟨data,member,dt,there,bears⟩ := held
    have alone : ∀ other ∈ items, ∀ found, s.objects other = some found → Bears found key → found = dt := by
      intro other also found here bears_too
      obtain rfl := shelved.unique other also data member key ⟨found,here,bears_too⟩ ⟨dt,there,bears⟩
      exact Option.some.inj (here.symm.trans there)
    obtain ⟨_,same,kept⟩ := shelved.kept data member
    cases there.symm.trans same
    have exact_ := Content.overwrite_exact kept.free kept.holds proper
    have puts := fun value name => held_put_get content ⟨some object,some value,some name,some node⟩ shelved plain member there bears
    constructor
    · intro every
      refine ⟨fun other also found here bears_too => ?_,.inl ⟨data,member,dt,there,bears⟩⟩
      rw [alone other also found here bears_too]
      exact exact_.mp fun garbage => (puts garbage fun _ => 0).mp (every garbage fun _ => 0)
    · rintro ⟨fits,_⟩ value name
      exact (puts value name).mpr (exact_.mpr (fits data member dt there bears) value)
  · have absent : ∀ data ∈ items, ¬ s.Named data key := fun data member named => held ⟨data,member,named⟩
    have exact_ := fresh_exact plain proper
    have puts := fun value name => fresh_put_get content value name shelved plain absent outside unused
    rw [or_iff_right held]
    constructor
    · intro every
      refine ⟨fun data member dt there bears => absurd ⟨dt,there,bears⟩ (absent data member),?_⟩
      exact exact_.mp fun value name => (puts value name).mp (every value name)
    · rintro ⟨_,condition⟩ value name
      exact (puts value name).mpr (exact_.mpr condition value name)

end Values

section Runs

def proceed (s : KeyedList) (call : Call) : Option KeyedList := if Usual s call then call.run s else none

theorem proceed_puts (s : KeyedList) (call : Call) (t : KeyedList) (taken : Follows proceed s call t) : Puts s call t := by
  unfold Follows proceed at taken
  split at taken
  · rename_i usual
    exact ⟨usual,taken⟩
  · cases taken

theorem puts_of_calls (calls : List Call) (check : List (Move KeyedList Call) × KeyedList → Bool)
    (passes : (execute proceed cplus_llist_new calls).any check = true) : ∃ moves s,
      Run Puts cplus_llist_new moves s ∧ moves.map Move.action = calls ∧ check (moves,s) = true := by
  obtain ⟨moves,s,run,same,checked⟩ := Run.of_check proceed cplus_llist_new calls check passes
  exact ⟨moves,s,run.imp proceed_puts,same,checked⟩

-- A string under one key, a number under another, and an add without a key.
def put_calls : List Call :=
  [.add .STRING [97] (some (littleEndian32 2)) (some [120,121,0]) (granted 0),
   .add (.integer .UINT8) [98] (some [5]) none (granted 1),.add .BOOL [] (some [1]) none (granted 2),.remove [98]]

theorem string_put_get : ∃ moves s, Run Puts cplus_llist_new moves s ∧ moves.map Move.action = put_calls ∧
    s.Agrees [97] (.string [122]) ∧ ∀ value name, PutGet s [97] (.string [122]) ⟨some 3,some value,some name,some 3⟩ := by
  obtain ⟨moves,s,run,same,checked⟩ := puts_of_calls put_calls
    (fun result => decide (Meets Careful result.1) && decide (result.2.list.contents = [0,2] ∧
      (result.2.objects 0).map (fun dt => (dt.spinlock,dt.key.bind c_string,dt.value.data_type)) =
        some (false,some [97],.STRING) ∧
      (result.2.objects 2).bind Data.key = none) && (result.2.list.nodes 3).isNone) (by decide +kernel)
  obtain ⟨both,unused⟩ := (Bool.and_eq_true _ _).mp checked
  obtain ⟨careful,held⟩ := (Bool.and_eq_true _ _).mp both
  obtain ⟨contents,string,keyless⟩ := of_decide_eq_true held
  have proper : (Content.string [122]).Proper := ⟨plain_of_all rfl,by decide⟩
  obtain ⟨dt,there,shown⟩ := Option.map_eq_some_iff.mp string
  obtain ⟨free,key,type⟩ : dt.spinlock = false ∧ dt.key.bind c_string = some [97] ∧ dt.value.data_type = .STRING := by
    simpa using shown
  have agrees : s.Agrees [97] (.string [122]) := by
    refine ⟨fun data member found here bears => ?_,.inl ⟨0,by rw [contents]; exact List.mem_cons_self,dt,there,free,key⟩⟩
    rw [contents] at member
    obtain rfl | rfl : data = 0 ∨ data = 2 := by simpa using member
    · cases there.symm.trans here
      have short : ([122] : List UInt8).length + 1 < 2^32 := by decide
      exact ⟨type,short⟩
    · rw [here,Option.bind_some] at keyless
      have named := bears.2
      rw [keyless] at named
      cases named
  have outside : 3 ∉ s.list.contents := by
    rw [contents]
    decide
  exact ⟨moves,s,run,same,agrees,(put_get_exact run (of_decide_eq_true careful) (by decide) proper outside
    (Option.isNone_iff_eq_none.mp unused)).mpr agrees⟩

-- A number of two bytes over one of one byte.
theorem narrow_put_get : ∃ moves s, Run Puts cplus_llist_new moves s ∧
    moves.map Move.action = [.add (.integer .UINT8) [97] (some [5]) none (granted 0)] ∧
    (∃ t u, s.cplus_llist_add_data [97] (.integer .UINT16) (some [52,18]) none (granted 1) = some (t,some 0) ∧
      t.cplus_llist_find_data [97] = some (u,some 0) ∧ (u.objects 0).map Data.value = some (.integer .UINT8 52)) ∧
    ¬ PutGet s [97] (.integer .UINT16 0x1234) (granted 1) := by
  obtain ⟨moves,s,run,same,checked⟩ := puts_of_calls [.add (.integer .UINT8) [97] (some [5]) none (granted 0)]
    (fun result => (result.2.cplus_llist_add_data [97] (.integer .UINT16) (some [52,18]) none (granted 1)).any fun
      (put : KeyedList × Option Addr) => decide (put.2 = some 0) && (put.1.cplus_llist_find_data [97]).any fun (got : KeyedList × Option Addr) =>
        decide (got.2 = some 0 ∧ (got.1.objects 0).map Data.value = some (.integer .UINT8 52))) (by decide +kernel)
  obtain ⟨⟨t,_⟩,added,rest⟩ := (Option.any_eq_true _ _).mp checked
  obtain ⟨first,rest⟩ := (Bool.and_eq_true _ _).mp rest
  obtain rfl := of_decide_eq_true first
  obtain ⟨⟨u,_⟩,sought,rest⟩ := (Option.any_eq_true _ _).mp rest
  obtain ⟨second,value⟩ := of_decide_eq_true rest
  obtain rfl := second
  refine ⟨moves,s,run,same,⟨t,u,added,sought,value⟩,?_⟩
  rintro ⟨t',data,u',found,dt,added',sought',there,of⟩
  cases added.symm.trans added'
  cases sought.symm.trans sought'
  have value : (u.objects 0).map Data.value = some (.integer .UINT8 52) := value
  rw [there,Option.map_some] at value
  cases of.symm.trans (Option.some.inj value)

end Runs

end Libcplus.KeyedList
