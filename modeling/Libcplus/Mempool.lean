import Mathlib.Data.List.Perm.Basic
import Mathlib.Data.List.Range
import Mathlib.Data.Finset.Range
import Mathlib.Data.Finset.Image
import Libcplus.BlockPool
import Libcplus.Memory
import Libcplus.Transition

namespace Libcplus
open Bytes Memory Transition

-- struct mempool, less its lock. Addresses are offsets from mem_start, and the
-- next free block may be NULL.
structure Mempool where
  block_count : Nat
  block_size : Nat
  free_blocks_count : Nat
  initialized_blocks_count : Nat
  mem_start : List UInt8
  next_block : Option Nat

namespace Mempool

-- A uint32_t in memory, in the byte order of the machine: what matters is that a
-- read gives back what was written.
def store32 (mem : List UInt8) (addr n : Nat) : Option (List UInt8) :=
  splice mem addr (bigEndian32 n).reverse

def load32 (mem : List UInt8) (addr : Nat) : Option Nat :=
  (slice mem addr 4).map fun bytes => bytes.reverse.foldl readNext 0

def index_to_addr (mp : Mempool) (index : Nat) : Nat := (mp.block_size * index) % 2^32

def addr_to_index (mp : Mempool) (addr : Nat) : Nat := (addr % 2^32) / mp.block_size

def mempool_initialize_object (outcome : Outcome) (block_count block_size : Nat) : Option Mempool :=
  (cplus_malloc outcome ((block_count * block_size) % 2^32)).map fun mem_start =>
    ⟨block_count,block_size,block_count,0,mem_start,some 0⟩

def cplus_mempool_new (outcome : Outcome) (block_count block_size : Nat) : Option Mempool :=
  if 0 = block_count then none
  else if 4 > block_size then none
  else mempool_initialize_object outcome block_count block_size

-- The link that a freed block gets: block_count is the end of the chain.
def next_index (mp : Mempool) : Nat :=
  match mp.next_block with
  | some next => mp.addr_to_index next
  | none => mp.block_count

-- `none` is an access outside the blocks, or through NULL; a call with a NULL addr
-- is refused before any of this.
def cplus_mempool_free (mp : Mempool) (addr : Nat) : Option Mempool := do
  let mem_start ← store32 mp.mem_start addr mp.next_index
  return {mp with
    mem_start := mem_start,next_block := some addr,free_blocks_count := mp.free_blocks_count + 1}

-- The first half of alloc: one more block gets its link.
def initialize_next (mp : Mempool) : Option Mempool :=
  if mp.initialized_blocks_count < mp.block_count then
    (store32 mp.mem_start (mp.index_to_addr mp.initialized_blocks_count)
      (mp.initialized_blocks_count + 1)).map fun mem_start =>
        {mp with mem_start := mem_start,initialized_blocks_count := mp.initialized_blocks_count + 1}
  else some mp

def take_next (mp : Mempool) : Option (Mempool × Option Nat) :=
  if 0 < mp.free_blocks_count then
    if 0 < mp.free_blocks_count - 1 then do
      let link ← load32 mp.mem_start (← mp.next_block)
      return ({mp with
        free_blocks_count := mp.free_blocks_count - 1
        next_block := some (mp.index_to_addr link)},mp.next_block)
    else some ({mp with free_blocks_count := mp.free_blocks_count - 1,next_block := none},mp.next_block)
  else some (mp,none)

def cplus_mempool_alloc (mp : Mempool) : Option (Mempool × Option Nat) :=
  mp.initialize_next.bind take_next

-- What a client does to a block it holds.
def write_block (mp : Mempool) (addr : Nat) (byte : UInt8) : Option Mempool :=
  (splice mp.mem_start addr [byte]).map fun mem_start => {mp with mem_start := mem_start}

theorem load_store {mem next : List UInt8} {addr n : Nat} (small : n < 2^32)
    (stored : store32 mem addr n = some next) : load32 next addr = some n := by
  have length := splice_length stored
  obtain ⟨fits,_⟩ := splice_parts stored
  have written := splice_slice stored
  rw [List.length_reverse,bigEndian32_length] at fits written
  unfold load32
  rw [slice_some (by omega),written,Option.map_some,List.reverse_reverse,bigEndian32_read small]

-- A word depends on its own four bytes only.
theorem load_other {mem next bytes : List UInt8} {addr start : Nat} (stored : splice mem start bytes = some next)
    (apart : addr + 4 ≤ start ∨ start + bytes.length ≤ addr) : load32 next addr = load32 mem addr := by
  unfold load32
  rw [slice_other stored apart]

-- The links from block to block, the last one to the first block not touched yet.
def Threaded (mem : List UInt8) (block_size rest : Nat) : List Nat → Prop
  | [] => True
  | i :: chain =>
    load32 mem (i * block_size) = some (chain.headD rest) ∧ Threaded mem block_size rest chain

-- The pool stands for a stack of free blocks: those that went back to it, threaded
-- through their own bytes, and below them those it has not touched.
structure Stands (mp : Mempool) (stack chain : List Nat) : Prop where
  room : 4 ≤ mp.block_size
  small : mp.block_count * mp.block_size < 2^32
  length : mp.mem_start.length = mp.block_count * mp.block_size
  grown : mp.initialized_blocks_count ≤ mp.block_count
  parts : stack = chain ++ List.range' mp.initialized_blocks_count
    (mp.block_count - mp.initialized_blocks_count)
  touched : ∀ i ∈ chain, i < mp.initialized_blocks_count
  nodup : stack.Nodup
  threaded : Threaded mp.mem_start mp.block_size mp.initialized_blocks_count chain
  count : mp.free_blocks_count = stack.length
  next : mp.next_block = stack.head?.map (· * mp.block_size)

variable {mp : Mempool} {stack chain : List Nat} {mem next bytes : List UInt8}
  {block_size rest start i j : Nat}

-- Blocks are apart from each other, and inside the pool.
theorem blocks_apart (differ : i ≠ j) : i * block_size + block_size ≤ j * block_size ∨
    j * block_size + block_size ≤ i * block_size := by
  rcases Nat.lt_or_gt_of_ne differ with less | more
  · left
    have := Nat.mul_le_mul_right block_size (Nat.succ_le_of_lt less)
    rwa [Nat.succ_mul] at this
  · right
    have := Nat.mul_le_mul_right block_size (Nat.succ_le_of_lt more)
    rwa [Nat.succ_mul] at this

theorem block_inside (within : i < mp.block_count) :
    i * mp.block_size + mp.block_size ≤ mp.block_count * mp.block_size := by
  have := Nat.mul_le_mul_right mp.block_size (Nat.succ_le_of_lt within)
  rwa [Nat.succ_mul] at this

theorem index_to_addr_spec (small : mp.block_count * mp.block_size < 2^32) (within : i < mp.block_count) :
    mp.index_to_addr i = i * mp.block_size := by
  have := block_inside within
  rw [index_to_addr,Nat.mul_comm]
  exact Nat.mod_eq_of_lt (by omega)

theorem addr_to_index_spec (room : 4 ≤ mp.block_size) (small : mp.block_count * mp.block_size < 2^32)
    (within : i < mp.block_count) : mp.addr_to_index (i * mp.block_size) = i := by
  have := block_inside within
  rw [addr_to_index,Nat.mod_eq_of_lt (by omega)]
  exact Nat.mul_div_cancel i (by omega)

theorem threaded_congr (threaded : Threaded mem block_size rest chain)
    (same : ∀ i ∈ chain, load32 next (i * block_size) = load32 mem (i * block_size)) :
    Threaded next block_size rest chain := by
  induction chain with
  | nil => trivial
  | cons i chain ih =>
    obtain ⟨here,later⟩ := threaded
    refine ⟨(same i List.mem_cons_self).trans here,ih later ?_⟩
    intro j member
    exact same j (List.mem_cons_of_mem _ member)

-- A write inside one block leaves a chain alone that does not pass there.
theorem threaded_other (room : 4 ≤ block_size) (threaded : Threaded mem block_size rest chain)
    (written : splice mem start bytes = some next) (lower : j * block_size ≤ start)
    (upper : start + bytes.length ≤ j * block_size + block_size) (outside : j ∉ chain) :
    Threaded next block_size rest chain := by
  refine threaded_congr threaded fun i member => load_other written ?_
  have apart : j * block_size + block_size ≤ i * block_size ∨ i * block_size + block_size ≤ j * block_size := by
    apply blocks_apart
    rintro rfl
    exact outside member
  omega

theorem threaded_extend (threaded : Threaded mem block_size j chain)
    (last : load32 mem (j * block_size) = some rest) : Threaded mem block_size rest (chain ++ [j]) := by
  induction chain with
  | nil => exact ⟨last,trivial⟩
  | cons i chain ih =>
    obtain ⟨here,later⟩ := threaded
    refine ⟨?_,ih later⟩
    rw [here]
    cases chain with
    | nil => rfl
    | cons k chain => rfl

-- One more block gets its link, and joins the end of the chain.
theorem initialize_next_spec (stands : Stands mp stack chain) : ∃ after chain',
    mp.initialize_next = some after ∧ Stands after stack chain' ∧ (stack ≠ [] → chain' ≠ []) := by
  unfold initialize_next
  by_cases more : mp.initialized_blocks_count < mp.block_count
  · have inside := block_inside more
    have place := index_to_addr_spec stands.small more
    have positive := Nat.le_mul_of_pos_right mp.block_count (show 0 < mp.block_size by have := stands.room; omega)
    have word : (bigEndian32 (mp.initialized_blocks_count + 1)).reverse.length = 4 := by simp
    obtain ⟨mem,stored⟩ : ∃ mem, store32 mp.mem_start (mp.initialized_blocks_count * mp.block_size)
        (mp.initialized_blocks_count + 1) = some mem :=
      ⟨_,splice_some (by rw [word,stands.length]; have := stands.room; omega)⟩
    have outside : mp.initialized_blocks_count ∉ chain := fun member =>
      Nat.lt_irrefl _ (stands.touched _ member)
    rw [if_pos more,place,stored]
    refine ⟨_,chain ++ [mp.initialized_blocks_count],rfl,
      ⟨stands.room,stands.small,(splice_length stored).trans stands.length,more,?_,?_,stands.nodup,?_,
        stands.count,stands.next⟩,fun _ => by simp⟩
    · have step : mp.block_count - mp.initialized_blocks_count =
          mp.block_count - (mp.initialized_blocks_count + 1) + 1 := by omega
      rw [stands.parts,step,List.range'_succ,List.append_assoc]
      rfl
    · intro i member
      rcases List.mem_append.mp member with early | last
      · exact Nat.lt_succ_of_lt (stands.touched i early)
      · obtain rfl := List.mem_singleton.mp last
        exact Nat.lt_succ_self _
    · have kept := threaded_other stands.room stands.threaded stored (Nat.le_refl _)
        (by rw [word]; have := stands.room; omega) outside
      have fits : mp.initialized_blocks_count + 1 < 2^32 := by have := stands.small; omega
      exact threaded_extend kept (load_store fits stored)
  · have all : mp.block_count - mp.initialized_blocks_count = 0 := by omega
    rw [if_neg more]
    refine ⟨mp,chain,rfl,stands,fun some_left none => some_left ?_⟩
    rw [stands.parts,none,all]
    rfl

-- Where the chain ends, the first untouched block follows.
theorem headD_parts {grown left : Nat} {below : List Nat}
    (parts : i :: below = chain ++ List.range' grown left) : chain.headD grown = i := by
  cases chain with
  | nil =>
    cases left with
    | zero => cases parts
    | succ left => exact (List.cons.inj parts).1.symm
  | cons k chain => exact (List.cons.inj parts).1.symm

theorem parts_within (stands : Stands mp stack chain) (member : i ∈ stack) : i < mp.block_count := by
  have grown := stands.grown
  rw [stands.parts,List.mem_append,List.mem_range'_1] at member
  rcases member with early | late
  · have := stands.touched i early
    omega
  · omega

theorem take_next_spec {i : Nat} {below : List Nat} (stands : Stands mp (i :: below) chain)
    (touched : chain ≠ []) : ∃ after chain',
    mp.take_next = some (after,some (i * mp.block_size)) ∧ Stands after below chain' ∧
      after.block_count = mp.block_count ∧ after.block_size = mp.block_size := by
  cases chain with
  | nil => exact absurd rfl touched
  | cons k chain =>
    obtain ⟨rfl,tail⟩ : i = k ∧ below = chain ++ List.range' mp.initialized_blocks_count
        (mp.block_count - mp.initialized_blocks_count) := List.cons.inj stands.parts
    obtain ⟨link,threaded⟩ := stands.threaded
    have count : mp.free_blocks_count = below.length + 1 := stands.count
    have next : mp.next_block = some (i * mp.block_size) := stands.next
    have touched : ∀ j ∈ chain, j < mp.initialized_blocks_count :=
      fun j member => stands.touched j (List.mem_cons_of_mem _ member)
    have nodup := (List.nodup_cons.mp stands.nodup).2
    unfold take_next
    rw [if_pos (by omega),next]
    cases below with
    | nil =>
      rw [if_neg (show ¬ 0 < mp.free_blocks_count - 1 by rw [count]; simp)]
      refine ⟨_,chain,rfl,⟨stands.room,stands.small,stands.length,stands.grown,tail,touched,nodup,threaded,?_,rfl⟩,
        rfl,rfl⟩
      show mp.free_blocks_count - 1 = 0
      rw [count]
      rfl
    | cons j below =>
      have first := headD_parts tail
      have within := parts_within stands (List.mem_cons_of_mem _ List.mem_cons_self)
      rw [if_pos (show 0 < mp.free_blocks_count - 1 by rw [count]; simp)]
      simp only [Option.bind_eq_bind,Option.bind_some,link,first]
      refine ⟨_,chain,rfl,⟨stands.room,stands.small,stands.length,stands.grown,tail,touched,nodup,threaded,?_,?_⟩,
        rfl,rfl⟩
      · show mp.free_blocks_count - 1 = _
        rw [count]
        rfl
      · exact congrArg some (index_to_addr_spec stands.small within)

theorem initialize_next_frame {after : Mempool} (done : mp.initialize_next = some after) :
    after.block_count = mp.block_count ∧ after.block_size = mp.block_size ∧
      after.free_blocks_count = mp.free_blocks_count := by
  unfold initialize_next at done
  split at done
  · obtain ⟨mem,_,rfl⟩ := Option.map_eq_some_iff.mp done
    exact ⟨rfl,rfl,rfl⟩
  · cases done
    exact ⟨rfl,rfl,rfl⟩

-- The pool is a stack of free blocks: alloc pops it, free pushes.
theorem alloc_spec (stands : Stands mp stack chain) : ∃ after chain',
    mp.cplus_mempool_alloc = some (after,stack.head?.map (· * mp.block_size)) ∧
      Stands after stack.tail chain' ∧ after.block_count = mp.block_count ∧
      after.block_size = mp.block_size := by
  obtain ⟨grown,chain',done,kept,touched⟩ := initialize_next_spec stands
  obtain ⟨same_count,same_size,_⟩ := initialize_next_frame done
  unfold cplus_mempool_alloc
  rw [done,Option.bind_some]
  cases stack with
  | nil =>
    have empty : grown.free_blocks_count = 0 := kept.count
    refine ⟨grown,chain',?_,kept,same_count,same_size⟩
    rw [take_next,if_neg (by omega)]
    rfl
  | cons i below =>
    obtain ⟨after,chain'',took,left,count,size⟩ := take_next_spec kept (touched (List.cons_ne_nil _ _))
    refine ⟨after,chain'',?_,left,count.trans same_count,size.trans same_size⟩
    rw [took,same_size]
    rfl

-- A block in use has been touched, so the untouched ones are still at the bottom.
theorem live_touched (stands : Stands mp stack chain) (within : i < mp.block_count)
    (outside : i ∉ stack) : i < mp.initialized_blocks_count ∧ i ∉ chain := by
  rw [stands.parts,List.mem_append,not_or,List.mem_range'_1] at outside
  have grown := stands.grown
  exact ⟨by omega,outside.1⟩

theorem next_index_spec (stands : Stands mp stack chain) :
    chain.headD mp.initialized_blocks_count = mp.next_index := by
  have next := stands.next
  have parts := stands.parts
  unfold next_index
  cases stack with
  | nil =>
    obtain ⟨rfl,untouched⟩ := List.append_eq_nil_iff.mp parts.symm
    have grown := stands.grown
    rw [List.range'_eq_nil_iff] at untouched
    rw [show mp.next_block = none from next]
    show mp.initialized_blocks_count = mp.block_count
    omega
  | cons j below =>
    rw [show mp.next_block = some (j * mp.block_size) from next,headD_parts parts]
    exact (addr_to_index_spec stands.room stands.small (parts_within stands List.mem_cons_self)).symm

theorem next_index_le (stands : Stands mp stack chain) : mp.next_index ≤ mp.block_count := by
  have grown := stands.grown
  rw [← next_index_spec stands]
  cases chain with
  | nil => exact grown
  | cons i chain => exact Nat.le_trans (Nat.le_of_lt (stands.touched i List.mem_cons_self)) grown

theorem free_spec (stands : Stands mp stack chain) (within : i < mp.block_count) (outside : i ∉ stack) :
    ∃ after, mp.cplus_mempool_free (i * mp.block_size) = some after ∧
      Stands after (i :: stack) (i :: chain) ∧ after.block_count = mp.block_count ∧
      after.block_size = mp.block_size := by
  obtain ⟨touched,apart⟩ := live_touched stands within outside
  have inside := block_inside within
  have room := stands.room
  have link := next_index_spec stands
  have bounded := next_index_le stands
  have word : (bigEndian32 mp.next_index).reverse.length = 4 := by simp
  obtain ⟨mem,stored⟩ : ∃ mem, store32 mp.mem_start (i * mp.block_size) mp.next_index = some mem :=
    ⟨_,splice_some (by rw [word,stands.length]; omega)⟩
  have fits : mp.next_index < 2^32 := by
    have := Nat.le_mul_of_pos_right mp.block_count (show 0 < mp.block_size by omega)
    have := stands.small
    omega
  have kept := threaded_other room stands.threaded stored (Nat.le_refl _) (by rw [word]; omega) apart
  unfold cplus_mempool_free
  rw [stored]
  refine ⟨_,rfl,⟨room,stands.small,(splice_length stored).trans stands.length,stands.grown,?_,?_,
    List.nodup_cons.mpr ⟨outside,stands.nodup⟩,⟨?_,kept⟩,?_,rfl⟩,rfl,rfl⟩
  · rw [List.cons_append]
    exact congrArg (i :: ·) stands.parts
  · intro j member
    rcases List.mem_cons.mp member with rfl | early
    · exact touched
    · exact stands.touched j early
  · rw [link]
    exact load_store fits stored
  · exact congrArg (· + 1) stands.count

-- Neither of them writes to a block in use.
theorem link_spares {n : Nat} (room : 4 ≤ block_size) (stored : store32 mem (i * block_size) n = some next)
    (apart : j ≠ i) : slice next (j * block_size) block_size = slice mem (j * block_size) block_size := by
  have word : (bigEndian32 n).reverse.length = 4 := by simp
  apply slice_other stored
  rw [word]
  rcases blocks_apart apart with below | above
  · exact .inl below
  · exact .inr (by omega)

theorem alloc_spares {answer : Option Nat} {after : Mempool} (stands : Stands mp stack chain)
    (within : j < mp.block_count) (outside : j ∉ stack)
    (done : mp.cplus_mempool_alloc = some (after,answer)) :
    slice after.mem_start (j * mp.block_size) mp.block_size =
      slice mp.mem_start (j * mp.block_size) mp.block_size := by
  obtain ⟨grown,linked,took⟩ := Option.bind_eq_some_iff.mp done
  have same : after.mem_start = grown.mem_start := by
    unfold take_next at took
    split at took
    · split at took
      · obtain ⟨next,_,took⟩ := Option.bind_eq_some_iff.mp took
        obtain ⟨link,_,took⟩ := Option.bind_eq_some_iff.mp took
        cases took
        rfl
      · cases took
        rfl
    · cases took
      rfl
  rw [same]
  unfold initialize_next at linked
  split at linked
  · rename_i more
    obtain ⟨mem,stored,rfl⟩ := Option.map_eq_some_iff.mp linked
    rw [index_to_addr_spec stands.small more] at stored
    apply link_spares stands.room stored
    rintro rfl
    exact Nat.lt_irrefl _ (live_touched stands within outside).1
  · cases linked
    rfl

theorem free_spares {after : Mempool} (room : 4 ≤ mp.block_size) (apart : j ≠ i)
    (done : mp.cplus_mempool_free (i * mp.block_size) = some after) :
    slice after.mem_start (j * mp.block_size) mp.block_size =
      slice mp.mem_start (j * mp.block_size) mp.block_size := by
  obtain ⟨mem,stored,result⟩ := Option.bind_eq_some_iff.mp done
  cases result
  exact link_spares room stored apart

theorem write_spec (stands : Stands mp stack chain) (within : i < mp.block_count) (outside : i ∉ stack)
    {offset : Nat} (inside : offset < mp.block_size) (byte : UInt8) : ∃ after,
    mp.write_block (i * mp.block_size + offset) byte = some after ∧ Stands after stack chain ∧
      after.block_count = mp.block_count ∧ after.block_size = mp.block_size := by
  have room := block_inside within
  obtain ⟨_,apart⟩ := live_touched stands within outside
  obtain ⟨mem,written⟩ : ∃ mem, splice mp.mem_start (i * mp.block_size + offset) [byte] = some mem :=
    ⟨_,splice_some (by rw [List.length_singleton,stands.length]; omega)⟩
  unfold write_block
  rw [written]
  refine ⟨_,rfl,{stands with
    length := (splice_length written).trans stands.length
    threaded := threaded_other stands.room stands.threaded written (Nat.le_add_right _ _) ?_ apart},rfl,rfl⟩
  show i * mp.block_size + offset + 1 ≤ i * mp.block_size + mp.block_size
  omega

theorem new_spec {outcome : Outcome} {block_count : Nat} (small : block_count * block_size < 2^32)
    (created : cplus_mempool_new outcome block_count block_size = some mp) :
    Stands mp (List.range block_count) [] ∧ mp.block_count = block_count ∧ mp.block_size = block_size := by
  unfold cplus_mempool_new at created
  split at created
  · cases created
  · rename_i positive
    split at created
    · cases created
    · rename_i room
      obtain ⟨mem,obtained,rfl⟩ := Option.map_eq_some_iff.mp created
      have length := malloc_length obtained
      rw [Nat.mod_eq_of_lt small] at length
      refine ⟨⟨show 4 ≤ block_size by omega,small,length,Nat.zero_le _,?_,nofun,List.nodup_range,trivial,?_,?_⟩,rfl,rfl⟩
      · exact List.range_eq_range'
      · exact List.length_range.symm
      · rw [List.head?_range,if_neg (Ne.symm positive)]
        exact congrArg some (Nat.zero_mul _).symm

-- A client of the pool: the blocks it holds, those it gave back that were not
-- handed out again, and what the last call was answered. `pool` is none after an
-- access outside the blocks.
structure Client where
  pool : Option Mempool
  live : List Nat
  freed : List Nat
  answer : Option (Option Nat)

inductive Call where
  | alloc
  | free (addr : Nat)
  | write (addr offset : Nat) (byte : UInt8)
  deriving DecidableEq

namespace Client

def created (mp : Mempool) : Client := ⟨some mp,[],[],none⟩

def call (c : Client) : Call → Client
  | .alloc =>
    match c.pool.bind cplus_mempool_alloc with
    | none => {c with pool := none,answer := none}
    | some (mp,none) => {c with pool := some mp,answer := some none}
    | some (mp,some addr) => ⟨some mp,addr :: c.live,c.freed.erase addr,some (some addr)⟩
  | .free addr => ⟨c.pool.bind fun mp => mp.cplus_mempool_free addr,c.live.erase addr,addr :: c.freed,none⟩
  | .write addr offset byte =>
    {c with pool := c.pool.bind fun mp => mp.write_block (addr + offset) byte,answer := none}

-- Only live blocks are freed, and written inside their bounds.
def Legal (block_size : Nat) (c : Client) : Call → Prop
  | .alloc => True
  | .free addr => addr ∈ c.live
  | .write addr offset _ => addr ∈ c.live ∧ offset < block_size

instance (block_size : Nat) (c : Client) (call : Call) : Decidable (Legal block_size c call) := by
  cases call <;> unfold Legal <;> infer_instance

def advance (block_size : Nat) (c : Client) (call : Call) : Option Client :=
  if Legal block_size c call then some (c.call call) else none

abbrev Step (block_size : Nat) : Client → Call → Client → Prop := Follows (advance block_size)

-- The blocks in use and the stack of the free ones are all the blocks, each once.
structure Accounts (block_count block_size : Nat) (c : Client) (mp : Mempool) (stack chain ids : List Nat) :
    Prop where
  pool : c.pool = some mp
  stands : Stands mp stack chain
  count : mp.block_count = block_count
  size : mp.block_size = block_size
  live : c.live = ids.map (· * block_size)
  all : (ids ++ stack).Perm (List.range block_count)
  freed : c.freed = (stack.take c.freed.length).map (· * block_size)

def Invariant (block_count block_size : Nat) (c : Client) : Prop :=
  ∃ mp stack chain ids, Accounts block_count block_size c mp stack chain ids

-- In every state the count is what is not in use.
structure Counted (block_count block_size : Nat) (c : Client) (mp : Mempool) : Prop where
  pool : c.pool = some mp
  nodup : c.live.Nodup
  blocks : ∀ addr ∈ c.live, ∃ i < block_count, addr = i * block_size
  free : mp.free_blocks_count + c.live.length = block_count

-- An alloc gives a block that is not in use, the one freed last if there is any,
-- and NULL when all are in use, not before.
structure Allocates (block_count block_size : Nat) (m : Move Client Call) (answer : Option Nat) : Prop where
  given : m.after.answer = some answer
  fresh : ∀ addr, answer = some addr → (∃ i < block_count, addr = i * block_size) ∧ addr ∉ m.before.live
  null : answer = none ↔ m.before.live.length = block_count
  last : ∀ addr rest, m.before.freed = addr :: rest → answer = some addr

variable {block_count : Nat} {c next : Client} {call : Call} {ids : List Nat}

theorem created_invariant {outcome : Outcome} (small : block_count * block_size < 2^32)
    (new : cplus_mempool_new outcome block_count block_size = some mp) :
    Invariant block_count block_size (created mp) := by
  obtain ⟨stands,count,size⟩ := new_spec small new
  exact ⟨mp,_,[],[],rfl,stands,count,size,rfl,.refl _,rfl⟩

theorem Accounts.positive (accounts : Accounts block_count block_size c mp stack chain ids) :
    0 < block_size := by
  have room := accounts.stands.room
  rw [accounts.size] at room
  omega

theorem Accounts.apart (accounts : Accounts block_count block_size c mp stack chain ids) :
    ids.Nodup ∧ (∀ i ∈ ids, i < block_count ∧ i ∉ stack) ∧
      ids.length + stack.length = block_count := by
  have nodup := accounts.all.nodup_iff.mpr List.nodup_range
  obtain ⟨ids_nodup,_,differ⟩ := List.nodup_append.mp nodup
  refine ⟨ids_nodup,fun i member => ⟨?_,fun there => differ i member i there rfl⟩,?_⟩
  · exact List.mem_range.mp (accounts.all.subset (List.mem_append_left _ member))
  · rw [← List.length_append,accounts.all.length_eq,List.length_range]

theorem times_injective (positive : 0 < block_size) : Function.Injective (· * block_size) :=
  fun _ _ same => Nat.eq_of_mul_eq_mul_right positive same

theorem Accounts.counted (accounts : Accounts block_count block_size c mp stack chain ids) :
    Counted block_count block_size c mp := by
  obtain ⟨nodup,within,total⟩ := accounts.apart
  refine ⟨accounts.pool,?_,?_,?_⟩
  · rw [accounts.live]
    exact nodup.map (times_injective accounts.positive)
  · intro addr member
    rw [accounts.live] at member
    obtain ⟨i,there,rfl⟩ := List.mem_map.mp member
    exact ⟨i,(within i there).1,rfl⟩
  · rw [accounts.stands.count,accounts.live,List.length_map]
    omega

-- In short, the pool is a pool of block_count addresses.
def addresses (block_count block_size : Nat) : Finset Nat := (Finset.range block_count).image (· * block_size)

theorem Counted.balanced (counted : Counted block_count block_size c mp) :
    BlockPool.Balanced (addresses block_count block_size) c.live.toFinset c.live where
  nodup := counted.nodup
  same := rfl
  within addr member := by
    obtain ⟨i,within,rfl⟩ := counted.blocks addr (List.mem_toFinset.mp member)
    exact Finset.mem_image_of_mem _ (Finset.mem_range.mpr within)

theorem Allocates.grants {m : Move Client Call} {answer : Option Nat}
    (allocates : Allocates block_count block_size m answer) (counted : Counted block_count block_size m.before mp) :
    BlockPool.Grants (addresses block_count block_size) m.before.live.toFinset answer := by
  cases answer with
  | some addr =>
    obtain ⟨⟨i,within,rfl⟩,fresh⟩ := allocates.fresh addr rfl
    refine ⟨Finset.mem_image_of_mem _ (Finset.mem_range.mpr within),?_⟩
    rwa [List.mem_toFinset]
  | none =>
    have full := allocates.null.mp rfl
    have same : m.before.live.toFinset = addresses block_count block_size := by
      apply Finset.eq_of_subset_of_card_le counted.balanced.within
      rw [counted.balanced.card,full]
      exact Finset.card_image_le.trans (Finset.card_range _).le
    exact same.ge

-- A call on the pool the client knows, and what it leaves.
theorem alloc_keeps (accounts : Accounts block_count block_size c mp stack chain ids) :
    Invariant block_count block_size (c.call .alloc) ∧ ∃ answer,
      Allocates block_count block_size ⟨c,.alloc,c.call .alloc⟩ answer := by
  obtain ⟨nodup,within,total⟩ := accounts.apart
  obtain ⟨after,chain',done,stands,count,size⟩ := alloc_spec accounts.stands
  have ran : c.pool.bind cplus_mempool_alloc = some (after,stack.head?.map (· * block_size)) := by
    rw [accounts.pool,Option.bind_some,done,accounts.size]
  have live := accounts.live
  have freed := accounts.freed
  cases stack with
  | nil =>
    have result : c.call .alloc = {c with pool := some after,answer := some none} := by
      simp only [Client.call,ran,List.head?_nil,Option.map_none]
    rw [result]
    refine ⟨⟨after,[],chain',ids,rfl,stands,count.trans accounts.count,size.trans accounts.size,
      live,accounts.all,freed⟩,none,rfl,nofun,?_,?_⟩
    · refine ⟨fun _ => ?_,fun _ => rfl⟩
      show c.live.length = block_count
      rw [live,List.length_map]
      exact total
    · intro addr rest none_freed
      rw [show c.freed = addr :: rest from none_freed] at freed
      cases freed
  | cons i below =>
    have result : c.call .alloc =
        ⟨some after,(i * block_size) :: c.live,c.freed.erase (i * block_size),some (some (i * block_size))⟩ := by
      simp only [Client.call,ran,List.head?_cons,Option.map_some]
    have behind : ∀ addr rest, c.freed = addr :: rest → addr = i * block_size ∧
        rest = (below.take rest.length).map (· * block_size) := by
      intro addr rest split
      rw [split] at freed
      exact List.cons.inj freed
    have fresh : i * block_size ∉ c.live := by
      rw [live]
      intro member
      obtain ⟨j,there,same⟩ := List.mem_map.mp member
      rw [times_injective accounts.positive same] at there
      exact (within i there).2 List.mem_cons_self
    have inside : i < block_count := by
      rw [← accounts.count]
      exact parts_within accounts.stands List.mem_cons_self
    rw [result]
    refine ⟨⟨after,below,chain',i :: ids,rfl,stands,count.trans accounts.count,size.trans accounts.size,
      congrArg (i * block_size :: ·) live,List.perm_middle.symm.trans accounts.all,?_⟩,
      some (i * block_size),rfl,?_,?_,?_⟩
    · show c.freed.erase (i * block_size) = _
      cases split : c.freed with
      | nil => rfl
      | cons addr rest =>
        obtain ⟨rfl,left⟩ := behind addr rest split
        rw [List.erase_cons_head]
        exact left
    · intro addr same
      obtain rfl := Option.some.inj same
      exact ⟨⟨i,inside,rfl⟩,fresh⟩
    · refine ⟨nofun,fun full => ?_⟩
      have all : ids.length = block_count := by rw [← List.length_map (· * block_size),← live]; exact full
      rw [List.length_cons] at total
      omega
    · intro addr rest split
      rw [(behind addr rest split).1]

theorem free_keeps (accounts : Accounts block_count block_size c mp stack chain ids) {addr : Nat}
    (held : addr ∈ c.live) : Invariant block_count block_size (c.call (.free addr)) := by
  obtain ⟨nodup,within,_⟩ := accounts.apart
  have member := held
  rw [accounts.live] at member
  obtain ⟨i,there,rfl⟩ := List.mem_map.mp member
  obtain ⟨inside,outside⟩ := within i there
  obtain ⟨after,done,stands,count,size⟩ :=
    free_spec accounts.stands (accounts.count ▸ inside) outside
  rw [accounts.size] at done
  have pool : (c.call (.free (i * block_size))).pool = some after := by
    show c.pool.bind _ = _
    rw [accounts.pool]
    exact done
  refine ⟨after,i :: stack,i :: chain,ids.erase i,pool,stands,count.trans accounts.count,
    size.trans accounts.size,?_,?_,?_⟩
  · show c.live.erase (i * block_size) = _
    rw [accounts.live]
    exact (List.map_erase (times_injective accounts.positive) ids).symm
  · refine List.perm_middle.trans (.trans ?_ accounts.all)
    exact (List.perm_cons_erase there).symm.append_right stack
  · exact congrArg (i * block_size :: ·) accounts.freed

theorem write_keeps (accounts : Accounts block_count block_size c mp stack chain ids) {addr offset : Nat}
    (held : addr ∈ c.live) (inside : offset < block_size) (byte : UInt8) :
    Invariant block_count block_size (c.call (.write addr offset byte)) := by
  obtain ⟨_,within,_⟩ := accounts.apart
  have member := held
  rw [accounts.live] at member
  obtain ⟨i,there,rfl⟩ := List.mem_map.mp member
  obtain ⟨bounded,outside⟩ := within i there
  obtain ⟨after,done,stands,count,size⟩ :=
    write_spec accounts.stands (accounts.count ▸ bounded) outside (accounts.size ▸ inside) byte
  rw [accounts.size] at done
  have pool : (c.call (.write (i * block_size) offset byte)).pool = some after := by
    show c.pool.bind _ = _
    rw [accounts.pool]
    exact done
  exact ⟨after,stack,chain,ids,pool,stands,count.trans accounts.count,size.trans accounts.size,
    accounts.live,accounts.all,accounts.freed⟩

theorem step_parts (taken : Step block_size c call next) : Legal block_size c call ∧ next = c.call call := by
  unfold Step Follows advance at taken
  split at taken
  · rename_i legal
    exact ⟨legal,(Option.some.inj taken).symm⟩
  · cases taken

theorem step_keeps (valid : Invariant block_count block_size c) (taken : Step block_size c call next) :
    Invariant block_count block_size next := by
  obtain ⟨mp,stack,chain,ids,accounts⟩ := valid
  obtain ⟨legal,rfl⟩ := step_parts taken
  cases call with
  | alloc => exact (alloc_keeps accounts).1
  | free addr => exact free_keeps accounts legal
  | write addr offset byte => exact write_keeps accounts legal.1 legal.2 byte

theorem allocation_law {outcome : Outcome} (small : block_count * block_size < 2^32)
    (new : cplus_mempool_new outcome block_count block_size = some mp) {moves : List (Move Client Call)}
    (run : Run (Step block_size) (created mp) moves c) :
    (∃ pool, Counted block_count block_size c pool) ∧
    ∀ m ∈ moves, (∃ pool, Counted block_count block_size m.after pool) ∧
      (m.action = .alloc → ∃ answer, Allocates block_count block_size m answer) := by
  have start := created_invariant small new
  have kept := run.invariant start step_keeps
  have counted : ∀ c, Invariant block_count block_size c → ∃ pool, Counted block_count block_size c pool := by
    rintro c ⟨mp,stack,chain,ids,accounts⟩
    exact ⟨mp,accounts.counted⟩
  refine ⟨counted c kept.1,fun m member => ⟨counted _ (kept.2 m member),fun allocs => ?_⟩⟩
  obtain ⟨⟨mp,stack,chain,ids,accounts⟩,taken⟩ :=
    run.each (fun _ _ => True) start (fun valid taken _ => step_keeps valid taken) (fun _ _ => trivial)
      m member
  obtain ⟨_,after⟩ := step_parts taken
  obtain ⟨before,action,result⟩ := m
  obtain rfl : action = .alloc := allocs
  obtain rfl : result = before.call .alloc := after
  exact (alloc_keeps accounts).2

-- Two blocks: the second is written to, freed and handed out again, then none is left.
def two_blocks : Mempool := ⟨2,4,2,0,List.replicate 8 0,some 0⟩

theorem two_blocks_allocated : ∃ moves c, Run (Step 4) (created two_blocks) moves c ∧
    moves.map Move.action = [.alloc,.alloc,.write 4 3 255,.free 4,.alloc,.alloc] ∧
    c.answer = some none ∧ ∀ m ∈ moves, m.action = .alloc → ∃ answer, Allocates 2 4 m answer := by
  obtain ⟨moves,c,run,same,checked⟩ := Run.of_check (advance 4) (created two_blocks)
    [.alloc,.alloc,.write 4 3 255,.free 4,.alloc,.alloc]
    (fun result => decide (result.2.answer = some none)) (by decide +kernel)
  have new : cplus_mempool_new (some fun _ => 0) 2 4 = some two_blocks := rfl
  have law := allocation_law (by decide) new run
  exact ⟨moves,c,run,same,of_decide_eq_true checked,fun m member => (law.2 m member).2⟩

end Client

end Mempool

end Libcplus
