import Mathlib.Algebra.Group.Nat.Defs
import Mathlib.Data.List.Basic

namespace Bytes

-- A block of memory is the list of its bytes. Reading or writing a range that
-- leaves the block is `none`, so a result that is `some` stayed inside.
def slice (block : List UInt8) (start count : Nat) : Option (List UInt8) :=
  if start + count ≤ block.length then some ((block.drop start).take count) else none

def splice (block : List UInt8) (start : Nat) (bytes : List UInt8) : Option (List UInt8) :=
  if start + bytes.length ≤ block.length then
    some (block.take start ++ bytes ++ block.drop (start + bytes.length))
  else none

variable {block next bytes : List UInt8} {start count i : Nat}

theorem slice_some (fits : start + count ≤ block.length) :
    slice block start count = some ((block.drop start).take count) := if_pos fits

theorem slice_parts (read : slice block start count = some bytes) :
    start + count ≤ block.length ∧ bytes = (block.drop start).take count := by
  unfold slice at read
  split at read
  · rename_i fits; cases read; exact ⟨fits,rfl⟩
  · cases read

theorem splice_some (fits : start + bytes.length ≤ block.length) :
    splice block start bytes =
      some (block.take start ++ bytes ++ block.drop (start + bytes.length)) := if_pos fits

theorem splice_parts (written : splice block start bytes = some next) :
    start + bytes.length ≤ block.length ∧
      next = block.take start ++ bytes ++ block.drop (start + bytes.length) := by
  unfold splice at written
  split at written
  · rename_i fits; cases written; exact ⟨fits,rfl⟩
  · cases written

theorem splice_length (written : splice block start bytes = some next) :
    next.length = block.length := by
  obtain ⟨fits,rfl⟩ := splice_parts written
  simp only [List.length_append,List.length_take,List.length_drop]
  omega

-- What a later read sees of a write: the bytes written, and the rest unchanged.
theorem splice_take (written : splice block start bytes = some next) :
    next.take (start + bytes.length) = block.take start ++ bytes := by
  obtain ⟨fits,rfl⟩ := splice_parts written
  have length : (block.take start ++ bytes).length = start + bytes.length := by
    rw [List.length_append,List.length_take]
    omega
  rw [← length,List.take_left]

theorem splice_slice (written : splice block start bytes = some next) :
    (next.drop start).take bytes.length = bytes := by
  obtain ⟨fits,rfl⟩ := splice_parts written
  have length : (block.take start).length = start := by rw [List.length_take]; omega
  rw [List.append_assoc,List.drop_append_of_le_length (by omega),List.drop_of_length_le (by omega),
    List.nil_append,List.take_left]

theorem splice_inside (written : splice block start bytes = some next)
    (lower : start ≤ i) (upper : i < start + bytes.length) : next[i]? = bytes[i - start]? := by
  obtain ⟨fits,rfl⟩ := splice_parts written
  have length : (block.take start).length = start := by rw [List.length_take]; omega
  rw [List.append_assoc,List.getElem?_append_right (by omega),length,
    List.getElem?_append_left (by omega)]

theorem slice_congr {other : List UInt8} (length : other.length = block.length)
    (same : ∀ i, start ≤ i → i < start + count → other[i]? = block[i]?) :
    slice other start count = slice block start count := by
  have bytes : (other.drop start).take count = (block.drop start).take count := by
    refine List.ext_getElem? fun i => ?_
    by_cases within : i < count
    · rw [List.getElem?_take_of_lt within,List.getElem?_take_of_lt within,List.getElem?_drop,
        List.getElem?_drop,same (start + i) (by omega) (by omega)]
    · rw [List.getElem?_take_eq_none (by omega),List.getElem?_take_eq_none (by omega)]
  unfold slice
  rw [length,bytes]

-- A write does not show in a range that is apart from it.
theorem slice_other (written : splice block start bytes = some next)
    (apart : i + count ≤ start ∨ start + bytes.length ≤ i) : slice next i count = slice block i count := by
  obtain ⟨fits,rfl⟩ := splice_parts written
  refine slice_congr (splice_length written) fun k lower upper => ?_
  rcases apart with below | above
  · rw [List.append_assoc,List.getElem?_append_left (by rw [List.length_take]; omega),
      List.getElem?_take_of_lt (by omega)]
  · rw [List.getElem?_append_right (by rw [List.length_append,List.length_take]; omega),
      List.length_append,List.length_take,List.getElem?_drop]
    congr 1
    omega

-- Most significant byte first, as htonl lays a number out in memory.
def bigEndian32 (n : Nat) : List UInt8 :=
  [.ofNat (n / 2^24),.ofNat (n / 2^16),.ofNat (n / 2^8),.ofNat n]

@[simp] theorem bigEndian32_length (n : Nat) : (bigEndian32 n).length = 4 := rfl

-- Reading a big-endian number: shift what is there by a byte and add the next.
def readNext (n : Nat) (b : UInt8) : Nat := (n * 2^8 + b.toNat) % 2^32

theorem four_bytes (length : bytes.length = 4) : ∃ a b c d, bytes = [a,b,c,d] ∧ a.toNat < 2^8 ∧ b.toNat < 2^8 ∧
    c.toNat < 2^8 ∧ d.toNat < 2^8 := by
  obtain ⟨a,b,c,d,same⟩ := List.length_eq_four.mp length
  exact ⟨a,b,c,d,same,a.toNat_lt,b.toNat_lt,c.toNat_lt,d.toNat_lt⟩

theorem bigEndian32_read {n : Nat} (small : n < 2^32) :
    (bigEndian32 n).foldl readNext 0 = n := by
  simp only [bigEndian32,readNext,List.foldl_cons,List.foldl_nil,UInt8.toNat_ofNat']
  omega

theorem read_bigEndian (length : bytes.length = 4) :
    bytes.foldl readNext 0 < 2^32 ∧ bigEndian32 (bytes.foldl readNext 0) = bytes := by
  obtain ⟨a,b,c,d,rfl,small_a,small_b,small_c,small_d⟩ := four_bytes length
  simp only [bigEndian32,readNext,List.foldl_cons,List.foldl_nil,List.cons.injEq,and_true,← UInt8.toNat_inj,
    UInt8.toNat_ofNat']
  omega

-- Least significant byte first, as a uint32_t of the machine.
def littleEndian32 (n : Nat) : List UInt8 :=
  [.ofNat n,.ofNat (n / 2^8),.ofNat (n / 2^16),.ofNat (n / 2^24)]

def readLittle (bytes : List UInt8) : Nat := bytes.foldr (fun b n => b.toNat + 2^8 * n) 0

@[simp] theorem littleEndian32_length (n : Nat) : (littleEndian32 n).length = 4 := rfl

theorem littleEndian32_read {n : Nat} (small : n < 2^32) : readLittle (littleEndian32 n) = n := by
  simp only [littleEndian32,readLittle,List.foldr_cons,List.foldr_nil,UInt8.toNat_ofNat']
  omega

theorem read_littleEndian32 (length : bytes.length = 4) : littleEndian32 (readLittle bytes) = bytes := by
  obtain ⟨a,b,c,d,rfl,small_a,small_b,small_c,small_d⟩ := four_bytes length
  simp only [littleEndian32,readLittle,List.foldr_cons,List.foldr_nil,List.cons.injEq,and_true]
  refine ⟨?_,?_,?_,?_⟩ <;>
  · apply UInt8.toNat.inj
    rw [UInt8.toNat_ofNat']
    omega

-- Four bytes read as a number are the bytes of that number.
theorem readLittle_iff {n : Nat} (small : n < 2^32) (length : bytes.length = 4) :
    readLittle bytes = n ↔ bytes = littleEndian32 n := by
  constructor
  · rintro rfl
    exact (read_littleEndian32 length).symm
  · rintro rfl
    exact littleEndian32_read small

-- The same for a number of any width.
def littleEndian : Nat → Nat → List UInt8
  | 0,_ => []
  | size+1,n => .ofNat n :: littleEndian size (n / 2^8)

@[simp] theorem littleEndian_length (size n : Nat) : (littleEndian size n).length = size := by
  induction size generalizing n with
  | zero => rfl
  | succ size ih => rw [littleEndian,List.length_cons,ih]

theorem two_pow_byte (k : Nat) : 2^(8 * (k + 1)) = 2^8 * 2^(8 * k) := by
  rw [← Nat.pow_add,Nat.mul_succ,Nat.add_comm]

theorem littleEndian_read (size n : Nat) (small : n < 2^(8 * size)) :
    readLittle (littleEndian size n) = n := by
  induction size generalizing n with
  | zero =>
      have zero : n = 0 := by simpa using small
      rw [zero]
      rfl
  | succ size ih =>
      rw [two_pow_byte] at small
      have rest := ih (n / 2^8) (Nat.div_lt_of_lt_mul small)
      rw [littleEndian]
      unfold readLittle at rest ⊢
      rw [List.foldr_cons,rest,UInt8.toNat_ofNat']
      exact Nat.mod_add_div n (2^8)

-- The bytes behind the first ones are those of the higher part of the number.
theorem littleEndian_drop (size n k : Nat) :
    (littleEndian size n).drop k = littleEndian (size - k) (n / 2^(8 * k)) := by
  induction k generalizing size n with
  | zero => simp
  | succ k ih =>
      cases size with
      | zero => simp [littleEndian]
      | succ size =>
          rw [littleEndian,List.drop_succ_cons,ih,Nat.add_sub_add_right,Nat.div_div_eq_div_mul,two_pow_byte]

theorem readLittle_small (bytes : List UInt8) : readLittle bytes < 2^(8 * bytes.length) := by
  induction bytes with
  | nil => exact Nat.one_pos
  | cons b rest ih =>
      have byte : b.toNat < 2^8 := b.toNat_lt
      rw [List.length_cons,two_pow_byte]
      unfold readLittle at ih ⊢
      rw [List.foldr_cons]
      omega

theorem readLittle_append (front rest : List UInt8) :
    readLittle (front ++ rest) = readLittle front + 2^(8 * front.length) * readLittle rest := by
  induction front with
  | nil => simp [readLittle]
  | cons b front ih =>
      unfold readLittle at ih ⊢
      rw [List.cons_append,List.foldr_cons,List.foldr_cons,ih,List.length_cons,two_pow_byte,Nat.mul_add,
        Nat.mul_assoc,Nat.add_assoc]

end Bytes
