import Mathlib.Data.List.Basic

-- Symbols that are read and written at a position. What is skipped over is filled up.
namespace RandomAccess
variable {α : Type} [Inhabited α] {contents data first second : List α} {pos count more i : Nat}

def fetch (contents : List α) (pos count : Nat) : List α := (contents.drop pos).take count

def overwrite (contents : List α) (pos : Nat) (data : List α) : List α :=
  if data = [] then contents
  else contents.take pos ++ List.replicate (pos - contents.length) default ++ data ++ contents.drop (pos + data.length)

def resize (contents : List α) (size : Nat) : List α :=
  contents.take size ++ List.replicate (size - contents.length) default

omit [Inhabited α] in
theorem fetch_length (contents : List α) (pos count : Nat) : (fetch contents pos count).length = min count (contents.length - pos) := by
  rw [fetch,List.length_take,List.length_drop]

omit [Inhabited α] in
theorem fetch_zero (contents : List α) (pos : Nat) : fetch contents pos 0 = [] := List.take_zero

omit [Inhabited α] in
theorem fetch_all (enough : contents.length ≤ count) : fetch contents 0 count = contents := by
  rw [fetch,List.drop_zero,List.take_of_length_le enough]

-- Two reads one after the other are one.
omit [Inhabited α] in
theorem fetch_fetch (contents : List α) (pos count more : Nat) :
    fetch contents pos count ++ fetch contents (pos + (fetch contents pos count).length) more = fetch contents pos (count + more) := by
  rw [fetch_length]
  unfold fetch
  by_cases ended : contents.length - pos ≤ count
  · have remaining : (contents.drop pos).length = contents.length - pos := List.length_drop
    have nothing : contents.drop (pos + (contents.length - pos)) = [] := List.drop_of_length_le (by omega)
    rw [Nat.min_eq_right ended,nothing,List.take_nil,List.append_nil,List.take_of_length_le (by omega),
      List.take_of_length_le (by omega)]
  · rw [Nat.min_eq_left (by omega),← List.drop_drop,List.take_add]

@[simp] theorem overwrite_nil (contents : List α) (pos : Nat) : overwrite contents pos [] = contents := if_pos rfl

theorem overwrite_length (something : data ≠ []) : (overwrite contents pos data).length = max contents.length (pos + data.length) := by
  rw [overwrite,if_neg something]
  simp only [List.length_append,List.length_take,List.length_replicate,List.length_drop]
  omega

theorem overwrite_get (something : data ≠ []) (i : Nat) : (overwrite contents pos data)[i]? =
    if i < pos then (if i < contents.length then contents[i]? else some default)
    else if i < pos + data.length then data[i - pos]? else contents[i]? := by
  rw [overwrite,if_neg something]
  have filled : (contents.take pos ++ List.replicate (pos - contents.length) default).length = pos := by
    rw [List.length_append,List.length_take,List.length_replicate]
    omega
  by_cases before : i < pos
  · rw [if_pos before,List.append_assoc,List.getElem?_append_left (by omega)]
    by_cases there : i < contents.length
    · rw [if_pos there,List.getElem?_append_left (by rw [List.length_take]; omega),List.getElem?_take_of_lt before]
    · rw [if_neg there,List.getElem?_append_right (by rw [List.length_take]; omega),List.getElem?_replicate,if_pos]
      rw [List.length_take]
      omega
  · rw [if_neg before]
    by_cases within : i < pos + data.length
    · rw [if_pos within,List.getElem?_append_left (by rw [List.length_append]; omega),List.getElem?_append_right (by omega),filled]
    · rw [if_neg within,List.getElem?_append_right (by rw [List.length_append]; omega),List.getElem?_drop]
      congr 1
      rw [List.length_append]
      omega

-- Two writes one after the other are one.
theorem overwrite_overwrite (contents : List α) (pos : Nat) (first second : List α) :
    overwrite (overwrite contents pos first) (pos + first.length) second = overwrite contents pos (first ++ second) := by
  by_cases nothing : first = []
  · simp [nothing]
  by_cases none : second = []
  · simp [none]
  have both : first ++ second ≠ [] := by simp [nothing]
  apply List.ext_getElem?
  intro i
  rw [overwrite_get none,overwrite_get nothing,overwrite_get both,overwrite_length nothing,List.length_append]
  have positive := List.length_pos_of_ne_nil nothing
  by_cases early : i < pos + first.length
  · rw [if_pos early,if_pos (by omega : i < max contents.length (pos + first.length)),
      if_pos (by omega : i < pos + (first.length + second.length))]
    by_cases before : i < pos
    · rw [if_pos before,if_pos before]
    · rw [if_neg before,if_neg before,if_pos early,List.getElem?_append_left (by omega)]
  · have after : ¬ i < pos := by omega
    rw [if_neg early,if_neg after,if_neg after,if_neg early]
    by_cases within : i < pos + first.length + second.length
    · rw [if_pos within,if_pos (by omega),List.getElem?_append_right (by omega)]
      congr 1
      omega
    · rw [if_neg within,if_neg (by omega)]

theorem overwrite_end (contents data : List α) : overwrite contents contents.length data = contents ++ data := by
  unfold overwrite
  split
  · rename_i nothing
    rw [nothing,List.append_nil]
  · rw [List.take_length,Nat.sub_self,List.replicate_zero,List.append_nil,List.drop_of_length_le (by omega),List.append_nil]

-- What was written is read back.
theorem fetch_overwrite (contents : List α) (pos : Nat) (data : List α) :
    fetch (overwrite contents pos data) pos data.length = data := by
  by_cases nothing : data = []
  · rw [nothing]
    exact fetch_zero _ _
  apply List.ext_getElem?
  intro i
  unfold fetch
  by_cases within : i < data.length
  · rw [List.getElem?_take_of_lt within,List.getElem?_drop,overwrite_get nothing,if_neg (by omega),if_pos (by omega)]
    congr 1
    omega
  · rw [List.getElem?_eq_none (by omega : data.length ≤ i),List.getElem?_eq_none]
    rw [List.length_take]
    omega

end RandomAccess
