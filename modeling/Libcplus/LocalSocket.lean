import Mathlib.Data.Finset.Insert
import Mathlib.Data.Finset.Erase
import Libcplus.Names
import Libcplus.Typedef

-- The path of a local socket. socket.c prints it into the address for bind, and once
-- more into the object for unlink.
namespace Libcplus.LocalSocket
open Bytes Memory Names Typedef

def INVALID_SOCKET : Int := -1
def MAX_ADDRESS_SIZE : Nat := 64
def LOCAL_SOCKET_NAME_PATTERN : Names.Text :=
  ⟨text ['/','v','a','r','/','t','m','p','/','c','p','l','u','s','_','s','o','c','k','e','t','_'],text_plain _ (by decide)⟩

-- sun_path has 108 bytes and is printed with one less.
def SUN_PATH : Pattern := ⟨LOCAL_SOCKET_NAME_PATTERN,107⟩

inductive Syscall where
  | unlink (path : Names.Text)
  | bind (path : Names.Text)
  deriving DecidableEq

-- An object of the domain CPLUS_SOCKET_DOMAIN_LOCAL, and of the kernel the paths that
-- exist, the one its descriptor is bound to, and the calls that named one.
structure Local where
  socket : Int
  address_bufs : List UInt8
  files : Finset Names.Text
  bound : Option Names.Text
  calls : List Syscall
  deriving DecidableEq

def unlink (path : Names.Text) (s : Local) : Local := {s with files := s.files.erase path,calls := s.calls ++ [.unlink path]}

-- A descriptor is bound once, to a path where nothing stands. The kernel may refuse
-- for other reasons.
def bind (path : Names.Text) (permitted : Bool) (s : Local) : Int × Local :=
  if s.bound = none ∧ path ∉ s.files ∧ permitted then
    (CPLUS_SUCCESS,{s with bound := some path,files := insert path s.files,calls := s.calls ++ [.bind path]})
  else (CPLUS_FAIL,{s with calls := s.calls ++ [.bind path]})

def to_socket_addr (addr : Names.Text) : Option Names.Text := SUN_PATH.print addr

-- `none` is an access outside the buffer.
def cplus_socket_bind (s : Local) (addr : Names.Text) (permitted : Bool) : Option (Int × Local) :=
  if s.socket = INVALID_SOCKET then some (CPLUS_FAIL,s)
  else do
    let sun_path ← to_socket_addr addr
    let (_,printed) ← cplus_str_printf (some s.address_bufs) (MAX_ADDRESS_SIZE - 1) (LOCAL_SOCKET_NAME_PATTERN.1 ++ addr.1)
    let address_bufs ← printed
    let path ← read_text address_bufs
    return bind sun_path permitted (unlink path {s with address_bufs := address_bufs})

def cplus_socket_close (s : Local) (closed : Bool) : Local :=
  if s.socket = INVALID_SOCKET then s
  else if closed then {s with socket := INVALID_SOCKET} else s

-- The object itself is freed.
def cplus_socket_delete (s : Local) : Option Local := do
  let path ← read_text s.address_bufs
  return unlink path {s with socket := INVALID_SOCKET}

-- What the two calls should do: the path is the one bound, which is all that they
-- remove, and it is gone in the end.
structure Tidy (path : Names.Text) (before after : Local) : Prop where
  calls : after.calls = before.calls ++ [.unlink path,.bind path,.unlink path]
  kept : ∀ file ∈ before.files, file ≠ path → file ∈ after.files
  gone : path ∉ after.files

variable {s t u : Local} {name : Names.Text} {permitted : Bool}

-- How much of a name the path has that is unlinked.
def room : Nat := MAX_ADDRESS_SIZE - 2 - LOCAL_SOCKET_NAME_PATTERN.1.length

theorem name_plain (keep : Nat) (name : Names.Text) : ∀ c ∈ LOCAL_SOCKET_NAME_PATTERN.1 ++ name.1.take keep, c ≠ 0 := by
  intro c member
  rcases List.mem_append.mp member with head | tail
  · exact LOCAL_SOCKET_NAME_PATTERN.2 c head
  · exact name.2 c (List.mem_of_mem_take tail)

-- The path in front of a name, or of what is left of it.
def path_of (keep : Nat) (name : Names.Text) : Names.Text := ⟨LOCAL_SOCKET_NAME_PATTERN.1 ++ name.1.take keep,name_plain keep name⟩

theorem sun_path (name : Names.Text) : to_socket_addr name = some (path_of SUN_PATH.room name) := by
  have fits : SUN_PATH.head.1.length < SUN_PATH.max_size := by decide
  obtain ⟨path,printed,bytes⟩ := print_spec fits name
  exact printed.trans (congrArg some (Subtype.ext bytes))

theorem address_reads {block : List UInt8} {count : Nat} {printed : Option (List UInt8)}
    (prints : cplus_str_printf (some block) (MAX_ADDRESS_SIZE - 1) (LOCAL_SOCKET_NAME_PATTERN.1 ++ name.1) = some (count,printed)) :
    ∃ address_bufs, printed = some address_bufs ∧ read_text address_bufs = some (path_of room name) := by
  have cut : (LOCAL_SOCKET_NAME_PATTERN.1 ++ name.1).take (MAX_ADDRESS_SIZE - 1 - 1) = (path_of room name).1 := by
    rw [List.take_append,List.take_of_length_le (by decide)]
    rfl
  rw [cplus_str_printf,if_neg (by decide),cut] at prints
  obtain ⟨written,spliced,same⟩ := Option.map_eq_some_iff.mp prints
  cases same
  obtain ⟨_,rfl⟩ := splice_parts spliced
  exact ⟨_,rfl,read_text_of (path_of room name).2 _⟩

-- After a bind that was accepted.
structure Bound (name : Names.Text) (s t : Local) : Prop where
  address : read_text t.address_bufs = some (path_of room name)
  bound : t.bound = some (path_of SUN_PATH.room name)
  files : t.files = insert (path_of SUN_PATH.room name) (s.files.erase (path_of room name))
  calls : t.calls = s.calls ++ [.unlink (path_of room name),.bind (path_of SUN_PATH.room name)]

theorem bind_spec (accepted : cplus_socket_bind s name permitted = some (CPLUS_SUCCESS,t)) : Bound name s t := by
  unfold cplus_socket_bind at accepted
  split at accepted
  · cases accepted
  · rw [sun_path,Option.bind_eq_bind,Option.bind_some] at accepted
    obtain ⟨⟨count,printed⟩,prints,rest⟩ := Option.bind_eq_some_iff.mp accepted
    obtain ⟨address_bufs,rfl,reads⟩ := address_reads prints
    simp only [reads,Option.bind_eq_bind,Option.bind_some] at rest
    have binds := Option.some.inj rest
    unfold bind at binds
    split at binds
    · cases binds
      refine ⟨reads,rfl,rfl,?_⟩
      exact List.append_assoc _ _ _
    · cases binds

theorem bind_permits {path : Names.Text} (unbound : s.bound = none) (free : path ∉ s.files) :
    ∃ t, bind path true s = (CPLUS_SUCCESS,t) := ⟨_,if_pos ⟨unbound,free,rfl⟩⟩

theorem bind_accepts (name : Names.Text) (valid : s.socket ≠ INVALID_SOCKET) (whole : s.address_bufs.length = MAX_ADDRESS_SIZE)
    (unbound : s.bound = none) (free : path_of SUN_PATH.room name ∉ s.files) :
    ∃ t, cplus_socket_bind s name true = some (CPLUS_SUCCESS,t) := by
  have plain : ∀ c ∈ LOCAL_SOCKET_NAME_PATTERN.1 ++ name.1, c ≠ 0 := by
    have taken := name_plain name.1.length name
    rw [List.take_length] at taken
    exact taken
  have fits : MAX_ADDRESS_SIZE - 1 ≤ s.address_bufs.length := by
    rw [whole]
    exact Nat.sub_le _ _
  obtain ⟨printed,prints,_⟩ := str_printf_truncates plain (by decide) fits
  obtain ⟨address_bufs,same,reads⟩ := address_reads prints
  cases same
  obtain ⟨t,permits⟩ : ∃ t, bind (path_of SUN_PATH.room name) true
      (unlink (path_of room name) {s with address_bufs := printed}) = (CPLUS_SUCCESS,t) :=
    bind_permits unbound fun there => free (Finset.mem_of_mem_erase there)
  refine ⟨t,?_⟩
  rw [cplus_socket_bind,if_neg valid,sun_path,prints]
  simp only [Option.bind_eq_bind,Option.bind_some,reads]
  exact congrArg some permits

theorem close_keeps (bound : Bound name s t) (closed : Bool) : Bound name s (cplus_socket_close t closed) := by
  unfold cplus_socket_close
  split
  · exact bound
  · split
    · exact ⟨bound.address,bound.bound,bound.files,bound.calls⟩
    · exact bound

theorem closes_keep (bound : Bound name s t) (closes : List Bool) : Bound name s (closes.foldl cplus_socket_close t) := by
  induction closes generalizing t with
  | nil => exact bound
  | cons closed closes ih => exact ih (close_keeps bound closed)

theorem delete_spec (bound : Bound name s t) : cplus_socket_delete t =
    some (unlink (path_of room name) {t with socket := INVALID_SOCKET}) := by
  rw [cplus_socket_delete,bound.address]
  rfl

-- The two paths are one if the shorter has room for the name.
theorem paths_agree : path_of room name = path_of SUN_PATH.room name ↔ name.1.length ≤ 40 := by
  constructor
  · intro same
    have lengths := congrArg List.length (List.append_cancel_left (congrArg Subtype.val same))
    have short : room = 40 := by decide
    have long : SUN_PATH.room = 84 := by decide
    rw [short,long,List.length_take,List.length_take] at lengths
    omega
  · intro fits
    apply Subtype.ext
    have short : room = 40 := by decide
    have long : SUN_PATH.room = 84 := by decide
    simp only [path_of,short,long]
    rw [List.take_of_length_le fits,List.take_of_length_le (by omega)]

-- A socket that was bound, closed or not, and deleted.
theorem local_path_exact (s t : Local) (name : Names.Text) (permitted : Bool) (closes : List Bool)
    (accepted : cplus_socket_bind s name permitted = some (CPLUS_SUCCESS,t)) :
    ∃ path u, t.bound = some path ∧ cplus_socket_delete (closes.foldl cplus_socket_close t) = some u ∧
      (Tidy path s u ↔ name.1.length ≤ 40) := by
  have bound := closes_keep (bind_spec accepted) closes
  refine ⟨path_of SUN_PATH.room name,_,(bind_spec accepted).bound,delete_spec bound,?_⟩
  rw [← paths_agree]
  constructor
  · intro tidy
    have calls := tidy.calls
    simp only [unlink,bound.calls,List.append_assoc,List.append_cancel_left_eq] at calls
    exact Syscall.unlink.inj (List.cons.inj calls).1
  · intro same
    refine ⟨?_,?_,?_⟩
    · simp only [unlink,bound.calls,List.append_assoc,same]
      rfl
    · intro file there apart
      simp only [unlink,bound.files,same]
      exact Finset.mem_erase.mpr ⟨apart,Finset.mem_insert_of_mem (Finset.mem_erase.mpr ⟨apart,there⟩)⟩
    · simp only [unlink,same]
      exact Finset.notMem_erase _ _

-- With a longer name the file stays where it was bound.
theorem long_left (accepted : cplus_socket_bind s name permitted = some (CPLUS_SUCCESS,t)) (long : 40 < name.1.length)
    (closes : List Bool) : ∃ path u, t.bound = some path ∧ cplus_socket_delete (closes.foldl cplus_socket_close t) = some u ∧
      path ∈ u.files := by
  have bound := closes_keep (bind_spec accepted) closes
  refine ⟨path_of SUN_PATH.room name,_,(bind_spec accepted).bound,delete_spec bound,?_⟩
  have apart : path_of SUN_PATH.room name ≠ path_of room name := fun same => Nat.not_le_of_lt long (paths_agree.mp same.symm)
  simp only [unlink,bound.files]
  exact Finset.mem_erase.mpr ⟨apart,Finset.mem_insert_self _ _⟩

-- A new socket, of a process that has no other one.
def fresh : Local := ⟨3,List.replicate MAX_ADDRESS_SIZE 0,∅,none,[]⟩

def ipc_name : Names.Text := ⟨text ['i','p','c'],text_plain _ (by decide)⟩

theorem short_path_tidy : ∃ t path u, cplus_socket_bind fresh ipc_name true = some (CPLUS_SUCCESS,t) ∧
    cplus_socket_delete (cplus_socket_close t true) = some u ∧ Tidy path fresh u := by
  obtain ⟨t,accepted⟩ := bind_accepts (s := fresh) ipc_name (by decide) (by decide) rfl (Finset.notMem_empty _)
  obtain ⟨path,u,_,deleted,tidy⟩ := local_path_exact fresh t ipc_name true [true] accepted
  exact ⟨t,path,u,accepted,deleted,tidy.mpr (by decide)⟩

def long_name : Names.Text := ⟨text (List.replicate 41 'a'),text_plain _ (by decide)⟩

theorem long_path_stale : ¬ ∀ (s t : Local) (name : Names.Text) (permitted : Bool) (closes : List Bool),
    cplus_socket_bind s name permitted = some (CPLUS_SUCCESS,t) → ∃ path u, t.bound = some path ∧
      cplus_socket_delete (closes.foldl cplus_socket_close t) = some u ∧ Tidy path s u := by
  intro claim
  obtain ⟨t,accepted⟩ := bind_accepts (s := fresh) long_name (by decide) (by decide) rfl (Finset.notMem_empty _)
  obtain ⟨path,u,bound,deleted,tidy⟩ := claim fresh t long_name true [] accepted
  obtain ⟨_,_,same,again,left⟩ := long_left accepted (by decide) []
  cases bound.symm.trans same
  cases deleted.symm.trans again
  exact tidy.gone left

end Libcplus.LocalSocket
