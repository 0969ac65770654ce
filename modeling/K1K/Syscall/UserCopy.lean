import K1K.Lib.Memory
import K1K.Mm.AddressSpace

/-!
# Copies between the kernel and a task

`user_range_ok`, `translate_user`, `copy_from_user` and `copy_to_user` of
`kernel/src/syscall/mod.rs`, through the kernel's mapping of physical memory. `touched` lists
the user addresses that a copy wrote through. A copy goes in chunks that end at page boundaries;
proofs use the form byte by byte.
-/

namespace K1K.Syscall

open K1K.Lib K1K.Mm

def USER_TOP : Nat := 0x800000000000

def MAX_LOG : Nat := 4096

inductive Errno where
  | EPERM
  | EAGAIN
  | EFAULT
  | EINVAL
  | ENOSYS
  | ENOMEM
  deriving DecidableEq, Repr

def userRangeOk (ptr len : Nat) : Bool :=
  decide (len ≤ MAX_LOG) && decide (ptr + len < 2 ^ 64) && decide (ptr + len ≤ USER_TOP)

def leafAt (s : AddressSpace) (va : Nat) : Option Leaf := translate s.pml4 (va / FRAME_SIZE)

def translateUser (s : AddressSpace) (va : Nat) : Option Nat :=
  (leafAt s va).map fun leaf => leaf.frame * FRAME_SIZE + va % FRAME_SIZE

def chunkSize (va left : Nat) : Nat := min (FRAME_SIZE - va % FRAME_SIZE) left

def copyInLoop (s : AddressSpace) (mem : Memory) :
    Nat → Nat → Nat → List Byte → Except Errno (List Byte)
  | 0, _, _, out => .ok out
  | fuel + 1, va, left, out =>
    if left = 0 then .ok out
    else
      match translateUser s va with
      | none => .error .EFAULT
      | some pa =>
        let chunk := chunkSize va left
        copyInLoop s mem fuel (va + chunk) (left - chunk) (out ++ mem.read pa chunk)

def copyFromUser (s : AddressSpace) (mem : Memory) (ptr len : Nat) : Except Errno (List Byte) :=
  if userRangeOk ptr len then copyInLoop s mem len ptr len [] else .error .EFAULT

structure Written where
  mem : Memory
  touched : List Nat

def copyOutLoop (s : AddressSpace) :
    Nat → Nat → List Byte → Written → Except Errno Unit × Written
  | 0, _, _, w => (.ok (), w)
  | fuel + 1, va, data, w =>
    if data.length = 0 then (.ok (), w)
    else
      match translateUser s va with
      | none => (.error .EFAULT, w)
      | some pa =>
        let chunk := chunkSize va data.length
        copyOutLoop s fuel (va + chunk) (data.drop chunk)
          ⟨w.mem.write pa (data.take chunk), w.touched ++ List.range' va chunk⟩

def copyToUser (s : AddressSpace) (mem : Memory) (ptr : Nat) (data : List Byte) :
    Except Errno Unit × Written :=
  if userRangeOk ptr data.length then copyOutLoop s data.length ptr data ⟨mem, []⟩
  else (.error .EFAULT, ⟨mem, []⟩)

/-! ## The copy byte by byte -/

def copyBytes (s : AddressSpace) : Nat → List Byte → Written → Except Errno Unit × Written
  | _, [], w => (.ok (), w)
  | va, byte :: rest, w =>
    match translateUser s va with
    | none => (.error .EFAULT, w)
    | some pa =>
      copyBytes s (va + 1) rest ⟨Function.update w.mem pa byte, w.touched ++ [va]⟩

section Chunks

variable {s : AddressSpace} {va pa k : Nat}

theorem leafAt_add (within : va % FRAME_SIZE + k < FRAME_SIZE) :
    leafAt s (va + k) = leafAt s va := by
  have page : (va + k) / FRAME_SIZE = va / FRAME_SIZE := by
    simp only [FRAME_SIZE] at *
    omega
  rw [leafAt, page, leafAt]

theorem translateUser_add (within : va % FRAME_SIZE + k < FRAME_SIZE) :
    translateUser s (va + k) = (translateUser s va).map (· + k) := by
  have offset : (va + k) % FRAME_SIZE = va % FRAME_SIZE + k := by
    simp only [FRAME_SIZE] at *
    omega
  rw [translateUser, leafAt_add within, offset, translateUser, Option.map_map]
  simp only [Function.comp_def, Nat.add_assoc]

theorem copyBytes_append (front back : List Byte) (w : Written) : copyBytes s va (front ++ back) w =
      match copyBytes s va front w with
      | (.ok (), w') => copyBytes s (va + front.length) back w'
      | (.error e, w') => (.error e, w') := by
  induction front generalizing va w with
  | nil => rfl
  | cons byte rest ih =>
    simp only [List.cons_append, copyBytes]
    cases translateUser s va with
    | none => rfl
    | some pa =>
      simp only [ih, List.length_cons]
      rw [Nat.add_right_comm, Nat.add_assoc]

theorem copyBytes_piece {data : List Byte} (mapped : translateUser s va = some pa)
    (within : va % FRAME_SIZE + data.length ≤ FRAME_SIZE) (w : Written) : copyBytes s va data w =
      (.ok (), ⟨w.mem.write pa data, w.touched ++ List.range' va data.length⟩) := by
  induction data generalizing va pa w with
  | nil => simp [copyBytes]
  | cons byte rest ih =>
    rw [List.length_cons] at within
    cases rest with
    | nil => simp [copyBytes, mapped, Memory.write]
    | cons next rest =>
      rw [List.length_cons] at within
      have step : va % FRAME_SIZE + 1 < FRAME_SIZE := by omega
      have later : translateUser s (va + 1) = some (pa + 1) := by
        rw [translateUser_add step, mapped, Option.map_some]
      have fits : (va + 1) % FRAME_SIZE + (next :: rest).length ≤ FRAME_SIZE := by
        rw [List.length_cons]
        simp only [FRAME_SIZE] at *
        omega
      rw [copyBytes, mapped]
      simp only
      rw [ih later fits]
      simp [Memory.write, List.range'_succ]

theorem copyOutLoop_eq {fuel : Nat} {data : List Byte} (enough : data.length ≤ fuel)
    (w : Written) : copyOutLoop s fuel va data w = copyBytes s va data w := by
  fun_induction copyOutLoop s fuel va data w with
  | case1 va data =>
    rw [List.length_eq_zero_iff.mp (Nat.le_zero.mp enough)]
    rfl
  | case2 _ _ data _ empty =>
    rw [List.length_eq_zero_iff.mp empty]
    rfl
  | case3 _ va data _ some mapped =>
    obtain ⟨byte, rest, rfl⟩ := List.exists_cons_of_length_pos (Nat.pos_of_ne_zero some)
    rw [copyBytes, mapped]
  | case4 fuel va data w some pa mapped chunk ih =>
    have inPage : va % FRAME_SIZE < FRAME_SIZE := Nat.mod_lt _ (by decide)
    have bounds : 0 < chunk ∧ chunk ≤ data.length ∧ va % FRAME_SIZE + chunk ≤ FRAME_SIZE := by
      simp only [chunk, chunkSize]
      omega
    have ran : (data.take chunk).length = chunk := by
      rw [List.length_take, Nat.min_eq_left bounds.2.1]
    have left : (data.drop chunk).length ≤ fuel := by
      rw [List.length_drop]
      omega
    conv_rhs => rw [← List.take_append_drop chunk data, copyBytes_append,
      copyBytes_piece mapped (by rw [ran]; exact bounds.2.2)]
    simp only [ran]
    exact ih left

theorem copyToUser_eq (mem : Memory) (ptr : Nat) (data : List Byte) : copyToUser s mem ptr data =
      if userRangeOk ptr data.length then copyBytes s ptr data ⟨mem, []⟩
      else (.error .EFAULT, ⟨mem, []⟩) := by
  rw [copyToUser, copyOutLoop_eq (Nat.le_refl _)]

end Chunks

/-! ## Where a copy writes -/

def writableAt (s : AddressSpace) (va : Nat) : Bool := (leafAt s va).any (·.flags.writable)

/-- The `i`-th byte of a buffer and all bytes before it are mapped, so that a
copy gets that far. -/
def Reaches (s : AddressSpace) (ptr i : Nat) : Prop := ∀ j, j ≤ i → (leafAt s (ptr + j)).isSome

instance (s : AddressSpace) (ptr i : Nat) : Decidable (Reaches s ptr i) :=
  inferInstanceAs (Decidable (∀ j, j ≤ i → _))

/-- Every byte of the buffer that a copy gets to could be written by the task. -/
def BufferWritable (s : AddressSpace) (ptr len : Nat) : Prop :=
  ∀ i, i < len → Reaches s ptr i → writableAt s (ptr + i) = true

instance (s : AddressSpace) (ptr len : Nat) : Decidable (BufferWritable s ptr len) :=
  inferInstanceAs (Decidable (∀ i, i < len → _))

variable {s : AddressSpace}

theorem translateUser_isSome (va : Nat) : (translateUser s va).isSome = (leafAt s va).isSome := by
  rw [translateUser, Option.isSome_map]

theorem reaches_succ (ptr i : Nat) :
    Reaches s ptr (i + 1) ↔ (leafAt s ptr).isSome ∧ Reaches s (ptr + 1) i := by
  constructor
  · intro reached
    refine ⟨reached 0 (Nat.zero_le _), fun j small => ?_⟩
    rw [Nat.add_assoc, Nat.add_comm 1 j]
    exact reached (j + 1) (Nat.succ_le_succ small)
  · rintro ⟨first, later⟩ j small
    cases j with
    | zero => exact first
    | succ j =>
      rw [Nat.add_comm j 1, ← Nat.add_assoc]
      exact later j (Nat.le_of_succ_le_succ small)

theorem mem_touched_copyBytes {at' : Nat} (va : Nat) (data : List Byte) (w : Written) :
    at' ∈ (copyBytes s va data w).2.touched ↔
      at' ∈ w.touched ∨ ∃ i, i < data.length ∧ Reaches s va i ∧ at' = va + i := by
  have mapped (va : Nat) := translateUser_isSome (s := s) va
  fun_induction copyBytes s va data w with
  | case1 => simp
  | case2 va byte rest w found =>
    have missing : ∀ i, ¬Reaches s va i := fun i reached => by
      have first := reached 0 (Nat.zero_le i)
      rw [Nat.add_zero, ← mapped, found] at first
      simp at first
    simp [missing]
  | case3 va byte rest w pa found ih =>
    have here : (leafAt s va).isSome := by rw [← mapped, found]; rfl
    simp only [ih, List.mem_append, List.mem_singleton, or_assoc]
    refine or_congr_right ⟨?_, ?_⟩
    · rintro (rfl | ⟨i, small, reached, rfl⟩)
      · refine ⟨0, by simp, fun j none => ?_, rfl⟩
        rwa [Nat.le_zero.mp none, Nat.add_zero]
      · refine ⟨i + 1, by simpa using small, (reaches_succ va i).mpr ⟨here, reached⟩, ?_⟩
        omega
    · rintro ⟨i, small, reached, rfl⟩
      cases i with
      | zero => exact .inl rfl
      | succ i =>
        refine .inr ⟨i, by simpa using small, ((reaches_succ va i).mp reached).2, ?_⟩
        omega

theorem copyBytes_mem {a : Nat} (va : Nat) (data : List Byte) (w : Written)
    (untouched : ∀ at', at' ∈ (copyBytes s va data w).2.touched → translateUser s at' ≠ some a) :
    (copyBytes s va data w).2.mem a = w.mem a := by
  fun_induction copyBytes s va data w with
  | case1 | case2 => rfl
  | case3 va byte rest w pa found ih =>
    have here : translateUser s va ≠ some a :=
      untouched va ((mem_touched_copyBytes _ _ _).mpr (.inl (by simp)))
    rw [found] at here
    rw [ih untouched]
    exact Function.update_of_ne (fun eq => here (by rw [eq])) _ _

theorem mem_touched_copyToUser {at' : Nat} (mem : Memory) (ptr : Nat) (data : List Byte) :
    at' ∈ (copyToUser s mem ptr data).2.touched ↔ userRangeOk ptr data.length = true ∧
      ∃ i, i < data.length ∧ Reaches s ptr i ∧ at' = ptr + i := by
  rw [copyToUser_eq]
  split
  next ok => rw [mem_touched_copyBytes]; simp [ok]
  next bad => simp [bad]

theorem copyToUser_mem {a : Nat} (mem : Memory) (ptr : Nat) (data : List Byte)
    (untouched : ∀ at', at' ∈ (copyToUser s mem ptr data).2.touched →
      translateUser s at' ≠ some a) : (copyToUser s mem ptr data).2.mem a = mem a := by
  rw [copyToUser_eq] at untouched ⊢
  by_cases ok : userRangeOk ptr data.length = true
  · simp only [ok, if_true] at untouched ⊢
    exact copyBytes_mem ptr data _ untouched
  · rw [if_neg ok]

theorem copyToUser_writes_writable_iff (mem : Memory) (ptr : Nat) (data : List Byte) :
    (∀ at', at' ∈ (copyToUser s mem ptr data).2.touched → writableAt s at' = true) ↔
      (userRangeOk ptr data.length = true → BufferWritable s ptr data.length) := by
  simp only [mem_touched_copyToUser]
  constructor
  · intro writable ok i small reached
    exact writable _ ⟨ok, i, small, reached, rfl⟩
  · rintro writable _ ⟨ok, i, small, reached, rfl⟩
    exact writable ok i small reached

end K1K.Syscall
