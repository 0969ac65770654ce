import K1K.Syscall.UserCopy

/-!
# What the copies do

A copy fails exactly when the buffer is too long, leaves the user half or has an unmapped byte.
A buffer has at most a page of bytes, so even a frame mapped twice receives no byte over another.
-/

namespace K1K.Syscall

open K1K.Lib K1K.Mm

def taskReads (s : AddressSpace) (mem : Memory) (va : Nat) : Option Byte :=
  (translateUser s va).map mem

variable {s : AddressSpace} {mem : Memory}

/-! ## Reading -/

theorem taskReads_piece {va pa chunk : Nat} (mapped : translateUser s va = some pa)
    (within : va % FRAME_SIZE + chunk ≤ FRAME_SIZE) :
    (List.range' va chunk).mapM (taskReads s mem) = some (mem.read pa chunk) := by
  induction chunk generalizing va pa with
  | zero => rfl
  | succ chunk ih =>
    have here : taskReads s mem va = some (mem pa) := by rw [taskReads, mapped, Option.map_some]
    have split : mem.read pa (chunk + 1) = mem pa :: mem.read (pa + 1) chunk := by
      simp [Memory.read, List.range_succ_eq_map, Function.comp_def, Nat.add_comm, Nat.add_left_comm]
    rw [List.range'_succ, List.mapM_cons, here, split]
    cases chunk with
    | zero => rfl
    | succ chunk =>
      have later : translateUser s (va + 1) = some (pa + 1) := by
        rw [translateUser_add (by omega), mapped, Option.map_some]
      have fits : (va + 1) % FRAME_SIZE + (chunk + 1) ≤ FRAME_SIZE := by
        simp only [FRAME_SIZE] at *
        omega
      rw [ih later fits]
      rfl

theorem copyInLoop_eq {fuel va left : Nat} (enough : left ≤ fuel) (out : List Byte) :
    copyInLoop s mem fuel va left out =
      match (List.range' va left).mapM (taskReads s mem) with
      | some bytes => .ok (out ++ bytes)
      | none => .error .EFAULT := by
  fun_induction copyInLoop s mem fuel va left out with
  | case1 va left =>
    rw [Nat.le_zero.mp enough]
    simp
  | case2 => simp
  | case3 fuel va left out some mapped =>
    obtain ⟨rest, rfl⟩ := Nat.exists_eq_succ_of_ne_zero some
    have here : taskReads s mem va = none := by rw [taskReads, mapped, Option.map_none]
    rw [List.range'_succ, List.mapM_cons, here]
    rfl
  | case4 fuel va left out some pa mapped chunk ih =>
    have inPage : va % FRAME_SIZE < FRAME_SIZE := Nat.mod_lt _ (by decide)
    have bounds : 0 < chunk ∧ chunk ≤ left ∧ va % FRAME_SIZE + chunk ≤ FRAME_SIZE := by
      simp only [chunk, chunkSize]
      omega
    have parts : List.range' va left =
        List.range' va chunk ++ List.range' (va + chunk) (left - chunk) := by
      rw [List.range'_append_1, Nat.add_sub_cancel' bounds.2.1]
    rw [ih (by omega), parts, List.mapM_append, taskReads_piece mapped bounds.2.2]
    cases (List.range' (va + chunk) (left - chunk)).mapM (taskReads s mem) with
    | none => rfl
    | some bytes => simp

/-! ## Writing -/

theorem translateUser_apart {ptr i j pa : Nat} (small : i < MAX_LOG) (small' : j < MAX_LOG)
    (differ : i ≠ j) (first : translateUser s (ptr + i) = some pa) :
    translateUser s (ptr + j) ≠ some pa := by
  intro second
  obtain ⟨leaf, -, here⟩ := Option.map_eq_some_iff.mp first
  obtain ⟨leaf', -, there⟩ := Option.map_eq_some_iff.mp second
  simp only [FRAME_SIZE, MAX_LOG] at *
  omega

theorem copyBytes_outside {a : Nat} (va : Nat) (data : List Byte) (w : Written)
    (ne : ∀ i < data.length, translateUser s (va + i) ≠ some a) :
    (copyBytes s va data w).2.mem a = w.mem a := by
  fun_induction copyBytes s va data w with
  | case1 | case2 => rfl
  | case3 va byte rest w pa mapped ih =>
    have here := ne 0 (Nat.succ_pos _)
    rw [Nat.add_zero, mapped] at here
    rw [ih fun i small => ?_]
    · exact Function.update_of_ne (fun eq => here (by rw [eq])) _ _
    · rw [Nat.add_assoc, Nat.add_comm 1]
      exact ne (i + 1) (Nat.succ_lt_succ small)

def Spread (s : AddressSpace) (va len : Nat) : Prop :=
  ∀ i j pa, i < len → j < len → i ≠ j → translateUser s (va + i) = some pa →
    translateUser s (va + j) ≠ some pa

theorem spread_of_short {va len : Nat} (short : len ≤ MAX_LOG) : Spread s va len :=
  fun _ _ _ small small' differ =>
    translateUser_apart (Nat.lt_of_lt_of_le small short) (Nat.lt_of_lt_of_le small' short) differ

theorem Spread.tail {va len : Nat} (spread : Spread s va (len + 1)) : Spread s (va + 1) len := by
  intro i j pa small small' differ first
  rw [Nat.add_assoc, Nat.add_comm 1] at first ⊢
  exact spread (i + 1) (j + 1) pa (by omega) (by omega) (by omega) first

theorem copyBytes_at {va : Nat} {data : List Byte} {w w' : Written}
    (copied : copyBytes s va data w = (.ok (), w')) (spread : Spread s va data.length) {i : Nat}
    {byte : Byte} (found : data[i]? = some byte) :
    ∃ pa, translateUser s (va + i) = some pa ∧ w'.mem pa = byte := by
  fun_induction copyBytes s va data w generalizing i with
  | case1 => simp at found
  | case2 => cases copied
  | case3 va first rest w pa mapped ih =>
    cases i with
    | zero =>
      cases found
      refine ⟨pa, mapped, ?_⟩
      have later := copyBytes_outside (s := s) (a := pa) (va + 1) rest
        ⟨Function.update w.mem pa byte, w.touched ++ [va]⟩ fun j small => by
          have ne := spread 0 (j + 1) pa (by simp) (by simpa using small) (by omega) mapped
          rwa [Nat.add_comm j, ← Nat.add_assoc] at ne
      rw [copied] at later
      exact later.trans (Function.update_self ..)
    | succ i =>
      have rest := ih copied spread.tail (by simpa using found)
      rwa [Nat.add_assoc, Nat.add_comm 1] at rest

theorem copyBytes_ok_iff (va : Nat) (data : List Byte) (w : Written) :
    (copyBytes s va data w).1 = .ok () ↔ ∀ i < data.length, (leafAt s (va + i)).isSome := by
  have eq (va : Nat) := translateUser_isSome (s := s) va
  fun_induction copyBytes s va data w with
  | case1 => simp
  | case2 va byte rest w missing =>
    have here := eq va
    rw [missing] at here
    refine iff_of_false (by simp) fun all => ?_
    simpa [← here] using all 0 (Nat.succ_pos _)
  | case3 va byte rest w pa mapped ih =>
    have here := eq va
    rw [mapped] at here
    refine Iff.trans ih ?_
    rw [List.length_cons, Nat.forall_lt_succ_left]
    simp [← here, Nat.add_assoc, Nat.add_comm 1]

/-! ## The two calls -/

structure Readable (s : AddressSpace) (ptr len : Nat) : Prop where
  short : len ≤ 4096
  inside : ptr + len ≤ USER_TOP
  mapped : ∀ i < len, (translate s.pml4 ((ptr + i) / FRAME_SIZE)).isSome

theorem userRangeOk_iff {ptr len : Nat} :
    userRangeOk ptr len = true ↔ len ≤ 4096 ∧ ptr + len ≤ USER_TOP := by
  simp only [userRangeOk, Bool.and_eq_true, decide_eq_true_eq]
  constructor
  · rintro ⟨⟨short, -⟩, lt⟩
    exact ⟨short, lt⟩
  · rintro ⟨short, lt⟩
    exact ⟨⟨short, Nat.lt_of_le_of_lt lt (by decide)⟩, lt⟩

theorem mapM_eq_some_iff {α β : Type} {f : α → Option β} {xs : List α} {ys : List β} :
    xs.mapM f = some ys ↔ ys.map some = xs.map f := by
  induction xs generalizing ys with
  | nil =>
    rw [List.mapM_nil, List.map_nil, List.map_eq_nil_iff, Option.pure_def, Option.some_inj, eq_comm]
  | cons x rest ih =>
    simp only [List.mapM_cons, Option.bind_eq_bind, Option.bind_eq_some_iff, Option.pure_def,
      Option.some_inj, ih, List.map_cons]
    constructor
    · rintro ⟨y, first, zs, later, rfl⟩
      rw [List.map_cons, first, later]
    intro eq
    cases ys with
    | nil => cases eq
    | cons y zs =>
      obtain ⟨first, later⟩ := List.cons.inj eq
      exact ⟨y, first.symm, zs, later, rfl⟩

theorem mapM_isSome_iff {α β : Type} {f : α → Option β} {xs : List α} :
    (xs.mapM f).isSome ↔ ∀ x ∈ xs, (f x).isSome := by
  induction xs with
  | nil => simp
  | cons x rest ih =>
    rw [List.forall_mem_cons, ← ih, List.mapM_cons]
    cases f x with
    | none => simp
    | some y => cases rest.mapM f <;> simp

theorem copyFromUser_eq {ptr len : Nat} {out : List Byte}
    (copied : copyFromUser s mem ptr len = .ok out) :
    userRangeOk ptr len = true ∧ out.map some = (List.range' ptr len).map (taskReads s mem) := by
  unfold copyFromUser at copied
  split at copied
  next ok =>
    rw [copyInLoop_eq le_rfl] at copied
    split at copied
    next bytes read =>
      cases copied
      exact ⟨ok, mapM_eq_some_iff.mp read⟩
    next => cases copied
  next => cases copied

theorem copyFromUser_ok_iff {ptr len : Nat} : (∃ out, copyFromUser s mem ptr len = .ok out) ↔
      (len ≤ 4096 ∧ ptr + len ≤ USER_TOP) ∧ ∀ i < len, (leafAt s (ptr + i)).isSome := by
  have bytes : ((List.range' ptr len).mapM (taskReads s mem)).isSome ↔
      ∀ i < len, (leafAt s (ptr + i)).isSome := by
    rw [mapM_isSome_iff]
    simp only [List.mem_range'_1, taskReads, Option.isSome_map, translateUser_isSome]
    constructor
    · exact fun all i small => all (ptr + i) ⟨Nat.le_add_right _ _, Nat.add_lt_add_left small _⟩
    · rintro all a ⟨above, below⟩
      obtain ⟨i, rfl⟩ := Nat.exists_eq_add_of_le above
      exact all i (Nat.lt_of_add_lt_add_left below)
  rw [← userRangeOk_iff, ← bytes]
  constructor
  · rintro ⟨out, copied⟩
    obtain ⟨ok, read⟩ := copyFromUser_eq copied
    exact ⟨ok, by rw [mapM_eq_some_iff.mpr read]; rfl⟩
  · rintro ⟨ok, read⟩
    obtain ⟨out, read⟩ := Option.isSome_iff_exists.mp read
    exact ⟨[] ++ out, by rw [copyFromUser, if_pos ok, copyInLoop_eq le_rfl, read]⟩

/-- `copy_from_user` succeeds exactly on readable buffers and yields what the task would read;
`copy_to_user`, when it succeeds, puts every byte where the task would read it and changes nothing
else. No address leaves the machine word. -/
theorem user_copies (s : AddressSpace) (mem : Memory) (ptr : Nat) :
    (∀ len, (∃ out, copyFromUser s mem ptr len = .ok out) ↔ Readable s ptr len) ∧
    (∀ len out, copyFromUser s mem ptr len = .ok out →
      out.map some = (List.range' ptr len).map (taskReads s mem)) ∧
    (∀ data after, copyToUser s mem ptr data = (.ok (), after) →
      (∀ i byte, data[i]? = some byte →
        ∃ pa, translateUser s (ptr + i) = some pa ∧ after.mem pa = byte) ∧
      ∀ a, (∀ i < data.length, translateUser s (ptr + i) ≠ some a) → after.mem a = mem a) ∧
    ∀ len, userRangeOk ptr len = true → ∀ k ≤ len, ptr + k < 2 ^ 64 := by
  refine ⟨fun len => ?_, fun len out copied => ?_, fun data after copied => ?_,
    fun len ok k small => ?_⟩
  · rw [copyFromUser_ok_iff]
    exact ⟨fun ok => ⟨ok.1.1, ok.1.2, ok.2⟩, fun ok => ⟨⟨ok.short, ok.inside⟩, ok.mapped⟩⟩
  · exact (copyFromUser_eq copied).2
  · rw [copyToUser_eq] at copied
    split at copied
    next ok =>
      refine ⟨fun i byte found => copyBytes_at copied
        (spread_of_short (userRangeOk_iff.mp ok).1) found, fun a ne => ?_⟩
      have outside := copyBytes_outside ptr data ⟨mem, []⟩ ne
      rw [copied] at outside
      exact outside
    next => cases copied
  · have lt := (userRangeOk_iff.mp ok).2
    simp only [USER_TOP] at lt
    omega

end K1K.Syscall
