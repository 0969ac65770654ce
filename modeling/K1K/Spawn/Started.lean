import K1K.Authority.Grants
import K1K.Loader.Image
import K1K.Spawn.Model
import K1K.Syscall.Receive

/-!
# What a successful spawn leaves

If the caller's memory holds the words of a request, the service registered is the one asked
for, its task has the derived capabilities and nothing else, and the arguments are in its boot
page.
-/

namespace K1K.Spawn

open K1K.Lib K1K.Mm K1K.Obj K1K.Loader K1K.Syscall

/-! ## Words and their bytes -/

theorem fromLeBytes_toLeBytes (word : BitVec 64) : fromLeBytes 64 (toLeBytes 8 word) = word := by
  apply BitVec.eq_of_toNat_eq
  have bound := word.isLt
  simp only [fromLeBytes, toLeBytes, List.range_succ, List.range_zero, List.nil_append,
    List.map_cons, List.map_nil, List.cons_append, List.foldr_cons,
    List.foldr_nil, BitVec.extractLsb'_toNat, BitVec.toNat_ofNat, Nat.shiftRight_eq_div_pow]
  omega

theorem drop_wordsToBytes (words : List (BitVec 64)) (n : Nat) :
    (wordsToBytes words).drop (8 * n) = wordsToBytes (words.drop n) := by
  induction n generalizing words with
  | zero => rfl
  | succ n ih =>
    cases words with
    | nil => simp [wordsToBytes]
    | cons word rest =>
      have size : (toLeBytes 8 word).length = 8 := by simp [toLeBytes]
      change (toLeBytes 8 word ++ wordsToBytes rest).drop (8 * (n + 1)) = wordsToBytes (rest.drop n)
      rw [← ih, Nat.mul_succ, Nat.add_comm, ← List.drop_drop, List.drop_left' size]

theorem take_wordsToBytes (words : List (BitVec 64)) (n : Nat) :
    (wordsToBytes words).take (8 * n) = wordsToBytes (words.take n) := by
  have whole : wordsToBytes words = wordsToBytes (words.take n) ++ wordsToBytes (words.drop n) := by
    rw [wordsToBytes, wordsToBytes, wordsToBytes, ← List.flatMap_append, List.take_append_drop]
  rw [← drop_wordsToBytes] at whole
  exact List.append_cancel_right ((List.take_append_drop ..).trans whole)

theorem wordOf_wordsToBytes {words : List (BitVec 64)} {i : Nat} {word : BitVec 64}
    (found : words[i]? = some word) : wordOf (wordsToBytes words) i = word := by
  obtain ⟨lt, rfl⟩ := List.getElem?_eq_some_iff.mp found
  have single : (wordsToBytes (words.drop i)).take 8 = toLeBytes 8 words[i] := by
    rw [List.drop_eq_getElem_cons lt]
    exact List.take_left' (by simp [toLeBytes])
  rw [wordOf, drop_wordsToBytes, single, fromLeBytes_toLeBytes]

/-! ## Reading the caller's memory -/

def Kernel.Stores (k : Kernel) (ptr : BitVec 64) (bytes : List Byte) : Prop :=
  (List.range' ptr.toNat bytes.length).map (taskReads k.space k.mem) = bytes.map some

namespace Kernel

variable {profile : Overflow} {half : Fin 512 → Table 3} {k k' : Kernel} {spec : ServiceSpec}
  {ptr len : BitVec 64} {bytes out : List Byte}

theorem Stores.copyIn (stores : k.Stores ptr bytes) (le : len.toNat ≤ bytes.length)
    (copied : k.copyIn ptr len = .ok out) : out = bytes.take len.toNat := by
  have read := (copyFromUser_eq copied).2
  have part := congrArg (List.take len.toNat) stores
  rw [← List.map_take, ← List.map_take, List.take_range'_of_length_ge le, ← read] at part
  exact List.map_injective_iff.mpr (Option.some_injective _) part

theorem Stores.drop {count : BitVec 64} (stores : k.Stores ptr bytes)
    (canonical : ptr.toNat + count.toNat < 2 ^ 64) :
    k.Stores (ptr + count) (bytes.drop count.toNat) := by
  have rest := congrArg (List.drop count.toNat) stores
  rw [← List.map_drop, ← List.map_drop, List.drop_range'] at rest
  rw [Stores, BitVec.toNat_add, Nat.mod_eq_of_lt canonical, List.length_drop, ← rest]
  simp

theorem copyIn_inside (copied : k.copyIn ptr len = .ok out) : ptr.toNat + len.toNat < 2 ^ 64 := by
  have range := userRangeOk_iff.mp (copyFromUser_eq copied).1
  have top : USER_TOP < 2 ^ 64 := by decide
  omega

theorem mapError_ok {ε ε' α : Type} {f : ε → ε'} {x : Except ε α} {a : α}
    (mapped : x.mapError f = .ok a) : x = .ok a := by
  cases x with
  | error e => simp [Except.mapError] at mapped
  | ok b => simpa [Except.mapError] using mapped

theorem Stores.readName (stores : k.Stores ptr bytes) (size : len.toNat = bytes.length)
    (short : bytes.length ≤ 32) (named : k.readName ptr len = .ok out) : out = bytes := by
  unfold Kernel.readName at named
  obtain ⟨name, copied, accepted⟩ := except_bind_ok.mp named
  have whole : (if len.toNat < 32 then len else 32).toNat = bytes.length := by
    split
    next => exact size
    next => rw [← size]; simp; omega
  have eq := stores.copyIn (by rw [whole]) (mapError_ok copied)
  rw [whole, List.take_length] at eq
  split at accepted
  next => cases accepted; exact eq
  next => simp [throw, throwThe, MonadExceptOf.throw] at accepted

theorem Stores.readArgs (stores : k.Stores ptr bytes) (size : len.toNat = bytes.length)
    (read : k.readArgs ptr len = .ok out) : out = bytes := by
  unfold Kernel.readArgs at read
  split at read
  next none =>
    cases read
    rw [none] at size
    exact (List.length_eq_zero_iff.mp size.symm).symm
  have eq := stores.copyIn (by rw [size]) read
  rw [size, List.take_length] at eq
  exact eq

theorem getElem?_pairs (pairs : List (BitVec 64 × BitVec 64)) (i : Nat) :
    (pairs.flatMap fun pair => [pair.1, pair.2])[2 * i]? = pairs[i]?.map Prod.fst ∧
      (pairs.flatMap fun pair => [pair.1, pair.2])[2 * i + 1]? = pairs[i]?.map Prod.snd := by
  induction pairs generalizing i with
  | nil => simp
  | cons pair rest ih =>
    cases i with
    | zero => simp
    | succ i => simpa [Nat.mul_succ] using ih i

theorem readGrants_ok {pairs : List (BitVec 64 × BitVec 64)} {grants : List Capability}
    (read : k.readGrants (wordsToBytes (pairs.flatMap fun pair => [pair.1, pair.2])) pairs.length =
      .ok grants) : pairs.map (fun pair => k.caps.derive (slotOf pair.1) ⟨pair.2.setWidth 32⟩) =
      grants.map some := by
  have each := except_mapM_ok.mp read
  apply List.ext_getElem?
  intro i
  have here := congrArg (fun list => list[i]?) each
  simp only [List.getElem?_map] at here ⊢
  rcases Nat.lt_or_ge i pairs.length with lt | beyond
  · obtain ⟨pair, found⟩ : ∃ pair, pairs[i]? = some pair := ⟨_, List.getElem?_eq_getElem lt⟩
    have words := getElem?_pairs pairs i
    rw [found] at words
    rw [List.getElem?_range lt, Option.map_some, wordOf_wordsToBytes words.1,
      wordOf_wordsToBytes words.2] at here
    rw [found, Option.map_some]
    cases derived : k.caps.derive (slotOf pair.1) ⟨pair.2.setWidth 32⟩ with
    | none => cases given : grants[i]? <;> simp [derived, given] at here
    | some cap => cases given : grants[i]? <;> simp_all
  · have shorter : grants.length = pairs.length := by simpa using (congrArg List.length each).symm
    rw [List.getElem?_eq_none beyond, List.getElem?_eq_none (shorter ▸ beyond)]
    rfl

theorem Stores.readTable {desc : BitVec 64} {head pad : List (BitVec 64)}
    {pairs : List (BitVec 64 × BitVec 64)}
    (descAt : k.Stores desc (wordsToBytes (head ++ (pairs.flatMap fun pair => [pair.1, pair.2]) ++
      pad))) (eight : head.length = 8) (canonical : desc.toNat + 64 < 2 ^ 64)
    (few : pairs.length ≤ MAX_SPAWN_GRANTS)
    (tabled : k.readTable desc (BitVec.ofNat 64 pairs.length) = .ok out) :
    out = wordsToBytes (pairs.flatMap fun pair => [pair.1, pair.2]) := by
  have count : (BitVec.ofNat 64 pairs.length).toNat = pairs.length := by
    rw [BitVec.toNat_ofNat]
    exact Nat.mod_eq_of_lt (Nat.lt_of_le_of_lt few (by decide))
  have size : (BitVec.ofNat 64 pairs.length * 16).toNat = 8 * (2 * pairs.length) := by
    rw [BitVec.toNat_mul, count]
    simp only [MAX_SPAWN_GRANTS] at few
    simp
    omega
  have length : (pairs.flatMap fun pair => [pair.1, pair.2]).length = 2 * pairs.length := by
    simp [Nat.mul_comm]
  unfold Kernel.readTable at tabled
  split at tabled
  next =>
    have rest : k.Stores (desc + 64) _ := descAt.drop canonical
    have words : (64 : BitVec 64).toNat = 8 * 8 := rfl
    rw [words, drop_wordsToBytes, List.append_assoc, ← eight, List.drop_left] at rest
    have eq := rest.copyIn (by rw [size, length_wordsToBytes, List.length_append, length]; omega)
      (mapError_ok tabled)
    rw [size, take_wordsToBytes, ← length, List.take_left] at eq
    exact eq
  next none =>
    rw [count, Nat.not_lt, Nat.le_zero, List.length_eq_zero_iff] at none
    cases tabled
    rw [none]
    rfl

theorem startService_ok {ctl mem size : BitVec 64} {name args : List Byte}
    {grants : List Capability} (started : k.startService ctl mem size name grants args = .ok spec) :
    spec.name = name ∧ spec.grants = grants ∧ spec.args = args := by
  unfold startService at started
  split at started
  next =>
    split at started
    next => simp at started
    split at started
    next => simp at started
    next => cases started; exact ⟨rfl, rfl, rfl⟩
  next => simp at started

theorem spawnDescRequest_ok {desc ctl mem size namePtr argPtr : BitVec 64} {name args : List Byte}
    {pairs : List (BitVec 64 × BitVec 64)} {pad : List (BitVec 64)}
    (descAt : k.Stores desc (wordsToBytes ([ctl, mem, size, namePtr, BitVec.ofNat 64 name.length,
      BitVec.ofNat 64 pairs.length, argPtr, BitVec.ofNat 64 args.length] ++
      (pairs.flatMap fun pair => [pair.1, pair.2]) ++ pad)))
    (nameAt : k.Stores namePtr name) (argsAt : k.Stores argPtr args) (short : name.length ≤ 32)
    (few : pairs.length ≤ MAX_SPAWN_GRANTS) (brief : args.length ≤ MAX_BOOT_ARGS)
    (asked : k.spawnDescRequest desc = .ok spec) : spec.name = name ∧ spec.args = args ∧
      pairs.map (fun pair => k.caps.derive (slotOf pair.1) ⟨pair.2.setWidth 32⟩) =
        spec.grants.map some := by
  unfold spawnDescRequest at asked
  simp only [except_bind_ok] at asked
  obtain ⟨head, copied, _, -, read, named, raw, tabled, grants, derived, given, passed,
    started⟩ := asked
  have canonical := copyIn_inside (mapError_ok copied)
  generalize words : [ctl, mem, size, namePtr, BitVec.ofNat 64 name.length,
    BitVec.ofNat 64 pairs.length, argPtr, BitVec.ofNat 64 args.length] = first at descAt
  have eight : first.length = 8 := by rw [← words]; rfl
  have stored : head = wordsToBytes first := by
    have ran := descAt.copyIn (by simp [length_wordsToBytes, eight]; omega) (mapError_ok copied)
    have size : (64 : BitVec 64).toNat = 8 * 8 := rfl
    rw [size, take_wordsToBytes, List.append_assoc, ← eight, List.take_left] at ran
    exact ran
  have word : ∀ i word, first[i]? = some word → wordOf head i = word := by
    rw [stored]
    exact fun i word found => wordOf_wordsToBytes found
  subst words
  have fits : ∀ {n : Nat}, n ≤ 1024 → (BitVec.ofNat 64 n).toNat = n := by
    intro n small
    rw [BitVec.toNat_ofNat]
    omega
  rw [word 3 _ rfl, word 4 _ rfl] at named
  rw [word 5 _ rfl] at tabled derived
  rw [word 6 _ rfl, word 7 _ rfl] at passed
  have sameName := nameAt.readName (fits (Nat.le_trans short (by decide))) short named
  have sameArgs := argsAt.readArgs (fits brief) passed
  rw [descAt.readTable eight canonical few tabled, fits (Nat.le_trans few (by decide))] at derived
  obtain ⟨specName, specGrants, specArgs⟩ := startService_ok started
  rw [specName, specGrants, specArgs]
  exact ⟨sameName, sameArgs, readGrants_ok derived⟩

/-! ## The new task -/

theorem getElem?_register {idx : Nat} {k₁ : Kernel} (known : k.register spec = some (idx, k₁)) :
    k₁.services[idx]? = some ⟨spec, none⟩ := by
  unfold register at known
  split at known
  next => simp at known
  cases known
  exact List.getElem?_concat_length

theorem andThen_some {α : Type} {step : Option (Bool × Loading)} {st : Loading} {a : α}
    {rest : Loading → Option (Option α × Loading)} : andThen step rest = some (some a, st) ↔
      ∃ between, step = some (true, between) ∧ rest between = some (some a, st) := by
  rcases step with _ | ⟨_ | _, between⟩
  · simp [andThen]
  · simp [andThen]
  · simp [andThen]

theorem buildSpace_ok {task : BitVec 32} {st st' : Loading} {entry : BitVec 64}
    (built : buildSpace profile task spec st = some (some entry, st')) :
    ∃ was, writeBootInfo task spec.args was = some (true, st') := by
  unfold buildSpace at built
  split at built
  next => simp at built
  next => simp at built
  simp only [andThen_some] at built
  obtain ⟨_, -, _, -, was, -, last, written, finished⟩ := built
  cases finished
  exact ⟨was, written⟩

theorem spawnFromImage_task {id : BitVec 32}
    (spawned : k.spawnFromImage profile half spec = some (some id, k')) :
    ∃ task was st, k'.tasks id = some task ∧ task.caps = Authority.fill spec.grants ∧
      task.space = st.space ∧ k'.mem = st.mem ∧
      writeBootInfo id spec.args was = some (true, st) := by
  unfold spawnFromImage at spawned
  split at spawned
  next => simp at spawned
  split at spawned
  next => simp at spawned
  next idx k₁ known =>
    unfold spawn at spawned
    rw [getElem?_register known] at spawned
    simp only at spawned
    split at spawned
    next => simp at spawned
    split at spawned
    next => simp at spawned
    split at spawned
    next => simp at spawned
    next => simp at spawned
    next entry st built =>
      obtain ⟨was, written⟩ := buildSpace_ok built
      cases spawned
      exact ⟨_, was, st, Function.update_self .., rfl, rfl, rfl, written⟩

theorem sysSpawnDesc_ok {desc word : BitVec 64}
    (gave : k.sysSpawnDesc profile half desc 0 = some (.ok word, k')) :
    ∃ spec id, k.spawnDescRequest desc = .ok spec ∧ word = id.setWidth 64 ∧
      k.spawnFromImage profile half spec = some (some id, k') := by
  unfold sysSpawnDesc at gave
  split at gave
  next => simp at gave
  next spec asked =>
    split at gave
    next => simp at gave
    next => simp at gave
    next id k₁ spawned =>
      rw [if_pos rfl] at gave
      cases gave
      exact ⟨spec, id, asked, rfl, spawned⟩

end Kernel

/-! ## The boot page -/

def bootWords (task : BitVec 32) (argLen : Nat) : List (BitVec 64) :=
  [BOOT_INFO_MAGIC, BOOT_INFO_LAYOUT, task.setWidth 64, BitVec.ofNat 64 USER_HEAP_BASE,
    BitVec.ofNat 64 (USER_HEAP_PAGES * 4096), BitVec.ofNat 64 USER_STACK_TOP,
    BitVec.ofNat 64 argLen]

theorem toLeBytes_padded (task : BitVec 32) :
    toLeBytes 4 task ++ toLeBytes 4 (0 : BitVec 32) = toLeBytes 8 (task.setWidth 64) := by
  have bound := task.isLt
  have zero : (0 : BitVec 32).toNat = 0 := rfl
  simp only [toLeBytes, List.range_succ, List.range_zero, List.nil_append, List.map_cons,
    List.map_nil, List.cons_append, List.cons.injEq, and_true]
  refine ⟨?_, ?_, ?_, ?_, ?_, ?_, ?_, ?_⟩
  all_goals
    apply BitVec.eq_of_toNat_eq
    simp only [BitVec.extractLsb'_toNat, BitVec.toNat_setWidth, zero, Nat.shiftRight_eq_div_pow]
    omega

theorem bootInfoHead_eq (task : BitVec 32) (argLen : Nat) :
    bootInfoHead task argLen = wordsToBytes (bootWords task argLen) := by
  simp only [bootInfoHead, bootWords, wordsToBytes, List.flatMap_cons, List.flatMap_nil,
    List.append_nil, ← toLeBytes_padded, List.append_assoc]

theorem writeBootInfo_reads {task : BitVec 32} {args : List Byte} {old st : Loading}
    (brief : args.length ≤ MAX_BOOT_ARGS)
    (written : writeBootInfo task args old = some (true, st)) {i : Nat} {byte : Byte}
    (found : (wordsToBytes (bootWords task args.length) ++ args)[i]? = some byte) :
    taskReads st.space st.mem (USER_INFO_BASE + i) = some byte := by
  simp only [writeBootInfo, Nat.min_eq_left brief, List.take_length, bootInfoHead_eq] at written
  split at written
  next => simp at written
  next mem wrote =>
    simp only [Option.some.injEq, Prod.mk.injEq] at written
    obtain ⟨-, rfl⟩ := written
    have short : (wordsToBytes (bootWords task args.length) ++ args ++ [0]).length ≤ MAX_LOG := by
      simp [length_wordsToBytes, bootWords, MAX_LOG]
      simp only [MAX_BOOT_ARGS] at brief
      omega
    have lt := (List.getElem?_eq_some_iff.mp found).1
    obtain ⟨pa, mapped, holds⟩ := (writeUser_some wrote (spread_of_short short)).1 i byte (by
      rw [List.getElem?_append_left lt]
      exact found)
    rw [taskReads, mapped, Option.map_some]
    exact congrArg some holds

end K1K.Spawn
