import K1K.Lib.Utf8

/-!
# Short names

`to_83` of `user/svc/fs/src/fat.rs` and `DirRec::display` of `user/rt/src/fsproto.rs`.
A name is the list of its bytes.
-/

namespace K1K.Disk

open K1K.Lib

def toAsciiUppercase (b : Byte) : Byte := if 97 ≤ b ∧ b ≤ 122 then b - 32 else b

def validNameByte (b : Byte) : Bool := (0x21 ≤ b ∧ b ≤ 0x7e) ∧ b ≠ 46 ∧ b ≠ 32

def field (n : Nat) (part : List Byte) : List Byte :=
  (part.map toAsciiUppercase).rightpad n 32

def to83 (name : List Byte) : Option (List Byte) :=
  let base := name.takeWhile (· ≠ 46)
  let ext := (name.dropWhile (· ≠ 46)).tail
  if base = [] ∨ 8 < base.length ∨ 3 < ext.length then none
  else if base.all validNameByte ∧ ext.all validNameByte then some (field 8 base ++ field 3 ext)
  else none

def display (name : List Byte) : List Byte :=
  let base := (name.take 8).takeWhile (· ≠ 32)
  let out := if name[8]? = some 32 then base
    else base ++ 46 :: (name.drop 8).takeWhile (· ≠ 32)
  if (decodeUtf8 out).isSome then out else [63]

def canonical (name : List Byte) : List Byte :=
  let upper := name.map toAsciiUppercase
  if upper.getLast? = some 46 then upper.dropLast else upper

variable {b : Byte} {n : Nat} {part base ext name key : List Byte}

theorem valid_facts (valid : validNameByte b) : validNameByte (toAsciiUppercase b) ∧
    toAsciiUppercase (toAsciiUppercase b) = toAsciiUppercase b ∧ b ≠ 46 ∧
    toAsciiUppercase b ≠ 32 ∧ toAsciiUppercase b ≠ 46 ∧ (toAsciiUppercase b).toNat < 0x80 := by
  revert b
  decide +kernel

structure Fits (base ext : List Byte) : Prop where
  nonempty : base ≠ []
  baseLength : base.length ≤ 8
  extLength : ext.length ≤ 3
  base : ∀ b ∈ base, validNameByte b
  ext : ∀ b ∈ ext, validNameByte b

theorem Fits.upper (fits : Fits base ext) :
    Fits (base.map toAsciiUppercase) (ext.map toAsciiUppercase) := by
  refine ⟨by simpa using fits.nonempty, by simpa using fits.baseLength,
    by simpa using fits.extLength, ?_, ?_⟩
  · simpa using fun b mem => (valid_facts (fits.base b mem)).1
  · simpa using fun b mem => (valid_facts (fits.ext b mem)).1

theorem field_upper (valid : ∀ b ∈ part, validNameByte b) :
    field n (part.map toAsciiUppercase) = field n part := by
  have eq : (part.map toAsciiUppercase).map toAsciiUppercase = part.map toAsciiUppercase := by
    simpa using fun b mem => (valid_facts (valid b mem)).2.1
  rw [field, eq, field]

theorem takeWhile_field (valid : ∀ b ∈ part, validNameByte b) :
    (field n part).takeWhile (· ≠ 32) = part.map toAsciiUppercase := by
  rw [field, List.rightpad, List.takeWhile_append_of_pos]
  · cases n - (part.map toAsciiUppercase).length <;> simp [List.replicate_succ]
  · simpa using fun b mem => (valid_facts (valid b mem)).2.2.2.1

theorem takeWhile_base (fits : Fits base ext) (rest : List Byte) :
    (base ++ 46 :: rest).takeWhile (· ≠ 46) = base ∧
    (base ++ 46 :: rest).dropWhile (· ≠ 46) = 46 :: rest := by
  have passed : ∀ b ∈ base, decide (b ≠ 46) = true := fun b mem =>
    decide_eq_true (valid_facts (fits.base b mem)).2.2.1
  rw [List.takeWhile_append_of_pos passed, List.dropWhile_append_of_pos passed]
  simp

theorem to83_dotted (fits : Fits base ext) :
    to83 (base ++ 46 :: ext) = some (field 8 base ++ field 3 ext) := by
  obtain ⟨front, back⟩ := takeWhile_base fits ext
  simp only [to83, front, back, List.tail_cons]
  rw [if_neg, if_pos]
  · simpa using ⟨fits.base, fits.ext⟩
  · simp [fits.nonempty, fits.baseLength, fits.extLength]

theorem to83_bare (fits : Fits base []) : to83 base = some (field 8 base ++ field 3 []) := by
  have passed : ∀ b ∈ base, decide (b ≠ 46) = true := fun b mem =>
    decide_eq_true (valid_facts (fits.base b mem)).2.2.1
  simp only [to83, List.takeWhile_eq_self_iff.mpr passed, List.dropWhile_eq_nil_iff.mpr passed,
    List.tail_nil]
  rw [if_neg, if_pos]
  · simpa using fits.base
  · simp [fits.nonempty, fits.baseLength]

theorem parts_of_to83 (accepted : to83 name = some key) :
    ∃ base ext, Fits base ext ∧ key = field 8 base ++ field 3 ext ∧
      (name = base ++ 46 :: ext ∨ name = base ∧ ext = []) := by
  simp only [to83, Option.ite_none_left_eq_some, Option.ite_none_right_eq_some, not_or,
    Nat.not_lt, List.all_eq_true, Option.some.injEq] at accepted
  obtain ⟨⟨nonempty, short, shortExt⟩, ⟨valid, validExt⟩, rfl⟩ := accepted
  refine ⟨_, _, ⟨nonempty, short, shortExt, valid, validExt⟩, rfl, ?_⟩
  have split := List.takeWhile_append_dropWhile (p := fun b : Byte => decide (b ≠ 46)) (l := name)
  cases rest : name.dropWhile (· ≠ 46) with
  | nil =>
    rw [rest, List.append_nil] at split
    exact .inr ⟨split.symm, rfl⟩
  | cons dot ext =>
    have isDot := List.head_dropWhile_not (p := fun b : Byte => decide (b ≠ 46)) (l := name)
      (by rw [rest]; exact List.cons_ne_nil _ _)
    simp only [rest, List.head_cons, decide_eq_false_iff_not, not_not] at isDot
    rw [rest, isDot] at split
    exact .inl split.symm

/-- The name as the directory shows it. -/
def shown (base ext : List Byte) : List Byte :=
  base.map toAsciiUppercase ++ if ext = [] then [] else 46 :: ext.map toAsciiUppercase

theorem to83_shown (fits : Fits base ext) :
    to83 (shown base ext) = some (field 8 base ++ field 3 ext) := by
  rw [shown, ← field_upper fits.base, ← field_upper fits.ext]
  split
  next none =>
    subst none
    simpa using to83_bare fits.upper
  next => exact to83_dotted fits.upper

theorem display_field (fits : Fits base ext) :
    display (field 8 base ++ field 3 ext) = shown base ext := by
  have eight : (field 8 base).length = 8 := by simp [field, List.rightpad, fits.baseLength]
  have ascii : ∀ b ∈ shown base ext, b.toNat < 0x80 := by
    intro b mem
    rcases List.mem_append.mp mem with front | back
    · obtain ⟨c, listed, rfl⟩ := List.mem_map.mp front
      exact (valid_facts (fits.base c listed)).2.2.2.2.2
    split at back
    · cases back
    rcases List.mem_cons.mp back with rfl | back
    · decide
    · obtain ⟨c, listed, rfl⟩ := List.mem_map.mp back
      exact (valid_facts (fits.ext c listed)).2.2.2.2.2
  have mark : (field 8 base ++ field 3 ext)[8]? = some 32 ↔ ext = [] := by
    rw [List.getElem?_append_right eight.le, eight]
    cases ext with
    | nil => simp [field, List.rightpad, List.replicate_succ]
    | cons b rest => simpa [field, List.rightpad] using (valid_facts (fits.ext b (by simp))).2.2.2.1
  have body : (if (field 8 base ++ field 3 ext)[8]? = some 32 then base.map toAsciiUppercase
      else base.map toAsciiUppercase ++ 46 :: ext.map toAsciiUppercase) = shown base ext := by
    by_cases none : ext = []
    · rw [if_pos (mark.mpr none), shown, if_pos none, List.append_nil]
    · rw [if_neg (mt mark.mp none), shown, if_neg none]
  rw [display, List.take_left' eight, List.drop_left' eight, takeWhile_field fits.base,
    takeWhile_field fits.ext, body, decodeUtf8_ascii ascii]
  rfl

theorem last_upper (valid : ∀ b ∈ part, validNameByte b) :
    (part.map toAsciiUppercase).getLast? ≠ some 46 := by
  intro last
  obtain ⟨b, mem, dot⟩ := List.mem_map.mp (List.mem_of_getLast? last)
  exact (valid_facts (valid b mem)).2.2.2.2.1 dot

theorem canonical_parts (fits : Fits base ext)
    (parts : name = base ++ 46 :: ext ∨ name = base ∧ ext = []) :
    canonical name = shown base ext := by
  have dot : toAsciiUppercase 46#8 = 46#8 := by decide
  rcases parts with rfl | ⟨rfl, rfl⟩
  · by_cases none : ext = []
    · simp [canonical, shown, none, dot]
    have last : (ext.map toAsciiUppercase).getLast? ≠ some 46 := last_upper fits.ext
    have ends : ((base ++ 46 :: ext).map toAsciiUppercase).getLast? =
        (ext.map toAsciiUppercase).getLast? := by
      rw [List.append_cons, List.map_append]
      exact List.getLast?_append_of_ne_nil _ (mt List.map_eq_nil_iff.mp none)
    rw [canonical, ends, if_neg last, shown, if_neg none, List.map_append, List.map_cons]
    rfl
  · rw [canonical, if_neg (last_upper fits.base), shown, if_pos rfl, List.append_nil]

theorem canonical_of_to83 (accepted : to83 name = some key) :
    display key = canonical name ∧ to83 (canonical name) = some key := by
  obtain ⟨base, ext, fits, rfl, parts⟩ := parts_of_to83 accepted
  rw [canonical_parts fits parts]
  exact ⟨display_field fits, to83_shown fits⟩

/-- What the client shows leads back to the entry, and only names that differ in case or
in a trailing dot meet the same entry. -/
theorem short_names_faithful {a b keyA keyB : List Byte} (first : to83 a = some keyA)
    (second : to83 b = some keyB) :
    to83 (display keyA) = some keyA ∧ (keyA = keyB ↔ canonical a = canonical b) := by
  obtain ⟨shownA, backA⟩ := canonical_of_to83 first
  obtain ⟨shownB, backB⟩ := canonical_of_to83 second
  refine ⟨by rw [shownA, backA], fun eq => ?_, fun eq => ?_⟩
  · rw [← shownA, ← shownB, eq]
  · rw [eq, backB] at backA
    exact (Option.some.inj backA).symm

/-- `readme.` and `README` are the same file. -/
theorem short_names_of_readme :
    to83 [114, 101, 97, 100, 109, 101, 46] = to83 [82, 69, 65, 68, 77, 69] := by
  obtain ⟨-, eq⟩ := short_names_faithful (a := [114, 101, 97, 100, 109, 101, 46])
    (b := [82, 69, 65, 68, 77, 69]) rfl rfl
  exact congrArg some (eq.mpr (by decide))

end K1K.Disk
