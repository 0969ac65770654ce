import K1K.Manifest.Model

/-!
# From names to slots and back

The file service numbers a service's capabilities in the argument block, and the service looks a
name up there: it finds the position of the name's first occurrence in the manifest.
-/

namespace K1K.Manifest

open K1K.Lib K1K.Lib.Text K1K.Spawn

/-! ## What the parser accepts -/

theorem mem_record {parsed : Parsed} {line : Nat} {outcome : Option (Except Text Entry)}
    {entry : Entry} (mem : entry ∈ (parsed.record line outcome).entries) :
    entry ∈ parsed.entries ∨ outcome = some (.ok entry) := by
  rcases outcome with _ | (why | new)
  · exact .inl mem
  · exact .inl mem
  rcases List.mem_append.mp mem with old | added
  · exact .inl old
  · rw [List.mem_singleton.mp added]
    exact .inr rfl

theorem parseLine_of_mem {text : Text} {entry : Entry} (accepted : entry ∈ (parse text).entries) :
    ∃ raw line, parseLine raw line = some (.ok entry) := by
  unfold parse at accepted
  generalize (lines text).zipIdx 1 = rows at accepted
  induction rows using List.reverseRecOn with
  | nil => simp at accepted
  | append_singleton rows row ih =>
    rw [List.foldl_append] at accepted
    rcases mem_record accepted with old | here
    · exact ih old
    · exact ⟨row.1, row.2, here⟩

theorem validName_of_parseLine {raw : Text} {line : Nat} {entry : Entry}
    (accepted : parseLine raw line = some (.ok entry)) : validName entry.name = true := by
  simp only [parseLine] at accepted
  split at accepted
  next name image rest _ =>
    rw [Option.some.injEq] at accepted
    split at accepted
    next => simp at accepted
    split at accepted
    next => simp at accepted
    next valid =>
      rw [Bool.not_eq_true, Bool.not_eq_false'] at valid
      split at accepted
      next => simp at accepted
      split at accepted
      next => cases accepted; exact valid
      next list _ =>
        cases read : parseCaps list with
        | error why => rw [read] at accepted; simp [Except.map] at accepted
        | ok caps => rw [read] at accepted; cases accepted; exact valid
  split at accepted
  next => simp at accepted
  next => simp at accepted

theorem graphic_of_validName {name : Text} (valid : validName name = true) :
    Graphic name ∧ (encodeUtf8 name).length ≤ 32 := by
  rw [validName, Bool.and_eq_true, Bool.and_eq_true, decide_eq_true_iff, List.all_eq_true] at valid
  have bounds : ∀ byte ∈ encodeUtf8 name, 0x21 ≤ byte.toNat ∧ byte.toNat ≤ 0x7e := by
    intro byte mem
    have graphic := valid.2 byte mem
    rw [Kernel.isAsciiGraphic, Bool.and_eq_true, decide_eq_true_iff, decide_eq_true_iff] at graphic
    exact graphic
  have ascii : ∀ c ∈ name, c.toNat < 0x80 := ascii_of_encodeUtf8 fun byte mem =>
    Nat.lt_of_le_of_lt (bounds byte mem).2 (by decide)
  refine ⟨fun c mem => ?_, valid.1.2⟩
  have range := bounds (BitVec.ofNat 8 c.toNat) (by
    rw [encodeUtf8_ascii ascii]
    exact List.mem_map.mpr ⟨c, mem, rfl⟩)
  have small := ascii c mem
  rw [BitVec.toNat_ofNat] at range
  omega

/-! ## The argument block -/

structure Plain (name : Text) : Prop where
  graphic : Graphic name
  unlisted : ',' ∉ name
  unassigned : '=' ∉ name

theorem plain_of_named {name : Text} {grant : Grant} (known : namedGrant name = some grant) :
    Plain name := by
  unfold namedGrant at known
  split_ifs at known with eq eq eq eq eq
  all_goals
    rw [eq]
    exact ⟨by decide, by decide, by decide⟩

def item (pair : Text × Nat) : Text := pair.1 ++ '=' :: decimal pair.2

theorem item_graphic {name : Text} (plain : Plain name) (i : Nat) : Graphic (item (name, i)) := by
  have sign : Graphic ['='] := by decide
  exact plain.graphic.append (sign.append (decimal_graphic i))

theorem comma_not_mem_item {name : Text} (plain : Plain name) (i : Nat) : ',' ∉ item (name, i) := by
  intro mem
  rcases List.mem_append.mp mem with left | right
  · exact plain.unlisted left
  rcases List.mem_cons.mp right with sign | digit
  · simp at sign
  · have isDigit := Nat.isDigit_of_mem_toDigits (by decide) (by decide) digit
    simp at isDigit

theorem findSlot_items (name : Text) {names : List Text} {first : Nat}
    (plain : ∀ mem ∈ names, Plain mem) (small : first + names.length ≤ 2 ^ 32) :
    findSlot name ((names.zipIdx first).map item) =
      (names.idxOf? name).map fun i => BitVec.ofNat 32 (first + i) := by
  induction names generalizing first with
  | nil => rfl
  | cons head rest ih =>
    rw [List.forall_mem_cons] at plain
    rw [List.length_cons] at small
    rw [List.zipIdx_cons, List.map_cons, findSlot, item, splitOnce_append plain.1.unassigned]
    simp only [plain.1.graphic.trim_eq, (decimal_graphic first).trim_eq]
    rw [List.idxOf?_cons, parseU32_decimal (by omega)]
    by_cases eq : head = name
    · simp [eq]
    · rw [if_neg eq, ih plain.2 (by omega)]
      simp [eq, Function.comp_def, Nat.add_comm, Nat.add_left_comm]

def capsText (names : List Text) : Text := [','].intercalate (names.zipIdx.map item)

theorem capsArg_eq (names : List Text) :
    capsArg (names.mapIdx fun i cap => (cap, BitVec.ofNat 32 i)) =
      "caps=".toList ++ capsText names := by
  rw [capsArg, capsText, List.mapIdx_mapIdx, List.mapIdx_eq_zipIdx_map]
  rfl

theorem graphic_capsText {names : List Text} (plain : ∀ name ∈ names, Plain name) :
    Graphic (capsText names) := by
  have items : ∀ text ∈ names.zipIdx.map item, Graphic text := by
    intro text mem
    obtain ⟨pair, here, rfl⟩ := List.mem_map.mp mem
    exact item_graphic (plain pair.1 (List.fst_mem_of_mem_zipIdx here)) pair.2
  exact Graphic.intercalate (by decide) items

theorem findSlot_capsText (name : Text) {names : List Text} (plain : ∀ listed ∈ names, Plain listed)
    (small : names.length ≤ 2 ^ 32) :
    findSlot name ((capsText names).splitOn ',') = (names.idxOf? name).map (BitVec.ofNat 32) := by
  cases names with
  | nil => rfl
  | cons head rest =>
    have separated : ∀ text ∈ ((head :: rest).zipIdx).map item, ',' ∉ text := by
      intro text mem
      obtain ⟨pair, here, rfl⟩ := List.mem_map.mp mem
      exact comma_not_mem_item (plain pair.1 (List.fst_mem_of_mem_zipIdx here)) pair.2
    rw [capsText, List.splitOn_intercalate ',' separated (by simp),
      findSlot_items name plain (by omega)]
    simp

def argText (name : Text) (caps : List Text) : Text :=
  "name=".toList ++ name ++ '\n' :: ("caps=".toList ++ capsText caps)

variable {name : Text} {caps : List Text}

theorem findArg_caps (visible : Graphic name) (plain : ∀ cap ∈ caps, Plain cap) :
    findArg "caps".toList (argText name caps) = some (capsText caps) := by
  have mem := graphic_capsText plain
  have first : Graphic ("name=".toList ++ name) := Graphic.append (by decide) visible
  have second : Graphic ("caps=".toList ++ capsText caps) := Graphic.append (by decide) mem
  have named : splitOnce '=' ("name=".toList ++ name) = some ("name".toList, name) :=
    splitOnce_append (show '=' ∉ "name".toList by decide)
  have assigned : splitOnce '=' ("caps=".toList ++ capsText caps) =
      some ("caps".toList, capsText caps) :=
    splitOnce_append (show '=' ∉ "caps".toList by decide)
  have other : trim "name".toList ≠ "caps".toList := by decide
  have wanted : trim "caps".toList = "caps".toList := by decide
  rw [findArg, argText, lines_two first second (by simp)]
  simp only [List.findSome?_cons, named, assigned, if_neg other, wanted, if_true, mem.trim_eq]

theorem ascii_argText (visible : Graphic name) (plain : ∀ cap ∈ caps, Plain cap) :
    ∀ c ∈ argText name caps, 0 < c.toNat ∧ c.toNat < 0x80 := by
  have first : Graphic ("name=".toList ++ name) := Graphic.append (by decide) visible
  have second : Graphic ("caps=".toList ++ capsText caps) :=
    Graphic.append (by decide) (graphic_capsText plain)
  intro c mem
  rcases List.mem_append.mp mem with left | right
  · have range := first c left
    omega
  rcases List.mem_cons.mp right with rfl | right
  · decide
  · have range := second c right
    omega

end K1K.Manifest
