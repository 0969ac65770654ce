import K1K.Lib.Utf8

/-!
# Text

Text is a list of characters, with the functions of Rust's `str` under their names. `split` on a
character is `List.splitOn`.
-/

namespace K1K.Lib

abbrev Text : Type := List Char

namespace Text

def isWhitespace (c : Char) : Bool :=
  decide (c.toNat ∈ [0x20, 0x85, 0xa0, 0x1680, 0x2028, 0x2029, 0x202f, 0x205f, 0x3000] ∨
    (0x09 ≤ c.toNat ∧ c.toNat ≤ 0x0d) ∨ (0x2000 ≤ c.toNat ∧ c.toNat ≤ 0x200a))

def trim (text : Text) : Text := (text.dropWhile isWhitespace).rdropWhile isWhitespace

def splitWhitespace (text : Text) : List Text :=
  (text.splitOnP isWhitespace).filter fun word => !word.isEmpty

def stripReturn (line : Text) : Text :=
  if line.getLast? = some '\r' then line.dropLast else line

/-- Every line feed ends a line, and so does the end of the text, unless the line
is empty there. -/
def lines (text : Text) : List Text :=
  let pieces := text.splitOn '\n'
  pieces.dropLast.map stripReturn ++ pieces.getLast?.toList.filter fun line => !line.isEmpty

def splitOnce (separator : Char) (text : Text) : Option (Text × Text) :=
  match text.dropWhile (· != separator) with
  | [] => none
  | _ :: rest => some (text.takeWhile (· != separator), rest)

def parseU32 (text : Text) : Option (BitVec 32) :=
  let digits := if text.head? = some '+' then text.tail else text
  if digits.isEmpty || !digits.all Char.isDigit then none
  else if Nat.ofDigitChars 10 digits 0 < 2 ^ 32 then
    some (BitVec.ofNat 32 (Nat.ofDigitChars 10 digits 0))
  else none

def decimal (n : Nat) : Text := Nat.toDigits 10 n

/-! ## Text without blanks -/

def Graphic (text : Text) : Prop := ∀ c ∈ text, 0x21 ≤ c.toNat ∧ c.toNat ≤ 0x7e

instance decidableGraphic (text : Text) : Decidable (Graphic text) := List.decidableBAll _ _

variable {text front back : Text} {separator : Char}

theorem Graphic.append (first : Graphic front) (second : Graphic back) :
    Graphic (front ++ back) := by
  intro c mem
  rcases List.mem_append.mp mem with left | right
  · exact first c left
  · exact second c right

theorem Graphic.intercalate {pieces : List Text} (separates : Graphic [separator])
    (graphic : ∀ piece ∈ pieces, Graphic piece) : Graphic ([separator].intercalate pieces) := by
  induction pieces with
  | nil => simp [Graphic]
  | cons piece rest ih =>
    rw [List.forall_mem_cons] at graphic
    cases rest with
    | nil => simpa using graphic.1
    | cons next rest =>
      rw [List.intercalate_cons_cons]
      exact (graphic.1.append separates).append (ih graphic.2)

theorem Graphic.isWhitespace_eq_false (graphic : Graphic text) :
    ∀ c ∈ text, isWhitespace c = false := by
  intro c mem
  have range := graphic c mem
  rw [isWhitespace, decide_eq_false_iff_not]
  simp only [List.mem_cons, List.not_mem_nil, or_false]
  omega

theorem Graphic.trim_eq (graphic : Graphic text) : trim text = text := by
  have visible := graphic.isWhitespace_eq_false
  have start : text.dropWhile isWhitespace = text := by
    cases text with
    | nil => rfl
    | cons c rest => rw [List.dropWhile_cons_of_neg (by simp [visible c])]
  rw [trim, start, List.rdropWhile_eq_self_iff]
  intro nonempty
  simp [visible _ (List.getLast_mem nonempty)]

theorem splitOnce_append (absent : separator ∉ front) :
    splitOnce separator (front ++ separator :: back) = some (front, back) := by
  have differs : ∀ c ∈ front, (c != separator) = true := by
    intro c mem
    rw [bne_iff_ne]
    rintro rfl
    exact absent mem
  rw [splitOnce, List.dropWhile_append_of_pos differs, List.takeWhile_append_of_pos differs,
    List.dropWhile_cons_of_neg (by simp), List.takeWhile_cons_of_neg (by simp), List.append_nil]

theorem lines_two (first : Graphic front) (second : Graphic back) (nonempty : back ≠ []) :
    lines (front ++ '\n' :: back) = [front, back] := by
  have unbroken : ∀ {piece : Text}, Graphic piece → piece.splitOn '\n' = [piece] := by
    intro piece graphic
    rw [List.splitOn_eq_splitOnP, List.splitOnP_eq_singleton]
    intro c mem
    have range := graphic c mem
    rw [beq_eq_false_iff_ne]
    rintro rfl
    simp at range
  have pieces : (front ++ '\n' :: back).splitOn '\n' = [front, back] := by
    rw [List.splitOn_append_cons_of_beq _ _ (by rfl), unbroken first, unbroken second]
    rfl
  have kept : stripReturn front = front := by
    rw [stripReturn, if_neg]
    intro last
    have range := first '\r' (List.mem_of_getLast? last)
    simp at range
  simp [lines, pieces, kept, nonempty]

theorem parseU32_decimal {n : Nat} (small : n < 2 ^ 32) :
    parseU32 (decimal n) = some (BitVec.ofNat 32 n) := by
  have digits : ∀ c ∈ Nat.toDigits 10 n, c.isDigit = true := fun c mem =>
    Nat.isDigit_of_mem_toDigits (by decide) (by decide) mem
  have unsigned : (Nat.toDigits 10 n).head? ≠ some '+' := by
    intro plus
    have digit := digits '+' (List.mem_of_head? plus)
    simp at digit
  have value : Nat.ofDigitChars 10 (Nat.toDigits 10 n) 0 = n :=
    Nat.ofDigitChars_toDigits (by decide) (by decide)
  have nonempty : (Nat.toDigits 10 n).isEmpty = false := by simp [Nat.toDigits_ne_nil]
  rw [parseU32, decimal, if_neg unsigned]
  simp only [nonempty, List.all_eq_true.mpr digits, value, small]
  rfl

theorem decimal_graphic (n : Nat) : Graphic (decimal n) := by
  intro c mem
  have digit : c.isDigit = true :=
    Nat.isDigit_of_mem_toDigits (by decide) (by decide) mem
  rw [Char.isDigit, Bool.and_eq_true, decide_eq_true_iff, decide_eq_true_iff] at digit
  have low : 48 ≤ c.toNat := digit.1
  have high : c.toNat ≤ 57 := digit.2
  omega

end Text

end K1K.Lib
