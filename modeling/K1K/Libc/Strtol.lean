import K1K.Lib.Memory

/-!
# Numbers in C strings

`strtoul` and `strtol` of `libc/src/stdlib.c` with the classes of `ctype.c`. A string is the
list of its bytes before the zero, a pointer into it what is left from there on. `long` has 64
bits.
-/

namespace K1K.Libc

open K1K.Lib

def ULONG_MAX : Nat := 2 ^ 64 - 1
def LONG_MAX : Nat := 2 ^ 63 - 1

def isspace (c : Byte) : Bool := c = 32 ∨ 9 ≤ c ∧ c ≤ 13

def isdigit (c : Byte) : Bool := 48 ≤ c ∧ c ≤ 57

def isupper (c : Byte) : Bool := 65 ≤ c ∧ c ≤ 90

def islower (c : Byte) : Bool := 97 ≤ c ∧ c ≤ 122

def isxdigit (c : Byte) : Bool := isdigit c ∨ 97 ≤ c ∧ c ≤ 102 ∨ 65 ≤ c ∧ c ≤ 70

def tolower (c : Byte) : Byte := if isupper c then c + 32 else c

/-- The digit that a character stands for in the loop of `strtoul`. -/
def digit (base : Nat) (c : Byte) : Option Nat :=
  let d := if isdigit c then some (c.toNat - 48)
    else if isupper c ∨ islower c then some ((tolower c).toNat - 97 + 10) else none
  d.filter (· < base)

/-- The base that the loop works with, and where it starts. -/
def radix (base : Nat) (p : List Byte) : Nat × List Byte :=
  if (base = 0 ∨ base = 16) ∧ p[0]? = some 48 ∧ (p[1]? = some 120 ∨ p[1]? = some 88) ∧
      p[2]?.any isxdigit then (16, p.drop 2)
  else if base = 0 then (if p[0]? = some 48 then 8 else 10, p) else (base, p)

structure Scan where
  value : Nat
  any : Bool
  overflow : Bool
  rest : List Byte
  deriving DecidableEq

def scan (base : Nat) : List Byte → Nat → Bool → Bool → Scan
  | [], v, any, overflow => ⟨v, any, overflow, []⟩
  | c :: p, v, any, overflow =>
    match digit base c with
    | none => ⟨v, any, overflow, c :: p⟩
    | some d =>
      if (ULONG_MAX - d) / base < v then scan base p v true true
      else scan base p (v * base + d) true overflow

/-- What a conversion returns, where it leaves `end`, and whether it sets `errno`. -/
structure Converted (α : Type) where
  value : α
  rest : List Byte
  erange : Bool
  deriving DecidableEq

def signed (p : List Byte) : Bool := p[0]? = some 43 ∨ p[0]? = some 45

def strtoul (s : List Byte) (base : Nat) : Converted Nat :=
  let p := s.dropWhile isspace
  let start := radix base (if signed p then p.drop 1 else p)
  let r := scan start.1 start.2 0 false false
  let rest := if r.any then r.rest else s
  if r.overflow then ⟨ULONG_MAX, rest, true⟩
  else ⟨if p[0]? = some 45 then (2 ^ 64 - r.value) % 2 ^ 64 else r.value, rest, false⟩

def strtol (s : List Byte) (base : Nat) : Converted Int :=
  let r := strtoul s base
  if (s.dropWhile isspace)[0]? = some 45 then
    if LONG_MAX + 1 < r.value then ⟨-(LONG_MAX + 1), r.rest, true⟩
    else ⟨-r.value, r.rest, r.erange⟩
  else if LONG_MAX < r.value then ⟨LONG_MAX, r.rest, true⟩
  else ⟨r.value, r.rest, r.erange⟩

/-! ## Numerals -/

def Stands (c : Byte) (d : Nat) : Prop :=
  d < 10 ∧ c.toNat = 48 + d ∨ 10 ≤ d ∧ d < 36 ∧ (c.toNat = 55 + d ∨ c.toNat = 87 + d)

/-- The prefixes that a base allows before the digits `body`, with the base that those are in. -/
inductive Mark (base : Nat) (body : List Byte) : List Byte → Nat → Prop
  | given : base ≠ 0 → Mark base body [] base
  | octal : base = 0 → body[0]? = some 48 → Mark base body [] 8
  | decimal : base = 0 → body[0]? ≠ some 48 → Mark base body [] 10
  | hex {x : Byte} : base = 0 ∨ base = 16 → x = 120 ∨ x = 88 → Mark base body [48, x] 16

structure Numeral where
  negative : Bool
  base : Nat
  digits : List Nat
  rest : List Byte

namespace Numeral

/-- A text that consists of white space, a sign, a prefix and digits. -/
def Reads (n : Numeral) (base : Nat) (text : List Byte) : Prop :=
  ∃ blank sign mark body, text = blank ++ (sign ++ (mark ++ body)) ∧
    (∀ c ∈ blank, c.toNat = 32 ∨ 9 ≤ c.toNat ∧ c.toNat ≤ 13) ∧
    (n.negative = false ∧ (sign = [] ∨ sign = [43]) ∨ n.negative = true ∧ sign = [45]) ∧
    Mark base body mark n.base ∧ body ≠ [] ∧
    body.Forall₂ (fun c d => Stands c d ∧ d < n.base) n.digits

/-- No digits, if the string starts with no numeral, and otherwise the longest numeral
that it starts with. -/
def Longest (n : Numeral) (s : List Byte) (base : Nat) : Prop :=
  (n.digits ≠ [] → ∃ text, s = text ++ n.rest ∧ n.Reads base text) ∧
  ∀ (other : Numeral) text, s = text ++ other.rest → other.Reads base text →
    n.digits ≠ [] ∧ n.rest.length ≤ other.rest.length

variable (n : Numeral) (s : List Byte)

def magnitude : Nat := Nat.ofDigits n.base n.digits.reverse

def toUnsigned : Converted Nat :=
  if n.digits = [] then ⟨0, s, false⟩
  else if n.magnitude ≤ ULONG_MAX then
    ⟨if n.negative then (2 ^ 64 - n.magnitude) % 2 ^ 64 else n.magnitude, n.rest, false⟩
  else ⟨ULONG_MAX, n.rest, true⟩

def toSigned : Converted Int :=
  let v : Int := if n.negative then -n.magnitude else n.magnitude
  if n.digits = [] then ⟨0, s, false⟩
  else if -(LONG_MAX + 1) ≤ v ∧ v ≤ LONG_MAX then ⟨v, n.rest, false⟩
  else ⟨if n.negative then -(LONG_MAX + 1) else LONG_MAX, n.rest, true⟩

end Numeral

variable {base : Nat}

theorem digit_eq_some_iff {c : Byte} {d : Nat} :
    digit base c = some d ↔ Stands c d ∧ d < base := by
  have small := c.isLt
  simp only [digit, Option.filter_eq_some_iff, decide_eq_true_eq]
  refine and_congr_left fun _ => ?_
  simp only [isdigit, isupper, islower, tolower, BitVec.le_def, decide_eq_true_eq,
    BitVec.ofNat_eq_ofNat, BitVec.toNat_ofNat, Stands]
  split_ifs with ten upper letter
  · simp only [Option.some.injEq]
    omega
  · have lower : (c + 32#8).toNat = c.toNat + 32 := by
      rw [BitVec.toNat_add, BitVec.toNat_ofNat]
      omega
    simp only [Option.some.injEq, lower]
    omega
  · simp only [Option.some.injEq]
    omega
  · simp only [false_iff]
    omega

theorem isxdigit_iff {c : Byte} : isxdigit c = true ↔ (digit 16 c).isSome := by
  revert c
  decide +kernel

/-! What the loop finds. -/

def digitsOf (base : Nat) (p : List Byte) : List Nat :=
  (p.takeWhile fun c => (digit base c).isSome).filterMap (digit base)

def afterDigits (base : Nat) (p : List Byte) : List Byte :=
  p.dropWhile fun c => (digit base c).isSome

def numeral (s : List Byte) (base : Nat) : Numeral :=
  let p := s.dropWhile isspace
  let start := radix base (if signed p then p.drop 1 else p)
  ⟨p[0]? = some 45, start.1, digitsOf start.1 start.2, afterDigits start.1 start.2⟩


section Longest

variable {body mark tail : List Byte} {ds : List Nat} {r : Nat}

theorem digitsOf_ne_nil {c : Byte} (found : (digit r c).isSome) (p : List Byte) :
    digitsOf r (c :: p) ≠ [] := by
  obtain ⟨d, found⟩ := Option.isSome_iff_exists.mp found
  simp [digitsOf, found]

theorem length_afterDigits_le (r : Nat) (p : List Byte) : (afterDigits r p).length ≤ p.length :=
  (List.dropWhile_suffix _).length_le

theorem digitsOf_spelled (r : Nat) (p : List Byte) :
    (p.takeWhile fun c => (digit r c).isSome).Forall₂ (fun c d => Stands c d ∧ d < r)
      (digitsOf r p) := by
  induction p with
  | nil => exact .nil
  | cons c p ih =>
    cases found : digit r c with
    | none => simp [digitsOf, found]
    | some d => simpa [digitsOf, found] using ⟨digit_eq_some_iff.mp found, ih⟩

theorem signed_spec (p : List Byte) : ∃ sign, p = sign ++ (if signed p then p.drop 1 else p) ∧
    (decide (p[0]? = some 45) = false ∧ (sign = [] ∨ sign = [43]) ∨
      decide (p[0]? = some 45) = true ∧ sign = [45]) := by
  rcases p with _ | ⟨c, p⟩
  · exact ⟨[], by simp [signed]⟩
  by_cases plus : c = 43
  · exact ⟨[43], by simp [signed, plus]⟩
  · by_cases minus : c = 45
    · exact ⟨[45], by simp [signed, minus]⟩
    · exact ⟨[], by simpa [signed] using ⟨plus, minus⟩⟩

theorem radix_spec (base : Nat) (p : List Byte) : ∃ mark, p = mark ++ (radix base p).2 ∧
    Mark base ((radix base p).2.takeWhile fun c => (digit (radix base p).1 c).isSome) mark
      (radix base p).1 := by
  unfold radix
  split
  next hex =>
    obtain ⟨allowed, zero, x, -⟩ := hex
    match p, zero, x with
    | _ :: y :: p, zero, x =>
      simp only [List.getElem?_cons_zero, List.getElem?_cons_succ, Option.some.injEq] at zero x
      exact ⟨[48, y], by simp [zero], .hex allowed x⟩
  next =>
    split
    next any =>
      refine ⟨[], rfl, ?_⟩
      split
      next zero =>
        refine .octal any ?_
        match p, zero with
        | c :: p, zero =>
          cases Option.some.inj zero
          have found : (digit 8 48#8).isSome := by decide
          simp [found]
      next other =>
        refine .decimal any fun zero => other ?_
        obtain ⟨small, eq⟩ := List.getElem?_eq_some_iff.mp zero
        exact (List.prefix_iff_getElem?.mp (List.takeWhile_prefix _) 0 small).trans (by rw [eq])
    next given => exact ⟨[], rfl, .given given⟩

theorem isSome_of_spelled (spelled : body.Forall₂ (fun c d => Stands c d ∧ d < r) ds) :
    ∀ c ∈ body, (digit r c).isSome := by
  induction spelled with
  | nil => simp
  | cons first _ ih =>
    exact List.forall_mem_cons.mpr
      ⟨Option.isSome_iff_exists.mpr ⟨_, digit_eq_some_iff.mpr first⟩, ih⟩

theorem digit_mark {x : Byte} (mark : x = 120 ∨ x = 88) (small : r ≤ 16) : digit r x = none := by
  refine Option.eq_none_iff_forall_ne_some.mpr fun d found => ?_
  obtain ⟨stands, lt⟩ := digit_eq_some_iff.mp found
  rcases mark with rfl | rfl <;> simp [Stands] at stands <;> omega

/-- From here the loop finds a digit and comes to the end of the string with at most `tail`. -/
def Reaches (tail : List Byte) (start : Nat × List Byte) : Prop :=
  digitsOf start.1 start.2 ≠ [] ∧ (afterDigits start.1 start.2).length ≤ tail.length

theorem reaches_of_isSome {c : Byte} (all : ∀ d ∈ c :: body, (digit r d).isSome) :
    Reaches tail (r, c :: body ++ tail) := by
  refine ⟨digitsOf_ne_nil (all c List.mem_cons_self) _, ?_⟩
  rw [afterDigits, List.dropWhile_append_of_pos all]
  exact length_afterDigits_le r tail

/-- A `0` that is read without its `x` is a shorter numeral. -/
theorem reaches_after_mark (all : ∀ c ∈ body, (digit r c).isSome) (small : r ≤ 16)
    (mark : (body ++ tail)[0]? = some 120 ∨ (body ++ tail)[0]? = some 88)
    (hex : (body ++ tail)[1]?.any isxdigit) : Reaches tail (16, (body ++ tail).drop 1) := by
  rcases body with _ | ⟨y, body⟩
  · rw [List.nil_append] at *
    match tail, hex with
    | _ :: h :: l, hex =>
      refine ⟨digitsOf_ne_nil (isxdigit_iff.mp (by simpa using hex)) l, ?_⟩
      exact (length_afterDigits_le _ _).trans (Nat.le_succ _)
  · have found := all y List.mem_cons_self
    rw [digit_mark (by simpa using mark) small] at found
    cases found

theorem reaches_unmarked {c : Byte} (all : ∀ d ∈ c :: body, (digit r d).isSome)
    (small : base = 0 ∨ base = 16 → r ≤ 16)
    (chosen : (if base = 0 then if c = 48 then 8 else 10 else base) = r) :
    Reaches tail (radix base (c :: body ++ tail)) := by
  have zero : (c :: body ++ tail)[0]? = some 48 ↔ c = 48 := by simp
  simp only [radix, zero]
  split
  next hex =>
    exact reaches_after_mark (List.forall_mem_cons.mp all).2 (small hex.1) hex.2.2.1 hex.2.2.2
  next =>
    rw [← Prod.mk.eta (p := ite ..), apply_ite Prod.fst, apply_ite Prod.snd, ite_self, chosen]
    exact reaches_of_isSome all

theorem reaches_of_mark (spelled : body.Forall₂ (fun c d => Stands c d ∧ d < r) ds)
    (marked : Mark base body mark r) (digits : body ≠ []) (tail : List Byte) :
    Reaches tail (radix base (mark ++ (body ++ tail))) := by
  have all := isSome_of_spelled spelled
  obtain ⟨c, body, rfl⟩ := List.exists_cons_of_ne_nil digits
  cases marked with
  | given nonzero =>
    exact reaches_unmarked all (fun either => (either.resolve_left nonzero).le) (if_neg nonzero)
  | octal any zero =>
    exact reaches_unmarked all (fun _ => by decide) (by simpa [any] using zero)
  | decimal any other =>
    exact reaches_unmarked all (fun _ => by decide) (by simpa [any] using other)
  | hex allowed x =>
    have first := isxdigit_iff.mpr (all c List.mem_cons_self)
    rw [radix, if_pos (by simpa [first] using ⟨allowed, x⟩)]
    exact reaches_of_isSome all

theorem isspace_iff {c : Byte} :
    isspace c = true ↔ c.toNat = 32 ∨ 9 ≤ c.toNat ∧ c.toNat ≤ 13 := by
  simp [isspace, BitVec.le_def, ← BitVec.toNat_inj]

theorem starts_with_digit (spelled : body.Forall₂ (fun c d => Stands c d ∧ d < r) ds)
    (marked : Mark base body mark r) (digits : body ≠ []) (tail : List Byte) :
    ∃ y l, mark ++ (body ++ tail) = y :: l ∧ 48 ≤ y.toNat := by
  obtain ⟨c, body, rfl⟩ := List.exists_cons_of_ne_nil digits
  obtain ⟨d, _, ⟨stands, -⟩, -⟩ := List.forall₂_cons_left_iff.mp spelled
  have first : 48 ≤ c.toNat := by
    unfold Stands at stands
    omega
  cases marked with
  | given | octal | decimal => exact ⟨c, _, rfl, first⟩
  | hex => exact ⟨48, _, rfl, by decide⟩

/-- What the code skips before the prefix. -/
theorem start_eq {blank sign l : List Byte} {y : Byte}
    (white : ∀ c ∈ blank, c.toNat = 32 ∨ 9 ≤ c.toNat ∧ c.toNat ≤ 13)
    (plain : sign = [] ∨ sign = [43] ∨ sign = [45]) (digit : 48 ≤ y.toNat) :
    let p := (blank ++ (sign ++ y :: l)).dropWhile isspace
    (if signed p then p.drop 1 else p) = y :: l := by
  have other : isspace y = false := by
    rw [← Bool.not_eq_true, isspace_iff]
    omega
  have notSign : signed (y :: l) = false := by
    simp only [signed, List.getElem?_cons_zero, Option.some.injEq, decide_eq_false_iff_not]
    rintro (rfl | rfl) <;> simp at digit
  rw [List.dropWhile_append_of_pos fun c mem => isspace_iff.mpr (white c mem)]
  have marks : isspace 43#8 = false ∧ isspace 45#8 = false := by decide
  rcases plain with rfl | rfl | rfl
  · simp [other, notSign]
  · simp [marks, signed]
  · simp [marks, signed]

theorem numeral_longest (s : List Byte) (base : Nat) : (numeral s base).Longest s base := by
  refine ⟨fun digits => ?_, ?_⟩
  · obtain ⟨sign, signEq, signOk⟩ := signed_spec (s.dropWhile isspace)
    obtain ⟨mark, markEq, marked⟩ := radix_spec base (if signed (s.dropWhile isspace) then
      (s.dropWhile isspace).drop 1 else s.dropWhile isspace)
    refine ⟨_, ?_, s.takeWhile isspace, sign, mark, _, rfl, ?_, signOk, marked, ?_,
      digitsOf_spelled _ _⟩
    · simp only [List.append_assoc, numeral, afterDigits]
      rw [List.takeWhile_append_dropWhile, ← markEq, ← signEq, List.takeWhile_append_dropWhile]
    · exact fun c mem => isspace_iff.mp (List.mem_takeWhile_imp mem)
    · intro none
      exact digits (by simp only [numeral, digitsOf, none, List.filterMap_nil])
  · rintro other text whole ⟨blank, sign, mark, body, rfl, white, signOk, marked, digits, spelled⟩
    have reaches := reaches_of_mark spelled marked digits other.rest
    obtain ⟨y, l, eq, digit⟩ := starts_with_digit spelled marked digits other.rest
    have start := start_eq (l := l) white (by tauto : sign = [] ∨ sign = [43] ∨ sign = [45]) digit
    rw [← eq] at start
    simp only [List.append_assoc] at whole
    simp only [numeral, whole, start]
    exact reaches

end Longest

theorem scan_end (p : List Byte) (v : Nat) (any overflow : Bool) :
    (scan base p v any overflow).rest = afterDigits base p ∧
    (scan base p v any overflow).any = (any || !(digitsOf base p).isEmpty) ∧
    (overflow = true → (scan base p v any overflow).overflow = true) := by
  fun_induction scan base p v any overflow with
  | case1 => simp [afterDigits, digitsOf]
  | case2 _ _ _ _ _ found => simp [afterDigits, digitsOf, found]
  | case3 _ _ _ _ _ _ found _ ih =>
    obtain ⟨rest, some, still⟩ := ih
    exact ⟨by simpa [afterDigits, found] using rest, by simpa [digitsOf, found] using some,
      fun _ => still rfl⟩
  | case4 _ _ _ _ _ _ found _ ih => simpa [afterDigits, digitsOf, found] using ih

theorem le_foldl (pos : 0 < base) (ds : List Nat) (v : Nat) :
    v ≤ ds.foldl (fun v d => d + base * v) v := by
  induction ds generalizing v with
  | nil => exact le_rfl
  | cons d ds ih => exact le_trans (le_add_left (Nat.le_mul_of_pos_left v pos)) (ih _)

theorem scan_value (pos : 0 < base) (small : base ≤ ULONG_MAX) (p : List Byte) {v : Nat}
    (fits : v ≤ ULONG_MAX) (any : Bool) : ((scan base p v any false).overflow = true ↔
      ULONG_MAX < (digitsOf base p).foldl (fun v d => d + base * v) v) ∧
    ((scan base p v any false).overflow = false →
      (scan base p v any false).value = (digitsOf base p).foldl (fun v d => d + base * v) v) := by
  induction p generalizing v any with
  | nil => simp [scan, digitsOf, fits]
  | cons c p ih =>
    cases found : digit base c with
    | none => simp [scan, digitsOf, found, fits]
    | some d =>
      have bound := (digit_eq_some_iff.mp found).2
      have row : digitsOf base (c :: p) = d :: digitsOf base p := by simp [digitsOf, found]
      have large : (ULONG_MAX - d) / base < v ↔ ULONG_MAX < d + base * v := by
        rw [Nat.div_lt_iff_lt_mul pos, Nat.mul_comm v]
        omega
      simp only [scan, found, row, List.foldl_cons, large]
      split
      next tooLarge =>
        have still : (scan base p v true true).overflow = true := (scan_end p v true true).2.2 rfl
        have more := le_foldl pos (digitsOf base p) (d + base * v)
        exact ⟨iff_of_true still (by omega), fun none => by simp [still] at none⟩
      next within =>
        rw [show v * base + d = d + base * v by rw [Nat.mul_comm, Nat.add_comm]]
        exact ih (by omega) true

theorem radix_bounds (valid : base = 0 ∨ 2 ≤ base ∧ base ≤ 36) (p : List Byte) :
    0 < (radix base p).1 ∧ (radix base p).1 ≤ ULONG_MAX := by
  unfold radix ULONG_MAX
  split
  · simp
  split
  · split <;> simp
  · simp only
    omega

theorem magnitude_eq (n : Numeral) :
    n.magnitude = n.digits.foldl (fun v d => d + n.base * v) 0 := by
  rw [Numeral.magnitude, Nat.ofDigits_eq_foldr, List.foldr_reverse]
  rfl

theorem strtoul_eq (s : List Byte) (valid : base = 0 ∨ 2 ≤ base ∧ base ≤ 36) :
    strtoul s base = (numeral s base).toUnsigned s := by
  rw [Numeral.toUnsigned, magnitude_eq]
  simp only [strtoul, numeral, decide_eq_true_eq]
  generalize (if signed (s.dropWhile isspace) then (s.dropWhile isspace).drop 1
    else s.dropWhile isspace) = p
  obtain ⟨pos, small⟩ := radix_bounds valid p
  generalize radix base p = start at *
  obtain ⟨atEnd, some, -⟩ := scan_end start.2 0 false false
  obtain ⟨tooLarge, exact⟩ := scan_value pos small start.2 (Nat.zero_le _) false
  rw [atEnd, some]
  by_cases none : digitsOf start.1 start.2 = []
  · have fine : (scan start.1 start.2 0 false false).overflow = false := by
      simpa [none] using tooLarge
    simp [none, fine, exact fine]
  by_cases fits : (digitsOf start.1 start.2).foldl (fun v d => d + start.1 * v) 0 ≤ ULONG_MAX
  · have fine : (scan start.1 start.2 0 false false).overflow = false := by
      rw [← Bool.not_eq_true, tooLarge]
      exact Nat.not_lt.mpr fits
    simp [none, fine, exact fine, fits]
  · simp [none, tooLarge.mpr (Nat.lt_of_not_le fits), fits]

/-- `strtoul` on every string. A `0x` without a digit after it is the numeral `0`. -/
theorem strtoul_correct (s : List Byte) (valid : base = 0 ∨ 2 ≤ base ∧ base ≤ 36) :
    ∃ n : Numeral, n.Longest s base ∧ strtoul s base = n.toUnsigned s ∧
      ∀ x rest, s = 48 :: x :: rest → x = 120 ∨ x = 88 →
        (∀ c d, rest[0]? = some c → Stands c d → 16 ≤ d) → base = 0 ∨ base = 16 →
        n.digits = [0] ∧ n.rest = x :: rest := by
  refine ⟨numeral s base, numeral_longest s base, strtoul_eq s valid, ?_⟩
  rintro x rest rfl mark none base16
  have octal : digit 8 48#8 = some 0 ∧ digit 16 48#8 = some 0 := by decide
  have blank : isspace 48#8 = false := by decide
  have bare : rest[0]?.any isxdigit = false := by
    rw [← Bool.not_eq_true, Option.any_eq_true]
    rintro ⟨c, first, hex⟩
    obtain ⟨d, found⟩ := Option.isSome_iff_exists.mp (isxdigit_iff.mp hex)
    obtain ⟨stands, small⟩ := digit_eq_some_iff.mp found
    exact absurd small (Nat.not_lt.mpr (none c d first stands))
  rcases base16 with rfl | rfl <;>
    simp [numeral, signed, radix, bare, blank, digitsOf, afterDigits, octal,
      digit_mark mark (r := 8) (by decide), digit_mark mark (r := 16) (by decide)]

theorem strtoul_of_hex :
    strtoul [32, 45, 48, 120, 49, 102, 59] 0 = ⟨2 ^ 64 - 31, [59], false⟩ ∧
    ∃ n : Numeral, n.Longest [32, 45, 48, 120, 49, 102, 59] 0 ∧
      n.toUnsigned [32, 45, 48, 120, 49, 102, 59] = ⟨2 ^ 64 - 31, [59], false⟩ := by
  obtain ⟨n, longest, eq, -⟩ := strtoul_correct [32, 45, 48, 120, 49, 102, 59] (.inl rfl)
  have value : strtoul [32, 45, 48, 120, 49, 102, 59] 0 = ⟨2 ^ 64 - 31, [59], false⟩ := by
    decide +kernel
  exact ⟨value, n, longest, eq ▸ value⟩

theorem strtol_of_plain {s : List Byte} (valid : base = 0 ∨ 2 ≤ base ∧ base ≤ 36)
    (positive : (numeral s base).negative = false) :
    strtol s base = (numeral s base).toSigned s := by
  have plain : ¬(s.dropWhile isspace)[0]? = some 45 := by simpa [numeral] using positive
  have wide : LONG_MAX < ULONG_MAX := by decide
  simp only [strtol, if_neg plain, strtoul_eq s valid, Numeral.toUnsigned, Numeral.toSigned,
    positive]
  generalize (numeral s base).magnitude = v
  have low : (-1 : Int) ≤ v + LONG_MAX := by omega
  by_cases none : (numeral s base).digits = []
  · simp [none]
  by_cases long : v ≤ LONG_MAX
  · simp [none, low, long, long.trans wide.le, Nat.not_lt.mpr long]
  · by_cases fits : v ≤ ULONG_MAX
    · simp [none, long, fits, Nat.lt_of_not_le long]
    · simp [none, long, fits, wide]

theorem strtol_of_minus {s : List Byte} (valid : base = 0 ∨ 2 ≤ base ∧ base ≤ 36)
    (negative : (numeral s base).negative = true) :
    strtol s base = (numeral s base).toSigned s ↔ (numeral s base).digits = [] ∨
      (numeral s base).magnitude = 0 ∨ (numeral s base).magnitude = LONG_MAX + 1 ∨
      ULONG_MAX < (numeral s base).magnitude := by
  have minus : (s.dropWhile isspace)[0]? = some 45 := by simpa [numeral] using negative
  simp only [strtol, if_pos minus, strtoul_eq s valid, Numeral.toUnsigned, Numeral.toSigned,
    negative]
  generalize (numeral s base).magnitude = v
  by_cases none : (numeral s base).digits = []
  · simp [none]
  have long : LONG_MAX = 2 ^ 63 - 1 := rfl
  by_cases large : ULONG_MAX < v
  · have out : (LONG_MAX : Int) + 1 < v := by
      have : ULONG_MAX = 2 ^ 64 - 1 := rfl
      omega
    simp [none, large, out, Nat.not_le.mpr large, (by decide : LONG_MAX + 1 < ULONG_MAX)]
  by_cases zero : v = 0
  · simp [none, zero]
  have fits := Nat.not_lt.mp large
  have ulong : v ≤ 2 ^ 64 - 1 := fits
  obtain ⟨w, wrapped, sum⟩ : ∃ w, (2 ^ 64 - v) % 2 ^ 64 = w ∧ w + v = 2 ^ 64 := ⟨_, rfl, by omega⟩
  simp only [none, large, zero, fits, wrapped, if_true, if_false, false_or, or_false]
  split_ifs with above within within <;>
  · simp only [Converted.mk.injEq, reduceCtorEq, and_true, and_false, false_iff]
    omega

/-- Without a minus sign `strtol` is right on every string. After one it is right exactly if the
value is zero, the least one or too large even for `strtoul`. -/
theorem strtol_correct (s : List Byte) (valid : base = 0 ∨ 2 ≤ base ∧ base ≤ 36) :
    ∃ n : Numeral, n.Longest s base ∧ (strtol s base = n.toSigned s ↔
      n.negative = false ∨ n.digits = [] ∨ n.magnitude = 0 ∨ n.magnitude = LONG_MAX + 1 ∨
        ULONG_MAX < n.magnitude) := by
  refine ⟨numeral s base, numeral_longest s base, ?_⟩
  cases sign : (numeral s base).negative with
  | false => exact iff_of_true (strtol_of_plain valid sign) (.inl rfl)
  | true => simpa using strtol_of_minus valid sign

theorem strtol_of_large :
    strtol [49, 56, 52, 52, 54, 55, 52, 52, 48, 55, 51, 55, 48, 57, 53, 53, 49, 54, 49, 53] 10 =
      ⟨2 ^ 63 - 1, [], true⟩ ∧
    ∃ n : Numeral, n.Longest [45, 48, 56] 0 ∧ (strtol [45, 48, 56] 0 = n.toSigned [45, 48, 56] ↔
      n.negative = false ∨ n.digits = [] ∨ n.magnitude = 0 ∨ n.magnitude = LONG_MAX + 1 ∨
        ULONG_MAX < n.magnitude) :=
  ⟨by decide +kernel, strtol_correct _ (.inl rfl)⟩

/-- `-5` is out of range, and the negative of `ULONG_MAX` is not. -/
theorem strtol_of_negative :
    strtol [45, 53] 10 = ⟨-2 ^ 63, [], true⟩ ∧
    (∃ n : Numeral, n.Longest [45, 53] 10 ∧ n.toSigned [45, 53] = ⟨-5, [], false⟩) ∧
    strtol [45, 49, 56, 52, 52, 54, 55, 52, 52, 48, 55, 51, 55, 48, 57, 53, 53, 49, 54, 49, 53] 10 =
      ⟨-1, [], false⟩ :=
  ⟨by decide +kernel, ⟨_, numeral_longest _ _, by decide +kernel⟩, by decide +kernel⟩

end K1K.Libc
