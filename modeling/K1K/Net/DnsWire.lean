import K1K.Lib.Placed
import K1K.Net.Tcp

/-!
# DNS messages

The question that `resolve` of `user/svc/net/src/dns.rs` sends, the parser `answer`, and the
format of a response. `answer` looks at the identifier, two flags and the counts, and gives the
first A record of the answer section.
-/

namespace K1K.Net.Dns

open K1K.Lib

def ID : List Byte := [0x4B, 0x44]
def PORT : Nat := 40053

/-! ## The question -/

def dot : Byte := 0x2E

/-- One turn of the loop over the labels of the name, with what is written so far. -/
def putLabel (q label : List Byte) : Option (List Byte) :=
  if label = [] ∨ label.length > 63 ∨ q.length + label.length + 6 > 300 then none
  else some (q ++ BitVec.ofNat 8 label.length :: label)

def question (name : List Byte) : Option (List Byte) :=
  ((name.splitOn dot).foldlM putLabel (ID ++ [1, 0, 0, 1, 0, 0, 0, 0, 0, 0])).map
    (· ++ [0, 0, 1, 0, 1])

/-! ## The parser -/

def u16 (high low : Byte) : Nat := high.toNat * 256 + low.toNat

def skipName (r : List Byte) (i : Nat) : Option Nat :=
  if inside : i < r.length then
    let l := r[i]
    if l = 0 then some (i + 1)
    else if l &&& 0xC0 = 0xC0 then some (i + 2)
    else skipName r (i + 1 + l.toNat)
  else none
termination_by r.length - i

def skipQuestions (r : List Byte) : Nat → Nat → Option Nat
  | 0, i => some i
  | qd + 1, i => do
    let i ← skipName r i
    skipQuestions r qd (i + 4)

def toIp : List Byte → Option Ip
  | [a, b, c, d] => some (a ++ b ++ c ++ d)
  | _ => none

def firstAddress (r : List Byte) : Nat → Nat → Option Ip
  | 0, _ => none
  | an + 1, i => do
    let i ← skipName r i
    let hdr ← slice r i 10
    let rdlen := u16 (hdr.getD 8 0) (hdr.getD 9 0)
    if hdr.take 2 = [0, 1] ∧ (hdr.drop 2).take 2 = [0, 1] ∧ rdlen = 4 then
      (slice r (i + 10) 4).bind toIp
    else firstAddress r an (i + 10 + rdlen)

def answer (r : List Byte) : Option Ip :=
  if r.length < 12 ∨ r.take 2 ≠ ID ∨ r.getD 2 0 &&& 0x80 = 0 ∨ r.getD 3 0 &&& 15 ≠ 0 then none
  else
    let qd := u16 (r.getD 4 0) (r.getD 5 0)
    let an := u16 (r.getD 6 0) (r.getD 7 0)
    (skipQuestions r qd 12).bind (firstAddress r an)

/-! ## Responses -/

/-- A name as it stands in a message: labels, and then the root or a pointer to the
rest of the name. -/
structure Name where
  labels : List (List Byte)
  pointer : Option (Byte × Byte)

namespace Name

def encode (n : Name) : List Byte :=
  (n.labels.flatMap fun label => BitVec.ofNat 8 label.length :: label) ++
    match n.pointer with
    | none => [0]
    | some (high, low) => [0xC0 ||| high, low]

def WellFormed (n : Name) : Prop := ∀ label ∈ n.labels, label ≠ [] ∧ label.length ≤ 63

end Name

theorem skipName_of_get {r : List Byte} {i : Nat} {l : Byte} (found : r[i]? = some l) :
    skipName r i = if l = 0 then some (i + 1) else if l &&& 0xC0 = 0xC0 then some (i + 2)
      else skipName r (i + 1 + l.toNat) := by
  obtain ⟨lt, value⟩ := List.getElem?_eq_some_iff.mp found
  rw [skipName, dif_pos lt, value]

theorem pointer_byte (high : Byte) :
    0xC0 ||| high ≠ 0 ∧ (0xC0 ||| high) &&& 0xC0 = (0xC0 : Byte) := by
  revert high
  decide +kernel

theorem length_byte {len : Nat} (pos : 0 < len) (short : len ≤ 63) :
    BitVec.ofNat 8 len ≠ 0 ∧ BitVec.ofNat 8 len &&& 0xC0 ≠ (0xC0 : Byte) ∧
      (BitVec.ofNat 8 len).toNat = len := by
  interval_cases len <;> decide

theorem skipName_eq {r : List Byte} {i : Nat} {n : Name} (wf : n.WellFormed)
    (placed : Placed r i n.encode) : skipName r i = some (i + n.encode.length) := by
  obtain ⟨labels, pointer⟩ := n
  induction labels generalizing i with
  | nil =>
    cases pointer with
    | none =>
      rw [skipName_of_get placed.head, if_pos rfl]
      rfl
    | some p =>
      obtain ⟨high, low⟩ := p
      obtain ⟨nonzero, marked⟩ := pointer_byte high
      rw [skipName_of_get placed.head, if_neg nonzero, if_pos marked]
      rfl
  | cons label labels ih =>
    obtain ⟨nonempty, short⟩ := wf label (by simp)
    obtain ⟨nonzero, plain, value⟩ := length_byte (List.length_pos_of_ne_nil nonempty) short
    have shape : Name.encode ⟨label :: labels, pointer⟩ =
        BitVec.ofNat 8 label.length :: (label ++ Name.encode ⟨labels, pointer⟩) := by
      simp [Name.encode]
    rw [shape] at placed ⊢
    have rest := ih (fun other mem => wf other (by simp [mem])) placed.tail.right
    rw [skipName_of_get placed.head, if_neg nonzero, if_neg plain, value, rest]
    simp only [List.length_cons, List.length_append]
    congr 1
    omega

def be16 (n : Nat) : List Byte := [BitVec.ofNat 8 (n / 256), BitVec.ofNat 8 n]

theorem u16_be16 {n : Nat} (small : n < 2 ^ 16) :
    u16 (BitVec.ofNat 8 (n / 256)) (BitVec.ofNat 8 n) = n := by
  simp only [u16, BitVec.toNat_ofNat]
  omega

structure Record where
  name : Name
  type : Byte × Byte
  cls : Byte × Byte
  ttl : Byte × Byte × Byte × Byte
  data : List Byte

namespace Record

variable (rr : Record)

def header : List Byte :=
  [rr.type.1, rr.type.2, rr.cls.1, rr.cls.2, rr.ttl.1, rr.ttl.2.1, rr.ttl.2.2.1, rr.ttl.2.2.2] ++
    be16 rr.data.length

def encode : List Byte := rr.name.encode ++ (rr.header ++ rr.data)

structure WellFormed : Prop where
  name : rr.name.WellFormed
  data : rr.data.length < 2 ^ 16

def address : Option Ip :=
  if rr.type = (0, 1) ∧ rr.cls = (0, 1) ∧ rr.data.length = 4 then toIp rr.data else none

end Record

/-- A response: the second and third word of the header, the questions (of which only
the extent matters here), the answers, and what follows them. -/
structure Response where
  id : List Byte
  flags : Byte × Byte
  questions : List (Name × List Byte)
  answers : List Record
  counts : List Byte
  rest : List Byte

namespace Response

variable (r : Response)

def encode : List Byte :=
  r.id ++ ([r.flags.1, r.flags.2] ++ (be16 r.questions.length ++ (be16 r.answers.length ++
    (r.counts ++ ((r.questions.flatMap fun q => q.1.encode ++ q.2) ++
      ((r.answers.flatMap Record.encode) ++ r.rest))))))

structure WellFormed : Prop where
  id : r.id.length = 2
  counts : r.counts.length = 4
  few : r.questions.length < 2 ^ 16 ∧ r.answers.length < 2 ^ 16
  questions : ∀ q ∈ r.questions, q.1.WellFormed ∧ q.2.length = 4
  answers : ∀ rr ∈ r.answers, rr.WellFormed

def addresses : List Ip := r.answers.filterMap Record.address

end Response

theorem skipQuestions_eq {r : List Byte} {questions : List (Name × List Byte)} {i : Nat}
    (wf : ∀ q ∈ questions, q.1.WellFormed ∧ q.2.length = 4)
    (placed : Placed r i (questions.flatMap fun q => q.1.encode ++ q.2)) :
    skipQuestions r questions.length i =
      some (i + (questions.flatMap fun q => q.1.encode ++ q.2).length) := by
  induction questions generalizing i with
  | nil => rfl
  | cons q rest ih =>
    obtain ⟨name, four⟩ := wf q (by simp)
    rw [List.flatMap_cons] at placed
    have next := ih (fun other mem => wf other (by simp [mem])) placed.right
    rw [List.length_cons, skipQuestions, skipName_eq name placed.left.left]
    simp only [Option.bind_eq_bind, Option.bind_some]
    rw [List.length_append, four, ← Nat.add_assoc] at next
    rw [next]
    simp only [List.flatMap_cons, List.length_append, four]
    congr 1
    omega

theorem toIp_isSome {data : List Byte} (four : data.length = 4) : (toIp data).isSome := by
  match data, four with
  | [_, _, _, _], _ => rfl

theorem firstAddress_cons {r : List Byte} {rr : Record} {i : Nat} (wf : rr.WellFormed)
    (placed : Placed r i rr.encode) (an : Nat) : firstAddress r (an + 1) i =
      match rr.address with
      | some ip => some ip
      | none => firstAddress r an (i + rr.encode.length) := by
  have header := placed.right.left.slice_eq (by simp [Record.header])
  have rdlen : u16 (rr.header.getD 8 0) (rr.header.getD 9 0) = rr.data.length := u16_be16 wf.data
  have typed : (rr.header.take 2 = [0, 1] ∧ (rr.header.drop 2).take 2 = [0, 1] ∧
      rr.data.length = 4) ↔ (rr.type = (0, 1) ∧ rr.cls = (0, 1) ∧ rr.data.length = 4) := by
    simp [Record.header, be16, Prod.ext_iff]
  have pos : i + rr.name.encode.length + rr.header.length + rr.data.length =
      i + rr.encode.length := by
    simp only [Record.encode, List.length_append]
    omega
  rw [firstAddress, skipName_eq wf.name placed.left]
  change ((slice r (i + rr.name.encode.length) 10).bind _) = _
  rw [show 10 = rr.header.length from rfl, header, Option.bind_some]
  simp only [rdlen, typed, Record.address]
  split
  next holds =>
    have data := placed.right.right.slice_eq (by
      rintro empty
      simp [empty] at holds)
    obtain ⟨ip, found⟩ := Option.isSome_iff_exists.mp (toIp_isSome holds.2.2)
    rw [holds.2.2] at data
    rw [data, Option.bind_some, found]
  next => rw [pos]

theorem firstAddress_eq {r : List Byte} {answers : List Record} {i : Nat}
    (wf : ∀ rr ∈ answers, rr.WellFormed) (placed : Placed r i (answers.flatMap Record.encode)) :
    firstAddress r answers.length i = (answers.filterMap Record.address).head? := by
  induction answers generalizing i with
  | nil => rfl
  | cons rr rest ih =>
    rw [List.flatMap_cons] at placed
    have next := ih (fun other mem => wf other (by simp [mem])) placed.right
    rw [List.length_cons, firstAddress_cons (wf rr (by simp)) placed.left, next]
    rcases found : rr.address with _ | ip <;> simp [found]

namespace Response

def Accepted (r : Response) : Prop :=
  r.id = ID ∧ r.flags.1 &&& 0x80 ≠ 0 ∧ r.flags.2 &&& 15 = 0

instance accepted_decidable (r : Response) : Decidable r.Accepted :=
  inferInstanceAs (Decidable (_ ∧ _ ∧ _))

def header (r : Response) : List Byte :=
  r.id ++ ([r.flags.1, r.flags.2] ++ (be16 r.questions.length ++ (be16 r.answers.length ++
    r.counts)))

theorem encode_eq (r : Response) : r.encode = r.header ++
    ((r.questions.flatMap fun q => q.1.encode ++ q.2) ++
      ((r.answers.flatMap Record.encode) ++ r.rest)) := by
  simp [encode, header]

theorem answer_encode {r : Response} (wf : r.WellFormed) :
    answer r.encode = if r.Accepted then r.addresses.head? else none := by
  have twelve : r.header.length = 12 := by simp [header, be16, wf.id, wf.counts]
  have placed := placed_self r.encode
  nth_rewrite 2 [encode_eq] at placed
  have questions := skipQuestions_eq wf.questions placed.right.left
  have answers := firstAddress_eq wf.answers placed.right.right.left
  rw [twelve, Nat.zero_add] at questions answers
  obtain ⟨a, b, id⟩ := List.length_eq_two.mp wf.id
  have front : r.encode.take 2 = r.id := by simp [encode, id]
  have flags : r.encode.getD 2 0 = r.flags.1 ∧ r.encode.getD 3 0 = r.flags.2 := by simp [encode, id]
  have qd : u16 (r.encode.getD 4 0) (r.encode.getD 5 0) = r.questions.length := by
    simpa [encode, id, be16] using u16_be16 wf.few.1
  have an : u16 (r.encode.getD 6 0) (r.encode.getD 7 0) = r.answers.length := by
    simpa [encode, id, be16] using u16_be16 wf.few.2
  have long : ¬r.encode.length < 12 := by
    rw [encode_eq, List.length_append, twelve]
    omega
  rw [answer, front, flags.1, flags.2]
  by_cases accepted : r.Accepted
  · rw [if_pos accepted, if_neg (by
      rintro (short | other | query | failed)
      · exact long short
      · exact other accepted.1
      · exact accepted.2.1 query
      · exact failed accepted.2.2)]
    simp only [qd, an, questions, Option.bind_some]
    exact answers
  · rw [if_neg accepted, if_pos]
    by_contra all
    simp only [not_or, not_not] at all
    exact accepted ⟨all.2.1, all.2.2.1, all.2.2.2⟩

end Response

end K1K.Net.Dns
