import K1K.Net.DnsWire

/-!
# DNS messages in their buffers

`resolve` writes its question into 300 bytes. `answer` is given here once more with the
indices of the source; `none` is an index out of range.
-/

namespace K1K.Net.Dns

open K1K.Lib

def firstAddressChecked (r : List Byte) : Nat → Nat → Option (Option Ip)
  | 0, _ => some none
  | an + 1, i =>
    match skipName r i with
    | none => some none
    | some i =>
      match slice r i 10 with
      | none => some none
      | some hdr =>
        hdr[8]?.bind fun high => hdr[9]?.bind fun low =>
          (slice hdr 0 2).bind fun type => (slice hdr 2 2).bind fun cls =>
            if type = [0, 1] ∧ cls = [0, 1] ∧ u16 high low = 4 then
              some ((slice r (i + 10) 4).bind toIp)
            else firstAddressChecked r an (i + 10 + u16 high low)

def answerChecked (r : List Byte) : Option (Option Ip) :=
  if r.length < 12 then some none
  else
    (slice r 0 2).bind fun id => r[2]?.bind fun b => r[3]?.bind fun c =>
      if id ≠ ID ∨ b &&& 0x80 = 0 ∨ c &&& 15 ≠ 0 then some none
      else
        r[4]?.bind fun q₁ => r[5]?.bind fun q₀ => r[6]?.bind fun a₁ => r[7]?.bind fun a₀ =>
          match skipQuestions r (u16 q₁ q₀) 12 with
          | none => some none
          | some i => firstAddressChecked r (u16 a₁ a₀) i

theorem getElem?_getD {r : List Byte} {i : Nat} (lt : i < r.length) :
    r[i]? = some (r.getD i 0) := by
  simp [List.getD, lt]

theorem firstAddressChecked_eq (r : List Byte) (an i : Nat) :
    firstAddressChecked r an i = some (firstAddress r an i) := by
  induction an generalizing i with
  | zero => rfl
  | succ an ih =>
    rw [firstAddressChecked, firstAddress]
    cases skipName r i with
    | none => rfl
    | some i =>
      cases header : slice r i 10 with
      | none => simp [header]
      | some hdr =>
        have ten : hdr.length = 10 := by
          obtain ⟨lt, ⟨⟩⟩ := Option.ite_none_right_eq_some.mp header
          rw [List.length_take, List.length_drop]
          omega
        have type : slice hdr 0 2 = some (hdr.take 2) := by simp [slice, ten]
        have cls : slice hdr 2 2 = some ((hdr.drop 2).take 2) := by simp [slice, ten]
        simp only [getElem?_getD (show 8 < hdr.length by omega),
          getElem?_getD (show 9 < hdr.length by omega), type, cls, header, ih,
          Option.bind_eq_bind, Option.bind_some]
        split <;> rfl

theorem answerChecked_eq (r : List Byte) : answerChecked r = some (answer r) := by
  unfold answerChecked answer
  by_cases short : r.length < 12
  · simp [short]
  have id : slice r 0 2 = some (r.take 2) := by rw [slice, if_pos (by omega), List.drop_zero]
  have byte : ∀ i < 8, r[i]? = some (r.getD i 0) := fun i low => getElem?_getD (by omega)
  simp only [short, if_false, false_or, id, byte 2, byte 3, byte 4, byte 5, byte 6, byte 7,
    Nat.reduceLT, Option.bind_some]
  split
  · rfl
  · cases skipQuestions r (u16 (r.getD 4 0) (r.getD 5 0)) 12 with
    | none => rfl
    | some i => exact firstAddressChecked_eq ..

theorem putLabel_eq {q label next : List Byte} (put : putLabel q label = some next) :
    label ≠ [] ∧ label.length ≤ 63 ∧ next = q ++ BitVec.ofNat 8 label.length :: label ∧
      next.length ≤ 295 := by
  obtain ⟨fits, ⟨⟩⟩ := Option.ite_none_left_eq_some.mp put
  simp only [not_or, Nat.not_lt] at fits
  refine ⟨fits.1, fits.2.1, rfl, ?_⟩
  rw [List.length_append, List.length_cons]
  omega

theorem putLabels_eq {labels : List (List Byte)} {q next : List Byte}
    (put : labels.foldlM putLabel q = some next) (fits : q.length ≤ 295) :
    next = q ++ (labels.flatMap fun label => BitVec.ofNat 8 label.length :: label) ∧
      next.length ≤ 295 ∧ ∀ label ∈ labels, label ≠ [] ∧ label.length ≤ 63 := by
  induction labels generalizing q with
  | nil =>
    cases put
    simpa using fits
  | cons label labels ih =>
    obtain ⟨middle, first, later⟩ := Option.bind_eq_some_iff.mp put
    obtain ⟨nonempty, short, rfl, room⟩ := putLabel_eq first
    obtain ⟨rfl, room, others⟩ := ih later room
    exact ⟨by simp, room, List.forall_mem_cons.mpr ⟨⟨nonempty, short⟩, others⟩⟩

/-- The question has the labels of the name and fits its buffer; no response leads `answer` out of
it; and from a well-formed one it takes the first address. -/
theorem dns_messages_right :
    (∀ name q, question name = some q →
      (Name.mk (name.splitOn dot) none).WellFormed ∧ q.length ≤ 300 ∧
      q = ID ++ [1, 0, 0, 1, 0, 0, 0, 0, 0, 0] ++ (Name.mk (name.splitOn dot) none).encode ++
        [0, 1, 0, 1]) ∧
    (∀ r, answerChecked r = some (answer r)) ∧
    ∀ r : Response, r.WellFormed → r.Accepted → answer r.encode = r.addresses.head? := by
  refine ⟨fun name q asked => ?_, answerChecked_eq, fun r wf accepted => ?_⟩
  · obtain ⟨front, put, rfl⟩ := Option.map_eq_some_iff.mp asked
    obtain ⟨rfl, room, labels⟩ := putLabels_eq put (by decide)
    refine ⟨labels, ?_, by simp [Name.encode]⟩
    rw [List.length_append]
    exact Nat.add_le_add_right room 5
  · rw [Response.answer_encode wf, if_pos accepted]

theorem dns_question_for_a_b :
    question [0x61, dot, 0x62] = some (ID ++ [1, 0, 0, 1, 0, 0, 0, 0, 0, 0] ++
      (Name.mk ([0x61, dot, 0x62].splitOn dot) none).encode ++ [0, 1, 0, 1]) ∧
    let here : Name := ⟨[], some (0, 12)⟩
    let r : Response := ⟨ID, (0x81, 0x80), [(⟨[[0x61], [0x62]], none⟩, [0, 1, 0, 1])],
      [⟨here, (0, 5), (0, 1), (0, 0, 0, 9), [0]⟩,
        ⟨here, (0, 1), (0, 1), (0, 0, 0, 9), [10, 0, 2, 3]⟩], [0, 0, 0, 0], []⟩
    answer r.encode = toIp [10, 0, 2, 3] := by
  constructor
  · have asked : (question [0x61, dot, 0x62]).isSome := by decide +kernel
    obtain ⟨q, asked⟩ := Option.isSome_iff_exists.mp asked
    exact asked.trans (congrArg some (dns_messages_right.1 _ q asked).2.2)
  intro here r
  have plain : here.WellFormed := nofun
  have answers : ∀ rr ∈ r.answers, rr.WellFormed := by
    simp only [r, List.forall_mem_cons]
    exact ⟨⟨plain, by decide⟩, ⟨plain, by decide⟩, by simp⟩
  exact dns_messages_right.2.2 r
    ⟨rfl, rfl, by decide, by simp [r, Name.WellFormed], answers⟩ (by decide)

end K1K.Net.Dns
