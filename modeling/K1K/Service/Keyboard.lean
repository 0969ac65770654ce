import K1K.Lib.Memory
import K1K.Lib.Run

/-!
# The keyboard driver

`Decoder::feed` of `svc/kbd`, which `drain` calls for every scancode of set 1. A make code has
the top bit clear, a break code has it set; some keys send `0xE0` first, and around some of them
keyboards send shift codes with that prefix. A key held down repeats its make code.
-/

namespace K1K.Service.Kbd

open K1K.Lib
open Function (update update_of_ne update_self)

def bytes (text : String) : List Byte := text.toList.map fun c => BitVec.ofNat 8 c.toNat

def UNSHIFTED : List Byte :=
  bytes "\x00\x1b1234567890-=\x08\tqwertyuiop[]\n\x00asdfghjkl;'`\x00\\zxcvbnm,./\x00*\x00 "

def SHIFTED : List Byte :=
  bytes "\x00\x1b!@#$%^&*()_+\x08\tQWERTYUIOP\x7b\x7d\n\x00ASDFGHJKL:\"~\x00|ZXCVBNM<>?\x00*\x00 "

def LSHIFT : Byte := 0x2A
def RSHIFT : Byte := 0x36
def CAPS : Byte := 0x3A

structure Decoder where
  shift : Bool
  caps : Bool
  deriving DecidableEq

def isAsciiAlphabetic (c : Byte) : Bool := 65 ≤ c ∧ c ≤ 90 ∨ 97 ≤ c ∧ c ≤ 122

/-- `feed`, with the character it sends. -/
def Decoder.feed (dec : Decoder) (sc : Byte) : Decoder × Option Byte :=
  let released := sc &&& 0x80 != 0
  let code := sc &&& 0x7F
  if code = LSHIFT ∨ code = RSHIFT then ({ dec with shift := !released }, none)
  else if code = CAPS ∧ !released then ({ dec with caps := !dec.caps }, none)
  else if released then (dec, none)
  else
    match (if dec.shift then SHIFTED else UNSHIFTED)[code.toNat]? with
    | none => (dec, none)
    | some ch =>
      if ch = 0 then (dec, none)
      else (dec, some (if dec.caps && isAsciiAlphabetic ch then ch ^^^ 0x20 else ch))

def Decoder.feedAll (dec : Decoder) (codes : List Byte) : Decoder :=
  codes.foldl (fun dec sc => (dec.feed sc).1) dec

/-! ## The keyboard -/

structure Key where
  extended : Bool
  code : BitVec 7
  deriving DecidableEq

def leftShift : Key := ⟨false, 0x2A⟩
def rightShift : Key := ⟨false, 0x36⟩
def capsLock : Key := ⟨false, 0x3A⟩

/-- With a prefix, the driver takes the code for that of another key. -/
def Key.Imitates (k : Key) : Prop :=
  k.extended = true ∧ (k.code = 0x2A ∨ k.code = 0x36 ∨ k.code = 0x3A)

instance imitatesDecidable (k : Key) : Decidable k.Imitates := inferInstanceAs (Decidable (_ ∧ _))

def Key.codes (k : Key) (released : Bool) : List Byte :=
  (if k.extended then [0xE0] else []) ++ [BitVec.cons released k.code]

inductive Event where
  | press (k : Key)
  | again (k : Key)
  | release (k : Key)

/-- The keys that are down, how often caps lock went down, and the driver. -/
structure State where
  held : Key → Bool
  presses : Nat
  dec : Decoder

namespace State

def start : State := ⟨fun _ => false, 0, ⟨false, false⟩⟩

variable {s s' : State} {k : Key}

def step (s : State) : Event → Option State
  | .press k =>
    if s.held k then none
    else some ⟨update s.held k true, s.presses + if k = capsLock then 1 else 0,
      s.dec.feedAll (k.codes false)⟩
  | .again k => if s.held k then some { s with dec := s.dec.feedAll (k.codes false) } else none
  | .release k =>
    if s.held k then some { s with
      held := update s.held k false, dec := s.dec.feedAll (k.codes true) }
    else none

theorem feed_flags (dec : Decoder) (sc : Byte) : (dec.feed sc).1 =
    ⟨if sc &&& 0x7F = LSHIFT ∨ sc &&& 0x7F = RSHIFT then decide (sc &&& 0x80 = 0) else dec.shift,
      if sc &&& 0x7F = CAPS ∧ sc &&& 0x80 = 0 then !dec.caps else dec.caps⟩ := by
  obtain ⟨shift, caps⟩ := dec
  unfold Decoder.feed
  generalize sc &&& 0x7F = code
  generalize sc &&& 0x80 = top
  by_cases isShift : code = LSHIFT ∨ code = RSHIFT
  · have other : code ≠ CAPS := by rcases isShift with rfl | rfl <;> decide
    simp only [isShift, other, if_true, false_and, if_false]
    simp [bne, beq_eq_decide]
  by_cases isCaps : code = CAPS ∧ top = 0
  · simp only [isCaps, if_true, true_and]
    rfl
  · simp only [isShift, isCaps, if_false, Bool.not_eq_true', bne_eq_false_iff_eq]
    repeat' split
    all_goals rfl

theorem feedAll_codes (dec : Decoder) (k : Key) (released : Bool) : dec.feedAll (k.codes released) =
    ⟨if k.code = 0x2A ∨ k.code = 0x36 then !released else dec.shift,
      if k.code = 0x3A ∧ released = false then !dec.caps else dec.caps⟩ := by
  have bits : ∀ (released : Bool) (code : BitVec 7),
      (BitVec.cons released code &&& 0x7F = LSHIFT ↔ code = 0x2A) ∧
      (BitVec.cons released code &&& 0x7F = RSHIFT ↔ code = 0x36) ∧
      (BitVec.cons released code &&& 0x7F = CAPS ↔ code = 0x3A) ∧
      (BitVec.cons released code &&& 0x80 = 0 ↔ released = false) := by decide +kernel
  obtain ⟨left, right, caps, top⟩ := bits released k.code
  have only : dec.feedAll (k.codes released) = (dec.feed (BitVec.cons released k.code)).1 := by
    have prefixed : (dec.feed 0xE0).1 = dec := by rw [feed_flags]; rfl
    unfold Key.codes
    split
    · change ((dec.feed 0xE0).1.feed _).1 = _
      rw [prefixed]
    · rfl
  rw [only, feed_flags]
  simp only [left, right, caps, top]
  cases released <;> rfl

/-! ## The flags -/

/-- A shift key does not come up while the other one is down, no code of a shift key or
of caps lock follows a prefix, and caps lock is not held long enough to repeat. -/
def Plain (s : State) : Event → Prop
  | .press k => ¬k.Imitates
  | .again k => ¬k.Imitates ∧ k ≠ capsLock
  | .release k => ¬k.Imitates ∧ (k = leftShift → s.held rightShift = false) ∧
    (k = rightShift → s.held leftShift = false)

instance plainDecidable (s : State) : ∀ event, Decidable (s.Plain event)
  | .press _ => inferInstanceAs (Decidable (¬_))
  | .again _ => inferInstanceAs (Decidable (_ ∧ _))
  | .release _ => inferInstanceAs (Decidable (_ ∧ _ ∧ _))

structure Faithful (s : State) : Prop where
  shift : s.dec.shift = (s.held leftShift || s.held rightShift)
  caps : s.dec.caps = decide (s.presses % 2 = 1)

theorem codes_iff (plain : ¬k.Imitates) : (k.code = 0x2A ↔ k = leftShift) ∧
    (k.code = 0x36 ↔ k = rightShift) ∧ (k.code = 0x3A ↔ k = capsLock) := by
  obtain ⟨extended, code⟩ := k
  cases extended with
  | false => simp [leftShift, rightShift, capsLock]
  | true =>
    simp only [Key.Imitates, true_and, not_or] at plain
    simpa [leftShift, rightShift, capsLock] using plain

theorem Faithful.shift_codes (faithful : s.Faithful) (plain : ¬k.Imitates) (released : Bool)
    (left : released = true → k = leftShift → s.held rightShift = false)
    (right : released = true → k = rightShift → s.held leftShift = false) :
    (s.dec.feedAll (k.codes released)).shift =
      (update s.held k (!released) leftShift || update s.held k (!released) rightShift) := by
  obtain ⟨isLeft, isRight, -⟩ := codes_iff plain
  simp only [feedAll_codes, isLeft, isRight]
  have ne : leftShift ≠ rightShift := by decide
  by_cases atLeft : k = leftShift
  · subst atLeft
    rw [update_self, update_of_ne ne.symm]
    cases released with
    | false => rfl
    | true => simp [left rfl rfl]
  · rw [update_of_ne (Ne.symm atLeft)]
    by_cases atRight : k = rightShift
    · subst atRight
      rw [update_self]
      cases released with
      | false => simp
      | true => simp [right rfl rfl]
    · simp [atLeft, atRight, update_of_ne (Ne.symm atRight), faithful.shift]

theorem Faithful.step (faithful : s.Faithful) {event : Event} (plain : s.Plain event)
    (ran : s.step event = some s') : s'.Faithful := by
  cases event with
  | press k =>
    obtain ⟨-, ⟨⟩⟩ := Option.ite_none_left_eq_some.mp ran
    refine ⟨faithful.shift_codes plain false (by simp) (by simp), ?_⟩
    simp only [feedAll_codes, (codes_iff plain).2.2, faithful.caps]
    by_cases isCaps : k = capsLock
    · simp only [isCaps, if_true, true_and, ← decide_not, decide_eq_decide]
      omega
    · simp [isCaps]
  | again k =>
    obtain ⟨down, ⟨⟩⟩ := Option.ite_none_right_eq_some.mp ran
    have shift := faithful.shift_codes plain.1 false (by simp) (by simp)
    rw [Bool.not_false, ← down, Function.update_eq_self] at shift
    refine ⟨shift, ?_⟩
    simp only [feedAll_codes, (codes_iff plain.1).2.2, plain.2, faithful.caps, false_and, if_false]
  | release k =>
    obtain ⟨-, ⟨⟩⟩ := Option.ite_none_right_eq_some.mp ran
    refine ⟨faithful.shift_codes plain.1 true (fun _ => plain.2.1) fun _ => plain.2.2, ?_⟩
    simp [feedAll_codes, faithful.caps]

/-- After every event of a plain run the flags are right. -/
theorem shift_state_kept {events : List Event}
    (run : Run (Guarded Plain fun s event s' => s.step event = some s') start events s) :
    (s.dec.shift = true ↔ s.held leftShift = true ∨ s.held rightShift = true) ∧
    (s.dec.caps = true ↔ s.presses % 2 = 1) := by
  have faithful : s.Faithful := run.invariant Faithful ⟨rfl, rfl⟩ fun _ _ _ faithful ran =>
    faithful.step ran.1 ran.2
  rw [faithful.shift, faithful.caps]
  exact ⟨Bool.or_eq_true_iff, decide_eq_true_iff⟩

theorem shift_state_after_a_letter : ∃ s,
    Run (Guarded Plain fun s event s' => s.step event = some s') start
      [.press leftShift, .again leftShift, .press ⟨false, 0x1E⟩, .release ⟨false, 0x1E⟩,
        .press rightShift, .press ⟨true, 0x48⟩, .press capsLock] s ∧
    (s.dec.shift = true ↔ s.held leftShift = true ∨ s.held rightShift = true) ∧
    (s.dec.caps = true ↔ s.presses % 2 = 1) :=
  exists_guarded_of_replay (fun _ => True) (by decide +kernel) fun _ run _ => shift_state_kept run

/-- The left shift key is down after the right one came up; a prefixed shift code comes
without either; and caps lock is held until it repeats. -/
theorem shift_state_wrong :
    (∃ s, Run (fun s event s' => s.step event = some s') start
      [.press leftShift, .press rightShift, .release rightShift] s ∧
      s.dec.shift = false ∧ s.held leftShift = true) ∧
    (∃ s, Run (fun s event s' => s.step event = some s') start [.press ⟨true, 0x2A⟩] s ∧
      s.dec.shift = true ∧ s.held leftShift = false ∧ s.held rightShift = false) ∧
    ∃ s, Run (fun s event s' => s.step event = some s') start
      [.press capsLock, .again capsLock] s ∧ s.dec.caps = false ∧ s.presses = 1 :=
  ⟨exists_of_replay _ (by decide +kernel) fun _ _ facts => facts,
    exists_of_replay _ (by decide +kernel) fun _ _ facts => facts,
    exists_of_replay _ (by decide +kernel) fun _ _ facts => facts⟩

end State

end K1K.Service.Kbd
