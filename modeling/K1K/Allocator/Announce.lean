import K1K.Allocator.FrameSupply

/-!
# Announcing the pages of the kernel heap

`FrameSupply::supply` leaves the range it mapped in `HEAP_TO_FLUSH`, and `flush_growth` takes it
out by two swaps for `flush_shared_range`. A context is a task or an interrupt handler on any
CPU; `with` up to the end of its critical section runs under the heap's lock, the rest
interleaves.

`settled`: some `flush_growth` with interrupts on has completed, with no growth since it began
and none under way.
-/

namespace K1K.Allocator

open K1K.Lib
open Function (update update_of_ne update_self)

/-- Where a context is in `with`. The flag says whether interrupts were on at its start, `began`
how many growths there were when `flush_growth` began. -/
inductive Place where
  | idle
  | inside (on : Bool)
  | flushing (began : Nat)
  | started (began start : Nat)
  | taken (began start stop : Nat)
  deriving DecidableEq, Repr

def Place.takes : Place → Bool
  | .started _ _ => true
  | .taken _ _ _ => true
  | _ => false

/-- How far the growth of the context under the lock is: its pages are mapped from
`base` on, and then the word for the end is written. -/
inductive Progress where
  | still
  | mapped (base : Nat)
  | ended (base : Nat)
  deriving DecidableEq, Repr

/-- The heap's window with `HEAP_TO_FLUSH`, the ranges `mapped` by the supplier and those
`announced` to `flush_shared_range`. -/
structure Announcer (n : Nat) where
  top : Nat
  limit : Nat
  start : Nat
  stop : Nat
  lock : Option (Fin n)
  progress : Progress
  place : Fin n → Place
  mapped : List (Nat × Nat)
  announced : List (Nat × Nat)
  growths : Nat
  settled : Bool

namespace Announcer

inductive Action (n : Nat) where
  | enter (c : Fin n) (on : Bool)
  | grow (c : Fin n) (want : Nat)
  | storeEnd (c : Fin n)
  | storeStart (c : Fin n)
  | leave (c : Fin n)
  | swapStart (c : Fin n)
  | swapEnd (c : Fin n)
  | flush (c : Fin n)
  deriving DecidableEq, Repr

variable {n : Nat} (s : Announcer n)

def put (c : Fin n) (p : Place) : Announcer n :=
  { s with place := Function.update s.place c p }

def enter (c : Fin n) (on : Bool) : Option (Announcer n) :=
  if s.place c = .idle ∧ s.lock = none then some { s.put c (.inside on) with lock := some c }
  else none

def grow (c : Fin n) (want : Nat) : Option (Announcer n) :=
  if s.lock = some c ∧ s.progress = .still ∧ PAGE ≤ s.limit - s.top then
    let bytes := FrameSupply.growth want (s.limit - s.top)
    some { s with
      top := s.top + bytes
      progress := .mapped s.top
      mapped := (s.top, s.top + bytes) :: s.mapped
      settled := false }
  else none

def storeEnd (c : Fin n) : Option (Announcer n) :=
  match s.progress with
  | .mapped base =>
    if s.lock = some c then some { s with stop := s.top, progress := .ended base } else none
  | _ => none

def storeStart (c : Fin n) : Option (Announcer n) :=
  match s.progress with
  | .ended base =>
    if s.lock = some c then
      some { s with start := base, progress := .still, growths := s.growths + 1 }
    else none
  | _ => none

def leave (c : Fin n) : Option (Announcer n) :=
  match s.place c with
  | .inside on =>
    if s.lock = some c ∧ s.progress = .still then
      some { s.put c (if on then .flushing s.growths else .idle) with lock := none }
    else none
  | _ => none

def swapStart (c : Fin n) : Option (Announcer n) :=
  match s.place c with
  | .flushing began => some { s.put c (.started began s.start) with start := 0 }
  | _ => none

def complete (c : Fin n) (began : Nat) : Announcer n :=
  { s.put c .idle with settled := s.settled || decide (began = s.growths ∧ s.progress = .still) }

def swapEnd (c : Fin n) : Option (Announcer n) :=
  match s.place c with
  | .started began start =>
    if s.stop ≠ 0 then some { s.put c (.taken began start s.stop) with stop := 0 }
    else some (s.complete c began)
  | _ => none

def flush (c : Fin n) : Option (Announcer n) :=
  match s.place c with
  | .taken began start stop =>
    some ({ s with announced := (start, stop) :: s.announced }.complete c began)
  | _ => none

def step : Action n → Option (Announcer n)
  | .enter c on => s.enter c on
  | .grow c want => s.grow c want
  | .storeEnd c => s.storeEnd c
  | .storeStart c => s.storeStart c
  | .leave c => s.leave c
  | .swapStart c => s.swapStart c
  | .swapEnd c => s.swapEnd c
  | .flush c => s.flush c

/-- The heap after `heap::init`, which maps and announces the first part of the window
itself if it can. -/
def booted (n : Nat) (mapped : Bool) : Announcer n where
  top := if mapped then HEAP_START + HEAP_AT_BOOT else HEAP_START
  limit := HEAP_START + HEAP_RESERVE
  start := 0
  stop := 0
  lock := none
  progress := .still
  place _ := .idle
  mapped := []
  announced := []
  growths := 0
  settled := false

def Inside (ranges : List (Nat × Nat)) (address : Nat) : Prop :=
  ∃ r ∈ ranges, r.1 ≤ address ∧ address < r.2

/-- A growth finds no range waiting, and no two contexts are between taking the words and
passing their range on. -/
def Apart : Action n → Prop
  | .grow _ _ => s.stop = 0
  | .swapStart _ => ∀ d, (s.place d).takes = false
  | _ => True

/-! ## Where a range is -/

inductive Reached (r : Nat × Nat) : Prop where
  | announced (told : Nat × Nat) : told ∈ s.announced → told.1 ≤ r.1 → r.2 ≤ told.2 → Reached r
  | coming : s.progress = .mapped r.1 → r.2 = s.top → Reached r
  | waiting : s.stop ≠ 0 → r.2 ≤ s.stop → (∀ base, s.progress = .ended base → base ≤ r.1) →
      (∀ c began start, s.place c = .started began start → start ≤ r.1) →
      ((∀ c began start, s.place c ≠ .started began start) → s.start ≤ r.1) → Reached r
  | held (c : Fin n) (began start stop : Nat) : s.place c = .taken began start stop →
      start ≤ r.1 → r.2 ≤ stop → Reached r

def floor : Nat :=
  match s.progress with
  | .still => s.top
  | .mapped base => base
  | .ended base => base

structure Sound : Prop where
  positive : 0 < s.top
  bottom : s.floor ≤ s.top
  unlocked : s.lock = none → s.progress = .still
  start : s.start ≤ s.floor
  started : ∀ c began start, s.place c = .started began start → start ≤ s.floor
  quiet : ∀ base, s.progress = .mapped base → s.stop = 0
  alone : ∀ c d, (s.place c).takes = true → (s.place d).takes = true → c = d
  flushing : ∀ c began, s.place c = .flushing began → began ≤ s.growths
  before : ∀ c began start, s.place c = .started began start → began ≤ s.growths
  taken : ∀ c began start stop, s.place c = .taken began start stop →
    began ≤ s.growths ∧ (began = s.growths → s.progress = .still → s.stop = 0)
  reached : ∀ r ∈ s.mapped, s.Reached r
  settled : s.settled = true → ∀ r ∈ s.mapped, ∃ told ∈ s.announced, told.1 ≤ r.1 ∧ r.2 ≤ told.2

/-! ## Each step -/

variable {s : Announcer n} {s' : Announcer n} {c : Fin n}

theorem of_update {place : Fin n → Place} {d : Fin n} {p q : Place}
    (found : update place c p d = q) : d = c ∧ p = q ∨ place d = q := by
  by_cases eq : d = c
  · subst eq
    rw [update_self] at found
    exact .inl ⟨rfl, found⟩
  · rw [update_of_ne eq] at found
    exact .inr found

theorem Reached.moved {r : Nat × Nat} {p : Place} {lock : Option (Fin n)} (reached : s.Reached r)
    (was : (s.place c).takes = false) (after : p.takes = false) :
    { s.put c p with lock := lock }.Reached r := by
  cases reached with
  | announced told mem low high => exact .announced told mem low high
  | coming under finish => exact .coming under finish
  | waiting some_stop high ended started start =>
    refine .waiting some_stop high ended ?_ ?_
    · intro d began st found
      rcases of_update found with ⟨-, rfl⟩ | old
      · cases after
      · exact started d began st old
    · intro nobody
      refine start fun d began st old => nobody d began st ?_
      have other : d ≠ c := by
        rintro rfl
        rw [old] at was
        cases was
      exact (update_of_ne other ..).trans old
  | held d began st stop old low high =>
    have other : d ≠ c := by
      rintro rfl
      rw [old] at was
      cases was
    exact .held d began st stop ((update_of_ne other ..).trans old) low high

theorem Sound.moved {p : Place} {lock : Option (Fin n)} (sound : s.Sound)
    (before : (s.place c).takes = false) (after : p.takes = false)
    (began : ∀ k, p = .flushing k → k ≤ s.growths) (unlocked : lock = none → s.progress = .still) :
    { s.put c p with lock := lock }.Sound where
  positive := sound.positive
  bottom := sound.bottom
  unlocked := unlocked
  start := sound.start
  started := by
    intro d k st found
    rcases of_update found with ⟨-, rfl⟩ | old
    · cases after
    · exact sound.started d k st old
  quiet := sound.quiet
  alone := by
    intro d e first second
    have old : ∀ {f : Fin n}, (update s.place c p f).takes = true →
        (s.place f).takes = true := by
      intro f taking
      by_cases eq : f = c
      · subst eq
        rw [update_self, after] at taking
        cases taking
      · rwa [update_of_ne eq] at taking
    exact sound.alone d e (old first) (old second)
  flushing := by
    intro d k found
    rcases of_update found with ⟨-, eq⟩ | old
    · exact began k eq
    · exact sound.flushing d k old
  before := by
    intro d k st found
    rcases of_update found with ⟨-, rfl⟩ | old
    · cases after
    · exact sound.before d k st old
  taken := by
    intro d k st stop found
    rcases of_update found with ⟨-, rfl⟩ | old
    · cases after
    · exact sound.taken d k st stop old
  reached r member := (sound.reached r member).moved before after
  settled := sound.settled

theorem Sound.enter {on : Bool} (sound : s.Sound) (ran : s.enter c on = some s') : s'.Sound := by
  rw [Announcer.enter] at ran
  split at ran
  next free =>
    cases ran
    refine sound.moved ?_ rfl (by rintro k ⟨⟩) (by rintro ⟨⟩)
    rw [free.1]
    rfl
  next => cases ran

theorem Sound.leave (sound : s.Sound) (ran : s.leave c = some s') : s'.Sound := by
  rw [Announcer.leave] at ran
  split at ran
  next on here =>
    split at ran
    next ready =>
      cases ran
      refine sound.moved (by rw [here]; rfl) ?_ ?_ fun _ => ready.2
      · cases on <;> rfl
      intro k eq
      cases on with
      | false => cases eq
      | true =>
        cases eq
        exact le_rfl
    next => cases ran
  next => cases ran

theorem Sound.grow {want : Nat} (sound : s.Sound) (apart : s.Apart (.grow c want))
    (ran : s.grow c want = some s') : s'.Sound := by
  rw [Announcer.grow] at ran
  split at ran
  next free =>
    cases ran
    have empty : s.stop = 0 := apart
    have floor : s.floor = s.top := by rw [Announcer.floor, free.2.1]
    refine ⟨Nat.add_pos_left sound.positive _, Nat.le_add_right _ _, ?_, ?_, ?_, fun _ _ => empty,
      sound.alone, sound.flushing, sound.before, ?_, ?_, by rintro ⟨⟩⟩
    · intro unlocked
      rw [free.1] at unlocked
      cases unlocked
    · exact floor ▸ sound.start
    · exact floor ▸ sound.started
    · intro d k st stop found
      exact ⟨(sound.taken d k st stop found).1, fun _ => by rintro ⟨⟩⟩
    · intro r mem
      rcases List.mem_cons.mp mem with rfl | old
      · exact .coming rfl rfl
      cases sound.reached r old with
      | announced told mem low high => exact .announced told mem low high
      | coming under =>
        rw [free.2.1] at under
        cases under
      | waiting some_stop => exact absurd empty some_stop
      | held d began st stop found low high => exact .held d began st stop found low high
  next => cases ran

theorem Sound.storeEnd (sound : s.Sound) (ran : s.storeEnd c = some s') : s'.Sound := by
  rw [Announcer.storeEnd] at ran
  split at ran
  next base under =>
    split at ran
    next held =>
      cases ran
      have floor : s.floor = base := by rw [Announcer.floor, under]
      refine ⟨sound.positive, floor ▸ sound.bottom, ?_, floor ▸ sound.start, floor ▸ sound.started,
        by rintro _ ⟨⟩, sound.alone, sound.flushing, sound.before, ?_, ?_, ?_⟩
      · intro unlocked
        rw [held] at unlocked
        cases unlocked
      · intro d k st stop found
        exact ⟨(sound.taken d k st stop found).1, fun _ => by rintro ⟨⟩⟩
      · intro r mem
        cases sound.reached r mem with
        | announced told mem low high => exact .announced told mem low high
        | coming eq finish =>
          rw [under] at eq
          cases eq
          refine .waiting sound.positive.ne' finish.le ?_ ?_ fun _ => floor ▸ sound.start
          · rintro _ ⟨⟩
            exact le_rfl
          · exact fun d k st found => floor ▸ sound.started d k st found
        | waiting some_stop => exact absurd (sound.quiet base under) some_stop
        | held d began st stop found low high => exact .held d began st stop found low high
      · exact sound.settled
    next => cases ran
  next => cases ran

theorem Sound.storeStart (sound : s.Sound) (ran : s.storeStart c = some s') : s'.Sound := by
  rw [Announcer.storeStart] at ran
  split at ran
  next base under =>
    split at ran
    next held =>
      cases ran
      have floor : s.floor = base := by rw [Announcer.floor, under]
      have bottom : base ≤ s.top := floor ▸ sound.bottom
      refine ⟨sound.positive, le_rfl, fun _ => rfl, bottom, ?_, by rintro _ ⟨⟩, sound.alone, ?_, ?_,
        ?_, ?_, sound.settled⟩
      · exact fun d k st found => (sound.started d k st found).trans (floor ▸ bottom)
      · exact fun d k found => (sound.flushing d k found).trans (Nat.le_succ _)
      · exact fun d k st found => (sound.before d k st found).trans (Nat.le_succ _)
      · intro d k st stop found
        have old := (sound.taken d k st stop found).1
        refine ⟨old.trans (Nat.le_succ _), fun eq => ?_⟩
        subst eq
        exact absurd old (Nat.not_succ_le_self _)
      · intro r mem
        cases sound.reached r mem with
        | announced told mem low high => exact .announced told mem low high
        | coming eq =>
          rw [under] at eq
          cases eq
        | waiting some_stop high ended started start =>
          exact .waiting some_stop high (by rintro _ ⟨⟩) started fun _ => ended base under
        | held d began st stop found low high => exact .held d began st stop found low high
    next => cases ran
  next => cases ran

theorem only_taking {p q : Place} {d : Fin n} (others : ∀ d ≠ c, (s.place d).takes = false)
    (taking : p.takes = true) (found : update s.place c q d = p) : d = c ∧ p = q := by
  by_cases eq : d = c
  · subst eq
    exact ⟨rfl, found.symm.trans (update_self ..)⟩
  · rw [← found, update_of_ne eq, others d eq] at taking
    cases taking

theorem Sound.others (sound : s.Sound) (taking : (s.place c).takes = true) (d : Fin n)
    (ne : d ≠ c) : (s.place d).takes = false :=
  Bool.eq_false_iff.mpr fun other => ne (sound.alone d c other taking)

theorem Sound.swapStart (sound : s.Sound) (apart : s.Apart (.swapStart c))
    (ran : s.swapStart c = some s') : s'.Sound := by
  rw [Announcer.swapStart] at ran
  split at ran
  next began here =>
    cases ran
    have nobody : ∀ d, (s.place d).takes = false := apart
    have only {d : Fin n} {p : Place} := only_taking (p := p) (q := .started began s.start)
      (fun d (_ : d ≠ c) => nobody d) (d := d)
    refine ⟨sound.positive, sound.bottom, sound.unlocked, Nat.zero_le _, ?_, sound.quiet, ?_, ?_,
      ?_, ?_, ?_, sound.settled⟩
    · intro d k st found
      cases (only rfl found).2
      exact sound.start
    · intro d e first second
      rw [(only first rfl).1, (only second rfl).1]
    · intro d k found
      rcases of_update found with ⟨-, eq⟩ | old
      · cases eq
      · exact sound.flushing d k old
    · intro d k st found
      cases (only rfl found).2
      exact sound.flushing c began here
    · intro d k st stop found
      cases (only rfl found).2
    · intro r mem
      cases sound.reached r mem with
      | announced told mem low high => exact .announced told mem low high
      | coming under finish => exact .coming under finish
      | waiting some_stop high ended started start =>
        have low : s.start ≤ r.1 := start fun d k st found => by
          have taking := nobody d
          rw [found] at taking
          cases taking
        refine .waiting some_stop high ended ?_ fun none => ?_
        · intro d k st found
          cases (only rfl found).2
          exact low
        · exact absurd (update_self ..) (none c began s.start)
      | held d k st stop found =>
        have taking := nobody d
        rw [found] at taking
        cases taking
  next => cases ran

theorem Sound.completed {began : Nat} {announced : List (Nat × Nat)} (sound : s.Sound)
    (taking : (s.place c).takes = true) (kept : s.announced ⊆ announced)
    (empty : began = s.growths → s.progress = .still → s.stop = 0)
    (unstarted : ∀ k st, s.place c = .started k st → s.stop = 0)
    (own : ∀ r ∈ s.mapped, ∀ k start stop, s.place c = .taken k start stop → start ≤ r.1 →
      r.2 ≤ stop → ∃ told ∈ announced, told.1 ≤ r.1 ∧ r.2 ≤ told.2) :
    ({ s with announced := announced }.complete c began).Sound := by
  have nobody : ∀ d, (update s.place c .idle d).takes = false := by
    intro d
    by_cases eq : d = c
    · subst eq
      rw [update_self]
      rfl
    · rw [update_of_ne eq]
      exact sound.others taking d eq
  have untaken : ∀ {d : Fin n} {p : Place}, update s.place c .idle d = p →
      p.takes = false := fun found => found ▸ nobody _
  refine ⟨sound.positive, sound.bottom, sound.unlocked, sound.start, ?_, sound.quiet, ?_, ?_, ?_,
    ?_, ?_, ?_⟩
  · intro d k st found
    cases untaken found
  · intro d e first
    cases (nobody d).symm.trans first
  · intro d k found
    rcases of_update found with ⟨-, eq⟩ | old
    · cases eq
    · exact sound.flushing d k old
  · intro d k st found
    cases untaken found
  · intro d k st stop found
    cases untaken found
  · intro r mem
    cases sound.reached r mem with
    | announced told listed low high => exact .announced told (kept listed) low high
    | coming under finish => exact .coming under finish
    | waiting some_stop high ended started start =>
      refine .waiting some_stop high ended ?_ fun none => ?_
      · intro d k st found
        cases untaken found
      · refine start fun d k st found => ?_
        obtain rfl : d = c := sound.alone d c (by rw [found]; rfl) taking
        exact some_stop (unstarted k st found)
    | held d k st stop found low high =>
      obtain rfl : d = c := sound.alone d c (by rw [found]; rfl) taking
      obtain ⟨told, listed, covers⟩ := own r mem k st stop found low high
      exact .announced told listed covers.1 covers.2
  · intro done r mem
    rcases Bool.or_eq_true_iff.mp done with earlier | now
    · obtain ⟨told, listed, covers⟩ := sound.settled earlier r mem
      exact ⟨told, kept listed, covers⟩
    obtain ⟨eq, still⟩ := of_decide_eq_true now
    cases sound.reached r mem with
    | announced told listed low high => exact ⟨told, kept listed, low, high⟩
    | coming under =>
      rw [still] at under
      cases under
    | waiting some_stop => exact absurd (empty eq still) some_stop
    | held d k st stop found low high =>
      obtain rfl : d = c := sound.alone d c (by rw [found]; rfl) taking
      exact own r mem k st stop found low high

theorem Sound.swapEnd (sound : s.Sound) (ran : s.swapEnd c = some s') : s'.Sound := by
  rw [Announcer.swapEnd] at ran
  split at ran
  next began start here =>
    have taking : (s.place c).takes = true := by
      rw [here]
      rfl
    split at ran
    next some_stop =>
      cases ran
      have only {d : Fin n} {p : Place} := only_taking (p := p) (q := .taken began start s.stop)
        (sound.others taking) (d := d)
      refine ⟨sound.positive, sound.bottom, sound.unlocked, sound.start, ?_, fun _ _ => rfl, ?_, ?_,
        ?_, ?_, ?_, sound.settled⟩
      · intro d k st found
        cases (only rfl found).2
      · intro d e first second
        rw [(only first rfl).1, (only second rfl).1]
      · intro d k found
        rcases of_update found with ⟨-, eq⟩ | old
        · cases eq
        · exact sound.flushing d k old
      · intro d k st found
        cases (only rfl found).2
      · intro d k st stop found
        cases (only rfl found).2
        exact ⟨sound.before c began start here, fun _ _ => rfl⟩
      · intro r mem
        cases sound.reached r mem with
        | announced told listed low high => exact .announced told listed low high
        | coming under finish => exact .coming under finish
        | waiting _ high _ started _ =>
          exact .held c began start s.stop (update_self ..) (started c began start here) high
        | held d k st stop found =>
          obtain rfl : d = c := sound.alone d c (by rw [found]; rfl) taking
          rw [here] at found
          cases found
    next no_stop =>
      cases ran
      have empty : s.stop = 0 := not_not.mp no_stop
      refine sound.completed taking (List.Subset.refl _) (fun _ _ => empty) (fun _ _ _ => empty) ?_
      intro r _ k st stop found
      rw [here] at found
      cases found
  next => cases ran

theorem Sound.flush (sound : s.Sound) (ran : s.flush c = some s') : s'.Sound := by
  rw [Announcer.flush] at ran
  split at ran
  next began start stop here =>
    cases ran
    have taking : (s.place c).takes = true := by
      rw [here]
      rfl
    refine sound.completed taking (List.subset_cons_self ..) (sound.taken c began start stop here).2
      ?_ ?_
    · intro k st found
      rw [here] at found
      cases found
    intro r _ k st finish found low high
    rw [here] at found
    cases found
    exact ⟨_, List.mem_cons_self, low, high⟩
  next => cases ran

theorem Sound.step {action : Action n} (sound : s.Sound) (apart : s.Apart action)
    (ran : s.step action = some s') : s'.Sound := by
  cases action with
  | enter c on => exact sound.enter ran
  | grow c want => exact sound.grow apart ran
  | storeEnd c => exact sound.storeEnd ran
  | storeStart c => exact sound.storeStart ran
  | leave c => exact sound.leave ran
  | swapStart c => exact sound.swapStart apart ran
  | swapEnd c => exact sound.swapEnd ran
  | flush c => exact sound.flush ran

variable (n) in
theorem sound_booted (mapped : Bool) : (booted n mapped).Sound where
  positive := by cases mapped <;> exact Nat.succ_pos _
  bottom := le_rfl
  unlocked _ := rfl
  start := Nat.zero_le _
  started := by rintro _ _ _ ⟨⟩
  quiet := by rintro _ ⟨⟩
  alone := by rintro _ _ ⟨⟩
  flushing := by rintro _ _ ⟨⟩
  before := by rintro _ _ _ ⟨⟩
  taken := by rintro _ _ _ _ ⟨⟩
  reached := by rintro _ ⟨⟩
  settled := by rintro ⟨⟩

instance apart_decidable (s : Announcer n) (a : Action n) : Decidable (s.Apart a) := by
  apply @Action.casesOn n (fun a => Decidable (s.Apart a)) a
  case grow => exact fun _ _ => inferInstanceAs (Decidable (s.stop = 0))
  case swapStart => exact fun _ => inferInstanceAs (Decidable (∀ d, (s.place d).takes = false))
  all_goals intros; exact isTrue trivial

end Announcer

end K1K.Allocator
