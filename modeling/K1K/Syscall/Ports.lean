import K1K.Lib.Checked
import K1K.Obj.CapTable
import K1K.Syscall.UserCopy

/-!
# Port input and output

`port_in` and `port_out` of `kernel/src/syscall/mod.rs`. The bound on the offset is checked on a
sum of two arguments, which in one build profile stops the kernel on overflow and in the other
wraps. `none` is a panic; a call that returns comes with its accesses.
-/

namespace K1K.Syscall

open K1K.Lib K1K.Obj

inductive PortAccess where
  | input (port : BitVec 16) (width : Nat)
  | output (port : BitVec 16) (width : Nat) (value : BitVec 64)
  deriving DecidableEq, Repr

def PortAccess.ports : PortAccess → List Nat
  | .input port width => (List.range width).map (port.toNat + ·)
  | .output port width _ => (List.range width).map (port.toNat + ·)

def accessBytes (width : BitVec 64) : Nat :=
  if width = 1 then 1 else if width = 2 then 2 else 4

section Ports

variable (profile : Overflow) (caps : CapTable) (slot offset width : BitVec 64)

def portRange : Option PortRange :=
  (caps.lookup (slot.setWidth 32).toNat .MAP_READ).bind Capability.port

def portAccess : Option (Except Errno (BitVec 16)) :=
  match portRange caps slot with
  | none => some (.error .EPERM)
  | some range =>
    -- The sum is only evaluated for a width that passed.
    if width = 1 ∨ width = 2 ∨ width = 4 then do
      let last ← profile.add offset width
      if last > range.len.setWidth 64 then return .error .EINVAL
      let port ← profile.add range.base (offset.setWidth 16)
      return .ok port
    else some (.error .EINVAL)

def sysPortIn (found : BitVec 32) : Option (Except Errno (BitVec 64) × List PortAccess) := do
  match ← portAccess profile caps slot offset width with
  | .error e => return (.error e, [])
  | .ok port =>
    let bytes := accessBytes width
    return (.ok ((found.setWidth (8 * bytes)).setWidth 64), [.input port bytes])

def sysPortOut (value : BitVec 64) : Option (Except Errno (BitVec 64) × List PortAccess) := do
  match ← portAccess profile caps slot offset width with
  | .error e => return (.error e, [])
  | .ok port =>
    let bytes := accessBytes width
    return (.ok 0, [.output port bytes ((value.setWidth (8 * bytes)).setWidth 64)])

/-- A call that returns an error has touched no port, and one that succeeds has
touched only ports of the range. -/
def Confined (outcome : Option (Except Errno (BitVec 64) × List PortAccess)) : Prop :=
  ∃ result accesses, outcome = some (result, accesses) ∧
    match result with
    | .error _ => accesses = []
    | .ok _ => ∃ range, portRange caps slot = some range ∧
      ∀ access ∈ accesses, ∀ port ∈ access.ports,
        range.base.toNat ≤ port ∧ port < range.base.toNat + range.len.toNat

/-- The sum that the bound is checked on fits a word, where it is computed. -/
def Modest : Prop := ∀ range, portRange caps slot = some range →
  width = 1 ∨ width = 2 ∨ width = 4 → offset.toNat + width.toNat < 2 ^ 64

variable {caps slot offset width}

theorem accessBytes_eq (allowed : width = 1 ∨ width = 2 ∨ width = 4) :
    accessBytes width = width.toNat := by
  rcases allowed with rfl | rfl | rfl <;> rfl

/-- The port of an access that is let through starts `width` bytes of the range,
and neither sum on the way overflows. -/
theorem portAccess_cases (small : ∀ range, portRange caps slot = some range →
      range.base.toNat + range.len.toNat ≤ 65536) (modest : Modest caps slot offset width) :
    (∃ e, portAccess profile caps slot offset width = some (.error e)) ∨
      ∃ port range, portAccess profile caps slot offset width = some (.ok port) ∧
        portRange caps slot = some range ∧ accessBytes width = width.toNat ∧
        port.toNat = range.base.toNat + offset.toNat ∧
        offset.toNat + width.toNat ≤ range.len.toNat := by
  unfold portAccess
  cases held : portRange caps slot with
  | none => exact .inl ⟨_, rfl⟩
  | some range =>
    by_cases allowed : width = 1 ∨ width = 2 ∨ width = 4
    · have whole : (offset + width).toNat = offset.toNat + width.toNat := by
        rw [BitVec.toNat_add, Nat.mod_eq_of_lt (modest range held allowed)]
      have widened : (range.len.setWidth 64).toNat = range.len.toNat := by
        rw [BitVec.toNat_setWidth]
        exact Nat.mod_eq_of_lt (range.len.isLt.trans (by decide))
      simp only [if_pos allowed, profile.add_eq (modest range held allowed), Option.bind_eq_bind,
        Option.bind_some, gt_iff_lt, BitVec.lt_def, whole, widened]
      by_cases beyond : range.len.toNat < offset.toNat + width.toNat
      · exact .inl ⟨.EINVAL, by simp [beyond]⟩
      have pos : 0 < width.toNat := by rcases allowed with rfl | rfl | rfl <;> decide
      have bound := small range held
      have narrow : (offset.setWidth 16).toNat = offset.toNat := by
        rw [BitVec.toNat_setWidth]
        exact Nat.mod_eq_of_lt (by have := range.len.isLt; omega)
      have fits : range.base.toNat + (offset.setWidth 16).toNat < 2 ^ 16 := by
        rw [narrow]
        omega
      refine .inr ⟨range.base + offset.setWidth 16, range, ?_, rfl, accessBytes_eq allowed,
        ?_, Nat.le_of_not_lt beyond⟩
      · simp [beyond, profile.add_eq fits]
      · rw [BitVec.toNat_add, Nat.mod_eq_of_lt fits, narrow]
    · exact .inl ⟨.EINVAL, if_neg allowed⟩

theorem portAccess_panics (immodest : ¬Modest caps slot offset width) :
    portAccess .panics caps slot offset width = none := by
  rw [Modest] at immodest
  push Not at immodest
  obtain ⟨range, held, allowed, large⟩ := immodest
  rw [portAccess, held]
  simp only [if_pos allowed, Overflow.add_eq_none large]
  rfl

/-- Under either profile both calls return and touch no port outside the range, exactly if the sum
of offset and width fits a word, or is not computed. -/
theorem ports_confined (found : BitVec 32) (value : BitVec 64) (small : ∀ range,
      portRange caps slot = some range → range.base.toNat + range.len.toNat ≤ 65536) :
    (∀ profile, Confined caps slot (sysPortIn profile caps slot offset width found) ∧
      Confined caps slot (sysPortOut profile caps slot offset width value)) ↔
    Modest caps slot offset width := by
  refine ⟨fun confined => ?_, fun modest profile => ?_⟩
  · by_contra immodest
    obtain ⟨_, _, gave, -⟩ := (confined .panics).1
    simp [sysPortIn, portAccess_panics immodest] at gave
  rcases portAccess_cases profile small modest with
    ⟨e, refused⟩ | ⟨port, range, accepted, held, bytes, placed, lt⟩
  · exact ⟨⟨.error e, [], by simp [sysPortIn, refused], rfl⟩,
      ⟨.error e, [], by simp [sysPortOut, refused], rfl⟩⟩
  refine ⟨⟨.ok _, [.input port (accessBytes width)], by simp only [sysPortIn, accepted]; rfl,
    range, held, ?_⟩, ⟨.ok _, [.output port (accessBytes width) _],
    by simp only [sysPortOut, accepted]; rfl, range, held, ?_⟩⟩
  all_goals
    intro access mem touched reached
    rw [List.mem_singleton.mp mem] at reached
    simp only [PortAccess.ports, List.mem_map, List.mem_range] at reached
    obtain ⟨i, below, rfl⟩ := reached
    omega

end Ports

def keyboardCaps : CapTable := ⟨[some ⟨.port ⟨0x60, 5⟩, .MAP_READ⟩], [false]⟩

theorem keyboard_confined :
    Confined keyboardCaps 0 (sysPortIn .panics keyboardCaps 0 4 1 0x1c) ∧
      Confined keyboardCaps 0 (sysPortOut .panics keyboardCaps 0 4 1 0xfe) :=
  (ports_confined _ _ (by decide)).mpr (fun _ _ _ => by decide) .panics

/-- With the largest offset the sum overflows: one profile stops the kernel, the
other lets the access through, to the port below the range. -/
theorem largest_offset_escapes :
    portRange keyboardCaps 0 = some ⟨0x60, 5⟩ ∧
      sysPortOut .panics keyboardCaps 0 (BitVec.allOnes 64) 1 0xfe = none ∧
      sysPortOut .wraps keyboardCaps 0 (BitVec.allOnes 64) 1 0xfe =
        some (.ok 0, [.output 0x5f 1 0xfe]) ∧
      ¬ Confined keyboardCaps 0 (sysPortOut .wraps keyboardCaps 0 (BitVec.allOnes 64) 1 0xfe) := by
  have wrapped : sysPortOut .wraps keyboardCaps 0 (BitVec.allOnes 64) 1 0xfe =
      some (.ok 0, [.output 0x5f 1 0xfe]) := by decide
  refine ⟨by decide, by decide, wrapped, ?_⟩
  rintro ⟨res, accesses, gave, confined⟩
  rw [wrapped, Option.some.injEq, Prod.mk.injEq] at gave
  obtain ⟨rfl, rfl⟩ := gave
  obtain ⟨range, held, lt⟩ := confined
  have keyboard : portRange keyboardCaps 0 = some ⟨0x60, 5⟩ := by decide
  rw [keyboard, Option.some.injEq] at held
  subst held
  have out := lt _ List.mem_cons_self 0x5f (by decide)
  simp at out

end K1K.Syscall
