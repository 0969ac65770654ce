import K1K.Lib.Checked

/-!
# Time from the counters

`tsc_ns_since`, `hpet_ns`, `now_ns` and the end of `calibrate` of
`kernel/src/arch/x86_64/clock.rs`. An HPET shows the low 64 or 32 bits of its increments.
-/

namespace K1K.Arch.Clock

open K1K.Lib

/-- `tsc_ns_since`; `none` is a panic. -/
def tscNsSince (profile : Overflow) (base now hz : BitVec 64) : Option (BitVec 64) :=
  let delta := now - base
  if hz = 0 then none
  else
    (profile.mul (delta / hz) 1000000000).bind fun whole =>
      (profile.mul (delta % hz) 1000000000).bind fun part => profile.add whole (part / hz)

structure Hpet where
  wide : Bool
  baseCount : BitVec 64
  periodFs : BitVec 64

namespace Hpet

def counter (wide : Bool) (increments : Nat) : BitVec 64 :=
  if wide then .ofNat 64 increments else (BitVec.ofNat 32 increments).setWidth 64

/-- The period that `calibrate` keeps, from the ticks it has counted against the TSC. -/
def calibrate (ticks elapsed hz : BitVec 64) : Option (BitVec 64) :=
  if ticks = 0 ∨ elapsed = 0 ∨ hz = 0 then none
  else
    let rate := BitVec.ofNat 64 (ticks.toNat * hz.toNat / elapsed.toNat)
    if 1000000 ≤ rate ∧ rate < 1000000000 then some (1000000000000000 / rate) else none

/-- `set_base` after `first` increments. -/
def setBase (wide : Bool) (first : Nat) (periodFs : BitVec 64) : Hpet :=
  ⟨wide, counter wide first, periodFs⟩

def saturatingMul (a b : BitVec 64) : BitVec 64 :=
  if a.toNat * b.toNat < 2 ^ 64 then a * b else .allOnes 64

def hpetNs (h : Hpet) (increments : Nat) : BitVec 64 :=
  saturatingMul (counter h.wide increments - h.baseCount) h.periodFs / 1000000

end Hpet

inductive Source where
  | tsc
  | hpet
  | tick

/-- `now_ns`, where the TSC shows `now`, the HPET if there is one has been asked, and
`tick` is the time by ticks. -/
def nowNs (profile : Overflow) (source : Source) (tick base now hz : BitVec 64)
    (hpet : Option (BitVec 64)) : Option (BitVec 64) :=
  match source with
  | .tsc => if hz = 0 then some tick else tscNsSince profile base now hz
  | .hpet => some (hpet.getD tick)
  | .tick => some tick

theorem quotient_split (delta k : Nat) {hz : Nat} (pos : 0 < hz) (slow : hz * k < 2 ^ 64)
    (fits : delta * k / hz < 2 ^ 64) : delta / hz * k < 2 ^ 64 ∧ delta % hz * k < 2 ^ 64 ∧
      delta / hz * k + delta % hz * k / hz = delta * k / hz := by
  have sum : delta * k / hz = delta / hz * k + delta % hz * k / hz := by
    conv_lhs => rw [← Nat.div_add_mod delta hz, Nat.add_mul, Nat.mul_assoc]
    rw [Nat.mul_add_div pos]
  have rest : delta % hz * k ≤ hz * k := Nat.mul_le_mul_right k (Nat.mod_lt _ pos).le
  exact ⟨lt_of_le_of_lt (Nat.le_add_right _ _) (sum ▸ fits), rest.trans_lt slow, sum.symm⟩

theorem tscNsSince_eq (profile : Overflow) {base now hz : BitVec 64} (pos : 0 < hz)
    (slow : hz.toNat * 1000000000 < 2 ^ 64)
    (fits : (now - base).toNat * 1000000000 / hz.toNat < 2 ^ 64) :
    ∃ ns, tscNsSince profile base now hz = some ns ∧
      ns.toNat = (now - base).toNat * 1000000000 / hz.toNat := by
  simp only [tscNsSince, if_neg (BitVec.ne_of_lt pos).symm]
  generalize now - base = delta at *
  obtain ⟨whole, rest, sum⟩ := quotient_split delta.toNat 1000000000 pos slow fits
  rw [← BitVec.toNat_udiv] at whole
  rw [← BitVec.toNat_umod] at rest
  have total : (delta / hz * 1000000000).toNat + (delta % hz * 1000000000 / hz).toNat =
      delta.toNat * 1000000000 / hz.toNat := by
    have unit : (1000000000 : BitVec 64).toNat = 1000000000 := rfl
    rw [BitVec.toNat_udiv, BitVec.toNat_mul, BitVec.toNat_mul, unit, Nat.mod_eq_of_lt whole,
      Nat.mod_eq_of_lt rest, BitVec.toNat_udiv, BitVec.toNat_umod, sum]
  rw [profile.mul_eq whole, Option.bind_some, profile.mul_eq rest, Option.bind_some,
    profile.add_eq (total ▸ fits)]
  refine ⟨_, rfl, ?_⟩
  rw [BitVec.toNat_add, total]
  exact Nat.mod_eq_of_lt fits

/-- Within the bounds the quotient is exact, in either build, and so time by the TSC does
not go back. -/
theorem tsc_time_exact (profile : Overflow) {base now hz : BitVec 64} (positive : 0 < hz)
    (slow : hz.toNat * 1000000000 < 2 ^ 64)
    (fits : (now - base).toNat * 1000000000 / hz.toNat < 2 ^ 64) :
    ∃ ns, tscNsSince profile base now hz = some ns ∧
      ns.toNat = (now - base).toNat * 1000000000 / hz.toNat ∧
      ∀ tick hpet, nowNs profile .tsc tick base now hz hpet = some ns ∧
        ∀ earlier, earlier - base ≤ now - base → ∃ before,
          nowNs profile .tsc tick base earlier hz hpet = some before ∧ before ≤ ns := by
  have nonzero : hz ≠ 0 := (BitVec.ne_of_lt positive).symm
  obtain ⟨ns, gave, exact⟩ := tscNsSince_eq profile positive slow fits
  refine ⟨ns, gave, exact, fun tick hpet => ⟨by rw [nowNs, if_neg nonzero, gave], ?_⟩⟩
  intro earlier order
  have less : (earlier - base).toNat * 1000000000 / hz.toNat ≤
      (now - base).toNat * 1000000000 / hz.toNat :=
    Nat.div_le_div_right (Nat.mul_le_mul_right _ order)
  obtain ⟨before, first, value⟩ := tscNsSince_eq profile positive slow (less.trans_lt fits)
  refine ⟨before, by rw [nowNs, if_neg nonzero, first], ?_⟩
  rw [BitVec.le_def, value, exact]
  exact less

theorem tsc_time_after_a_second : ∃ ns, tscNsSince .panics 7 3000000006 3000000000 = some ns ∧
    ns.toNat = 999999999 := by
  rcases @tsc_time_exact .panics 7 3000000006 3000000000 (by decide) (by decide) (by decide) with
    ⟨ns, gave, exact, -⟩
  exact ⟨ns, gave, exact.trans (by decide)⟩

namespace Hpet

theorem period_bounds {ticks elapsed hz period : BitVec 64}
    (accepted : calibrate ticks elapsed hz = some period) :
    1000000 ≤ period.toNat ∧ period.toNat ≤ 1000000000 := by
  unfold calibrate at accepted
  split at accepted
  next => simp at accepted
  simp only [Option.ite_none_right_eq_some, Option.some.injEq] at accepted
  generalize BitVec.ofNat 64 (ticks.toNat * hz.toNat / elapsed.toNat) = rate at accepted
  obtain ⟨⟨low, high⟩, rfl⟩ := accepted
  have low : 1000000 ≤ rate.toNat := low
  have high : rate.toNat < 1000000000 := high
  change 1000000 ≤ 1000000000000000 / rate.toNat ∧ 1000000000000000 / rate.toNat ≤ 1000000000
  rw [Nat.le_div_iff_mul_le (by omega)]
  exact ⟨by omega, Nat.div_le_of_le_mul (by omega)⟩

theorem ticks_since {wide : Bool} (first : Nat) {n : Nat} (small : n < 2 ^ 64)
    (unwrapped : wide = true ∨ first % 2 ^ 32 + n < 2 ^ 32) :
    (counter wide (first + n) - counter wide first).toNat = n := by
  cases wide with
  | true =>
    simp only [counter, if_true, BitVec.toNat_sub, BitVec.toNat_ofNat]
    omega
  | false =>
    have short := unwrapped.resolve_left (by simp)
    simp only [counter, Bool.false_eq_true, if_false, BitVec.toNat_sub, BitVec.toNat_setWidth,
      BitVec.toNat_ofNat]
    omega

theorem hpetNs_le (h : Hpet) (increments : Nat) :
    (h.hpetNs increments).toNat ≤ 2 ^ 64 / 1000000 := by
  rw [hpetNs, BitVec.toNat_udiv]
  exact Nat.div_le_div_right (BitVec.isLt _).le

/-- The product of ticks and period saturates at 2⁶⁴ femtoseconds. -/
theorem hpetNs_eq {h : Hpet} {increments n : Nat}
    (count : (counter h.wide increments - h.baseCount).toNat = n) :
    (h.hpetNs increments).toNat = min (n * h.periodFs.toNat) (2 ^ 64 - 1) / 1000000 := by
  rw [hpetNs, saturatingMul, count, BitVec.toNat_udiv]
  split
  next fits =>
    rw [BitVec.toNat_mul, count, Nat.mod_eq_of_lt fits, Nat.min_eq_left (by omega)]
    rfl
  next wide =>
    rw [Nat.min_eq_right (by omega)]
    rfl

/-- Time by the HPET is exact and moves on with every tick as long as a narrow counter has not
come round and 64 bits hold the femtoseconds, but for those after the last nanosecond. -/
theorem hpet_time_exact {ticks elapsed hz period : BitVec 64}
    (accepted : calibrate ticks elapsed hz = some period) (wide : Bool) (first n : Nat) :
    (((setBase wide first period).hpetNs (first + n)).toNat = n * period.toNat / 1000000 ∧
    ∀ m < n, ∀ profile tick base now hz, ∃ earlier later,
      nowNs profile .hpet tick base now hz (some ((setBase wide first period).hpetNs (first + m))) =
        some earlier ∧
      nowNs profile .hpet tick base now hz (some ((setBase wide first period).hpetNs (first + n))) =
        some later ∧ earlier < later) ↔
    (wide = true ∨ first % 2 ^ 32 + n < 2 ^ 32) ∧
      n * period.toNat / 1000000 ≤ 2 ^ 64 / 1000000 := by
  obtain ⟨long, short⟩ := period_bounds accepted
  constructor
  · rintro ⟨exact, advances⟩
    refine ⟨?_, exact ▸ hpetNs_le _ _⟩
    by_contra round
    simp only [not_or, Bool.not_eq_true, Nat.not_lt] at round
    obtain ⟨rfl, round⟩ := round
    by_cases again : 2 ^ 32 ≤ n
    · -- A whole round earlier the counter showed the same.
      obtain ⟨_, _, ⟨⟩, ⟨⟩, later⟩ := advances (n - 2 ^ 32) (by omega) .wraps 0 0 0 0
      have same : counter false (first + (n - 2 ^ 32)) = counter false (first + n) := by
        apply BitVec.eq_of_toNat_eq
        simp only [counter, Bool.false_eq_true, if_false, BitVec.toNat_setWidth, BitVec.toNat_ofNat]
        omega
      rw [hpetNs, hpetNs, setBase, same] at later
      exact absurd later (BitVec.lt_irrefl _)
    · have count : 2 ^ 64 - 2 ^ 32 ≤ (counter false (first + n) - counter false first).toNat := by
        simp only [counter, Bool.false_eq_true, if_false, BitVec.toNat_sub, BitVec.toNat_setWidth,
          BitVec.toNat_ofNat]
        omega
      have product := Nat.mul_le_mul count long
      have less := Nat.mul_le_mul (Nat.not_le.mp again).le short
      rw [hpetNs_eq rfl] at exact
      simp only [setBase] at exact
      omega
  · rintro ⟨unwrapped, fits⟩
    have shows : ∀ k ≤ n, ((setBase wide first period).hpetNs (first + k)).toNat =
        k * period.toNat / 1000000 := by
      intro k least
      have less := Nat.mul_le_mul_right period.toNat least
      have most := Nat.mul_le_mul_left k long
      have count := ticks_since first (n := k) (by omega)
        (unwrapped.imp_right fun round => by omega)
      rw [hpetNs_eq count]
      change min (k * period.toNat) _ / 1000000 = _
      omega
    refine ⟨shows n le_rfl, fun m was profile tick base now hz => ⟨_, _, rfl, rfl, ?_⟩⟩
    rw [Option.getD_some, Option.getD_some, BitVec.lt_def, shows m was.le, shows n le_rfl]
    have more : m * period.toNat + 1000000 ≤ n * period.toNat :=
      calc m * period.toNat + 1000000 ≤ m * period.toNat + period.toNat := by omega
        _ = (m + 1) * period.toNat := (Nat.succ_mul _ _).symm
        _ ≤ n * period.toNat := Nat.mul_le_mul_right _ was
    omega

theorem hpet_time_after_an_hour :
    ((setBase true 5 100000000).hpetNs (5 + 36000000000)).toNat = 3600000000000 := by
  have accepted : calibrate 10000 1000000 1000000000 = some 100000000 := by decide
  exact ((hpet_time_exact accepted true 5 36000000000).mpr ⟨.inl rfl, by decide⟩).1.trans
    (by decide)

/-- At 10 MHz: after six hours and a second later it is the same time, and a narrow
counter shows after seven minutes the time at which it was started. -/
theorem hpet_time_stops : calibrate 10000 1000000 1000000000 = some 100000000 ∧
    ((setBase true 0 100000000).hpetNs 216000000000).toNat = 18446744073709 ∧
    ((setBase true 0 100000000).hpetNs 216010000000).toNat = 18446744073709 ∧
    216000000000 * 100000000 / 1000000 = 21600000000000 ∧
    (setBase false 0 100000000).hpetNs (2 ^ 32) = 0 ∧
    (setBase false 0 100000000).hpetNs (2 ^ 32 - 1) ≠ 0 := by
  decide

end Hpet

end K1K.Arch.Clock
