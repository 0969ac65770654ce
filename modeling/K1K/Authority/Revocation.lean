import K1K.Authority.Grants

/-!
# What a revocation lasts for

`cap_revoke` leaves a tombstone in one task's table. The grants of a service are kept in its
`ServiceSpec`, and every new instance gets all of them: a revoked grant stays away as long as
the service is not started again.
-/

namespace K1K.Authority

open K1K.Lib K1K.Obj

namespace Ledger

def Retired (l : Ledger) : Event → Prop
  | .act (.spawn idx) => ∀ r ∈ l.revocations, r.service ≠ idx
  | .spawnDesc idx => ∀ r ∈ l.revocations, r.service ≠ idx
  | _ => True

instance retiredDecidable (l : Ledger) (event : Event) : Decidable (l.Retired event) := by
  unfold Retired
  split <;> infer_instance

def Lasting (l : Ledger) : Prop :=
  ∀ r ∈ l.revocations, ∀ t task, r.since ≤ t → l.kernel.tasks t = some task →
    task.service ≠ some r.service

variable {peer : Nat → Option Nat} {l l' : Ledger}

theorem Lasting.act {action : Action} (lasting : l.Lasting) (sound : l.Sound)
    (retired : l.Retired (.act action)) (acted : l.act peer action = some l') : l'.Lasting := by
  obtain ⟨kernel, ran, rfl⟩ := act_eq_some acted
  intro r mem t task since found
  cases was : l.kernel.tasks t with
  | none =>
    obtain ⟨idx, grants, rfl, -, -, rfl⟩ := spawned_of_step ran was found
    have earlier : r ∈ l.revocations := by simpa [revocation] using mem
    exact fun eq => retired r earlier (Option.some.inj eq).symm
  | some old =>
    rw [(successor_of_step ran).service sound.numbered t old was task found]
    rcases List.mem_append.mp mem with earlier | now
    · exact lasting r earlier t old since was
    · obtain ⟨-, -, -, -, -, -, -, -, -, -, -, new⟩ := revocation_eq_some (Option.mem_toList.mp now)
      simp [sound.numbered t (new ▸ since)] at was

theorem Lasting.step {event : Event} (lasting : l.Lasting) (sound : l.Sound)
    (retired : l.Retired event) (ran : l.step peer event = some l') : l'.Lasting := by
  cases event with
  | act action => exact lasting.act sound retired ran
  | spawnDesc idx =>
    obtain ⟨grants, next, -, -, acted, rfl⟩ := spawnDesc_eq_some ran
    have started : l.Retired (.act (.spawn idx)) := retired
    have next : next.Lasting := lasting.act sound started acted
    exact next
  | word call =>
    obtain ⟨r, -, -, rfl⟩ := writeWord_eq_some ran
    exact lasting

theorem lasting_of_run {boot : List (List Capability)} {events : List Event}
    (run : Run (Guarded Retired fun l event l' => l.step peer event = some l') (start boot)
      events l) : l.Sound ∧ l.Lasting := by
  apply run.invariant (fun l => l.Sound ∧ l.Lasting)
  · exact ⟨start_sound boot, by simp [Lasting, start]⟩
  · rintro l event l' ⟨sound, lasting⟩ ⟨retired, ran⟩
    exact ⟨sound.step ran, lasting.step sound retired ran⟩

/-- Where no service is started again after one of its grants was revoked, no later
instance has the object through that grant, and the slot itself stays empty. -/
theorem revocation_durable (peer : Nat → Option Nat) (boot : List (List Capability))
    {events : List Event} {l : Ledger}
    (run : Run (Guarded Retired fun l event l' => l.step peer event = some l') (start boot)
      events l) :
    ∀ r ∈ l.revocations, (∀ t, r.since ≤ t → ¬ l.HoldsThrough t r.service r.grant) ∧
      ∀ task, l.kernel.tasks r.victim = some task → task.caps.get r.grant = none := by
  obtain ⟨sound, lasting⟩ := lasting_of_run run
  refine fun r mem => ⟨?_, fun task found => ?_⟩
  · rintro t since ⟨-, task, -, -, found, service, -⟩
    exact lasting r mem t task since found service
  · have flagged := (sound.withdrawn r mem).2 task found
    exact CapTable.get_eq_none_of_empty ((sound.tables _ task found).tombstones _ flagged)

def controlled : List (List Capability) :=
  [[⟨.control, .SPAWN⟩], [⟨.endpoint 7, Rights.SEND.union .GRANT⟩]]

theorem revoked_endpoint_stays_away : ∃ l : Ledger,
    Run (Guarded Retired fun l event l' => l.step (fun _ => none) event = some l')
      (start controlled)
      [.act (.spawn 0), .act (.spawn 1), .act (.capRevoke 1 2 0), .act (.epCreate 2)] l ∧
    l.revocations = [⟨1, 0, 2, 3⟩] ∧
    (∀ r ∈ l.revocations, (∀ t, r.since ≤ t → ¬ l.HoldsThrough t r.service r.grant) ∧
      ∀ task, l.kernel.tasks r.victim = some task → task.caps.get r.grant = none) := by
  refine exists_guarded_of_replay (fun l => l.revocations = [⟨1, 0, 2, 3⟩]) (by decide +kernel)
    fun l run revocations => ?_
  exact ⟨revocations, revocation_durable _ _ run⟩

/-- The endpoint is revoked from task 2, which then ends and is reaped; the next instance of the
service has the endpoint in the same slot. -/
theorem restart_brings_the_grant_back : ∃ l : Ledger,
    Run (fun l event l' => l.step (fun _ => none) event = some l') (start controlled)
      [.act (.spawn 0), .act (.spawn 1), .act (.capRevoke 1 2 0), .act (.exit 2), .act (.reap 2),
        .act (.spawn 1)] l ∧
    ∃ r ∈ l.revocations, r.victim = 2 ∧ ∃ t, r.since ≤ t ∧
      l.HoldsThrough t r.service r.grant := by
  refine exists_of_replay (fun l => l.revocations = [⟨1, 0, 2, 3⟩] ∧ 0 ∈ l.intact 3 ∧
    (l.kernel.tasks 3).bind (·.service) = some 1) (by decide +kernel) ?_
  rintro l run ⟨revocations, intact, belongs⟩
  obtain ⟨idx, held⟩ := (sound_of_run run).held 3 0 intact
  have eq : idx = 1 := by
    obtain ⟨-, task, -, -, found, service, -⟩ := held
    simpa [found, service] using belongs
  subst eq
  exact ⟨⟨1, 0, 2, 3⟩, by simp [revocations], rfl, 3, Nat.le_refl 3, held⟩

end Ledger

end K1K.Authority
