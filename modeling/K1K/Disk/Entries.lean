import K1K.Disk.Contents

/-!
# Entries of the file allocation table

`next_cluster` over a device that may fail in any call returns the entry on the disk, whatever
earlier calls have left in the cache.
-/

namespace K1K.Disk

open K1K.Lib K1K.Loader

variable {dev : Device} {disk : Memory} {geo : Geometry} {fat : Fat} {c : BitVec 32}

def sound (disk : Memory) : Device := fun lba count => .ok (disk.read (lba * 512) (count * 512))

def Honest (disk : Memory) (dev : Device) : Prop :=
  ∀ lba count, dev lba count = .error () ∨ dev lba count = sound disk lba count

theorem reads_sound (disk : Memory) : Reads (sound disk) disk := fun _ _ => rfl

theorem fatSector_honest (honest : Honest disk dev) (lba : Nat) (fat : Fat) :
    fatSector dev lba fat = fatSector (sound disk) lba fat ∨
    fatSector dev lba fat = (.error (), fat) ∧ dev lba 1 = .error () := by
  unfold fatSector
  split
  · rcases honest lba 1 with failed | read
    · exact .inr ⟨by rw [failed], failed⟩
    · exact .inl (by rw [read])
  · exact .inl rfl

def Failed (disk : Memory) (dev : Device) (fat : Fat)
    (result : Except Unit (Option (BitVec 32)) × Fat) : Prop :=
  result.1 = .error () ∧ result.2.geo = fat.geo ∧ Coherent disk result.2 ∧
    ∃ lba, dev lba 1 = .error ()

theorem wideEntry_honest (honest : Honest disk dev) (coherent : Coherent disk fat)
    (off count limit : Nat) (entry : List Byte → BitVec 32) :
    wideEntry dev off count limit entry fat = wideEntry (sound disk) off count limit entry fat ∨
    Failed disk dev fat (wideEntry dev off count limit entry fat) := by
  unfold wideEntry
  rcases fatSector_honest honest (fat.geo.fatStart.toNat + off / 512) fat with
    eq | ⟨failed, read⟩
  · exact .inl (by rw [eq])
  · rw [failed]
    exact .inr ⟨rfl, rfl, coherent, _, read⟩

theorem nextCluster_honest (honest : Honest disk dev) (coherent : Coherent disk fat) :
    nextCluster dev c fat = nextCluster (sound disk) c fat ∨
    Failed disk dev fat (nextCluster dev c fat) := by
  unfold nextCluster
  split
  · exact wideEntry_honest honest coherent ..
  · exact wideEntry_honest honest coherent ..
  generalize offset : c.toNat * 3 / 2 = off
  have small := c.isLt
  have start := fat.geo.fatStart.isLt
  have lba : fat.geo.fatStart.toNat + off / 512 < NOTHING := lt_nothing (by omega)
  rcases fatSector_honest honest (fat.geo.fatStart.toNat + off / 512) fat with
    eq | ⟨failed, read⟩
  · obtain ⟨first, found, geo, -, kept⟩ := fatSector_reads (reads_sound disk) coherent lba
    simp only [eq, found]
    split
    · rcases fatSector_honest honest (first.geo.fatStart.toNat + off / 512 + 1) first with
        eq | ⟨failed, read⟩
      · exact .inl (by rw [eq])
      · rw [failed]
        exact .inr ⟨rfl, geo, kept, _, read⟩
    · exact .inl rfl
  · simp only [failed]
    exact .inr ⟨rfl, rfl, coherent, _, read⟩

def after (calls : List (Device × BitVec 32)) (fat : Fat) : Fat :=
  calls.foldl (fun fat call => (nextCluster call.1 call.2 fat).2) fat

theorem nextCluster_step (honest : Honest disk dev) (coherent : Coherent disk fat) :
    ((nextCluster dev c fat).1 = .ok (fat.geo.next disk c) ∨
      (nextCluster dev c fat).1 = .error () ∧ ∃ lba, dev lba 1 = .error ()) ∧
    (nextCluster dev c fat).2.geo = fat.geo ∧ Coherent disk (nextCluster dev c fat).2 := by
  rcases nextCluster_honest honest coherent with eq | ⟨failed, geo, kept, reason⟩
  · obtain ⟨fat', found, geo, kept⟩ := nextCluster_reads (reads_sound disk) coherent c
    rw [eq, found]
    exact ⟨.inl rfl, geo, kept⟩
  · exact ⟨.inr ⟨failed, reason⟩, geo, kept⟩

theorem after_coherent {calls : List (Device × BitVec 32)}
    (honest : ∀ call ∈ calls, Honest disk call.1) (coherent : Coherent disk fat) :
    (after calls fat).geo = fat.geo ∧ Coherent disk (after calls fat) := by
  induction calls generalizing fat with
  | nil => exact ⟨rfl, coherent⟩
  | cons call calls ih =>
    rw [List.forall_mem_cons] at honest
    obtain ⟨-, geo, kept⟩ := nextCluster_step (c := call.2) honest.1 coherent
    obtain ⟨geo', kept'⟩ := ih honest.2 kept
    exact ⟨geo'.trans geo, kept'⟩

def straddling : Memory := fun a => if a = 1023 then 0x30 else if a = 1024 then 0x12 else 0

def broken : Device := fun lba n => if lba = 2 then .error () else sound straddling lba n

def small : Fat := ⟨⟨.fat12, 512, 1, 1, 3, 16, 4, 0, 400⟩, List.replicate 512 0, NOTHING⟩

end K1K.Disk
