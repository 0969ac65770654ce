import K1K.Spawn.Started

/-!
# When a spawn succeeds

If the image loads and leaves the stack, the heap and the boot page free and frames enough for
them, the task is built. A page takes at most five frames: its own and four tables.
-/

namespace K1K.Spawn

open K1K.Lib K1K.Mm K1K.Obj K1K.Loader K1K.Syscall

def Vacant (st : Loading) (first count : Nat) : Prop :=
  ∀ page, first ≤ page → page < first + count → Mm.translate st.space.pml4 page = none

instance decidableVacant (st : Loading) (first count : Nat) : Decidable (Vacant st first count) :=
  decidable_of_iff (∀ i < count, Mm.translate st.space.pml4 (first + i) = none) (by
    constructor
    · intro all page above below
      obtain ⟨i, rfl⟩ := Nat.exists_eq_add_of_le above
      exact all i (by omega)
    · exact fun vacant i small => vacant (first + i) (by omega) (by omega))

variable {profile : Overflow} {half : Fin 512 → Table 3} {spec : ServiceSpec} {st st₁ : Loading}
  {start count : Nat} {flags : Flags}

theorem mapRange_ok (flags : Flags) (valid : st.frames.map.Valid)
    (le : start / FRAME_SIZE + count ≤ USER_PAGES)
    (vacant : Vacant st (start / FRAME_SIZE) count) (enough : 5 * count ≤ st.frames.map.free) :
    ∃ st', mapRange start count flags st = some (true, st') ∧ st'.frames.map.Valid ∧
      st.frames.map.free ≤ st'.frames.map.free + 5 * count ∧
      (∀ page, page < USER_PAGES → page < start / FRAME_SIZE ∨ start / FRAME_SIZE + count ≤ page →
        Mm.translate st'.space.pml4 page = Mm.translate st.space.pml4 page) ∧
      ∀ page, start / FRAME_SIZE ≤ page → page < start / FRAME_SIZE + count →
        (Mm.translate st'.space.pml4 page).isSome := by
  obtain ⟨pml4', fr', called, valid', drawn⟩ := mapUserPages_ok flags valid le vacant enough
  obtain ⟨given, ran, range⟩ := mapUserPages_mapsRange valid called
  refine ⟨st.grow pml4' fr', ?_, valid', drawn, range.others, fun page above below => ?_⟩
  · rw [mapRange, called]
  have mapped : Mm.translate (st.grow pml4' fr').space.pml4 page =
      some ⟨given page, flags.forUser⟩ :=
    range.mapped page above below
  rw [mapped]
  rfl

theorem Vacant.keep {first n : Nat} (vacant : Vacant st first n) (le : first + n ≤ USER_PAGES)
    (others : ∀ page, page < USER_PAGES → page < start ∨ start + count ≤ page →
      Mm.translate st₁.space.pml4 page = Mm.translate st.space.pml4 page)
    (far : first + n ≤ start ∨ start + count ≤ first) : Vacant st₁ first n := by
  intro page above below
  rw [others page (by omega) (by omega)]
  exact vacant page above below

/-- The pages of the stack, the heap and the boot page are vacant, and there are
frames for them. -/
structure Roomy (st : Loading) : Prop where
  valid : st.frames.map.Valid
  stack : Vacant st ((USER_STACK_TOP - USER_STACK_PAGES * 4096) / FRAME_SIZE) USER_STACK_PAGES
  heap : Vacant st (USER_HEAP_BASE / FRAME_SIZE) USER_HEAP_PAGES
  info : Vacant st (USER_INFO_BASE / FRAME_SIZE) 1
  enough : 5 * USER_STACK_PAGES + 5 * USER_HEAP_PAGES + 5 ≤ st.frames.map.free

theorem writeBootInfo_ok (task : BitVec 32) (args : List Byte)
    (mapped : (Mm.translate st.space.pml4 (USER_INFO_BASE / FRAME_SIZE)).isSome) :
    ∃ st', writeBootInfo task args st = some (true, st') := by
  have size : (bootInfoHead task (min args.length MAX_BOOT_ARGS) ++
      args.take (min args.length MAX_BOOT_ARGS) ++ [0]).length ≤ 1081 := by
    simp [bootInfoHead, toLeBytes, MAX_BOOT_ARGS]
    omega
  generalize bytes : bootInfoHead task (min args.length MAX_BOOT_ARGS) ++
    args.take (min args.length MAX_BOOT_ARGS) ++ [0] = data at size
  have aligned : USER_INFO_BASE = 0x7ffffffd0 * 4096 := by decide
  have onePage : ∀ i < data.length, (leafAt st.space (USER_INFO_BASE + i)).isSome := by
    intro i small
    have eq : (USER_INFO_BASE + i) / FRAME_SIZE = USER_INFO_BASE / FRAME_SIZE := by
      rw [aligned, FRAME_SIZE]
      omega
    rw [leafAt, eq]
    exact mapped
  have canonical : USER_INFO_BASE + data.length ≤ 2 ^ 47 := by
    rw [aligned]
    omega
  have written : (writeUser st.space st.mem USER_INFO_BASE data).isSome :=
    writeUser_isSome canonical onePage
  obtain ⟨mem, wrote⟩ := Option.isSome_iff_exists.mp written
  exact ⟨{ st with mem := mem }, by simp only [writeBootInfo, bytes, wrote, mapped]⟩

theorem buildSpace_succeeds (task : BitVec 32) {entry : BitVec 64}
    (loaded : load profile spec.image st = some (.ok entry, st₁)) (roomy : Roomy st₁) :
    ∃ st', buildSpace profile task spec st = some (some entry, st') := by
  have enough := roomy.enough
  obtain ⟨st₂, stack, valid₂, free₂, others₂, -⟩ :=
    mapRange_ok dataFlags roomy.valid (by decide) roomy.stack (by omega)
  have heap₂ := roomy.heap.keep (by decide) others₂ (by decide)
  have info₂ := roomy.info.keep (by decide) others₂ (by decide)
  obtain ⟨st₃, heap, valid₃, free₃, others₃, -⟩ :=
    mapRange_ok dataFlags valid₂ (by decide) heap₂ (by omega)
  have info₃ := info₂.keep (by decide) others₃ (by decide)
  obtain ⟨st₄, info, -, -, -, mapped⟩ :=
    mapRange_ok dataFlags valid₃ (by decide) info₃ (by omega)
  obtain ⟨st₅, written⟩ := writeBootInfo_ok task spec.args (mapped _ le_rfl (Nat.lt_succ_self _))
  refine ⟨st₅, ?_⟩
  simp only [buildSpace, loaded, stack, heap, info, written, andThen]

theorem spawnFromImage_succeeds {k : Kernel} {nextId : BitVec 32} {space : AddressSpace}
    {fr : Frames} {entry : BitVec 64} (named : spec.name ≠ [])
    (graphic : spec.name.all Kernel.isAsciiGraphic = true)
    (room : k.services.length < Supervisor.MAX_SERVICES)
    (numbered : profile.add k.nextId 1 = some nextId)
    (made : AddressSpace.new half k.frames = (some space, fr))
    (loaded : load profile spec.image ⟨space, fr, k.mem⟩ = some (.ok entry, st₁))
    (roomy : Roomy st₁) : ∃ k', k.spawnFromImage profile half spec = some (some k.nextId, k') := by
  obtain ⟨st', built⟩ := buildSpace_succeeds k.nextId loaded roomy
  have known : k.register spec =
      some (k.services.length, { k with services := k.services ++ [⟨spec, none⟩] }) :=
    if_neg (Nat.not_le.mpr room)
  have entryAt := Kernel.getElem?_register known
  refine ⟨Kernel.publish { k with services := k.services ++ [⟨spec, none⟩], nextId := nextId }
    k.services.length k.nextId spec entry st', ?_⟩
  rw [Kernel.spawnFromImage, if_neg (by simp [named, graphic]), known]
  simp only [Kernel.spawn, entryAt, numbered, made, built]

theorem sysSpawnDesc_succeeds {k k' : Kernel} {desc : BitVec 64} {id : BitVec 32}
    (asked : k.spawnDescRequest desc = .ok spec)
    (spawned : k.spawnFromImage profile half spec = some (some id, k')) :
    k.sysSpawnDesc profile half desc 0 = some (.ok (id.setWidth 64), k') := by
  simp only [Kernel.sysSpawnDesc, asked, spawned, if_true]

end K1K.Spawn
