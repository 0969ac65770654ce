import K1K.Mm.Ownership

/-!
# A whole user range

What `map_user_range` has done once it returns: every page of the range, unmapped before, has a
new frame of its own, and no other page has changed.
-/

namespace K1K.Mm

open K1K.Lib
open Function (update update_of_ne update_self)

variable {pml4 pml4' : Table 4} {fr fr' : Frames} {flags : Flags} {first count : Nat}

/-- The pages `first` to `first + count - 1` are mapped now, each onto the frame
that `given` has for it. -/
structure MapsRange (flags : Flags) (first count : Nat) (old new : Table 4 × Frames)
    (given : Nat → Nat) (taken : List Nat) : Prop where
  inside : ∀ page, first ≤ page → page < first + count → page < USER_PAGES
  unmapped : ∀ page, first ≤ page → page < first + count → translate old.1 page = none
  mapped : ∀ page, first ≤ page → page < first + count →
    translate new.1 page = some ⟨given page, flags⟩
  others : ∀ page, page < USER_PAGES → page < first ∨ first + count ≤ page →
    translate new.1 page = translate old.1 page
  takes : old.2.Takes new.2 taken
  drawn : ∀ page, first ≤ page → page < first + count → given page ∈ taken
  apart : ∀ page other, first ≤ page → page < first + count → first ≤ other →
    other < first + count → given page = given other → page = other

theorem MapsRange.cons {pml4₁ : Table 4} {fr₁ : Frames} {new : Table 4 × Frames} {frame : Nat}
    {given : Nat → Nat} {tables later : List Nat} (small : first < USER_PAGES)
    (early : fr.Takes fr₁ (frame :: tables)) (unmapped : translate pml4 first = none)
    (here : translate pml4₁ first = some ⟨frame, flags⟩)
    (was : ∀ page, page ≠ first → page < USER_PAGES → translate pml4₁ page = translate pml4 page)
    (range : MapsRange flags (first + 1) count (pml4₁, fr₁) new given later) :
    MapsRange flags first (count + 1) (pml4, fr) new (update given first frame)
      (frame :: tables ++ later) := by
  have total := early.trans range.takes
  have fresh : frame ∉ later := by
    have nodup := total.gives.nodup
    rw [List.cons_append, List.nodup_cons] at nodup
    exact fun mem => nodup.1 (List.mem_append_right tables mem)
  have split (page : Nat) (above : first ≤ page) (below : page < first + (count + 1)) :
      page = first ∨ first + 1 ≤ page ∧ page < first + 1 + count := by omega
  refine ⟨?_, ?_, ?_, ?_, total, ?_, ?_⟩
  · intro page above below
    rcases split page above below with rfl | ⟨above, below⟩
    · exact small
    · exact range.inside page above below
  · intro page above below
    rcases split page above below with rfl | ⟨above, below⟩
    · exact unmapped
    · rw [← was page (by omega) (range.inside page above below)]
      exact range.unmapped page above below
  · intro page above below
    rcases split page above below with rfl | ⟨above, below⟩
    · rw [update_self, ← here]
      exact range.others page small (by omega)
    · rw [update_of_ne (by omega)]
      exact range.mapped page above below
  · intro page lt ne
    rw [← was page (by omega) lt]
    exact range.others page lt (by omega)
  · intro page above below
    rcases split page above below with rfl | ⟨above, below⟩
    · simp
    · rw [update_of_ne (by omega)]
      exact List.mem_append_right _ (range.drawn page above below)
  · intro page other above below above' below' eq
    rcases split page above below with rfl | ⟨above, below⟩ <;>
      rcases split other above' below' with rfl | ⟨above', below'⟩
    · rfl
    · rw [update_self, update_of_ne (by omega)] at eq
      exact absurd (eq ▸ range.drawn other above' below') fresh
    · rw [update_self, update_of_ne (by omega)] at eq
      exact absurd (eq ▸ range.drawn page above below) fresh
    · rw [update_of_ne (by omega), update_of_ne (by omega)] at eq
      exact range.apart page other above below above' below' eq

theorem mapUserPages_isSome (le : first + count ≤ USER_PAGES) :
    (AddressSpace.mapUserPages flags count first pml4 fr).isSome := by
  fun_induction AddressSpace.mapUserPages flags count first pml4 fr with
  | case1 | case4 => rfl
  | case2 => omega
  | case3 _ _ _ _ _ _ _ _ ih => exact ih (by omega)

theorem mapUserPages_mapsRange (valid : fr.map.Valid)
    (ran : AddressSpace.mapUserPages flags count first pml4 fr = some (.ok (), pml4', fr')) :
    ∃ given taken, MapsRange flags.forUser first count (pml4, fr) (pml4', fr') given taken := by
  fun_induction AddressSpace.mapUserPages flags count first pml4 fr with
  | case1 =>
    cases ran
    refine ⟨id, [], ?_, ?_, ?_, fun _ _ _ => rfl, .refl valid, ?_, ?_⟩
    all_goals
      intros
      omega
  | case2 | case4 => cases ran
  | case3 count first pml4 fr lt pml4₁ fr₁ reached ih =>
    have small : first < USER_PAGES := Nat.lt_of_not_ge lt
    cases taken : fr.take with
    | none => simp [AddressSpace.mapUserPage, taken] at reached
    | some pair =>
      have own := Frames.take_takes valid taken
      simp only [AddressSpace.mapUserPage, taken] at reached
      have grown := mapTo_grows own.gives.valid small (by rw [reached])
      rw [reached] at grown
      obtain ⟨tables, tablesTaken⟩ := grown.takes
      have early := own.trans tablesTaken
      obtain ⟨given, later, range⟩ := ih early.gives.valid ran
      refine ⟨_, _, range.cons small early (grown.unmapped first ⟨pair.1, flags.forUser⟩ (by simp))
        ((grown.translated first small _).mpr (.inl (by simp))) fun page differs low => ?_⟩
      refine Option.ext fun leaf => ?_
      have translated := grown.translated page low leaf
      simpa [differs] using translated

theorem mapUserPage_ok (flags : Flags) (valid : fr.map.Valid)
    (unmapped : translate pml4 first = none) (enough : 5 ≤ fr.map.free) :
    ∃ pml4' fr', AddressSpace.mapUserPage pml4 first flags fr = (.ok (), pml4', fr') ∧
      fr.map.free ≤ fr'.map.free + 5 := by
  cases ran : fr.take with
  | none =>
    have empty := (Frames.take_none_iff valid).mp ran
    omega
  | some pair =>
    obtain ⟨frame, fr₁⟩ := pair
    have own := Frames.take_takes valid ran
    have fewer : fr.map.free = fr₁.map.free + 1 := own.gives.counted valid
    have tables := Radix.missing_le (pagePath first) pml4
    have fits : (mapTo pml4 first ⟨frame, flags.forUser⟩ fr₁).1 = .ok () :=
      (mapTo_ok_iff _ own.gives.valid).mpr ⟨unmapped, by omega⟩
    have drawn := free_mapTo pml4 first ⟨frame, flags.forUser⟩ own.gives.valid
    refine ⟨(mapTo pml4 first ⟨frame, flags.forUser⟩ fr₁).2.1,
      (mapTo pml4 first ⟨frame, flags.forUser⟩ fr₁).2.2, ?_, by omega⟩
    rw [AddressSpace.mapUserPage, ran]
    exact Prod.ext fits rfl

theorem mapUserPages_ok (flags : Flags) (valid : fr.map.Valid) (le : first + count ≤ USER_PAGES)
    (unmapped : ∀ page, first ≤ page → page < first + count → translate pml4 page = none)
    (enough : 5 * count ≤ fr.map.free) :
    ∃ pml4' fr', AddressSpace.mapUserPages flags count first pml4 fr = some (.ok (), pml4', fr') ∧
      fr'.map.Valid ∧ fr.map.free ≤ fr'.map.free + 5 * count := by
  induction count generalizing first pml4 fr with
  | zero => exact ⟨pml4, fr, rfl, valid, Nat.le_refl _⟩
  | succ count ih =>
    obtain ⟨pml4₁, fr₁, mapped, drawn⟩ := mapUserPage_ok flags valid
      (unmapped first le_rfl (by omega)) (by omega)
    have single : AddressSpace.mapUserPages flags 1 first pml4 fr = some (.ok (), pml4₁, fr₁) := by
      simp [AddressSpace.mapUserPages, mapped, show first < USER_PAGES by omega]
    obtain ⟨given, ran, range⟩ := mapUserPages_mapsRange valid single
    have valid₁ : fr₁.map.Valid := range.takes.gives.valid
    have unmapped₁ : ∀ page, first + 1 ≤ page → page < first + 1 + count →
        translate pml4₁ page = none := by
      intro page above below
      have eq : translate pml4₁ page = translate pml4 page :=
        range.others page (by omega) (by omega)
      rw [eq]
      exact unmapped page (by omega) (by omega)
    obtain ⟨pml4', fr', rest, valid', drawn'⟩ :=
      ih valid₁ (by omega) unmapped₁ (by omega)
    refine ⟨pml4', fr', ?_, valid', by omega⟩
    rw [AddressSpace.mapUserPages, if_neg (by omega), mapped]
    exact rest

end K1K.Mm
