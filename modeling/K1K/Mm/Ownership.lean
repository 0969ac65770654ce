import K1K.Mm.AddressSpace

/-!
# Who gives a frame back

Teardown frees what the page tables hold after the recorded foreign mappings have been taken
out. The balance: the frames in the tables are those taken from the allocator with those behind
recorded foreign pages. A mapping call that stops half-way breaks it: `map_shared` and
`map_device` leave pages mapped without a record, and `map_user_page` loses a frame.
-/

namespace K1K.Mm

open K1K.Lib

/-! ## Pages and their paths -/

theorem pagePath_injective {p q : Nat} (pSmall : p < USER_PAGES) (qSmall : q < USER_PAGES)
    (eq : pagePath p = pagePath q) : p = q := by
  simp only [pagePath, List.cons.injEq, Fin.ext_iff, Fin.val_ofNat, and_true] at eq
  simp only [USER_PAGES] at pSmall qSmall
  omega

theorem pagePath_head {page : Nat} (small : page < USER_PAGES) :
    (Fin.ofNat 512 (page / 512 ^ 3)).val < 256 := by
  simp only [USER_PAGES] at small
  simp only [Fin.val_ofNat]
  omega

/-! ## Frames taken from the allocator -/

structure Frames.Takes (fr fr' : Frames) (new : List Nat) : Prop where
  taken : fr'.taken = fr.taken ++ new
  gives : fr.map.Gives new fr'.map

namespace Frames

variable {fr fr' fr'' : Frames} {new more : List Nat}

theorem Takes.refl (valid : fr.map.Valid) : fr.Takes fr [] := ⟨by simp, .refl valid⟩

theorem Takes.trans (first : fr.Takes fr' new) (second : fr'.Takes fr'' more) :
    fr.Takes fr'' (new ++ more) :=
  ⟨by rw [second.taken, first.taken, List.append_assoc], first.gives.trans second.gives⟩

theorem Takes.subset (takes : fr.Takes fr' new) {frame : Nat} (mem : frame ∈ fr.taken) :
    frame ∈ fr'.taken := by
  rw [takes.taken]
  exact List.mem_append_left new mem

theorem take_takes {frame : Nat} (valid : fr.map.Valid) (drawn : fr.take = some (frame, fr')) :
    fr.Takes fr' [frame] := by
  unfold take at drawn
  split at drawn
  next found map allocated =>
    cases drawn
    have given := Bitmap.alloc_gives (i := frame) valid (by rw [allocated])
    rw [allocated] at given
    exact ⟨rfl, given⟩
  next => simp at drawn

theorem take_none_iff (valid : fr.map.Valid) : fr.take = none ↔ fr.map.free = 0 := by
  rw [← Bitmap.alloc_none_iff valid]
  unfold take
  split
  next found => simp [found]
  next missed => simp [missed]

end Frames

/-! ## One mapping -/

def bag (pml4 : Table 4) : Multiset Nat := ↑(pml4.contents Leaf.frame)

def Shares (kernel : Fin 512 → Table 3) (frame : Nat) (pml4 : Table 4) : Prop :=
  ∃ children, pml4 = .node frame children ∧ ∀ i, 256 ≤ i.val → children i = kernel i

/-- The tables and the allocator after some pages have been `added`, with the
frames of those among them that did not come from this allocator. -/
structure Grows (old : Table 4 × Frames) (new : Table 4 × Frames) (added : List (Nat × Leaf))
    (foreign : List Nat) : Prop where
  shares : ∀ kernel frame, Shares kernel frame old.1 → Shares kernel frame new.1
  balance : bag new.1 + ↑old.2.taken = bag old.1 + ↑new.2.taken + ↑foreign
  inside : ∀ page leaf, (page, leaf) ∈ added → page < USER_PAGES
  unmapped : ∀ page leaf, (page, leaf) ∈ added → translate old.1 page = none
  nodup : (added.map Prod.fst).Nodup
  translated : ∀ page, page < USER_PAGES → ∀ leaf, translate new.1 page = some leaf ↔
    (page, leaf) ∈ added ∨ translate old.1 page = some leaf
  takes : ∃ taken, old.2.Takes new.2 taken

section Mapping

variable {kernel : Fin 512 → Table 3} {pml4 pml4' pml4'' : Table 4} {fr fr' fr'' : Frames}
  {page : Nat} {leaf : Leaf} {added more : List (Nat × Leaf)} {foreign others : List Nat}

theorem Grows.refl (valid : fr.map.Valid) : Grows (pml4, fr) (pml4, fr) [] [] where
  shares _ _ := id
  balance := by simp
  inside := by simp
  unmapped := by simp
  nodup := List.nodup_nil
  translated := by simp
  takes := ⟨[], .refl valid⟩

theorem Grows.trans (first : Grows (pml4, fr) (pml4', fr') added foreign)
    (second : Grows (pml4', fr') (pml4'', fr'') more others) :
    Grows (pml4, fr) (pml4'', fr'') (added ++ more) (foreign ++ others) where
  shares kernel frame := second.shares kernel frame ∘ first.shares kernel frame
  balance := by
    have one := first.balance
    have two := second.balance
    simp only at one two ⊢
    refine add_right_cancel (b := (↑fr'.taken : Multiset Nat)) ?_
    rw [← Multiset.coe_add]
    calc _ = (bag pml4'' + ↑fr'.taken) + ↑fr.taken := by abel
      _ = (bag pml4' + ↑fr.taken) + (↑fr''.taken + ↑others) := by rw [two]; abel
      _ = _ := by rw [one]; abel
  inside page leaf member := by
    rcases List.mem_append.mp member with early | late
    · exact first.inside page leaf early
    · exact second.inside page leaf late
  unmapped page leaf member := by
    rcases List.mem_append.mp member with early | late
    · exact first.unmapped page leaf early
    have inside := second.inside page leaf late
    have free := second.unmapped page leaf late
    rw [Option.eq_none_iff_forall_ne_some] at free ⊢
    exact fun other found => free other ((first.translated page inside other).mpr (.inr found))
  nodup := by
    rw [List.map_append, List.nodup_append]
    refine ⟨first.nodup, second.nodup, ?_⟩
    rintro page early _ late rfl
    obtain ⟨⟨_, leaf⟩, member, rfl⟩ := List.mem_map.mp early
    obtain ⟨⟨_, other⟩, member', eq⟩ := List.mem_map.mp late
    have mapped := (first.translated _ (first.inside _ leaf member) leaf).mpr (.inl member)
    have free := second.unmapped _ other member'
    simp only at eq mapped free
    rw [eq, mapped] at free
    simp at free
  translated page small leaf := by
    rw [second.translated page small, first.translated page small, List.mem_append]
    tauto
  takes := by
    obtain ⟨early, one⟩ := first.takes
    obtain ⟨late, two⟩ := second.takes
    exact ⟨early ++ late, one.trans two⟩

theorem shares_mapTo (small : page < USER_PAGES) {frame : Nat}
    (shares : Shares kernel frame pml4) : Shares kernel frame (mapTo pml4 page leaf fr).2.1 := by
  obtain ⟨children, rfl, upper⟩ := shares
  refine ⟨_, rfl, fun i high => ?_⟩
  have ne : i ≠ Fin.ofNat 512 (page / 512 ^ 3) := by
    rintro rfl
    exact absurd (pagePath_head small) (Nat.not_lt.mpr high)
  rw [Function.update_of_ne ne, upper i high]

theorem takes_mapTo (valid : fr.map.Valid) :
    ∃ new, fr.Takes (mapTo pml4 page leaf fr).2.2 new := by
  refine Radix.insert_supply Frames.take leaf (fun later => ∃ new, fr.Takes later new) ?_
    (pagePath page) pml4 fr ⟨[], .refl valid⟩
  rintro later frame rest ⟨new, takes⟩ drawn
  exact ⟨new ++ [frame], takes.trans (Frames.take_takes takes.gives.valid drawn)⟩

variable (pml4 fr page leaf) in
theorem balance_mapTo : bag (mapTo pml4 page leaf fr).2.1 + ↑fr.taken =
    bag pml4 + ↑(mapTo pml4 page leaf fr).2.2.taken +
      if (mapTo pml4 page leaf fr).1 = .ok () then {leaf.frame} else 0 := by
  refine Radix.insert_accounts Frames.take leaf Leaf.frame Frames.taken ?_ (pagePath page) pml4 fr
  intro fr frame rest drawn
  unfold Frames.take at drawn
  split at drawn
  next => cases drawn; rfl
  next => simp at drawn

theorem mapTo_grows (valid : fr.map.Valid) (small : page < USER_PAGES)
    (mapped : (mapTo pml4 page leaf fr).1 = .ok ()) :
    Grows (pml4, fr) (mapTo pml4 page leaf fr).2 [(page, leaf)] [leaf.frame] where
  shares _ _ := shares_mapTo small
  balance := by
    have balance := balance_mapTo pml4 fr page leaf
    rw [if_pos mapped] at balance
    exact balance
  inside other _ member := by
    have same : other = page := by simpa using congrArg Prod.fst (List.mem_singleton.mp member)
    exact same ▸ small
  unmapped other _ member := by
    have same : other = page := by simpa using congrArg Prod.fst (List.mem_singleton.mp member)
    have inserted := (Radix.insert_inserts Frames.take leaf (pagePath page) pml4 fr rfl).1 mapped
    exact same ▸ inserted.1
  nodup := List.nodup_singleton page
  translated other inside found := by
    have inserted := (Radix.insert_inserts Frames.take leaf (pagePath page) pml4 fr rfl).1 mapped
    have looked := inserted.2 (pagePath other) rfl
    unfold translate
    rw [mapTo, looked]
    by_cases same : other = page
    · subst same
      simp [inserted.1, eq_comm]
    · have paths : pagePath other ≠ pagePath page := fun eq =>
        same (pagePath_injective inside small eq)
      simp [paths, same]
  takes := takes_mapTo valid

theorem mapTo_fails (valid : fr.map.Valid) (small : page < USER_PAGES)
    (failed : (mapTo pml4 page leaf fr).1 ≠ .ok ()) :
    Grows (pml4, fr) (mapTo pml4 page leaf fr).2 [] [] where
  shares _ _ := shares_mapTo small
  balance := by
    have balance := balance_mapTo pml4 fr page leaf
    rw [if_neg failed] at balance
    simpa using balance
  inside := by simp
  unmapped := by simp
  nodup := List.nodup_nil
  translated other inside found := by
    have kept := (Radix.insert_inserts Frames.take leaf (pagePath page) pml4 fr rfl).2 failed
    unfold translate
    rw [mapTo, kept (pagePath other) rfl]
    simp
  takes := takes_mapTo valid

/-! ## Whole calls -/

def Fits (pml4 : Table 4) (page : Nat) (fr : Frames) : Prop :=
  translate pml4 page = none ∧ pml4.missing (pagePath page) ≤ fr.map.free

instance (pml4 : Table 4) (page : Nat) (fr : Frames) : Decidable (Fits pml4 page fr) :=
  inferInstanceAs (Decidable (_ ∧ _))

variable (leaf) in
theorem mapTo_ok_iff (valid : fr.map.Valid) :
    (mapTo pml4 page leaf fr).1 = .ok () ↔ Fits pml4 page fr :=
  Radix.insert_ok_iff Frames.take leaf (fun fr => fr.map.Valid)
    (fun _ _ _ valid drawn => (Frames.take_takes valid drawn).gives.valid) (pagePath page) pml4 fr
    (fun fr => fr.map.free)
    (fun _ _ _ valid drawn => (Frames.take_takes valid drawn).gives.counted valid)
    (fun _ valid => Frames.take_none_iff valid) valid rfl

variable (pml4 page leaf) in
theorem free_mapTo (valid : fr.map.Valid) :
    fr.map.free ≤ (mapTo pml4 page leaf fr).2.2.map.free + 4 := by
  have drawn := Radix.insert_draws Frames.take leaf (fun fr => fr.map.Valid)
    (fun _ _ _ valid drawn => (Frames.take_takes valid drawn).gives.valid) (pagePath page) pml4 fr
    (fun fr => fr.map.free)
    (fun _ _ _ valid drawn => (Frames.take_takes valid drawn).gives.counted valid) valid
  exact drawn.trans (Nat.add_le_add_left (Radix.missing_le _ _) _)

def AllFit : List Leaf → Nat → Table 4 → Frames → Prop
  | [], _, _, _ => True
  | leaf :: rest, page, pml4, fr =>
    Fits pml4 page fr ∧
      AllFit rest (page + 1) (mapTo pml4 page leaf fr).2.1 (mapTo pml4 page leaf fr).2.2

instance decidableAllFit : (leaves : List Leaf) → (page : Nat) → (pml4 : Table 4) →
    (fr : Frames) → Decidable (AllFit leaves page pml4 fr)
  | [], _, _, _ => .isTrue trivial
  | leaf :: rest, page, pml4, fr =>
    have := decidableAllFit rest (page + 1) (mapTo pml4 page leaf fr).2.1
      (mapTo pml4 page leaf fr).2.2
    inferInstanceAs (Decidable (_ ∧ _))

/-- Every page of a user range fits when its turn comes, unless the allocator is
empty by then. -/
def UserFit (flags : Flags) : Nat → Nat → Table 4 → Frames → Prop
  | 0, _, _, _ => True
  | count + 1, page, pml4, fr =>
    match fr.take with
    | none => True
    | some (frame, fr) =>
      Fits pml4 page fr ∧
        UserFit flags count (page + 1) (mapTo pml4 page ⟨frame, flags.forUser⟩ fr).2.1
          (mapTo pml4 page ⟨frame, flags.forUser⟩ fr).2.2

instance decidableUserFit (flags : Flags) : (count page : Nat) → (pml4 : Table 4) →
    (fr : Frames) → Decidable (UserFit flags count page pml4 fr)
  | 0, _, _, _ => .isTrue trivial
  | count + 1, page, pml4, fr => by
    unfold UserFit
    cases fr.take with
    | none => exact .isTrue trivial
    | some drawn =>
      have := decidableUserFit flags count (page + 1)
        (mapTo pml4 page ⟨drawn.1, flags.forUser⟩ drawn.2).2.1
        (mapTo pml4 page ⟨drawn.1, flags.forUser⟩ drawn.2).2.2
      exact inferInstanceAs (Decidable (_ ∧ _))

theorem mapLeaves_grows {leaves : List Leaf} {completed : Bool} (valid : fr.map.Valid)
    (fit : AllFit leaves page pml4 fr)
    (ran : mapLeaves leaves page pml4 fr = some (completed, pml4', fr')) :
    completed = true ∧ Grows (pml4, fr) (pml4', fr')
      ((List.range' page leaves.length).zip leaves) (leaves.map Leaf.frame) := by
  fun_induction mapLeaves leaves page pml4 fr with
  | case1 =>
    cases ran
    exact ⟨rfl, .refl valid⟩
  | case2 => cases ran
  | case3 leaf rest page pml4 fr inside pml4₁ fr₁ res ih =>
    have small : page < USER_PAGES := Nat.lt_of_not_ge (not_or.mp inside).1
    have grown := mapTo_grows valid small ((mapTo_ok_iff leaf valid).mpr fit.1)
    obtain ⟨new, takes⟩ := grown.takes
    have later := fit.2
    rw [res] at grown takes later
    have continued := ih takes.gives.valid later ran
    exact ⟨continued.1, grown.trans continued.2⟩
  | case4 leaf rest page pml4 fr inside error pml4₁ fr₁ res =>
    have mapped := (mapTo_ok_iff leaf valid).mpr fit.1
    rw [res] at mapped
    cases mapped

theorem mapLeaves_stops {leaf : Leaf} {rest : List Leaf} {completed : Bool}
    (valid : fr.map.Valid) (unfit : ¬Fits pml4 page fr)
    (ran : mapLeaves (leaf :: rest) page pml4 fr = some (completed, pml4', fr')) :
    completed = false ∧ Grows (pml4, fr) (pml4', fr') [] [] := by
  have failed : (mapTo pml4 page leaf fr).1 ≠ .ok () := fun mapped =>
    unfit ((mapTo_ok_iff leaf valid).mp mapped)
  rw [mapLeaves] at ran
  split_ifs at ran with outside
  have grown := mapTo_fails valid (Nat.lt_of_not_ge (not_or.mp outside).1) failed
  rcases res : mapTo pml4 page leaf fr with ⟨_ | _, pml4₁, fr₁⟩
  · rw [res] at grown ran
    cases ran
    exact ⟨rfl, grown⟩
  · exact absurd (by rw [res]) failed

theorem Grows.own {frame : Nat} (drawn : fr.Takes fr' [frame])
    (grown : Grows (pml4, fr') (pml4', fr'') added [frame]) :
    Grows (pml4, fr) (pml4', fr'') added [] where
  shares := grown.shares
  balance := by
    have balance := grown.balance
    simp only [drawn.taken, ← Multiset.coe_add] at balance ⊢
    refine add_right_cancel (b := (↑[frame] : Multiset Nat)) ?_
    rw [add_assoc, balance]
    simp
  inside := grown.inside
  unmapped := grown.unmapped
  nodup := grown.nodup
  translated := grown.translated
  takes := by
    obtain ⟨new, takes⟩ := grown.takes
    exact ⟨[frame] ++ new, drawn.trans takes⟩

theorem mapUserPages_grows {flags : Flags} {count : Nat} {res : Except Radix.InsertError Unit}
    (valid : fr.map.Valid) (fit : UserFit flags count page pml4 fr)
    (ran : AddressSpace.mapUserPages flags count page pml4 fr = some (res, pml4', fr')) :
    ∃ added, Grows (pml4, fr) (pml4', fr') added [] := by
  fun_induction AddressSpace.mapUserPages flags count page pml4 fr with
  | case1 =>
    cases ran
    exact ⟨[], .refl valid⟩
  | case2 => cases ran
  | case3 count page pml4 fr lt pml4₁ fr₁ reached ih =>
    cases drawn : fr.take with
    | none => simp [AddressSpace.mapUserPage, drawn] at reached
    | some pair =>
      have takes := Frames.take_takes valid drawn
      simp only [UserFit, drawn] at fit
      simp only [AddressSpace.mapUserPage, drawn] at reached
      have mapped := (mapTo_ok_iff ⟨pair.1, flags.forUser⟩ takes.gives.valid).mpr fit.1
      have grown := mapTo_grows takes.gives.valid (Nat.lt_of_not_ge lt) mapped
      rw [reached] at grown fit
      have owned := grown.own takes
      obtain ⟨new, takes'⟩ := owned.takes
      obtain ⟨added, continued⟩ := ih takes'.gives.valid fit.2 ran
      exact ⟨_, owned.trans continued⟩
  | case4 count page pml4 fr lt error pml4₁ fr₁ reached =>
    cases ran
    cases drawn : fr.take with
    | none =>
      simp only [AddressSpace.mapUserPage, drawn, Prod.mk.injEq] at reached
      obtain ⟨-, rfl, rfl⟩ := reached
      exact ⟨[], .refl valid⟩
    | some pair =>
      simp only [UserFit, drawn] at fit
      simp only [AddressSpace.mapUserPage, drawn] at reached
      have mapped := (mapTo_ok_iff ⟨pair.1, flags.forUser⟩
        (Frames.take_takes valid drawn).gives.valid).mpr fit.1
      rw [reached] at mapped
      cases mapped

/-! ## Calls that stop anywhere -/

structure Extends (old : Table 4 × Frames) (new : Table 4 × Frames) (added : List (Nat × Leaf)) :
    Prop where
  translated : ∀ page, page < USER_PAGES → ∀ leaf, translate new.1 page = some leaf →
    (page, leaf) ∈ added ∨ translate old.1 page = some leaf
  takes : ∃ taken, old.2.Takes new.2 taken

theorem Grows.extends (grown : Grows (pml4, fr) (pml4', fr') added foreign) :
    Extends (pml4, fr) (pml4', fr') added where
  translated page small leaf := (grown.translated page small leaf).mp
  takes := grown.takes

theorem Extends.trans (first : Extends (pml4, fr) (pml4', fr') added)
    (second : Extends (pml4', fr') (pml4'', fr'') more) :
    Extends (pml4, fr) (pml4'', fr'') (added ++ more) where
  translated page small leaf found := by
    rcases second.translated page small leaf found with late | before
    · exact .inl (List.mem_append_right added late)
    · rcases first.translated page small leaf before with early | before
      · exact .inl (List.mem_append_left more early)
      · exact .inr before
  takes := by
    obtain ⟨early, one⟩ := first.takes
    obtain ⟨late, two⟩ := second.takes
    exact ⟨early ++ late, one.trans two⟩

theorem Extends.valid (grown : Extends (pml4, fr) (pml4', fr') added) : fr'.map.Valid := by
  obtain ⟨new, takes⟩ := grown.takes
  exact takes.gives.valid

variable (pml4 leaf) in
theorem mapTo_extends (valid : fr.map.Valid) (small : page < USER_PAGES) :
    ∃ added, Extends (pml4, fr) (mapTo pml4 page leaf fr).2 added ∧
      ∀ pair ∈ added, pair.2 = leaf := by
  by_cases mapped : (mapTo pml4 page leaf fr).1 = .ok ()
  · exact ⟨_, (mapTo_grows valid small mapped).extends, by simp⟩
  · exact ⟨_, (mapTo_fails valid small mapped).extends, by simp⟩

theorem mapLeaves_extends {leaves : List Leaf} {completed : Bool} (valid : fr.map.Valid)
    (ran : mapLeaves leaves page pml4 fr = some (completed, pml4', fr')) :
    ∃ added, Extends (pml4, fr) (pml4', fr') added ∧ ∀ pair ∈ added, pair.2 ∈ leaves := by
  fun_induction mapLeaves leaves page pml4 fr with
  | case1 =>
    cases ran
    exact ⟨[], (Grows.refl valid).extends, by simp⟩
  | case2 => cases ran
  | case3 leaf rest page pml4 fr inside pml4₁ fr₁ res ih =>
    obtain ⟨added, first, eq⟩ :=
      mapTo_extends pml4 leaf valid (Nat.lt_of_not_ge (not_or.mp inside).1)
    rw [res] at first
    obtain ⟨more, later, inRest⟩ := ih first.valid ran
    refine ⟨added ++ more, first.trans later, fun pair mem => ?_⟩
    rcases List.mem_append.mp mem with early | late
    · rw [eq pair early]
      exact List.mem_cons_self
    · exact List.mem_cons_of_mem leaf (inRest pair late)
  | case4 leaf rest page pml4 fr inside error pml4₁ fr₁ res =>
    cases ran
    obtain ⟨added, first, eq⟩ :=
      mapTo_extends pml4 leaf valid (Nat.lt_of_not_ge (not_or.mp inside).1)
    rw [res] at first
    refine ⟨added, first, fun pair mem => ?_⟩
    rw [eq pair mem]
    exact List.mem_cons_self

variable (pml4) in
theorem mapUserPage_extends (flags : Flags) (valid : fr.map.Valid) (small : page < USER_PAGES) :
    ∃ added, Extends (pml4, fr) (AddressSpace.mapUserPage pml4 page flags fr).2 added ∧
      ∀ pair ∈ added, pair.2.frame ∈ (AddressSpace.mapUserPage pml4 page flags fr).2.2.taken := by
  cases drawn : fr.take with
  | none =>
    rw [AddressSpace.mapUserPage, drawn]
    exact ⟨[], (Grows.refl valid).extends, by simp⟩
  | some pair =>
    have takes := Frames.take_takes valid drawn
    have owned : pair.1 ∈ pair.2.taken := by simp [takes.taken]
    rcases mapTo_extends pml4 ⟨pair.1, flags.forUser⟩ takes.gives.valid small with
      ⟨added, mapped, eq⟩
    obtain ⟨new, grown⟩ := mapped.takes
    rw [AddressSpace.mapUserPage, drawn]
    refine ⟨added, ⟨mapped.translated, _, takes.trans grown⟩, fun pair mem => ?_⟩
    rw [eq pair mem]
    exact grown.subset owned

theorem mapUserPages_extends {flags : Flags} {count : Nat}
    {res : Except Radix.InsertError Unit} (valid : fr.map.Valid)
    (ran : AddressSpace.mapUserPages flags count page pml4 fr = some (res, pml4', fr')) :
    ∃ added, Extends (pml4, fr) (pml4', fr') added ∧ ∀ pair ∈ added, pair.2.frame ∈ fr'.taken := by
  fun_induction AddressSpace.mapUserPages flags count page pml4 fr with
  | case1 =>
    cases ran
    exact ⟨[], (Grows.refl valid).extends, by simp⟩
  | case2 => cases ran
  | case3 count page pml4 fr lt pml4₁ fr₁ reached ih =>
    obtain ⟨added, first, kept⟩ := mapUserPage_extends pml4 flags valid (Nat.lt_of_not_ge lt)
    rw [reached] at first kept
    obtain ⟨more, later, inTaken⟩ := ih first.valid ran
    obtain ⟨_, grown⟩ := later.takes
    refine ⟨added ++ more, first.trans later, fun pair mem => ?_⟩
    rcases List.mem_append.mp mem with early | late
    · exact grown.subset (kept pair early)
    · exact inTaken pair late
  | case4 count page pml4 fr lt error pml4₁ fr₁ reached =>
    cases ran
    have first := mapUserPage_extends pml4 flags valid (Nat.lt_of_not_ge lt)
    rwa [reached] at first

end Mapping

/-! ## Teardown -/

def frameAt (pml4 : Table 4) (page : Nat) : List Nat :=
  (translate pml4 page).toList.map Leaf.frame

theorem translate_unmap {pml4 : Table 4} {page other : Nat} (small : page < USER_PAGES)
    (lt : other < USER_PAGES) :
    translate (unmap pml4 page) other = if other = page then none else translate pml4 other := by
  have looked := (Radix.remove_eq (pagePath page) pml4 rfl).2 (pagePath other) rfl
  unfold translate
  rw [unmap, looked]
  by_cases same : other = page
  · simp [same]
  · have paths : pagePath other ≠ pagePath page := fun eq =>
      same (pagePath_injective lt small eq)
    simp [same, paths]

theorem shares_unmap {kernel : Fin 512 → Table 3} {pml4 : Table 4} {page frame : Nat}
    (small : page < USER_PAGES) (shares : Shares kernel frame pml4) :
    Shares kernel frame (unmap pml4 page) := by
  obtain ⟨children, rfl, upper⟩ := shares
  refine ⟨_, rfl, fun i high => ?_⟩
  have ne : i ≠ Fin.ofNat 512 (page / 512 ^ 3) := by
    rintro rfl
    exact absurd (pagePath_head small) (Nat.not_lt.mpr high)
  rw [Function.update_of_ne ne, upper i high]

theorem unmap_all {kernel : Fin 512 → Table 3} {frame : Nat} {pages : List Nat}
    (nodup : pages.Nodup) (lt : ∀ page ∈ pages, page < USER_PAGES) (pml4 : Table 4)
    (shares : Shares kernel frame pml4) :
    bag pml4 = bag (pages.foldl unmap pml4) + ↑(pages.flatMap (frameAt pml4)) ∧
      Shares kernel frame (pages.foldl unmap pml4) := by
  induction pages generalizing pml4 with
  | nil => exact ⟨by simp, shares⟩
  | cons page rest ih =>
    have parts := List.nodup_cons.mp nodup
    have small := lt page List.mem_cons_self
    have later := fun other mem => lt other (List.mem_cons_of_mem page mem)
    rcases ih parts.2 later (unmap pml4 page) (shares_unmap small shares) with
      ⟨balance, kept⟩
    refine ⟨?_, kept⟩
    have removed : bag pml4 = bag (unmap pml4 page) + ↑(frameAt pml4 page) :=
      Radix.contents_remove Leaf.frame (pagePath page) pml4
    have untouched : rest.flatMap (frameAt (unmap pml4 page)) = rest.flatMap (frameAt pml4) := by
      refine List.flatMap_congr fun other mem => ?_
      have ne : other ≠ page := fun eq => parts.1 (eq ▸ mem)
      rw [frameAt, translate_unmap small (later other mem), if_neg ne, frameAt]
    rw [removed, balance, untouched, List.flatMap_cons, ← Multiset.coe_add, List.foldl_cons]
    abel

def kernelBag (kernel : Fin 512 → Table 3) : List Nat :=
  ((List.finRange 512).filter fun i => !decide (i.val < 256)).flatMap fun i =>
    (kernel i).contents Leaf.frame

theorem bag_of_shares {kernel : Fin 512 → Table 3} {frame : Nat} {pml4 : Table 4}
    (shares : Shares kernel frame pml4) :
    bag pml4 = ↑(AddressSpace.freeUserHalf pml4) + ↑(kernelBag kernel) + {frame} := by
  obtain ⟨children, rfl, upper⟩ := shares
  have halves := (List.filter_append_perm (fun i : Fin 512 => decide (i.val < 256))
    (List.finRange 512)).flatMap_right fun i => (children i).contents Leaf.frame
  have high : kernelBag kernel =
      ((List.finRange 512).filter fun i => !decide (i.val < 256)).flatMap fun i =>
        (children i).contents Leaf.frame := by
    refine List.flatMap_congr fun i mem => ?_
    have large : 256 ≤ i.val := by simpa using (List.mem_filter.mp mem).2
    rw [upper i large]
  rw [List.flatMap_append] at halves
  rw [high]
  simp only [bag, Radix.contents, AddressSpace.freeUserHalf, AddressSpace.freeTableRecursive,
    ← Multiset.coe_add]
  rw [← Multiset.coe_eq_coe.mpr halves, ← Multiset.coe_add]
  rfl

namespace AddressSpace

def foreignPages (s : AddressSpace) : List Nat :=
  s.shared.flatMap fun mapping =>
    (List.range mapping.pages).map (mapping.start / FRAME_SIZE + ·)

theorem unmapShared_eq (s : AddressSpace) : s.unmapShared = s.foreignPages.foldl unmap s.pml4 := by
  simp only [unmapShared, foreignPages, List.foldl_flatMap, List.foldl_map]

/-- The tables hold what was taken from the allocator, what is the kernel's, and
what lies behind the recorded foreign pages. -/
structure Owns (kernel : Fin 512 → Table 3) (s : AddressSpace) (taken : List Nat) : Prop where
  shares : ∃ frame, Shares kernel frame s.pml4
  inside : ∀ page ∈ s.foreignPages, page < USER_PAGES
  distinct : s.foreignPages.Nodup
  mapped : ∀ page ∈ s.foreignPages, (translate s.pml4 page).isSome
  balance : bag s.pml4 =
    ↑taken + ↑(kernelBag kernel) + ↑(s.foreignPages.flatMap (frameAt s.pml4))

variable {kernel : Fin 512 → Table 3} {s : AddressSpace} {taken : List Nat}

theorem Owns.drop_perm (owns : s.Owns kernel taken) : s.drop.Perm taken := by
  obtain ⟨frame, shares⟩ := owns.shares
  obtain ⟨split, kept⟩ := unmap_all owns.distinct owns.inside s.pml4 shares
  rw [owns.balance, ← s.unmapShared_eq] at split
  rw [← s.unmapShared_eq] at kept
  have left := add_right_cancel split
  rw [bag_of_shares kept] at left
  have top : pml4Frame s.pml4 = [frame] := by
    obtain ⟨children, eq, -⟩ := shares
    rw [eq]
    rfl
  rw [← Multiset.coe_eq_coe, drop, top, ← Multiset.coe_add]
  refine add_right_cancel (b := (↑(kernelBag kernel) : Multiset Nat)) ?_
  rw [left, add_right_comm]
  rfl

theorem Owns.new {fr fr' : Frames} {frame : Nat} (valid : fr.map.Valid)
    (drawn : fr.take = some (frame, fr')) (none : fr.taken = []) :
    Owns kernel ⟨.node frame fun i => if i.val < 256 then .empty else kernel i, [],
      USER_MMAP_BASE⟩ fr'.taken := by
  have shares : Shares kernel frame
      (.node frame fun i => if i.val < 256 then .empty else kernel i) :=
    ⟨_, rfl, fun i high => if_neg (Nat.not_lt.mpr high)⟩
  refine ⟨⟨frame, shares⟩, by simp [foreignPages], by simp [foreignPages],
    by simp [foreignPages], ?_⟩
  have lower : freeUserHalf (.node frame fun i => if i.val < 256 then .empty else kernel i) =
      [] := by
    rw [freeUserHalf, List.flatMap_eq_nil_iff]
    intro i mem
    have low : i.val < 256 := by simpa using (List.mem_filter.mp mem).2
    simp [freeTableRecursive, low, Radix.contents]
  rw [bag_of_shares shares, lower, (Frames.take_takes valid drawn).taken, none]
  simp [foreignPages, add_comm]

theorem frameAt_of_grows {old new : Table 4 × Frames} {added : List (Nat × Leaf)}
    {foreign : List Nat} (grown : Grows old new added foreign) {page : Nat}
    (lt : page < USER_PAGES) (mapped : (translate old.1 page).isSome) :
    (translate new.1 page).isSome ∧ frameAt new.1 page = frameAt old.1 page := by
  obtain ⟨leaf, found⟩ := Option.isSome_iff_exists.mp mapped
  have kept := (grown.translated page lt leaf).mpr (.inr found)
  simp [frameAt, kept, found]

theorem Owns.grow {fr fr' : Frames} {pml4 : Table 4} {added : List (Nat × Leaf)}
    (owns : s.Owns kernel fr.taken) (grown : Grows (s.pml4, fr) (pml4, fr') added []) :
    Owns kernel { s with pml4 := pml4 } fr'.taken := by
  obtain ⟨frame, shares⟩ := owns.shares
  have kept := fun page mem =>
    frameAt_of_grows grown (owns.inside page mem) (owns.mapped page mem)
  refine ⟨⟨frame, grown.shares kernel frame shares⟩, owns.inside, owns.distinct,
    fun page mem => (kept page mem).1, ?_⟩
  have eq : s.foreignPages.flatMap (frameAt pml4) = s.foreignPages.flatMap (frameAt s.pml4) :=
    List.flatMap_congr fun page mem => (kept page mem).2
  have balance := grown.balance
  simp only [Multiset.coe_nil, add_zero, owns.balance] at balance
  change bag pml4 = ↑fr'.taken + ↑(kernelBag kernel) + ↑(s.foreignPages.flatMap (frameAt pml4))
  rw [eq]
  refine add_right_cancel (b := (↑fr.taken : Multiset Nat)) ?_
  rw [balance]
  abel

theorem Owns.record {fr fr' : Frames} {pml4 : Table 4} {leaves : List Leaf}
    (owns : s.Owns kernel fr.taken)
    (grown : Grows (s.pml4, fr) (pml4, fr')
      ((List.range' (s.mmapNext / FRAME_SIZE) leaves.length).zip leaves)
      (leaves.map Leaf.frame)) :
    Owns kernel { pml4 := pml4
                  shared := s.shared ++ [⟨s.mmapNext, leaves.length⟩]
                  mmapNext := s.mmapNext + (leaves.length + 1) * FRAME_SIZE } fr'.taken := by
  obtain ⟨frame, shares⟩ := owns.shares
  have kept := fun page mem =>
    frameAt_of_grows grown (owns.inside page mem) (owns.mapped page mem)
  have lengths : (List.range' (s.mmapNext / FRAME_SIZE) leaves.length).length =
      leaves.length := by simp
  have pages : ((List.range' (s.mmapNext / FRAME_SIZE) leaves.length).zip leaves).map Prod.fst =
      List.range' (s.mmapNext / FRAME_SIZE) leaves.length :=
    List.map_fst_zip (Nat.le_of_eq lengths)
  have values : ((List.range' (s.mmapNext / FRAME_SIZE) leaves.length).zip leaves).map Prod.snd =
      leaves := List.map_snd_zip (Nat.le_of_eq lengths.symm)
  generalize ((List.range' (s.mmapNext / FRAME_SIZE) leaves.length).zip leaves) = added at *
  have recorded : foreignPages { pml4 := pml4
                                 shared := s.shared ++ [⟨s.mmapNext, leaves.length⟩]
                                 mmapNext := s.mmapNext + (leaves.length + 1) * FRAME_SIZE } =
      s.foreignPages ++ added.map Prod.fst := by
    simp [foreignPages, pages, List.range'_eq_map_range]
  have leafOf : ∀ page leaf, (page, leaf) ∈ added → translate pml4 page = some leaf :=
    fun page leaf mem =>
      (grown.translated page (grown.inside page leaf mem) leaf).mpr (.inl mem)
  have frames : (added.map Prod.fst).flatMap (frameAt pml4) = leaves.map Leaf.frame := by
    rw [← values, List.flatMap_map, List.map_map, List.map_eq_flatMap]
    refine List.flatMap_congr fun pair mem => ?_
    simp [frameAt, leafOf pair.1 pair.2 mem]
  constructor
  · exact ⟨frame, grown.shares kernel frame shares⟩
  · rw [recorded]
    intro page mem
    rcases List.mem_append.mp mem with was | now
    · exact owns.inside page was
    · obtain ⟨⟨_, leaf⟩, found, rfl⟩ := List.mem_map.mp now
      exact grown.inside _ leaf found
  · rw [recorded, List.nodup_append]
    refine ⟨owns.distinct, grown.nodup, ?_⟩
    rintro page was _ now rfl
    obtain ⟨⟨_, leaf⟩, found, rfl⟩ := List.mem_map.mp now
    have mapped := owns.mapped _ was
    rw [grown.unmapped _ leaf found] at mapped
    simp at mapped
  · rw [recorded]
    intro page mem
    rcases List.mem_append.mp mem with was | now
    · exact (kept page was).1
    · obtain ⟨⟨_, leaf⟩, found, rfl⟩ := List.mem_map.mp now
      simp [leafOf _ leaf found]
  · have eq : s.foreignPages.flatMap (frameAt pml4) =
        s.foreignPages.flatMap (frameAt s.pml4) :=
      List.flatMap_congr fun page mem => (kept page mem).2
    have balance := grown.balance
    simp only [owns.balance] at balance
    rw [recorded, List.flatMap_append, eq, frames, ← Multiset.coe_add]
    refine add_right_cancel (b := (↑fr.taken : Multiset Nat)) ?_
    change bag pml4 + ↑fr.taken = _
    rw [balance]
    abel

end AddressSpace

end K1K.Mm
