import OrderedTable.Arena.Basic

/-!
# Ids that have been issued

An id has been `Issued` by an arena if an insertion has given it out, at any time before. What has
been issued stays so under every operation, and in a lawful arena the next id has not been issued
yet.
-/

namespace OrderedTable

namespace Arena

variable {A α : Type} [Arena A α] {a b c : A} {id other : NodeId} {x : α}

theorem contains_iff : contains a id = true ↔ ∃ x, get? a id = some x := Option.isSome_iff_exists

theorem Becomes.trans (h : Becomes a b) (h' : Becomes b c) : Becomes a c := by
  induction h' with
  | refl => exact h
  | modify _ id f ih => exact ih.modify id f
  | insertWith _ make ih => exact ih.insertWith make
  | remove _ hremove ih => exact ih.remove hremove

/-- The id has been issued, no matter whether its value is still there. -/
def Issued (a : A) (id : NodeId) : Prop :=
  ∃ (before : A) (make : NodeId → α), (insertWith before make).1 = id ∧
    Becomes (insertWith before make).2 a

theorem Issued.becomes (h : Issued a id) (hb : Becomes a b) : Issued b id := by
  obtain ⟨before, make, hid, ha⟩ := h
  exact ⟨before, make, hid, ha.trans hb⟩

theorem issued_insertWith (a : A) (make : NodeId → α) :
    Issued (insertWith a make).2 (insertWith a make).1 := ⟨a, make, rfl, .refl⟩

theorem map_get?_modify {β : Type} [LawfulArena A α] {f : α → α} (g : α → β)
    (hg : ∀ x, g (f x) = g x) : (get? (modify a id f) other).map g = (get? a other).map g := by
  by_cases hother : other = id
  · subst hother
    rw [LawfulArena.get?_modify_self, Option.map_map]
    exact congrArg (Option.map · (get? a other)) (funext hg)
  · rw [LawfulArena.get?_modify_ne a f hother]

/-! ## What comes and what goes -/

/-- The arena `b` is `a` with a value put in under an id that has not been issued. -/
structure Inserted (a : A) (id : NodeId) (x : α) (b : A) : Prop where
  get?_old : get? a id = none
  get?_self : get? b id = some x
  get?_ne : ∀ other, other ≠ id → get? b other = get? a other
  size : Arena.size b = Arena.size a + 1
  becomes : Becomes a b
  not_issued : ¬ Issued a id
  issued : Issued b id

/-- The arena `b` is `a` with the value behind an id taken out. -/
structure Removed (a : A) (id : NodeId) (b : A) : Prop where
  get?_self : get? b id = none
  get?_ne : ∀ other, other ≠ id → get? b other = get? a other
  size : Arena.size b + 1 = Arena.size a
  becomes : Becomes a b

variable [LawfulArena A α]

theorem not_issued_insertWith (a : A) (make : NodeId → α) : ¬ Issued a (insertWith a make).1 := by
  rintro ⟨before, make', hid, ha⟩
  exact LawfulArena.insertWith_ne ha make hid.symm

theorem exists_insertWith (a : A) (make : NodeId → α) :
    ∃ id b, insertWith a make = (id, b) ∧ Inserted a id (make id) b :=
  ⟨_, _, rfl, {
    get?_old := LawfulArena.get?_insertWith_fst a make
    get?_self := LawfulArena.get?_insertWith_self a make
    get?_ne := fun _ hne => LawfulArena.get?_insertWith_ne a make hne
    size := LawfulArena.size_insertWith a make
    becomes := .insertWith .refl make
    not_issued := not_issued_insertWith a make
    issued := issued_insertWith a make }⟩

theorem exists_remove? (h : get? a id = some x) :
    ∃ b, remove? a id = some (x, b) ∧ Removed a id b := by
  obtain ⟨b, hremove, hself, hother, hsize⟩ := LawfulArena.exists_remove? h
  exact ⟨b, hremove, hself, hother, hsize, .remove .refl hremove⟩

end Arena

end OrderedTable
