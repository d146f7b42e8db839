import OrderedTable.Arena.Lemmas

/-!
# Arenas of numbered cells are lawful

An id has been `Issued` if the cell that it names has come to the version that it names. What has
been issued stays so under every operation, and the next id has not been issued yet: so no id is
issued twice.
-/

namespace OrderedTable

namespace SlotArena

variable {α : Type} {a b : SlotArena α} {id other : NodeId} {x : α}

/-- The id has been issued, no matter whether its value is still there. -/
def Issued (a : SlotArena α) (id : NodeId) : Prop :=
  ∃ cell, a.cells[id.slot]? = some cell ∧
    (id.version < cell.version ∨ id.version = cell.version ∧ cell.content.isSome = true)

theorem issued_of_get? (h : a.get? id = some x) : a.Issued id :=
  ⟨_, get?_eq_some_iff.1 h, .inr ⟨rfl, rfl⟩⟩

theorem not_issued_nextId (a : SlotArena α) : ¬ a.Issued a.nextId := by
  rintro ⟨cell, hcell, hissued⟩
  cases hfree : a.free with
  | nil =>
    rw [nextId_of_full hfree] at hcell
    simp at hcell
  | cons s rest =>
    rw [(nextId_of_free hfree).1] at hcell
    obtain rfl := Option.some.inj hcell
    rcases hissued with hlt | ⟨-, hcontent⟩
    · exact Nat.lt_irrefl _ hlt
    · exact Bool.false_ne_true hcontent

/-- A cell that only gains versions, or values, issues no id back. -/
theorem Issued.of_cells (h : a.Issued id) (hcells : ∀ cell, a.cells[id.slot]? = some cell →
    ∃ cell', b.cells[id.slot]? = some cell' ∧
      (cell.version < cell'.version ∨
        cell.version = cell'.version ∧ (cell.content.isSome = true → cell'.content.isSome = true))) :
    b.Issued id := by
  obtain ⟨cell, hcell, hissued⟩ := h
  obtain ⟨cell', hcell', hle⟩ := hcells cell hcell
  refine ⟨cell', hcell', ?_⟩
  rcases hle with hlt | ⟨heq, hcontent⟩
  · rcases hissued with hv | ⟨hv, -⟩
    · exact .inl (Nat.lt_trans hv hlt)
    · exact .inl (hv ▸ hlt)
  · rcases hissued with hv | ⟨hv, hsome⟩
    · exact .inl (heq ▸ hv)
    · exact .inr ⟨hv.trans heq, hcontent hsome⟩

/-- The cells are those of `a`, but for one that has come to `new`. -/
theorem Issued.of_setIfInBounds (h : a.Issued other) {slot : Nat} {old new : Cell α}
    (hold : a.cells[slot]? = some old) (hb : b.cells = a.cells.setIfInBounds slot new)
    (hle : old.version < new.version ∨
      old.version = new.version ∧ (old.content.isSome = true → new.content.isSome = true)) :
    b.Issued other := by
  refine h.of_cells fun cell hcell => ?_
  by_cases hs : slot = other.slot
  · subst hs
    obtain rfl := Option.some.inj (hold.symm.trans hcell)
    refine ⟨new, ?_, hle⟩
    rw [hb, Array.getElem?_setIfInBounds_self_of_lt (Array.getElem?_eq_some_iff.1 hold).1]
  · refine ⟨cell, ?_, .inr ⟨rfl, fun hsome => hsome⟩⟩
    rw [hb, Array.getElem?_setIfInBounds_ne hs, hcell]

theorem Issued.modify (h : a.Issued other) (id : NodeId) (f : α → α) :
    (a.modify id f).Issued other := by
  cases hx : a.get? id with
  | none => simpa [SlotArena.modify, hx] using h
  | some x =>
    have hcells : (a.modify id f).cells =
        a.cells.setIfInBounds id.slot ⟨id.version, some (f x)⟩ := by
      simp only [SlotArena.modify, hx, cells_set hx]
    exact h.of_setIfInBounds (get?_eq_some_iff.1 hx) hcells (.inr ⟨rfl, fun _ => rfl⟩)

theorem Issued.insertWith (h : a.Issued other) (make : NodeId → α) :
    (a.insertWith make).2.Issued other := by
  cases hfree : a.free with
  | nil =>
    refine h.of_cells fun cell hcell => ⟨cell, ?_, .inr ⟨rfl, fun hsome => hsome⟩⟩
    have hlt := (Array.getElem?_eq_some_iff.1 hcell).1
    rw [cells_insertWith_of_full hfree, Array.getElem?_push, if_neg (Nat.ne_of_lt hlt), hcell]
  | cons s rest =>
    exact h.of_setIfInBounds (nextId_of_free hfree).1 (cells_insertWith_of_free hfree make)
      (.inr ⟨rfl, fun _ => rfl⟩)

theorem Issued.remove? (h : a.Issued other) (hb : a.remove? id = some (x, b)) : b.Issued other :=
  h.of_setIfInBounds (get?_eq_some_iff.1 (get?_of_remove? hb)) (cells_remove? hb).1
    (.inl (Nat.lt_succ_self _))

theorem issued_insertWith (a : SlotArena α) (make : NodeId → α) :
    (a.insertWith make).2.Issued (a.insertWith make).1 := by
  rw [insertWith_fst]
  exact issued_of_get? (get?_insertWith_self a make)

theorem Issued.becomes (h : a.Issued other) (hb : Arena.Becomes a b) : b.Issued other := by
  induction hb with
  | refl => exact h
  | modify _ id f ih => exact ih.modify id f
  | insertWith _ make ih => exact ih.insertWith make
  | remove _ hremove ih => exact ih.remove? hremove

instance : LawfulArena (SlotArena α) α where
  get?_empty _ := get?_empty
  size_empty := size_empty
  get?_modify_self _ _ := get?_modify_self
  get?_modify_ne _ _ _ f h := get?_modify_ne h f
  size_modify _ _ := size_modify
  get?_insertWith_fst a make := by
    change a.get? (a.insertWith make).1 = none
    rw [insertWith_fst, get?_nextId]
  get?_insertWith_self a make := by
    change (a.insertWith make).2.get? (a.insertWith make).1 = some (make (a.insertWith make).1)
    rw [insertWith_fst, get?_insertWith_self]
  get?_insertWith_ne a make other h := get?_insertWith_ne (insertWith_fst a make ▸ h) make
  size_insertWith := size_insertWith
  insertWith_ne {a b make} h make' heq := by
    have hissued : b.Issued (a.insertWith make).1 := (issued_insertWith a make).becomes h
    have hid : (b.insertWith make').1 = (a.insertWith make).1 := heq
    rw [← hid, insertWith_fst] at hissued
    exact not_issued_nextId b hissued
  remove?_eq_none := remove?_eq_none
  exists_remove? h := by
    obtain ⟨b, hb, -⟩ := remove?_of_get? h
    exact ⟨b, hb, get?_remove?_self hb, fun _ hne => get?_remove?_ne hb hne, size_remove? hb⟩
  length_le_size := length_le_size

end SlotArena

end OrderedTable
