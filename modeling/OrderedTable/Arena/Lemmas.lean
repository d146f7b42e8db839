import OrderedTable.Arena.Slots

/-!
# What operations on numbered cells do to the view

Each operation of a `SlotArena` is told by what `SlotArena.get?` gives afterwards, for the id that
it was about and for any other, and by the number of values. An insertion issues an id that resolved to
nothing before (`SlotArena.get?_nextId`).
-/

namespace OrderedTable

namespace SlotArena

variable {α : Type} {a : SlotArena α} {id other : NodeId} {x : α}

theorem get?_congr {b : SlotArena α} (h : a.cells[id.slot]? = b.cells[id.slot]?) :
    a.get? id = b.get? id := by
  simp only [get?, h]

/-- An id does not resolve to what another use of its cell has put there. -/
theorem get?_eq_none_of_version {cell : Cell α} (h : a.cells[id.slot]? = some cell)
    (hv : cell.version ≠ id.version) : a.get? id = none := by
  simp [get?, h, hv]

theorem version_ne (h : other ≠ id) (hs : id.slot = other.slot) : id.version ≠ other.version :=
  fun hv => h (by cases id; cases other; simp_all)

@[simp] theorem get?_empty : ({} : SlotArena α).get? id = none := rfl

@[simp] theorem size_empty : ({} : SlotArena α).size = 0 := rfl

/-! ## Replacing a value -/

theorem cells_set (h : a.get? id = some x) (y : α) :
    (a.set id y).cells = a.cells.setIfInBounds id.slot ⟨id.version, some y⟩ := by
  simp [set, h]

theorem get?_set_self (h : a.get? id = some x) (y : α) : (a.set id y).get? id = some y := by
  rw [get?_eq_some_iff, cells_set h, Array.getElem?_setIfInBounds_self_of_lt (lt_size_of_get? h)]

theorem get?_set_ne (h : other ≠ id) (y : α) : (a.set id y).get? other = a.get? other := by
  by_cases hid : (a.get? id).isSome
  · obtain ⟨x, hx⟩ := Option.isSome_iff_exists.1 hid
    by_cases hs : id.slot = other.slot
    · have hv := version_ne h hs
      have hcell := hs ▸ get?_eq_some_iff.1 hx
      have hlt := hs ▸ lt_size_of_get? hx
      have hset : (a.set id y).cells[other.slot]? = some ⟨id.version, some y⟩ := by
        rw [cells_set hx, hs, Array.getElem?_setIfInBounds_self_of_lt hlt]
      rw [get?_eq_none_of_version hcell hv, get?_eq_none_of_version hset hv]
    · exact get?_congr (by rw [cells_set hx, Array.getElem?_setIfInBounds_ne hs])
  · simp [set, hid]

theorem free_set (y : α) : (a.set id y).free = a.free := by
  unfold set; split <;> rfl

@[simp] theorem cells_size_set (y : α) : (a.set id y).cells.size = a.cells.size := by
  unfold set; split <;> simp

@[simp] theorem size_set (y : α) : (a.set id y).size = a.size := by
  simp [size, free_set]

theorem get?_modify_self (f : α → α) : (a.modify id f).get? id = (a.get? id).map f := by
  cases h : a.get? id with
  | none => simp [modify, h]
  | some x => simp [modify, h, get?_set_self h]

theorem get?_modify_ne (h : other ≠ id) (f : α → α) : (a.modify id f).get? other = a.get? other := by
  unfold modify; split
  · exact get?_set_ne h _
  · rfl

@[simp] theorem size_modify (f : α → α) : (a.modify id f).size = a.size := by
  unfold modify; split <;> simp

/-! ## Inserting -/

theorem nextId_of_full (h : a.free = []) : a.nextId = ⟨a.cells.size, 0⟩ := by
  simp [nextId, h]

theorem get?_nextId (a : SlotArena α) : a.get? a.nextId = none := by
  cases h : a.free with
  | nil => simp [nextId_of_full h, get?]
  | cons s rest => simp [get?, (nextId_of_free h).1]

theorem insertWith_fst (a : SlotArena α) (make : NodeId → α) : (a.insertWith make).1 = a.nextId := by
  unfold insertWith; split <;> rfl

theorem cells_insertWith_of_free {s : Nat} {rest : List Nat} (h : a.free = s :: rest)
    (make : NodeId → α) : (a.insertWith make).2.cells =
      a.cells.setIfInBounds a.nextId.slot ⟨a.nextId.version, some (make a.nextId)⟩ := by
  have hs := (nextId_of_free h).2
  unfold insertWith; split
  next t r ht => simp_all
  next ht => simp_all

theorem cells_insertWith_of_full (h : a.free = []) (make : NodeId → α) :
    (a.insertWith make).2.cells = a.cells.push ⟨a.nextId.version, some (make a.nextId)⟩ := by
  unfold insertWith; split
  next t r ht => simp_all
  next ht => rfl

theorem get?_insertWith_self (a : SlotArena α) (make : NodeId → α) :
    (a.insertWith make).2.get? a.nextId = some (make a.nextId) := by
  rw [get?_eq_some_iff]
  cases h : a.free with
  | nil => rw [cells_insertWith_of_full h]; simp [nextId_of_full h]
  | cons s rest =>
    have hlt := (Array.getElem?_eq_some_iff.1 (nextId_of_free h).1).1
    rw [cells_insertWith_of_free h, Array.getElem?_setIfInBounds_self_of_lt hlt]

theorem get?_insertWith_ne (h : id ≠ a.nextId) (make : NodeId → α) :
    (a.insertWith make).2.get? id = a.get? id := by
  cases hf : a.free with
  | nil =>
    rw [nextId_of_full hf] at h
    by_cases hs : id.slot = a.cells.size
    · have hv : 0 ≠ id.version := fun hv => h (by cases id; simp_all)
      simp [get?, cells_insertWith_of_full hf, nextId_of_full hf, hs, hv]
    · exact get?_congr (by rw [cells_insertWith_of_full hf, Array.getElem?_push, if_neg hs])
  | cons s rest =>
    obtain ⟨hcell, hslot⟩ := nextId_of_free hf
    by_cases hs : a.nextId.slot = id.slot
    · have hv := version_ne h hs
      rw [hs] at hcell
      have hlt := (Array.getElem?_eq_some_iff.1 hcell).1
      have hset : (a.insertWith make).2.cells[id.slot]? =
          some ⟨a.nextId.version, some (make a.nextId)⟩ := by
        rw [cells_insertWith_of_free hf, hs, Array.getElem?_setIfInBounds_self_of_lt hlt]
      rw [get?_eq_none_of_version hcell hv, get?_eq_none_of_version hset hv]
    · exact get?_congr (by
        rw [cells_insertWith_of_free hf, Array.getElem?_setIfInBounds_ne hs])

theorem lt_cells_size_of_mem_free {s : Nat} (h : s ∈ a.free) : s < a.cells.size := by
  obtain ⟨v, hv⟩ := (a.mem_free s).1 h
  exact (Array.getElem?_eq_some_iff.1 hv).1

theorem free_length_le (a : SlotArena α) : a.free.length ≤ a.cells.size := by
  have hrange : a.free ⊆ List.range a.cells.size := fun _ hs =>
    List.mem_range.2 (lt_cells_size_of_mem_free hs)
  simpa using a.free_nodup.length_le_of_subset hrange

theorem size_insertWith (a : SlotArena α) (make : NodeId → α) :
    (a.insertWith make).2.size = a.size + 1 := by
  have hle := a.free_length_le
  unfold insertWith size; split
  next s rest h => simp_all; omega
  next h => simp_all

/-! ## Removing -/

theorem remove?_eq_none (h : a.get? id = none) : a.remove? id = none := by
  unfold remove?; split
  next hx => simp [h] at hx
  next => rfl

/-- A removal gives the value that was there, and changes its cell only. -/
theorem remove?_of_get? (h : a.get? id = some x) : ∃ b, a.remove? id = some (x, b) ∧
    b.cells = a.cells.setIfInBounds id.slot ⟨id.version + 1, none⟩ ∧ b.free = id.slot :: a.free := by
  unfold remove?; split
  next y hy => rw [h] at hy; cases hy; exact ⟨_, rfl, rfl, rfl⟩
  next hn => simp [h] at hn

variable {b : SlotArena α}

theorem get?_of_remove? (h : a.remove? id = some (x, b)) : a.get? id = some x := by
  cases hx : a.get? id with
  | none => simp [remove?_eq_none hx] at h
  | some y =>
    obtain ⟨c, hc, -⟩ := remove?_of_get? hx
    rw [h] at hc; cases hc; rfl

theorem cells_remove? (h : a.remove? id = some (x, b)) :
    b.cells = a.cells.setIfInBounds id.slot ⟨id.version + 1, none⟩ ∧ b.free = id.slot :: a.free := by
  obtain ⟨c, hc, hcells⟩ := remove?_of_get? (get?_of_remove? h)
  rw [h] at hc; cases hc; exact hcells

theorem get?_remove?_self (h : a.remove? id = some (x, b)) : b.get? id = none := by
  have hlt := lt_size_of_get? (get?_of_remove? h)
  simp [get?, (cells_remove? h).1, hlt]

theorem get?_remove?_ne (h : a.remove? id = some (x, b)) (hne : other ≠ id) :
    b.get? other = a.get? other := by
  have hx := get?_of_remove? h
  by_cases hs : id.slot = other.slot
  · have hcell := hs ▸ get?_eq_some_iff.1 hx
    have hlt := hs ▸ lt_size_of_get? hx
    rw [get?_eq_none_of_version hcell (version_ne hne hs)]
    simp [get?, (cells_remove? h).1, hs, hlt]
  · exact get?_congr (by rw [(cells_remove? h).1, Array.getElem?_setIfInBounds_ne hs])

theorem size_remove? (h : a.remove? id = some (x, b)) : b.size + 1 = a.size := by
  have hle := b.free_length_le
  obtain ⟨hcells, hfree⟩ := cells_remove? h
  simp only [size, hcells, hfree, Array.size_setIfInBounds, List.length_cons] at hle ⊢
  omega

/-! ## How many values there can be -/

/-- Different ids that resolve lie in different cells, and none of those is empty. -/
theorem length_le_size {ids : List NodeId} (h : ids.Nodup)
    (live : ∀ i ∈ ids, (a.get? i).isSome = true) : ids.length ≤ a.size := by
  have hlive : ∀ i ∈ ids, ∃ x, a.get? i = some x := fun i hi =>
    Option.isSome_iff_exists.1 (live i hi)
  have hslots : (ids.map NodeId.slot).Nodup := by
    refine List.pairwise_map.2 (h.imp_of_mem fun {i j} hi hj hne hs => hne ?_)
    obtain ⟨x, hx⟩ := hlive i hi
    obtain ⟨y, hy⟩ := hlive j hj
    rw [get?_eq_some_iff] at hx hy
    rw [hs, hy] at hx
    cases i; cases j; simp_all
  have hnd : (ids.map NodeId.slot ++ a.free).Nodup := by
    refine List.nodup_append.2 ⟨hslots, a.free_nodup, fun s hs t ht hst => ?_⟩
    obtain ⟨i, hi, rfl⟩ := List.mem_map.1 hs
    obtain ⟨x, hx⟩ := hlive i hi
    exact slot_notMem_free hx (hst ▸ ht)
  have hrange : ids.map NodeId.slot ++ a.free ⊆ List.range a.cells.size := by
    intro s hs
    rw [List.mem_range]
    rcases List.mem_append.1 hs with hs | hs
    · obtain ⟨i, hi, rfl⟩ := List.mem_map.1 hs
      obtain ⟨x, hx⟩ := hlive i hi
      exact lt_size_of_get? hx
    · exact lt_cells_size_of_mem_free hs
  have hle := hnd.length_le_of_subset hrange
  rw [List.length_append, List.length_map, List.length_range] at hle
  exact Nat.le_sub_of_add_le hle

end SlotArena

end OrderedTable
