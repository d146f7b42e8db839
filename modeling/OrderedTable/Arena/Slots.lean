import OrderedTable.Arena.Basic

/-!
# Arenas of numbered cells

A `SlotArena` keeps values in numbered cells. A cell that has been emptied is used again under the
next version, so an id names the one value that it was issued for. `Arena/Lemmas` says what each
operation does to the view `SlotArena.get?`.
-/

namespace OrderedTable

/-- How often a cell has been emptied, and what it holds now. -/
structure SlotArena.Cell (α : Type) where
  version : Nat
  content : Option α

theorem SlotArena.mem_free_empty {α : Type} (s : Nat) :
    s ∈ ([] : List Nat) ↔ ∃ v, (#[] : Array (SlotArena.Cell α))[s]? = some ⟨v, none⟩ := by
  simp

/-- Values in numbered cells. The empty cells are listed, the most recently emptied first. -/
structure SlotArena (α : Type) where
  cells : Array (SlotArena.Cell α) := #[]
  /-- The numbers of the empty cells. -/
  free : List Nat := []
  free_nodup : free.Nodup := by exact List.nodup_nil
  mem_free : ∀ s, s ∈ free ↔ ∃ v, cells[s]? = some ⟨v, none⟩ := by exact SlotArena.mem_free_empty

namespace SlotArena

variable {α : Type}

instance : Inhabited (SlotArena α) := ⟨{}⟩

/-- The value that `id` was issued for, unless it has been removed. -/
def get? (a : SlotArena α) (id : NodeId) : Option α :=
  match a.cells[id.slot]? with
  | some cell => if cell.version = id.version then cell.content else none
  | none => none

def size (a : SlotArena α) : Nat := a.cells.size - a.free.length

theorem get?_eq_some_iff {a : SlotArena α} {id : NodeId} {x : α} :
    a.get? id = some x ↔ a.cells[id.slot]? = some ⟨id.version, some x⟩ := by
  unfold get?
  split
  next cell h =>
    obtain ⟨v, c⟩ := cell
    by_cases hv : v = id.version <;> simp [h, hv]
  next h => simp [h]

theorem lt_size_of_get? {a : SlotArena α} {id : NodeId} {x : α} (h : a.get? id = some x) :
    id.slot < a.cells.size :=
  (Array.getElem?_eq_some_iff.1 (get?_eq_some_iff.1 h)).1

theorem slot_notMem_free {a : SlotArena α} {id : NodeId} {x : α} (h : a.get? id = some x) :
    id.slot ∉ a.free := by
  rw [a.mem_free, get?_eq_some_iff.1 h]
  simp

/-- Replaces the value behind `id`; an id that resolves to nothing changes nothing. -/
def set (a : SlotArena α) (id : NodeId) (x : α) : SlotArena α :=
  if h : (a.get? id).isSome then
    { a with
      cells := a.cells.setIfInBounds id.slot ⟨id.version, some x⟩
      mem_free := fun s => by
        obtain ⟨y, hy⟩ := Option.isSome_iff_exists.1 h
        have hfree := slot_notMem_free hy
        rw [Array.getElem?_setIfInBounds]
        by_cases hs : id.slot = s
        · subst hs; simp [hfree, lt_size_of_get? hy]
        · simp [hs, a.mem_free s] }
  else a

def modify (a : SlotArena α) (id : NodeId) (f : α → α) : SlotArena α :=
  match a.get? id with
  | some x => a.set id (f x)
  | none => a

/-- The id that the next insertion issues: the cell emptied last, or else a new one. -/
def nextId (a : SlotArena α) : NodeId :=
  match a.free with
  | s :: _ => ⟨s, (a.cells[s]?.map Cell.version).getD 0⟩
  | [] => ⟨a.cells.size, 0⟩

theorem nextId_of_free {a : SlotArena α} {s : Nat} {rest : List Nat} (h : a.free = s :: rest) :
    a.cells[a.nextId.slot]? = some ⟨a.nextId.version, none⟩ ∧ a.nextId.slot = s := by
  obtain ⟨v, hv⟩ := (a.mem_free s).1 (by simp [h])
  simp [nextId, h, hv]

/-- Puts `make id` into the arena, where `id` is the id issued for it. -/
def insertWith (a : SlotArena α) (make : NodeId → α) : NodeId × SlotArena α :=
  let id := a.nextId
  let cell : Cell α := ⟨id.version, some (make id)⟩
  match h : a.free with
  | s :: rest =>
    (id, {
      cells := a.cells.setIfInBounds s cell
      free := rest
      free_nodup := (List.nodup_cons.1 (h ▸ a.free_nodup)).2
      mem_free := fun t => by
        have hs : s ∉ rest := (List.nodup_cons.1 (h ▸ a.free_nodup)).1
        obtain ⟨v, hv⟩ := (a.mem_free s).1 (by simp [h])
        rw [Array.getElem?_setIfInBounds]
        by_cases ht : s = t
        · subst ht
          simp [hs, cell, (Array.getElem?_eq_some_iff.1 hv).1]
        · simpa [ht, h, Ne.symm ht] using a.mem_free t })
  | [] =>
    (id, {
      cells := a.cells.push cell
      free := []
      free_nodup := List.nodup_nil
      mem_free := fun t => by
        have hempty := a.mem_free t
        rw [h] at hempty
        rw [Array.getElem?_push]
        by_cases ht : t = a.cells.size
        · simp [ht, cell]
        · simpa [ht] using hempty })

/-- Takes the value behind `id` out, and gives its cell the next version. -/
def remove? (a : SlotArena α) (id : NodeId) : Option (α × SlotArena α) :=
  match h : a.get? id with
  | some x =>
    some (x, {
      cells := a.cells.setIfInBounds id.slot ⟨id.version + 1, none⟩
      free := id.slot :: a.free
      free_nodup := List.nodup_cons.2 ⟨slot_notMem_free h, a.free_nodup⟩
      mem_free := fun s => by
        rw [Array.getElem?_setIfInBounds]
        by_cases hs : id.slot = s
        · subst hs; simp [lt_size_of_get? h]
        · simp [hs, Ne.symm hs, a.mem_free s] })
  | none => none

instance : Arena (SlotArena α) α where
  empty := {}
  get? := get?
  size := size
  modify := modify
  insertWith := insertWith
  remove? := remove?

end SlotArena

end OrderedTable
