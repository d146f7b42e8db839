import OrderedTable.Fault

/-!
# Stores of links

Chains and circular lists run through nodes that live elsewhere, in a `Pool` or in an arena. All
that they need of that place is a `LinkStore`: to read and to write the link of a node that is
named by its id. The lawful ones, `LawfulLinkStore`, give back what was last written and change no
other link.
-/

namespace OrderedTable

/-- A place that holds a bounded number of nodes. -/
class NodeStore (σ : Type) where
  /-- No more nodes than this are live at once. -/
  capacity : σ → Nat

/-- A place that holds nodes, named by ids of type `ι`, each with a link of type `ℓ`. -/
class LinkStore (σ : Type) (ι : outParam Type) (ℓ : Type) where
  /-- The link of a live node. -/
  link? : σ → ι → Option ℓ
  /-- Replaces the link of a live node. -/
  setLink : σ → ι → ℓ → σ

/-- A link store that holds what was written to it. -/
class LawfulLinkStore (σ : Type) (ι : outParam Type) (ℓ : Type) [NodeStore σ]
    [LinkStore σ ι ℓ] : Prop where
  link?_setLink_self (s : σ) (i : ι) (l : ℓ) (h : (LinkStore.link? s i : Option ℓ).isSome) :
    LinkStore.link? (LinkStore.setLink s i l) i = some l
  link?_setLink_ne (s : σ) {i j : ι} (l : ℓ) (h : i ≠ j) :
    (LinkStore.link? (LinkStore.setLink s i l) j : Option ℓ) = LinkStore.link? s j
  capacity_setLink (s : σ) (i : ι) (l : ℓ) :
    NodeStore.capacity (LinkStore.setLink s i l) = NodeStore.capacity s
  length_le_capacity (s : σ) {ids : List ι} (h : ids.Nodup)
    (live : ∀ i ∈ ids, (LinkStore.link? s i : Option ℓ).isSome) :
    ids.length ≤ NodeStore.capacity s

section

variable {σ ι ℓ : Type} [LinkStore σ ι ℓ]

/-- The link of the node that `id` names. -/
def follow (nodes : σ) (id : ι) : Except Fault ℓ :=
  match LinkStore.link? nodes id with
  | some link => .ok link
  | none => .error .deadNode

/-- Applies `f` to the link of the node that `id` names. -/
def relink (nodes : σ) (id : ι) (f : ℓ → ℓ) : Except Fault σ := do
  let link ← follow nodes id
  pure (LinkStore.setLink nodes id (f link))

/-- Applies `f` to the link of a node that may be missing, in which case nothing is done. -/
def relink? (nodes : σ) (id : Option ι) (f : ℓ → ℓ) : Except Fault σ :=
  match id with
  | some id => relink nodes id f
  | none => pure nodes

end

/-! ## Pools -/

/-- A fixed number of nodes, named by their position, that have nothing but a link. -/
abbrev Pool (ℓ : Type) := Array ℓ

namespace Pool

/-- The bytes of memory that a place for the position of a node, or for none, takes: a word for the
position and a word that tells whether there is one. -/
def placeSize : Nat := 16

variable {ℓ : Type}

instance : NodeStore (Pool ℓ) := ⟨Array.size⟩

instance : LinkStore (Pool ℓ) Nat ℓ where
  link? pool id := pool[id]?
  setLink pool id link := pool.setIfInBounds id link

instance : LawfulLinkStore (Pool ℓ) Nat ℓ where
  link?_setLink_self s i l h := by
    simp only [LinkStore.link?, LinkStore.setLink] at h ⊢
    rw [Array.getElem?_setIfInBounds_self_of_lt]
    simpa using h
  link?_setLink_ne s i j l h := by
    simp [LinkStore.link?, LinkStore.setLink, h]
  capacity_setLink s i l := by simp [NodeStore.capacity, LinkStore.setLink]
  length_le_capacity s ids h live := by
    have hrange : ids ⊆ List.range s.size := fun i hi =>
      List.mem_range.2 (by simpa [LinkStore.link?] using live i hi)
    simpa [NodeStore.capacity] using h.length_le_of_subset hrange

end Pool

end OrderedTable
