import OrderedTable.Arena.Basic
import OrderedTable.Links.Basic

/-!
# Arenas as stores of links

An arena whose values have a link as one of their parts is a store of such links. One arena may be a
store of links of several types.
-/

namespace OrderedTable

namespace Arena

variable {A α ℓ : Type} [Arena A α]

instance : NodeStore A := ⟨size⟩

/-- The links that `read` finds in the values of an arena and `write` puts there. -/
@[reducible] def linkStore (read : α → ℓ) (write : α → ℓ → α) : LinkStore A NodeId ℓ where
  link? arena id := (get? arena id).map read
  setLink arena id link := modify arena id (write · link)

/-- Such a store holds what was written to it if `read` gives back what `write` has put there. -/
theorem lawful_linkStore [LawfulArena A α] (read : α → ℓ) (write : α → ℓ → α)
    (read_write : ∀ x link, read (write x link) = link) :
    letI : LinkStore A NodeId ℓ := linkStore read write
    LawfulLinkStore A NodeId ℓ :=
  letI : LinkStore A NodeId ℓ := linkStore read write
  { link?_setLink_self := fun s i l h => by
      obtain ⟨x, hx⟩ := Option.isSome_iff_exists.1 (Option.isSome_map.symm.trans h)
      simp [LinkStore.link?, LinkStore.setLink, LawfulArena.get?_modify_self, hx, read_write]
    link?_setLink_ne := fun s i j l h => by
      simp [LinkStore.link?, LinkStore.setLink, LawfulArena.get?_modify_ne s _ (Ne.symm h)]
    capacity_setLink := fun s i l => LawfulArena.size_modify s i _
    length_le_capacity := fun s ids h live =>
      LawfulArena.length_le_size h fun i hi => by simpa [LinkStore.link?] using live i hi }

end Arena

end OrderedTable
