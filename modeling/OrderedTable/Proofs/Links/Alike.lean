import OrderedTable.Proofs.Links.Chains
import OrderedTable.Proofs.Links.Circle

/-!
# Links follow from the order

The links of a chain or of a circular list leave no freedom once the nodes and their order are
given. So where the nodes of one place are, by a map `f`, those of another place in the same order,
the links of the one are the links of the other under `f`: `Heads.Holds.link_map` for chains and
`CircularList.Holds.link_map` for lists.
-/

namespace OrderedTable

variable {σ τ ι κ : Type}

/-! ## Links under a map -/

def Slot.map (f : ι → κ) : Slot ι → Slot κ
  | .head bucket => .head bucket
  | .after id => .after (f id)

def ChainLink.map (f : ι → κ) (link : ChainLink ι) : ChainLink κ :=
  ⟨link.next.map f, link.holder.map (Slot.map f)⟩

def CircularLink.map (f : ι → κ) (link : CircularLink ι) : CircularLink κ :=
  ⟨f link.prev, f link.next⟩

@[simp] theorem Slot.map_id : Slot.map (id : ι → ι) = id :=
  funext fun slot => by cases slot <;> rfl

@[simp] theorem ChainLink.map_id (link : ChainLink ι) : link.map id = link := by
  rw [ChainLink.map, Slot.map_id, Option.map_id, Option.map_id]
  rfl

@[simp] theorem CircularLink.map_id (link : CircularLink ι) : link.map id = link := rfl

/-! ## Chains -/

section

variable [LinkStore σ ι (ChainLink ι)] [LinkStore τ κ (ChainLink κ)] {nodes : σ} {nodes' : τ}
  {f : ι → κ} {slot : Slot ι} {ids : List ι} {stop : Option ι} {id : ι}

theorem Chain.Threaded.link_map (h : Threaded nodes slot ids stop)
    (h' : Threaded nodes' (slot.map f) (ids.map f) (stop.map f)) (hid : id ∈ ids) :
    (LinkStore.link? nodes' (f id) : Option (ChainLink κ)) =
      (LinkStore.link? nodes id).map (ChainLink.map f) := by
  induction ids generalizing slot with
  | nil => exact absurd hid List.not_mem_nil
  | cons x rest ih =>
    obtain ⟨hlink, hrest⟩ := h
    obtain ⟨hlink', hrest'⟩ := h'
    rcases List.mem_cons.1 hid with rfl | hid
    · rw [hlink, hlink', Option.map_some, ChainLink.map, List.head?_map, Option.map_or]
      rfl
    · exact ih hrest hrest' hid

namespace Heads.Holds

variable {heads : Heads ι} {heads' : Heads κ} {chains : Nat → List ι}

theorem link_map (h : heads.Holds nodes chains)
    (h' : heads'.Holds nodes' fun b => (chains b).map f) {b : Nat} (hid : id ∈ chains b) :
    (LinkStore.link? nodes' (f id) : Option (ChainLink κ)) =
      (LinkStore.link? nodes id).map (ChainLink.map f) :=
  (h.threaded b).link_map (h'.threaded b) hid

theorem first_map (h : heads.Holds nodes chains)
    (h' : heads'.Holds nodes' fun b => (chains b).map f) (hcount : heads'.count = heads.count) :
    heads'.first = heads.first.map (Option.map f) := by
  refine Array.ext (hcount.trans (Array.size_map ..).symm) fun b hb hb' => ?_
  have hfirst := h.first b
  have hfirst' := h'.first b
  rw [Array.size_map] at hb'
  rw [Array.getElem?_eq_getElem hb', Option.join_some] at hfirst
  rw [Array.getElem?_eq_getElem hb, Option.join_some] at hfirst'
  rw [Array.getElem_map, hfirst, hfirst', List.head?_map]

end Heads.Holds

end

/-! ## Circular lists -/

namespace CircularList

variable [LinkStore σ ι (CircularLink ι)] [LinkStore τ κ (CircularLink κ)] {nodes : σ} {nodes' : τ}
  {f : ι → κ} {before after id : ι} {ids : List ι}

theorem Linked.link_map (h : Linked nodes before ids after)
    (h' : Linked nodes' (f before) (ids.map f) (f after)) (hid : id ∈ ids) :
    (LinkStore.link? nodes' (f id) : Option (CircularLink κ)) =
      (LinkStore.link? nodes id).map (CircularLink.map f) := by
  induction ids generalizing before with
  | nil => exact absurd hid List.not_mem_nil
  | cons x rest ih =>
    obtain ⟨hlink, hrest⟩ := h
    obtain ⟨hlink', hrest'⟩ := h'
    rcases List.mem_cons.1 hid with rfl | hid
    · rw [hlink, hlink', Option.map_some, CircularLink.map, List.head?_map, Option.getD_map]
    · exact ih hrest hrest' hid

theorem Holds.link_map {list : CircularList ι} {list' : CircularList κ} (h : list.Holds nodes ids)
    (h' : list'.Holds nodes' (ids.map f)) (hid : id ∈ ids) :
    (LinkStore.link? nodes' (f id) : Option (CircularLink κ)) =
      (LinkStore.link? nodes id).map (CircularLink.map f) := by
  cases ids with
  | nil => exact absurd hid List.not_mem_nil
  | cons first rest =>
    have hlast : (first :: rest).getLast? = some (rest.getLast?.getD first) := List.getLast?_cons
    refine (h.closed first _ rfl hlast).link_map (h'.closed _ _ rfl ?_) hid
    rw [List.getLast?_map, hlast, Option.map_some]

end CircularList

end OrderedTable
