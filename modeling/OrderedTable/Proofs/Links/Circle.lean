import OrderedTable.Links.CircularList
import OrderedTable.Proofs.Links.Rewired

/-!
# Which sequence a circular list describes

`CircularList.Linked nodes before ids after` says that the nodes of `ids` are linked to each other
in this order, the first back to `before` and the last on to `after`, and `CircularList.Closed` that
they form a circle. `CircularList.Holds list nodes ids` says that the list is `ids`.

A node is put at an end (`Holds.push`) or taken out of the middle
(`Holds.erase`) at any place of the circle, because a circle may be read from any of its nodes
(`Closed.rotate`).
-/

namespace OrderedTable

/-- A sequence with one more element at an end. -/
def Side.insert {α : Type} (x : α) (xs : List α) : Side → List α
  | .front => x :: xs
  | .back => xs ++ [x]

@[simp] theorem Side.mem_insert {α : Type} {x y : α} {xs : List α} {side : Side} :
    y ∈ side.insert x xs ↔ y = x ∨ y ∈ xs := by
  cases side <;> simp [Side.insert, or_comm]

theorem Side.insert_perm {α : Type} (x : α) (xs : List α) (side : Side) :
    (side.insert x xs).Perm (x :: xs) := by
  cases side with
  | front => exact .refl _
  | back => exact List.perm_append_singleton x xs

@[simp] theorem Side.length_insert {α : Type} {x : α} {xs : List α} {side : Side} :
    (side.insert x xs).length = xs.length + 1 := (Side.insert_perm x xs side).length_eq

theorem Side.map_insert {α β : Type} (f : α → β) (x : α) (xs : List α) (side : Side) :
    (side.insert x xs).map f = side.insert (f x) (xs.map f) := by
  cases side <;> simp [Side.insert]

variable {σ ι : Type} [LinkStore σ ι (CircularLink ι)]

namespace CircularList

/-- The nodes of `ids` are linked in this order, from `before` on to `after`. -/
def Linked (nodes : σ) : ι → List ι → ι → Prop
  | _, [], _ => True
  | before, id :: rest, after =>
    LinkStore.link? nodes id = some (⟨before, rest.head?.getD after⟩ : CircularLink ι) ∧
      Linked nodes id rest after

/-- The nodes of `ids` form a circle. -/
def Closed (nodes : σ) (ids : List ι) : Prop :=
  ∀ first last, ids.head? = some first → ids.getLast? = some last → Linked nodes last ids first

/-- The list starts at the first of `ids`, which form a circle. -/
structure Holds (list : CircularList ι) (nodes : σ) (ids : List ι) : Prop where
  first : list.first? = ids.head?
  closed : Closed nodes ids
  nodup : ids.Nodup

variable {nodes nodes' : σ} {list : CircularList ι} {xs ys ids : List ι} {id before after : ι}

theorem linked_append : Linked nodes before (xs ++ ys) after ↔
    Linked nodes before xs (ys.head?.getD after) ∧
      Linked nodes (xs.getLast?.getD before) ys after := by
  induction xs generalizing before with
  | nil => simp [Linked]
  | cons x xs ih =>
    have hhead : (xs ++ ys).head?.getD after = xs.head?.getD (ys.head?.getD after) := by
      cases xs <;> simp
    have hlast : (x :: xs).getLast?.getD before = xs.getLast?.getD x := by
      rw [List.getLast?_cons, Option.getD_some]
    simp only [List.cons_append, Linked, ih, hhead, hlast, and_assoc]

theorem Linked.congr (h : Linked nodes before ids after)
    (hsame : ∀ id ∈ ids, (LinkStore.link? nodes' id : Option (CircularLink ι)) =
      LinkStore.link? nodes id) : Linked nodes' before ids after := by
  induction ids generalizing before with
  | nil => trivial
  | cons id rest ih =>
    refine ⟨(hsame id List.mem_cons_self).trans h.1, ih h.2 fun j hj => ?_⟩
    exact hsame j (List.mem_cons_of_mem _ hj)

theorem Linked.link_eq (h : Linked nodes before (xs ++ id :: ys) after) :
    LinkStore.link? nodes id =
      some (⟨xs.getLast?.getD before, ys.head?.getD after⟩ : CircularLink ι) :=
  (linked_append.1 h).2.1

theorem Closed.congr (h : Closed nodes ids)
    (hsame : ∀ id ∈ ids, (LinkStore.link? nodes' id : Option (CircularLink ι)) =
      LinkStore.link? nodes id) : Closed nodes' ids :=
  fun first last hfirst hlast => (h first last hfirst hlast).congr hsame

/-- A circle may be read from any of its nodes. -/
theorem Closed.rotate (h : Closed nodes (xs ++ ys)) : Closed nodes (ys ++ xs) := by
  cases xs with
  | nil => simpa using h
  | cons x xs =>
    cases ys with
    | nil => simpa using h
    | cons y ys =>
      intro first last hfirst hlast
      have hx : (x :: xs).getLast? = some last := by
        rw [List.getLast?_append] at hlast
        simpa using hlast
      obtain ⟨last', hy⟩ : ∃ last', (y :: ys).getLast? = some last' := ⟨_, List.getLast?_cons⟩
      have hlast' : (x :: xs ++ y :: ys).getLast? = some last' := by
        rw [List.getLast?_append, hy]
        rfl
      obtain ⟨h₁, h₂⟩ := linked_append.1 (h x last' rfl hlast')
      obtain rfl : y = first := by simpa using hfirst
      rw [hx] at h₂
      exact linked_append.2 ⟨by simpa using h₂, by simpa [hy] using h₁⟩

/-- What the link of a node on a circle holds: its neighbours, around the ends if need be. -/
theorem Closed.link_eq (h : Closed nodes (xs ++ id :: ys)) : LinkStore.link? nodes id =
    some (⟨(ys ++ xs).getLast?.getD id, (ys ++ xs).head?.getD id⟩ : CircularLink ι) := by
  have hlast : (id :: (ys ++ xs)).getLast? = some ((ys ++ xs).getLast?.getD id) :=
    List.getLast?_cons
  have h' : Closed nodes (id :: (ys ++ xs)) := by simpa using h.rotate
  exact (h' id _ rfl hlast).1

/-- By position: the neighbours stand one further and one back, counted around. -/
theorem Closed.link_getElem? (h : Closed nodes ids) {i : Nat} (hid : ids[i]? = some id) :
    ∃ link : CircularLink ι, LinkStore.link? nodes id = some link ∧
      ids[(i + 1) % ids.length]? = some link.next ∧
      ids[(i + (ids.length - 1)) % ids.length]? = some link.prev := by
  obtain ⟨xs, ys, rfl, rfl⟩ : ∃ xs ys, ids = xs ++ id :: ys ∧ i = xs.length := by
    obtain ⟨hlt, rfl⟩ := List.getElem?_eq_some_iff.1 hid
    refine ⟨ids.take i, ids.drop (i + 1), ?_, ?_⟩
    · rw [List.getElem_cons_drop, List.take_append_drop]
    · rw [List.length_take, Nat.min_eq_left (Nat.le_of_lt hlt)]
  have hlength : (xs ++ id :: ys).length = xs.length + ys.length + 1 := by
    rw [List.length_append, List.length_cons, Nat.add_assoc]
  refine ⟨_, h.link_eq, ?_, ?_⟩
  · rw [hlength]
    cases ys with
    | nil => cases xs <;> simp
    | cons y ys =>
      rw [Nat.mod_eq_of_lt (by simp), List.getElem?_append_right (Nat.le_succ _)]
      simp
  · rw [hlength, Nat.add_sub_cancel]
    rcases List.eq_nil_or_concat xs with rfl | ⟨zs, z, rfl⟩
    · rw [List.length_nil, Nat.zero_add, Nat.zero_add, Nat.mod_eq_of_lt (Nat.lt_succ_self _)]
      rcases List.eq_nil_or_concat ys with rfl | ⟨ws, w, rfl⟩ <;> simp
    · simp only [List.concat_eq_append]
      have hback : (zs ++ [z]).length + ((zs ++ [z]).length + ys.length) =
          zs.length + ((zs ++ [z]).length + ys.length + 1) := by
        rw [List.length_append, List.length_singleton]
        omega
      rw [hback, Nat.add_mod_right, Nat.mod_eq_of_lt (by simp; omega)]
      simp

theorem Closed.exists_link (h : Closed nodes ids) (hid : id ∈ ids) :
    ∃ link : CircularLink ι, LinkStore.link? nodes id = some link := by
  obtain ⟨xs, ys, rfl⟩ := List.append_of_mem hid
  exact ⟨_, h.link_eq⟩

namespace Holds

theorem last?_eq (h : list.Holds nodes ids) : list.last? nodes = .ok ids.getLast? := by
  rw [last?, h.first]
  cases ids with
  | nil => rfl
  | cons id rest =>
    have hclosed : Closed nodes ([] ++ id :: rest) := h.closed
    have hlink := hclosed.link_eq
    simp only [List.head?_cons, follow_eq_ok hlink, ok_bind, List.append_nil]
    rw [List.getLast?_cons]
    rfl

theorem isEmpty_eq (h : list.Holds nodes ids) : list.isEmpty = ids.isEmpty := by
  rw [isEmpty, h.first]
  cases ids <;> rfl

theorem next?_eq [DecidableEq ι] (h : list.Holds nodes (xs ++ id :: ys)) :
    list.next? nodes id = .ok ys.head? := by
  have hnd := h.nodup
  rw [next?, follow_eq_ok h.closed.link_eq, ok_bind, h.first]
  cases ys with
  | nil => cases xs <;> simp
  | cons y ys =>
    have hne : (xs ++ id :: y :: ys).head? ≠ some y := by
      rintro hy
      cases xs with
      | nil => simp_all
      | cons x xs => simp_all
    exact congrArg Except.ok (if_neg hne)

end Holds

theorem holds_nil (nodes : σ) : ({} : CircularList ι).Holds nodes [] :=
  ⟨rfl, (fun _ _ h => nomatch h), List.nodup_nil⟩

theorem Holds.congr (h : list.Holds nodes ids)
    (hsame : ∀ id ∈ ids, (LinkStore.link? nodes' id : Option (CircularLink ι)) =
      LinkStore.link? nodes id) : list.Holds nodes' ids :=
  ⟨h.first, h.closed.congr hsame, h.nodup⟩

variable [NodeStore σ] [LawfulLinkStore σ ι (CircularLink ι)]

theorem Holds.length_le_capacity (h : list.Holds nodes ids) :
    ids.length ≤ NodeStore.capacity nodes := by
  refine LawfulLinkStore.length_le_capacity (ℓ := CircularLink ι) nodes h.nodup fun id hid => ?_
  obtain ⟨link, hlink⟩ := h.closed.exists_link hid
  simp [hlink]

/-- The last of the nodes is led on to another one. -/
theorem Linked.setNext (h : Linked nodes before (xs ++ [id]) after) (hnd : (xs ++ [id]).Nodup)
    (next : ι) :
    ∃ nodes', relink nodes id (fun link : CircularLink ι => { link with next }) = .ok nodes' ∧
      Linked nodes' before (xs ++ [id]) next ∧ Rewired (CircularLink ι) nodes nodes' ∧
      ∀ j, j ≠ id →
        (LinkStore.link? nodes' j : Option (CircularLink ι)) = LinkStore.link? nodes j := by
  obtain ⟨nodes', hrelink, hself, hother, hrew⟩ := exists_relink h.link_eq
    fun link : CircularLink ι => { link with next }
  refine ⟨nodes', hrelink, ?_, hrew, hother⟩
  refine linked_append.2 ⟨(linked_append.1 h).1.congr fun j hj => hother j ?_, hself, trivial⟩
  exact (List.nodup_append.1 hnd).2.2 j hj id (List.mem_singleton_self _)

/-- The first of the nodes is led back to another one. -/
theorem Linked.setPrev (h : Linked nodes before (id :: ys) after) (hnd : (id :: ys).Nodup)
    (prev : ι) :
    ∃ nodes', relink nodes id (fun link : CircularLink ι => { link with prev }) = .ok nodes' ∧
      Linked nodes' prev (id :: ys) after ∧ Rewired (CircularLink ι) nodes nodes' ∧
      ∀ j, j ≠ id →
        (LinkStore.link? nodes' j : Option (CircularLink ι)) = LinkStore.link? nodes j := by
  obtain ⟨nodes', hrelink, hself, hother, hrew⟩ := exists_relink h.1
    fun link : CircularLink ι => { link with prev }
  refine ⟨nodes', hrelink, ⟨hself, h.2.congr fun j hj => hother j ?_⟩, hrew, hother⟩
  exact ne_of_mem_of_not_mem hj (List.nodup_cons.1 hnd).1

/-- Two ends of a line of nodes are led to other nodes, the last one first. -/
theorem Linked.splice (h : Linked nodes before ids after) (hnd : ids.Nodup) {first last : ι}
    (hfirst : ids.head? = some first) (hlast : ids.getLast? = some last) (prev next : ι) :
    ∃ nodes₁ nodes₂,
      relink nodes last (fun link : CircularLink ι => { link with next }) = .ok nodes₁ ∧
      relink nodes₁ first (fun link : CircularLink ι => { link with prev }) = .ok nodes₂ ∧
      Linked nodes₂ prev ids next ∧ Rewired (CircularLink ι) nodes nodes₂ ∧
      ∀ j, j ∉ ids →
        (LinkStore.link? nodes₂ j : Option (CircularLink ι)) = LinkStore.link? nodes j := by
  obtain ⟨xs, rfl⟩ := List.getLast?_eq_some_iff.1 hlast
  obtain ⟨nodes₁, hrelink₁, hlinked₁, hrew₁, hother₁⟩ := h.setNext hnd next
  obtain ⟨ys, hys⟩ := List.head?_eq_some_iff.1 hfirst
  rw [hys] at hlinked₁ hnd ⊢
  obtain ⟨nodes₂, hrelink₂, hlinked₂, hrew₂, hother₂⟩ := hlinked₁.setPrev hnd prev
  refine ⟨nodes₁, nodes₂, hrelink₁, hrelink₂, hlinked₂, hrew₁.trans hrew₂, fun j hj => ?_⟩
  have hlast' : last ∈ first :: ys := hys ▸ List.mem_append_right _ (List.mem_singleton_self _)
  rw [hother₂ j (fun hjf => hj (hjf ▸ List.mem_cons_self)),
    hother₁ j (fun hjl => hj (hjl ▸ hlast'))]

/-! ## Putting nodes on a list -/

/-- A node is put between the last node and the first. -/
theorem Holds.exists_close (h : list.Holds nodes ids) {old : CircularLink ι}
    (live : LinkStore.link? nodes id = some old) (hid : id ∉ ids) :
    ∃ nodes', list.close nodes id = .ok nodes' ∧ Closed nodes' (ids ++ [id]) ∧
      Rewired (CircularLink ι) nodes nodes' ∧ ∀ j, j ∉ ids → j ≠ id →
        (LinkStore.link? nodes' j : Option (CircularLink ι)) = LinkStore.link? nodes j := by
  cases hids : ids.head? with
  | none =>
    obtain rfl := List.head?_eq_none_iff.1 hids
    obtain ⟨nodes', hrelink, hself, hother, hrew⟩ := exists_relink live
      fun _ : CircularLink ι => CircularLink.detached id
    refine ⟨nodes', ?_, ?_, hrew, fun j _ => hother j⟩
    · rw [close, h.first]
      exact hrelink
    · rintro first last ⟨⟩ ⟨⟩
      exact ⟨hself, trivial⟩
  | some first =>
    obtain ⟨last, hlast⟩ : ∃ last, ids.getLast? = some last :=
      Option.isSome_iff_exists.1 (by cases ids <;> simp_all)
    obtain ⟨rest, rfl⟩ := List.head?_eq_some_iff.1 hids
    have hlinked := h.closed first last hids hlast
    -- The new node is linked first, then its neighbours to it.
    obtain ⟨nodes₁, hrelink, hself, hother, hrew⟩ := exists_relink live
      fun _ : CircularLink ι => ⟨last, first⟩
    have hlinked₁ := hlinked.congr fun j hj => hother j (ne_of_mem_of_not_mem hj hid)
    obtain ⟨nodes₂, nodes₃, hnext, hprev, hlinked₃, hrew', hother'⟩ :=
      hlinked₁.splice h.nodup hids hlast id id
    refine ⟨nodes₃, ?_, ?_, hrew.trans hrew', fun j hj hji => ?_⟩
    · rw [close, h.first]
      simp only [List.head?_cons, follow_eq_ok hlinked.1, ok_bind, hrelink, hnext, hprev]
    · rintro first' last' hfirst' hlast'
      obtain rfl : first = first' := by simpa using hfirst'
      obtain rfl : id = last' := by
        rw [List.getLast?_concat] at hlast'
        exact Option.some.inj hlast'
      refine linked_append.2 ⟨hlinked₃, ?_, trivial⟩
      rw [hother' id hid, hself, hlast]
      rfl
    · rw [hother' j hj, hother j hji]

theorem Holds.pushBack (h : list.Holds nodes ids) {old : CircularLink ι}
    (live : LinkStore.link? nodes id = some old) (hid : id ∉ ids) :
    ∃ list' nodes', list.pushBack nodes id = .ok (list', nodes') ∧
      list'.Holds nodes' (ids ++ [id]) ∧ Rewired (CircularLink ι) nodes nodes' ∧
      ∀ j, j ∉ ids → j ≠ id →
        (LinkStore.link? nodes' j : Option (CircularLink ι)) = LinkStore.link? nodes j := by
  obtain ⟨nodes', hclose, hclosed, hrew, hother⟩ := h.exists_close live hid
  refine ⟨⟨some (list.first?.getD id)⟩, nodes', ?_, ⟨?_, hclosed, ?_⟩, hrew, hother⟩
  · rw [CircularList.pushBack, hclose]
    rfl
  · rw [h.first]
    cases ids <;> rfl
  · exact List.nodup_append.2 ⟨h.nodup, by simp, fun a ha b hb hab =>
      hid (List.mem_singleton.1 hb ▸ hab ▸ ha)⟩

theorem Holds.pushFront (h : list.Holds nodes ids) {old : CircularLink ι}
    (live : LinkStore.link? nodes id = some old) (hid : id ∉ ids) :
    ∃ list' nodes', list.pushFront nodes id = .ok (list', nodes') ∧
      list'.Holds nodes' (id :: ids) ∧ Rewired (CircularLink ι) nodes nodes' ∧
      ∀ j, j ∉ ids → j ≠ id →
        (LinkStore.link? nodes' j : Option (CircularLink ι)) = LinkStore.link? nodes j := by
  obtain ⟨nodes', hclose, hclosed, hrew, hother⟩ := h.exists_close live hid
  refine ⟨⟨some id⟩, nodes', ?_, ⟨rfl, hclosed.rotate, List.nodup_cons.2 ⟨hid, h.nodup⟩⟩, hrew,
    hother⟩
  rw [CircularList.pushFront, hclose]
  rfl

/-- A node is put at either end. -/
theorem Holds.push (h : list.Holds nodes ids) {old : CircularLink ι}
    (live : LinkStore.link? nodes id = some old) (hid : id ∉ ids) (side : Side) :
    ∃ list' nodes', list.push nodes id side = .ok (list', nodes') ∧
      list'.Holds nodes' (side.insert id ids) ∧ Rewired (CircularLink ι) nodes nodes' ∧
      ∀ j, j ∉ ids → j ≠ id →
        (LinkStore.link? nodes' j : Option (CircularLink ι)) = LinkStore.link? nodes j := by
  cases side with
  | front => exact h.pushFront live hid
  | back => exact h.pushBack live hid

/-! ## Taking nodes off a list -/

variable [DecidableEq ι]

/-- A node is taken out of a circle and linked to itself. The list starts at the next node if it
started at this one. -/
theorem Closed.exists_unlink (h : Closed nodes (id :: ids)) (hnd : (id :: ids).Nodup)
    (hfirst : ids = [] → list.first? = some id) :
    ∃ nodes', list.erase nodes id =
        .ok (⟨if list.first? = some id then ids.head? else list.first?⟩, nodes') ∧
      Closed nodes' ids ∧ LinkStore.link? nodes' id = some (CircularLink.detached id) ∧
      Rewired (CircularLink ι) nodes nodes' ∧ ∀ j, j ∉ id :: ids →
        (LinkStore.link? nodes' j : Option (CircularLink ι)) = LinkStore.link? nodes j := by
  obtain ⟨hid, hnd⟩ := List.nodup_cons.1 hnd
  cases ids with
  | nil =>
    have hlink : LinkStore.link? nodes id = some (⟨id, id⟩ : CircularLink ι) := (h id id rfl rfl).1
    obtain ⟨nodes', hrelink, hself, hother, hrew⟩ := exists_relink hlink
      fun _ : CircularLink ι => CircularLink.detached id
    refine ⟨nodes', ?_, fun _ _ hnone => (nomatch hnone), hself, hrew, fun j hj => hother j ?_⟩
    · have hfirst := hfirst rfl
      rw [CircularList.erase, follow_eq_ok hlink, ok_bind, if_pos rfl, ensure_of_pos hfirst, ok_bind,
        hrelink, ok_bind, if_pos hfirst]
      rfl
    · rintro rfl
      exact hj List.mem_cons_self
  | cons first rest =>
    obtain ⟨last, hlast⟩ : ∃ last, (first :: rest).getLast? = some last := ⟨_, List.getLast?_cons⟩
    obtain ⟨hlink, hlinked⟩ := h id last rfl (by rw [List.getLast?_cons, hlast]; rfl)
    obtain ⟨nodes₁, nodes₂, hnext, hprev, hlinked₂, hrew, hother⟩ :=
      hlinked.splice hnd rfl hlast last first
    obtain ⟨nodes₃, hrelink, hself, hother₃, hrew₃⟩ := exists_relink
      ((hother id hid).trans hlink) fun _ : CircularLink ι => CircularLink.detached id
    refine ⟨nodes₃, ?_, ?_, hself, hrew.trans hrew₃, fun j hj => ?_⟩
    · have hne : first ≠ id := fun hfi => hid (hfi ▸ List.mem_cons_self)
      rw [CircularList.erase, follow_eq_ok hlink, ok_bind, if_neg (by exact hne)]
      simp only [List.head?_cons, Option.getD_some, hnext, hprev, hrelink, ok_bind, pure_eq_ok]
    · rintro first' last' ⟨⟩ hlast'
      obtain rfl := Option.some.inj (hlast.symm.trans hlast')
      exact hlinked₂.congr fun j hj => hother₃ j (ne_of_mem_of_not_mem hj hid)
    · rw [hother₃ j (List.ne_of_not_mem_cons hj), hother j (List.not_mem_of_not_mem_cons hj)]

theorem Holds.erase (h : list.Holds nodes ids) (hid : id ∈ ids) :
    ∃ list' nodes', list.erase nodes id = .ok (list', nodes') ∧ list'.Holds nodes' (ids.erase id) ∧
      LinkStore.link? nodes' id = some (CircularLink.detached id) ∧
      Rewired (CircularLink ι) nodes nodes' ∧ ∀ j, j ∉ ids →
        (LinkStore.link? nodes' j : Option (CircularLink ι)) = LinkStore.link? nodes j := by
  obtain ⟨xs, ys, rfl⟩ := List.append_of_mem hid
  have hndr := h.nodup.erase id
  have hidx : id ∉ xs := fun hmem =>
    (List.nodup_append.1 h.nodup).2.2 id hmem id List.mem_cons_self rfl
  rw [List.erase_append_right _ hidx, List.erase_cons_head] at hndr ⊢
  -- The circle is read from the node on.
  have hclosed : Closed nodes (id :: (ys ++ xs)) := by simpa using h.closed.rotate
  have hperm : (xs ++ id :: ys).Perm (id :: (ys ++ xs)) := List.perm_append_comm
  have hnd : (id :: (ys ++ xs)).Nodup := hperm.nodup_iff.1 h.nodup
  obtain ⟨nodes', herase, hclosed', hself, hrew, hother⟩ := hclosed.exists_unlink hnd fun hnil => by
    obtain ⟨rfl, rfl⟩ : ys = [] ∧ xs = [] := by simpa using hnil
    exact h.first
  refine ⟨_, nodes', herase, ⟨?_, hclosed'.rotate, hndr⟩, hself, hrew, fun j hj => hother j ?_⟩
  · rw [h.first]
    cases xs with
    | nil => simp
    | cons x xs =>
      have hx : x ≠ id := fun hxi => hidx (hxi ▸ List.mem_cons_self)
      simp [hx]
  · simpa [or_comm, or_left_comm] using hj

end CircularList

end OrderedTable
