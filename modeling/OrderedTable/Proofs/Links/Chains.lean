import Mathlib.Algebra.Group.Nat.Defs
import OrderedTable.Buckets
import OrderedTable.Proofs.Links.Rewired

/-!
# Which chains the links describe

`Chain.Threaded nodes slot ids stop` says that the nodes of `ids` are threaded behind `slot`: each
names the next one, the last one names `stop`, and each remembers the slot that names it.
`Heads.Holds heads nodes chains` says that the heads and the links describe the family `chains` of
sequences, one for each bucket, and nothing else.

`Heads.push` then prepends to one sequence of the family (`Heads.Holds.push`), `Heads.erase` erases
the node from whichever sequence it is in (`Heads.Holds.erase`), and `Heads.chain` reads a sequence
back (`Heads.Holds.chain_eq`).
-/

namespace OrderedTable

variable {σ ι : Type} [LinkStore σ ι (ChainLink ι)]

namespace Chain

/-- The nodes of `ids` are threaded behind `slot` and lead to `stop`. -/
def Threaded (nodes : σ) : Slot ι → List ι → Option ι → Prop
  | _, [], _ => True
  | slot, id :: rest, stop =>
    LinkStore.link? nodes id =
        some ({ next := rest.head?.or stop, holder := some slot } : ChainLink ι) ∧
      Threaded nodes (.after id) rest stop

/-- The slot behind the nodes of a list that starts at `slot`. -/
def endSlot (slot : Slot ι) : List ι → Slot ι
  | [] => slot
  | id :: rest => endSlot (.after id) rest

variable {nodes nodes' : σ} {slot slot' : Slot ι} {xs ys ids : List ι} {stop stop' : Option ι}
  {id : ι}

@[simp] theorem endSlot_concat : endSlot slot (xs ++ [id]) = .after id := by
  induction xs generalizing slot with
  | nil => rfl
  | cons x xs ih => exact ih

theorem endSlot_head_eq_head {b c : Nat} :
    endSlot (.head c : Slot ι) xs = .head b ↔ xs = [] ∧ c = b := by
  rcases List.eq_nil_or_concat xs with rfl | ⟨zs, z, rfl⟩
  · simp [endSlot]
  · simp

theorem endSlot_head_eq_after {c : Nat} :
    endSlot (.head c : Slot ι) xs = .after id ↔ ∃ zs, xs = zs ++ [id] := by
  rcases List.eq_nil_or_concat xs with rfl | ⟨zs, z, rfl⟩
  · simp [endSlot]
  · simp only [List.concat_eq_append, endSlot_concat, Slot.after.injEq]
    refine ⟨fun hz => ⟨zs, by rw [hz]⟩, fun ⟨zs', hzs⟩ => ?_⟩
    exact List.singleton_inj.1 (List.append_inj_right' hzs rfl)

theorem threaded_append : Threaded nodes slot (xs ++ ys) stop ↔
    Threaded nodes slot xs (ys.head?.or stop) ∧ Threaded nodes (endSlot slot xs) ys stop := by
  induction xs generalizing slot with
  | nil => simp [Threaded, endSlot]
  | cons x xs ih =>
    have hhead : (xs ++ ys).head?.or stop = xs.head?.or (ys.head?.or stop) := by
      cases xs <;> simp
    simp only [List.cons_append, Threaded, endSlot, ih, hhead, and_assoc]

theorem Threaded.congr (h : Threaded nodes slot ids stop)
    (hsame : ∀ id ∈ ids, (LinkStore.link? nodes' id : Option (ChainLink ι)) =
      LinkStore.link? nodes id) : Threaded nodes' slot ids stop := by
  induction ids generalizing slot with
  | nil => trivial
  | cons id rest ih =>
    refine ⟨(hsame id List.mem_cons_self).trans h.1, ih h.2 fun j hj => ?_⟩
    exact hsame j (List.mem_cons_of_mem _ hj)

theorem Threaded.link_eq (h : Threaded nodes slot (xs ++ id :: ys) stop) :
    LinkStore.link? nodes id =
      some ({ next := ys.head?.or stop, holder := some (endSlot slot xs) } : ChainLink ι) :=
  (threaded_append.1 h).2.1

theorem Threaded.exists_link (h : Threaded nodes slot ids stop) (hid : id ∈ ids) :
    ∃ link : ChainLink ι, LinkStore.link? nodes id = some link ∧ link.isChained = true := by
  obtain ⟨xs, ys, rfl⟩ := List.append_of_mem hid
  exact ⟨_, h.link_eq, rfl⟩

theorem Threaded.next?_eq (h : Threaded nodes slot (id :: ids) none) :
    next? nodes id = .ok ids.head? := by
  rw [next?, follow_eq_ok h.1, Option.or_none]
  rfl

theorem walk_eq (h : Threaded nodes slot ids none) {fuel : Nat} (hfuel : ids.length ≤ fuel) :
    walk nodes fuel ids.head? = .ok ids := by
  induction ids generalizing slot fuel with
  | nil => cases fuel <;> rfl
  | cons id rest ih =>
    cases fuel with
    | zero => simp at hfuel
    | succ fuel =>
      simp only [List.head?_cons, walk, h.next?_eq, ok_bind]
      rw [ih h.2 (by simpa using hfuel)]
      rfl

variable [NodeStore σ] [LawfulLinkStore σ ι (ChainLink ι)]

/-- The first of the nodes is given another holder. -/
theorem Threaded.rehang (h : Threaded nodes slot ids stop) (hnd : ids.Nodup) (slot' : Slot ι) :
    ∃ nodes', relink? nodes ids.head? (fun link : ChainLink ι =>
        { link with holder := some slot' }) = .ok nodes' ∧
      Threaded nodes' slot' ids stop ∧ Rewired (ChainLink ι) nodes nodes' ∧ ∀ j, j ∉ ids →
        (LinkStore.link? nodes' j : Option (ChainLink ι)) = LinkStore.link? nodes j := by
  cases ids with
  | nil => exact ⟨nodes, rfl, trivial, .refl, fun _ _ => rfl⟩
  | cons id rest =>
    obtain ⟨hlink, hrest⟩ := h
    obtain ⟨nodes', hrelink, hself, hother, hrew⟩ := exists_relink hlink fun link : ChainLink ι =>
      { link with holder := some slot' }
    refine ⟨nodes', hrelink, ⟨hself, hrest.congr fun j hj => hother j ?_⟩, hrew,
      fun j hj => hother j ?_⟩
    · rintro rfl
      exact (List.nodup_cons.1 hnd).1 hj
    · rintro rfl
      exact hj List.mem_cons_self

/-- The last of the nodes is led to another stop. -/
theorem Threaded.redirect (h : Threaded nodes slot (xs ++ [id]) stop) (hnd : (xs ++ [id]).Nodup)
    (stop' : Option ι) :
    ∃ nodes', relink nodes id (fun link : ChainLink ι => { link with next := stop' }) = .ok nodes' ∧
      Threaded nodes' slot (xs ++ [id]) stop' ∧ Rewired (ChainLink ι) nodes nodes' ∧
      ∀ j, j ≠ id → (LinkStore.link? nodes' j : Option (ChainLink ι)) = LinkStore.link? nodes j := by
  obtain ⟨nodes', hrelink, hself, hother, hrew⟩ := exists_relink h.link_eq fun link : ChainLink ι =>
    { link with next := stop' }
  refine ⟨nodes', hrelink, ?_, hrew, hother⟩
  refine threaded_append.2 ⟨(threaded_append.1 h).1.congr fun j hj => hother j ?_, hself, trivial⟩
  exact (List.nodup_append.1 hnd).2.2 j hj id (List.mem_singleton_self _)

end Chain

/-! ## The chains of all buckets -/

/-- The heads and the links describe one chain for each bucket. -/
structure Heads.Holds (heads : Heads ι) (nodes : σ) (chains : Nat → List ι) : Prop where
  /-- A head names the first node of its chain; there are no chains without a head. -/
  first : ∀ b, heads.first[b]?.join = (chains b).head?
  threaded : ∀ b, Chain.Threaded nodes (.head b) (chains b) none
  nodup : ∀ b, (chains b).Nodup
  /-- No node is on two chains. -/
  apart : ∀ b c id, id ∈ chains b → id ∈ chains c → b = c
  /-- A node on no chain has an empty link. -/
  unchained : ∀ id (link : ChainLink ι), (∀ b, id ∉ chains b) →
    LinkStore.link? nodes id = some link → link = {}

namespace Heads

variable {heads : Heads ι} {nodes nodes' : σ} {chains : Nat → List ι} {b bucket : Nat} {id : ι}

theorem first?_eq_ok (hb : b < heads.count) : heads.first? b = .ok heads.first[b]?.join := by
  have hlt : b < heads.first.size := hb
  simp [first?, Array.getElem?_eq_getElem hlt]

theorem setFirst_eq_ok (hb : b < heads.count) (first : Option ι) :
    heads.setFirst b first = .ok ⟨heads.first.setIfInBounds b first⟩ := if_pos hb

theorem first_setIfInBounds (hb : b < heads.count) (first : Option ι) (c : Nat) :
    (heads.first.setIfInBounds b first)[c]?.join =
      if c = b then first else heads.first[c]?.join := by
  have hlt : b < heads.first.size := hb
  rw [Array.getElem?_setIfInBounds]
  by_cases h : b = c
  · subst h; simp [hlt]
  · simp [h, Ne.symm h]

namespace Holds

theorem first?_eq (h : heads.Holds nodes chains) (hb : b < heads.count) :
    heads.first? b = .ok (chains b).head? := by
  rw [first?_eq_ok hb, h.first]

theorem lt_count (h : heads.Holds nodes chains) (hid : id ∈ chains b) : b < heads.count := by
  refine Nat.lt_of_not_le fun hb => ?_
  have hnone : heads.first[b]? = none := Array.getElem?_eq_none hb
  have hfirst := h.first b
  rw [hnone, Option.join_none, eq_comm, List.head?_eq_none_iff] at hfirst
  rw [hfirst] at hid
  exact List.not_mem_nil hid

theorem isEmptyAt_eq (h : heads.Holds nodes chains) (hb : b < heads.count) :
    heads.isEmptyAt b = .ok (chains b).isEmpty := by
  rw [isEmptyAt, h.first?_eq hb]
  cases chains b <;> rfl

/-! ## What a link tells -/

/-- A node that has a holder or a successor is on a chain. -/
theorem exists_split (h : heads.Holds nodes chains) {link : ChainLink ι}
    (hlink : LinkStore.link? nodes id = some link) (hne : link ≠ {}) :
    ∃ b xs ys, chains b = xs ++ id :: ys ∧
      link = { next := ys.head?, holder := some (Chain.endSlot (.head b) xs) } := by
  obtain ⟨b, hid⟩ : ∃ b, id ∈ chains b := Classical.byContradiction fun hnone =>
    hne (h.unchained id link (not_exists.1 hnone) hlink)
  obtain ⟨xs, ys, hxs⟩ := List.append_of_mem hid
  have hthreaded := h.threaded b
  rw [hxs] at hthreaded
  refine ⟨b, xs, ys, hxs, Option.some.inj (hlink.symm.trans ?_)⟩
  rw [hthreaded.link_eq, Option.or_none]

/-- The holder of a node is the head of a bucket if the node is the first there. -/
theorem holder_eq_head_iff (h : heads.Holds nodes chains) {link : ChainLink ι}
    (hlink : LinkStore.link? nodes id = some link) :
    link.holder = some (.head b) ↔ (chains b).head? = some id := by
  constructor
  · intro hholder
    obtain ⟨c, xs, ys, hxs, rfl⟩ := h.exists_split hlink fun heq => by simp [heq] at hholder
    obtain ⟨rfl, rfl⟩ := Chain.endSlot_head_eq_head.1 (Option.some.inj hholder)
    rw [hxs, List.nil_append, List.head?_cons]
  · intro hhead
    obtain ⟨ys, hys⟩ := List.head?_eq_some_iff.1 hhead
    have hthreaded := h.threaded b
    rw [hys] at hthreaded
    rw [← Option.some.inj (hthreaded.1.symm.trans hlink)]

/-- The holder of a node is another node if that one's successor is the node. -/
theorem holder_eq_after_iff (h : heads.Holds nodes chains) {link : ChainLink ι} {other : ι}
    (hlink : LinkStore.link? nodes id = some link) : link.holder = some (.after other) ↔
      ∃ before : ChainLink ι, LinkStore.link? nodes other = some before ∧ before.next = some id := by
  constructor
  · intro hholder
    obtain ⟨b, xs, ys, hxs, rfl⟩ := h.exists_split hlink fun heq => by simp [heq] at hholder
    obtain ⟨zs, rfl⟩ := Chain.endSlot_head_eq_after.1 (Option.some.inj hholder)
    have hthreaded := h.threaded b
    rw [hxs, List.append_assoc] at hthreaded
    exact ⟨_, hthreaded.link_eq, rfl⟩
  · rintro ⟨before, hbefore, hnext⟩
    obtain ⟨b, xs, ys, hxs, rfl⟩ := h.exists_split hbefore fun heq => by simp [heq] at hnext
    obtain ⟨zs, rfl⟩ := List.head?_eq_some_iff.1 hnext
    have hthreaded := h.threaded b
    rw [hxs, List.append_cons] at hthreaded
    rw [Option.some.inj (hlink.symm.trans hthreaded.link_eq), Chain.endSlot_concat]

theorem exists_next (h : heads.Holds nodes chains) {link : ChainLink ι} {next : ι}
    (hlink : LinkStore.link? nodes id = some link) (hnext : link.next = some next) :
    ∃ after : ChainLink ι, LinkStore.link? nodes next = some after := by
  obtain ⟨b, xs, ys, hxs, rfl⟩ := h.exists_split hlink fun heq => by simp [heq] at hnext
  obtain ⟨zs, rfl⟩ := List.head?_eq_some_iff.1 hnext
  have hthreaded := h.threaded b
  rw [hxs, List.append_cons] at hthreaded
  exact ⟨_, hthreaded.link_eq⟩

theorem congr (h : heads.Holds nodes chains)
    (hsame : ∀ id, (LinkStore.link? nodes' id : Option (ChainLink ι)) = LinkStore.link? nodes id) :
    heads.Holds nodes' chains where
  first := h.first
  threaded b := (h.threaded b).congr fun id _ => hsame id
  nodup := h.nodup
  apart := h.apart
  unchained id link hid hlink := h.unchained id link hid ((hsame id).symm.trans hlink)

/-- A node on no chain may come or go. -/
theorem congr_of_ne (h : heads.Holds nodes chains) (hid : ∀ b, id ∉ chains b)
    (hself : ∀ link : ChainLink ι, LinkStore.link? nodes' id = some link → link = {})
    (hsame : ∀ j, j ≠ id → (LinkStore.link? nodes' j : Option (ChainLink ι)) =
      LinkStore.link? nodes j) : heads.Holds nodes' chains where
  first := h.first
  threaded b := (h.threaded b).congr fun j hj => hsame j (ne_of_mem_of_not_mem hj (hid b))
  nodup := h.nodup
  apart := h.apart
  unchained j link hj hlink := by
    by_cases hne : j = id
    · exact hself link (hne ▸ hlink)
    · exact h.unchained j link hj ((hsame j hne).symm.trans hlink)

end Holds

theorem holds_empty (nodes : σ) (count : Nat)
    (hempty : ∀ id (link : ChainLink ι), LinkStore.link? nodes id = some link → link = {}) :
    (Heads.empty count : Heads ι).Holds nodes fun _ => [] where
  first b := by
    rw [Heads.empty, Array.getElem?_replicate]
    split <;> rfl
  threaded _ := trivial
  nodup _ := List.nodup_nil
  apart _ _ _ h := absurd h List.not_mem_nil
  unchained id link _ := hempty id link

/-- A node on no chain is left alone. -/
theorem Holds.erase_of_unchained (h : heads.Holds nodes chains) {old : ChainLink ι}
    (live : LinkStore.link? nodes id = some old) (hid : ∀ b, id ∉ chains b) :
    heads.erase nodes id = .ok (heads, nodes) := by
  obtain rfl := h.unchained id old hid live
  rw [Heads.erase, follow_eq_ok live]
  rfl

variable [NodeStore σ] [LawfulLinkStore σ ι (ChainLink ι)]

theorem Holds.length_le_capacity (h : heads.Holds nodes chains) (b : Nat) :
    (chains b).length ≤ NodeStore.capacity nodes := by
  refine LawfulLinkStore.length_le_capacity (ℓ := ChainLink ι) nodes (h.nodup b) fun id hid => ?_
  obtain ⟨link, hlink, -⟩ := (h.threaded b).exists_link hid
  simp [hlink]

theorem Holds.chain_eq (h : heads.Holds nodes chains) (hb : b < heads.count) :
    heads.chain nodes b = .ok (chains b) := by
  rw [Heads.chain, h.first?_eq hb, ok_bind]
  exact Chain.walk_eq (h.threaded b) (h.length_le_capacity b)

/-- A node on no chain is put in front of one. -/
theorem Holds.push (h : heads.Holds nodes chains) {old : ChainLink ι}
    (live : LinkStore.link? nodes id = some old) (hid : ∀ b, id ∉ chains b)
    (hb : bucket < heads.count) :
    ∃ heads' nodes', heads.push nodes bucket id = .ok (heads', nodes') ∧
      heads'.count = heads.count ∧ Rewired (ChainLink ι) nodes nodes' ∧
      heads'.Holds nodes' fun b => if b = bucket then id :: chains b else chains b := by
  obtain rfl := h.unchained id old hid live
  obtain ⟨nodes₁, hrehang, hthread, hrew, hframe⟩ :=
    (h.threaded bucket).rehang (h.nodup bucket) (.after id)
  obtain ⟨nodes₂, hrelink, hself, hother, hrew'⟩ := exists_relink
    ((hframe id (hid bucket)).trans live) fun _ : ChainLink ι =>
      { next := (chains bucket).head?, holder := some (.head bucket) }
  have hne : ∀ {b j}, j ∈ chains b → j ≠ id := fun hj hij => hid _ (hij ▸ hj)
  refine ⟨⟨heads.first.setIfInBounds bucket (some id)⟩, nodes₂, ?_, by simp [Heads.count],
    hrew.trans hrew', ?_⟩
  · have hunchained : ensure (¬ ({} : ChainLink ι).isChained) .alreadyChained = .ok () :=
      ensure_of_pos (by simp [ChainLink.isChained])
    rw [Heads.push, follow_eq_ok live, ok_bind, hunchained, ok_bind, h.first?_eq hb, ok_bind,
      hrehang, ok_bind, hrelink, ok_bind, setFirst_eq_ok hb]
    rfl
  -- Another chain keeps its links: only nodes of this one and the new node have been written to.
  · refine ⟨fun b => ?_, fun b => ?_, fun b => ?_, fun b c j hj hj' => ?_, fun j link hj hl => ?_⟩
    · rw [first_setIfInBounds hb, h.first]
      split <;> rfl
    · by_cases hbb : b = bucket
      · subst hbb
        simp only [if_true]
        exact ⟨by rw [hself, Option.or_none], hthread.congr fun j hj => hother j (hne hj)⟩
      · simp only [if_neg hbb]
        refine (h.threaded b).congr fun j hj => ?_
        rw [hother j (hne hj), hframe j fun hj' => hbb (h.apart b bucket j hj hj')]
    · split
      · exact List.nodup_cons.2 ⟨hid b, h.nodup b⟩
      · exact h.nodup b
    · have hmem : ∀ {b}, j ∈ (if b = bucket then id :: chains b else chains b) →
          j = id ∧ b = bucket ∨ j ∈ chains b := by
        intro b hj
        split at hj
        · rcases List.mem_cons.1 hj with rfl | hj
          · exact .inl ⟨rfl, ‹_›⟩
          · exact .inr hj
        · exact .inr hj
      rcases hmem hj with ⟨rfl, rfl⟩ | hb'
      · rcases hmem hj' with ⟨-, rfl⟩ | hc'
        · rfl
        · exact absurd hc' (hid c)
      · rcases hmem hj' with ⟨rfl, -⟩ | hc'
        · exact absurd hb' (hid b)
        · exact h.apart b c j hb' hc'
    · have hid' : j ≠ id := fun hji => by simpa [hji] using hj bucket
      have hj' : ∀ b, j ∉ chains b := fun b hjb => by
        have := hj b
        split at this <;> simp_all
      rw [hother j hid', hframe j (hj' bucket)] at hl
      exact h.unchained j link hj' hl

/-- The slot behind the front part of a chain is made to name another node. -/
theorem exists_fill {xs : List ι} {old : Option ι} (hb : bucket < heads.count)
    (hfirst : heads.first[bucket]?.join = xs.head?.or old)
    (h : Chain.Threaded nodes (.head bucket) xs old) (hnd : xs.Nodup) (new : Option ι) :
    ∃ heads' nodes', heads.fill nodes (Chain.endSlot (.head bucket) xs) new = .ok (heads', nodes') ∧
      heads'.count = heads.count ∧
      (∀ b, heads'.first[b]?.join = if b = bucket then xs.head?.or new else heads.first[b]?.join) ∧
      Chain.Threaded nodes' (.head bucket) xs new ∧ Rewired (ChainLink ι) nodes nodes' ∧
      ∀ j, j ∉ xs → (LinkStore.link? nodes' j : Option (ChainLink ι)) = LinkStore.link? nodes j := by
  rcases List.eq_nil_or_concat xs with rfl | ⟨xs, id, rfl⟩
  · refine ⟨⟨heads.first.setIfInBounds bucket new⟩, nodes, ?_, by simp [Heads.count], ?_, trivial,
      .refl, fun _ _ => rfl⟩
    · rw [Chain.endSlot, Heads.fill, setFirst_eq_ok hb]
      rfl
    · exact first_setIfInBounds hb new
  · rw [List.concat_eq_append] at h hnd hfirst ⊢
    obtain ⟨nodes', hrelink, hthread, hrew, hother⟩ := h.redirect hnd new
    refine ⟨heads, nodes', ?_, rfl, fun b => ?_, hthread, hrew, fun j hj => hother j ?_⟩
    · rw [Chain.endSlot_concat, Heads.fill, hrelink]
      rfl
    · split
      · subst b
        rw [hfirst]
        cases xs <;> rfl
      · rfl
    · rintro rfl
      exact hj (by simp)

/-- A node between two parts of a chain is taken out, and the parts are joined. -/
theorem exists_unlink {xs ys : List ι} (hb : bucket < heads.count)
    (hfirst : heads.first[bucket]?.join = (xs ++ id :: ys).head?)
    (h : Chain.Threaded nodes (.head bucket) (xs ++ id :: ys) none) (hnd : (xs ++ id :: ys).Nodup) :
    ∃ heads' nodes', heads.erase nodes id = .ok (heads', nodes') ∧ heads'.count = heads.count ∧
      (∀ b, heads'.first[b]?.join = if b = bucket then (xs ++ ys).head? else heads.first[b]?.join) ∧
      Chain.Threaded nodes' (.head bucket) (xs ++ ys) none ∧
      LinkStore.link? nodes' id = some ({} : ChainLink ι) ∧ Rewired (ChainLink ι) nodes nodes' ∧
      ∀ j, j ∉ xs ++ id :: ys →
        (LinkStore.link? nodes' j : Option (ChainLink ι)) = LinkStore.link? nodes j := by
  obtain ⟨hndx, hndy, hxy⟩ := List.nodup_append.1 hnd
  obtain ⟨hidy, hndy⟩ := List.nodup_cons.1 hndy
  have hidx : id ∉ xs := fun hmem => hxy id hmem id List.mem_cons_self rfl
  have hdisj : ∀ j, j ∈ xs → j ∉ ys := fun j hj hj' => hxy j hj j (List.mem_cons_of_mem _ hj') rfl
  obtain ⟨hx, hlink, hy⟩ := Chain.threaded_append.1 h
  -- The three writes, each with what it leaves alone.
  obtain ⟨nodes₁, hrelink, hself, hother₁, hrew₁⟩ := exists_relink hlink fun _ : ChainLink ι => {}
  have hx₁ := hx.congr fun j hj => hother₁ j (ne_of_mem_of_not_mem hj hidx)
  have hy₁ := hy.congr fun j hj => hother₁ j (ne_of_mem_of_not_mem hj hidy)
  obtain ⟨heads', nodes₂, hfill, hcount, hfirst₂, hx₂, hrew₂, hother₂⟩ :=
    exists_fill hb (by simpa using hfirst) hx₁ hndx (ys.head?.or none)
  have hy₂ := hy₁.congr fun j hj => hother₂ j fun hj' => hdisj j hj' hj
  obtain ⟨nodes₃, hrehang, hy₃, hrew₃, hother₃⟩ := hy₂.rehang hndy (Chain.endSlot (.head bucket) xs)
  have hx₃ := hx₂.congr fun j hj => hother₃ j (hdisj j hj)
  refine ⟨heads', nodes₃, ?_, hcount, fun b => ?_, Chain.threaded_append.2 ⟨hx₃, hy₃⟩, ?_,
    (hrew₁.trans hrew₂).trans hrew₃, fun j hj => ?_⟩
  · rw [Heads.erase, follow_eq_ok hlink, ok_bind]
    simp only [Option.or_none] at hrelink hfill hrehang ⊢
    rw [hrelink, ok_bind, hfill, ok_bind]
    simp only [hrehang, ok_bind, pure_eq_ok]
  · rw [hfirst₂]
    split
    · simp
    · rfl
  · rw [hother₃ id hidy, hother₂ id hidx, hself]
  · simp only [List.mem_append, List.mem_cons, not_or] at hj
    rw [hother₃ j hj.2.2, hother₂ j hj.1, hother₁ j hj.2.1]

variable [DecidableEq ι]

/-- A node is taken off the chain that it is on. -/
theorem Holds.erase (h : heads.Holds nodes chains) (hid : id ∈ chains bucket) :
    ∃ heads' nodes', heads.erase nodes id = .ok (heads', nodes') ∧ heads'.count = heads.count ∧
      Rewired (ChainLink ι) nodes nodes' ∧ heads'.Holds nodes' fun b => (chains b).erase id := by
  have hrest : ∀ b, b ≠ bucket → (chains b).erase id = chains b := fun b hne =>
    List.erase_of_not_mem fun hmem => hne (h.apart b bucket id hmem hid)
  obtain ⟨xs, ys, hxs⟩ := List.append_of_mem hid
  have hnd := hxs ▸ h.nodup bucket
  obtain ⟨heads', nodes', herase, hcount, hfirst, hthread, hself, hrew, hother⟩ :=
    exists_unlink (h.lt_count hid) (hxs ▸ h.first bucket) (hxs ▸ h.threaded bucket) hnd
  have hchain : (chains bucket).erase id = xs ++ ys := by
    have hidx : id ∉ xs := fun hmem =>
      (List.nodup_append.1 hnd).2.2 id hmem id List.mem_cons_self rfl
    rw [hxs, List.erase_append_right _ hidx, List.erase_cons_head]
  rw [← hxs] at hother
  refine ⟨heads', nodes', herase, hcount, hrew, fun b => ?_, fun b => ?_,
    fun b => (h.nodup b).erase id, fun b c j hj hj' => ?_, fun j link hj hl => ?_⟩
  · rw [hfirst]
    split
    · subst b; rw [hchain]
    · rw [hrest b ‹_›, h.first]
  · by_cases hb : b = bucket
    · subst hb; rwa [hchain]
    · rw [hrest b hb]
      exact (h.threaded b).congr fun j hj => hother j fun hj' => hb (h.apart b bucket j hj hj')
  · exact h.apart b c j (List.mem_of_mem_erase hj) (List.mem_of_mem_erase hj')
  · by_cases hji : j = id
    · subst hji
      exact (Option.some.inj (hself.symm.trans hl)).symm
    · have hj' : ∀ b, j ∉ chains b := fun b hjb => hj b ((List.mem_erase_of_ne hji).2 hjb)
      exact h.unchained j link hj' ((hother j (hj' bucket)).symm.trans hl)

end Heads

/-! ## Buckets -/

namespace Buckets

omit [LinkStore σ ι (ChainLink ι)]

/-- Buckets are made in steps: if they are made, every step has succeeded. -/
theorem exists_of_create {τ : Type} {headSize : Nat} {bits : UInt32} {gate : Gate τ}
    {heap : Heap} {s s' : τ} {buckets : Buckets ι}
    (h : create headSize bits gate heap s = (.ok buckets, s')) :
    ∃ s₁, gate .table s = (.ok (), s₁) ∧ bits.toNat < 64 ∧
      2 ^ bits.toNat * headSize < UInt64.size ∧
      gate (.buckets (2 ^ bits.toNat * headSize)) s₁ = (.ok (), s') ∧
      heap.reserve (2 ^ bits.toNat * headSize) = .ok () ∧
      buckets = ⟨Heads.empty (2 ^ bits.toNat), bits⟩ := by
  unfold create at h
  split at h
  · cases h
  next s₁ htable =>
  by_cases hbits : bits.toNat < 64
  · by_cases hsize : 2 ^ bits.toNat * headSize < UInt64.size
    · simp only [count?, if_pos hbits, Nat.one_shiftLeft, word?, if_pos hsize] at h
      split at h
      · cases h
      next s₂ hbuckets =>
      split at h
      · cases h
      next hreserve =>
        cases h
        exact ⟨s₁, htable, hbits, hsize, hbuckets, hreserve, rfl⟩
    · simp [count?, if_pos hbits, Nat.one_shiftLeft, word?, if_neg hsize] at h
  · simp [count?, if_neg hbits] at h

theorem eq_of_create {τ : Type} {headSize : Nat} {bits : UInt32} {gate : Gate τ}
    {heap : Heap} {s s' : τ} {buckets : Buckets ι}
    (h : create headSize bits gate heap s = (.ok buckets, s')) :
    buckets = ⟨Heads.empty (2 ^ bits.toNat), bits⟩ := by
  obtain ⟨-, -, -, -, -, -, hbuckets⟩ := exists_of_create h
  exact hbuckets

theorem bucketOf_eq {buckets : Buckets ι} {n : Nat}
    (hcount : buckets.count = 2 ^ n) (hash : UInt64) :
    buckets.bucketOf hash = .ok (hash.toNat % 2 ^ n) := by
  have hpos := Nat.two_pow_pos n
  obtain ⟨last, hlast⟩ : ∃ last, 2 ^ n = last + 1 := ⟨2 ^ n - 1, by omega⟩
  rw [bucketOf, hcount, ← Nat.and_two_pow_sub_one_eq_mod, hlast]
  rfl

end Buckets

end OrderedTable
