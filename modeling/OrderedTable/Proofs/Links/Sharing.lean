import Mathlib.Logic.Function.Basic
import OrderedTable.Proofs.Links.Cursor
import OrderedTable.Proofs.Links.Rules
import OrderedTable.Proofs.Links.Visits

/-!
# Lists that share their nodes

`SharedLists` are any number of circular lists over one store, and `SharedLists.step` puts a node on
one of them or takes one off. As long as only nodes on no list are put on one and a node is taken off
the list that it is on, the lists are a family of sequences (`SharedLists.Holds`), and a step changes
one sequence of the family: `SharedLists.rules`.

The invariant is carried by a single lemma, `SharedLists.Holds.update`: a list may be replaced if no
links but those of its nodes, old and new, have been written.
-/

namespace OrderedTable

/-- Circular lists, named by `κ`, over one store of nodes. -/
structure SharedLists (κ σ ι : Type) where
  lists : κ → CircularList ι
  nodes : σ

namespace SharedLists

variable {κ σ ι : Type}

def empty (nodes : σ) : SharedLists κ σ ι := ⟨fun _ => {}, nodes⟩

/-- What is done to a list. -/
inductive Step (κ ι : Type)
  /-- A node is put at an end. -/
  | push (side : Side) (list : κ) (id : ι)
  /-- A node is taken off. -/
  | erase (list : κ) (id : ι)
  deriving DecidableEq

/-- The list that it is done to. -/
def Step.list : Step κ ι → κ
  | .push _ list _ => list
  | .erase list _ => list

variable [DecidableEq κ] [DecidableEq ι] [LinkStore σ ι (CircularLink ι)]

def step (s : SharedLists κ σ ι) : Step κ ι → Except Fault (SharedLists κ σ ι)
  | .push side k id => do
    let (list, nodes) ← (s.lists k).push s.nodes id side
    pure ⟨Function.update s.lists k list, nodes⟩
  | .erase k id => do
    let (list, nodes) ← (s.lists k).erase s.nodes id
    pure ⟨Function.update s.lists k list, nodes⟩

/-- What may be done to a family of sequences over the live nodes of a store: a node in none of them
is put at an end of any, and a node is erased from the one that it is in. -/
def rules (nodes : σ) : Rules (κ → List ι) (Step κ ι) where
  allows family
    | .push _ _ id => (LinkStore.link? nodes id : Option (CircularLink ι)).isSome ∧
        ∀ k, id ∉ family k
    | .erase k id => id ∈ family k
  next family
    | .push side k id => Function.update family k (side.insert id (family k))
    | .erase k id => Function.update family k ((family k).erase id)

/-! ## The invariant -/

/-- The lists are a family of sequences without common nodes, and all other nodes are detached. -/
structure Holds (s : SharedLists κ σ ι) (family : κ → List ι) : Prop where
  list : ∀ k, (s.lists k).Holds s.nodes (family k)
  apart : ∀ j k id, id ∈ family j → id ∈ family k → j = k
  detached : ∀ id (link : CircularLink ι), (∀ k, id ∉ family k) →
    LinkStore.link? s.nodes id = some link → link = .detached id

omit [DecidableEq κ] [DecidableEq ι] in
theorem holds_empty {nodes : σ} (hnodes : ∀ id (link : CircularLink ι),
    LinkStore.link? nodes id = some link → link = .detached id) :
    (empty nodes : SharedLists κ σ ι).Holds fun _ => [] where
  list _ := CircularList.holds_nil nodes
  apart _ _ _ h := absurd h List.not_mem_nil
  detached id link _ := hnodes id link

namespace Holds

variable {s : SharedLists κ σ ι} {family : κ → List ι} {k : κ} {id : ι}

omit [DecidableEq ι] in
/-- One list comes to have `id` or to lack it, and no links but those of its nodes are written. -/
theorem update (h : s.Holds family) {list : CircularList ι} {nodes : σ} {ids : List ι}
    (hlist : list.Holds nodes ids) (hids : ∀ i, i ≠ id → (i ∈ ids ↔ i ∈ family k))
    (hid : ∀ j, id ∈ family j → j = k)
    (hdetached : id ∉ ids → LinkStore.link? nodes id = some (CircularLink.detached id))
    (hframe : ∀ i, i ∉ family k → i ≠ id →
      (LinkStore.link? nodes i : Option (CircularLink ι)) = LinkStore.link? s.nodes i) :
    Holds ⟨Function.update s.lists k list, nodes⟩ (Function.update family k ids) := by
  have hmem : ∀ {i j}, i ≠ id → (i ∈ Function.update family k ids j ↔ i ∈ family j) := by
    intro i j hi
    rcases eq_or_ne j k with rfl | hj
    · rw [Function.update_self, hids i hi]
    · rw [Function.update_of_ne hj]
  have hself : ∀ {j}, id ∈ Function.update family k ids j → j = k := by
    intro j hj
    by_contra hjk
    rw [Function.update_of_ne hjk] at hj
    exact hjk (hid j hj)
  refine ⟨fun j => ?_, fun i j l hi hj => ?_, fun i link hi hlink => ?_⟩
  · rcases eq_or_ne j k with rfl | hj
    · simpa only [Function.update_self] using hlist
    · simp only [Function.update_of_ne hj]
      refine (h.list j).congr fun i hi => hframe i (fun hik => hj (h.apart j k i hi hik)) ?_
      rintro rfl
      exact hj (hid j hi)
  · rcases eq_or_ne l id with rfl | hl
    · rw [hself hi, hself hj]
    · exact h.apart i j l ((hmem hl).1 hi) ((hmem hl).1 hj)
  · rcases eq_or_ne i id with rfl | hiid
    · have hnot : i ∉ ids := by simpa using hi k
      exact Option.some.inj (hlink.symm.trans (hdetached hnot))
    · have hfamily : ∀ j, i ∉ family j := fun j hj => hi j ((hmem hiid).2 hj)
      exact h.detached i link hfamily ((hframe i (hfamily k) hiid).symm.trans hlink)

variable [NodeStore σ] [LawfulLinkStore σ ι (CircularLink ι)]

/-- A step that the rules allow succeeds, leads on by the rules and leaves the other lists alone. -/
theorem exists_step {nodes : σ} {a : Step κ ι} (h : s.Holds family)
    (hrew : Rewired (CircularLink ι) nodes s.nodes) (hallows : (rules nodes).allows family a) :
    ∃ s', s.step a = .ok s' ∧
      (s'.Holds ((rules nodes).next family a) ∧ Rewired (CircularLink ι) nodes s'.nodes) ∧
      ∀ k, k ≠ a.list → s'.lists k = s.lists k ∧ ∀ id ∈ family k,
        (LinkStore.link? s'.nodes id : Option (CircularLink ι)) = LinkStore.link? s.nodes id := by
  cases a with
  | push side k id =>
    obtain ⟨hlive, hid⟩ := hallows
    obtain ⟨old, hold⟩ := hrew.exists_link hlive
    obtain ⟨list, nodes', hpush, hlist, hrew', hframe⟩ := (h.list k).push hold (hid k) side
    refine ⟨⟨Function.update s.lists k list, nodes'⟩, ?_, ⟨?_, hrew.trans hrew'⟩,
      fun j hj => ⟨Function.update_of_ne hj _ _, fun i hi => hframe i ?_ ?_⟩⟩
    · rw [step, hpush]
      rfl
    · refine h.update hlist (fun i hi => by simp [hi]) (fun j hj => absurd hj (hid j)) ?_ hframe
      exact fun hnot => absurd (Side.mem_insert.2 (.inl rfl)) hnot
    · exact fun hik => hj (h.apart j k i hi hik)
    · rintro rfl
      exact hid j hi
  | erase k id =>
    have hid : id ∈ family k := hallows
    obtain ⟨list, nodes', herase, hlist, hself, hrew', hframe⟩ := (h.list k).erase hid
    refine ⟨⟨Function.update s.lists k list, nodes'⟩, ?_, ⟨?_, hrew.trans hrew'⟩,
      fun j hj => ⟨Function.update_of_ne hj _ _, fun i hi => hframe i ?_⟩⟩
    · rw [step, herase]
      rfl
    · exact h.update hlist (fun i hi => List.mem_erase_of_ne hi) (fun j hj => h.apart j k id hj hid)
        (fun _ => hself) fun i hi _ => hframe i hi
    · exact fun hik => hj (h.apart j k i hi hik)

end Holds

/-! ## What the lists show -/

/-- What can be read off the lists is the family of sequences. The live nodes are those of `nodes`. -/
structure Presents (s : SharedLists κ σ ι) (nodes : σ) (family : κ → List ι) : Prop where
  nodup : ∀ k, (family k).Nodup
  apart : ∀ j k id, id ∈ family j → id ∈ family k → j = k
  first : ∀ k, (s.lists k).first? = (family k).head?
  last : ∀ k, (s.lists k).last? s.nodes = .ok (family k).getLast?
  isEmpty : ∀ k, (s.lists k).isEmpty = true ↔ family k = []
  /-- From the first node on, going to the next one yields the sequence. -/
  forth : ∀ k, Visits ((s.lists k).stepForth s.nodes) (s.lists k).first? () (family k) ()
  stops : ∀ k, ∀ id ∈ family k,
    (s.lists k).next? s.nodes id = .ok none ↔ (family k).getLast? = some id
  /-- From the last node on, going to the one before yields the sequence backwards. -/
  back : ∀ k last, (s.lists k).last? s.nodes = .ok last →
    Visits ((s.lists k).stepBack s.nodes) last () (family k).reverse ()
  /-- A cursor reads the ends of the sequence, in any order. -/
  cursor : ∀ k sides, (s.lists k).iterate s.nodes sides = .ok (readEnds (family k) sides)
  /-- A node on no list links to itself. -/
  detached : ∀ id, (LinkStore.link? nodes id : Option (CircularLink ι)).isSome →
    (∀ k, id ∉ family k) → LinkStore.link? s.nodes id = some (CircularLink.detached id)

section
variable [NodeStore σ] [LawfulLinkStore σ ι (CircularLink ι)]

omit [DecidableEq κ] in
theorem Holds.presents {s : SharedLists κ σ ι} {nodes : σ} {family : κ → List ι}
    (h : s.Holds family) (hrew : Rewired (CircularLink ι) nodes s.nodes) :
    s.Presents nodes family where
  nodup k := (h.list k).nodup
  apart := h.apart
  first k := (h.list k).first
  last k := (h.list k).last?_eq
  isEmpty k := by rw [(h.list k).isEmpty_eq, List.isEmpty_iff]
  forth k := by
    have hlist : (s.lists k).Holds s.nodes ([] ++ family k) := h.list k
    rw [hlist.first]
    exact hlist.visits_forth
  stops k id hid := (h.list k).next?_eq_none_iff hid
  back k last hlast := by
    have hlist : (s.lists k).Holds s.nodes (family k ++ []) := by simpa using h.list k
    obtain rfl := Except.ok.inj ((h.list k).last?_eq.symm.trans hlast)
    exact hlist.visits_back
  cursor k sides := (h.list k).iterate_eq sides
  detached id hlive hid := by
    obtain ⟨link, hlink⟩ := hrew.exists_link hlive
    rw [hlink, h.detached id link hid hlink]

/-- Steps that keep to the rules change a family of sequences, all empty at first, one sequence at a
time, and the lists show this family. They show it after each further step that the rules allow, so
a node that has been taken off can be put on any list again. -/
theorem run_presents {nodes : σ} {steps : List (Step κ ι)}
    (hnodes : ∀ id (link : CircularLink ι), LinkStore.link? nodes id = some link →
      link = .detached id)
    (hsteps : (rules nodes).AllowsAll (fun _ => []) steps) :
    ∃ s : SharedLists κ σ ι, steps.foldlM step (empty nodes) = .ok s ∧
      s.Presents nodes ((rules nodes).after (fun _ => []) steps) ∧
      ∀ a, (rules nodes).allows ((rules nodes).after (fun _ => []) steps) a →
        ∃ s', s.step a = .ok s' ∧
          s'.Presents nodes ((rules nodes).next ((rules nodes).after (fun _ => []) steps) a) ∧
          ∀ k, k ≠ a.list → s'.lists k = s.lists k ∧
            ∀ id ∈ (rules nodes).after (fun _ => []) steps k,
              (LinkStore.link? s'.nodes id : Option (CircularLink ι)) =
                LinkStore.link? s.nodes id := by
  obtain ⟨s, hrun, hholds, hrew⟩ := Rules.exists_run
    (R := fun (s : SharedLists κ σ ι) family =>
      s.Holds family ∧ Rewired (CircularLink ι) nodes s.nodes)
    (fun s family a h hallows => by
      obtain ⟨s', hstep, h', -⟩ := h.1.exists_step h.2 hallows
      exact ⟨s', hstep, h'⟩)
    ⟨holds_empty hnodes, .refl⟩ hsteps
  refine ⟨s, hrun, hholds.presents hrew, fun a hallows => ?_⟩
  obtain ⟨s', hstep, h', hother⟩ := hholds.exists_step hrew hallows
  exact ⟨s', hstep, h'.1.presents h'.2, hother⟩

end

/-- Two lists over three nodes, one of which is moved from one list to the other. -/
theorem run_presents_moved :
    let nodes : Pool (CircularLink Nat) := #[.detached 0, .detached 1, .detached 2]
    let steps : List (Step Bool Nat) := [.push .back true 0, .push .front true 1,
      .push .back false 2, .erase true 0, .push .front false 0]
    ∃ s : SharedLists Bool (Pool (CircularLink Nat)) Nat, steps.foldlM step (empty nodes) = .ok s ∧
      s.Presents nodes fun k => if k then [1] else [0, 2] := by
  intro nodes steps
  have hnodes : ∀ id (link : CircularLink Nat), LinkStore.link? nodes id = some link →
      link = .detached id := by
    intro id link hlink
    match id with
    | 0 | 1 | 2 => exact (Option.some.inj hlink).symm
  have hsteps : (rules nodes).AllowsAll (fun _ => []) steps := by
    refine .cons ⟨rfl, ?_⟩ (.cons ⟨rfl, ?_⟩ (.cons ⟨rfl, ?_⟩ (.cons ?_ (.cons ⟨rfl, ?_⟩ (.nil _)))))
    all_goals simp [rules, Side.insert]
  obtain ⟨s, hrun, hpresents, -⟩ := run_presents hnodes hsteps
  have hafter : (rules nodes).after (fun _ => []) steps = fun k => if k then [1] else [0, 2] := by
    funext k
    cases k <;> rfl
  exact ⟨s, hrun, hafter ▸ hpresents⟩

end SharedLists

end OrderedTable
