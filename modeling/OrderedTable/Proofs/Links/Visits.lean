import Mathlib.Data.List.Induction
import OrderedTable.Proofs.Links.Chains
import OrderedTable.Proofs.Links.Circle

/-!
# Walks without a bound

The loops over nodes are given a bound on the number of nodes that they take, and report a fault
beyond it. `Visits` is such a loop without the bound: it takes one node after the other as long as
there is a next one, and is at its end after the nodes that it lists. A bounded loop with the same
steps comes to the same end if the bound allows for these nodes (`Visits.run_eq`).
-/

namespace OrderedTable

variable {ι α β : Type}

/-- From `start` on, the loop takes the nodes `ids` one after the other and is then at its end. At
each node `step` changes the state and says which node is next. -/
inductive Visits (step : α → ι → Except Fault (Option ι × α)) :
    Option ι → α → List ι → α → Prop
  | done (x : α) : Visits step none x [] x
  | take {id : ι} {next : Option ι} {x y z : α} {ids : List ι}
    (hstep : step x id = .ok (next, y)) (h : Visits step next y ids z) :
    Visits step (some id) x (id :: ids) z

/-- The loop over the listed buckets, with a walk from the first node of each. -/
inductive VisitsEach (first : α → β → Except Fault (Option ι))
    (step : α → ι → Except Fault (Option ι × α)) : List β → α → List ι → α → Prop
  | nil (x : α) : VisitsEach first step [] x [] x
  | cons {b : β} {bs : List β} {start : Option ι} {x y z : α} {ids ids' : List ι}
    (hfirst : first x b = .ok start) (h : Visits step start x ids y)
    (hrest : VisitsEach first step bs y ids' z) :
    VisitsEach first step (b :: bs) x (ids ++ ids') z

/-- The loop `run` makes these steps, as many as it is told at most. -/
structure IsBoundedBy (step : α → ι → Except Fault (Option ι × α))
    (run : Nat → Option ι → α → Except Fault α) : Prop where
  done : ∀ fuel x, run fuel none x = .ok x
  take : ∀ fuel id x, run (fuel + 1) (some id) x = do
    let (next, y) ← step x id
    run fuel next y

theorem Visits.run_eq {step : α → ι → Except Fault (Option ι × α)}
    {run : Nat → Option ι → α → Except Fault α} {start : Option ι} {x y : α} {ids : List ι}
    {fuel : Nat} (h : Visits step start x ids y) (hrun : IsBoundedBy step run)
    (hfuel : ids.length ≤ fuel) : run fuel start x = .ok y := by
  induction h generalizing fuel with
  | done x => exact hrun.done fuel x
  | take hstep _ ih =>
    obtain ⟨fuel, rfl⟩ : ∃ n, fuel = n + 1 := ⟨fuel - 1, by simp at hfuel; omega⟩
    rw [hrun.take, hstep]
    exact ih (Nat.le_of_succ_le_succ hfuel)

/-! ## Along a chain -/

namespace Chain

variable {σ : Type} [LinkStore σ ι (ChainLink ι)] {nodes : σ} {slot : Slot ι} {ids : List ι}

/-- Goes on to the next node of a chain, and changes nothing. -/
def step (nodes : σ) (_ : Unit) (id : ι) : Except Fault (Option ι × Unit) := do
  let next ← next? nodes id
  pure (next, ())

theorem Threaded.visits (h : Threaded nodes slot ids none) :
    Visits (step nodes) ids.head? () ids () := by
  induction ids generalizing slot with
  | nil => exact .done ()
  | cons id rest ih =>
    refine .take ?_ (ih h.2)
    rw [step, h.next?_eq]
    rfl

end Chain

namespace Heads.Holds

variable {σ : Type} [LinkStore σ ι (ChainLink ι)] {nodes : σ} {heads : Heads ι}
  {chains : Nat → List ι}

/-- The chains of the listed buckets are walked to their end, one after the other. -/
theorem visitsEach (h : heads.Holds nodes chains) {bs : List Nat}
    (hbs : ∀ b ∈ bs, b < heads.count) :
    VisitsEach (fun _ b => heads.first? b) (Chain.step nodes) bs () (bs.flatMap chains) () := by
  induction bs with
  | nil => exact .nil ()
  | cons b bs ih =>
    exact .cons (h.first?_eq (hbs b List.mem_cons_self)) (h.threaded b).visits
      (ih fun c hc => hbs c (List.mem_cons_of_mem _ hc))

end Heads.Holds

/-! ## Taking a chain down -/

namespace Buckets

variable {σ : Type} [LinkStore σ ι (ChainLink ι)]

/-- Takes a node off its chain and hands it to `release`. -/
def clearStep (release : Buckets ι → σ → α → ι → Except Fault (σ × α)) (x : Buckets ι × σ × α)
    (id : ι) : Except Fault (Option ι × Buckets ι × σ × α) := do
  let next ← Chain.next? x.2.1 id
  let (buckets, nodes) ← x.1.erase x.2.1 id
  let (nodes, acc) ← release buckets nodes x.2.2 id
  pure (next, buckets, nodes, acc)

theorem isBoundedBy_clearFrom (release : Buckets ι → σ → α → ι → Except Fault (σ × α)) :
    IsBoundedBy (clearStep release) fun fuel start x =>
      clearFrom release fuel start x.1 x.2.1 x.2.2 where
  done fuel x := by cases fuel <;> rfl
  take fuel id x := by
    rw [clearFrom, clearStep]
    cases Chain.next? x.2.1 id with
    | error fault => rfl
    | ok next =>
      cases x.1.erase x.2.1 id with
      | error fault => rfl
      | ok y =>
        simp only [ok_bind]
        cases release y.1 y.2 x.2.2 id <;> rfl

end Buckets

/-! ## Along a circular list -/

namespace CircularList

variable {σ : Type} [LinkStore σ ι (CircularLink ι)] [DecidableEq ι] {nodes : σ}
  {list : CircularList ι} {xs ys : List ι}

/-- Goes on to the next node of a list, and changes nothing. -/
def stepForth (list : CircularList ι) (nodes : σ) (_ : Unit) (id : ι) :
    Except Fault (Option ι × Unit) := do
  let next ← list.next? nodes id
  pure (next, ())

/-- Goes back to the node before, if this is not the first one. -/
def stepBack (list : CircularList ι) (nodes : σ) (_ : Unit) (id : ι) :
    Except Fault (Option ι × Unit) := do
  let link : CircularLink ι ← follow nodes id
  pure (if list.first? = some id then none else some link.prev, ())

theorem Holds.visits_forth (h : list.Holds nodes (xs ++ ys)) :
    Visits (list.stepForth nodes) ys.head? () ys () := by
  induction ys generalizing xs with
  | nil => exact .done ()
  | cons id rest ih =>
    have hstep : list.stepForth nodes () id = .ok (rest.head?, ()) := by
      rw [stepForth, h.next?_eq]
      rfl
    exact .take hstep (@ih (xs ++ [id]) (by simpa using h))

/-- There is no next node after the last one, and only there. -/
theorem Holds.next?_eq_none_iff (h : list.Holds nodes xs) {id : ι} (hid : id ∈ xs) :
    list.next? nodes id = .ok none ↔ xs.getLast? = some id := by
  obtain ⟨ys, zs, rfl⟩ := List.append_of_mem hid
  rw [h.next?_eq, Except.ok.injEq, List.head?_eq_none_iff]
  constructor
  · rintro rfl
    exact List.getLast?_concat
  · intro hlast
    have hnd := (List.nodup_cons.1 (List.nodup_append.1 h.nodup).2.1).1
    cases zs with
    | nil => rfl
    | cons z zs =>
      have hid : (z :: zs).getLast? = some id := by
        simpa [List.getLast?_append, List.getLast?_cons] using hlast
      exact absurd (List.mem_of_getLast? hid) hnd

theorem Holds.visits_back (h : list.Holds nodes (xs ++ ys)) :
    Visits (list.stepBack nodes) xs.getLast? () xs.reverse () := by
  induction xs using List.reverseRecOn generalizing ys with
  | nil => exact .done ()
  | append_singleton xs id ih =>
    rw [List.append_assoc, List.singleton_append] at h
    rw [List.getLast?_concat, List.reverse_concat]
    have hstep : list.stepBack nodes () id = .ok (xs.getLast?, ()) := by
      rw [stepBack, follow_eq_ok h.closed.link_eq, ok_bind, h.first]
      cases xs with
      | nil => simp
      | cons x rest =>
        have hne : x ≠ id :=
          (List.nodup_append.1 h.nodup).2.2 x List.mem_cons_self id List.mem_cons_self
        simp [hne, List.getLast?_cons]
    exact .take hstep (ih h)

end CircularList

end OrderedTable
