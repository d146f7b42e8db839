import OrderedTable.Proofs.Arena.Issued
import OrderedTable.Proofs.Arena.Slots
import OrderedTable.Proofs.Deque.Row

/-!
# Deques are bounded rows

`Deque.Holds d row` says that the list of a deque is the ids of `row`, that these resolve to its
values and that the arena has no other nodes. So the length of the list and the number of nodes in
the arena agree, and what is full by the one is full by the other. Each operation then does to the
row what `Row.call` says (`Deque.Shows.exists_call`), and so does a whole history.
-/

namespace OrderedTable

namespace Deque

variable {α A : Type} [Arena A (Node α)] {d : Deque α A} {row xs ys : List (NodeId × α)}
  {p : NodeId × α}

/-! ## Nodes under rewiring -/

section
variable {nodes nodes' : A}

theorem setLink_eq (id : NodeId) (link : CircularLink NodeId) : LinkStore.setLink nodes id link =
    Arena.modify nodes id fun node => { node with place := link } := rfl

variable [LawfulArena A (Node α)]

theorem value_eq_of_rewired (h : Rewired (CircularLink NodeId) nodes nodes') (id : NodeId) :
    (Arena.get? nodes' id).map Node.value = (Arena.get? nodes id).map Node.value := by
  refine h.eq_of_setLink (fun a => (Arena.get? a id).map Node.value) fun a i link => ?_
  rw [setLink_eq]
  exact Arena.map_get?_modify Node.value fun _ => rfl

theorem size_eq_of_rewired (h : Rewired (CircularLink NodeId) nodes nodes') :
    Arena.size nodes' = Arena.size nodes :=
  h.eq_of_setLink Arena.size fun a i _ => LawfulArena.size_modify a i _

end

/-! ## The relation -/

/-- The deque has the values of `row`, under the ids there, and no other nodes. -/
structure Holds (d : Deque α A) (row : List (NodeId × α)) : Prop where
  order : d.list.Holds d.nodes (row.map Prod.fst)
  value : ∀ p ∈ row, (Arena.get? d.nodes p.1).map Node.value = some p.2
  size : d.size = row.length

theorem holds_empty [LawfulArena A (Node α)] (maxItems : Nat) :
    (empty maxItems : Deque α A).Holds [] where
  order := CircularList.holds_nil _
  value _ hp := absurd hp List.not_mem_nil
  size := LawfulArena.size_empty

namespace Holds

theorem valueAt_eq (h : d.Holds row) (hp : p ∈ row) : d.valueAt p.1 = .ok p.2 := by
  obtain ⟨node, hnode, hvalue⟩ := Option.map_eq_some_iff.1 (h.value p hp)
  simp [valueAt, hnode, hvalue]

theorem valueAt?_eq (h : d.Holds row) {p : Option (NodeId × α)} (hp : ∀ q, p = some q → q ∈ row) :
    (p.map Prod.fst).mapM d.valueAt = .ok (p.map Prod.snd) := by
  cases p with
  | none => rfl
  | some q => simp only [Option.map_some, Option.mapM_some, h.valueAt_eq (hp q rfl), Except.map_ok]

theorem head?_eq (h : d.Holds row) : d.head? = .ok (row.map Prod.snd).head? := by
  rw [head?, h.order.first, List.head?_map, List.head?_map]
  exact h.valueAt?_eq fun _ => List.mem_of_head?

theorem tail?_eq (h : d.Holds row) : d.tail? = .ok (row.map Prod.snd).getLast? := by
  rw [tail?, h.order.last?_eq, ok_bind, List.getLast?_map, List.getLast?_map]
  exact h.valueAt?_eq fun _ => List.mem_of_getLast?

theorem iterate_eq (h : d.Holds row) (sides : List Side) :
    d.iterate sides = .ok (readEnds (row.map Prod.snd) sides) := by
  rw [iterate, h.order.iterate_eq, ok_bind, readEnds_map, readEnds_map, List.mapM_map]
  refine mapM_eq_ok fun p hp => h.valueAt?_eq ?_
  rintro q rfl
  exact mem_of_mem_readEnds hp

theorem isEmpty_eq (h : d.Holds row) : d.isEmpty = row.isEmpty := by
  rw [isEmpty, h.order.isEmpty_eq, List.isEmpty_map]

/-- Whether a deque is full can be told by its row. -/
theorem isFull_iff (h : d.Holds row) :
    d.isFull = true ↔ 0 < d.maxItems ∧ d.maxItems ≤ row.length := by
  simp [isFull, h.size, Nat.pos_iff_ne_zero]

variable [LawfulArena A (Node α)]

theorem toList_eq (h : d.Holds row) : d.toList = .ok (row.map Prod.snd) := by
  rw [toList, h.order.walk_eq, ok_bind, List.mapM_map]
  exact mapM_eq_ok fun p hp => h.valueAt_eq hp

/-! ## Taking values off -/

theorem exists_take (h : d.Holds (xs ++ p :: ys)) :
    ∃ d', d.take p.1 = .ok (some p.2, d') ∧ d'.Holds (xs ++ ys) ∧ d'.maxItems = d.maxItems := by
  have hp : p ∈ xs ++ p :: ys := List.mem_append_right _ List.mem_cons_self
  obtain ⟨list, nodes₁, herase, horder, -, hrew, -⟩ := h.order.erase (List.mem_map_of_mem hp)
  have hids : ((xs ++ p :: ys).map Prod.fst).erase p.1 = (xs ++ ys).map Prod.fst := by
    have hnd := h.order.nodup
    rw [List.map_append, List.map_cons] at hnd ⊢
    have hx : p.1 ∉ xs.map Prod.fst := fun hmem =>
      (List.nodup_append.1 hnd).2.2 p.1 hmem p.1 List.mem_cons_self rfl
    rw [List.erase_append_right _ hx, List.erase_cons_head, List.map_append]
  rw [hids] at horder
  obtain ⟨node, hnode, hvalue⟩ := Option.map_eq_some_iff.1
    ((value_eq_of_rewired hrew p.1).trans (h.value p hp))
  obtain ⟨nodes₂, hremove, hremoved⟩ := Arena.exists_remove? hnode
  have hother : ∀ q ∈ xs ++ ys, q.1 ≠ p.1 := fun q hq heq => by
    have hnd := h.order.nodup
    rw [List.perm_middle.map Prod.fst |>.nodup_iff, List.map_cons] at hnd
    exact (List.nodup_cons.1 hnd).1 (heq ▸ List.mem_map_of_mem hq)
  refine ⟨{ d with list, nodes := nodes₂ }, ?_, ⟨?_, fun q hq => ?_, ?_⟩, rfl⟩
  · rw [take, herase, ok_bind]
    simp only [hremove, hvalue, pure_eq_ok]
  · refine horder.congr fun id hid => ?_
    obtain ⟨q, hq, rfl⟩ := List.mem_map.1 hid
    exact congrArg (Option.map Node.place) (hremoved.get?_ne q.1 (hother q hq))
  · have hmem : q ∈ xs ++ p :: ys := by
      rw [List.mem_append, List.mem_cons]
      exact (List.mem_append.1 hq).imp_right .inr
    rw [hremoved.get?_ne q.1 (hother q hq), value_eq_of_rewired hrew, h.value q hmem]
  · have hsize := hremoved.size
    rw [size_eq_of_rewired hrew, show Arena.size d.nodes = _ from h.size] at hsize
    simp only [List.length_append, List.length_cons] at hsize ⊢
    exact Nat.add_right_cancel hsize

theorem exists_popHead (h : d.Holds row) :
    ∃ d', d.popHead = .ok (row.head?.map Prod.snd, d') ∧ d'.Holds row.tail ∧
      d'.maxItems = d.maxItems := by
  rw [popHead, h.order.first, List.head?_map]
  cases row with
  | nil => exact ⟨d, rfl, h, rfl⟩
  | cons p row =>
    have hsplit : d.Holds ([] ++ p :: row) := h
    exact hsplit.exists_take

theorem exists_popTail (h : d.Holds row) :
    ∃ d', d.popTail = .ok (row.getLast?.map Prod.snd, d') ∧ d'.Holds row.dropLast ∧
      d'.maxItems = d.maxItems := by
  rw [popTail, h.order.last?_eq, ok_bind, List.getLast?_map]
  rcases List.eq_nil_or_concat row with rfl | ⟨row, p, rfl⟩
  · exact ⟨d, rfl, h, rfl⟩
  · rw [List.concat_eq_append, List.getLast?_concat, List.dropLast_concat] at *
    obtain ⟨d', htake, h', hmax⟩ := h.exists_take
    exact ⟨d', htake, by simpa using h', hmax⟩

theorem exists_clearWithin (h : d.Holds row) {fuel : Nat} (hfuel : row.length ≤ fuel) :
    ∃ d', d.clearWithin fuel = .ok (row.map Prod.snd, d') ∧ d'.Holds [] ∧
      d'.maxItems = d.maxItems := by
  induction row generalizing d fuel with
  | nil =>
    obtain ⟨d', hpop, h', hmax⟩ := h.exists_popHead
    refine ⟨d', ?_, h', hmax⟩
    rw [clearWithin.eq_def, hpop]
    rfl
  | cons p row ih =>
    obtain ⟨fuel, rfl⟩ : ∃ n, fuel = n + 1 := ⟨fuel - 1, by simp at hfuel; omega⟩
    obtain ⟨d₁, hpop, h₁, hmax₁⟩ := h.exists_popHead
    obtain ⟨d', hclear, h', hmax⟩ := ih h₁ (Nat.le_of_succ_le_succ hfuel)
    refine ⟨d', ?_, h', hmax.trans hmax₁⟩
    rw [clearWithin.eq_def, hpop]
    simp only [List.head?_cons, Option.map_some, ok_bind, hclear, pure_eq_ok, List.map_cons]

theorem exists_clear (h : d.Holds row) :
    ∃ d', d.clear = .ok (row.map Prod.snd, d') ∧ d'.Holds [] ∧ d'.maxItems = d.maxItems :=
  h.exists_clearWithin h.size.ge

/-! ## Putting values on -/

/-- A full deque evicts its head, and reports it. -/
theorem exists_makeRoom (h : d.Holds row) (hfull : 0 < d.maxItems ∧ d.maxItems ≤ row.length) :
    ∃ p rest d', row = p :: rest ∧ d.makeRoom =
        .ok { evicted := some p.2, notices := [.evicting d.maxItems], deque := d' } ∧
      d'.Holds rest ∧ d'.maxItems = d.maxItems := by
  obtain ⟨p, rest, rfl⟩ := List.exists_cons_of_length_pos (Nat.lt_of_lt_of_le hfull.1 hfull.2)
  have hsplit : d.Holds ([] ++ p :: rest) := h
  obtain ⟨d', htake, h', hmax⟩ := hsplit.exists_take
  refine ⟨p, rest, d', rfl, ?_, h', hmax⟩
  have hfirst : d.list.first? = some p.1 := h.order.first
  simp only [makeRoom, if_pos (h.isFull_iff.2 hfull), hfirst, htake, ok_bind, pure_eq_ok]

/-- A value is put on at an end. -/
theorem exists_put (h : d.Holds row) (value : α) (side : Side) :
    ∃ id nodes list nodes', Arena.insertWith d.nodes
        (fun id => { place := CircularLink.detached id, value : Node α }) = (id, nodes) ∧
      d.list.push nodes id side = .ok (list, nodes') ∧
      Holds { d with list, nodes := nodes' } (side.insert (id, value) row) := by
  obtain ⟨id, nodes, hinsert, hnew⟩ := Arena.exists_insertWith d.nodes
    fun id => { place := CircularLink.detached id, value : Node α }
  have hne : ∀ q ∈ row, q.1 ≠ id := by
    rintro q hq rfl
    have hvalue := h.value q hq
    rw [hnew.get?_old] at hvalue
    cases hvalue
  have horder : d.list.Holds nodes (row.map Prod.fst) := h.order.congr fun i hi => by
    obtain ⟨q, hq, rfl⟩ := List.mem_map.1 hi
    exact congrArg (Option.map Node.place) (hnew.get?_ne q.1 (hne q hq))
  have hid : id ∉ row.map Prod.fst := fun hmem => by
    obtain ⟨q, hq, hqid⟩ := List.mem_map.1 hmem
    exact hne q hq hqid
  obtain ⟨list, nodes', hpush, hlist, hrew, -⟩ :=
    horder.push (congrArg (Option.map Node.place) hnew.get?_self) hid side
  refine ⟨id, nodes, list, nodes', hinsert, hpush, ?_, fun q hq => ?_, ?_⟩
  · rw [Side.map_insert]
    exact hlist
  · rw [value_eq_of_rewired hrew]
    rcases Side.mem_insert.1 hq with rfl | hq
    · rw [hnew.get?_self]
      rfl
    · rw [hnew.get?_ne q.1 (hne q hq), h.value q hq]
  · rw [Side.length_insert, ← h.size]
    exact (size_eq_of_rewired hrew).trans hnew.size

end Holds

/-! ## Calls -/

/-- The deque holds the values, under some ids. -/
def Shows (d : Deque α A) (values : List α) : Prop := ∃ row, d.Holds row ∧ row.map Prod.snd = values

/-- An outcome is what a row has said, with the notices that belong to it, and the deque is left with
what has become of the row. -/
structure Outcome.Refines (o : Outcome α A) (maxItems : Nat) (said : Answer α × List α) : Prop where
  answer : o.answer = said.1
  notices : o.notices = said.1.notices maxItems
  shows : o.deque.Shows said.2
  bound : o.deque.maxItems = maxItems

variable [LawfulArena A (Node α)]

theorem Holds.exists_push (h : d.Holds row) (side : Side) (value : α) :
    ∃ push, d.push side value = .ok push ∧
      push.outcome.Refines d.maxItems
        (Row.call d.maxItems (row.map Prod.snd) (.push side value)) := by
  by_cases hfull : 0 < d.maxItems ∧ d.maxItems ≤ row.length
  · obtain ⟨p, rest, d₁, rfl, hroom, h₁, hmax⟩ := h.exists_makeRoom hfull
    obtain ⟨id, nodes, list, nodes', hinsert, hpush, h'⟩ := h₁.exists_put value side
    refine ⟨{ evicted := some p.2, notices := [.evicting d.maxItems],
              deque := { d₁ with list, nodes := nodes' } }, ?_, ?_⟩
    · simp only [push, hroom, ok_bind, hinsert, hpush, pure_eq_ok]
    · rw [Row.call, if_pos (by simpa using hfull)]
      exact ⟨rfl, rfl, ⟨_, h', Side.map_insert _ _ _ _⟩, hmax⟩
  · obtain ⟨id, nodes, list, nodes', hinsert, hpush, h'⟩ := h.exists_put value side
    refine ⟨{ deque := { d with list, nodes := nodes' } }, ?_, ?_⟩
    · have hroom : d.makeRoom = .ok { deque := d } := if_neg fun hd => hfull (h.isFull_iff.1 hd)
      simp only [push, hroom, ok_bind, hinsert, hpush, pure_eq_ok]
    · rw [Row.call, if_neg (by simpa using hfull)]
      exact ⟨rfl, rfl, ⟨_, h', Side.map_insert _ _ _ _⟩, rfl⟩

theorem Holds.exists_call (h : d.Holds row) (c : Call α) :
    ∃ o, d.call c = .ok o ∧ o.Refines d.maxItems (Row.call d.maxItems (row.map Prod.snd) c) := by
  cases c with
  | push side value =>
    obtain ⟨push, hpush, h'⟩ := h.exists_push side value
    refine ⟨push.outcome, ?_, h'⟩
    cases side <;> simp only [call, pushHead, pushTail, hpush, Except.map_ok]
  | pop side =>
    cases side with
    | front =>
      obtain ⟨d', hpop, h', hmax⟩ := h.exists_popHead
      refine ⟨{ answer := .popped (row.head?.map Prod.snd), deque := d' }, ?_, ?_, rfl,
        ⟨_, h', List.map_tail⟩, hmax⟩
      · simp only [call, hpop, ok_bind, say, pure_eq_ok]
      · rw [Row.call, List.head?_map]
    | back =>
      obtain ⟨d', hpop, h', hmax⟩ := h.exists_popTail
      refine ⟨{ answer := .popped (row.getLast?.map Prod.snd), deque := d' }, ?_, ?_, rfl,
        ⟨_, h', List.map_dropLast⟩, hmax⟩
      · simp only [call, hpop, ok_bind, say, pure_eq_ok]
      · rw [Row.call, List.getLast?_map]
  | clear =>
    obtain ⟨d', hclear, h', hmax⟩ := h.exists_clear
    refine ⟨{ answer := .cleared (row.map Prod.snd), deque := d' }, ?_, rfl, rfl, ⟨_, h', rfl⟩, hmax⟩
    simp only [call, hclear, ok_bind, say, pure_eq_ok]
  | peek side =>
    cases side with
    | front =>
      refine ⟨{ answer := .peeked (row.map Prod.snd).head?, deque := d }, ?_, rfl, rfl,
        ⟨_, h, rfl⟩, rfl⟩
      simp only [call, h.head?_eq, ok_bind, say, pure_eq_ok]
    | back =>
      refine ⟨{ answer := .peeked (row.map Prod.snd).getLast?, deque := d }, ?_, rfl, rfl,
        ⟨_, h, rfl⟩, rfl⟩
      simp only [call, h.tail?_eq, ok_bind, say, pure_eq_ok]
  | size =>
    refine ⟨_, rfl, ?_, rfl, ⟨_, h, rfl⟩, rfl⟩
    rw [Row.call, List.length_map, ← h.size]
  | isEmpty =>
    refine ⟨_, rfl, ?_, rfl, ⟨_, h, rfl⟩, rfl⟩
    rw [Row.call, List.isEmpty_map, ← h.isEmpty_eq]
  | iterate sides =>
    refine ⟨{ answer := .read (readEnds (row.map Prod.snd) sides), deque := d }, ?_, rfl, rfl,
      ⟨_, h, rfl⟩, rfl⟩
    simp only [call, h.iterate_eq, ok_bind, say, pure_eq_ok]
  | toList =>
    refine ⟨{ answer := .listed (row.map Prod.snd), deque := d }, ?_, rfl, rfl, ⟨_, h, rfl⟩, rfl⟩
    simp only [call, h.toList_eq, ok_bind, say, pure_eq_ok]

theorem Shows.exists_call {values : List α} (h : d.Shows values) (c : Call α) :
    ∃ o, d.call c = .ok o ∧ o.Refines d.maxItems (Row.call d.maxItems values c) := by
  obtain ⟨row, h, rfl⟩ := h
  exact h.exists_call c

theorem Shows.exists_run {values : List α} (h : d.Shows values) (calls : List (Call α)) :
    ∃ hist, d.run calls = .ok hist ∧
      hist.turns = (Row.run d.maxItems values calls).1.map (fun a => (a, a.notices d.maxItems)) ∧
      hist.deque.Shows (Row.run d.maxItems values calls).2 ∧ hist.deque.maxItems = d.maxItems := by
  induction calls generalizing d values with
  | nil => exact ⟨{ deque := d }, rfl, rfl, h, rfl⟩
  | cons c calls ih =>
    obtain ⟨o, hcall, ho⟩ := h.exists_call c
    obtain ⟨hist, hrun, hturns, hshows, hmax⟩ := ih ho.shows
    rw [ho.bound] at hturns hshows hmax
    refine ⟨{ hist with turns := (o.answer, o.notices) :: hist.turns }, ?_, ?_, hshows, hmax⟩
    · rw [run, hcall, ok_bind, hrun]
      rfl
    · rw [Row.run, List.map_cons, hturns, ho.notices, ho.answer]

/-! ## Histories -/

/-- A deque that is empty at first is a row: it says what the row says. It has no more values than
there is room for, it is empty if the arena is, and each value that has been pushed has been popped,
evicted or cleared or is still there. Every eviction is reported, once, and nothing else is. -/
structure KeepsToRow (maxItems : Nat) (calls : List (Call α)) (h : History α A) : Prop where
  answers : h.turns.map Prod.fst = (Row.run maxItems [] calls).1
  values : h.deque.toList = .ok (Row.run maxItems [] calls).2
  size_le : 0 < maxItems → h.deque.size ≤ maxItems
  isEmpty_iff : h.deque.isEmpty = true ↔ h.deque.size = 0
  balance : ∀ held, h.deque.toList = .ok held →
    (calls.flatMap Call.pushed : Multiset α) =
      (h.turns.map Prod.fst).flatMap Answer.poppedValues +
        (h.turns.map Prod.fst).flatMap Answer.evictedValues +
        (h.turns.map Prod.fst).flatMap Answer.clearedValues + held
  notices : ∀ turn ∈ h.turns, turn.2 = turn.1.notices maxItems

theorem run_keepsToRow (maxItems : Nat) (calls : List (Call α)) :
    ∃ h, (empty maxItems : Deque α A).run calls = .ok h ∧ KeepsToRow maxItems calls h := by
  have hempty : (empty maxItems : Deque α A).Shows [] := ⟨[], holds_empty maxItems, rfl⟩
  have hbound : (empty maxItems : Deque α A).maxItems = maxItems := rfl
  obtain ⟨h, hrun, hturns, ⟨row, hrow, hvalues⟩, -⟩ := hempty.exists_run calls
  rw [hbound] at hturns hvalues
  have hanswers : h.turns.map Prod.fst = (Row.run maxItems [] calls).1 := by
    rw [hturns, List.map_map]
    exact List.map_id _
  have hlist : h.deque.toList = .ok (Row.run maxItems [] calls).2 := hvalues ▸ hrow.toList_eq
  refine ⟨h, hrun, hanswers, hlist, fun hpos => ?_, ?_, fun held hheld => ?_, fun turn hturn => ?_⟩
  · have hlength := Row.run_length_le calls hpos (List.length_nil.trans_le (Nat.zero_le maxItems))
    rw [← hvalues, List.length_map] at hlength
    exact hrow.size.trans_le hlength
  · rw [hrow.isEmpty_eq, hrow.size, List.isEmpty_iff, List.length_eq_zero_iff]
  · obtain rfl := Except.ok.inj (hlist.symm.trans hheld)
    rw [hanswers, ← Row.run_balance, Multiset.coe_nil, add_zero]
  · rw [hturns] at hturn
    obtain ⟨answer, -, rfl⟩ := List.mem_map.1 hturn
    rfl

/-- A deque with room for two values, in an arena of numbered cells. -/
theorem run_keepsToRow_two :
    let calls : List (Call Nat) := [.push .back 1, .push .back 2, .push .front 3, .pop .back, .clear]
    ∃ h, (empty 2 : Deque Nat (SlotArena (Node Nat))).run calls = .ok h ∧
      KeepsToRow 2 calls h ∧ h.turns.map Prod.fst =
        [.evicted none, .evicted none, .evicted (some 1), .popped (some 2), .cleared [3]] := by
  intro calls
  obtain ⟨h, hrun, hkeeps⟩ := run_keepsToRow (A := SlotArena (Node Nat)) 2 calls
  exact ⟨h, hrun, hkeeps, hkeeps.answers⟩

end Deque

end OrderedTable
