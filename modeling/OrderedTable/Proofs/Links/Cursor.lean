import Mathlib.Data.List.ReduceOption
import OrderedTable.Proofs.Links.Circle

/-!
# What a cursor reads

`readEnds` pops the ends of a sequence. A cursor over a list that holds a sequence reads the same
(`CircularList.Holds.iterate_eq`), because at every moment it is left with a stretch of the list
(`Cursor.Spans`), of which each step takes one end.
-/

namespace OrderedTable

/-- What is read off a sequence by taking its first element or its last one in turn. -/
def readEnds {α : Type} : List α → List Side → List (Option α)
  | _, [] => []
  | xs, .front :: sides => xs.head? :: readEnds xs.tail sides
  | xs, .back :: sides => xs.getLast? :: readEnds xs.dropLast sides

theorem readEnds_map {α β : Type} (f : α → β) (xs : List α) (sides : List Side) :
    readEnds (xs.map f) sides = (readEnds xs sides).map (Option.map f) := by
  induction sides generalizing xs with
  | nil => rfl
  | cons side sides ih =>
    cases side <;> simp [readEnds, ih, ← List.map_tail, ← List.map_dropLast]

theorem mem_of_mem_readEnds {α : Type} {xs : List α} {sides : List Side} {x : α}
    (h : some x ∈ readEnds xs sides) : x ∈ xs := by
  induction sides generalizing xs with
  | nil => simp [readEnds] at h
  | cons side sides ih =>
    cases side with
    | front =>
      rcases List.mem_cons.1 h with h | h
      · exact List.mem_of_head? h.symm
      · exact List.mem_of_mem_tail (ih h)
    | back =>
      rcases List.mem_cons.1 h with h | h
      · exact List.mem_of_getLast? h.symm
      · exact List.dropLast_subset xs (ih h)

theorem nodup_reduceOption_readEnds {α : Type} {xs : List α} (h : xs.Nodup) (sides : List Side) :
    (readEnds xs sides).reduceOption.Nodup := by
  induction sides generalizing xs with
  | nil => exact List.nodup_nil
  | cons side sides ih =>
    cases side with
    | front =>
      cases xs with
      | nil => exact ih h
      | cons x xs =>
        obtain ⟨hx, hxs⟩ := List.nodup_cons.1 h
        refine List.nodup_cons.2 ⟨fun hmem => hx ?_, ih hxs⟩
        exact mem_of_mem_readEnds (List.reduceOption_mem_iff.1 hmem)
    | back =>
      rcases List.eq_nil_or_concat xs with rfl | ⟨xs, x, rfl⟩
      · exact ih h
      · rw [List.concat_eq_append] at h ⊢
        obtain ⟨hxs, -, hx⟩ := List.nodup_append.1 h
        rw [readEnds, List.getLast?_concat, List.dropLast_concat]
        refine List.nodup_cons.2 ⟨fun hmem => ?_, ih hxs⟩
        have hmem := mem_of_mem_readEnds (List.reduceOption_mem_iff.1 hmem)
        exact hx x hmem x (List.mem_singleton_self x) rfl

/-- There is nothing left after as many steps as there are elements. -/
theorem eq_none_of_mem_drop_readEnds {α : Type} {xs : List α} {sides : List Side} {x : Option α}
    (h : x ∈ (readEnds xs sides).drop xs.length) : x = none := by
  induction sides generalizing xs with
  | nil => simp [readEnds] at h
  | cons side sides ih =>
    cases xs with
    | nil =>
      have hcons : readEnds ([] : List α) (side :: sides) = none :: readEnds [] sides := by
        cases side <;> rfl
      rw [hcons] at h
      exact (List.mem_cons.1 h).elim id fun h => @ih [] h
    | cons y ys =>
      cases side with
      | front => exact ih h
      | back =>
        refine @ih (y :: ys).dropLast ?_
        rw [List.length_dropLast]
        exact h

variable {σ ι : Type} [LinkStore σ ι (CircularLink ι)]

namespace Cursor

/-- The cursor is left with `ids`, a stretch of a circle. -/
structure Spans (cursor : Cursor ι) (nodes : σ) (ids : List ι) : Prop where
  front : cursor.front = ids.head?
  back : cursor.back = ids.getLast?
  stretch : ∃ xs ys, CircularList.Closed nodes (xs ++ ids ++ ys)
  nodup : ids.Nodup

variable [DecidableEq ι] {nodes : σ} {cursor : Cursor ι} {ids : List ι}

theorem Spans.step_front (h : cursor.Spans nodes ids) :
    ∃ cursor', cursor.step nodes .front = .ok (ids.head?, cursor') ∧
      cursor'.Spans nodes ids.tail := by
  obtain ⟨xs, ys, hclosed⟩ := h.stretch
  rcases ids with - | ⟨id, - | ⟨next, rest⟩⟩
  · exact ⟨cursor, by simp [step, at?, h.front], h⟩
  · refine ⟨⟨none, none⟩, ?_, rfl, rfl, ⟨xs ++ [id], ys, by simpa using hclosed⟩, List.nodup_nil⟩
    simp [step, at?, h.front, h.back]
  · have hne : cursor.front ≠ cursor.back := by
      rw [h.front, h.back, List.getLast?_cons_cons, List.head?_cons]
      exact fun heq => (List.nodup_cons.1 h.nodup).1 (List.mem_of_getLast? heq.symm)
    have hclosed' : CircularList.Closed nodes (xs ++ id :: (next :: rest ++ ys)) := by
      simpa using hclosed
    refine ⟨⟨some next, cursor.back⟩, ?_, rfl, ?_, ⟨xs ++ [id], ys, by simpa using hclosed⟩,
      h.nodup.tail⟩
    · have hat : cursor.at? .front = some id := h.front
      simp only [step, hat, if_neg hne, follow_eq_ok hclosed'.link_eq, ok_bind]
      rfl
    · rw [h.back, List.getLast?_cons_cons]
      rfl

theorem Spans.step_back (h : cursor.Spans nodes ids) :
    ∃ cursor', cursor.step nodes .back = .ok (ids.getLast?, cursor') ∧
      cursor'.Spans nodes ids.dropLast := by
  obtain ⟨xs, ys, hclosed⟩ := h.stretch
  rcases List.eq_nil_or_concat ids with rfl | ⟨rest, id, rfl⟩
  · exact ⟨cursor, by simp [step, at?, h.back], h⟩
  rw [List.concat_eq_append] at h hclosed ⊢
  have hback : cursor.back = some id := by rw [h.back, List.getLast?_concat]
  obtain ⟨hnd, -, hid⟩ := List.nodup_append.1 h.nodup
  rcases List.eq_nil_or_concat rest with rfl | ⟨init, prev, rfl⟩
  · refine ⟨⟨none, none⟩, ?_, rfl, rfl, ⟨xs, id :: ys, by simpa using hclosed⟩, List.nodup_nil⟩
    simp [step, at?, h.front, h.back]
  · rw [List.concat_eq_append] at h hclosed hnd hid ⊢
    have hfront : cursor.front = (init ++ [prev]).head? := by
      rw [h.front]
      cases init <;> rfl
    have hne : cursor.front ≠ cursor.back := by
      rw [hfront, hback]
      exact fun heq => hid id (List.mem_of_head? heq) id (List.mem_singleton_self _) rfl
    have hclosed' : CircularList.Closed nodes ((xs ++ init ++ [prev]) ++ id :: ys) := by
      simpa using hclosed
    rw [List.getLast?_concat, List.dropLast_concat]
    refine ⟨⟨cursor.front, some prev⟩, ?_, hfront, by simp, ⟨xs, id :: ys, by simpa using hclosed⟩,
      hnd⟩
    have hat : cursor.at? .back = some id := hback
    simp only [step, hat, if_neg hne, follow_eq_ok hclosed'.link_eq, ok_bind]
    simp [advance]

theorem Spans.run_eq (h : cursor.Spans nodes ids) (sides : List Side) :
    cursor.run nodes sides = .ok (readEnds ids sides) := by
  induction sides generalizing cursor ids with
  | nil => rfl
  | cons side sides ih =>
    cases side with
    | front =>
      obtain ⟨cursor', hstep, hspans⟩ := h.step_front
      simp only [run, hstep, ok_bind, ih hspans, pure_eq_ok, readEnds]
    | back =>
      obtain ⟨cursor', hstep, hspans⟩ := h.step_back
      simp only [run, hstep, ok_bind, ih hspans, pure_eq_ok, readEnds]

theorem Spans.drain_eq (h : cursor.Spans nodes ids) {fuel : Nat} (hfuel : ids.length ≤ fuel) :
    cursor.drain nodes fuel = .ok ids := by
  induction ids generalizing cursor fuel with
  | nil => cases fuel <;> simp [drain, h.front]
  | cons id rest ih =>
    cases fuel with
    | zero => simp at hfuel
    | succ fuel =>
      obtain ⟨cursor', hstep, hspans⟩ := h.step_front
      have hrest := ih hspans (by simpa using hfuel)
      have hfront : cursor.front = some id := h.front
      rw [drain.eq_def]
      simp only [hfront, hstep, ok_bind, hrest, pure_eq_ok]

end Cursor

namespace CircularList.Holds

variable {nodes : σ} {list : CircularList ι} {ids : List ι}

/-- A fresh cursor has the whole list before it. -/
theorem exists_cursor (h : list.Holds nodes ids) :
    ∃ cursor, list.cursor nodes = .ok cursor ∧ cursor.Spans nodes ids := by
  refine ⟨⟨list.first?, ids.getLast?⟩, ?_, h.first, rfl, ?_, h.nodup⟩
  · rw [CircularList.cursor, h.last?_eq]
    rfl
  · exact ⟨[], [], by simpa using h.closed⟩

variable [DecidableEq ι]

theorem iterate_eq (h : list.Holds nodes ids) (sides : List Side) :
    list.iterate nodes sides = .ok (readEnds ids sides) := by
  obtain ⟨cursor, hcursor, hspans⟩ := h.exists_cursor
  rw [iterate, hcursor, ok_bind, hspans.run_eq]

theorem walk_eq [NodeStore σ] [LawfulLinkStore σ ι (CircularLink ι)] (h : list.Holds nodes ids) :
    list.walk nodes = .ok ids := by
  obtain ⟨cursor, hcursor, hspans⟩ := h.exists_cursor
  rw [walk, hcursor, ok_bind, hspans.drain_eq h.length_le_capacity]

end CircularList.Holds

end OrderedTable
