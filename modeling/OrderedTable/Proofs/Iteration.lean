import OrderedTable.Proofs.Deque.Refinement
import OrderedTable.Proofs.Ledger.Run

/-!
# Reading from both ends

An iterator is asked for elements at the front and at the back, in any order. What it must answer is
`readEnds`: it pops the ends of the sequence that was there when it was made. `ReadsEnds` says what
follows from that for a whole string of calls, however the sides are mixed, and
`iterate_readsEnds` that the iterators of lists, of tables and of deques all read like this.
-/

namespace OrderedTable

/-! ## What pops of both ends amount to -/

section

variable {α : Type} {xs : List α} {sides : List Side}

/-- What has been read on one side, in the order of the calls. -/
def readAt (side : Side) (sides : List Side) (read : List (Option α)) : List α :=
  (sides.zip read).filterMap fun p => if p.1 = side then p.2 else none

/-- The calls on the `sides` of `xs` have read `read`. -/
structure ReadsEnds (xs : List α) (sides : List Side) (read : List (Option α)) : Prop where
  /-- Each call has popped its end of what the calls before have left. -/
  pops : read = readEnds xs sides
  length : read.length = sides.length
  /-- The calls yield until there have been as many as there are elements, and not after. -/
  isSome_iff : ∀ (i : Nat) (x : Option α), read[i]? = some x → (x.isSome = true ↔ i < xs.length)
  /-- The elements at the front have been read in order, those at the back in reverse order, and the
  others have not been read. -/
  split : ∃ rest, xs = readAt .front sides read ++ rest ++ (readAt .back sides read).reverse ∧
    rest.length = xs.length - sides.length ∧ (read.reduceOption ++ rest).Perm xs

theorem readAt_cons (side s : Side) (x : Option α) (read : List (Option α)) :
    readAt side (s :: sides) (x :: read) =
      (if s = side then x.toList else []) ++ readAt side sides read := by
  rw [readAt, List.zip_cons_cons, List.filterMap_cons]
  by_cases hside : s = side
  · cases x <;> simp [hside, readAt]
  · simp [hside, readAt]

/-- Each call reads on one of the two sides. -/
theorem readAt_append_perm {read : List (Option α)} (hlength : read.length = sides.length) :
    (readAt .front sides read ++ readAt .back sides read).Perm read.reduceOption := by
  induction sides generalizing read with
  | nil =>
    obtain rfl := List.length_eq_zero_iff.1 hlength
    exact .refl _
  | cons side sides ih =>
    obtain ⟨x, read, rfl⟩ := List.exists_cons_of_length_eq_add_one hlength
    have hrest := ih (Nat.succ.inj hlength)
    have hread : (x :: read).reduceOption = x.toList ++ read.reduceOption := by
      cases x <;> rfl
    rw [readAt_cons, readAt_cons, hread]
    cases side with
    | front => simpa using hrest.append_left x.toList
    | back =>
      have hswap : (readAt .front sides read ++ x.toList).Perm
          (x.toList ++ readAt .front sides read) := List.perm_append_comm
      have hmoved := hswap.append_right (readAt .back sides read)
      rw [List.append_assoc, List.append_assoc] at hmoved
      simpa using hmoved.trans (hrest.append_left x.toList)

/-- What has been left lies between what has been read on the two sides. -/
theorem append_rest_perm (front back rest : List α) :
    (front ++ back ++ rest).Perm (front ++ rest ++ back.reverse) := by
  rw [List.append_assoc, List.append_assoc]
  apply List.Perm.append_left
  exact List.perm_append_comm.trans ((List.reverse_perm back).symm.append_left rest)

theorem length_readEnds (xs : List α) (sides : List Side) :
    (readEnds xs sides).length = sides.length := by
  induction sides generalizing xs with
  | nil => rfl
  | cons side sides ih => cases side <;> exact congrArg Nat.succ (ih _)

theorem isSome_iff_of_getElem?_readEnds {i : Nat} {x : Option α}
    (h : (readEnds xs sides)[i]? = some x) : x.isSome = true ↔ i < xs.length := by
  induction sides generalizing xs i with
  | nil => simp [readEnds] at h
  | cons side sides ih =>
    cases i with
    | zero =>
      cases side with
      | front =>
        obtain rfl : xs.head? = x := Option.some.inj h
        cases xs <;> simp
      | back =>
        obtain rfl : xs.getLast? = x := Option.some.inj h
        cases xs <;> simp [List.getLast?_cons]
    | succ i =>
      cases side with
      | front =>
        have hrest := @ih xs.tail i h
        rw [List.length_tail] at hrest
        exact hrest.trans Nat.lt_sub_iff_add_lt
      | back =>
        have hrest := @ih xs.dropLast i h
        rw [List.length_dropLast] at hrest
        exact hrest.trans Nat.lt_sub_iff_add_lt

/-- What is popped of the front comes before what is left, and what is popped of the back after it,
the last of these first. -/
theorem exists_rest_readEnds (xs : List α) (sides : List Side) : ∃ rest,
    xs = readAt .front sides (readEnds xs sides) ++ rest ++
      (readAt .back sides (readEnds xs sides)).reverse ∧
    rest.length = xs.length - sides.length := by
  -- What the first call leaves is split by the other calls, and it adds one element outside.
  induction sides generalizing xs with
  | nil => exact ⟨xs, by simp [readAt], rfl⟩
  | cons side sides ih =>
    cases side with
    | front =>
      obtain ⟨rest, hsplit, hlength⟩ := ih xs.tail
      refine ⟨rest, ?_, ?_⟩
      · rw [readEnds, readAt_cons, readAt_cons]
        cases xs with
        | nil => simpa using hsplit
        | cons x xs => simpa using hsplit
      · rw [hlength, List.length_tail, List.length_cons]
        omega
    | back =>
      obtain ⟨rest, hsplit, hlength⟩ := ih xs.dropLast
      refine ⟨rest, ?_, ?_⟩
      · rw [readEnds, readAt_cons, readAt_cons]
        rcases List.eq_nil_or_concat xs with rfl | ⟨init, x, rfl⟩
        · simpa using hsplit
        · rw [List.concat_eq_append, List.dropLast_concat] at hsplit ⊢
          rw [List.getLast?_concat]
          simpa using congrArg (· ++ [x]) hsplit
      · rw [hlength, List.length_dropLast, List.length_cons]
        omega

theorem readsEnds_readEnds (xs : List α) (sides : List Side) :
    ReadsEnds xs sides (readEnds xs sides) where
  pops := rfl
  length := length_readEnds xs sides
  isSome_iff _ _ := isSome_iff_of_getElem?_readEnds
  split := by
    obtain ⟨rest, hsplit, hlength⟩ := exists_rest_readEnds xs sides
    refine ⟨rest, hsplit, hlength, ?_⟩
    have hread := (readAt_append_perm (length_readEnds xs sides)).append_right rest
    exact (hread.symm.trans (append_rest_perm _ _ rest)).trans (.of_eq hsplit.symm)

end

/-! ## Iterators -/

/-- Whatever sides an iterator is asked for, it succeeds and pops the ends of `xs`. -/
def IteratesOver {α : Type} (iterate : List Side → Except Fault (List (Option α))) (xs : List α) :
    Prop :=
  ∀ sides, ∃ read, iterate sides = .ok read ∧ ReadsEnds xs sides read

theorem CircularList.Holds.iteratesOver {σ ι : Type} [LinkStore σ ι (CircularLink ι)]
    [DecidableEq ι] {nodes : σ} {list : CircularList ι} {ids : List ι} (h : list.Holds nodes ids) :
    IteratesOver (list.iterate nodes) ids :=
  fun sides => ⟨_, h.iterate_eq sides, readsEnds_readEnds ids sides⟩

theorem Store.Holds.iteratesOver {V A : Type} [Arena A (Node V)] {hash : Key → UInt64}
    {s : Store V A} {r : Roster V} (h : s.Holds hash r) : IteratesOver s.iterate r.entries :=
  fun sides => ⟨_, h.iterate_eq sides, readsEnds_readEnds r.entries sides⟩

theorem Deque.Holds.iteratesOver {α A : Type} [Arena A (Deque.Node α)] {d : Deque α A}
    {row : List (NodeId × α)} (h : d.Holds row) : IteratesOver d.iterate (row.map Prod.snd) :=
  fun sides => ⟨_, h.iterate_eq sides, readsEnds_readEnds _ sides⟩

/-- A deque that comes out of a history holds a row. -/
theorem Deque.exists_holds_of_run {α A : Type} [Arena A (Deque.Node α)]
    [LawfulArena A (Deque.Node α)] (maxItems : Nat) (calls : List (Deque.Call α)) :
    ∃ h row, (empty maxItems : Deque α A).run calls = .ok h ∧ h.deque.Holds row := by
  have hempty : (empty maxItems : Deque α A).Shows [] := ⟨[], holds_empty maxItems, rfl⟩
  obtain ⟨h, hrun, -, ⟨row, hrow, -⟩, -⟩ := hempty.exists_run calls
  exact ⟨h, row, hrun, hrow⟩

/-- Lists are read from both ends by popping them, and so are the tables and the deques that any
history comes to. -/
theorem iterate_readsEnds {σ V A : Type} [Arena A (Node V)] [LawfulArena A (Node V)] [Inhabited V]
    {bits : UInt32} {policy : Policy σ V} {heap : Heap} {env : σ} {t : Table σ V A}
    (hbuild : (Table.build bits policy heap env A).result = .ok t) :
    (∀ {τ ι : Type} [LinkStore τ ι (CircularLink ι)] [DecidableEq ι] {nodes : τ}
      {list : CircularList ι} {ids : List ι}, list.Holds nodes ids →
        IteratesOver (list.iterate nodes) ids) ∧
    (∀ calls : List (Call V), policy.Stops (t.run calls) ∨ ∃ h ids es, t.run calls = .ok h ∧
      h.table.store.ids = .ok ids ∧ ids.Nodup ∧ h.table.store.entries = .ok es ∧
      IteratesOver (h.table.store.order.iterate h.table.store.nodes) ids ∧
      IteratesOver h.table.store.iterate es) ∧
    (∀ {α B : Type} [Arena B (Deque.Node α)] [LawfulArena B (Deque.Node α)] (maxItems : Nat)
      (calls : List (Deque.Call α)), ∃ h xs, (Deque.empty maxItems : Deque α B).run calls = .ok h ∧
        h.deque.toList = .ok xs ∧ IteratesOver h.deque.iterate xs) := by
  refine ⟨fun h => h.iteratesOver, fun calls => ?_, ?_⟩
  · rcases Table.stops_or_holds_of_build hbuild calls with hstop | ⟨h, r, hrun, -, -, hr, -⟩
    · exact .inl hstop
    · exact .inr ⟨h, r.ids, r.entries, hrun, hr.ids_eq, hr.nodup, hr.entries_eq,
        hr.order.iteratesOver, hr.iteratesOver⟩
  · intro α B _ _ maxItems calls
    obtain ⟨h, row, hrun, hrow⟩ := Deque.exists_holds_of_run (A := B) maxItems calls
    exact ⟨h, _, hrun, hrow.toList_eq, hrow.iteratesOver⟩

/-- Three nodes of a pool, a table with two entries and any deque. -/
theorem iterate_readsEnds_copying :
    let pool : Pool (CircularLink Nat) := #[⟨2, 1⟩, ⟨0, 2⟩, ⟨1, 0⟩]
    let list : CircularList Nat := ⟨some 0⟩
    let policy : Policy Unit Nat := .copying fun _ => 0
    let t := Table.empty policy 0 ()
    let calls : List (Call Nat) := [.insert 1 [97], .insert 2 [98], .insert 3 [97, 98], .erase [98]]
    (Table.build 0 policy .ofProcess ()).result = .ok t ∧ list.Holds pool [0, 1, 2] ∧
      IteratesOver (list.iterate pool) [0, 1, 2] ∧
      list.iterate pool [.back, .front, .back, .front] = .ok [some 2, some 0, some 1, none] ∧
      (∃ h ids es, t.run calls = .ok h ∧ h.table.store.ids = .ok ids ∧ ids.Nodup ∧
        h.table.store.entries = .ok es ∧
        IteratesOver (h.table.store.order.iterate h.table.store.nodes) ids ∧
        IteratesOver h.table.store.iterate es) ∧
      ∃ h xs, (Deque.empty 2 : Deque Nat).run [.push .front 1, .push .back 2, .push .back 3] =
        .ok h ∧ h.deque.toList = .ok xs ∧ IteratesOver h.deque.iterate xs := by
  intro pool list policy t calls
  have hbuild : (Table.build 0 policy .ofProcess ()).result = .ok t := rfl
  have hkey : policy.StoresKey := Policy.storesKey_of_copyKey rfl
  have hlist : list.Holds pool [0, 1, 2] := by
    refine ⟨rfl, fun first last hfirst hlast => ?_, by decide⟩
    cases hfirst
    cases hlast
    exact ⟨rfl, rfl, rfl, trivial⟩
  obtain ⟨hlists, htables, hdeques⟩ := iterate_readsEnds hbuild
  exact ⟨hbuild, hlist, hlists hlist, rfl,
    (htables calls).resolve_left fun hstop => hstop.2 hkey, hdeques 2 _⟩

end OrderedTable
