import OrderedTable.Proofs.Buckets.Sizing
import OrderedTable.Proofs.Table.Release

/-!
# How far a budget of requests goes

Building a table asks the gate three times, and an insertion that copies its key asks twice: for the
entry, and for a buffer of the length of the key. Nothing else asks (`Table.AsksToInsert`). So under
a gate that grants the first `n` requests only, `n` alone says whether a table is built and which
insertions succeed, whatever is done between them (`Opening.LastsFor`). See
`Table.run_asks_and_lasts`.
-/

namespace OrderedTable

variable {σ σ' V A : Type} [Arena A (Node V)]

/-! ## Building -/

theorem Heap.le_of_reserve {heap : Heap} {bytes : Nat} (h : heap.reserve bytes = .ok ()) :
    bytes ≤ maxObjectSize := by
  unfold reserve at h
  split at h
  · cases h
  · exact Nat.le_of_not_lt ‹_›

/-- Where the heap has room for the heads, only the gate stands in the way of the buckets. -/
theorem Buckets.create_of_reserve {ι : Type} {headSize : Nat} {bits : UInt32} {gate : Gate σ}
    {heap : Heap} {s : σ} (hpos : 0 < headSize)
    (hheap : heap.reserve (2 ^ bits.toNat * headSize) = .ok ()) :
    create (ι := ι) headSize bits gate heap s =
      match gate .table s with
      | (.error cause, s) => (.error cause, s)
      | (.ok (), s) =>
        match gate (.buckets (2 ^ bits.toNat * headSize)) s with
        | (.error cause, s) => (.error cause, s)
        | (.ok (), s) => (.ok ⟨Heads.empty (2 ^ bits.toNat), bits⟩, s) := by
  have hsize : 2 ^ bits.toNat * headSize < UInt64.size :=
    (Heap.le_of_reserve hheap).trans_lt (by decide)
  rcases htable : gate .table s with ⟨cause | ⟨⟩, s₁⟩
  · exact create_of_refused htable
  rcases hheads : gate (.buckets (2 ^ bits.toNat * headSize)) s₁ with ⟨answer, s₂⟩
  rw [create_of_fits hpos htable hsize hheads, hheap]
  dsimp only
  rw [hheads]
  cases answer with
  | error cause => rfl
  | ok => rfl

namespace Table

section

variable {bits : UInt32} {hash : Key → UInt64} {gate : Gate σ} {heap : Heap} {env : σ} {n : Nat}

/-- The building asks for the container, the table and the buckets in turn. -/
theorem build_of_reserve (hheap : heap.reserve (2 ^ bits.toNat * NodeId.placeSize) = .ok ()) :
    build (V := V) bits (.guarded hash gate) heap env A =
      match gate .container env with
      | (.error cause, s) => { result := .error cause, env := s }
      | (.ok (), s) =>
        match gate .table s with
        | (.error cause, s) => { result := .error cause, env := s }
        | (.ok (), s) =>
          match gate (.buckets (2 ^ bits.toNat * NodeId.placeSize)) s with
          | (.error cause, s) => { result := .error cause, env := s }
          | (.ok (), s) =>
            { result := .ok (empty (.guarded hash gate) bits s A)
              env := s
              notices :=
                [.created (Heads.empty (ι := NodeId) (2 ^ bits.toNat)).count bits.toNat] } := by
  simp only [build, Policy.guarded]
  rcases gate .container env with ⟨cause | ⟨⟩, s₁⟩
  · rfl
  dsimp only
  rw [Buckets.create_of_reserve (by decide) hheap]
  rcases gate .table s₁ with ⟨cause | ⟨⟩, s₂⟩
  · rfl
  dsimp only
  rcases gate (.buckets (2 ^ bits.toNat * NodeId.placeSize)) s₂ with ⟨cause | ⟨⟩, s₃⟩
  · rfl
  · rfl

theorem build_refused (hn : gate.GrantsFirst n env)
    (hheap : heap.reserve (2 ^ bits.toNat * NodeId.placeSize) = .ok ()) (hlt : n < 3) :
    (build (V := V) bits (.guarded hash gate) heap env A).result =
      .error (.refused [Site.container, .table, .buckets][n]) := by
  rw [build_of_reserve hheap]
  match n with
  | 0 =>
    obtain ⟨s₁, hcontainer, -⟩ := hn.refused .container
    rw [hcontainer]
    rfl
  | 1 =>
    obtain ⟨s₁, hcontainer, hn⟩ := hn.granted .container
    obtain ⟨s₂, htable, -⟩ := hn.refused .table
    simp only [hcontainer, htable]
    rfl
  | 2 =>
    obtain ⟨s₁, hcontainer, hn⟩ := hn.granted .container
    obtain ⟨s₂, htable, hn⟩ := hn.granted .table
    obtain ⟨s₃, hbuckets, -⟩ := hn.refused (.buckets (2 ^ bits.toNat * NodeId.placeSize))
    simp only [hcontainer, htable, hbuckets]
    rfl

theorem build_granted (hn : gate.GrantsFirst (n + 3) env)
    (hheap : heap.reserve (2 ^ bits.toNat * NodeId.placeSize) = .ok ()) :
    ∃ s, (build (V := V) bits (.guarded hash gate) heap env A).result =
      .ok (empty (.guarded hash gate) bits s A) ∧ gate.GrantsFirst n s := by
  obtain ⟨s₁, hcontainer, hn⟩ := hn.granted .container
  obtain ⟨s₂, htable, hn⟩ := hn.granted .table
  obtain ⟨s₃, hbuckets, hn⟩ := hn.granted (.buckets (2 ^ bits.toNat * NodeId.placeSize))
  refine ⟨s₃, ?_, hn⟩
  rw [build_of_reserve hheap]
  simp only [hcontainer, htable, hbuckets]

end

end Table

/-! ## What the operations ask for -/

variable [Inhabited V]

/-- The call is to make an entry, under a key that is not too long. -/
def Call.isAttempt (c : Call V) : Bool :=
  c.stores?.any fun stored => stored.2.length ≤ maxKeyLength

/-- What has come of insertion number `i`, from zero on, where a table was built when the gate
granted `n` more requests. That all insertions before it succeed is to say that `3 + 2 * i ≤ n`. -/
def Verdict.ofBudget (n i : Nat) (data : V) : Verdict V :=
  if 3 + 2 * (i + 1) ≤ n then .stored
  else .rejected ⟨.alloc (.refused (if 3 + 2 * i ≤ n ∧ Odd (n - 3) then .key else .entry)), data⟩

omit [Inhabited V] in
theorem Verdict.ofBudget_eq {n : Nat} (hn : 3 ≤ n) (i : Nat) (data : V) :
    ofBudget n i data = within (n - 3 - 2 * i) data := by
  unfold ofBudget
  split
  next hstored =>
    obtain ⟨left, hleft⟩ : ∃ left, n - 3 - 2 * i = left + 2 := ⟨n - 3 - 2 * i - 2, by omega⟩
    rw [hleft, within]
  next hrejected =>
    split
    next hkey =>
      obtain ⟨hle, hodd⟩ := hkey
      have hone : n - 3 - 2 * i = 1 := by
        rw [Nat.odd_iff] at hodd
        omega
      rw [hone, within]
    next hentry =>
      have hzero : n - 3 - 2 * i = 0 := by
        rw [Nat.odd_iff] at hentry
        omega
      rw [hzero, within]

namespace Table

/-- Insertions ask the gate, as `AsksFor` says, and no other operation does. -/
structure AsksToInsert (t : Table (σ × Gate.Log) V A) : Prop where
  insertion : ∀ (c : Call V) (data : V) (key : Key), c.stores? = some (data, key) →
    ∃ o asked verdict, t.call c = .ok o ∧ o.table.env.2 = t.env.2 ++ asked ∧
      o.answer.verdict? = some verdict ∧ AsksFor data key asked verdict
  other : ∀ c : Call V, c.stores? = none → ∃ o, t.call c = .ok o ∧ o.table.env = t.env
  destroy : ∃ o, t.clear = .ok o ∧ o.table.env = t.env ∧
    t.destroy = .ok ⟨o.released, .destroyed t.size t.bucketCount⟩

namespace Holds

variable [LawfulArena A (Node V)] {t : Table σ V A} {r : Roster V} {hash : Key → UInt64}
  {gate : Gate σ}

theorem exists_call_env (h : t.Holds r) (hpolicy : t.policy = .guarded hash gate) (c : Call V) :
    ∃ o r', t.call c = .ok o ∧ o.table.Holds r' ∧ o.table.policy = .guarded hash gate ∧
      (c.stores? = none → o.table.env = t.env) ∧
      ∀ data key, c.stores? = some (data, key) →
        let made := (Policy.guarded hash gate).attempt data key t.env
        o.answer.verdict? = some (.ofAttempt made.1) ∧ o.table.env = made.2 := by
  have hkey : t.policy.StoresKey := hpolicy ▸ Policy.storesKey_of_copyKey rfl
  obtain ⟨fresh, o, hcall, href, -⟩ := h.exists_call c (not_strays hkey c)
  refine ⟨o, _, hcall, href.holds, href.policy.trans hpolicy, fun hc => ?_, fun data key hc => ?_⟩
  · rw [← href.env_eq, Ledger.call_env hc]
    rfl
  · rw [← href.env_eq, href.answer, ← hpolicy]
    exact Ledger.call_attempt hc

theorem asksToInsert {t : Table (σ × Gate.Log) V A} (h : t.Holds r)
    (hpolicy : t.policy = .guarded hash gate.recorded) : t.AsksToInsert where
  insertion c data key hc := by
    obtain ⟨o, -, hcall, -, -, -, hmade⟩ := h.exists_call_env hpolicy c
    obtain ⟨hverdict, henv⟩ := hmade data key hc
    obtain ⟨answer, s, asked, hattempt, hasks⟩ :=
      Policy.exists_asksFor gate hash data key t.env.1 t.env.2
    rw [hattempt] at hverdict henv
    exact ⟨o, asked, _, hcall, congrArg Prod.snd henv, hverdict, hasks⟩
  other c hc := by
    obtain ⟨o, -, hcall, -, -, henv, -⟩ := h.exists_call_env hpolicy c
    exact ⟨o, hcall, henv hc⟩
  destroy := by
    obtain ⟨o, hclear, href⟩ := h.exists_clear
    exact ⟨o, hclear, href.env_eq.symm, destroy_of_clear hclear⟩

/-! ## Spending the budget -/

/-- A call that is an attempt takes two of the requests that are left, if so many are left, and no
other call takes any. -/
theorem exists_call_within (h : t.Holds r) (hpolicy : t.policy = .guarded hash gate) {n : Nat}
    (hn : gate.GrantsFirst n t.env) (c : Call V) : ∃ o r', t.call c = .ok o ∧ o.table.Holds r' ∧
      o.table.policy = .guarded hash gate ∧
      gate.GrantsFirst (if c.isAttempt then n - 2 else n) o.table.env ∧
      (c.isAttempt = true → ∃ data key, c.stores? = some (data, key) ∧
        o.answer.verdict? = some (.within n data)) := by
  obtain ⟨o, r', hcall, hr', hpolicy', henv, hmade⟩ := h.exists_call_env hpolicy c
  refine ⟨o, r', hcall, hr', hpolicy', ?_⟩
  unfold Call.isAttempt
  cases hc : c.stores? with
  | none =>
    rw [henv hc]
    exact ⟨hn, fun hattempt => nomatch hattempt⟩
  | some stored =>
    obtain ⟨data, key⟩ := stored
    obtain ⟨hverdict, henv⟩ := hmade data key hc
    rw [henv, Option.any_some]
    rcases Nat.lt_or_ge maxKeyLength key.length with hlong | hlength
    · rw [Policy.attempt_of_tooLong hlong, decide_eq_false (Nat.not_le_of_lt hlong)]
      exact ⟨hn, fun hattempt => nomatch hattempt⟩
    · obtain ⟨answer, s, hattempt, hanswer, hn⟩ := Policy.exists_within hn hash hlength data
      rw [hattempt, hanswer] at hverdict
      rw [hattempt, decide_eq_true hlength]
      exact ⟨hn, fun _ => ⟨data, key, rfl, hverdict⟩⟩

/-- So what is left decides what comes of each attempt. -/
theorem exists_turns_within (h : t.Holds r) (hpolicy : t.policy = .guarded hash gate) {n : Nat}
    (hn : gate.GrantsFirst n t.env) (calls : List (Call V)) : ∃ h' ts, t.run calls = .ok h' ∧
      t.turns calls = .ok ts ∧ ∀ (i : Nat) (turn : Turn V),
        (ts.filter fun turn => turn.call.isAttempt)[i]? = some turn →
        ∃ data key, turn.call.stores? = some (data, key) ∧
          turn.verdict? = some (.within (n - 2 * i) data) := by
  -- On the calls: what carries the induction is how many requests are left.
  induction calls generalizing t r n with
  | nil => exact ⟨_, [], rfl, rfl, fun i turn hturn => nomatch hturn⟩
  | cons c calls ih =>
    obtain ⟨o, r', hcall, hr', hpolicy', hn', hverdict⟩ := h.exists_call_within hpolicy hn c
    obtain ⟨h', ts, hrun, hturns, hlater⟩ := ih hr' hpolicy' hn'
    refine ⟨_, _, run_cons hcall hrun, turns_cons hcall hturns, ?_⟩
    intro i turn hturn
    by_cases hc : c.isAttempt = true
    · rw [List.filter_cons_of_pos (by exact hc)] at hturn
      rw [if_pos hc] at hlater
      cases i with
      | zero =>
        obtain rfl := Option.some.inj hturn
        exact hverdict hc
      | succ i =>
        obtain ⟨data, key, hstores, hlater⟩ := hlater i turn hturn
        have hleft : n - 2 - 2 * i = n - 2 * (i + 1) := by omega
        exact ⟨data, key, hstores, hleft ▸ hlater⟩
    · rw [List.filter_cons_of_neg (by exact hc)] at hturn
      rw [if_neg hc] at hlater
      exact hlater i turn hturn

end Holds

end Table

/-- Where the gate grants `n` requests, that is enough for building a table and for as many
insertions as the rest pays, at two requests each; the next insertion gets its entry and no buffer
if one request is left over, and from then on every insertion is refused the entry. -/
structure Opening.LastsFor (opening : Opening σ V A) (n : Nat) : Prop where
  built : (∃ t, opening.result = .ok t) ↔ 3 ≤ n
  refused : ∀ hlt : n < 3,
    opening.result = .error (.refused [Site.container, .table, .buckets][n])
  turns : ∀ t calls, opening.result = .ok t → ∃ h ts, t.run calls = .ok h ∧
    t.turns calls = .ok ts ∧ h.UnfoldsTo calls ts ∧ ∀ (i : Nat) (turn : Turn V),
      (ts.filter fun turn => turn.call.isAttempt)[i]? = some turn →
      ∃ data key, turn.call.stores? = some (data, key) ∧
        turn.verdict? = some (.ofBudget n i data)

namespace Table

variable [LawfulArena A (Node V)] {hash : Key → UInt64} {bits : UInt32} {heap : Heap}

theorem lastsFor {gate : Gate σ} {env : σ} {n : Nat} (hn : gate.GrantsFirst n env)
    (hheap : heap.reserve (2 ^ bits.toNat * NodeId.placeSize) = .ok ()) :
    (build (V := V) bits (.guarded hash gate) heap env A).LastsFor n := by
  rcases Nat.lt_or_ge n 3 with hlt | hle
  · have hrefused : (build (V := V) bits (.guarded hash gate) heap env A).result = .error _ :=
      build_refused hn hheap hlt
    refine ⟨⟨fun ⟨t, hbuild⟩ => ?_, fun hle => absurd hlt (Nat.not_lt_of_le hle)⟩,
      fun _ => hrefused, fun t calls hbuild => ?_⟩
    · cases hrefused.symm.trans hbuild
    · cases hrefused.symm.trans hbuild
  · obtain ⟨left, rfl⟩ := Nat.exists_eq_add_of_le' hle
    obtain ⟨s, hgranted, hleft⟩ : ∃ s,
        (build (V := V) bits (.guarded hash gate) heap env A).result =
          .ok (empty (.guarded hash gate) bits s A) ∧ gate.GrantsFirst left s :=
      build_granted hn hheap
    refine ⟨⟨fun _ => hle, fun _ => ⟨_, hgranted⟩⟩, fun hlt => absurd hle (Nat.not_le_of_lt hlt),
      fun t calls hbuild => ?_⟩
    obtain rfl := Except.ok.inj (hgranted.symm.trans hbuild)
    obtain ⟨h, ts, hrun, hturns, hwithin⟩ :=
      (holds_empty (.guarded hash gate) bits s (A := A)).exists_turns_within rfl hleft calls
    refine ⟨h, ts, hrun, hturns, unfoldsTo_of_run hrun hturns, fun i turn hturn => ?_⟩
    obtain ⟨data, key, hstores, hverdict⟩ := hwithin i turn hturn
    rw [← Nat.add_sub_cancel (n := left) (m := 3), ← Verdict.ofBudget_eq hle] at hverdict
    exact ⟨data, key, hstores, hverdict⟩

/-- Whatever the gate answers, and whatever has been done to a table before: only insertions ask, in
the order that `AsksFor` says. So when a gate grants the first `n` requests and no more, and the
heap has room for the heads of the buckets, `n` decides whether a table can be built and which
insertions succeed. -/
theorem run_asks_and_lasts (hash : Key → UInt64) (bits : UInt32) (heap : Heap) :
    (∀ (gate : Gate σ) (env : σ × Gate.Log) (t : Table (σ × Gate.Log) V A),
      (build bits (.guarded hash gate.recorded) heap env A).result = .ok t →
      ∀ calls : List (Call V), ∃ h, t.run calls = .ok h ∧ h.table.AsksToInsert) ∧
    ∀ (gate : Gate σ) (env : σ) (n : Nat), gate.GrantsFirst n env →
      heap.reserve (2 ^ bits.toNat * NodeId.placeSize) = .ok () →
      (build (V := V) bits (.guarded hash gate) heap env A).LastsFor n := by
  refine ⟨fun gate env t hbuild calls => ?_, fun gate env n hn hheap => lastsFor hn hheap⟩
  obtain ⟨h, script, hrun, -, -, href⟩ :=
    exists_run_of_build hbuild (Policy.storesKey_of_copyKey rfl) calls
  exact ⟨h, hrun, href.holds.asksToInsert href.policy⟩

/-- Six requests are enough for one insertion. The second is refused its buffer, and the third its
entry. -/
theorem run_asks_and_lasts_ofBudget :
    let hash : Key → UInt64 := fun _ => 0
    let env : Rehearsal := { script := .ofBudget 6 }
    let calls : List (Call Nat) :=
      [.insert 1 [97], .find [97], .replace 2 [97], .erase [97], .insertDefault [98]]
    (∃ t h, (build 1 (.guarded hash Rehearsal.gate.recorded) .ofProcess (env, [])).result = .ok t ∧
      t.run calls = .ok h ∧ h.table.AsksToInsert) ∧
    Rehearsal.gate.GrantsFirst 6 env ∧
    Heap.ofProcess.reserve (2 ^ (1 : UInt32).toNat * NodeId.placeSize) = .ok () ∧
    (build (V := Nat) 1 (.guarded hash Rehearsal.gate) .ofProcess env).LastsFor 6 := by
  intro hash env calls
  obtain ⟨hasks, hlasts⟩ :=
    run_asks_and_lasts (V := Nat) (σ := Rehearsal) (A := SlotArena (Node Nat)) hash 1 .ofProcess
  have hn : Rehearsal.gate.GrantsFirst 6 env := Rehearsal.grantsFirst rfl
  have hheap : Heap.ofProcess.reserve (2 ^ (1 : UInt32).toNat * NodeId.placeSize) = .ok () := by
    decide
  refine ⟨?_, hn, hheap, hlasts _ env 6 hn hheap⟩
  obtain ⟨h, hrun, hinsert⟩ := hasks Rehearsal.gate (env, []) _ rfl calls
  exact ⟨_, h, rfl, hrun, hinsert⟩

end Table

end OrderedTable
