import OrderedTable.Proofs.Ledger.Balance

/-!
# Turns

The `History` of some calls keeps all that they have released in one list. A `Turn` keeps with each
call what has come of it, without the ids: so the turns of two tables can be compared. Turns and
history of the same calls agree (`Table.unfoldsTo_of_run`).
-/

namespace OrderedTable

variable {σ V A : Type}

/-- What has come of an insertion or a removal. -/
inductive Verdict (V : Type)
  | stored
  | rejected (r : Rejected V)
  | removal (result : Removal)

def Answer.verdict? : Answer V → Option (Verdict V)
  | .inserted (.ok _) => some .stored
  | .inserted (.error r) => some (.rejected r)
  | .removal result => some (.removal result)
  | _ => none

/-- A call with what has come of it. -/
structure Turn (V : Type) where
  call : Call V
  verdict? : Option (Verdict V)
  released : List (Entry V)

/-- Call by call, the turns say what the history of the calls says. -/
structure History.UnfoldsTo (h : History σ V A) (calls : List (Call V)) (ts : List (Turn V)) :
    Prop where
  calls : ts.map Turn.call = calls
  verdicts : ts.map Turn.verdict? = h.answers.map Answer.verdict?
  released : ts.flatMap Turn.released = h.released.map Departure.entry

namespace Table

variable [Arena A (Node V)] [Inhabited V]

/-- Makes the calls one after the other, and says what has come of each. -/
def turns (t : Table σ V A) : List (Call V) → Except Fault (List (Turn V))
  | [] => pure []
  | c :: calls => do
    let o ← t.call c
    let later ← o.table.turns calls
    pure
      ({ call := c, verdict? := o.answer.verdict?, released := o.released.map Departure.entry } ::
        later)

variable {t : Table σ V A} {c : Call V} {calls : List (Call V)}

theorem turns_cons {o : Outcome σ V (Answer V) A} {later : List (Turn V)}
    (hcall : t.call c = .ok o) (hturns : o.table.turns calls = .ok later) :
    t.turns (c :: calls) =
      .ok (⟨c, o.answer.verdict?, o.released.map Departure.entry⟩ :: later) := by
  rw [turns, hcall, ok_bind, hturns]
  rfl

theorem unfoldsTo_of_run {h : History σ V A} {ts : List (Turn V)} (hrun : t.run calls = .ok h)
    (hturns : t.turns calls = .ok ts) : h.UnfoldsTo calls ts := by
  induction calls generalizing t h ts with
  | nil =>
    cases hrun
    cases hturns
    exact ⟨rfl, rfl, rfl⟩
  | cons c calls ih =>
    obtain ⟨o, h', hcall, hrun', rfl⟩ := exists_of_run_cons hrun
    rw [turns, hcall, ok_bind] at hturns
    obtain ⟨later, hlater, hts⟩ := bind_eq_ok_iff.1 hturns
    obtain rfl := Except.ok.inj hts
    have hrest := ih hrun' hlater
    constructor
    · rw [List.map_cons, hrest.calls]
    · rw [List.map_cons, List.map_cons, hrest.verdicts]
    · rw [List.flatMap_cons, List.map_append, hrest.released]

end Table

end OrderedTable
