import OrderedTable.Allocation.Script
import OrderedTable.Proofs.Table.Turns

/-!
# What is asked of the gate

Two kinds of gate tell what a table asks for. A gate that is `Gate.recorded` keeps a log of what it
was asked and what it answered; `AsksFor` lists the logs that an insertion may leave, each with what
has come of the insertion. And a gate that grants the first `n` requests only (`Gate.GrantsFirst`)
decides what comes of each insertion by what is left: `Verdict.within`.
-/

namespace OrderedTable

variable {σ V : Type}

/-! ## Gates -/

namespace Gate

/-- What was asked and what was answered, from first to last. -/
abbrev Log := List (Request × Except AllocError Unit)

/-- The gate with a log of its answers. -/
def recorded (gate : Gate σ) : Gate (σ × Log) := fun request (s, log) =>
  let (answer, s) := gate request s
  (answer, s, log ++ [(request, answer)])

theorem recorded_eq {gate : Gate σ} {request : Request} {s s' : σ} {log : Log}
    {answer : Except AllocError Unit} (h : gate request s = (answer, s')) :
    gate.recorded request (s, log) = (answer, s', log ++ [(request, answer)]) := by
  simp only [recorded, h]

/-- The state after some requests. -/
def after (gate : Gate σ) (s : σ) (requests : List Request) : σ :=
  requests.foldl (fun s request => (gate request s).2) s

/-- From the state on, the first `n` requests are granted, whatever they are, and all later ones are
refused. -/
def GrantsFirst (gate : Gate σ) (n : Nat) (s : σ) : Prop :=
  ∀ before request, (gate request (gate.after s before)).1 =
    if before.length < n then .ok () else .error (.refused request.site)

variable {gate : Gate σ} {n : Nat} {s : σ}

theorem GrantsFirst.ask (h : gate.GrantsFirst n s) (request : Request) :
    ∃ s', gate request s =
        (if 0 < n then .ok () else .error (.refused request.site), s') ∧
      gate.GrantsFirst (n - 1) s' := by
  refine ⟨(gate request s).2, Prod.ext (h [] request) rfl, fun before request' => ?_⟩
  simp only [Nat.lt_sub_iff_add_lt]
  exact h (request :: before) request'

theorem GrantsFirst.granted (h : gate.GrantsFirst (n + 1) s) (request : Request) :
    ∃ s', gate request s = (.ok (), s') ∧ gate.GrantsFirst n s' := h.ask request

theorem GrantsFirst.refused (h : gate.GrantsFirst 0 s) (request : Request) :
    ∃ s', gate request s = (.error (.refused request.site), s') ∧ gate.GrantsFirst 0 s' :=
  h.ask request

end Gate

namespace Rehearsal

theorem gate_ofBudget {n : Nat} {r : Rehearsal} (h : r.script = .ofBudget n) (request : Request) :
    ∃ r', gate request r = (if 0 < n then .ok () else .error (.refused request.site), r') ∧
      r'.script = .ofBudget (n - 1) := by
  obtain ⟨script, asked, made⟩ := r
  obtain rfl : script = .ofBudget n := h
  refine ⟨_, Prod.ext ?_ rfl, ?_⟩ <;> cases n <;> cases request <;> rfl

/-- A script with a budget grants as many requests. -/
theorem grantsFirst {n : Nat} {r : Rehearsal} (h : r.script = .ofBudget n) :
    gate.GrantsFirst n r := by
  intro before
  induction before generalizing n r with
  | nil =>
    intro request
    obtain ⟨r', hgate, -⟩ := gate_ofBudget h request
    exact congrArg Prod.fst hgate
  | cons request before ih =>
    intro request'
    obtain ⟨r', hgate, hr'⟩ := gate_ofBudget h request
    have hlater := ih hr' request'
    simp only [Nat.lt_sub_iff_add_lt] at hlater
    rw [Gate.after, List.foldl_cons, hgate]
    exact hlater

end Rehearsal

/-! ## Making an entry -/

/-- Every key is copied, and the gate is asked for the memory. -/
def Policy.guarded (hash : Key → UInt64) (gate : Gate σ) : Policy σ V :=
  { hash, gate, populate := Populate.copyKey }

namespace Verdict

def ofAttempt : Except (Rejected V) (Entry V) → Verdict V
  | .ok _ => .stored
  | .error r => .rejected r

/-- What comes of an insertion when `n` more requests are granted. -/
def within (n : Nat) (data : V) : Verdict V :=
  match n with
  | 0 => .rejected ⟨.alloc (.refused .entry), data⟩
  | 1 => .rejected ⟨.alloc (.refused .key), data⟩
  | _ + 2 => .stored

end Verdict

/-- What an insertion asks for and what it is answered, and what comes of it then. A key that is too
long is turned away before anything is asked; the buffer is asked for when the entry has been
granted. -/
inductive AsksFor (data : V) (key : Key) : Gate.Log → Verdict V → Prop
  | nothing (hlong : maxKeyLength < key.length) :
    AsksFor data key [] (.rejected ⟨.keyTooLong key.length, data⟩)
  | entry (hlength : key.length ≤ maxKeyLength) (cause : AllocError) :
    AsksFor data key [(.entry, .error cause)] (.rejected ⟨.alloc cause, data⟩)
  | buffer (hlength : key.length ≤ maxKeyLength) (cause : AllocError) :
    AsksFor data key [(.entry, .ok ()), (.key key.length, .error cause)]
      (.rejected ⟨.alloc cause, data⟩)
  | both (hlength : key.length ≤ maxKeyLength) :
    AsksFor data key [(.entry, .ok ()), (.key key.length, .ok ())] .stored

namespace Policy

variable {gate : Gate σ} {hash : Key → UInt64} {data : V} {key : Key}

theorem exists_asksFor (gate : Gate σ) (hash : Key → UInt64) (data : V) (key : Key) (s : σ)
    (log : Gate.Log) : ∃ answer s' asked,
      (guarded hash gate.recorded).attempt data key (s, log) = (answer, s', log ++ asked) ∧
      AsksFor data key asked (.ofAttempt answer) := by
  rcases Nat.lt_or_ge maxKeyLength key.length with hlong | hlength
  · refine ⟨.error _, s, [], ?_, .nothing hlong⟩
    rw [attempt_of_tooLong hlong, List.append_nil]
  rw [attempt_of_le hlength, guarded]
  dsimp only
  rcases hentry : gate .entry s with ⟨cause | ⟨⟩, s₁⟩
  · rw [Gate.recorded_eq hentry]
    exact ⟨_, s₁, _, rfl, .entry hlength cause⟩
  rw [Gate.recorded_eq hentry]
  dsimp only
  rw [Populate.copyKey]
  rcases hbuffer : gate (.key key.length) s₁ with ⟨cause | ⟨⟩, s₂⟩
  · rw [Gate.recorded_eq hbuffer, List.append_assoc]
    exact ⟨_, s₂, _, rfl, .buffer hlength cause⟩
  · obtain ⟨e, howned⟩ := Entry.exists_owned_of_le hlength data
    rw [Gate.recorded_eq hbuffer, List.append_assoc, howned]
    exact ⟨.ok e, s₂, _, rfl, .both hlength⟩

theorem exists_within {n : Nat} {s : σ} (h : gate.GrantsFirst n s) (hash : Key → UInt64)
    (hlength : key.length ≤ maxKeyLength) (data : V) : ∃ answer s',
      (guarded hash gate).attempt data key s = (answer, s') ∧
      .ofAttempt answer = Verdict.within n data ∧ gate.GrantsFirst (n - 2) s' := by
  rw [attempt_of_le hlength, guarded]
  dsimp only
  match n with
  | 0 =>
    obtain ⟨s₁, hentry, h⟩ := h.refused .entry
    rw [hentry]
    exact ⟨_, s₁, rfl, rfl, h⟩
  | 1 =>
    obtain ⟨s₁, hentry, h⟩ := h.granted .entry
    obtain ⟨s₂, hbuffer, h⟩ := h.refused (.key key.length)
    rw [hentry]
    dsimp only
    rw [Populate.copyKey, hbuffer]
    exact ⟨_, s₂, rfl, rfl, h⟩
  | n + 2 =>
    obtain ⟨s₁, hentry, h⟩ := h.granted .entry
    obtain ⟨s₂, hbuffer, h⟩ := h.granted (.key key.length)
    obtain ⟨e, howned⟩ := Entry.exists_owned_of_le hlength data
    rw [hentry]
    dsimp only
    rw [Populate.copyKey, hbuffer, howned]
    exact ⟨.ok e, s₂, rfl, rfl, h⟩

end Policy

/-! ## Calls -/

namespace Ledger

theorem insert_attempt (l : Ledger σ V) (fresh : NodeId) (data : V) (key : Key) :
    Answer.verdict? (.inserted (l.insert fresh data key).answer) =
        some (.ofAttempt (l.policy.attempt data key l.env).1) ∧
      (l.insert fresh data key).ledger.env = (l.policy.attempt data key l.env).2 := by
  rw [Ledger.insert_eq]
  rcases l.policy.attempt data key l.env with ⟨rejected | e, env⟩
  · exact ⟨rfl, rfl⟩
  · exact ⟨rfl, rfl⟩

variable [Inhabited V] {l : Ledger σ V} {fresh : NodeId} {c : Call V} {data : V} {key : Key}

/-- What comes of a call that is to make an entry is what comes of making the entry. -/
theorem call_attempt (hc : c.stores? = some (data, key)) :
    (l.call fresh c).answer.verdict? = some (.ofAttempt (l.policy.attempt data key l.env).1) ∧
      (l.call fresh c).ledger.env = (l.policy.attempt data key l.env).2 := by
  cases c with
  | insert =>
    cases hc
    exact l.insert_attempt fresh data key
  | insertDefault =>
    cases hc
    exact l.insert_attempt fresh default key
  | replace =>
    cases hc
    rw [call]
    rcases Nat.lt_or_ge maxKeyLength key.length with hlong | hlength
    · rw [replace, if_pos hlong, Policy.attempt_of_tooLong hlong]
      exact ⟨rfl, rfl⟩
    · have hinsert := insert_attempt (l.eraseMember (l.find? key)).ledger fresh data key
      rw [eraseMember_policy, eraseMember_env] at hinsert
      rw [replace_of_le hlength]
      exact hinsert
  | _ => cases hc

/-- All other calls leave gate and strategy alone. -/
theorem call_env (hc : c.stores? = none) : (l.call fresh c).ledger.env = l.env := by
  cases c with
  | insert | insertDefault | replace => exact nomatch hc
  | erase | eraseId | eraseFirst | eraseLast => exact l.eraseMember_env _
  | _ => rfl

end Ledger

end OrderedTable
