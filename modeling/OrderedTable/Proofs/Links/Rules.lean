import OrderedTable.Proofs.Links.Rewired

/-!
# Steps by rules

`Rules` say on abstract states which steps may be taken, and where they lead. Steps on a program's
states that keep to a relation with the abstract states can be taken one after the other as long as
the rules allow it, and keep to the relation all the way (`Rules.exists_run`).
-/

namespace OrderedTable

/-- Which steps may be taken in an abstract state, and where they lead. -/
structure Rules (χ α : Type) where
  allows : χ → α → Prop
  next : χ → α → χ

namespace Rules

variable {σ χ α : Type} {rules : Rules χ α}

/-- Each of the steps may be taken where those before it have led. -/
inductive AllowsAll (rules : Rules χ α) : χ → List α → Prop
  | nil (x : χ) : AllowsAll rules x []
  | cons {x : χ} {a : α} {steps : List α} (h : rules.allows x a)
    (hrest : AllowsAll rules (rules.next x a) steps) : AllowsAll rules x (a :: steps)

/-- Where the steps lead. -/
def after (rules : Rules χ α) (x : χ) (steps : List α) : χ := steps.foldl rules.next x

theorem exists_run {step : σ → α → Except Fault σ} {R : σ → χ → Prop}
    (hstep : ∀ s x a, R s x → rules.allows x a →
      ∃ s', step s a = .ok s' ∧ R s' (rules.next x a))
    {s : σ} {x : χ} {steps : List α} (h : R s x) (hsteps : rules.AllowsAll x steps) :
    ∃ s', steps.foldlM step s = .ok s' ∧ R s' (rules.after x steps) := by
  induction hsteps generalizing s with
  | nil x => exact ⟨s, rfl, h⟩
  | cons hallows _ ih =>
    obtain ⟨s₁, hs₁, h₁⟩ := hstep _ _ _ h hallows
    obtain ⟨s', hs', h'⟩ := ih h₁
    refine ⟨s', ?_, h'⟩
    rw [List.foldlM_cons, hs₁, ok_bind, hs']

/-- From `s` on, the steps that the rules allow can be taken one after the other, and `P` ties the
state that they come to to the abstract one. -/
def Follows (rules : Rules χ α) (step : σ → α → Except Fault σ) (P : σ → χ → Prop) (s : σ) (x : χ) :
    Prop :=
  ∀ steps, rules.AllowsAll x steps →
    ∃ s', steps.foldlM step s = .ok s' ∧ P s' (rules.after x steps)

theorem follows_of_step {step : σ → α → Except Fault σ} {R P : σ → χ → Prop}
    (hstep : ∀ s x a, R s x → rules.allows x a →
      ∃ s', step s a = .ok s' ∧ R s' (rules.next x a))
    (hR : ∀ s x, R s x → P s x) {s : σ} {x : χ} (h : R s x) : rules.Follows step P s x := by
  intro steps hsteps
  obtain ⟨s', hrun, h'⟩ := exists_run hstep h hsteps
  exact ⟨s', hrun, hR _ _ h'⟩

/-- A step may be taken if the step that it stands for may, and leads where that one leads. -/
def comap {β : Type} (f : β → α) (rules : Rules χ α) : Rules χ β where
  allows x b := rules.allows x (f b)
  next x b := rules.next x (f b)

end Rules

end OrderedTable
