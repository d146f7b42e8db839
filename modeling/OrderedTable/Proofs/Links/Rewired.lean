import OrderedTable.Links.Basic

/-!
# Rewired stores

A store is `Rewired` from another one when links of live nodes have been replaced in it and nothing
else has happened. What replacing one link does not change is the same in both
(`Rewired.eq_of_setLink`), so the operations on chains and lists are told by the links that they
leave behind and by the fact that they rewire.

In front stand the equations by which an operation that does not fault is run.
-/

namespace OrderedTable

/-! ## Running an operation -/

section
variable {ε α β : Type}

@[simp] theorem ok_bind (a : α) (f : α → Except ε β) : (Except.ok a >>= f) = f a := rfl

@[simp] theorem pure_eq_ok (a : α) : (pure a : Except ε α) = .ok a := rfl

theorem bind_eq_ok_iff {x : Except ε α} {f : α → Except ε β} {b : β} :
    x >>= f = .ok b ↔ ∃ a, x = .ok a ∧ f a = .ok b := by
  constructor
  · intro h
    cases x with
    | error fault => cases h
    | ok a => exact ⟨a, rfl, h⟩
  · rintro ⟨a, rfl, h⟩
    exact h

theorem mapM_eq_ok {f : α → Except ε β} {g : α → β} {xs : List α}
    (h : ∀ x ∈ xs, f x = .ok (g x)) : xs.mapM f = .ok (xs.map g) := by
  induction xs with
  | nil => rfl
  | cons x xs ih =>
    rw [List.mapM_cons, h x List.mem_cons_self, ok_bind,
      ih fun y hy => h y (List.mem_cons_of_mem _ hy)]
    rfl

end

section
variable {σ ι ℓ : Type} [LinkStore σ ι ℓ] {s : σ} {i : ι} {l : ℓ}

theorem follow_eq_ok (h : LinkStore.link? s i = some l) : follow s i = .ok l := by
  simp [follow, h]

theorem relink_eq_ok (h : LinkStore.link? s i = some l) (f : ℓ → ℓ) :
    relink s i f = .ok (LinkStore.setLink s i (f l)) := by
  simp [relink, follow_eq_ok h]

end

/-! ## Rewiring -/

/-- From `s` on, links of live nodes have been replaced. -/
inductive Rewired {σ ι : Type} (ℓ : Type) [LinkStore σ ι ℓ] (s : σ) : σ → Prop
  | refl : Rewired ℓ s s
  | setLink {s' : σ} {i : ι} {old : ℓ} (l : ℓ) (h : Rewired ℓ s s')
    (live : LinkStore.link? s' i = some old) : Rewired ℓ s (LinkStore.setLink s' i l)

namespace Rewired

variable {σ ι ℓ : Type} [LinkStore σ ι ℓ] {s s' s'' : σ}

theorem trans (h : Rewired ℓ s s') (h' : Rewired ℓ s' s'') : Rewired ℓ s s'' := by
  induction h' with
  | refl => exact h
  | setLink l _ live ih => exact .setLink l ih live

theorem eq_of_setLink {β : Type} (view : σ → β)
    (hview : ∀ (s : σ) (i : ι) (l : ℓ), view (LinkStore.setLink s i l) = view s)
    (h : Rewired ℓ s s') : view s' = view s := by
  induction h with
  | refl => rfl
  | setLink l _ _ ih => rw [hview, ih]

theorem of_setLink {P : σ → Prop} (hP : ∀ (s : σ) (i : ι) (l : ℓ), P s → P (LinkStore.setLink s i l))
    (h : Rewired ℓ s s') (hs : P s) : P s' := by
  induction h with
  | refl => exact hs
  | setLink l _ _ ih => exact hP _ _ _ ih

/-- The same nodes are live. -/
theorem isSome_link? [NodeStore σ] [LawfulLinkStore σ ι ℓ] (h : Rewired ℓ s s') (id : ι) :
    (LinkStore.link? s' id : Option ℓ).isSome = (LinkStore.link? s id : Option ℓ).isSome := by
  induction h with
  | refl => rfl
  | @setLink s₁ i old l _ live ih =>
    rw [← ih]
    by_cases hi : i = id
    · subst hi
      rw [LawfulLinkStore.link?_setLink_self s₁ i l (by rw [live]; rfl), live]
      rfl
    · rw [LawfulLinkStore.link?_setLink_ne s₁ l hi]

theorem exists_link [NodeStore σ] [LawfulLinkStore σ ι ℓ] (h : Rewired ℓ s s') {id : ι}
    (live : (LinkStore.link? s id : Option ℓ).isSome) : ∃ l : ℓ, LinkStore.link? s' id = some l :=
  Option.isSome_iff_exists.1 ((h.isSome_link? id).trans live)

end Rewired

/-- A link is replaced and all others stay. -/
theorem exists_relink {σ ι ℓ : Type} [LinkStore σ ι ℓ] [NodeStore σ] [LawfulLinkStore σ ι ℓ] {s : σ}
    {i : ι} {l : ℓ} (h : LinkStore.link? s i = some l) (f : ℓ → ℓ) :
    ∃ s', relink s i f = .ok s' ∧ LinkStore.link? s' i = some (f l) ∧
      (∀ j, j ≠ i → (LinkStore.link? s' j : Option ℓ) = LinkStore.link? s j) ∧ Rewired ℓ s s' := by
  refine ⟨_, relink_eq_ok h f, ?_, fun j hj => ?_, .setLink _ .refl h⟩
  · exact LawfulLinkStore.link?_setLink_self s i _ (by simp [h])
  · exact LawfulLinkStore.link?_setLink_ne s _ (Ne.symm hj)

end OrderedTable
