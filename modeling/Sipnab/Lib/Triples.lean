import Mathlib

/-!
# Stateful programs that may throw

Rules for what a program that keeps its state when it throws leaves behind.
-/

namespace Sipnab

universe u

variable {ε σ α β : Type u}

theorem ok_bind {m : EStateM ε σ α} {f : α → EStateM ε σ β} {s s' : σ} {b : β}
    (h : (m >>= f) s = .ok b s') : ∃ a s₁, m s = .ok a s₁ ∧ f a s₁ = .ok b s' := by
  change EStateM.bind m f s = .ok b s' at h
  unfold EStateM.bind at h
  cases hm : m s with
  | ok a s₁ =>
    rw [hm] at h
    exact ⟨a, s₁, rfl, h⟩
  | error e s₁ =>
    rw [hm] at h
    cases h

theorem ok_of_check (m : EStateM ε σ α) (s : σ) (check : α → σ → Bool)
    (h : (match m s with
      | .ok a s' => check a s'
      | .error _ _ => false) = true) : ∃ a s', m s = .ok a s' ∧ check a s' = true := by
  cases hm : m s with
  | ok a s' =>
    rw [hm] at h
    exact ⟨a, s', rfl, h⟩
  | error e s' =>
    rw [hm] at h
    cases h

/-- A program for each element of a list that returns: what holds behind some holds behind one
more. -/
theorem ok_forM {γ : Type u} {f : γ → EStateM ε σ PUnit} {list : List γ}
    (inv : List γ → σ → Prop) (hf : ∀ done x rest s s', list = done ++ x :: rest → inv done s →
      f x s = .ok ⟨⟩ s' → inv (done ++ [x]) s')
    {s s' : σ} (hs : inv [] s) (h : list.forM f s = .ok ⟨⟩ s') : inv list s' := by
  have hall : ∀ rest done s, list = done ++ rest → inv done s → rest.forM f s = .ok ⟨⟩ s' →
      inv list s' := by
    intro rest
    induction rest with
    | nil =>
      intro done s hlist hdone h
      cases h
      rwa [hlist, List.append_nil]
    | cons x rest ih =>
      intro done s hlist hdone h
      obtain ⟨a, s₁, hx, hrest⟩ := ok_bind (f := fun _ => rest.forM f) h
      refine ih (done ++ [x]) s₁ ?_ (hf done x rest s s₁ hlist hdone hx) hrest
      rw [hlist, List.append_assoc]
      rfl
  exact hall list [] s rfl hs h

end Sipnab
