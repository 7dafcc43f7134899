import Mathlib

/-!
# Items that delimit themselves

Items are written one after another, and the bytes of an item tell where it ends: no data begins
with two of them. What can be taken off the front of a stream, and what is left when no item begins
it, is then determined by the stream, and the same for every way in which it arrives.
-/

namespace Sipnab

open List

variable {α ρ : Type*} (bytes : ρ → List α)

structure PrefixCode : Prop where
  ne_nil : ∀ item, bytes item ≠ []
  inj : ∀ {data : List α} {a b : ρ}, bytes a <+: data → bytes b <+: data → a = b

/-- A stream is its items and a tail that no item begins. -/
structure Splits (data : List α) (items : List ρ) (tail : List α) : Prop where
  eq : data = (items.map bytes).flatten ++ tail
  stuck : ∀ item, ¬ bytes item <+: tail

variable {bytes} {data more tail tail' : List α} {items items' : List ρ} {a : ρ}

theorem Splits.cons (h : Splits bytes data items tail) (a : ρ) :
    Splits bytes (bytes a ++ data) (a :: items) tail where
  eq := by rw [h.eq, map_cons, flatten_cons, append_assoc]
  stuck := h.stuck

theorem Splits.append (h : Splits bytes data items tail)
    (h' : Splits bytes (tail ++ more) items' tail') :
    Splits bytes (data ++ more) (items ++ items') tail' where
  eq := by
    rw [h.eq, append_assoc, h'.eq, map_append, flatten_append, append_assoc]
  stuck := h'.stuck

theorem Splits.unique (hcode : PrefixCode bytes) (h : Splits bytes data items tail)
    (h' : Splits bytes data items' tail') : items = items' ∧ tail = tail' := by
  induction items generalizing data items' with
  | nil =>
    cases items' with
    | nil => exact ⟨rfl, h.eq.symm.trans h'.eq⟩
    | cons b items' =>
      refine absurd ?_ (h.stuck b)
      have htail : tail = data := h.eq.symm
      rw [htail, h'.eq, map_cons, flatten_cons, append_assoc]
      exact prefix_append _ _
  | cons a items ih =>
    have ha : bytes a <+: data := by
      rw [h.eq, map_cons, flatten_cons, append_assoc]
      exact prefix_append _ _
    cases items' with
    | nil =>
      refine absurd ha ?_
      have htail : data = tail' := h'.eq
      rw [htail]
      exact h'.stuck a
    | cons b items' =>
      have hb : bytes b <+: data := by
        rw [h'.eq, map_cons, flatten_cons, append_assoc]
        exact prefix_append _ _
      obtain rfl := hcode.inj ha hb
      have hrest : (items.map bytes).flatten ++ tail = (items'.map bytes).flatten ++ tail' := by
        have heq := h.eq.symm.trans h'.eq
        simp only [map_cons, flatten_cons, append_assoc] at heq
        exact append_cancel_left heq
      obtain ⟨hitems, htails⟩ := ih ⟨rfl, h.stuck⟩ ⟨hrest, h'.stuck⟩
      exact ⟨congrArg (a :: ·) hitems, htails⟩

theorem PrefixCode.splits_flatten (hcode : PrefixCode bytes) (items : List ρ) :
    Splits bytes (items.map bytes).flatten items [] where
  eq := (append_nil _).symm
  stuck item h := hcode.ne_nil item (prefix_nil.mp h)

end Sipnab
