import Mathlib

/-!
# Computations with a log

A computation that may fail writes a log as it goes. The log of a failed computation is what it
wrote before it failed.
-/

namespace Sipnab

structure Logged (ω ε α : Type) where
  log : List ω
  outcome : Except ε α

namespace Logged

variable {ω ε α β : Type}

def done (log : List ω) (a : α) : Logged ω ε α := ⟨log, .ok a⟩

def fail (e : ε) : Logged ω ε α := ⟨[], .error e⟩

def andThen (p : Logged ω ε α) (f : α → Logged ω ε β) : Logged ω ε β :=
  match p.outcome with
  | .error e => ⟨p.log, .error e⟩
  | .ok a => ⟨p.log ++ (f a).log, (f a).outcome⟩

def after (log : List ω) (p : Logged ω ε α) : Logged ω ε α := ⟨log ++ p.log, p.outcome⟩

variable {p : Logged ω ε α} (log : List ω)

@[simp] theorem log_done (a : α) : (done log a : Logged ω ε α).log = log := rfl

@[simp] theorem outcome_done (a : α) : (done log a : Logged ω ε α).outcome = .ok a := rfl

@[simp] theorem log_fail (e : ε) : (fail e : Logged ω ε α).log = [] := rfl

@[simp] theorem outcome_fail (e : ε) : (fail e : Logged ω ε α).outcome = .error e := rfl

@[simp] theorem log_after (p : Logged ω ε α) : (after log p).log = log ++ p.log :=
  rfl

@[simp] theorem outcome_after (p : Logged ω ε α) : (after log p).outcome = p.outcome := rfl

theorem andThen_of_ok {a : α} (h : p.outcome = .ok a) (f : α → Logged ω ε β) :
    p.andThen f = after p.log (f a) := by
  rw [andThen, h]
  rfl

theorem andThen_of_error {e : ε} (h : p.outcome = .error e) (f : α → Logged ω ε β) :
    p.andThen f = ⟨p.log, .error e⟩ := by
  rw [andThen, h]

theorem exists_of_andThen {f : α → Logged ω ε β} {b : β} (h : (p.andThen f).outcome = .ok b) :
    ∃ a, p.outcome = .ok a ∧ (f a).outcome = .ok b ∧ (p.andThen f).log = p.log ++ (f a).log := by
  cases hp : p.outcome with
  | error e =>
    rw [andThen_of_error hp] at h
    cases h
  | ok a =>
    rw [andThen_of_ok hp] at h ⊢
    exact ⟨a, rfl, h, rfl⟩

end Logged

end Sipnab
