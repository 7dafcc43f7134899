import Mathlib

/-!
# Breadth-first walks with leaves

From a node a walk finds the nodes it links to, each link marked as one to follow or not. A node is
taken up once, by the first link that finds it: where that link is not to be followed the node
stays a leaf, whatever later links say.
-/

namespace Sipnab

open List

/-- What a walk has found, what it has yet to walk through and what it has walked through. -/
structure Walk (α : Type*) where
  seen : List α
  queue : List α
  walked : List α

namespace Walk
variable {α : Type*}

def start (root : α) : Walk α := ⟨[root], [root], []⟩

def taken (w : Walk α) : List α := w.walked ++ w.queue

variable [DecidableEq α] (links : α → List (α × Bool))

def find (w : Walk α) (e : α × Bool) : Walk α :=
  if e.1 ∈ w.seen then w
  else { w with
    seen := w.seen ++ [e.1]
    queue := if e.2 then w.queue ++ [e.1] else w.queue }

def step (w : Walk α) : Walk α :=
  match w.queue with
  | [] => w
  | p :: rest => (links p).foldl find { w with queue := rest, walked := w.walked ++ [p] }

def run : ℕ → Walk α → Walk α
  | 0, w => w
  | n + 1, w => run n (w.step links)

def Follows (p x : α) : Prop := (x, true) ∈ links p

def Finds (p x : α) : Prop := x ∈ (links p).map Prod.fst

/-- The first link from `p` to `x` is not to be followed. -/
def Skips (p x : α) : Prop := (links p).find? (fun e => e.1 = x) = some (x, false)

/-! ## One node's links -/

variable {p : α} (es : List (α × Bool))

theorem foldl_find_walked (w : Walk α) : (es.foldl find w).walked = w.walked := by
  induction es generalizing w with
  | nil => rfl
  | cons e es ih =>
    rw [foldl_cons, ih, find]
    split_ifs <;> rfl

theorem mem_seen_find (w : Walk α) (e : α × Bool) (x : α) :
    x ∈ (w.find e).seen ↔ x ∈ w.seen ∨ x = e.1 := by
  rw [find]
  split_ifs with h
  · constructor
    · exact Or.inl
    · intro hx
      rcases hx with hx | rfl
      · exact hx
      · exact h
  all_goals rw [mem_append, mem_singleton]

theorem mem_seen_foldl_find (w : Walk α) (x : α) :
    x ∈ (es.foldl find w).seen ↔ x ∈ w.seen ∨ x ∈ es.map Prod.fst := by
  induction es generalizing w with
  | nil => simp only [foldl_nil, map_nil, not_mem_nil, or_false]
  | cons e es ih =>
    rw [foldl_cons, ih, mem_seen_find, map_cons, mem_cons, or_assoc]

theorem mem_queue_foldl_find (w : Walk α) (x : α) :
    x ∈ (es.foldl find w).queue ↔
      x ∈ w.queue ∨ x ∉ w.seen ∧ es.find? (fun e => e.1 = x) = some (x, true) := by
  induction es generalizing w with
  | nil => simp only [foldl_nil, List.find?_nil, reduceCtorEq, and_false, or_false]
  | cons e es ih =>
    obtain ⟨y, follow⟩ := e
    rw [foldl_cons, ih, mem_seen_find, List.find?_cons]
    by_cases hxy : y = x
    · -- the first link to `x` decides, and later ones find it seen
      subst hxy
      simp only [or_true, not_true_eq_false, false_and, or_false, decide_true, Option.some.injEq,
        Prod.mk.injEq, true_and, find]
      split_ifs with hseen hfollow
      · simp only [hseen, not_true_eq_false, false_and, or_false]
      · simp only [mem_append, mem_singleton, or_true, hseen, hfollow, not_false_eq_true, and_self]
      · simp only [hfollow, Bool.false_eq_true, and_false, or_false]
    · have hqueue : x ∈ (w.find (y, follow)).queue ↔ x ∈ w.queue := by
        rw [find]
        split_ifs
        · exact Iff.rfl
        · simp only [mem_append, mem_singleton, Ne.symm hxy, or_false]
        · exact Iff.rfl
      simp only [hqueue, Ne.symm hxy, or_false, hxy, decide_false]

/-! ## What a walk keeps -/

structure Inv (root : α) (w : Walk α) : Prop where
  root_taken : root ∈ w.taken
  nodup : w.taken.Nodup
  taken_seen : ∀ x ∈ w.taken, x ∈ w.seen
  complete : ∀ p ∈ w.walked, ∀ x, Finds links p x → x ∈ w.seen
  found : ∀ x ∈ w.seen, x = root ∨ ∃ p ∈ w.walked, Finds links p x
  followed : ∀ x ∈ w.taken, Relation.ReflTransGen (Follows links) root x
  leaf : ∀ x ∈ w.seen, x ∈ w.taken ∨ ∃ p ∈ w.walked, Skips links p x

theorem inv_start (root : α) : Inv links root (start root) where
  root_taken := mem_singleton.mpr rfl
  nodup := nodup_singleton root
  taken_seen := fun _ hx => hx
  complete := fun _ hp => absurd hp not_mem_nil
  found := fun _ hx => Or.inl (mem_singleton.mp hx)
  followed := by
    intro x hx
    rw [mem_singleton.mp hx]
  leaf := fun _ hx => Or.inl hx

theorem find_nodup {w : Walk α} (e : α × Bool) (hnodup : w.taken.Nodup)
    (hseen : ∀ x ∈ w.taken, x ∈ w.seen) :
    (w.find e).taken.Nodup ∧ ∀ x ∈ (w.find e).taken, x ∈ (w.find e).seen := by
  rw [find]
  split_ifs with h hfollow
  · exact ⟨hnodup, hseen⟩
  · rw [taken, ← append_assoc]
    constructor
    · apply hnodup.append (nodup_singleton _)
      intro x hx hxe
      rw [mem_singleton.mp hxe] at hx
      exact h (hseen _ hx)
    · intro x hx
      rcases mem_append.mp hx with hx | hx
      · exact mem_append_left _ (hseen x hx)
      · exact mem_append_right _ hx
  · exact ⟨hnodup, fun x hx => mem_append_left _ (hseen x hx)⟩

theorem foldl_find_nodup {w : Walk α} (hnodup : w.taken.Nodup) (hseen : ∀ x ∈ w.taken, x ∈ w.seen) :
    (es.foldl find w).taken.Nodup ∧ ∀ x ∈ (es.foldl find w).taken, x ∈ (es.foldl find w).seen := by
  induction es generalizing w with
  | nil => exact ⟨hnodup, hseen⟩
  | cons e es ih =>
    obtain ⟨hnodup', hseen'⟩ := find_nodup e hnodup hseen
    exact ih hnodup' hseen'

theorem find?_of_finds {x : α} (h : Finds links p x) :
    Skips links p x ∨ (links p).find? (fun e => e.1 = x) = some (x, true) := by
  obtain ⟨e, he, rfl⟩ := List.mem_map.mp h
  cases hfind : (links p).find? (fun e' => e'.1 = e.1) with
  | none => exact absurd (decide_eq_true rfl) (List.find?_eq_none.mp hfind e he)
  | some found =>
    obtain ⟨y, follow⟩ := found
    have hy := List.find?_some hfind
    rw [decide_eq_true_eq] at hy
    subst hy
    cases follow with
    | false => exact Or.inl hfind
    | true => exact Or.inr rfl

/-- Where the links not to be followed come last, a node skipped from `p` is not followed from
it. -/
theorem not_follows_of_skips {x : α}
    (hlast : (links p).Pairwise (fun a b => a.2 = false → b.2 = false)) (h : Skips links p x) :
    ¬ Follows links p x := by
  obtain ⟨-, before, after, hsplit, hbefore⟩ := List.find?_eq_some_iff_append.mp h
  intro hfollows
  rw [Follows, hsplit, mem_append, mem_cons] at hfollows
  rcases hfollows with hmem | heq | hmem
  · have hne := hbefore _ hmem
    rw [Bool.not_eq_true', decide_eq_false_iff_not] at hne
    exact hne rfl
  · cases heq
  · rw [hsplit] at hlast
    have hafter := (pairwise_cons.mp (pairwise_append.mp hlast).2.1).1 _ hmem rfl
    cases hafter

theorem step_cons {w : Walk α} {rest : List α} (hqueue : w.queue = p :: rest) :
    (w.step links).walked = w.walked ++ [p] ∧
      (∀ x, x ∈ (w.step links).seen ↔ x ∈ w.seen ∨ Finds links p x) ∧
      ∀ x, x ∈ (w.step links).taken ↔
        x ∈ w.taken ∨ x ∉ w.seen ∧ (links p).find? (fun e => e.1 = x) = some (x, true) := by
  rw [step, hqueue]
  have hwalked := foldl_find_walked (links p) { w with queue := rest, walked := w.walked ++ [p] }
  refine ⟨hwalked, fun x => mem_seen_foldl_find _ _ x, ?_⟩
  intro x
  rw [taken, hwalked, mem_append, mem_queue_foldl_find, ← or_assoc, ← mem_append,
    append_assoc, singleton_append, ← hqueue]
  rfl

theorem step_nodup {w : Walk α} (hnodup : w.taken.Nodup) (hseen : ∀ x ∈ w.taken, x ∈ w.seen) :
    (w.step links).taken.Nodup ∧ ∀ x ∈ (w.step links).taken, x ∈ (w.step links).seen := by
  rw [step]
  cases hqueue : w.queue with
  | nil => exact ⟨hnodup, hseen⟩
  | cons p rest =>
    have hmove : ({ w with queue := rest, walked := w.walked ++ [p] } : Walk α).taken = w.taken := by
      rw [taken, taken, hqueue, append_assoc, singleton_append]
    apply foldl_find_nodup
    · rw [hmove]
      exact hnodup
    · rw [hmove]
      exact hseen

theorem Inv.step {root : α} {w : Walk α} (h : Inv links root w) : Inv links root (w.step links) := by
  cases hqueue : w.queue with
  | nil =>
    rw [Walk.step, hqueue]
    exact h
  | cons p rest =>
    obtain ⟨hwalked, hseen, htaken⟩ := step_cons links hqueue
    obtain ⟨hnodup, htaken_seen⟩ := step_nodup links h.nodup h.taken_seen
    have hpt : p ∈ w.taken := by
      rw [taken, hqueue]
      exact mem_append_right _ mem_cons_self
    have hold : ∀ q ∈ w.walked, q ∈ (w.step links).walked := by
      intro q hq
      rw [hwalked]
      exact mem_append_left _ hq
    have hp : p ∈ (w.step links).walked := by
      rw [hwalked]
      exact mem_append_right _ (mem_singleton.mpr rfl)
    constructor
    case root_taken => exact (htaken root).mpr (Or.inl h.root_taken)
    case nodup => exact hnodup
    case taken_seen => exact htaken_seen
    case complete =>
      intro q hq x hx
      rw [hwalked, mem_append, mem_singleton] at hq
      rw [hseen]
      rcases hq with hq | rfl
      · exact Or.inl (h.complete q hq x hx)
      · exact Or.inr hx
    case found =>
      intro x hx
      rcases (hseen x).mp hx with hx | hx
      · rcases h.found x hx with rfl | ⟨q, hq, hqx⟩
        · exact Or.inl rfl
        · exact Or.inr ⟨q, hold q hq, hqx⟩
      · exact Or.inr ⟨p, hp, hx⟩
    case followed =>
      intro x hx
      rcases (htaken x).mp hx with hx | ⟨-, hx⟩
      · exact h.followed x hx
      · exact (h.followed p hpt).tail (mem_of_find?_eq_some hx)
    case leaf =>
      intro x hx
      by_cases hbefore : x ∈ w.seen
      · rcases h.leaf x hbefore with hx | ⟨q, hq, hqx⟩
        · exact Or.inl ((htaken x).mpr (Or.inl hx))
        · exact Or.inr ⟨q, hold q hq, hqx⟩
      · have hfinds : Finds links p x := ((hseen x).mp hx).resolve_left hbefore
        rcases find?_of_finds links hfinds with hskips | hfollow
        · exact Or.inr ⟨p, hp, hskips⟩
        · exact Or.inl ((htaken x).mpr (Or.inr ⟨hbefore, hfollow⟩))

theorem Inv.run {root : α} (n : ℕ) {w : Walk α} (h : Inv links root w) :
    Inv links root (w.run links n) := by
  induction n generalizing w with
  | zero => exact h
  | succ n ih => exact ih h.step

/-! ## Finished walks -/

theorem step_of_queue_nil {w : Walk α} (h : w.queue = []) : w.step links = w := by
  rw [step, h]

theorem run_of_queue_nil (n : ℕ) {w : Walk α} (h : w.queue = []) : w.run links n = w := by
  induction n with
  | zero => rfl
  | succ n ih => rw [run, step_of_queue_nil links h, ih]

theorem run_walked_length (n : ℕ) (w : Walk α) :
    (w.run links n).queue = [] ∨ (w.run links n).walked.length = w.walked.length + n := by
  induction n generalizing w with
  | zero => exact Or.inr rfl
  | succ n ih =>
    rw [run]
    cases hqueue : w.queue with
    | nil =>
      rw [step_of_queue_nil links hqueue, run_of_queue_nil links n hqueue]
      exact Or.inl hqueue
    | cons p rest =>
      have hstep : (w.step links).walked.length = w.walked.length + 1 := by
        rw [(step_cons links hqueue).1, length_append, length_singleton]
      rcases ih (w.step links) with hdone | hlength
      · exact Or.inl hdone
      · right
        omega

theorem run_queue_eq_nil {root : α} {nodes : List α} (hroot : root ∈ nodes)
    (hlinks : ∀ p x, Finds links p x → x ∈ nodes) {n : ℕ} (hn : nodes.length ≤ n) :
    ((start root).run links n).queue = [] := by
  have hinv := Inv.run links n (inv_start links root)
  rcases run_walked_length links n (start root) with hdone | hlength
  · exact hdone
  · have hsubset : ((start root).run links n).taken ⊆ nodes := by
      intro x hx
      rcases hinv.found x (hinv.taken_seen x hx) with rfl | ⟨p, -, hp⟩
      · exact hroot
      · exact hlinks p x hp
    have hle := (hinv.nodup.subperm hsubset).length_le
    have hzero : (start root).walked.length = 0 := rfl
    rw [taken, length_append] at hle
    rw [eq_nil_iff_length_eq_zero]
    omega

variable {links} {root : α} {w : Walk α}

/-- Where no followed chain from the root is skipped from inside, a finished walk has walked through
what the followed links reach. -/
theorem Inv.mem_walked_iff (h : Inv links root w) (hdone : w.queue = [])
    (hskips : ∀ p x, Relation.ReflTransGen (Follows links) root p →
      Relation.ReflTransGen (Follows links) root x → ¬ Skips links p x) (x : α) :
    x ∈ w.walked ↔ Relation.ReflTransGen (Follows links) root x := by
  have htaken : w.taken = w.walked := by rw [taken, hdone, append_nil]
  constructor
  · intro hx
    exact h.followed x (htaken ▸ hx)
  · intro hx
    induction hx with
    | refl => exact htaken ▸ h.root_taken
    | @tail p x hp hpx ih =>
      have hseen : x ∈ w.seen := h.complete p ih x (List.mem_map_of_mem hpx)
      rcases h.leaf x hseen with htake | ⟨q, hq, hqx⟩
      · exact htaken ▸ htake
      · exact absurd hqx (hskips q x (h.followed q (htaken ▸ hq)) (hp.tail hpx))

end Walk

end Sipnab
