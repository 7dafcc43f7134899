import Sipnab.Lib.LeafWalk
import Sipnab.Sip.Correlation
import Sipnab.Sip.StoreFiling

/-!
# What a correlation tree holds

A tree that was not cut short holds the dialog it starts from and every dialog linked to one it
walked through. What it walks through lies within the reach of identifier matches, and is all of
that reach unless a dialog in it was first found by a guess.
-/

namespace Sipnab

open List Option

namespace DialogStore
variable (rd : BodyReaders) (s : DialogStore)

def Linked (x y : String) : Prop := ∃ r ∈ findCorrelatedScored rd s x, r.dialog.callId = y

def Identified (x y : String) : Prop :=
  ∃ r ∈ findCorrelatedScored rd s x, r.dialog.callId = y ∧ r.reason.identifierMatch = true

def Guessed (x y : String) : Prop := Linked rd s x y ∧ ¬ Identified rd s x y

def legLinks (callId : String) : List (String × Bool) :=
  (foundFrom rd s callId).map (fun r => (r.dialog.callId, r.reason.identifierMatch))

variable {x y : String} (callId : String)

theorem Identified.linked (h : Identified rd s x y) : Linked rd s x y := by
  obtain ⟨r, hr, hy, -⟩ := h
  exact ⟨r, hr, hy⟩

theorem mem_foundFrom (r : CorrelationResult) :
    r ∈ foundFrom rd s callId ↔ r ∈ findCorrelatedScored rd s callId := mem_insertionSort _

theorem finds_legLinks_iff (x y : String) : Walk.Finds (legLinks rd s) x y ↔ Linked rd s x y := by
  rw [Walk.Finds, legLinks, List.map_map, List.mem_map]
  simp only [mem_foundFrom, Function.comp_apply, Linked]

theorem follows_legLinks_iff (x y : String) :
    Walk.Follows (legLinks rd s) x y ↔ Identified rd s x y := by
  rw [Walk.Follows, legLinks, List.mem_map]
  simp only [mem_foundFrom, Prod.mk.injEq, Identified]

/-! ## A guess ranks below every identifier match -/

theorem mem_findCorrelatedScored {callId : String} {r : CorrelationResult}
    (h : r ∈ findCorrelatedScored rd s callId) :
    r.dialog ∈ s.dialogs.values ∧ r.score = r.reason.score ∧ r.dialog.callId ≠ callId := by
  rw [findCorrelatedScored] at h
  cases hget : s.get callId with
  | none =>
    rw [hget] at h
    exact absurd h not_mem_nil
  | some dialog =>
    rw [hget] at h
    rw [mem_insertionSort, mem_filterMap] at h
    obtain ⟨c, hc, hr⟩ := h
    obtain ⟨reason, -, rfl⟩ := map_eq_some_iff.mp hr
    rw [mem_filter, decide_eq_true_eq] at hc
    exact ⟨hc.1, rfl, hc.2⟩

theorem score_lt_of_guess {a b : CorrelationReason} (ha : a.identifierMatch = false)
    (hb : b.identifierMatch = true) : a.score < b.score := by
  cases a with
  | timingHeuristic =>
    cases b with
    | timingHeuristic => cases hb
    | _ => decide
  | _ => cases ha

instance : Std.Total foundLe := ⟨by
  intro a b
  rcases Nat.lt_trichotomy a.score b.score with h | h | h
  · exact Or.inr (Or.inl h)
  · rcases le_total a.dialog.callId b.dialog.callId with hid | hid
    · exact Or.inl (Or.inr ⟨h, hid⟩)
    · exact Or.inr (Or.inr ⟨h.symm, hid⟩)
  · exact Or.inl (Or.inl h)⟩

instance : IsTrans CorrelationResult foundLe := ⟨by
  intro a b c hab hbc
  rcases hab with hab | ⟨hab, hid⟩
  · left
    rcases hbc with hbc | ⟨hbc, -⟩ <;> omega
  · rcases hbc with hbc | ⟨hbc, hid'⟩
    · left
      omega
    · exact Or.inr ⟨hab.trans hbc, hid.trans hid'⟩⟩

theorem legLinks_pairwise :
    (legLinks rd s callId).Pairwise (fun a b => a.2 = false → b.2 = false) := by
  rw [legLinks, pairwise_map]
  refine (pairwise_insertionSort foundLe _).imp_of_mem ?_
  intro a b ha hb hle hguess
  rw [mem_insertionSort] at ha hb
  rw [Bool.eq_false_iff]
  intro hidentified
  have hscores := score_lt_of_guess hguess hidentified
  rw [← (mem_findCorrelatedScored rd s ha).2.1, ← (mem_findCorrelatedScored rd s hb).2.1] at hscores
  rcases hle with hle | ⟨hle, -⟩ <;> omega

theorem guessed_of_skips (h : Walk.Skips (legLinks rd s) x y) : Guessed rd s x y := by
  have hfinds : Walk.Finds (legLinks rd s) x y := List.mem_map_of_mem (mem_of_find?_eq_some h)
  have hnot := Walk.not_follows_of_skips _ (legLinks_pairwise rd s x) h
  rw [follows_legLinks_iff] at hnot
  exact ⟨(finds_legLinks_iff rd s x y).mp hfinds, hnot⟩

end DialogStore

/-! ## The walk of the tree is a walk along the links -/

namespace TreeWalk

structure Tracks (w : TreeWalk) (v : Walk String) : Prop where
  legs : w.legs.map TreeLeg.callId = v.seen
  seen : ∀ x, x ∈ w.seen ↔ x ∈ v.seen
  queue : w.queue.map Prod.fst = v.queue
  walked : ∀ x, x ∈ w.walked ↔ x ∈ v.walked

theorem tracks_start (root : SipDialog) : (start root).Tracks (.start root.callId) where
  legs := rfl
  seen := fun _ => Finset.mem_singleton.trans mem_singleton.symm
  queue := rfl
  walked := fun _ => iff_of_false (Finset.notMem_empty _) not_mem_nil

variable {limit : ℕ} {parent : String} {depth : ℕ}

variable {w : TreeWalk}

theorem find_truncated (r : CorrelationResult) (h : w.truncated = true) :
    w.find limit parent depth r = w := by
  rw [find, if_pos (Or.inl h)]

variable {v : Walk String} (rs : List CorrelationResult)

theorem foldl_find_truncated (h : w.truncated = true) :
    rs.foldl (find limit parent depth) w = w := by
  induction rs with
  | nil => rfl
  | cons r rs ih => rw [foldl_cons, find_truncated r h, ih]

theorem Tracks.find (h : w.Tracks v) (r : CorrelationResult)
    (huncut : (w.find limit parent depth r).truncated = false) :
    (w.find limit parent depth r).Tracks (v.find (r.dialog.callId, r.reason.identifierMatch)) := by
  rw [TreeWalk.find] at huncut ⊢
  rw [Walk.find]
  by_cases hcut : w.truncated = true
  · rw [if_pos (Or.inl hcut), hcut] at huncut
    cases huncut
  · by_cases hseen : r.dialog.callId ∈ w.seen
    · rw [if_pos (Or.inr hseen), if_pos ((h.seen _).mp hseen)]
      exact h
    · have hnot : ¬ (w.truncated = true ∨ r.dialog.callId ∈ w.seen) := not_or.mpr ⟨hcut, hseen⟩
      rw [if_neg hnot] at huncut ⊢
      rw [if_neg (fun hv => hseen ((h.seen _).mpr hv))]
      dsimp only at huncut ⊢
      by_cases hfull : limit ≤ w.legs.length
      · rw [if_pos hfull] at huncut
        cases huncut
      · rw [if_neg hfull]
        constructor
        case legs => rw [map_append, h.legs, map_singleton]
        case seen =>
          intro x
          rw [Finset.mem_insert, mem_append, mem_singleton, h.seen, or_comm]
        case queue =>
          change List.map Prod.fst (if r.reason.identifierMatch then _ else _) = _
          dsimp only
          split_ifs
          · rw [map_append, h.queue, map_singleton]
          · exact h.queue
        case walked => exact h.walked

theorem Tracks.foldl_find (h : w.Tracks v)
    (huncut : (rs.foldl (TreeWalk.find limit parent depth) w).truncated = false) :
    (rs.foldl (TreeWalk.find limit parent depth) w).Tracks
      ((rs.map (fun r => (r.dialog.callId, r.reason.identifierMatch))).foldl Walk.find v) := by
  induction rs generalizing w v with
  | nil => exact h
  | cons r rs ih =>
    rw [foldl_cons] at huncut ⊢
    rw [map_cons, foldl_cons]
    apply ih _ huncut
    apply h.find
    rw [Bool.eq_false_iff]
    intro hcut
    rw [foldl_find_truncated rs hcut, hcut] at huncut
    cases huncut

end TreeWalk

namespace DialogStore
variable {rd : BodyReaders} {s : DialogStore} {limit : ℕ}

variable {w : TreeWalk}

variable {v : Walk String} {x y parent : String} {depth : ℕ} {root : SipDialog} (n : ℕ)

theorem walkTree_truncated (h : w.truncated = true) : walkTree rd s limit n w = w := by
  cases n with
  | zero => rfl
  | succ n => rw [walkTree, if_pos h]

theorem tracks_expand (h : w.Tracks v) (huncut : (expand rd s limit w).truncated = false) :
    (expand rd s limit w).Tracks (v.step (legLinks rd s)) := by
  rw [expand] at huncut ⊢
  rw [Walk.step, ← h.queue]
  cases hqueue : w.queue with
  | nil => exact h
  | cons next rest =>
    obtain ⟨parent, depth⟩ := next
    rw [hqueue] at huncut
    refine TreeWalk.Tracks.foldl_find _ ⟨h.legs, h.seen, rfl, ?_⟩ huncut
    intro x
    rw [Finset.mem_insert, mem_append, mem_singleton, h.walked, or_comm]

theorem tracks_walkTree (h : w.Tracks v) (huncut : (walkTree rd s limit n w).truncated = false) :
    (walkTree rd s limit n w).Tracks (v.run (legLinks rd s) n) := by
  induction n generalizing w v with
  | zero => exact h
  | succ n ih =>
    by_cases hcut : w.truncated = true
    · rw [walkTree_truncated _ hcut, hcut] at huncut
      cases huncut
    · rw [walkTree, if_neg hcut] at huncut ⊢
      rw [Walk.run]
      apply ih _ huncut
      apply tracks_expand h
      rw [Bool.eq_false_iff]
      intro hcut'
      rw [walkTree_truncated _ hcut', hcut'] at huncut
      cases huncut

/-! ## A limit with room for every dialog -/

def heldCallIds (s : DialogStore) : List String := s.dialogs.values.map SipDialog.callId

variable {callId : String} {t : CorrelationTree}

theorem mem_values_of_get {d : SipDialog} (h : s.get callId = some d) : d ∈ s.dialogs.values := by
  rw [get, or_eq_some_iff] at h
  rcases h with h | ⟨-, h⟩
  · exact List.mem_map_of_mem (IndexMap.get?_eq_some_iff.mp h)
  · split_ifs at h
    obtain ⟨e, he, rfl⟩ := map_eq_some_iff.mp h
    exact List.mem_map_of_mem (mem_of_find?_eq_some he)

theorem Linked.mem_heldCallIds (h : Linked rd s x y) : y ∈ s.heldCallIds := by
  obtain ⟨r, hr, rfl⟩ := h
  exact List.mem_map_of_mem (mem_findCorrelatedScored rd s hr).1

theorem Linked.ne (h : Linked rd s x y) : x ≠ y := by
  obtain ⟨r, hr, rfl⟩ := h
  exact (mem_findCorrelatedScored rd s hr).2.2.symm

/-- Each leg so far is one of the dialogs found, and those are held. -/
structure Roomy (s : DialogStore) (w : TreeWalk) : Prop where
  uncut : w.truncated = false
  legs : w.legs.length = w.seen.card
  held : w.seen ⊆ s.heldCallIds.toFinset

theorem Roomy.find (h : s.Roomy w) (hlimit : s.dialogs.length ≤ limit) {r : CorrelationResult}
    (hr : r.dialog.callId ∈ s.heldCallIds) : s.Roomy (w.find limit parent depth r) := by
  rw [TreeWalk.find, h.uncut]
  by_cases hseen : r.dialog.callId ∈ w.seen
  · rw [if_pos (Or.inr hseen)]
    exact h
  · have hheld : insert r.dialog.callId w.seen ⊆ s.heldCallIds.toFinset :=
      Finset.insert_subset (List.mem_toFinset.mpr hr) h.held
    have hcard := Finset.card_le_card hheld
    have hle := toFinset_card_le s.heldCallIds
    rw [Finset.card_insert_of_notMem hseen] at hcard
    rw [heldCallIds, length_map, IndexMap.values, length_map] at hle
    have hroom : ¬ limit ≤ w.legs.length := by
      rw [h.legs]
      rw [IndexMap.length] at hlimit
      rw [heldCallIds, IndexMap.values] at hcard
      omega
    rw [if_neg (by simpa using hseen)]
    dsimp only
    rw [if_neg hroom]
    exact ⟨rfl, by rw [length_append, h.legs, Finset.card_insert_of_notMem hseen]; rfl, hheld⟩

theorem Roomy.foldl_find (hlimit : s.dialogs.length ≤ limit) (rs : List CorrelationResult)
    (hrs : ∀ r ∈ rs, r.dialog.callId ∈ s.heldCallIds) (h : s.Roomy w) :
    s.Roomy (rs.foldl (TreeWalk.find limit parent depth) w) := by
  induction rs generalizing w with
  | nil => exact h
  | cons r rs ih =>
    rw [forall_mem_cons] at hrs
    exact ih hrs.2 (h.find hlimit hrs.1)

theorem Roomy.expand {w : TreeWalk} (h : s.Roomy w) (hlimit : s.dialogs.length ≤ limit) :
    s.Roomy (expand rd s limit w) := by
  rw [DialogStore.expand]
  cases w.queue with
  | nil => exact h
  | cons next rest =>
    refine Roomy.foldl_find hlimit _ ?_ ⟨h.uncut, h.legs, h.held⟩
    intro r hr
    have hlinked : Linked rd s next.1 r.dialog.callId := ⟨r, (mem_foundFrom rd s _ r).mp hr, rfl⟩
    exact hlinked.mem_heldCallIds

theorem Roomy.walkTree (n : ℕ) {w : TreeWalk} (h : s.Roomy w) (hlimit : s.dialogs.length ≤ limit) :
    s.Roomy (walkTree rd s limit n w) := by
  induction n generalizing w with
  | zero => exact h
  | succ n ih =>
    rw [DialogStore.walkTree, h.uncut]
    exact ih (h.expand hlimit)

theorem roomy_start (h : root ∈ s.dialogs.values) : s.Roomy (.start root) where
  uncut := rfl
  legs := (Finset.card_singleton _).symm
  held := Finset.singleton_subset_iff.mpr (List.mem_toFinset.mpr (List.mem_map_of_mem h))

/-! ## The legs of a tree -/

theorem correlationTree_eq_some (h : correlationTree rd s limit callId = some t) :
    ∃ root, s.get callId = some root ∧
      t.truncated = (walkTree rd s limit s.dialogs.length (.start root)).truncated ∧
      ∀ x, x ∈ t.callIds ↔
        x ∈ (walkTree rd s limit s.dialogs.length (.start root)).legs.map TreeLeg.callId := by
  obtain ⟨root, hroot, ht⟩ := bind_eq_some_iff.mp h
  refine ⟨root, hroot, ?_, ?_⟩
  · rw [← some.inj ht]
  · intro x
    rw [← some.inj ht]
    refine ((perm_insertionSort _ _).map TreeLeg.callId).mem_iff.trans ?_
    rw [List.map_map]
    rfl

theorem exists_correlationTree (rd : BodyReaders) (limit : ℕ) (h : s.get callId = some root) :
    ∃ t, correlationTree rd s limit callId = some t := by
  rw [correlationTree, h]
  exact ⟨_, rfl⟩

theorem uncut_of_length_le (hlimit : s.dialogs.length ≤ limit)
    (h : correlationTree rd s limit callId = some t) : t.truncated = false := by
  obtain ⟨root, hroot, hcut, -⟩ := correlationTree_eq_some h
  rw [hcut]
  exact ((roomy_start (mem_values_of_get hroot)).walkTree _ hlimit).uncut

theorem exists_walk (h : correlationTree rd s limit callId = some t)
    (huncut : t.truncated = false) :
    ∃ root v, s.get callId = some root ∧ Walk.Inv (legLinks rd s) root.callId v ∧ v.queue = [] ∧
      ∀ x, x ∈ t.callIds ↔ x ∈ v.seen := by
  obtain ⟨root, hroot, hcut, hlegs⟩ := correlationTree_eq_some h
  rw [hcut] at huncut
  have htracks := tracks_walkTree _ (TreeWalk.tracks_start root) huncut
  refine ⟨root, _, hroot, Walk.Inv.run _ s.dialogs.length (Walk.inv_start _ root.callId), ?_, ?_⟩
  · have hheld : root.callId ∈ s.heldCallIds := List.mem_map_of_mem (mem_values_of_get hroot)
    apply Walk.run_queue_eq_nil _ hheld
    · intro p x hpx
      exact ((finds_legLinks_iff rd s p x).mp hpx).mem_heldCallIds
    · rw [heldCallIds, length_map, IndexMap.values, length_map]
      exact le_refl _
  · intro x
    rw [hlegs, htracks.legs]

section Legs
variable {callId : String} {root : SipDialog} {t : CorrelationTree}

/-- `y` is within the identifier matches of `x`, or one link away. -/
def Within (rd : BodyReaders) (s : DialogStore) (x y : String) : Prop :=
  ∃ p, Relation.ReflTransGen (Identified rd s) x p ∧ (p = y ∨ Linked rd s p y)

def Connected (rd : BodyReaders) (s : DialogStore) : String → String → Prop :=
  Relation.ReflTransGen (Linked rd s)

variable {x : String}

theorem Within.connected {y : String} (h : Within rd s x y) : Connected rd s x y := by
  obtain ⟨p, hp, hy⟩ := h
  have hxp : Connected rd s x p := Relation.ReflTransGen.mono (fun _ _ => Identified.linked rd s) _ _ hp
  rcases hy with rfl | hy
  · exact hxp
  · exact hxp.tail hy

theorem root_mem_callIds (hroot : s.get callId = some root)
    (h : correlationTree rd s limit callId = some t) (huncut : t.truncated = false) :
    root.callId ∈ t.callIds ∧ ∀ x, Linked rd s root.callId x → x ∈ t.callIds := by
  obtain ⟨root', v, hroot', hinv, hdone, hlegs⟩ := exists_walk h huncut
  obtain rfl := some.inj (hroot.symm.trans hroot')
  have hwalked := hinv.root_taken
  rw [Walk.taken, hdone, append_nil] at hwalked
  refine ⟨(hlegs _).mpr (hinv.taken_seen _ hinv.root_taken), ?_⟩
  intro x hx
  exact (hlegs x).mpr (hinv.complete _ hwalked x ((finds_legLinks_iff rd s _ x).mpr hx))

theorem within_of_mem_callIds (hroot : s.get callId = some root)
    (h : correlationTree rd s limit callId = some t) (huncut : t.truncated = false)
    (hx : x ∈ t.callIds) : Within rd s root.callId x := by
  obtain ⟨root', v, hroot', hinv, hdone, hlegs⟩ := exists_walk h huncut
  obtain rfl := some.inj (hroot.symm.trans hroot')
  rcases hinv.found x ((hlegs x).mp hx) with rfl | ⟨p, hp, hpx⟩
  · exact ⟨_, .refl, Or.inl rfl⟩
  · refine ⟨p, ?_, Or.inr ((finds_legLinks_iff rd s p x).mp hpx)⟩
    have hfollowed := hinv.followed p (mem_append_left _ hp)
    exact Relation.ReflTransGen.mono (fun a b => (follows_legLinks_iff rd s a b).mp) _ _ hfollowed

/-- Where no guess joins two dialogs that identifier matches reach, the tree holds all that is
within. -/
theorem mem_callIds_iff (hroot : s.get callId = some root)
    (hunguessed : ∀ x y, Relation.ReflTransGen (Identified rd s) root.callId x →
      Relation.ReflTransGen (Identified rd s) root.callId y → ¬ Guessed rd s x y)
    (h : correlationTree rd s limit callId = some t) (huncut : t.truncated = false) (x : String) :
    x ∈ t.callIds ↔ Within rd s root.callId x := by
  constructor
  · exact within_of_mem_callIds hroot h huncut
  · intro hx
    obtain ⟨root', v, hroot', hinv, hdone, hlegs⟩ := exists_walk h huncut
    obtain rfl := some.inj (hroot.symm.trans hroot')
    obtain ⟨p, hp, hpx⟩ := hx
    have hfollows : Walk.Follows (legLinks rd s) = Identified rd s := by
      funext a b
      exact propext (follows_legLinks_iff rd s a b)
    have hwalked : p ∈ v.walked := by
      rw [hinv.mem_walked_iff hdone, hfollows]
      · exact hp
      · rw [hfollows]
        intro a b ha hb hskips
        exact hunguessed a b ha hb (guessed_of_skips rd s hskips)
    rw [hlegs]
    rcases hpx with rfl | hpx
    · exact hinv.taken_seen _ (mem_append_left _ hwalked)
    · exact hinv.complete p hwalked x ((finds_legLinks_iff rd s p x).mpr hpx)

end Legs

/-! ## Naming another leg -/

/-- Wherever nothing is cut short, naming any leg of the tree gives the same legs. -/
def SameTreeFromLegs (rd : BodyReaders) (s : DialogStore) (callId : String) : Prop :=
  ∀ limit t, correlationTree rd s limit callId = some t → t.truncated = false →
    ∀ x ∈ t.callIds, ∃ t', correlationTree rd s limit x = some t' ∧
      (t'.truncated = false → ∀ y, y ∈ t'.callIds ↔ y ∈ t.callIds)

/-- Of any two dialogs connected to `x`, each lies within the other's identifier matches or one
link away. -/
def Covered (rd : BodyReaders) (s : DialogStore) (x : String) : Prop :=
  ∀ y z, Connected rd s x y → Connected rd s x z → Within rd s y z

/-- No guess joins two dialogs that identifier matches reach from one connected to `x`. -/
def Unguessed (rd : BodyReaders) (s : DialogStore) (x : String) : Prop :=
  ∀ y, Connected rd s x y → ∀ a b, Relation.ReflTransGen (Identified rd s) y a →
    Relation.ReflTransGen (Identified rd s) y b → ¬ Guessed rd s a b

section Naming
variable {callId : String} {root : SipDialog} {t : CorrelationTree}

variable {x : String}

theorem mem_callIds_iff_connected (hroot : s.get callId = some root) (hcovered : Covered rd s x)
    (hunguessed : Unguessed rd s x) (hconnected : Connected rd s x root.callId)
    (h : correlationTree rd s limit callId = some t) (huncut : t.truncated = false) (y : String) :
    y ∈ t.callIds ↔ Connected rd s x y := by
  rw [mem_callIds_iff hroot (hunguessed _ hconnected) h huncut]
  constructor
  · intro hy
    exact hconnected.trans hy.connected
  · intro hy
    exact hcovered _ y hconnected hy

theorem mem_heldCallIds_of_connected {y : String} (hx : x ∈ s.heldCallIds)
    (h : Connected rd s x y) : y ∈ s.heldCallIds := by
  rcases Relation.ReflTransGen.cases_tail h with rfl | ⟨p, -, hpy⟩
  · exact hx
  · exact hpy.mem_heldCallIds

theorem get_of_connected (hfiled : WellFiled s) (hroot : s.get callId = some root)
    (hx : Connected rd s root.callId x) : ∃ d, s.get x = some d ∧ d.callId = x := by
  have hheld : root.callId ∈ s.heldCallIds := List.mem_map_of_mem (mem_values_of_get hroot)
  obtain ⟨d, hd, rfl⟩ := List.mem_map.mp (mem_heldCallIds_of_connected hheld hx)
  exact hfiled.get_callId hd

theorem covered_of_identified (hx : x ∈ s.heldCallIds)
    (hall : ∀ a ∈ s.heldCallIds, ∀ b ∈ s.heldCallIds, a ≠ b → Identified rd s a b) :
    Covered rd s x ∧ Unguessed rd s x := by
  constructor
  · intro y z hy hz
    by_cases hyz : y = z
    · exact ⟨y, .refl, Or.inl hyz⟩
    · have hidentified := hall y (mem_heldCallIds_of_connected hx hy) z
        (mem_heldCallIds_of_connected hx hz) hyz
      exact ⟨y, .refl, Or.inr (Identified.linked rd s hidentified)⟩
  · intro y hy a b ha hb hguess
    have hheld : ∀ c, Relation.ReflTransGen (Identified rd s) y c → c ∈ s.heldCallIds := by
      intro c hc
      have hconnected : Connected rd s y c :=
        Relation.ReflTransGen.mono (fun _ _ => Identified.linked rd s) _ _ hc
      exact mem_heldCallIds_of_connected hx (hy.trans hconnected)
    exact hguess.2 (hall a (hheld a ha) b (hheld b hb) hguess.1.ne)

theorem sameTreeFromLegs_of_covered (hfiled : WellFiled s) (hroot : s.get callId = some root)
    (hcovered : Covered rd s root.callId) (hunguessed : Unguessed rd s root.callId) :
    SameTreeFromLegs rd s callId := by
  intro limit t ht huncut x hx
  have hself : Connected rd s root.callId root.callId := .refl
  have hlegs := mem_callIds_iff_connected hroot hcovered hunguessed hself ht huncut
  have hconnected := (hlegs x).mp hx
  obtain ⟨d, hd, rfl⟩ := get_of_connected hfiled hroot hconnected
  obtain ⟨t', ht'⟩ := exists_correlationTree rd limit hd
  refine ⟨t', ht', ?_⟩
  intro huncut' y
  rw [mem_callIds_iff_connected hd hcovered hunguessed hconnected ht' huncut', hlegs]

theorem covered_of_sameTreeFromLegs (hfiled : WellFiled s) (hroot : s.get callId = some root)
    (h : SameTreeFromLegs rd s callId) : Covered rd s root.callId := by
  have hle : s.dialogs.length ≤ s.dialogs.length := le_refl _
  obtain ⟨t, ht⟩ := exists_correlationTree rd s.dialogs.length hroot
  have huncut := uncut_of_length_le hle ht
  have hsame : ∀ x ∈ t.callIds, ∃ d t', s.get x = some d ∧ d.callId = x ∧
      correlationTree rd s s.dialogs.length x = some t' ∧ t'.truncated = false ∧
      ∀ y, y ∈ t'.callIds ↔ y ∈ t.callIds := by
    intro x hx
    obtain ⟨t', ht', hlegs⟩ := h _ t ht huncut x hx
    have hwithin := within_of_mem_callIds hroot ht huncut hx
    obtain ⟨d, hd, hdx⟩ := get_of_connected hfiled hroot hwithin.connected
    have huncut' := uncut_of_length_le hle ht'
    exact ⟨d, t', hd, hdx, ht', huncut', hlegs huncut'⟩
  -- the legs are closed under links: a leg's own tree has its links
  have hclosed : ∀ x, Connected rd s root.callId x → x ∈ t.callIds := by
    intro x hx
    induction hx with
    | refl => exact (root_mem_callIds hroot ht huncut).1
    | @tail p x _ hpx ih =>
      obtain ⟨d, t', hd, rfl, ht', huncut', hlegs⟩ := hsame p ih
      exact (hlegs x).mp ((root_mem_callIds hd ht' huncut').2 x hpx)
  intro y z hy hz
  obtain ⟨d, t', hd, rfl, ht', huncut', hlegs⟩ := hsame y (hclosed y hy)
  exact within_of_mem_callIds hd ht' huncut' ((hlegs z).mpr (hclosed z hz))

end Naming

/-! ## Small stores -/

section
open SipMessage (plainRequest)

/-- An `INVITE` with the Call-ID, branch and two addresses given. -/
def inviteOf (p : String × String × BitVec 32 × BitVec 32) : SipMessage :=
  { plainRequest p.1 1 .invite p.2.1 "" with srcAddr := .v4 p.2.2.1, dstAddr := .v4 p.2.2.2 }

def invitedStore (calls : List (String × String × BitVec 32 × BitVec 32)) : DialogStore :=
  DialogStore.feed (.plain 10) { maxDialogs := 10, rotate := true } (calls.map inviteOf)

end

end DialogStore

end Sipnab
