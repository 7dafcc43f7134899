import Sipnab.Lib.FittingSuffix

/-!
# The ring of raw frames

A live capture keeps its newest frames within a budget of bytes, so that it can answer a pointer to
one of them. A queue in the order of arrival, an index by source and ordinal and a queue of ordinals
for each source are kept beside each other. A miss says which kind of miss it is.
-/

namespace Sipnab.Evidence

open FittingSuffix List Option

inductive Lookup
  | retained (bytes : List UInt8)
  | evicted (oldest : ℕ)
  | notSeen (newest : ℕ)
  | notRetained
  deriving DecidableEq

structure Held where
  source : String
  ordinal : ℕ
  bytes : List UInt8
  deriving DecidableEq

structure Seen where
  retained : List ℕ
  newestSeen : ℕ

structure EvidenceRing where
  budgetBytes : ℕ
  heldBytes : ℕ
  order : List Held
  index : String × ℕ → Option (List UInt8)
  seen : String → Option Seen

def withCapacityBytes (budgetBytes : ℕ) : EvidenceRing :=
  ⟨budgetBytes, 0, [], fun _ => none, fun _ => none⟩

def entryOrDefault (ring : EvidenceRing) (source : String) : Seen :=
  (ring.seen source).getD ⟨[], 0⟩

def evictOldest (ring : EvidenceRing) : Option EvidenceRing :=
  match ring.order with
  | [] => none
  | held :: order =>
    some { ring with
      order := order
      index := Function.update ring.index (held.source, held.ordinal) none
      heldBytes := ring.heldBytes - held.bytes.length
      seen :=
        match ring.seen held.source with
        | none => ring.seen
        | some seen =>
          let retained :=
            if seen.retained.head? = some held.ordinal then seen.retained.tail
            else seen.retained.erase held.ordinal
          Function.update ring.seen held.source (some { seen with retained := retained }) }

/-- Evicts until so many bytes fit, and says whether they do. Each round takes a frame, so that
there is one round more than there are frames. -/
def makeRoom (size : ℕ) : ℕ → EvidenceRing → EvidenceRing × Bool
  | 0, ring => (ring, false)
  | rounds + 1, ring =>
    if ring.budgetBytes < ring.heldBytes + size then
      match evictOldest ring with
      | none => (ring, false)
      | some ring => makeRoom size rounds ring
    else (ring, true)

def notice (ring : EvidenceRing) (source : String) (ordinal : ℕ) : EvidenceRing :=
  let seen := entryOrDefault ring source
  { ring with
    seen := Function.update ring.seen source
      (some { seen with newestSeen := max seen.newestSeen ordinal }) }

def pushBack (ring : EvidenceRing) (frame : Held) : EvidenceRing :=
  let seen := entryOrDefault ring frame.source
  { ring with
    heldBytes := ring.heldBytes + frame.bytes.length
    index := Function.update ring.index (frame.source, frame.ordinal) (some frame.bytes)
    order := ring.order ++ [frame]
    seen := Function.update ring.seen frame.source
      (some { seen with retained := seen.retained ++ [frame.ordinal] }) }

def insert (ring : EvidenceRing) (frame : Held) : EvidenceRing :=
  let ring := notice ring frame.source frame.ordinal
  if ring.budgetBytes < frame.bytes.length then ring
  else
    let (ring, room) := makeRoom frame.bytes.length (ring.order.length + 1) ring
    if room then pushBack ring frame else ring

def lookup (ring : EvidenceRing) (source : String) (ordinal : ℕ) : Lookup :=
  match ring.seen source with
  | none => .notRetained
  | some seen =>
    match ring.index (source, ordinal) with
    | some bytes => .retained bytes
    | none =>
      match seen.retained.head? with
      | none => .notRetained
      | some oldest => if seen.newestSeen < ordinal then .notSeen seen.newestSeen else .evicted oldest

def run (budgetBytes : ℕ) (offers : List Held) : EvidenceRing :=
  offers.foldl insert (withCapacityBytes budgetBytes)

/-! ## What the structures say about the frames held -/

def Held.size (frame : Held) : ℕ := frame.bytes.length

def Held.key (frame : Held) : String × ℕ := (frame.source, frame.ordinal)

def ordinals (frames : List Held) (source : String) : List ℕ :=
  (frames.filter (fun f => f.source = source)).map Held.ordinal

def Increasing (frames : List Held) : Prop :=
  frames.Pairwise (fun f g => f.source = g.source → f.ordinal < g.ordinal)

/-- The structures of the ring are those of the frames it holds. -/
structure Tracks (ring : EvidenceRing) (held : List Held) : Prop where
  order : ring.order = held
  heldBytes : ring.heldBytes = total Held.size held
  index : ∀ f : Held, ring.index f.key = some f.bytes ↔ f ∈ held
  retained : ∀ source seen, ring.seen source = some seen → seen.retained = ordinals held source
  seen : ∀ f ∈ held, ring.seen f.source ≠ none

variable {f : Held} {held offers : List Held} {source : String} {ring : EvidenceRing} (budget : ℕ)

theorem tracks_new : Tracks (withCapacityBytes budget) [] where
  order := rfl
  heldBytes := rfl
  index f := by simp [withCapacityBytes]
  retained source seen h := by cases h
  seen f hf := by cases hf

theorem Increasing.key_ne {g : Held} (h : Increasing (f :: held)) (hg : g ∈ held) :
    g.key ≠ f.key := by
  intro hkey
  obtain ⟨hsource, hordinal⟩ := Prod.mk.inj hkey
  exact absurd hordinal.symm (rel_of_pairwise_cons h hg hsource.symm).ne

theorem ordinals_cons (f : Held) (held : List Held) (source : String) :
    ordinals (f :: held) source
      = if f.source = source then f.ordinal :: ordinals held source else ordinals held source := by
  unfold ordinals
  rw [filter_cons]
  by_cases h : f.source = source <;> simp [h]

theorem ordinals_append (as bs : List Held) (source : String) :
    ordinals (as ++ bs) source = ordinals as source ++ ordinals bs source := by
  simp [ordinals]

def newest (ring : EvidenceRing) (source : String) : Option ℕ :=
  (ring.seen source).map Seen.newestSeen

theorem retained_update {held' : List Held} {seen : Seen}
    (h : ∀ source seen, ring.seen source = some seen → seen.retained = ordinals held source)
    (hothers : ∀ source, source ≠ f.source → ordinals held' source = ordinals held source)
    (hseen : seen.retained = ordinals held' f.source) :
    ∀ source seen', Function.update ring.seen f.source (some seen) source = some seen' →
      seen'.retained = ordinals held' source := by
  intro source seen' hseen'
  by_cases hsource : source = f.source
  · subst hsource
    rw [Function.update_self] at hseen'
    rw [← some.inj hseen', hseen]
  · rw [Function.update_of_ne hsource] at hseen'
    rw [h source seen' hseen', hothers source hsource]

theorem update_ne_none {seen : String → Option Seen} {new : Seen} {s : String}
    (h : s = source ∨ seen s ≠ none) : Function.update seen source (some new) s ≠ none := by
  by_cases hs : s = source
  · rw [hs, Function.update_self]
    exact some_ne_none _
  · rw [Function.update_of_ne hs]
    exact h.resolve_left hs

theorem exists_evictOldest (h : Tracks ring (f :: held)) (hinc : Increasing (f :: held)) :
    ∃ ring', evictOldest ring = some ring' ∧ Tracks ring' held
      ∧ ring'.budgetBytes = ring.budgetBytes ∧ newest ring' = newest ring := by
  obtain ⟨seen, hseen⟩ := ne_none_iff_exists'.mp (h.seen f mem_cons_self)
  have hretained : seen.retained = f.ordinal :: ordinals held f.source := by
    rw [h.retained _ _ hseen, ordinals_cons, if_pos rfl]
  have hevict : evictOldest ring = some { ring with
      order := held
      index := Function.update ring.index f.key none
      heldBytes := ring.heldBytes - f.size
      seen := Function.update ring.seen f.source
        (some { seen with retained := ordinals held f.source }) } := by
    simp only [evictOldest, h.order, hseen, hretained, List.head?_cons, if_true, tail_cons]
    rfl
  refine ⟨_, hevict, ⟨rfl, ?_, ?_, ?_, ?_⟩, rfl, ?_⟩
  · dsimp only
    rw [h.heldBytes, total_cons, Nat.add_sub_cancel_left]
  · intro g
    dsimp only
    by_cases hkey : g.key = f.key
    · have hg : g ∉ held := fun hmem => hinc.key_ne hmem hkey
      rw [hkey, Function.update_self]
      simp [hg]
    · rw [Function.update_of_ne hkey, h.index g, mem_cons]
      exact or_iff_right (fun heq => hkey (congrArg Held.key heq))
  · refine retained_update h.retained (fun source hsource => ?_) rfl
    rw [ordinals_cons, if_neg (Ne.symm hsource)]
  · exact fun g hg => update_ne_none (.inr (h.seen g (mem_cons_of_mem _ hg)))
  · funext source
    dsimp only [newest]
    by_cases hsource : source = f.source
    · subst hsource
      rw [Function.update_self, hseen]
      rfl
    · rw [Function.update_of_ne hsource]

theorem makeRoom_spec {size : ℕ} : ∀ {rounds : ℕ} {ring : EvidenceRing} {held : List Held},
    held.length < rounds → size ≤ ring.budgetBytes → Tracks ring held → Increasing held →
      ∃ ring', makeRoom size rounds ring = (ring', true)
        ∧ Tracks ring' (fitting Held.size (ring.budgetBytes - size) held)
        ∧ ring'.budgetBytes = ring.budgetBytes ∧ newest ring' = newest ring
  | 0, _, _, hrounds, _, _, _ => absurd hrounds (Nat.not_lt_zero _)
  | rounds + 1, ring, held, hrounds, hsize, h, hinc => by
    rw [makeRoom]
    by_cases hfull : ring.budgetBytes < ring.heldBytes + size
    · rw [if_pos hfull]
      cases held with
      | nil =>
        rw [h.heldBytes, total_nil] at hfull
        omega
      | cons f held =>
        obtain ⟨evicted, hevict, htracks, hbudget, hnewest⟩ := exists_evictOldest h hinc
        have hlarge : ¬ total Held.size (f :: held) ≤ ring.budgetBytes - size := by
          rw [← h.heldBytes]
          omega
        obtain ⟨ring', hroom, htracks', hbudget', hnewest'⟩ :=
          makeRoom_spec (Nat.lt_of_succ_lt_succ hrounds) (hbudget.symm ▸ hsize) htracks
            (List.Pairwise.of_cons hinc)
        rw [hbudget] at htracks' hbudget'
        rw [fitting, if_neg hlarge, hevict]
        exact ⟨ring', hroom, htracks', hbudget', hnewest'.trans hnewest⟩
    · rw [if_neg hfull, fitting_of_le (by rw [← h.heldBytes]; omega)]
      exact ⟨ring, rfl, h, rfl, rfl⟩

theorem Tracks.entryOrDefault {ring : EvidenceRing} {held : List Held} (h : Tracks ring held)
    (source : String) : (entryOrDefault ring source).retained = ordinals held source := by
  rw [Evidence.entryOrDefault]
  cases hseen : ring.seen source with
  | some seen => exact h.retained source seen hseen
  | none =>
    have hnone : ∀ f ∈ held, ¬ f.source = source := by
      rintro f hf rfl
      exact h.seen f hf hseen
    rw [ordinals, filter_eq_nil_iff.mpr (by simpa using hnone)]
    rfl

theorem Tracks.pushBack {ring : EvidenceRing} {held : List Held} {frame : Held}
    (h : Tracks ring held) (hnew : ∀ f ∈ held, f.key ≠ frame.key) :
    Tracks (pushBack ring frame) (held ++ [frame]) where
  order := by rw [Evidence.pushBack, h.order]
  heldBytes := by
    rw [Evidence.pushBack, total_append, total_cons, total_nil, h.heldBytes]
    rfl
  index f := by
    change Function.update ring.index frame.key (some frame.bytes) f.key = _ ↔ _
    rw [mem_append, mem_singleton]
    by_cases hkey : f.key = frame.key
    · have hf : f ∉ held := fun hmem => hnew f hmem hkey
      rw [hkey, Function.update_self, or_iff_right hf]
      refine ⟨fun hbytes => ?_, fun heq => by rw [heq]⟩
      obtain ⟨source, ordinal, bytes⟩ := f
      obtain ⟨rfl, rfl⟩ := Prod.mk.inj hkey
      obtain rfl := some.inj hbytes
      rfl
    · rw [Function.update_of_ne hkey, h.index f]
      exact (or_iff_left (fun heq => hkey (congrArg Held.key heq))).symm
  retained := by
    refine retained_update h.retained (fun source hsource => ?_) ?_
    · rw [ordinals_append, ordinals_cons, if_neg (Ne.symm hsource)]
      exact append_nil _
    · rw [ordinals_append, ordinals_cons, if_pos rfl, ← h.entryOrDefault]
      rfl
  seen f hf := by
    rcases mem_append.mp hf with hf | hf
    · exact update_ne_none (.inr (h.seen f hf))
    · exact update_ne_none (.inl (congrArg Held.source (mem_singleton.mp hf)))

theorem Tracks.notice {ring : EvidenceRing} {held : List Held} (h : Tracks ring held)
    (frame : Held) : Tracks (notice ring frame.source frame.ordinal) held where
  order := h.order
  heldBytes := h.heldBytes
  index := h.index
  retained := retained_update h.retained (fun _ _ => rfl) (h.entryOrDefault frame.source)
  seen f hf := update_ne_none (.inr (h.seen f hf))

/-! ## Whole runs -/

def accepted (budget : ℕ) (offers : List Held) : List Held :=
  offers.filter (fun f => f.size ≤ budget)

theorem Increasing.sublist {as bs : List Held} (h : Increasing bs) (hsub : as.Sublist bs) :
    Increasing as :=
  List.Pairwise.sublist hsub h

def noticed (before : String → Option ℕ) (frame : Held) : String → Option ℕ :=
  Function.update before frame.source (some (max ((before frame.source).getD 0) frame.ordinal))

theorem newest_notice (ring : EvidenceRing) (frame : Held) :
    newest (notice ring frame.source frame.ordinal) = noticed (newest ring) frame := by
  funext source
  dsimp only [newest, notice, noticed, entryOrDefault]
  by_cases hsource : source = frame.source
  · subst hsource
    rw [Function.update_self, Function.update_self]
    cases ring.seen frame.source <;> rfl
  · rw [Function.update_of_ne hsource, Function.update_of_ne hsource]
    rfl

theorem newest_pushBack (ring : EvidenceRing) (frame : Held) (h : ring.seen frame.source ≠ none) :
    newest (pushBack ring frame) = newest ring := by
  funext source
  dsimp only [newest, pushBack, entryOrDefault]
  by_cases hsource : source = frame.source
  · subst hsource
    obtain ⟨seen, hseen⟩ := ne_none_iff_exists'.mp h
    rw [Function.update_self, hseen]
    rfl
  · rw [Function.update_of_ne hsource]

theorem accepted_append (offers : List Held) (frame : Held) :
    accepted budget (offers ++ [frame])
      = if frame.size ≤ budget then accepted budget offers ++ [frame]
        else accepted budget offers := by
  rw [accepted, filter_append, filter_singleton]
  by_cases h : frame.size ≤ budget
  · rw [if_pos h, decide_eq_true h]
    rfl
  · rw [if_neg h, decide_eq_false h]
    exact append_nil _

theorem Increasing.key_ne_last {frame : Held} (h : Increasing (offers ++ [frame]))
    (hf : f ∈ offers) : f.key ≠ frame.key := by
  intro hkey
  obtain ⟨hsource, hordinal⟩ := Prod.mk.inj hkey
  have hlt := (pairwise_append.mp h).2.2 f hf frame (mem_singleton_self _) hsource
  exact absurd hordinal hlt.ne

theorem insert_eq_pushBack {frame : Held} (h : Tracks ring held) (hinc : Increasing held)
    (hsize : frame.size ≤ ring.budgetBytes) :
    ∃ room, insert ring frame = pushBack room frame
      ∧ Tracks room (fitting Held.size (ring.budgetBytes - frame.size) held)
      ∧ room.budgetBytes = ring.budgetBytes ∧ newest room = noticed (newest ring) frame := by
  have hbudget : (notice ring frame.source frame.ordinal).budgetBytes = ring.budgetBytes := rfl
  have horder : (notice ring frame.source frame.ordinal).order = held := h.order
  have hnewest := newest_notice ring frame
  have htracks := h.notice frame
  unfold insert
  generalize notice ring frame.source frame.ordinal = told at hbudget horder hnewest htracks ⊢
  rw [← hbudget] at hsize ⊢
  obtain ⟨room, hroom, htracks', hbudget', hnewest'⟩ :=
    makeRoom_spec (Nat.lt_succ_self _) hsize htracks hinc
  refine ⟨room, ?_, htracks', hbudget', hnewest'.trans hnewest⟩
  have hfits : ¬ told.budgetBytes < frame.bytes.length := Nat.not_lt.mpr hsize
  have hroom' : makeRoom frame.bytes.length (held.length + 1) told = (room, true) := hroom
  rw [if_neg hfits, horder, hroom']
  rfl

theorem insert_spec {frame : Held}
    (h : Tracks ring (fitting Held.size ring.budgetBytes (accepted ring.budgetBytes offers)))
    (hinc : Increasing (offers ++ [frame])) :
    Tracks (insert ring frame)
        (fitting Held.size ring.budgetBytes (accepted ring.budgetBytes (offers ++ [frame])))
      ∧ (insert ring frame).budgetBytes = ring.budgetBytes
      ∧ newest (insert ring frame) = noticed (newest ring) frame := by
  rw [accepted_append]
  by_cases hsize : frame.size ≤ ring.budgetBytes
  · have hheld : (fitting Held.size ring.budgetBytes (accepted ring.budgetBytes offers)).Sublist
        (offers ++ [frame]) :=
      ((fitting_isSuffix _).sublist.trans filter_sublist).trans (sublist_append_left _ _)
    obtain ⟨room, hinsert, htracks, hbudget, hnewest⟩ :=
      insert_eq_pushBack h (hinc.sublist hheld) hsize
    rw [fitting_fitting (Nat.sub_le _ _)] at htracks
    have hseen : room.seen frame.source ≠ none := by
      intro hnone
      have hmap := congrFun hnewest frame.source
      rw [newest, hnone, noticed, Function.update_self] at hmap
      cases hmap
    rw [if_pos hsize, hinsert, fitting_append_singleton _ hsize]
    refine ⟨htracks.pushBack (fun f hf => hinc.key_ne_last ?_), hbudget, ?_⟩
    · exact mem_of_mem_filter ((fitting_isSuffix _).subset hf)
    · rw [newest_pushBack room frame hseen, hnewest]
  · have hinsert : insert ring frame = notice ring frame.source frame.ordinal :=
      if_pos (Nat.not_le.mp hsize)
    rw [if_neg hsize, hinsert]
    exact ⟨h.notice frame, rfl, newest_notice ring frame⟩

def Offered (offers : List Held) (source : String) : Set ℕ :=
  {o | ∃ f ∈ offers, f.source = source ∧ f.ordinal = o}

def Noticed (seen : Option ℕ) (offered : Set ℕ) : Prop :=
  (seen = none → offered = ∅) ∧ ∀ n, seen = some n → IsGreatest offered n

theorem noticed_spec {before : String → Option ℕ}
    (h : ∀ source, Noticed (before source) (Offered offers source)) (frame : Held)
    (source : String) : Noticed (noticed before frame source)
      (Offered (offers ++ [frame]) source) := by
  have hoffered : Offered (offers ++ [frame]) source
      = Offered offers source ∪ {o | frame.source = source ∧ frame.ordinal = o} := by
    ext o
    simp [Offered, or_and_right, exists_or]
  rw [hoffered, noticed]
  by_cases hsource : source = frame.source
  · subst hsource
    rw [Function.update_self]
    refine ⟨fun hnone => (by cases hnone), fun n hn => ?_⟩
    obtain rfl := some.inj hn
    have hframe : IsGreatest {o | frame.source = frame.source ∧ frame.ordinal = o} frame.ordinal :=
      ⟨⟨rfl, rfl⟩, fun o ho => ho.2.ge⟩
    cases hbefore : before frame.source with
    | none =>
      rw [(h frame.source).1 hbefore, Set.empty_union, getD_none, Nat.zero_max]
      exact hframe
    | some m => exact ((h frame.source).2 m hbefore).union hframe
  · have hnone : {o | frame.source = source ∧ frame.ordinal = o} = ∅ :=
      Set.eq_empty_iff_forall_notMem.mpr (fun o ho => hsource ho.1.symm)
    rw [Function.update_of_ne hsource, hnone, Set.union_empty]
    exact h source

/-- The ring after any offers in order: it holds the longest suffix that fits, and knows the newest
ordinal of each source. -/
theorem run_spec (hinc : Increasing offers) :
    Tracks (run budget offers) (fitting Held.size budget (accepted budget offers))
      ∧ (run budget offers).budgetBytes = budget
      ∧ ∀ source, Noticed (newest (run budget offers) source) (Offered offers source) := by
  induction offers using List.reverseRecOn with
  | nil =>
    refine ⟨tracks_new budget, rfl, fun source => ⟨fun _ => ?_, fun n hn => ?_⟩⟩
    · simp [Offered]
    · cases hn
  | append_singleton offers frame ih =>
    obtain ⟨htracks, hbudget, hnoticed⟩ := ih (hinc.sublist (sublist_append_left _ _))
    have hrun : run budget (offers ++ [frame]) = insert (run budget offers) frame :=
      foldl_concat _ _ _ _
    have hheld : Tracks (run budget offers) (fitting Held.size (run budget offers).budgetBytes
        (accepted (run budget offers).budgetBytes offers)) := by
      rw [hbudget]
      exact htracks
    obtain ⟨htracks', hbudget', hnewest⟩ := insert_spec hheld hinc
    rw [hbudget] at htracks' hbudget'
    rw [hrun, hnewest]
    exact ⟨htracks', hbudget', noticed_spec hnoticed frame⟩

theorem mem_ordinals {o : ℕ} : o ∈ ordinals held source ↔ o ∈ Offered held source := by
  simp [ordinals, Offered, and_assoc]

theorem isLeast_ordinals (hinc : Increasing held) {o : ℕ}
    (h : (ordinals held source).head? = some o) : IsLeast (Offered held source) o := by
  have hsorted : (ordinals held source).Pairwise (· < ·) := by
    rw [ordinals, pairwise_map, pairwise_filter]
    exact hinc.imp (fun hlt hf hg => hlt ((of_decide_eq_true hf).trans (of_decide_eq_true hg).symm))
  obtain ⟨os, hos⟩ := List.head?_eq_some_iff.mp h
  refine ⟨mem_ordinals.mp (by rw [hos]; exact mem_cons_self), fun m hm => ?_⟩
  have hmem := mem_ordinals.mpr hm
  rw [hos] at hmem hsorted
  rcases mem_cons.mp hmem with rfl | hmem
  · exact le_rfl
  · exact (rel_of_pairwise_cons hsorted hmem).le

theorem lookup_of_not_held (h : Tracks ring held) {ordinal : ℕ}
    (hnot : ordinal ∉ Offered held source) {seen : Seen} (hseen : ring.seen source = some seen) :
    lookup ring source ordinal
      = (ordinals held source).head?.elim Lookup.notRetained (fun oldest =>
          if seen.newestSeen < ordinal then .notSeen seen.newestSeen else .evicted oldest) := by
  have hindex : ring.index (source, ordinal) = none := by
    rw [eq_none_iff_forall_ne_some]
    intro bytes hbytes
    exact hnot ⟨_, (h.index ⟨source, ordinal, bytes⟩).mp hbytes, rfl, rfl⟩
  rw [lookup, hseen]
  dsimp only
  rw [hindex, h.retained source seen hseen]
  cases (ordinals held source).head? <;> rfl

theorem lookup_eq_retained_iff (h : Tracks ring held) {ordinal : ℕ} {bytes : List UInt8} :
    lookup ring source ordinal = .retained bytes ↔ ⟨source, ordinal, bytes⟩ ∈ held := by
  rw [← h.index]
  change _ ↔ ring.index (source, ordinal) = some bytes
  rw [lookup]
  cases hseen : ring.seen source with
  | none =>
    refine ⟨fun hlookup => (by cases hlookup), fun hindex => ?_⟩
    exact absurd hseen (h.seen _ ((h.index ⟨source, ordinal, bytes⟩).mp hindex))
  | some seen =>
    dsimp only
    cases ring.index (source, ordinal) with
    | some found => simp
    | none =>
      cases seen.retained.head? with
      | none => simp
      | some oldest =>
        dsimp only
        split <;> simp

/-- The longest suffix of some frames whose total size is within a budget. -/
structure LongestSuffix (budget : ℕ) (frames kept : List Held) : Prop where
  isSuffix : kept <:+ frames
  fits : total Held.size kept ≤ budget
  longest : ∀ other, other <:+ frames → total Held.size other ≤ budget → other <:+ kept

/-- The ring returns the frames of the longest suffix of the acceptable ones that fits the budget,
each with its own bytes. Another ordinal up to the newest offered is evicted, a later one not seen,
and a source without frames not retained. -/
theorem ring_returns_longest_suffix (budget : ℕ) (offers : List Held) (hinc : Increasing offers) :
    ∃ kept, LongestSuffix budget (accepted budget offers) kept
      ∧ ∀ source ordinal,
        (∀ bytes, lookup (run budget offers) source ordinal = .retained bytes
          ↔ ⟨source, ordinal, bytes⟩ ∈ kept)
        ∧ (ordinal ∉ Offered kept source →
            ∀ oldest newest, IsLeast (Offered kept source) oldest →
              IsGreatest (Offered offers source) newest →
              lookup (run budget offers) source ordinal
                = if ordinal ≤ newest then .evicted oldest else .notSeen newest)
        ∧ (Offered kept source = ∅ → lookup (run budget offers) source ordinal = .notRetained) := by
  obtain ⟨htracks, -, hnoticed⟩ := run_spec budget hinc
  refine ⟨fitting Held.size budget (accepted budget offers),
    ⟨fitting_isSuffix _, total_fitting _, fun other => isSuffix_fitting⟩, fun source ordinal => ?_⟩
  have hsub : (fitting Held.size budget (accepted budget offers)).Sublist offers :=
    (fitting_isSuffix _).sublist.trans filter_sublist
  generalize fitting Held.size budget (accepted budget offers) = kept at htracks hsub ⊢
  refine ⟨fun bytes => lookup_eq_retained_iff htracks, ?_, ?_⟩
  · intro hnot oldest newestOffered holdest hnewest
    obtain ⟨f, hf, rfl, -⟩ := holdest.1
    obtain ⟨seen, hseen⟩ := ne_none_iff_exists'.mp (htracks.seen f hf)
    have hgreatest : IsGreatest (Offered offers f.source) seen.newestSeen :=
      (hnoticed f.source).2 _ (by rw [newest, hseen]; rfl)
    have hmem := mem_ordinals.mpr holdest.1
    rw [lookup_of_not_held htracks hnot hseen, hgreatest.unique hnewest]
    cases hhead : (ordinals kept f.source).head? with
    | none =>
      rw [List.head?_eq_none_iff.mp hhead] at hmem
      cases hmem
    | some first =>
      rw [(isLeast_ordinals (hinc.sublist hsub) hhead).unique holdest, elim_some]
      by_cases hle : ordinal ≤ newestOffered
      · rw [if_pos hle, if_neg (Nat.not_lt.mpr hle)]
      · rw [if_neg hle, if_pos (Nat.not_le.mp hle)]
  · intro hnone
    have hordinals : ordinals kept source = [] := by
      rw [eq_nil_iff_forall_not_mem]
      intro o ho
      have hmem := mem_ordinals.mp ho
      rw [hnone] at hmem
      exact hmem
    cases hseen : (run budget offers).seen source with
    | none => rw [lookup, hseen]
    | some seen =>
      rw [lookup_of_not_held htracks (by rw [hnone]; exact Set.notMem_empty _) hseen, hordinals]
      rfl

/-- A jumbo frame passes by, and the third frame pushes the first one out. -/
def threeOffers : List Held :=
  [⟨"eth0", 1, [1, 2]⟩, ⟨"eth0", 2, [1, 2, 3, 4, 5]⟩, ⟨"hep", 1, [3]⟩, ⟨"eth0", 3, [4, 5]⟩]

theorem threeOffers_returns_longest_suffix :
    (∃ kept, LongestSuffix 4 (accepted 4 threeOffers) kept
      ∧ ∀ bytes, lookup (run 4 threeOffers) "eth0" 3 = .retained bytes ↔ ⟨"eth0", 3, bytes⟩ ∈ kept)
      ∧ lookup (run 4 threeOffers) "eth0" 3 = .retained [4, 5]
      ∧ lookup (run 4 threeOffers) "eth0" 2 = .evicted 3 := by
  refine ⟨?_, by decide, by decide⟩
  obtain ⟨kept, hkept, hlookup⟩ := ring_returns_longest_suffix 4 threeOffers
    (by simp [threeOffers, Increasing])
  exact ⟨kept, hkept, (hlookup "eth0" 3).1⟩

end Sipnab.Evidence
