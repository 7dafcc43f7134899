import Sipnab.Lib.OrderedMap

/-!
# Call volume over time

Dialog starts are counted in intervals of one width, aligned to the epoch, from the first occupied
interval to the last. A span that needs too many intervals is refused, with a width that fits. The
start of an interval is handed out as a date, and a date that the library cannot represent becomes
the epoch: this happens to the first interval when it begins before the earliest date.
-/

namespace Sipnab.TimelineBuckets

open List OrderedMap

/-! ## Dates -/

/-- The seconds of the earliest and of the latest date of the library. -/
def minTimestamp : ℤ := -8334601228800

def maxTimestamp : ℤ := 8210266876799

/-- A date, by its seconds since the epoch. The part below a second is not looked at. -/
structure DateTime where
  timestamp : ℤ
  min_le : minTimestamp ≤ timestamp
  le_max : timestamp ≤ maxTimestamp

def epoch : DateTime := ⟨0, by decide, by decide⟩

def fromTimestamp (secs : ℤ) : Option DateTime :=
  if h : minTimestamp ≤ secs ∧ secs ≤ maxTimestamp then some ⟨secs, h.1, h.2⟩ else none

/-! ## The histogram -/

def maxTimelineBuckets : ℕ := 100000

structure TimelineTooWide where
  bucketSeconds : ℕ
  intervals : ℕ
  fittingSeconds : ℕ

def i64Max : ℤ := 2 ^ 63 - 1

def i64Min : ℤ := -2 ^ 63

def u64OrMax (n : ℤ) : ℕ := if 0 ≤ n ∧ n < 2 ^ 64 then n.toNat else 2 ^ 64 - 1

def divCeil (a b : ℕ) : ℕ := (a + b - 1) / b

def saturatingMul (a b : ℤ) : ℤ := max i64Min (min i64Max (a * b))

structure Tally where
  counts : OrderedMap ℤ ℕ
  earliest : ℤ
  latest : ℤ

def Tally.note (width : ℤ) (tally : Tally) (instant : DateTime) : Tally :=
  let secs := instant.timestamp
  { earliest := min tally.earliest secs
    latest := max tally.latest secs
    counts := tally.counts.insert (secs / width) ((tally.counts.get? (secs / width)).getD 0 + 1) }

def clampedWidth (widthSeconds : ℕ) : ℤ := max (min (widthSeconds : ℤ) i64Max) 1

def tally (width : ℤ) (instants : List DateTime) : Tally :=
  instants.foldl (Tally.note width) ⟨.empty, i64Max, i64Min⟩

def bucketByStart (instants : List DateTime) (widthSeconds : ℕ) :
    Except TimelineTooWide (List (DateTime × ℕ)) :=
  let width := clampedWidth widthSeconds
  let t := tally width instants
  match t.counts.keys.head?, t.counts.keys.getLast? with
  | some first, some last =>
    let intervals := u64OrMax (last - first + 1)
    if maxTimelineBuckets < intervals then
      let span := u64OrMax (t.latest - t.earliest)
      .error
        { bucketSeconds := widthSeconds
          intervals := intervals
          fittingSeconds := max (divCeil span (maxTimelineBuckets - 1)) 1 }
    else
      .ok ((List.range (last - first + 1).toNat).map (fun i : ℕ =>
        let b := first + i
        ((fromTimestamp (saturatingMul b width)).getD epoch, (t.counts.get? b).getD 0)))
  | _, _ => .ok []

/-! ## What is to be returned -/

/-- Two of the instants are so many intervals apart that the histogram would be too long. -/
def TooMany (instants : List DateTime) (widthSeconds : ℕ) : Prop :=
  ∃ a ∈ instants, ∃ b ∈ instants,
    (maxTimelineBuckets : ℤ) ≤ b.timestamp / widthSeconds - a.timestamp / widthSeconds

/-- How many instants lie in the interval that starts at a date. -/
def countIn (instants : List DateTime) (widthSeconds : ℕ) (start : DateTime) : ℕ :=
  instants.countP (fun t => start.timestamp ≤ t.timestamp ∧
    t.timestamp < start.timestamp + widthSeconds)

/-- Intervals of one width end to end, each with the instants that lie in it, and no instant left
out. -/
structure Histogram (instants : List DateTime) (widthSeconds : ℕ)
    (buckets : List (DateTime × ℕ)) : Prop where
  contiguous : buckets.IsChain (fun a b => b.1.timestamp = a.1.timestamp + (widthSeconds : ℤ))
  counted : ∀ bucket ∈ buckets, bucket.2 = countIn instants widthSeconds bucket.1
  total : (buckets.map Prod.snd).sum = instants.length

/-- The histogram is refused exactly when it is too long, with a width from which on every one is
accepted, and is right otherwise. -/
structure Right (instants : List DateTime) (widthSeconds : ℕ) : Prop where
  refused : ∀ e, bucketByStart instants widthSeconds = .error e → TooMany instants widthSeconds ∧
    0 < e.fittingSeconds ∧
    ∀ w, e.fittingSeconds ≤ w → ∃ buckets, bucketByStart instants w = .ok buckets
  accepted : ∀ buckets, bucketByStart instants widthSeconds = .ok buckets →
    ¬ TooMany instants widthSeconds ∧ Histogram instants widthSeconds buckets

/-! ## The tally -/

section Tally

variable {width : ℤ} {instants : List DateTime}

def countAt (width : ℤ) (instants : List DateTime) (b : ℤ) : ℕ :=
  instants.countP (fun t => t.timestamp / width = b)

theorem tally_concat (width : ℤ) (instants : List DateTime) (t : DateTime) :
    tally width (instants ++ [t]) = (tally width instants).note width t :=
  foldl_concat _ _ _ _

theorem getD_tally (width : ℤ) (instants : List DateTime) (b : ℤ) :
    ((tally width instants).counts.get? b).getD 0 = countAt width instants b := by
  induction instants using List.reverseRecOn with
  | nil => rfl
  | append_singleton instants t ih =>
    rw [tally_concat, Tally.note, get?_insert, countAt, countP_append, countP_singleton]
    by_cases h : b = t.timestamp / width
    · subst h
      simp [ih, countAt]
    · have hne : ¬ t.timestamp / width = b := fun heq => h heq.symm
      simp [h, hne, ih, countAt]

theorem mem_keys_tally {b : ℤ} :
    b ∈ (tally width instants).counts.keys ↔ ∃ t ∈ instants, t.timestamp / width = b := by
  induction instants using List.reverseRecOn with
  | nil => simp [tally, OrderedMap.keys, OrderedMap.empty]
  | append_singleton instants t ih =>
    rw [mem_keys_iff] at ih ⊢
    rw [tally_concat, Tally.note, get?_insert]
    by_cases h : b = t.timestamp / width
    · simp [h]
    · have hne : ¬ t.timestamp / width = b := fun heq => h heq.symm
      simp [h, hne, ih]

theorem bounds_tally (width : ℤ) {t : DateTime} (h : t ∈ instants) :
    (tally width instants).earliest ≤ t.timestamp
      ∧ t.timestamp ≤ (tally width instants).latest := by
  induction instants using List.reverseRecOn with
  | nil => cases h
  | append_singleton instants last ih =>
    rw [tally_concat]
    rcases mem_append.mp h with h | h
    · exact ⟨(min_le_left _ _).trans (ih h).1, (ih h).2.trans (le_max_left _ _)⟩
    · rw [mem_singleton.mp h]
      exact ⟨min_le_right _ _, le_max_right _ _⟩

theorem sub_le_span {a b : DateTime} (ha : a ∈ instants) (hb : b ∈ instants) :
    b.timestamp - a.timestamp
      ≤ u64OrMax ((tally width instants).latest - (tally width instants).earliest) := by
  have hmin := a.min_le
  have hmax := b.le_max
  obtain ⟨hearliest, -⟩ := bounds_tally width ha
  obtain ⟨-, hlatest⟩ := bounds_tally width hb
  rw [minTimestamp] at hmin
  rw [maxTimestamp] at hmax
  unfold u64OrMax
  split_ifs <;> omega

end Tally

/-! ## Widths -/

section Widths

variable {widthSeconds : ℕ}

theorem clampedWidth_pos (widthSeconds : ℕ) : 0 < clampedWidth widthSeconds :=
  lt_of_lt_of_le one_pos (le_max_right _ _)

theorem clampedWidth_eq (hwidth : 0 < widthSeconds) :
    clampedWidth widthSeconds = widthSeconds
      ∨ i64Max ≤ widthSeconds ∧ clampedWidth widthSeconds = i64Max := by
  unfold clampedWidth i64Max
  omega

theorem ediv_of_wide {w : ℤ} (hw : i64Max ≤ w) (t : DateTime) :
    t.timestamp / w = if t.timestamp < 0 then -1 else 0 := by
  have hmin := t.min_le
  have hmax := t.le_max
  rw [minTimestamp] at hmin
  rw [maxTimestamp] at hmax
  rw [i64Max] at hw
  have hpos : 0 < w := by omega
  split_ifs with hneg
  · have hlt : t.timestamp / w < 0 := Int.ediv_neg_of_neg_of_pos hneg hpos
    have hge : -1 ≤ t.timestamp / w := (Int.le_ediv_iff_mul_le hpos).mpr (by omega)
    omega
  · exact Int.ediv_eq_zero_of_lt (by omega) (by omega)

theorem ediv_clampedWidth (hwidth : 0 < widthSeconds) (t : DateTime) :
    t.timestamp / clampedWidth widthSeconds = t.timestamp / widthSeconds := by
  rcases clampedWidth_eq hwidth with heq | ⟨hwide, heq⟩
  · rw [heq]
  · rw [heq, ediv_of_wide le_rfl, ediv_of_wide hwide]

theorem ediv_bounds {w : ℤ} (hw : 0 < w) (t : DateTime) :
    minTimestamp ≤ t.timestamp / w ∧ t.timestamp / w ≤ maxTimestamp := by
  have hmin := t.min_le
  have hmax := t.le_max
  refine ⟨(Int.le_ediv_iff_mul_le hw).mpr ?_, Int.ediv_le_of_le_mul hw ?_⟩
  · unfold minTimestamp at hmin ⊢
    nlinarith
  · unfold maxTimestamp at hmax ⊢
    nlinarith

theorem ediv_sub_ediv_le {w a b k : ℤ} (hw : 0 < w) (h : b - a ≤ w * k) : b / w - a / w ≤ k := by
  have hle : b / w ≤ (a + w * k) / w := Int.ediv_le_ediv hw (by omega)
  rw [Int.add_mul_ediv_left a k hw.ne'] at hle
  omega

end Widths

/-! ## The intervals -/

section Intervals

variable {widthSeconds : ℕ} {instants : List DateTime}

def startOf (widthSeconds : ℕ) (b : ℤ) : DateTime :=
  (fromTimestamp (saturatingMul b (clampedWidth widthSeconds))).getD epoch

def bucketsFrom (instants : List DateTime) (widthSeconds : ℕ) (first last : ℤ) :
    List (DateTime × ℕ) :=
  (List.range (last - first + 1).toNat).map (fun i : ℕ => (startOf widthSeconds (first + i),
    countAt (clampedWidth widthSeconds) instants (first + i)))

structure Ends (instants : List DateTime) (widthSeconds : ℕ) (first last : ℤ) : Prop where
  first_mem : ∃ t ∈ instants, t.timestamp / widthSeconds = first
  last_mem : ∃ t ∈ instants, t.timestamp / widthSeconds = last
  between : ∀ t ∈ instants, first ≤ t.timestamp / widthSeconds ∧ t.timestamp / widthSeconds ≤ last

theorem bucketByStart_nil (widthSeconds : ℕ) : bucketByStart [] widthSeconds = .ok [] := rfl

theorem le_divCeil_mul {a b : ℕ} (hb : 0 < b) : a ≤ divCeil a b * b := by
  have hdiv := Nat.div_add_mod (a + b - 1) b
  have hmod := Nat.mod_lt (a + b - 1) hb
  rw [divCeil, Nat.mul_comm]
  omega

theorem span_le_fitting (span : ℕ) :
    (span : ℤ) ≤ (max (divCeil span (maxTimelineBuckets - 1)) 1 : ℕ) * (maxTimelineBuckets - 1) := by
  have hceil : span ≤ divCeil span (maxTimelineBuckets - 1) * (maxTimelineBuckets - 1) :=
    le_divCeil_mul (by decide)
  have hmax := Nat.mul_le_mul_right (maxTimelineBuckets - 1)
    (le_max_left (divCeil span (maxTimelineBuckets - 1)) 1)
  have hcast : ((maxTimelineBuckets - 1 : ℕ) : ℤ) = maxTimelineBuckets - 1 := by decide
  rw [← hcast]
  exact_mod_cast hceil.trans hmax

theorem exists_head?_getLast? (hwidth : 0 < widthSeconds) (hne : instants ≠ []) :
    ∃ first last, (tally (clampedWidth widthSeconds) instants).counts.keys.head? = some first
      ∧ (tally (clampedWidth widthSeconds) instants).counts.keys.getLast? = some last
      ∧ Ends instants widthSeconds first last := by
  have hmem : ∀ b, b ∈ (tally (clampedWidth widthSeconds) instants).counts.keys
      ↔ ∃ t ∈ instants, t.timestamp / widthSeconds = b := by
    intro b
    simp only [mem_keys_tally, ediv_clampedWidth hwidth]
  generalize hkeys : (tally (clampedWidth widthSeconds) instants).counts = counts at hmem ⊢
  have hkeysne : counts.keys ≠ [] := by
    obtain ⟨t, ts, rfl⟩ := exists_cons_of_ne_nil hne
    exact ne_nil_of_mem ((hmem _).mpr ⟨t, mem_cons_self, rfl⟩)
  have hhead := List.head?_eq_some_head hkeysne
  have hlast := List.getLast?_eq_some_getLast hkeysne
  refine ⟨_, _, hhead, hlast, (hmem _).mp (head?_keys hhead).1,
    (hmem _).mp (getLast?_keys hlast).1, fun t ht => ?_⟩
  have hkey := (hmem _).mpr ⟨t, ht, rfl⟩
  exact ⟨(head?_keys hhead).2 _ hkey, (getLast?_keys hlast).2 _ hkey⟩

theorem Ends.bounds {first last : ℤ} (h : Ends instants widthSeconds first last)
    (hwidth : 0 < widthSeconds) :
    minTimestamp ≤ first ∧ first ≤ last ∧ last ≤ maxTimestamp := by
  obtain ⟨a, ha, rfl⟩ := h.first_mem
  obtain ⟨b, -, rfl⟩ := h.last_mem
  have hpos : (0 : ℤ) < widthSeconds := by exact_mod_cast hwidth
  exact ⟨(ediv_bounds hpos a).1, (h.between a ha).2, (ediv_bounds hpos b).2⟩

theorem exists_ends (hwidth : 0 < widthSeconds) (hne : instants ≠ []) :
    ∃ first last, Ends instants widthSeconds first last
      ∧ ((maxTimelineBuckets : ℤ) ≤ last - first ∧ (∃ e,
            bucketByStart instants widthSeconds = .error e
            ∧ 0 < e.fittingSeconds ∧ ∀ a ∈ instants, ∀ b ∈ instants,
              b.timestamp - a.timestamp ≤ e.fittingSeconds * (maxTimelineBuckets - 1))
        ∨ last - first < maxTimelineBuckets
          ∧ bucketByStart instants widthSeconds
            = .ok (bucketsFrom instants widthSeconds first last)) := by
  obtain ⟨first, last, hhead, hlast, hends⟩ := exists_head?_getLast? hwidth hne
  obtain ⟨hfirst, hle, hmax⟩ := hends.bounds hwidth
  have hintervals : u64OrMax (last - first + 1) = (last - first + 1).toNat := by
    unfold minTimestamp at hfirst
    unfold maxTimestamp at hmax
    exact if_pos ⟨by omega, by omega⟩
  refine ⟨first, last, hends, ?_⟩
  unfold bucketByStart
  dsimp only
  rw [hhead, hlast]
  dsimp only
  rw [hintervals]
  by_cases hmany : maxTimelineBuckets < (last - first + 1).toNat
  · rw [if_pos hmany]
    refine .inl ⟨by omega, _, rfl, lt_max_of_lt_right one_pos, fun a ha b hb => ?_⟩
    exact (sub_le_span ha hb).trans (span_le_fitting _)
  · rw [if_neg hmany]
    refine .inr ⟨by omega, ?_⟩
    unfold bucketsFrom
    simp only [getD_tally]
    rfl

theorem Ends.tooMany_iff {first last : ℤ} (h : Ends instants widthSeconds first last) :
    TooMany instants widthSeconds ↔ (maxTimelineBuckets : ℤ) ≤ last - first := by
  constructor
  · rintro ⟨a, ha, b, hb, hmany⟩
    have hfirst := (h.between a ha).1
    have hlast := (h.between b hb).2
    omega
  · intro hmany
    obtain ⟨a, ha, rfl⟩ := h.first_mem
    obtain ⟨b, hb, rfl⟩ := h.last_mem
    exact ⟨a, ha, b, hb, hmany⟩

theorem accepted_iff (hwidth : 0 < widthSeconds) :
    (∃ buckets, bucketByStart instants widthSeconds = .ok buckets)
      ↔ ¬ TooMany instants widthSeconds := by
  by_cases hne : instants = []
  · subst hne
    simp [bucketByStart_nil, TooMany]
  · obtain ⟨first, last, hends, hcase⟩ := exists_ends hwidth hne
    rw [hends.tooMany_iff]
    rcases hcase with ⟨hmany, e, he, -⟩ | ⟨hfew, hok⟩
    · rw [he]
      simp [hmany]
    · rw [hok]
      simp [hfew]

theorem not_tooMany_of_fitting {fitting w : ℕ} (hpos : 0 < fitting) (hle : fitting ≤ w)
    (h : ∀ a ∈ instants, ∀ b ∈ instants,
      b.timestamp - a.timestamp ≤ fitting * (maxTimelineBuckets - 1)) :
    ¬ TooMany instants w := by
  rintro ⟨a, ha, b, hb, hmany⟩
  have hw : (0 : ℤ) < w := by exact_mod_cast hpos.trans_le hle
  have hcast : (fitting : ℤ) ≤ w := by exact_mod_cast hle
  have hmax : (0 : ℤ) ≤ maxTimelineBuckets - 1 := by decide
  have hsteps := ediv_sub_ediv_le hw ((h a ha b hb).trans (mul_le_mul_of_nonneg_right hcast hmax))
  omega

theorem refused_right (hwidth : 0 < widthSeconds) {e : TimelineTooWide}
    (he : bucketByStart instants widthSeconds = .error e) :
    TooMany instants widthSeconds ∧ 0 < e.fittingSeconds ∧
      ∀ w, e.fittingSeconds ≤ w → ∃ buckets, bucketByStart instants w = .ok buckets := by
  have hne : instants ≠ [] := by
    rintro rfl
    rw [bucketByStart_nil] at he
    cases he
  obtain ⟨first, last, hends, ⟨hmany, e', he', hpos, hspan⟩ | ⟨hfew, hok⟩⟩ := exists_ends hwidth hne
  · obtain rfl := Except.error.inj (he.symm.trans he')
    refine ⟨hends.tooMany_iff.mpr hmany, hpos, fun w hw => ?_⟩
    exact (accepted_iff (hpos.trans_le hw)).mpr (not_tooMany_of_fitting hpos hw hspan)
  · rw [hok] at he
    cases he

/-! ## The starts -/

theorem timestamp_startOf {b : ℤ} (hmin : minTimestamp ≤ b * clampedWidth widthSeconds)
    (hmax : b * clampedWidth widthSeconds ≤ maxTimestamp) :
    (startOf widthSeconds b).timestamp = b * clampedWidth widthSeconds := by
  have hword : saturatingMul b (clampedWidth widthSeconds) = b * clampedWidth widthSeconds := by
    unfold saturatingMul i64Min i64Max
    unfold minTimestamp at hmin
    unfold maxTimestamp at hmax
    omega
  rw [startOf, hword, fromTimestamp, dif_pos ⟨hmin, hmax⟩]
  rfl

theorem timestamp_startOf_of_lt {b : ℤ} (hmin : b * clampedWidth widthSeconds < minTimestamp) :
    (startOf widthSeconds b).timestamp = 0 := by
  have hword : saturatingMul b (clampedWidth widthSeconds) < minTimestamp := by
    unfold saturatingMul i64Min i64Max
    unfold minTimestamp at hmin ⊢
    omega
  rw [startOf, fromTimestamp, dif_neg (fun h => absurd h.1 (not_le.mpr hword))]
  rfl

def StartsAtDates (instants : List DateTime) (widthSeconds : ℕ) : Prop :=
  ∀ t ∈ instants, minTimestamp ≤ t.timestamp / widthSeconds * widthSeconds

theorem mul_le_timestamp {w : ℤ} (hw : 0 < w) (t : DateTime) : t.timestamp / w * w ≤ t.timestamp :=
  Int.ediv_mul_le _ hw.ne'

variable {first last : ℤ}

/-- Below the machine word the width is the one asked for. Beyond it a start that is a date is the
epoch. -/
theorem Ends.mul_clampedWidth (h : Ends instants widthSeconds first last)
    (hwidth : 0 < widthSeconds) (hdates : StartsAtDates instants widthSeconds) {b : ℤ}
    (hfirst : first ≤ b) (hlast : b ≤ last) :
    b * clampedWidth widthSeconds = b * widthSeconds := by
  rcases clampedWidth_eq hwidth with heq | ⟨hwide, -⟩
  · rw [heq]
  · obtain ⟨t, ht, hfirst'⟩ := h.first_mem
    obtain ⟨u, -, hlast'⟩ := h.last_mem
    have hstart := hdates t ht
    rw [ediv_of_wide hwide] at hfirst' hlast' hstart
    unfold i64Max at hwide
    unfold minTimestamp at hstart
    have hzero : b = 0 := by
      split_ifs at hfirst' hlast' hstart <;> omega
    rw [hzero, zero_mul, zero_mul]

theorem Ends.timestamp_startOf (h : Ends instants widthSeconds first last)
    (hwidth : 0 < widthSeconds) (hdates : StartsAtDates instants widthSeconds) {b : ℤ}
    (hfirst : first ≤ b) (hlast : b ≤ last) :
    (startOf widthSeconds b).timestamp = b * widthSeconds := by
  have hpos : (0 : ℤ) < widthSeconds := by exact_mod_cast hwidth
  have hmul := h.mul_clampedWidth hwidth hdates hfirst hlast
  rw [TimelineBuckets.timestamp_startOf, hmul]
  · obtain ⟨t, ht, hstart⟩ := h.first_mem
    rw [hmul]
    refine (hdates t ht).trans ?_
    rw [hstart]
    exact mul_le_mul_of_nonneg_right hfirst hpos.le
  · obtain ⟨t, -, hstart⟩ := h.last_mem
    rw [hmul]
    calc b * (widthSeconds : ℤ) ≤ last * widthSeconds := mul_le_mul_of_nonneg_right hlast hpos.le
      _ ≤ t.timestamp := by rw [← hstart]; exact mul_le_timestamp hpos t
      _ ≤ maxTimestamp := t.le_max

theorem countAt_eq_countIn (hwidth : 0 < widthSeconds) {b : ℤ}
    (hstart : (startOf widthSeconds b).timestamp = b * widthSeconds) :
    countAt (clampedWidth widthSeconds) instants b
      = countIn instants widthSeconds (startOf widthSeconds b) := by
  have hpos : (0 : ℤ) < widthSeconds := by exact_mod_cast hwidth
  unfold countAt countIn
  refine countP_congr (fun t _ => ?_)
  rw [decide_eq_true_eq, decide_eq_true_eq, ediv_clampedWidth hwidth, hstart]
  exact Int.ediv_eq_iff_of_pos hpos

theorem sum_indicator {n k : ℕ} (hk : k < n) (f : ℕ → ℕ) :
    ((List.range n).map (fun i => f i + if k = i then 1 else 0)).sum
      = ((List.range n).map f).sum + 1 := by
  have hone : ∑ i ∈ Finset.range n, (if k = i then 1 else 0) = 1 := by simp [hk]
  have hsum : ∑ i ∈ Finset.range n, (f i + if k = i then 1 else 0)
      = ∑ i ∈ Finset.range n, f i + 1 := by
    rw [Finset.sum_add_distrib, hone]
  exact hsum

theorem sum_countAt {w : ℤ} (hbetween : ∀ t ∈ instants, first ≤ t.timestamp / w
    ∧ t.timestamp / w ≤ last) :
    ((List.range (last - first + 1).toNat).map (fun i : ℕ => countAt w instants (first + i))).sum
      = instants.length := by
  induction instants with
  | nil => simp [countAt]
  | cons t instants ih =>
    obtain ⟨hlow, hhigh⟩ := hbetween t mem_cons_self
    have hcons : (fun i : ℕ => countAt w (t :: instants) (first + i))
        = fun i : ℕ => countAt w instants (first + i)
          + if (t.timestamp / w - first).toNat = i then 1 else 0 := by
      funext i
      have hiff : t.timestamp / w = first + i ↔ (t.timestamp / w - first).toNat = i := by omega
      rw [countAt, countP_cons, ← countAt]
      simp only [decide_eq_true_eq, hiff]
    rw [hcons, sum_indicator (by omega), ih (fun u hu => hbetween u (mem_cons_of_mem _ hu)),
      length_cons]

theorem Ends.histogram (h : Ends instants widthSeconds first last) (hwidth : 0 < widthSeconds)
    (hdates : StartsAtDates instants widthSeconds) :
    Histogram instants widthSeconds (bucketsFrom instants widthSeconds first last) := by
  have hstart : ∀ i : ℕ, i < (last - first + 1).toNat →
      (startOf widthSeconds (first + i)).timestamp = (first + i) * widthSeconds :=
    fun i hi => h.timestamp_startOf hwidth hdates (by omega) (by omega)
  refine ⟨?_, fun bucket hbucket => ?_, ?_⟩
  · rw [bucketsFrom, isChain_map, isChain_iff_getElem]
    intro i hi
    rw [length_range] at hi
    simp only [getElem_range]
    rw [hstart i (by omega), hstart (i + 1) (by omega)]
    push_cast
    ring
  · obtain ⟨i, hi, rfl⟩ := List.mem_map.mp hbucket
    exact countAt_eq_countIn hwidth (hstart i (mem_range.mp hi))
  · rw [bucketsFrom, List.map_map]
    refine sum_countAt (fun t ht => ?_)
    rw [ediv_clampedWidth hwidth]
    exact h.between t ht

theorem bucketsFrom_cons (hle : first ≤ last) :
    bucketsFrom instants widthSeconds first last = (startOf widthSeconds first,
      countAt (clampedWidth widthSeconds) instants first)
        :: bucketsFrom instants widthSeconds (first + 1) last := by
  have hlength : (last - first + 1).toNat = (last - (first + 1) + 1).toNat + 1 := by omega
  rw [bucketsFrom, hlength, range_succ_eq_map, map_cons, List.map_map, Nat.cast_zero, add_zero]
  refine congrArg _ (map_congr_left (fun i _ => ?_))
  have hnext : first + ((i + 1 : ℕ) : ℤ) = first + 1 + i := by
    push_cast
    ring
  rw [Function.comp_apply, Nat.succ_eq_add_one, hnext]

/-- The second interval starts at a date that is not past the epoch, if the first one is before it. -/
theorem Ends.startOf_second (h : Ends instants widthSeconds first last) (hwidth : 0 < widthSeconds)
    (hneg : first < 0) : (startOf widthSeconds (first + 1)).timestamp ≤ 0 := by
  have hpos := clampedWidth_pos widthSeconds
  obtain ⟨t, -, ht⟩ := h.first_mem
  rw [← ediv_clampedWidth hwidth] at ht
  obtain ⟨-, hlt⟩ := (Int.ediv_eq_iff_of_pos hpos).mp ht
  have hle : (first + 1) * clampedWidth widthSeconds ≤ 0 :=
    mul_nonpos_of_nonpos_of_nonneg (by omega) hpos.le
  rw [TimelineBuckets.timestamp_startOf]
  · exact hle
  · have hmin := t.min_le
    rw [add_mul, one_mul]
    omega
  · exact hle.trans (by decide)

/-- A first interval before every date is handed out as one at the epoch, which is not where its
instants are. -/
theorem Ends.startsAtDates (h : Ends instants widthSeconds first last) (hwidth : 0 < widthSeconds)
    (hhist : Histogram instants widthSeconds (bucketsFrom instants widthSeconds first last)) :
    StartsAtDates instants widthSeconds := by
  have hpos : (0 : ℤ) < widthSeconds := by exact_mod_cast hwidth
  have hle := (h.bounds hwidth).2.1
  by_contra hnot
  -- the first interval is before every date, if any is
  have hbefore : first * widthSeconds < minTimestamp := by
    unfold StartsAtDates at hnot
    push Not at hnot
    obtain ⟨t, ht, hlt⟩ := hnot
    exact (mul_le_mul_of_nonneg_right (h.between t ht).1 hpos.le).trans_lt hlt
  have hneg : first < 0 := by
    unfold minTimestamp at hbefore
    nlinarith
  have hzero : (startOf widthSeconds first).timestamp = 0 := by
    apply timestamp_startOf_of_lt
    rcases clampedWidth_eq hwidth with heq | ⟨-, heq⟩
    · rw [heq]
      exact hbefore
    · rw [heq]
      unfold i64Max minTimestamp
      omega
  rw [bucketsFrom_cons hle] at hhist
  rcases hle.eq_or_lt with hone | hlt
  · -- all instants are in the one interval, and none is at the epoch
    have hcount : 0 < countAt (clampedWidth widthSeconds) instants first := by
      obtain ⟨t, ht, hfirst⟩ := h.first_mem
      refine countP_pos_iff.mpr ⟨t, ht, ?_⟩
      rw [decide_eq_true_eq, ediv_clampedWidth hwidth, hfirst]
    have hcounted := hhist.counted _ mem_cons_self
    dsimp only at hcounted
    rw [hcounted, countIn, countP_pos_iff] at hcount
    obtain ⟨t, ht, hin⟩ := hcount
    rw [decide_eq_true_eq, hzero] at hin
    have hlast := (h.between t ht).2
    have hnonneg : 0 ≤ t.timestamp / widthSeconds := Int.ediv_nonneg hin.1 hpos.le
    omega
  · rw [bucketsFrom_cons (Int.add_one_le_of_lt hlt)] at hhist
    have hchain := hhist.contiguous
    rw [isChain_cons_cons] at hchain
    have hsecond := h.startOf_second hwidth hneg
    have hgap := hchain.1
    dsimp only at hgap
    omega

end Intervals

/-- The histogram of any instants is as described exactly when it is refused or every interval that
holds an instant starts at a date. -/
theorem right_iff (instants : List DateTime) (widthSeconds : ℕ) (hwidth : 0 < widthSeconds) :
    Right instants widthSeconds
      ↔ TooMany instants widthSeconds ∨ StartsAtDates instants widthSeconds := by
  constructor
  · intro hright
    by_cases hmany : TooMany instants widthSeconds
    · exact .inl hmany
    · refine .inr ?_
      by_cases hne : instants = []
      · rw [hne]
        exact fun t ht => absurd ht not_mem_nil
      · obtain ⟨first, last, hends, hcase⟩ := exists_ends hwidth hne
        rcases hcase with ⟨hlong, -⟩ | ⟨-, hok⟩
        · exact absurd (hends.tooMany_iff.mpr hlong) hmany
        · exact hends.startsAtDates hwidth (hright.accepted _ hok).2
  · intro hcond
    refine ⟨fun e he => refused_right hwidth he, fun buckets hok => ?_⟩
    have hfew := (accepted_iff hwidth).mp ⟨buckets, hok⟩
    have hdates := hcond.resolve_left hfew
    refine ⟨hfew, ?_⟩
    by_cases hne : instants = []
    · subst hne
      obtain rfl := Except.ok.inj hok
      exact ⟨.nil, fun bucket hbucket => absurd hbucket not_mem_nil, rfl⟩
    · obtain ⟨first, last, hends, ⟨hlong, -⟩ | ⟨-, hok'⟩⟩ := exists_ends hwidth hne
      · exact absurd (hends.tooMany_iff.mpr hlong) hfew
      · obtain rfl := Except.ok.inj (hok.symm.trans hok')
        exact hends.histogram hwidth hdates

def secondsAt (secs : ℤ) (h : minTimestamp ≤ secs ∧ secs ≤ maxTimestamp) : DateTime :=
  ⟨secs, h.1, h.2⟩

/-- Instants on both sides of the epoch, in minutes. -/
theorem right_around_epoch :
    Right [secondsAt 3 (by decide), secondsAt (-1) (by decide), secondsAt 70 (by decide)] 60 := by
  refine (right_iff _ 60 (by decide)).mpr (.inr ?_)
  intro t ht
  simp only [mem_cons, not_mem_nil, or_false] at ht
  rcases ht with rfl | rfl | rfl <;> decide

/-- A second before the epoch, in an interval that starts before every date: it is handed out as
counted from the epoch on. -/
theorem interval_before_dates_at_epoch :
    bucketByStart [secondsAt (-1) (by decide)] 10000000000000 = .ok [(epoch, 1)]
      ∧ ¬ Right [secondsAt (-1) (by decide)] 10000000000000 := by
  have hok : bucketByStart [secondsAt (-1) (by decide)] 10000000000000 = .ok [(epoch, 1)] := rfl
  refine ⟨hok, fun hright => ?_⟩
  have hcounted := (hright.accepted _ hok).2.counted (epoch, 1) mem_cons_self
  revert hcounted
  decide

end Sipnab.TimelineBuckets
