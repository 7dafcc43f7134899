import Sipnab.Capture.PcapReader

/-!
# Stripping the secrets of a pcapng file

The stripper walks a file by the lengths of its blocks and nothing else, in the byte order of each
section, and copies every block but the decryption secrets. A file it accepts is blocks one behind
the other with fewer than eight bytes left over, and taking blocks out of such a row leaves one.
-/

namespace Sipnab.Pcap

open List

def shbBytes : Bytes := [0x0A, 0x0D, 0x0D, 0x0A]

def dsbType : ℕ := 0x0000000A

structure BlockFrame where
  kind : ℕ
  bytes : Bytes
  deriving DecidableEq

structure BlockFrames where
  bytes : Bytes
  offset : ℕ
  bigEndian : Bool
  done : Bool

def byteOrderFromShb (magic : Bytes) : Option Bool :=
  if magic = [0x1A, 0x2B, 0x3C, 0x4D] then some true
  else if magic = [0x4D, 0x3C, 0x2B, 0x1A] then some false
  else none

namespace BlockFrames

def new (bytes : Bytes) : Except String BlockFrames :=
  if bytes.length < 12 ∨ bytes.take 4 ≠ shbBytes then
    .error "not a pcapng (missing Section Header Block)"
  else
    match byteOrderFromShb ((bytes.drop 8).take 4) with
    | none => .error "invalid SHB byte-order magic"
    | some bigEndian => .ok ⟨bytes, 0, bigEndian, false⟩

/-- The next block, or the offset of one whose length cannot be trusted. -/
def next (f : BlockFrames) : Option (Except ℕ BlockFrame) × BlockFrames :=
  if f.done ∨ f.bytes.length < f.offset + 8 then (none, f)
  else
    -- Another section header sets the order before its own length is read.
    let bigEndian :=
      if (f.bytes.drop f.offset).take 4 = shbBytes then
        ((getRange f.bytes (f.offset + 8) 4).bind byteOrderFromShb).getD f.bigEndian
      else f.bigEndian
    let kind := ofBytes bigEndian ((f.bytes.drop f.offset).take 4)
    let len := ofBytes bigEndian ((f.bytes.drop (f.offset + 4)).take 4)
    if len < 12 ∨ f.bytes.length < f.offset + len then
      (some (.error f.offset), { f with bigEndian := bigEndian, done := true })
    else
      (some (.ok ⟨kind, (f.bytes.drop f.offset).take len⟩),
        { f with bigEndian := bigEndian, offset := f.offset + len })

/-- The items of an iteration, with a bound on their number. -/
def collectIn : ℕ → BlockFrames → List (Except ℕ BlockFrame)
  | 0, _ => []
  | n + 1, f =>
    match f.next with
    | (none, _) => []
    | (some item, f') => item :: collectIn n f'

end BlockFrames

/-- The walk of a file. A block that is passed has bytes, so there are no more than bytes. -/
def blockWalk (bytes : Bytes) : Except String (List (Except ℕ BlockFrame)) :=
  (BlockFrames.new bytes).map (BlockFrames.collectIn (bytes.length + 1))

def stripFrames : List (Except ℕ BlockFrame) → Except String (Bytes × ℕ)
  | [] => .ok ([], 0)
  | .error _ :: _ => .error "truncated or invalid pcapng block length"
  | .ok frame :: items =>
    (stripFrames items).map (fun (kept, stripped) =>
      if frame.kind = dsbType then (kept, stripped + 1) else (frame.bytes ++ kept, stripped))

/-- The copy of a file without its decryption secrets, and how many there were. The file is one
that is not compressed, or what it inflates to. -/
def stripSecrets (maxBytes : ℕ) (bytes : Bytes) : Except String (Bytes × ℕ) :=
  if maxBytes < bytes.length then
    .error ("pcapng too large to process in memory: " ++ toString bytes.length ++ " bytes (cap " ++
      toString maxBytes ++ "); raise --max-metadata-file-bytes or [limits] " ++
      "max_metadata_file_bytes for a capture you trust")
  else (blockWalk bytes).bind stripFrames

/-! ### Blocks one behind the other -/

def field (bigEndian : Bool) (block : Bytes) (start : ℕ) : ℕ :=
  ofBytes bigEndian ((block.drop start).take 4)

/-- The byte order of a block: its own, for a section header that says one. -/
def orderOf (bigEndian : Bool) (block : Bytes) : Bool :=
  if block.take 4 = shbBytes then (byteOrderFromShb ((block.drop 8).take 4)).getD bigEndian
  else bigEndian

structure Framed (bigEndian : Bool) (frame : BlockFrame) : Prop where
  long : 12 ≤ frame.bytes.length
  kind : frame.kind = field (orderOf bigEndian frame.bytes) frame.bytes 0
  length : frame.bytes.length = field (orderOf bigEndian frame.bytes) frame.bytes 4

/-- Every block is framed in the byte order the blocks before it leave. -/
def AllFramed : Bool → List BlockFrame → Prop
  | _, [] => True
  | bigEndian, frame :: frames =>
    Framed bigEndian frame ∧ AllFramed (orderOf bigEndian frame.bytes) frames

def rowBytes (frames : List BlockFrame) : Bytes := frames.flatMap BlockFrame.bytes

variable {bytes tail : Bytes} {offset : ℕ} {bigEndian : Bool} {frame : BlockFrame}
  {frames : List BlockFrame}

@[simp] theorem rowBytes_cons : rowBytes (frame :: frames) = frame.bytes ++ rowBytes frames := rfl

theorem Framed.ne_nil (h : Framed bigEndian frame) : frame.bytes ≠ [] :=
  ne_nil_of_length_pos (by have := h.long; omega)

namespace BlockFrames

theorem next_of_framed (h : bytes.drop offset = frame.bytes ++ tail)
    (hframed : Framed bigEndian frame) :
    (⟨bytes, offset, bigEndian, false⟩ : BlockFrames).next =
      (some (.ok frame),
        ⟨bytes, offset + frame.bytes.length, orderOf bigEndian frame.bytes, false⟩) := by
  have hlong := hframed.long
  have htotal := length_of_drop h hframed.ne_nil
  have htype : (bytes.drop offset).take 4 = frame.bytes.take 4 :=
    take_drop_of_drop h (by omega : 0 + 4 ≤ _)
  have hlen : (bytes.drop (offset + 4)).take 4 = (frame.bytes.drop 4).take 4 :=
    take_drop_of_drop h (by omega)
  have hmagic : getRange bytes (offset + 8) 4 = some ((frame.bytes.drop 8).take 4) :=
    getRange_in_field h (by omega) hframed.ne_nil
  have hlength : ofBytes (orderOf bigEndian frame.bytes) ((frame.bytes.drop 4).take 4) =
      frame.bytes.length := hframed.length.symm
  have hkind : ofBytes (orderOf bigEndian frame.bytes) (frame.bytes.take 4) = frame.kind :=
    hframed.kind.symm
  have hblock : (bytes.drop offset).take frame.bytes.length = frame.bytes := by
    rw [h, take_left]
  have horder : (if frame.bytes.take 4 = shbBytes then
      (byteOrderFromShb ((frame.bytes.drop 8).take 4)).getD bigEndian else bigEndian) =
        orderOf bigEndian frame.bytes := rfl
  rw [next, if_neg (by simp; omega)]
  simp only [htype, hlen, hmagic, Option.bind_some, horder, hlength, hkind, hblock]
  rw [if_neg (by omega)]

theorem next_cases (bytes : Bytes) (offset : ℕ) (bigEndian : Bool) :
    (bytes.length < offset + 8 ∧ (⟨bytes, offset, bigEndian, false⟩ : BlockFrames).next.1 = none) ∨
    (∃ stop f, (⟨bytes, offset, bigEndian, false⟩ : BlockFrames).next = (some (.error stop), f)) ∨
    ∃ frame tail, bytes.drop offset = frame.bytes ++ tail ∧ Framed bigEndian frame := by
  by_cases hshort : bytes.length < offset + 8
  · exact .inl ⟨hshort, by simp [next, hshort]⟩
  let order :=
    if (bytes.drop offset).take 4 = shbBytes then
      ((getRange bytes (offset + 8) 4).bind byteOrderFromShb).getD bigEndian
    else bigEndian
  let len := ofBytes order ((bytes.drop (offset + 4)).take 4)
  by_cases hlen : len < 12 ∨ bytes.length < offset + len
  · refine .inr (.inl ⟨offset, ⟨bytes, offset, order, true⟩, ?_⟩)
    rw [next, if_neg (by simp; omega)]
    exact if_pos hlen
  · have hlength : ((bytes.drop offset).take len).length = len := by
      rw [length_take, length_drop]
      omega
    have hsplit : bytes.drop offset = (bytes.drop offset).take len ++ (bytes.drop offset).drop len :=
      (take_append_drop _ _).symm
    have hne : (bytes.drop offset).take len ≠ [] := ne_nil_of_length_pos (by omega)
    have htype : ((bytes.drop offset).take len).take 4 = (bytes.drop offset).take 4 :=
      (take_drop_of_drop hsplit (by omega : 0 + 4 ≤ _)).symm
    have hmagic : getRange bytes (offset + 8) 4 =
        some ((((bytes.drop offset).take len).drop 8).take 4) :=
      getRange_in_field hsplit (by omega) hne
    have horder : orderOf bigEndian ((bytes.drop offset).take len) = order := by
      rw [orderOf, htype]
      simp only [order, hmagic, Option.bind_some]
    refine .inr (.inr ⟨⟨field order ((bytes.drop offset).take len) 0, _⟩, _, hsplit, ?_⟩)
    refine ⟨by dsimp only; omega, by rw [horder], ?_⟩
    have hfield : (((bytes.drop offset).take len).drop 4).take 4 =
        (bytes.drop (offset + 4)).take 4 := (take_drop_of_drop hsplit (by omega)).symm
    rw [hlength, horder, field, hfield]

theorem collectIn_of_allFramed (frames : List BlockFrame) :
    ∀ {offset : ℕ} {bigEndian : Bool} {n : ℕ}, bytes.drop offset = rowBytes frames ++ tail →
      tail.length < 8 → AllFramed bigEndian frames → frames.length < n →
      collectIn n ⟨bytes, offset, bigEndian, false⟩ = frames.map .ok := by
  induction frames with
  | nil =>
    intro offset bigEndian n h htail _ hn
    obtain ⟨n, rfl⟩ := Nat.exists_eq_succ_of_ne_zero (Nat.ne_zero_of_lt hn)
    have hshort : bytes.length < offset + 8 := by
      have hlength := congrArg List.length h
      rw [length_drop, length_append, rowBytes, flatMap_nil, length_nil] at hlength
      omega
    rw [collectIn, next, if_pos (.inr hshort)]
    rfl
  | cons frame frames ih =>
    intro offset bigEndian n h htail hframed hn
    obtain ⟨n, rfl⟩ := Nat.exists_eq_succ_of_ne_zero (Nat.ne_zero_of_lt hn)
    rw [rowBytes_cons, append_assoc] at h
    rw [collectIn, next_of_framed h hframed.1]
    exact congrArg _ (ih (drop_field h rfl) htail hframed.2 (by simpa using hn))

theorem exists_allFramed_of_collectIn (n : ℕ) :
    ∀ {offset : ℕ} {bigEndian : Bool}, offset ≤ bytes.length → bytes.length < offset + n →
      (∀ item ∈ collectIn n ⟨bytes, offset, bigEndian, false⟩, ∃ frame, item = .ok frame) →
      ∃ frames tail, bytes.drop offset = rowBytes frames ++ tail ∧ tail.length < 8 ∧
        AllFramed bigEndian frames := by
  induction n with
  | zero =>
    intro offset bigEndian hwithin hn _
    omega
  | succ n ih =>
    intro offset bigEndian hwithin hn hok
    rcases next_cases bytes offset bigEndian with
      ⟨hshort, -⟩ | ⟨stop, f, hnext⟩ | ⟨frame, tail, hsplit, hframed⟩
    · exact ⟨[], bytes.drop offset, rfl, by rw [length_drop]; omega, trivial⟩
    · rw [collectIn, hnext] at hok
      obtain ⟨frame, hframe⟩ := hok _ mem_cons_self
      cases hframe
    · have hlong := hframed.long
      have htotal := length_of_drop hsplit hframed.ne_nil
      rw [collectIn, next_of_framed hsplit hframed] at hok
      obtain ⟨frames, tail', hrow, htail, hall⟩ := ih (by omega) (by omega)
        (fun item hitem => hok item (mem_cons_of_mem _ hitem))
      refine ⟨frame :: frames, tail', ?_, htail, hframed, hall⟩
      rw [rowBytes_cons, append_assoc, ← hrow, hsplit, drop_field hsplit rfl]

end BlockFrames

theorem AllFramed.length_le (frames : List BlockFrame) :
    ∀ {bigEndian : Bool}, AllFramed bigEndian frames →
      frames.length ≤ (rowBytes frames).length := by
  induction frames with
  | nil => simp
  | cons frame frames ih =>
    intro bigEndian h
    have hlong := h.1.long
    have hrest := ih h.2
    rw [rowBytes_cons, length_cons, length_append]
    omega

/-! ### Files -/

/-- A file as the walk sees it: a section header, more blocks, and too few bytes for another. -/
structure Row (bytes : Bytes) (first : BlockFrame) (frames : List BlockFrame) (tail : Bytes) :
    Prop where
  bytes_eq : bytes = rowBytes (first :: frames) ++ tail
  header : first.bytes.take 4 = shbBytes
  magic : (byteOrderFromShb ((first.bytes.drop 8).take 4)).isSome
  framed : AllFramed false (first :: frames)
  short : tail.length < 8

variable {first : BlockFrame} {maxBytes stripped : ℕ} {kept : Bytes}

theorem orderOf_header (hheader : first.bytes.take 4 = shbBytes)
    {order : Bool} (hmagic : byteOrderFromShb ((first.bytes.drop 8).take 4) = some order)
    (bigEndian : Bool) : orderOf bigEndian first.bytes = order := by
  rw [orderOf, if_pos hheader, hmagic, Option.getD_some]

theorem AllFramed.of_header (hheader : first.bytes.take 4 = shbBytes)
    (hmagic : (byteOrderFromShb ((first.bytes.drop 8).take 4)).isSome) {a b : Bool}
    (h : AllFramed a (first :: frames)) : AllFramed b (first :: frames) := by
  obtain ⟨order, horder⟩ := Option.isSome_iff_exists.1 hmagic
  have ha := orderOf_header hheader horder a
  have hb := orderOf_header hheader horder b
  obtain ⟨hframed, hall⟩ := h
  refine ⟨⟨hframed.long, ?_, ?_⟩, ?_⟩
  · rw [hb, ← ha]
    exact hframed.kind
  · rw [hb, ← ha]
    exact hframed.length
  · rwa [hb, ← ha]

theorem Row.blockWalk_eq (h : Row bytes first frames tail) :
    blockWalk bytes = .ok ((first :: frames).map .ok) := by
  obtain ⟨order, horder⟩ := Option.isSome_iff_exists.1 h.magic
  have hlong := h.framed.1.long
  have hrow : bytes.drop 0 = rowBytes (first :: frames) ++ tail := h.bytes_eq
  have hsplit : bytes.drop 0 = first.bytes ++ (rowBytes frames ++ tail) := by
    rw [hrow, rowBytes_cons, append_assoc]
  have htype : bytes.take 4 = shbBytes := by
    rw [← h.header]
    exact take_drop_of_drop hsplit (by omega : 0 + 4 ≤ _)
  have hmagic : (bytes.drop 8).take 4 = (first.bytes.drop 8).take 4 := by
    simpa using take_drop_of_drop hsplit (by omega : 8 + 4 ≤ _)
  have hsize : bytes.length = (rowBytes (first :: frames)).length + tail.length := by
    rw [h.bytes_eq, length_append]
  have hcount := h.framed.length_le
  have hwalk := BlockFrames.collectIn_of_allFramed (first :: frames) hrow h.short
    (h.framed.of_header h.header h.magic : AllFramed order _)
    (by omega : _ < bytes.length + 1)
  have hfirst : (rowBytes (first :: frames)).length =
      first.bytes.length + (rowBytes frames).length := by
    rw [rowBytes_cons, length_append]
  rw [blockWalk, BlockFrames.new, if_neg (by simp [htype]; omega), hmagic, horder]
  exact congrArg Except.ok hwalk

theorem exists_row {items : List (Except ℕ BlockFrame)} (h : blockWalk bytes = .ok items)
    (hok : ∀ item ∈ items, ∃ frame, item = .ok frame) :
    ∃ first frames tail, Row bytes first frames tail := by
  rw [blockWalk, BlockFrames.new] at h
  split_ifs at h with hnot
  · cases h
  rw [not_or, not_not, not_lt] at hnot
  obtain ⟨hlong, htype⟩ := hnot
  cases hmagic : byteOrderFromShb ((bytes.drop 8).take 4) with
  | none =>
    rw [hmagic] at h
    cases h
  | some order =>
    rw [hmagic] at h
    obtain rfl : _ = items := Except.ok.inj h
    obtain ⟨frames, tail, hrow, htail, hall⟩ :=
      BlockFrames.exists_allFramed_of_collectIn (bytes.length + 1) (Nat.zero_le _) (by omega) hok
    cases frames with
    | nil =>
      have hlength := congrArg List.length hrow
      simp only [rowBytes, flatMap_nil, nil_append, drop_zero] at hlength
      omega
    | cons first frames =>
      have hfirst := hall.1.long
      have hsplit : bytes.drop 0 = first.bytes ++ (rowBytes frames ++ tail) := by
        rw [hrow, rowBytes_cons, append_assoc]
      have hheader : first.bytes.take 4 = shbBytes := by
        rw [← htype]
        exact (take_drop_of_drop hsplit (by omega : 0 + 4 ≤ _)).symm
      have hmagic' : (first.bytes.drop 8).take 4 = (bytes.drop 8).take 4 := by
        simpa using (take_drop_of_drop hsplit (by omega : 8 + 4 ≤ _)).symm
      have hsome : (byteOrderFromShb ((first.bytes.drop 8).take 4)).isSome := by
        rw [hmagic', hmagic]
        rfl
      exact ⟨first, frames, tail, hrow, hheader, hsome, hall.of_header hheader hsome, htail⟩

/-! ### Stripping -/

def withoutSecrets (frames : List BlockFrame) : List BlockFrame :=
  frames.filter (fun frame => frame.kind ≠ dsbType)

theorem ok_of_stripFrames {items : List (Except ℕ BlockFrame)} {result : Bytes × ℕ}
    (h : stripFrames items = .ok result) : ∀ item ∈ items, ∃ frame, item = .ok frame := by
  induction items generalizing result with
  | nil => simp
  | cons item items ih =>
    cases item with
    | error stop => cases h
    | ok frame =>
      rw [stripFrames] at h
      cases hrest : stripFrames items with
      | error why =>
        rw [hrest] at h
        cases h
      | ok rest =>
        intro item hitem
        rcases mem_cons.1 hitem with rfl | hitem
        · exact ⟨frame, rfl⟩
        · exact ih hrest item hitem

theorem stripFrames_map_ok (frames : List BlockFrame) :
    stripFrames (frames.map .ok) =
      .ok (rowBytes (withoutSecrets frames), frames.countP (fun frame => frame.kind = dsbType)) := by
  induction frames with
  | nil => rfl
  | cons frame frames ih =>
    rw [map_cons, stripFrames, ih]
    by_cases hkind : frame.kind = dsbType <;> simp [hkind, withoutSecrets, Except.map]

theorem Framed.orderOf_secrets (h : Framed bigEndian frame) (hkind : frame.kind = dsbType) :
    orderOf bigEndian frame.bytes = bigEndian := by
  by_cases hheader : frame.bytes.take 4 = shbBytes
  · exfalso
    have hsame := h.kind
    rw [field, drop_zero, hheader, hkind] at hsame
    revert hsame
    cases orderOf bigEndian frame.bytes <;> decide
  · rw [orderOf, if_neg hheader]

theorem AllFramed.withoutSecrets (frames : List BlockFrame) :
    ∀ {bigEndian : Bool}, AllFramed bigEndian frames →
      AllFramed bigEndian (withoutSecrets frames) := by
  induction frames with
  | nil => exact fun h => h
  | cons frame frames ih =>
    intro bigEndian ⟨hframed, hall⟩
    by_cases hkind : frame.kind = dsbType
    · rw [hframed.orderOf_secrets hkind] at hall
      simpa [Pcap.withoutSecrets, hkind] using ih hall
    · have hkeep : Pcap.withoutSecrets (frame :: frames) = frame :: Pcap.withoutSecrets frames := by
        simp [Pcap.withoutSecrets, hkind]
      rw [hkeep]
      exact ⟨hframed, ih hall⟩

theorem Row.first_kind (h : Row bytes first frames tail) : first.kind ≠ dsbType := by
  have hkind := h.framed.1.kind
  rw [field, drop_zero, h.header] at hkind
  rw [hkind]
  cases orderOf false first.bytes <;> decide

theorem Row.copy (h : Row bytes first frames tail) :
    Row (rowBytes (withoutSecrets (first :: frames))) first (withoutSecrets frames) [] := by
  have hkeep : withoutSecrets (first :: frames) = first :: withoutSecrets frames := by
    simp [withoutSecrets, h.first_kind]
  have hall := h.framed.withoutSecrets
  rw [hkeep] at hall
  exact ⟨by rw [hkeep, append_nil], h.header, h.magic, hall, by decide⟩

theorem exists_row_of_stripSecrets (h : stripSecrets maxBytes bytes = .ok (kept, stripped)) :
    bytes.length ≤ maxBytes ∧ ∃ first frames tail, Row bytes first frames tail ∧
      kept = rowBytes (withoutSecrets (first :: frames)) := by
  rw [stripSecrets] at h
  split_ifs at h with hlarge
  refine ⟨not_lt.1 hlarge, ?_⟩
  cases hwalk : blockWalk bytes with
  | error why =>
    rw [hwalk] at h
    cases h
  | ok items =>
    rw [hwalk] at h
    have hstrip : stripFrames items = .ok (kept, stripped) := h
    obtain ⟨first, frames, tail, hrow⟩ := exists_row hwalk (ok_of_stripFrames hstrip)
    refine ⟨first, frames, tail, hrow, ?_⟩
    obtain rfl : _ = items := Except.ok.inj (hrow.blockWalk_eq.symm.trans hwalk)
    rw [stripFrames_map_ok] at hstrip
    exact (Prod.mk.inj (Except.ok.inj hstrip)).1.symm

theorem length_rowBytes_withoutSecrets_le (frames : List BlockFrame) :
    (rowBytes (withoutSecrets frames)).length ≤ (rowBytes frames).length := by
  induction frames with
  | nil => exact le_rfl
  | cons frame frames ih =>
    by_cases hkind : frame.kind = dsbType
    · have hdrop : withoutSecrets (frame :: frames) = withoutSecrets frames := by
        simp [withoutSecrets, hkind]
      rw [hdrop, rowBytes_cons, length_append]
      omega
    · have hkeep : withoutSecrets (frame :: frames) = frame :: withoutSecrets frames := by
        simp [withoutSecrets, hkind]
      rw [hkeep, rowBytes_cons, rowBytes_cons, length_append, length_append]
      omega

theorem Row.stripSecrets_eq (h : Row bytes first frames []) (hsize : bytes.length ≤ maxBytes)
    (hnone : ∀ frame ∈ first :: frames, frame.kind ≠ dsbType) :
    stripSecrets maxBytes bytes = .ok (bytes, 0) := by
  have hsame : withoutSecrets (first :: frames) = first :: frames :=
    filter_eq_self.2 (fun frame hframe => by simpa using hnone frame hframe)
  have hcount : (first :: frames).countP (fun frame => frame.kind = dsbType) = 0 :=
    countP_eq_zero.2 (fun frame hframe => by simpa using hnone frame hframe)
  have hbytes := h.bytes_eq
  rw [append_nil] at hbytes
  rw [stripSecrets, if_neg (not_lt.2 hsize), h.blockWalk_eq]
  change stripFrames _ = _
  rw [stripFrames_map_ok, hsame, hcount, ← hbytes]

end Sipnab.Pcap
