import Sipnab.Journal.FailedAppends

/-!
# The chain of hashes

Every line names the hash of the line before it, so the last line of a journal that is accepted
fixes all lines before it.
-/

namespace Sipnab.Operations

open List

variable {js : Serde} {lineHash : Bytes → Text}

def wholeLines (bytes : Bytes) : List Bytes := (bytes.splitOn newline).dropLast

def recordLines (segments : List (ℕ × Bytes)) (reading : Reading js) : List Bytes :=
  (segments.flatMap (fun e => wholeLines e.2)).take reading.records.length

variable {raw bytes : Bytes} {segment : ℕ} {segments : List (ℕ × Bytes)}

theorem wholeLines_cons (hraw : newline ∉ raw) (rest : Bytes) :
    wholeLines (raw ++ newline :: rest) = raw :: wholeLines rest := by
  rw [wholeLines, splitOn_append_cons_self_of_not_mem hraw,
    dropLast_cons_of_ne_nil (splitOn_ne_nil newline rest), wholeLines]

theorem wholeLines_of_notMem (h : newline ∉ bytes) : wholeLines bytes = [] := by
  rw [wholeLines, splitOn_eq_singleton h, List.dropLast_singleton]

/-! ## What a line says -/

def recordOf (value : js.Value) : Record js :=
  { seq := (js.asU64 (Serde.index value "seq".toList)).getD 0
    ts := (js.asStr (Serde.index value "ts".toList)).getD []
    run := (js.asStr (Serde.index value "run".toList)).getD []
    kind := (js.asStr (Serde.index value "kind".toList)).getD []
    body := js.object (envelope.foldl OrderedMap.erase
      ((js.asObject value).getD OrderedMap.empty)) }

theorem checkLink_eq_ok {value : js.Value} {prev : Option Text} {expected : Option ℕ}
    {record : Record js} (h : checkLink value prev expected segment = .ok record) :
    record = recordOf value ∧ (expected.isSome → ∀ hash, prev = some hash →
      js.asStr (Serde.index value "prev".toList) = some hash) := by
  rw [checkLink] at h
  cases hseq : js.asU64 (Serde.index value "seq".toList) with
  | none =>
    rw [hseq] at h
    cases h
  | some seq =>
    rw [hseq] at h
    dsimp only at h
    rw [recordOf, hseq]
    cases expected with
    | none =>
      split_ifs at h
      cases h
      exact ⟨rfl, fun hsome => by cases hsome⟩
    | some expected =>
      cases prev with
      | none =>
        split_ifs at h
        cases h
        exact ⟨rfl, fun _ hash hnone => by cases hnone⟩
      | some prev =>
        dsimp only at h
        split_ifs at h with hversion hnumber hprev
        cases h
        refine ⟨rfl, fun _ hash heq => ?_⟩
        rw [← heq]
        exact not_not.mp hprev

def recordAt (js : Serde) (line : Bytes) : Option (Record js) := (js.fromBytes line).map recordOf

def prevAt (js : Serde) (line : Bytes) : Option Text :=
  (js.fromBytes line).bind (fun value => js.asStr (Serde.index value "prev".toList))

/-- What has been read of some lines: their records, each naming the line before it. -/
structure Follows (lineHash : Bytes → Text) (reading : Reading js) (lines : List Bytes) : Prop where
  length : lines.length = reading.records.length
  records : lines.filterMap (recordAt js) = reading.records
  linked : lines.IsChain (fun line next => prevAt js next = some (lineHash line))
  prev : reading.prev = lines.getLast?.map lineHash
  expects : reading.prev.isSome = true → reading.nextSeq.isSome = true

variable {reading reading' : Reading js} {lines : List Bytes}

theorem Follows.push (h : Follows lineHash reading lines) {value : js.Value} {record : Record js}
    (hvalue : js.fromBytes raw = some value)
    (hlink : checkLink value reading.prev reading.nextSeq segment = .ok record) :
    Follows lineHash { reading with
      records := reading.records ++ [record]
      prev := some (lineHash raw)
      nextSeq := some (record.seq + 1) } (lines ++ [raw]) := by
  obtain ⟨rfl, hprev⟩ := checkLink_eq_ok hlink
  refine ⟨?_, ?_, ?_, ?_, fun _ => rfl⟩
  · rw [length_append, length_append, h.length]
    rfl
  · rw [filterMap_append, h.records]
    simp [recordAt, hvalue]
  · refine h.linked.append (isChain_singleton raw) fun last hlast next hnext => ?_
    obtain rfl := Option.some.inj hnext
    have hhash : reading.prev = some (lineHash last) := by
      rw [h.prev, hlast]
      rfl
    rw [prevAt, hvalue, Option.bind_some]
    exact hprev (h.expects (by rw [hhash]; rfl)) _ hhash
  · rw [List.getLast?_concat]
    rfl

/-- A segment gives its lines one after the other, all of them where another segment follows. -/
theorem Follows.readLines (h : Follows lineHash reading lines) {isLast : Bool} {n : ℕ}
    (hn : bytes.length ≤ n)
    (hread : readLines lineHash isLast segment n reading bytes = .ok reading') :
    ∃ more rest, wholeLines bytes = more ++ rest ∧ (isLast = false → rest = []) ∧
      Follows lineHash reading' (lines ++ more) := by
  induction n generalizing reading lines bytes with
  | zero =>
    obtain rfl := eq_nil_of_length_eq_zero (Nat.le_zero.mp hn)
    cases hread
    exact ⟨[], [], rfl, fun _ => rfl, by rwa [append_nil]⟩
  | succ n ih =>
    rw [Operations.readLines] at hread
    cases hbytes : bytes with
    | nil =>
      rw [hbytes] at hread
      cases hread
      exact ⟨[], [], rfl, fun _ => rfl, by rwa [append_nil]⟩
    | cons b tail =>
      rw [← hbytes]
      rw [if_neg (by rw [hbytes]; simp)] at hread
      have hcut := takeWhile_append_dropWhile (p := (· ≠ newline)) (l := bytes)
      have hraw : newline ∉ bytes.takeWhile (· ≠ newline) := by
        intro hmem
        simpa using mem_takeWhile_imp hmem
      generalize bytes.takeWhile (· ≠ newline) = raw at hcut hraw hread
      cases hbehind : bytes.dropWhile (· ≠ newline) with
      | nil =>
        rw [hbehind, append_nil] at hcut
        simp only [hbehind, isEmpty_nil, if_true] at hread
        split_ifs at hread with hfinal
        cases hread
        refine ⟨[], [], ?_, fun _ => rfl, ?_⟩
        · rw [← hcut]
          exact wholeLines_of_notMem hraw
        · rw [append_nil]
          exact ⟨h.length, h.records, h.linked, h.prev, h.expects⟩
      | cons c rest =>
        obtain rfl : c = newline := by
          have hc := List.head?_dropWhile_not (· ≠ newline) bytes
          rw [hbehind] at hc
          simpa using hc
        rw [hbehind] at hcut
        simp only [hbehind, isEmpty_cons, Bool.false_eq_true, if_false, tail_cons] at hread
        rw [← hcut, wholeLines_cons hraw]
        cases hvalue : js.fromBytes raw with
        | none =>
          rw [hvalue] at hread
          dsimp only at hread
          split_ifs at hread with hfinal
          cases hread
          refine ⟨[], _, rfl, fun hlast => ?_, ?_⟩
          · rw [hlast] at hfinal
            cases hfinal
          · rw [append_nil]
            exact ⟨h.length, h.records, h.linked, h.prev, h.expects⟩
        | some value =>
          rw [hvalue] at hread
          dsimp only at hread
          cases hlink : checkLink value reading.prev reading.nextSeq segment with
          | error e =>
            rw [hlink] at hread
            cases hread
          | ok record =>
            rw [hlink] at hread
            have hlength : rest.length ≤ n := by
              rw [← hcut, length_append, length_cons] at hn
              omega
            obtain ⟨more, behind, hmore, hall, hfollows⟩ := ih (h.push hvalue hlink) hlength hread
            refine ⟨raw :: more, behind, by rw [hmore, cons_append], hall, ?_⟩
            rwa [append_assoc] at hfollows

theorem Follows.readSegments (h : Follows lineHash reading lines)
    (hread : readSegmentsFrom lineHash reading segments = .ok reading') :
    ∃ more rest, segments.flatMap (fun e => wholeLines e.2) = more ++ rest ∧
      Follows lineHash reading' (lines ++ more) := by
  induction segments generalizing reading lines with
  | nil =>
    cases hread
    exact ⟨[], [], rfl, by rwa [append_nil]⟩
  | cons e segments ih =>
    obtain ⟨segment, bytes⟩ := e
    rw [readSegmentsFrom] at hread
    cases hlines : Operations.readLines lineHash segments.isEmpty segment bytes.length reading bytes
      with
    | error err =>
      rw [hlines] at hread
      cases hread
    | ok middle =>
      rw [hlines] at hread
      obtain ⟨more, rest, hmore, hall, hmiddle⟩ := h.readLines le_rfl hlines
      obtain ⟨more', rest', hmore', hlast⟩ := ih hmiddle hread
      rw [append_assoc] at hlast
      rw [flatMap_cons, hmore, hmore']
      cases segments with
      | nil =>
        rw [flatMap_nil, eq_comm, append_eq_nil_iff] at hmore'
        obtain ⟨rfl, rfl⟩ := hmore'
        exact ⟨more ++ [], rest, by simp, hlast⟩
      | cons next segments =>
        obtain rfl := hall rfl
        exact ⟨more ++ more', rest', by simp, hlast⟩

theorem follows_recordLines (hread : readSegments lineHash segments = .ok reading) :
    Follows lineHash reading (recordLines segments reading) := by
  have hstart : Follows lineHash (Reading.start : Reading js) [] :=
    ⟨rfl, rfl, List.isChain_nil, rfl, fun hsome => by cases hsome⟩
  obtain ⟨more, rest, hmore, hfollows⟩ := hstart.readSegments hread
  rw [nil_append] at hfollows
  rwa [recordLines, hmore, ← hfollows.length, take_left]

/-! ## The last line -/

/-- Where no two lines have one hash, lines that each name the one before are fixed by the last. -/
theorem suffix_of_linked (hhash : Function.Injective lineHash) (last : Bytes) {a b : List Bytes}
    (ha : (a ++ [last]).IsChain (fun line next => prevAt js next = some (lineHash line)))
    (hb : (b ++ [last]).IsChain (fun line next => prevAt js next = some (lineHash line))) :
    a ++ [last] <:+ b ++ [last] ∨ b ++ [last] <:+ a ++ [last] := by
  induction a using List.reverseRecOn generalizing b last with
  | nil => exact Or.inl (suffix_append b [last])
  | append_singleton a line ih =>
    cases b using List.reverseRecOn with
    | nil => exact Or.inr (suffix_append (a ++ [line]) [last])
    | append_singleton b line' =>
      rw [append_assoc, singleton_append, List.isChain_append_cons_cons] at ha hb
      obtain rfl : line = line' := hhash (Option.some.inj (ha.2.1.symm.trans hb.2.1))
      refine (ih line ha.1 hb.1).imp (fun hsuffix => ?_) (fun hsuffix => ?_)
      all_goals
        obtain ⟨front, hfront⟩ := hsuffix
        exact ⟨front, by rw [← append_assoc, hfront]⟩

/-- Of two journals that are accepted and end in the same line, one has the records of the other
and maybe some before them. -/
theorem records_suffix_of_last_line (hhash : Function.Injective lineHash)
    {a b : List (ℕ × Bytes)} {ra rb : Reading js} (ha : readSegments lineHash a = .ok ra)
    (hb : readSegments lineHash b = .ok rb)
    (hlast : (recordLines a ra).getLast? = (recordLines b rb).getLast?) :
    ra.records <:+ rb.records ∨ rb.records <:+ ra.records := by
  have hfa := follows_recordLines ha
  have hfb := follows_recordLines hb
  rw [← hfa.records, ← hfb.records]
  have hsuffix : recordLines a ra <:+ recordLines b rb ∨ recordLines b rb <:+ recordLines a ra := by
    cases hend : (recordLines a ra).getLast? with
    | none =>
      rw [List.getLast?_eq_none_iff] at hend
      rw [hend]
      exact Or.inl (List.nil_suffix)
    | some last =>
      rw [hend] at hlast
      obtain ⟨as, has⟩ := List.getLast?_eq_some_iff.mp hend
      obtain ⟨bs, hbs⟩ := List.getLast?_eq_some_iff.mp hlast.symm
      have hla := hfa.linked
      have hlb := hfb.linked
      rw [has] at hla
      rw [hbs] at hlb
      rw [has, hbs]
      exact suffix_of_linked hhash last hla hlb
  exact hsuffix.imp (fun h => h.filterMap _) (fun h => h.filterMap _)

/-- A name that no two lines share. -/
def lineName (line : Bytes) : Text := line.map Char.ofUInt8

theorem lineName_injective : Function.Injective lineName := by
  refine List.map_injective_iff.mpr fun a b h => ?_
  have hval : a.toUInt32.toNat = b.toUInt32.toNat := congrArg (fun c => c.val.toNat) h
  rw [UInt8.toNat_toUInt32, UInt8.toNat_toUInt32] at hval
  exact UInt8.toNat_inj.mp hval

/-- One line in two journals, the second with a line behind it that was cut short. -/
theorem records_suffix_of_last_line_note :
    let read : Reading treeSerde := ⟨[recordOf noteTree], 0, some (lineName noteText), some 2⟩
    let torn : Reading treeSerde := { read with tornBytes := 2 }
    readSegments lineName [(1, noteText ++ [newline])] = .ok read ∧
      readSegments lineName [(4, noteText ++ [newline]), (5, [123, 34])] = .ok torn ∧
      (read.records <:+ torn.records ∨ torn.records <:+ read.records) := by
  intro read torn
  have hread : readSegments lineName [(1, noteText ++ [newline])] = .ok read := rfl
  have htorn : readSegments lineName [(4, noteText ++ [newline]), (5, [123, 34])] = .ok torn := rfl
  exact ⟨hread, htorn, records_suffix_of_last_line lineName_injective hread htorn (by decide)⟩

end Sipnab.Operations
