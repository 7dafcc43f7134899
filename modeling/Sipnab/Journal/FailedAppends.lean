import Sipnab.Journal.Histories

/-!
# What a failed append leaves behind

An append that fails leaves what it wrote of its line in the file, and the session goes on. The
next line is written behind it, and the record that was acknowledged with it is lost, or the
journal does not open any more. The same happens to a journal whose oldest segment, once the
others are pruned, has no checkpoint.
-/

namespace Sipnab.Operations

/-- Values of JSON; an object is the chain of its fields. -/
inductive Tree
  | null
  | number (n : ℕ)
  | string (s : Text)
  | nil
  | cons (key : Text) (value rest : Tree)
  deriving DecidableEq

instance encodableChar : Encodable Char := Encodable.ofLeftInverse Char.toNat Char.ofNat Char.ofNat_toNat

instance encodableText : Encodable Text := inferInstanceAs (Encodable (List Char))

deriving instance Encodable for Tree

namespace Tree

def ofEntries : List (Text × Tree) → Tree
  | [] => nil
  | e :: entries => cons e.1 e.2 (ofEntries entries)

def toEntries : Tree → Option (List (Text × Tree))
  | nil => some []
  | cons key value rest => rest.toEntries.map (fun entries => (key, value) :: entries)
  | _ => none

theorem toEntries_ofEntries (entries : List (Text × Tree)) :
    (ofEntries entries).toEntries = some entries := by
  induction entries with
  | nil => rfl
  | cons e entries ih => rw [ofEntries, toEntries, ih, Option.map_some]

def asObject (t : Tree) : Option (OrderedMap Text Tree) :=
  t.toEntries.bind (fun entries =>
    if h : entries.Pairwise (fun a b => a.1 < b.1) then some ⟨entries, h⟩ else none)

end Tree

def noteTime : Text := "2026-09-28T00:00:00.000Z".toList

def noteTree : Tree :=
  .cons "kind".toList (.string "note".toList) (.cons "run".toList (.string "r1".toList)
    (.cons "seq".toList (.number 1) (.cons "ts".toList (.string noteTime)
      (.cons "v".toList (.number 1) .nil))))

def noteText : Bytes :=
  ("\x7b\"kind\":\"note\",\"run\":\"r1\",\"seq\":1,".toList ++
    "\"ts\":\"2026-09-28T00:00:00.000Z\",\"v\":1\x7d".toList).map (fun c => UInt8.ofNat c.toNat)

/-- The text of the one record, and a number for every other value. -/
def treeText (t : Tree) : Bytes :=
  if t = noteTree then noteText else 120 :: List.replicate (Encodable.encode t) 97

def readTree (bytes : Bytes) : Option Tree :=
  if bytes = noteText then some noteTree
  else match bytes with
    | 120 :: rest =>
      if rest = List.replicate rest.length 97 then Encodable.decode rest.length else none
    | _ => none

def treeSerde : Serde where
  Value := Tree
  null := .null
  number := .number
  string := .string
  object m := .ofEntries m.entries
  asU64 t := match t with
    | .number n => some n
    | _ => none
  asStr t := match t with
    | .string s => some s
    | _ => none
  asObject := Tree.asObject
  toBytes := treeText
  fromBytes := readTree

theorem readTree_treeText (t : Tree) : readTree (treeText t) = some t := by
  by_cases hnote : t = noteTree
  · rw [treeText, if_pos hnote]
    unfold readTree
    rw [if_pos rfl, hnote]
  · have hne : 120 :: List.replicate (Encodable.encode t) 97 ≠ noteText := by
      intro heq
      have hhead : noteText.head? = some 123 := by decide
      rw [← heq] at hhead
      exact absurd (Option.some.inj hhead) (by decide)
    rw [treeText, if_neg hnote]
    unfold readTree
    rw [if_neg hne]
    simp

theorem Tree.asObject_ofEntries (m : OrderedMap Text Tree) :
    asObject (ofEntries m.entries) = some m := by
  rw [asObject, toEntries_ofEntries, Option.bind_some, dif_pos m.sorted]

theorem treeSerde_lawful : treeSerde.Lawful where
  asU64_number _ := rfl
  asStr_string _ := rfl
  asObject_object m := Tree.asObject_ofEntries m
  fromBytes_toBytes m := readTree_treeText _
  newline_notMem v := by
    change (10 : UInt8) ∉ treeText v
    unfold treeText
    split_ifs
    · decide
    · simp

def noteHash (line : Bytes) : Text :=
  if line = noteText then
    "sha256:af82a2f8c6e59c8adff78c3e5cd70c8fc8584fe4cefa83d685233c4e047529e0".toList
  else "sha256:".toList

def openNotes : Op treeSerde := .openJournal "r1".toList noteTime .none .ok

def appendNote (ending : Ending) : Op treeSerde := .append "note".toList noteTime Tree.nil ending

/-- An acknowledged record is lost behind a part of a line; a line that was written but not synced
is written again and the journal does not open; and pruning leaves a segment without its
checkpoint. -/
theorem failed_append_breaks_journal :
    ((openWith noteHash (runOps noteHash [openNotes, appendNote (.failed 5), appendNote .ok]).disk
        "r2".toList noteTime .none .ok : Opened treeSerde).result.toOption.map List.length =
          some 0) ∧
      ((openWith noteHash (runOps noteHash [openNotes, appendNote .unsynced, appendNote .ok]).disk
        "r2".toList noteTime .none .ok : Opened treeSerde).result.isOk = false) ∧
      ((openWith noteHash (runOps noteHash [openNotes, appendNote .ok,
          .rollOver Tree.null noteTime .crashed .ok, .prune (fun _ => true) 1]).disk
        "r2".toList noteTime .none .ok : Opened treeSerde).result.toOption.map List.length =
          some 0) ∧
      ¬ ∀ ops : List (Op treeSerde), Recovers noteHash (runOps noteHash ops) := by
  have hbroken : ((openWith noteHash (runOps noteHash
      [openNotes, appendNote .unsynced, appendNote .ok]).disk
        "r2".toList noteTime .none .ok : Opened treeSerde).result.isOk = false) := by
    decide +kernel
  refine ⟨by decide +kernel, hbroken, by decide +kernel, ?_⟩
  intro hall
  obtain ⟨records, hrecords, -⟩ :=
    hall [openNotes, appendNote .unsynced, appendNote .ok] "r2".toList noteTime
  rw [hrecords] at hbroken
  cases hbroken

/-- An append cut short by the end of the process is read back as if it had not begun. -/
theorem recovers_of_meets_crashed :
    Recovers noteHash (runOps noteHash [openNotes, appendNote (.crashed 5)]) := by
  apply recovers_of_meets treeSerde_lawful
  intro before op after heq
  rcases before with _ | ⟨first, _ | ⟨second, _ | ⟨third, before⟩⟩⟩
  · simp only [List.nil_append, List.cons.injEq] at heq
    rw [← heq.1]
    exact fun h => by cases h
  · simp only [List.cons_append, List.nil_append, List.cons.injEq] at heq
    rw [← heq.1, ← heq.2.1]
    exact ⟨by decide +kernel, fun h => by cases h⟩
  · simp at heq
  · simp at heq

end Sipnab.Operations
