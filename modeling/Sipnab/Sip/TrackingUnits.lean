import Sipnab.Sip.DialogStore
import Sipnab.Sip.FramingAgreement

/-!
# Units of branch tracking

A unit is filed under the Call-ID, a line feed and the branch of the topmost `Via`. Header lines end
at CRLF alone, so a Call-ID may hold a line feed, and with one it can spell the key of another unit.
-/

namespace Sipnab

open Option

open DialogStore (trackingKey)

namespace SipMessage

variable {m m' : SipMessage}

theorem topViaBranch_ne_empty {branch : String} (h : m.topViaBranch = some branch) :
    branch ≠ "" := by
  unfold topViaBranch at h
  obtain ⟨row, -, h⟩ := bind_eq_some_iff.mp h
  obtain ⟨value, -, h⟩ := bind_eq_some_iff.mp h
  unfold nonEmpty at h
  split_ifs at h with hempty
  rw [← some.inj h]
  intro htext
  have hlist := congrArg String.toList htext
  rw [String.toList_ofList] at hlist
  exact hempty (by rw [hlist]; rfl)

def SameKey (m m' : SipMessage) : Prop :=
  ∃ key, trackingKey .branch m = some key ∧ trackingKey .branch m' = some key

/-- The messages have one Call-ID, and one branch or no branch that is not empty. -/
def SameUnit (m m' : SipMessage) : Prop :=
  ∃ callId, m.callId = some callId ∧ m'.callId = some callId ∧
    (m.topViaBranch = m'.topViaBranch ∨
      (∀ branch ∈ m.topViaBranch, branch = "") ∧ ∀ branch ∈ m'.topViaBranch, branch = "")

/-- The Call-ID of `m` goes on, behind the one of `m'` and a line feed, with the branch of `m'`, up
to where the branch of `m` follows. -/
def Forges (m m' : SipMessage) : Prop :=
  ∃ callId rest, m'.callId = some callId ∧ m.callId = some (callId ++ "\n" ++ rest) ∧
    m'.topViaBranch = some (m.topViaBranch.elim rest (rest ++ "\n" ++ ·))

def keyText (callId : String) (branch : Option String) : String :=
  branch.elim callId (callId ++ "\n" ++ ·)

theorem trackingKey_eq (m : SipMessage) :
    trackingKey .branch m = m.callId.map (fun callId => keyText callId m.topViaBranch) := by
  unfold trackingKey keyText
  cases hbranch : m.topViaBranch with
  | none => rfl
  | some branch =>
    have hne := topViaBranch_ne_empty hbranch
    simp [String.isEmpty_iff, hne]

theorem sameUnit_iff : SameUnit m m' ↔
    ∃ callId, m.callId = some callId ∧ m'.callId = some callId ∧
      m.topViaBranch = m'.topViaBranch := by
  refine exists_congr (fun callId => and_congr_right (fun _ => and_congr_right (fun _ => ?_)))
  refine ⟨?_, .inl⟩
  rintro (h | ⟨h, h'⟩)
  · exact h
  · have hnone (n : SipMessage) (hn : ∀ branch ∈ n.topViaBranch, branch = "") :
        n.topViaBranch = none := by
      cases hbranch : n.topViaBranch with
      | none => rfl
      | some branch => exact absurd (hn branch hbranch) (topViaBranch_ne_empty hbranch)
    rw [hnone m h, hnone m' h']

theorem eq_append_feed_iff {x y z : String} :
    x = y ++ "\n" ++ z ↔ x.toList = y.toList ++ '\n' :: z.toList := by
  rw [← String.toList_inj]
  simp

/-- Two texts around a line feed: they agree part by part, or the first part of one spells the other
and more. -/
theorem append_feed_eq {a b a' b' : String} (h : a ++ "\n" ++ b = a' ++ "\n" ++ b') :
    (a = a' ∧ b = b') ∨ (∃ rest, a = a' ++ "\n" ++ rest ∧ b' = rest ++ "\n" ++ b) ∨
      ∃ rest, a' = a ++ "\n" ++ rest ∧ b = rest ++ "\n" ++ b' := by
  have hlist : a.toList ++ '\n' :: b.toList = a'.toList ++ '\n' :: b'.toList := by
    simpa using congrArg String.toList h
  rcases List.append_eq_append_iff.mp hlist with ⟨more, ha, hb⟩ | ⟨more, ha, hb⟩
  · cases more with
    | nil =>
      rw [List.append_nil] at ha
      rw [List.nil_append] at hb
      exact .inl ⟨String.toList_inj.mp ha.symm, String.toList_inj.mp (List.cons.inj hb).2⟩
    | cons c more =>
      obtain ⟨rfl, htail⟩ := List.cons.inj hb
      refine .inr (.inr ⟨String.ofList more, ?_, ?_⟩)
      · rw [eq_append_feed_iff, ha, String.toList_ofList]
      · rw [eq_append_feed_iff, String.toList_ofList]
        exact htail
  · cases more with
    | nil =>
      rw [List.append_nil] at ha
      rw [List.nil_append] at hb
      exact .inl ⟨String.toList_inj.mp ha, (String.toList_inj.mp (List.cons.inj hb).2).symm⟩
    | cons c more =>
      obtain ⟨rfl, htail⟩ := List.cons.inj hb
      refine .inr (.inl ⟨String.ofList more, ?_, ?_⟩)
      · rw [eq_append_feed_iff, ha, String.toList_ofList]
      · rw [eq_append_feed_iff, String.toList_ofList]
        exact htail

theorem keyText_eq_cases {callId callId' : String} {branch branch' : Option String}
    (h : keyText callId branch = keyText callId' branch') :
    (callId = callId' ∧ branch = branch') ∨
      (∃ rest, callId = callId' ++ "\n" ++ rest ∧
        branch' = some (branch.elim rest (rest ++ "\n" ++ ·))) ∨
      ∃ rest, callId' = callId ++ "\n" ++ rest ∧
        branch = some (branch'.elim rest (rest ++ "\n" ++ ·)) := by
  cases branch with
  | none =>
    cases branch' with
    | none => exact .inl ⟨h, rfl⟩
    | some b' => exact .inr (.inl ⟨b', h, rfl⟩)
  | some b =>
    cases branch' with
    | none => exact .inr (.inr ⟨b, h.symm, rfl⟩)
    | some b' =>
      rcases append_feed_eq h with ⟨rfl, rfl⟩ | ⟨rest, ha, hb⟩ | ⟨rest, ha, hb⟩
      · exact .inl ⟨rfl, rfl⟩
      · exact .inr (.inl ⟨rest, ha, congrArg some hb⟩)
      · exact .inr (.inr ⟨rest, ha, congrArg some hb⟩)

theorem SameUnit.sameKey (h : SameUnit m m') : SameKey m m' := by
  obtain ⟨callId, hm, hm', hbranch⟩ := sameUnit_iff.mp h
  refine ⟨keyText callId m.topViaBranch, ?_, ?_⟩
  · rw [trackingKey_eq, hm, map_some]
  · rw [trackingKey_eq, hm', map_some, hbranch]

theorem SameKey.symm (h : SameKey m m') : SameKey m' m := by
  obtain ⟨key, hm, hm'⟩ := h
  exact ⟨key, hm', hm⟩

theorem Forges.joins (h : Forges m m') : SameKey m m' ∧ m.callId ≠ m'.callId := by
  obtain ⟨callId, rest, hm', hm, hbranch⟩ := h
  constructor
  · refine ⟨keyText callId m'.topViaBranch, ?_, ?_⟩
    · rw [trackingKey_eq, hm, map_some, hbranch]
      cases m.topViaBranch with
      | none => rfl
      | some branch => simp [keyText, String.append_assoc]
    · rw [trackingKey_eq, hm', map_some]
  · rw [hm, hm']
    intro heq
    have hlength := congrArg String.length (some.inj heq)
    rw [String.length_append, String.length_append] at hlength
    have hone : "\n".length = 1 := rfl
    omega

theorem SameKey.cases (h : SameKey m m') : SameUnit m m' ∨ Forges m m' ∨ Forges m' m := by
  obtain ⟨key, hm, hm'⟩ := h
  rw [trackingKey_eq] at hm hm'
  obtain ⟨callId, hcallId, rfl⟩ := map_eq_some_iff.mp hm
  obtain ⟨callId', hcallId', hkey⟩ := map_eq_some_iff.mp hm'
  rcases keyText_eq_cases hkey with ⟨rfl, hbranch⟩ | ⟨rest, rfl, hbranch⟩ | ⟨rest, rfl, hbranch⟩
  · exact .inl (sameUnit_iff.mpr ⟨_, hcallId, hcallId', hbranch.symm⟩)
  · exact .inr (.inr ⟨callId, rest, hcallId, hcallId', hbranch⟩)
  · exact .inr (.inl ⟨callId', rest, hcallId', hcallId, hbranch⟩)

/-- Two messages are told apart by their keys exactly if neither Call-ID spells the other's key. -/
theorem tracking_key_exact_iff (m m' : SipMessage) :
    (SameKey m m' ↔ SameUnit m m') ↔ ¬Forges m m' ∧ ¬Forges m' m := by
  constructor
  · intro h
    have hnot {n n' : SipMessage} (hexact : SameKey n n' → SameUnit n n') : ¬Forges n n' := by
      intro hforges
      obtain ⟨callId, hn, hn', -⟩ := hexact hforges.joins.1
      exact hforges.joins.2 (hn.trans hn'.symm)
    refine ⟨hnot h.mp, fun hforges => ?_⟩
    obtain ⟨callId, hm, hm', -⟩ := h.mp hforges.joins.1.symm
    exact hforges.joins.2 (hm'.trans hm.symm)
  · rintro ⟨hm, hm'⟩
    refine ⟨fun hkey => ?_, SameUnit.sameKey⟩
    rcases hkey.cases with hunit | hforges | hforges
    · exact hunit
    · exact absurd hforges hm
    · exact absurd hforges hm'

end SipMessage

def trackedRequest (callId branch : String) : List UInt8 :=
  asciiBytes ("BYE sip:b SIP/2.0\r\nCall-ID: " ++ callId ++ "\r\nVia: SIP/2.0/UDP a;branch=" ++
    branch ++ "\r\n\r\n")

/-- A Call-ID with a line feed takes the key of another call's transaction. -/
theorem not_exact_line_feed :
    ∃ m m', (parseSipBytes {} (trackedRequest "a\nz9hG4bK1" "") anyCaptured).map
        ParsedMessage.toSipMessage = .ok m ∧
      (parseSipBytes {} (trackedRequest "a" "z9hG4bK1") anyCaptured).map
        ParsedMessage.toSipMessage = .ok m' ∧ ¬(m.SameKey m' ↔ m.SameUnit m') := by
  refine ⟨_, _, rfl, rfl, fun h => ?_⟩
  obtain ⟨callId, hm, hm', -⟩ := h.mp ⟨"a\nz9hG4bK1", by decide +kernel, by decide +kernel⟩
  have hne := hm.trans hm'.symm
  revert hne
  decide +kernel

end Sipnab
