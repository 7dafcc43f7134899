import Sipnab.Tls.Decryptor

/-!
# Opening records

Which numbers a session tries on a record, and what it makes of the first that opens. A session that
opens a record under no number only learns that its search failed.
-/

namespace Sipnab.Tls

open List

/-- The cipher opens exactly what was sealed under the same key, nonce and header. -/
structure Ideal (crypto : CryptoBackend) (sealed : Bytes → Bytes → Bytes → Bytes → Bytes) : Prop where
  opens_iff : ∀ key nonce aad ciphertext plaintext,
    crypto.aesGcmDecrypt key nonce aad ciphertext = some plaintext ↔
      ciphertext = sealed key nonce aad plaintext
  seal_inj : ∀ {key key' nonce nonce' aad aad' plaintext plaintext'},
    sealed key nonce aad plaintext = sealed key' nonce' aad' plaintext' →
      key = key' ∧ nonce = nonce' ∧ aad = aad' ∧ plaintext = plaintext'

def escapeBytes : Bytes → Bytes
  | [] => [0]
  | b :: rest => 1 :: b :: escapeBytes rest

theorem escapeBytes_append_inj {a b x y : Bytes} (h : escapeBytes a ++ x = escapeBytes b ++ y) :
    a = b ∧ x = y := by
  induction a generalizing b with
  | nil =>
    cases b with
    | nil => exact ⟨rfl, List.cons.inj h |>.2⟩
    | cons c b => exact absurd (List.cons.inj h).1 (by decide)
  | cons c a ih =>
    cases b with
    | nil => exact absurd (List.cons.inj h).1 (by decide)
    | cons c' b =>
      simp only [escapeBytes, cons_append, List.cons.injEq, true_and] at h
      obtain ⟨hab, hxy⟩ := ih h.2
      exact ⟨by rw [h.1, hab], hxy⟩

/-- All that a record is sealed under, in front of what it protects. -/
def openSeal (key nonce aad : Bytes) : Bytes :=
  escapeBytes key ++ escapeBytes nonce ++ escapeBytes aad

def openCrypto : CryptoBackend where
  aesGcmDecrypt key nonce aad ciphertext :=
    if (openSeal key nonce aad).isPrefixOf ciphertext then
      some (ciphertext.drop (openSeal key nonce aad).length)
    else none
  hkdfExpand prk info _ _ := some (prk ++ info)
  hmac key data _ := key ++ data

theorem openCrypto_ideal :
    Ideal openCrypto (fun key nonce aad plaintext => openSeal key nonce aad ++ plaintext) where
  opens_iff key nonce aad ciphertext plaintext := by
    have hopen : openCrypto.aesGcmDecrypt key nonce aad ciphertext =
        if (openSeal key nonce aad).isPrefixOf ciphertext then
          some (ciphertext.drop (openSeal key nonce aad).length)
        else none := rfl
    rw [hopen]
    constructor
    · intro h
      split_ifs at h with hisPrefix
      obtain ⟨rest, rfl⟩ := isPrefixOf_iff_prefix.mp hisPrefix
      rw [drop_left] at h
      rw [Option.some.inj h]
    · rintro rfl
      rw [if_pos ( isPrefixOf_iff_prefix.mpr (prefix_append _ _)), drop_left]
  seal_inj h := by
    simp only [openSeal, append_assoc] at h
    obtain ⟨hkey, h⟩ := escapeBytes_append_inj h
    obtain ⟨hnonce, h⟩ := escapeBytes_append_inj h
    obtain ⟨haad, hplaintext⟩ := escapeBytes_append_inj h
    exact ⟨hkey, hnonce, haad, hplaintext⟩

section Search

variable {openAt : ℕ → Option Bytes} {seqs : List ℕ}

theorem searchSequences_eq_none (h : ∀ seq ∈ seqs, openAt seq = none) :
    searchSequences openAt seqs = (none, seqs.length) := by
  induction seqs with
  | nil => rfl
  | cons seq seqs ih =>
    rw [forall_mem_cons] at h
    rw [searchSequences, h.1, ih h.2]
    rfl

theorem exists_of_searchSequences {p : Bytes × ℕ} (h : (searchSequences openAt seqs).1 = some p) :
    p.2 ∈ seqs ∧ openAt p.2 = some p.1 := by
  induction seqs with
  | nil => cases h
  | cons seq seqs ih =>
    rw [searchSequences] at h
    cases hopen : openAt seq with
    | some plaintext =>
      rw [hopen] at h
      cases h
      exact ⟨mem_cons_self, hopen⟩
    | none =>
      rw [hopen] at h
      obtain ⟨hmem, hp⟩ := ih h
      exact ⟨mem_cons_of_mem _ hmem, hp⟩

theorem searchSequences_isSome {seq : ℕ} (hmem : seq ∈ seqs) (h : openAt seq ≠ none) :
    ∃ p, (searchSequences openAt seqs).1 = some p := by
  by_contra hnone
  have hall : ∀ seq ∈ seqs, openAt seq = none := by
    intro seq' hmem'
    by_contra hopen
    apply hnone
    clear hnone hmem h
    induction seqs with
    | nil => cases hmem'
    | cons first seqs ih =>
      rw [searchSequences]
      cases hfirst : openAt first with
      | some plaintext => exact ⟨_, rfl⟩
      | none =>
        cases mem_cons.mp hmem' with
        | inl heq => exact absurd (heq ▸ hfirst) hopen
        | inr hrest => exact ih hrest
  exact h (hall seq hmem)

theorem searchSequences_head {seq : ℕ} {plaintext : Bytes} (h : openAt seq = some plaintext) :
    searchSequences openAt (seq :: seqs) = (some (plaintext, seq), 1) := by
  rw [searchSequences, h]

end Search

theorem sequences_eq_cons {seq window : ℕ} (h : seq ≤ u64Max) :
    ∃ rest, sequences seq window = seq :: rest := by
  have hpos : min (seq + window) u64Max + 1 - seq = (min (seq + window) u64Max - seq) + 1 := by
    omega
  exact ⟨_, by rw [sequences, hpos, List.range'_succ]⟩

theorem mem_sequences {seq window n : ℕ} (h : n ∈ sequences seq window) : seq ≤ n ∧ n ≤ u64Max := by
  rw [sequences, List.mem_range'_1] at h
  omega

namespace TlsSession

variable (crypto : CryptoBackend) (session : TlsSession) (record : TlsRecord)

/-- What the record opens to under one number, with the content type still in it. -/
def openAt (isClientToServer : Bool) (seq : ℕ) : Option Bytes :=
  match session.version with
  | .tls13 => openTls13At crypto (session.writeKey isClientToServer)
      (session.writeIv isClientToServer) record seq
  | .tls12 =>
    if (session.writeIv isClientToServer).length < 4 ∨ record.payload.length < 24 then none
    else openTls12At crypto (session.writeKey isClientToServer) (session.writeIv isClientToServer)
      record seq

def reading (plaintext : Bytes) (seq : ℕ) : Bytes × ℕ × Option UInt8 :=
  match session.version with
  | .tls13 => ((stripTls13Padding plaintext).1, seq, (stripTls13Padding plaintext).2)
  | .tls12 => (plaintext, seq, none)

def Closed : Prop := ∀ isClientToServer seq, session.openAt crypto record isClientToServer seq = none

/-- The session opens the record under no number a record can have. -/
def Shut : Prop :=
  ∀ isClientToServer, ∀ seq ≤ u64Max, session.openAt crypto record isClientToServer seq = none

variable {crypto session record}

theorem Closed.shut (h : session.Closed crypto record) : session.Shut crypto record :=
  fun isClientToServer seq _ => h isClientToServer seq

theorem openRecord_fst (isClientToServer : Bool) (seq window : ℕ) :
    (session.openRecord crypto record isClientToServer seq window).1 =
      ((searchSequences (session.openAt crypto record isClientToServer)
        (sequences seq window)).1).map (fun p => session.reading p.1 p.2) := by
  unfold openRecord openAt reading
  cases session.version with
  | tls13 => rfl
  | tls12 =>
    dsimp only
    unfold decryptTls12GcmRecord
    split_ifs
    · rw [searchSequences_eq_none (fun _ _ => rfl)]
    · rfl

variable {isClientToServer : Bool} {seq window : ℕ}

theorem openRecord_of_forall
    (h : ∀ s ∈ sequences seq window, session.openAt crypto record isClientToServer s = none) :
    (session.openRecord crypto record isClientToServer seq window).1 = none := by
  rw [openRecord_fst, searchSequences_eq_none h]
  rfl

theorem openRecord_of_open {s : ℕ} (hmem : s ∈ sequences seq window)
    (h : session.openAt crypto record isClientToServer s ≠ none) :
    ∃ plaintext s', session.openAt crypto record isClientToServer s' = some plaintext ∧
      (session.openRecord crypto record isClientToServer seq window).1 =
        some (session.reading plaintext s') := by
  obtain ⟨p, hp⟩ := searchSequences_isSome hmem h
  refine ⟨p.1, p.2, (exists_of_searchSequences hp).2, ?_⟩
  rw [openRecord_fst, hp]
  rfl

theorem openRecord_eq_some {opened : Bytes × ℕ × Option UInt8}
    (h : (session.openRecord crypto record isClientToServer seq window).1 = some opened) :
    ∃ plaintext s, session.openAt crypto record isClientToServer s = some plaintext ∧
      opened = session.reading plaintext s := by
  rw [openRecord_fst] at h
  obtain ⟨p, hp, rfl⟩ := Option.map_eq_some_iff.mp h
  exact ⟨p.1, p.2, (exists_of_searchSequences hp).2, rfl⟩

/-! ## Directions -/

variable {src dst : IpAddr} {replay : Bool} {pairFloor recordWindow : ℕ}

theorem tryDirections_of_shut (h : session.Shut crypto record) (directions : List Bool)
    (budget : ℕ) (searched : Option ℕ) :
    ∃ budget', tryDirections crypto record src dst replay pairFloor recordWindow directions session
          budget searched = (session, budget', none) ∨
      (replay || session.handshakeSeen) = false ∧ ∃ floor,
        tryDirections crypto record src dst replay pairFloor recordWindow directions session budget
          searched = (session.raiseLockonFloor (src, dst) floor, budget', none) := by
  induction directions generalizing budget searched with
  | nil =>
    refine ⟨budget, ?_⟩
    cases searched with
    | none => exact .inl rfl
    | some width =>
      rw [tryDirections]
      split_ifs with hseen
      · exact .inl rfl
      · exact .inr ⟨(Bool.not_eq_true _).mp hseen, _, rfl⟩
  | cons direction directions ih =>
    rw [tryDirections]
    dsimp only
    rw [openRecord_of_forall (fun s hs => h direction s (mem_sequences hs).2)]
    exact ih _ _

theorem tryDecryptWithSession_of_shut (h : session.Shut crypto record) (lockon : LockOn) :
    ∃ budget', session.tryDecryptWithSession crypto record src dst lockon =
          (session, budget', none) ∨
      (lockon.replay || session.handshakeSeen) = false ∧ ∃ floor,
        session.tryDecryptWithSession crypto record src dst lockon =
          (session.raiseLockonFloor (src, dst) floor, budget', none) := by
  unfold tryDecryptWithSession
  split_ifs
  · exact ⟨_, .inl rfl⟩
  · exact tryDirections_of_shut h _ _ _

def attemptsIn (session : TlsSession) (replay : Bool) (pairFloor recordWindow : ℕ) :
    List Bool → ℕ → List (Bool × ℕ)
  | [], _ => []
  | isClientToServer :: directions, budget =>
    let (seq, locked) := session.directionPosition isClientToServer
    let window := sequenceSearchWindow replay locked recordWindow budget
    let seqs := sequences (if locked then seq else pairFloor) window
    seqs.map (fun s => (isClientToServer, s)) ++
      attemptsIn session replay pairFloor recordWindow directions
        (if !locked && !replay then budget - seqs.length else budget)

/-- The numbers a session tries on a record when none opens it. -/
def attempts (session : TlsSession) (src dst : IpAddr) (lockon : LockOn) : List (Bool × ℕ) :=
  session.attemptsIn lockon.replay (session.lockonFloorFor (src, dst))
    (session.recordWindow lockon.window) (candidateDirections session.clientAddr src dst)
    lockon.budget

theorem exists_of_mem_attemptsIn {directions : List Bool} {budget : ℕ} {attempt : Bool × ℕ}
    (h : attempt ∈ session.attemptsIn replay pairFloor recordWindow directions budget) :
    ∃ seqStart window, attempt.2 ∈ sequences seqStart window := by
  induction directions generalizing budget with
  | nil => cases h
  | cons direction directions ih =>
    rw [attemptsIn] at h
    cases mem_append.mp h with
    | inl hhere =>
      obtain ⟨s, hs, rfl⟩ := List.mem_map.mp hhere
      exact ⟨_, _, hs⟩
    | inr hrest => exact ih hrest

theorem openRecord_snd (hversion : session.version = .tls13)
    (h : ∀ s ∈ sequences seq window, session.openAt crypto record isClientToServer s = none) :
    (session.openRecord crypto record isClientToServer seq window).2 =
      (sequences seq window).length := by
  unfold openRecord
  unfold openAt at h
  rw [hversion] at h ⊢
  dsimp only at h ⊢
  unfold decryptTls13Record
  rw [searchSequences_eq_none h]

theorem tryDirections_of_attempt (hversion : session.version = .tls13) {directions : List Bool}
    {budget : ℕ} {attempt : Bool × ℕ}
    (hmem : attempt ∈ session.attemptsIn replay pairFloor recordWindow directions budget)
    (hopen : session.openAt crypto record attempt.1 attempt.2 ≠ none) (searched : Option ℕ) :
    ∃ direction seq plaintext, session.openAt crypto record direction seq = some plaintext ∧
      (tryDirections crypto record src dst replay pairFloor recordWindow directions session budget
        searched).2.2 = applicationData (session.reading plaintext seq).1
          (session.reading plaintext seq).2.2 := by
  induction directions generalizing budget searched with
  | nil => cases hmem
  | cons direction directions ih =>
    rw [tryDirections]
    rw [attemptsIn] at hmem
    dsimp only at hmem ⊢
    cases hopened : (session.openRecord crypto record direction
        (if (session.directionPosition direction).2 then (session.directionPosition direction).1
          else pairFloor)
        (sequenceSearchWindow replay (session.directionPosition direction).2 recordWindow
          budget)).1 with
    | some opened =>
      obtain ⟨plaintext, seq, hseq, rfl⟩ := openRecord_eq_some hopened
      exact ⟨direction, seq, plaintext, hseq, rfl⟩
    | none =>
      have hall : ∀ s ∈ sequences (if (session.directionPosition direction).2 then
            (session.directionPosition direction).1 else pairFloor)
          (sequenceSearchWindow replay (session.directionPosition direction).2 recordWindow budget),
          session.openAt crypto record direction s = none := by
        intro s hs
        by_contra hs'
        obtain ⟨_, _, _, hsome⟩ := openRecord_of_open hs hs'
        rw [hopened] at hsome
        cases hsome
      rw [openRecord_snd hversion hall]
      cases mem_append.mp hmem with
      | inl hhere =>
        obtain ⟨s, hs, rfl⟩ := List.mem_map.mp hhere
        exact absurd (hall s hs) hopen
      | inr hrest => exact ih hrest _

end TlsSession

end Sipnab.Tls
