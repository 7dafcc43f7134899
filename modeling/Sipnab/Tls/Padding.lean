import Sipnab.Tls.Opening

/-!
# Padding of TLS 1.3 records

What a record of TLS 1.3 protects is the content, then one byte for its type, then any number of
zeros. The last byte is taken for the type and zeros before it for padding, so content comes back as
it was sent exactly when the record is not padded and the content does not end in a zero.
-/

namespace Sipnab.Tls

open List

def innerPlaintext (content : Bytes) (innerType : UInt8) (padding : ℕ) : Bytes :=
  content ++ innerType :: List.replicate padding 0

variable (content : Bytes) (innerType : UInt8)

theorem getLast?_innerPlaintext (padding : ℕ) :
    (innerPlaintext content innerType padding).getLast? =
      some (if padding = 0 then innerType else 0) := by
  cases padding with
  | zero => simp [innerPlaintext]
  | succ n =>
    have hlast : innerPlaintext content innerType (n + 1) =
        innerPlaintext content innerType n ++ [0] := by
      rw [innerPlaintext, innerPlaintext, replicate_succ', append_assoc, cons_append]
    rw [hlast, List.getLast?_concat, if_neg n.succ_ne_zero]

theorem stripTls13Padding_snd (padding : ℕ) :
    (stripTls13Padding (innerPlaintext content innerType padding)).2 =
      some (if padding = 0 then innerType else 0) := by
  rw [stripTls13Padding, getLast?_innerPlaintext]

theorem stripTls13Padding_unpadded :
    stripTls13Padding (innerPlaintext content innerType 0) =
      (content.rdropWhile (· == 0), some innerType) := by
  rw [stripTls13Padding, getLast?_innerPlaintext, if_pos rfl]
  simp [innerPlaintext]

theorem rdropWhile_zero_eq_iff :
    content.rdropWhile (· == 0) = content ↔ content.getLast? ≠ some 0 := by
  rw [rdropWhile_eq_self_iff]
  cases content using List.reverseRecOn with
  | nil => simp
  | append_singleton content b => simp

namespace TlsDecryptor

variable {crypto : CryptoBackend} {record : TlsRecord} {src dst : IpAddr} {lockonWindow : ℕ}

theorem trySessions_of_closed {sessions : List (Bytes × TlsSession)}
    (h : ∀ e ∈ sessions, e.2.Closed crypto record) (budget : ℕ) :
    (trySessions crypto record src dst lockonWindow sessions budget).2.2 = none := by
  induction sessions generalizing budget with
  | nil => rfl
  | cons e sessions ih =>
    rw [forall_mem_cons] at h
    obtain ⟨budget', hclosed⟩ := @TlsSession.tryDecryptWithSession_of_shut crypto e.2 record src dst
      h.1.shut ⟨budget, lockonWindow, false⟩
    obtain hclosed | ⟨-, floor, hclosed⟩ := hclosed <;>
    · rw [trySessions, hclosed]
      exact ih h.2 budget'

theorem trySessions_append {before after : List (Bytes × TlsSession)} {budget : ℕ}
    (h : (trySessions crypto record src dst lockonWindow before budget).2.2 = none) :
    (trySessions crypto record src dst lockonWindow (before ++ after) budget).2.2 =
      (trySessions crypto record src dst lockonWindow after
        (trySessions crypto record src dst lockonWindow before budget).2.1).2.2 := by
  induction before generalizing budget with
  | nil => rfl
  | cons e before ih =>
    obtain ⟨key, session⟩ := e
    rw [trySessions] at h
    rw [cons_append, trySessions, trySessions]
    cases htry : session.tryDecryptWithSession crypto record src dst
        ⟨budget, lockonWindow, false⟩ with
    | mk session' left =>
      obtain ⟨budget', result⟩ := left
      rw [htry] at h
      cases result with
      | some plaintext => cases h
      | none => exact ih h

theorem trySessions_of_others {before after : List (Bytes × TlsSession)} {key : Bytes}
    {session : TlsSession} (hothers : ∀ e ∈ before ++ after, e.2.Closed crypto record)
    (budget : ℕ) :
    (trySessions crypto record src dst lockonWindow (before ++ (key, session) :: after) budget).2.2 =
      (session.tryDecryptWithSession crypto record src dst
        ⟨(trySessions crypto record src dst lockonWindow before budget).2.1, lockonWindow,
          false⟩).2.2 := by
  have hbefore : (trySessions crypto record src dst lockonWindow before budget).2.2 = none :=
    trySessions_of_closed (fun e he => hothers e (mem_append_left _ he)) budget
  rw [trySessions_append hbefore, trySessions]
  split
  case h_1 htry => rw [htry]
  case h_2 htry =>
    rw [htry]
    exact trySessions_of_closed (fun e he => hothers e (mem_append_right _ he)) _

theorem sessions_ensureSessionsPopulated (d : TlsDecryptor) (n : ℕ) :
    (ensureSessionsPopulated crypto { d with appDataRecords := n }).sessions =
        (d.ensureSessionsPopulated crypto).sessions ∧
      (ensureSessionsPopulated crypto { d with appDataRecords := n }).lockonBudget = d.lockonBudget ∧
      (ensureSessionsPopulated crypto { d with appDataRecords := n }).lockonWindow =
        d.lockonWindow := by
  unfold ensureSessionsPopulated
  dsimp only
  split_ifs <;> exact ⟨rfl, rfl, rfl⟩

theorem decryptInner_snd (d : TlsDecryptor) {src dst : SocketAddr} {timestamp : DateTime}
    (hdata : record.contentType = .applicationData) :
    (d.decryptInner crypto record src dst timestamp).2 =
      (trySessions crypto record src.1 dst.1 d.lockonWindow
        (d.ensureSessionsPopulated crypto).sessions.entries d.lockonBudget).2.2 := by
  obtain ⟨hsessions, hbudget, hwindow⟩ :=
    @sessions_ensureSessionsPopulated crypto d (d.appDataRecords + 1)
  have hoffer : (trySessions crypto record src.1 dst.1 d.lockonWindow
      (d.ensureSessionsPopulated crypto).sessions.entries d.lockonBudget).2.2 =
        (offer crypto (ensureSessionsPopulated crypto
          { d with appDataRecords := d.appDataRecords + 1 }) record src.1 dst.1).2 := by
    rw [offer_snd, hsessions, hbudget, hwindow]
  rw [hoffer, decryptInner, if_neg (not_not.mpr hdata)]
  dsimp only
  split
  case h_1 hsome => rw [hsome]
  case h_2 hnone => rw [hnone]

/-- The content comes back as it was sent, and its type is read, exactly when the record is not
padded and application data does not end in a zero. -/
theorem decryptInner_padded_iff {sealed : Bytes → Bytes → Bytes → Bytes → Bytes}
    (hideal : Ideal crypto sealed) (d : TlsDecryptor) {src dst : SocketAddr} {timestamp : DateTime}
    (hdata : record.contentType = .applicationData) {content : Bytes} {innerType : UInt8}
    {padding : ℕ} {writeKey nonce : Bytes}
    (hsealed : record.payload = sealed writeKey nonce (buildRecordAad record)
      (innerPlaintext content innerType padding))
    {before after : List (Bytes × TlsSession)} {key : Bytes} {session : TlsSession}
    (hsessions : (d.ensureSessionsPopulated crypto).sessions.entries =
      before ++ (key, session) :: after)
    (hversion : session.version = .tls13) (hgcm : session.cipherSuite.isCbc = false)
    (hothers : ∀ e ∈ before ++ after, e.2.Closed crypto record)
    (hopens : ∃ attempt ∈ session.attempts src.1 dst.1
        ⟨(trySessions crypto record src.1 dst.1 d.lockonWindow before d.lockonBudget).2.1,
          d.lockonWindow, false⟩,
      session.openAt crypto record attempt.1 attempt.2 ≠ none) :
    ((d.decryptInner crypto record src dst timestamp).2 =
          (if innerType = 23 then some content else none) ∧
        ∀ isClientToServer seq window opened,
          (session.openRecord crypto record isClientToServer seq window).1 = some opened →
            opened.2.2 = some innerType) ↔
      (innerType = 0 ∨ padding = 0) ∧ (innerType = 23 → content.getLast? ≠ some 0) := by
  have hplaintext : ∀ isClientToServer seq plaintext,
      session.openAt crypto record isClientToServer seq = some plaintext →
        plaintext = innerPlaintext content innerType padding := by
    intro isClientToServer seq plaintext hopen
    unfold TlsSession.openAt at hopen
    rw [hversion] at hopen
    have hpayload := (hideal.opens_iff _ _ _ _ _).mp hopen
    exact (hideal.seal_inj (hpayload.symm.trans hsealed)).2.2.2
  have hreading : ∀ seq, session.reading (innerPlaintext content innerType padding) seq =
      ((stripTls13Padding (innerPlaintext content innerType padding)).1, seq,
        some (if padding = 0 then innerType else 0)) := by
    intro seq
    rw [← stripTls13Padding_snd content innerType padding, TlsSession.reading, hversion]
  have hreturned : (d.decryptInner crypto record src dst timestamp).2 =
      applicationData (stripTls13Padding (innerPlaintext content innerType padding)).1
        (some (if padding = 0 then innerType else 0)) := by
    obtain ⟨attempt, hmem, hopen⟩ := hopens
    obtain ⟨isClientToServer, seq, plaintext, hseq, htry⟩ :=
      @TlsSession.tryDirections_of_attempt crypto session record src.1 dst.1 _ _ _ hversion _ _ _
        hmem hopen none
    rw [decryptInner_snd d hdata, hsessions, trySessions_of_others hothers,
      TlsSession.tryDecryptWithSession, if_neg (by rw [hgcm]; exact Bool.false_ne_true)]
    rw [hplaintext _ _ _ hseq, hreading] at htry
    exact htry
  have hread : (∀ isClientToServer seq window opened,
      (session.openRecord crypto record isClientToServer seq window).1 = some opened →
        opened.2.2 = some innerType) ↔ (innerType = 0 ∨ padding = 0) := by
    constructor
    · intro hall
      obtain ⟨attempt, hmem, hopen⟩ := hopens
      obtain ⟨_, _, htried⟩ := TlsSession.exists_of_mem_attemptsIn hmem
      obtain ⟨plaintext, seq, hseq, hopened⟩ := TlsSession.openRecord_of_open htried hopen
      have htype := hall _ _ _ _ hopened
      rw [hplaintext _ _ _ hseq, hreading, Option.some.injEq] at htype
      by_cases hpadding : padding = 0
      · exact .inr hpadding
      · rw [if_neg hpadding] at htype
        exact .inl htype.symm
    · intro htype isClientToServer seq window opened hopened
      obtain ⟨plaintext, seq', hseq, rfl⟩ := TlsSession.openRecord_eq_some hopened
      rw [hplaintext _ _ _ hseq, hreading]
      obtain htype | hpadding := htype
      · rw [htype]
        split_ifs <;> rfl
      · rw [if_pos hpadding]
  rw [hreturned, hread]
  constructor
  · rintro ⟨hcontent, htype⟩
    refine ⟨htype, ?_⟩
    intro hdata23
    obtain htype | rfl := htype
    · rw [hdata23] at htype
      cases htype
    · rw [stripTls13Padding_unpadded, hdata23] at hcontent
      exact (rdropWhile_zero_eq_iff content).mp (Option.some.inj hcontent)
  · rintro ⟨htype, hzero⟩
    refine ⟨?_, htype⟩
    by_cases hdata23 : innerType = 23
    · obtain htype | rfl := htype
      · rw [hdata23] at htype
        cases htype
      · rw [stripTls13Padding_unpadded, (rdropWhile_zero_eq_iff content).mpr (hzero hdata23),
          if_pos rfl, if_pos hdata23, hdata23]
        rfl
    · have hother : (if padding = 0 then innerType else 0) ≠ 23 := by
        split_ifs
        · exact hdata23
        · decide
      rw [if_neg hdata23, applicationData, Option.any_some, decide_eq_true hother, if_pos rfl]

/-! ## A session with one record -/

def sampleSession : TlsSession :=
  .atStreamStart .tls13 [1] [2] (List.replicate 12 0) (List.replicate 12 0) .aes128Gcm true

def sampleDecryptor : TlsDecryptor :=
  { TlsDecryptor.new [] none false with sessions := ⟨[([7], sampleSession)], by decide⟩ }

def sampleClient : SocketAddr := (.v4 0x0a000001, 50000)

def sampleServer : SocketAddr := (.v4 0x0a000002, 5061)

def sampleRecord (plaintext : Bytes) : TlsRecord where
  contentType := .applicationData
  version := .tls12
  length := UInt16.ofNat (39 + plaintext.length)
  payload := openSeal [1] (tls13Nonce (List.replicate 12 0) 0)
    (buildRecordAad ⟨.applicationData, .tls12, UInt16.ofNat (39 + plaintext.length), []⟩) ++ plaintext

theorem decryptInner_padded_iff_sample :
    ((sampleDecryptor.decryptInner openCrypto (sampleRecord (innerPlaintext [97] 23 0)) sampleClient
          sampleServer 0).2 = (if (23 : UInt8) = 23 then some [97] else none) ∧
        ∀ isClientToServer seq window opened,
          (sampleSession.openRecord openCrypto (sampleRecord (innerPlaintext [97] 23 0))
            isClientToServer seq window).1 = some opened → opened.2.2 = some 23) ↔
      ((23 : UInt8) = 0 ∨ 0 = 0) ∧ ((23 : UInt8) = 23 → ([97] : Bytes).getLast? ≠ some 0) := by
  have hsessions : (sampleDecryptor.ensureSessionsPopulated openCrypto).sessions.entries =
      [] ++ ([7], sampleSession) :: [] := rfl
  exact decryptInner_padded_iff openCrypto_ideal sampleDecryptor rfl rfl hsessions rfl rfl
    (by simp) ⟨(true, 0), by decide +kernel, by decide +kernel⟩

/-- Padding hides application data, and a zero at its end is lost. -/
theorem padded_record_lost :
    (sampleDecryptor.decryptInner openCrypto (sampleRecord (innerPlaintext [97] 23 1)) sampleClient
        sampleServer 0).2 = none ∧
      (sampleDecryptor.decryptInner openCrypto (sampleRecord (innerPlaintext [97, 0] 23 0))
        sampleClient sampleServer 0).2 = some [97] ∧
      ¬ ∀ content padding, (sampleDecryptor.decryptInner openCrypto
        (sampleRecord (innerPlaintext content 23 padding)) sampleClient sampleServer 0).2 =
          some content := by
  have hpadded : (sampleDecryptor.decryptInner openCrypto (sampleRecord (innerPlaintext [97] 23 1))
      sampleClient sampleServer 0).2 = none := by decide +kernel
  refine ⟨hpadded, by decide +kernel, ?_⟩
  intro hall
  rw [hall [97] 1] at hpadded
  cases hpadded

end TlsDecryptor

end Sipnab.Tls
