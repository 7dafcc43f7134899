import Sipnab.Tls.SessionFollower

/-!
# Records on all sessions

A record goes past the sessions in turn until one hands on its plaintext. Where all sessions but one
are shut to a record, what becomes of it is up to that one.
-/

namespace Sipnab.Tls

open List

variable {crypto : CryptoBackend} {record : TlsRecord} {src dst : IpAddr}

/-- A record past sessions, live or again: what the sessions are afterwards, and what was handed
on. -/
inductive Walk (crypto : CryptoBackend) (record : TlsRecord) (src dst : IpAddr) :
    List (Bytes × TlsSession) → List (Bytes × TlsSession) → Option Bytes → Prop
  | nil : Walk crypto record src dst [] [] none
  | skip {key : Bytes} {session : TlsSession} {rest rest' : List (Bytes × TlsSession)}
      {content : Option Bytes}
      (hpinned : session.clientAddr.any (fun a => a ≠ src && a ≠ dst) = true)
      (hrest : Walk crypto record src dst rest rest' content) :
      Walk crypto record src dst ((key, session) :: rest) ((key, session) :: rest') content
  | stop {key : Bytes} {session session' : TlsSession} {rest : List (Bytes × TlsSession)}
      {budget : ℕ} {plaintext : Bytes} (lockon : LockOn)
      (htry : session.tryDecryptWithSession crypto record src dst lockon =
        (session', budget, some plaintext)) :
      Walk crypto record src dst ((key, session) :: rest) ((key, session') :: rest) (some plaintext)
  | next {key : Bytes} {session session' : TlsSession} {rest rest' : List (Bytes × TlsSession)}
      {budget : ℕ} {content : Option Bytes} (lockon : LockOn)
      (htry : session.tryDecryptWithSession crypto record src dst lockon = (session', budget, none))
      (hrest : Walk crypto record src dst rest rest' content) :
      Walk crypto record src dst ((key, session) :: rest) ((key, session') :: rest') content

namespace TlsDecryptor

theorem walk_trySessions (lockonWindow : ℕ) (sessions : List (Bytes × TlsSession)) (budget : ℕ) :
    Walk crypto record src dst sessions
      (trySessions crypto record src dst lockonWindow sessions budget).1
      (trySessions crypto record src dst lockonWindow sessions budget).2.2 := by
  induction sessions generalizing budget with
  | nil => exact .nil
  | cons e sessions ih =>
    rw [trySessions]
    split
    · next htry => exact .stop _ htry
    · next htry => exact .next _ htry (ih _)

theorem walk_replaySessions (lockonWindow : ℕ) (sessions : List (Bytes × TlsSession))
    (budget : ℕ) :
    Walk crypto record src dst sessions
      (replaySessions crypto record src dst lockonWindow sessions budget).1
      (replaySessions crypto record src dst lockonWindow sessions budget).2.2.2 := by
  induction sessions generalizing budget with
  | nil => exact .nil
  | cons e sessions ih =>
    rw [replaySessions]
    split_ifs with hpinned
    · exact .skip hpinned (ih _)
    · split
      · next htry => exact .stop _ htry
      · next htry => exact .next _ htry (ih _)

end TlsDecryptor

/-- What a session may become by records, or by its handshake being seen. -/
inductive Touched (crypto : CryptoBackend) : TlsSession → TlsSession → Prop
  | tried (session : TlsSession) (record : TlsRecord) (src dst : IpAddr) (lockon : LockOn) :
      Touched crypto session (session.tryDecryptWithSession crypto record src dst lockon).1
  | seen (session : TlsSession) :
      Touched crypto session
        { session with handshakeSeen := true, lockonFloor := [], lockonAttempts := 0 }

/-- Whatever becomes of the session, it is shut to records of a kind. -/
def Foreign (crypto : CryptoBackend) (mine : TlsRecord → Prop) (session : TlsSession) : Prop :=
  ∀ session', Relation.ReflTransGen (Touched crypto) session session' →
    ∀ record, mine record → session'.Shut crypto record

theorem Foreign.shut {mine : TlsRecord → Prop} {session : TlsSession}
    (h : Foreign crypto mine session) (hrecord : mine record) : session.Shut crypto record :=
  h session .refl record hrecord

theorem Foreign.touched {mine : TlsRecord → Prop} {session session' : TlsSession}
    (h : Foreign crypto mine session) (htouched : Touched crypto session session') :
    Foreign crypto mine session' := fun session'' hreach => h session'' (hreach.head htouched)

namespace Walk

variable {entries entries' : List (Bytes × TlsSession)} {content : Option Bytes} {key : Bytes}
  {session : TlsSession}

section

variable (h : Walk crypto record src dst entries entries' content)
include h

theorem exists_of_mem {session' : TlsSession} (hmem : (key, session') ∈ entries') :
    ∃ session, (key, session) ∈ entries ∧ (session' = session ∨ ∃ lockon,
      session' = (session.tryDecryptWithSession crypto record src dst lockon).1) := by
  induction h with
  | nil => cases hmem
  | skip hpinned hrest ih =>
    rcases mem_cons.mp hmem with heq | hmem
    · cases heq
      exact ⟨_, mem_cons_self, .inl rfl⟩
    · obtain ⟨session, hin, hsession⟩ := ih hmem
      exact ⟨session, mem_cons_of_mem _ hin, hsession⟩
  | stop lockon htry =>
    rcases mem_cons.mp hmem with heq | hmem
    · cases heq
      exact ⟨_, mem_cons_self, .inr ⟨lockon, by rw [htry]⟩⟩
    · exact ⟨_, mem_cons_of_mem _ hmem, .inl rfl⟩
  | next lockon htry hrest ih =>
    rcases mem_cons.mp hmem with heq | hmem
    · cases heq
      exact ⟨_, mem_cons_self, .inr ⟨lockon, by rw [htry]⟩⟩
    · obtain ⟨session, hin, hsession⟩ := ih hmem
      exact ⟨session, mem_cons_of_mem _ hin, hsession⟩

theorem keys_eq : entries'.map Prod.fst = entries.map Prod.fst := by
  induction h with
  | nil => rfl
  | skip _ _ ih => rw [map_cons, map_cons, ih]
  | stop _ _ => rfl
  | next _ _ _ ih => rw [map_cons, map_cons, ih]

theorem eq_none_of_shut (hshut : ∀ e ∈ entries, e.2.Shut crypto record) : content = none := by
  induction h with
  | nil => rfl
  | skip _ _ ih => exact ih (fun e he => hshut e (mem_cons_of_mem _ he))
  | @stop key session session' rest budget plaintext lockon htry =>
    obtain ⟨budget', hclosed | ⟨-, floor, hclosed⟩⟩ :=
      @TlsSession.tryDecryptWithSession_of_shut crypto session record src dst
        (hshut _ mem_cons_self) lockon <;>
    · rw [hclosed] at htry
      cases htry
  | next _ _ _ ih => exact ih (fun e he => hshut e (mem_cons_of_mem _ he))

/-- Where the other sessions are shut, a record is up to the one left, unless that one is pinned to
another connection. -/
theorem exists_try (hnodup : (entries.map Prod.fst).Nodup) (hmem : (key, session) ∈ entries)
    (hothers : ∀ e ∈ entries, e.1 ≠ key → e.2.Shut crypto record)
    (hfree : session.clientAddr.any (fun a => a ≠ src && a ≠ dst) = false) :
    ∃ lockon session' budget, session.tryDecryptWithSession crypto record src dst lockon =
      (session', budget, content) ∧ (key, session') ∈ entries' := by
  induction h with
  | nil => cases hmem
  | @skip key' session' rest rest' content hpinned hrest ih =>
    rw [map_cons, nodup_cons] at hnodup
    rcases mem_cons.mp hmem with heq | hmem
    · cases heq
      rw [hpinned] at hfree
      cases hfree
    · obtain ⟨lockon, session'', budget, htry, hin⟩ :=
        ih hnodup.2 hmem (fun e he => hothers e (mem_cons_of_mem _ he))
      exact ⟨lockon, session'', budget, htry, mem_cons_of_mem _ hin⟩
  | @stop key' session' session'' rest budget plaintext lockon htry =>
    by_cases hkey : key' = key
    · have heq : session = session' := by
        rcases mem_cons.mp hmem with heq | hin
        · cases heq
          rfl
        · rw [map_cons, nodup_cons] at hnodup
          exact absurd (List.mem_map_of_mem hin) (hkey ▸ hnodup.1)
      rw [heq, ← hkey]
      exact ⟨lockon, session'', budget, htry, mem_cons_self⟩
    · obtain ⟨budget', hclosed | ⟨-, floor, hclosed⟩⟩ :=
        @TlsSession.tryDecryptWithSession_of_shut crypto session' record src dst
          (hothers _ mem_cons_self hkey) lockon <;>
      · rw [hclosed] at htry
        cases htry
  | @next key' session' session'' rest rest' budget content lockon htry hrest ih =>
    rw [map_cons, nodup_cons] at hnodup
    by_cases hkey : key' = key
    · have hout : ∀ e ∈ rest, e.1 ≠ key :=
        fun e he heq => hnodup.1 (List.mem_map.mpr ⟨e, he, heq.trans hkey.symm⟩)
      have heq : session = session' := by
        rcases mem_cons.mp hmem with heq | hin
        · cases heq
          rfl
        · exact absurd rfl (hout _ hin)
      have hnone : content = none := hrest.eq_none_of_shut
        (fun e he => hothers e (mem_cons_of_mem _ he) (hout e he))
      rw [heq, ← hkey, hnone]
      exact ⟨lockon, session'', budget, htry, mem_cons_self⟩
    · have hin : (key, session) ∈ rest := by
        rcases mem_cons.mp hmem with heq | hin
        · cases heq
          exact absurd rfl hkey
        · exact hin
      obtain ⟨lockon', session₁, budget₁, htry₁, hin₁⟩ :=
        ih hnodup.2 hin (fun e he => hothers e (mem_cons_of_mem _ he))
      exact ⟨lockon', session₁, budget₁, htry₁, mem_cons_of_mem _ hin₁⟩

end

end Walk

end Sipnab.Tls
