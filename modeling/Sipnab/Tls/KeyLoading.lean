import Sipnab.Tls.Connection
import Sipnab.Tls.Hold

/-!
# Sessions of the key log

When the key log has the two secrets of a connection, its session is built once, at the start of the
connection's records; until then there is none. Handshakes and keys of others leave it alone.
-/

namespace Sipnab.Tls

open List Option

namespace Connection

variable {crypto : CryptoBackend} (conn : Connection crypto)

/-- A key log that says nothing of the connection that sessions are built from. -/
def Silent (entries : List KeyLogEntry) : Prop :=
  ∀ e ∈ entries, e.clientRandom = conn.clientRandom → e.label ≠ "CLIENT_RANDOM" ∧
    e.label ≠ "CLIENT_TRAFFIC_SECRET_0" ∧ e.label ≠ "SERVER_TRAFFIC_SECRET_0"

/-- A key log with the two traffic secrets of the connection. -/
structure Loaded (entries : List KeyLogEntry) : Prop where
  client : ∃ e ∈ entries, e.clientRandom = conn.clientRandom ∧ e.label = "CLIENT_TRAFFIC_SECRET_0"
  server : ∃ e ∈ entries, e.clientRandom = conn.clientRandom ∧ e.label = "SERVER_TRAFFIC_SECRET_0"
  agree : ∀ e ∈ entries, e.clientRandom = conn.clientRandom → e.label ≠ "CLIENT_RANDOM" ∧
    (e.label = "CLIENT_TRAFFIC_SECRET_0" → e.secret = conn.clientKeys.secret) ∧
      (e.label = "SERVER_TRAFFIC_SECRET_0" → e.secret = conn.serverKeys.secret)

/-- The sessions that the rest of a key log gives are shut to the connection's records. -/
def Apart (mine : TlsRecord → Prop) (log : List KeyLogEntry) : Prop :=
  ∀ entries : List KeyLogEntry, (∀ e ∈ entries, e ∈ log) → ∀ clientRandom, clientRandom ≠ conn.clientRandom →
    ∀ observed session,
      (tls13SessionFromKeylog crypto clientRandom
            (entries.filter (fun e => e.clientRandom = clientRandom)) observed = .ok (some session) ∨
          tls12SessionFromKeylog crypto clientRandom
            (entries.filter (fun e => e.clientRandom = clientRandom)) observed = some session) →
        Foreign crypto mine session

variable {conn} {entries more : List KeyLogEntry}

theorem Loaded.append (h : conn.Loaded entries) (hmore : conn.Silent more) :
    conn.Loaded (entries ++ more) where
  client := by
    obtain ⟨e, he, hclient⟩ := h.client
    exact ⟨e, mem_append_left _ he, hclient⟩
  server := by
    obtain ⟨e, he, hserver⟩ := h.server
    exact ⟨e, mem_append_left _ he, hserver⟩
  agree := by
    intro e he hrandom
    rcases mem_append.mp he with he | he
    · exact h.agree e he hrandom
    · obtain ⟨hlabel, hclient, hserver⟩ := hmore e he hrandom
      exact ⟨hlabel, fun h => absurd h hclient, fun h => absurd h hserver⟩

theorem Silent.append_loaded (h : conn.Silent entries) (hmore : conn.Loaded more) :
    conn.Loaded (entries ++ more) where
  client := by
    obtain ⟨e, he, hclient⟩ := hmore.client
    exact ⟨e, mem_append_right _ he, hclient⟩
  server := by
    obtain ⟨e, he, hserver⟩ := hmore.server
    exact ⟨e, mem_append_right _ he, hserver⟩
  agree := by
    intro e he hrandom
    rcases mem_append.mp he with he | he
    · obtain ⟨hlabel, hclient, hserver⟩ := h e he hrandom
      exact ⟨hlabel, fun h => absurd h hclient, fun h => absurd h hserver⟩
    · exact hmore.agree e he hrandom

theorem Silent.append (h : conn.Silent entries) (hmore : conn.Silent more) :
    conn.Silent (entries ++ more) := by
  intro e he
  rcases mem_append.mp he with he | he
  · exact h e he
  · exact hmore e he

def own (conn : Connection crypto) (entries : List KeyLogEntry) : List KeyLogEntry :=
  entries.filter (fun e => e.clientRandom = conn.clientRandom)

theorem mem_own {e : KeyLogEntry} (h : e ∈ conn.own entries) :
    e ∈ entries ∧ e.clientRandom = conn.clientRandom := by
  rw [own, mem_filter] at h
  exact ⟨h.1, of_decide_eq_true h.2⟩

theorem latestSecret_eq_none {label : String} (h : ∀ e ∈ entries, e.label ≠ label) :
    latestSecret entries label = none := by
  rw [latestSecret, map_eq_none_iff, List.find?_eq_none]
  intro e he
  rw [decide_eq_true_eq]
  exact h e (mem_reverse.mp he)

theorem latestSecret_eq_some {label : String} {secret : Bytes} (hsome : ∃ e ∈ entries, e.label = label)
    (h : ∀ e ∈ entries, e.label = label → e.secret = secret) :
    latestSecret entries label = some secret := by
  obtain ⟨e, he, hlabel⟩ := hsome
  obtain ⟨found, hfound⟩ : ∃ found, entries.reverse.find? (fun e => e.label = label) = some found := by
    rw [← isSome_iff_exists, List.find?_isSome]
    exact ⟨e, mem_reverse.mpr he, decide_eq_true hlabel⟩
  have hmem := mem_reverse.mp (mem_of_find?_eq_some hfound)
  have hfoundLabel : found.label = label := by
    simpa using List.find?_some hfound
  rw [latestSecret, hfound, map_some, h found hmem hfoundLabel]

theorem Silent.tls13 (h : conn.Silent entries) (observed : List HandshakeInfo) :
    tls13SessionFromKeylog crypto conn.clientRandom (conn.own entries) observed = .ok none := by
  have hnone : latestSecret (conn.own entries) "CLIENT_TRAFFIC_SECRET_0" = none :=
    latestSecret_eq_none (fun e he => (h e (mem_own he).1 (mem_own he).2).2.1)
  rw [tls13SessionFromKeylog, hnone]

theorem tls12_eq_none (h : ∀ e ∈ entries, e.clientRandom = conn.clientRandom →
    e.label ≠ "CLIENT_RANDOM") (observed : List HandshakeInfo) :
    tls12SessionFromKeylog crypto conn.clientRandom (conn.own entries) observed = none := by
  have hnone : (conn.own entries).find? (fun e => e.label = "CLIENT_RANDOM") = none := by
    rw [List.find?_eq_none]
    intro e he
    rw [decide_eq_true_eq]
    exact h e (mem_own he).1 (mem_own he).2
  rw [tls12SessionFromKeylog, hnone]
  rfl

theorem Loaded.tls13 (h : conn.Loaded entries) (observed : List HandshakeInfo) :
    tls13SessionFromKeylog crypto conn.clientRandom (conn.own entries) observed =
      .ok (some (conn.fresh (observed.any (fun i => i.clientRandom = some conn.clientRandom)))) := by
  have hown : ∀ {label : String},
      (∃ e ∈ entries, e.clientRandom = conn.clientRandom ∧ e.label = label) →
        ∃ e ∈ conn.own entries, e.label = label := by
    rintro label ⟨e, he, hrandom, hlabel⟩
    exact ⟨e, mem_filter.mpr ⟨he, decide_eq_true hrandom⟩, hlabel⟩
  have hclient : latestSecret (conn.own entries) "CLIENT_TRAFFIC_SECRET_0" =
      some conn.clientKeys.secret :=
    latestSecret_eq_some (hown h.client) (fun e he => (h.agree e (mem_own he).1 (mem_own he).2).2.1)
  have hserver : latestSecret (conn.own entries) "SERVER_TRAFFIC_SECRET_0" =
      some conn.serverKeys.secret :=
    latestSecret_eq_some (hown h.server) (fun e he => (h.agree e (mem_own he).1 (mem_own he).2).2.2)
  rw [tls13SessionFromKeylog, hclient, hserver]
  dsimp only
  rw [conn.suite_eq]
  dsimp only
  rw [conn.client_derived, conn.server_derived]
  rfl

/-! ## Building sessions -/

open TlsDecryptor

variable {mine : TlsRecord → Prop} {log : List KeyLogEntry} {observed : List HandshakeInfo}
  {sessions : IndexMap Bytes TlsSession} {clientRandom : Bytes}

theorem entries_insert {κ ν : Type*} [DecidableEq κ] {m : IndexMap κ ν} {k k' : κ} {v v' : ν}
    (h : (k', v') ∈ (m.insert k v).entries) : (k', v') ∈ m.entries ∨ (k' = k ∧ v' = v) := by
  have hget := IndexMap.get?_eq_some_iff.mpr h
  rw [IndexMap.get?_insert] at hget
  split_ifs at hget with hk
  · exact .inr ⟨hk, (some.inj hget).symm⟩
  · exact .inl (IndexMap.get?_eq_some_iff.mp hget)

theorem populate_of_ne (hne : clientRandom ≠ conn.clientRandom) (hapart : conn.Apart mine log)
    (hlog : ∀ e ∈ entries, e ∈ log) (hothers : conn.Others mine sessions.entries) :
    (populate crypto observed entries sessions clientRandom).get? conn.clientRandom =
        sessions.get? conn.clientRandom ∧
      conn.Others mine (populate crypto observed entries sessions clientRandom).entries := by
  have hinsert : ∀ (sessions : IndexMap Bytes TlsSession) (session : TlsSession),
      conn.Others mine sessions.entries → Foreign crypto mine session →
        (sessions.insert clientRandom session).get? conn.clientRandom =
            sessions.get? conn.clientRandom ∧
          conn.Others mine (sessions.insert clientRandom session).entries := by
    intro sessions session hothers hforeign
    constructor
    · rw [IndexMap.get?_insert, if_neg (fun h => hne h.symm)]
    · intro e he hkey
      rcases entries_insert he with hold | ⟨-, hsession⟩
      · exact hothers e hold hkey
      · rw [hsession]
        exact hforeign
  have hforeign := hapart entries hlog clientRandom hne observed
  unfold populate
  dsimp only
  split_ifs
  · exact ⟨rfl, hothers⟩
  · split
    · exact ⟨rfl, hothers⟩
    · next tls13 htls13 =>
      have hfirst : (tls13.elim sessions (sessions.insert clientRandom)).get? conn.clientRandom =
            sessions.get? conn.clientRandom ∧
          conn.Others mine (tls13.elim sessions (sessions.insert clientRandom)).entries := by
        cases tls13 with
        | none => exact ⟨rfl, hothers⟩
        | some session => exact hinsert sessions session hothers (hforeign session (.inl htls13))
      cases htls12 : tls12SessionFromKeylog crypto clientRandom
          (entries.filter (fun e => e.clientRandom = clientRandom)) observed with
      | none => exact hfirst
      | some session =>
        obtain ⟨hget, hall⟩ := hinsert _ session hfirst.2 (hforeign session (.inr htls12))
        exact ⟨hget.trans hfirst.1, hall⟩

theorem populate_silent (h : conn.Silent entries) :
    populate crypto observed entries sessions conn.clientRandom = sessions := by
  have htls13 := h.tls13 observed
  have htls12 := @tls12_eq_none crypto conn entries (fun e he hr => (h e he hr).1) observed
  rw [own] at htls13 htls12
  unfold populate
  dsimp only
  rw [htls13, htls12]
  split_ifs <;> rfl

theorem populate_loaded (h : conn.Loaded entries) (hothers : conn.Others mine sessions.entries) :
    (populate crypto observed entries sessions conn.clientRandom).get? conn.clientRandom =
        some ((sessions.get? conn.clientRandom).getD
          (conn.fresh (observed.any (fun i => i.clientRandom = some conn.clientRandom)))) ∧
      conn.Others mine (populate crypto observed entries sessions conn.clientRandom).entries := by
  have htls13 := h.tls13 observed
  have htls12 := @tls12_eq_none crypto conn entries (fun e he hr => (h.agree e he hr).1) observed
  rw [own] at htls13 htls12
  unfold populate
  dsimp only
  rw [htls13, htls12]
  dsimp only [elim_some, elim_none]
  split_ifs with hmem
  · obtain ⟨session, hsession⟩ := ne_none_iff_exists'.mp
      (fun hnone => IndexMap.get?_eq_none_iff.mp hnone hmem)
    refine ⟨?_, hothers⟩
    rw [hsession]
    rfl
  · constructor
    · rw [IndexMap.get?_insert, if_pos rfl, IndexMap.get?_eq_none_iff.mpr hmem]
      rfl
    · intro e he hkey
      rcases entries_insert he with hold | ⟨hsame, -⟩
      · exact hothers e hold hkey
      · exact absurd hsame hkey

theorem foldl_populate_silent (h : conn.Silent entries) (hapart : conn.Apart mine log)
    (hlog : ∀ e ∈ entries, e ∈ log) (clientRandoms : List Bytes)
    (hothers : conn.Others mine sessions.entries) :
    (clientRandoms.foldl (populate crypto observed entries) sessions).get? conn.clientRandom =
        sessions.get? conn.clientRandom ∧
      conn.Others mine (clientRandoms.foldl (populate crypto observed entries) sessions).entries := by
  induction clientRandoms generalizing sessions with
  | nil => exact ⟨rfl, hothers⟩
  | cons clientRandom clientRandoms ih =>
    rw [foldl_cons]
    by_cases hne : clientRandom = conn.clientRandom
    · rw [hne, populate_silent h]
      exact ih hothers
    · obtain ⟨hget, hothers'⟩ :=
        @populate_of_ne crypto conn entries mine log observed sessions clientRandom hne hapart hlog
          hothers
      obtain ⟨hget', hothers''⟩ := ih hothers'
      exact ⟨hget'.trans hget, hothers''⟩

theorem foldl_populate_loaded (h : conn.Loaded entries) (hapart : conn.Apart mine log)
    (hlog : ∀ e ∈ entries, e ∈ log) (clientRandoms : List Bytes)
    (hmem : conn.clientRandom ∈ clientRandoms ∨ sessions.get? conn.clientRandom ≠ none)
    (hothers : conn.Others mine sessions.entries) :
    (clientRandoms.foldl (populate crypto observed entries) sessions).get? conn.clientRandom =
        some ((sessions.get? conn.clientRandom).getD
          (conn.fresh (observed.any (fun i => i.clientRandom = some conn.clientRandom)))) ∧
      conn.Others mine (clientRandoms.foldl (populate crypto observed entries) sessions).entries := by
  induction clientRandoms generalizing sessions with
  | nil =>
    obtain ⟨session, hsession⟩ := ne_none_iff_exists'.mp (hmem.resolve_left not_mem_nil)
    rw [foldl_nil, hsession]
    exact ⟨rfl, hothers⟩
  | cons clientRandom clientRandoms ih =>
    rw [foldl_cons]
    by_cases hne : clientRandom = conn.clientRandom
    · rw [hne]
      obtain ⟨hget, hothers'⟩ :=
        @populate_loaded crypto conn entries mine observed sessions h hothers
      have hrest := ih (.inr (by rw [hget]; exact some_ne_none _)) hothers'
      rw [hget] at hrest
      exact hrest
    · obtain ⟨hget, hothers'⟩ :=
        @populate_of_ne crypto conn entries mine log observed sessions clientRandom hne hapart hlog
          hothers
      have hmem' : conn.clientRandom ∈ clientRandoms ∨
          (populate crypto observed entries sessions clientRandom).get? conn.clientRandom ≠ none := by
        rw [hget]
        exact hmem.imp_left (fun h => (mem_cons.mp h).resolve_left (fun heq => hne heq.symm))
      have hrest := ih hmem' hothers'
      rw [hget] at hrest
      exact hrest

theorem Loaded.mem_clientRandoms (h : conn.Loaded entries) :
    conn.clientRandom ∈ clientRandoms entries := by
  obtain ⟨e, he, hrandom, -⟩ := h.client
  rw [clientRandoms, mem_dedup, mem_filter]
  refine ⟨List.mem_map.mpr ⟨e, he, hrandom⟩, ?_⟩
  rw [decide_eq_true_eq]
  exact conn.random_length

end Connection

end Sipnab.Tls
