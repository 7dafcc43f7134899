import Sipnab.Tls.Events
import Sipnab.Tls.Padding

/-!
# Keys that come late

The two traffic secrets of a connection may be loaded at any point of a run. As long as nothing of
what is held is lost, the plaintexts of the connection are those of the run with the secrets there
from the start.
-/

namespace Sipnab.Tls

open TlsDecryptor List

namespace Connection

variable {crypto : CryptoBackend} {conn : Connection crypto}

theorem followed_append (conn : Connection crypto) (direction : Bool)
    (done later : List PendingRecord) :
    conn.followed direction (done ++ later) =
      ((conn.followed direction done).takeAll crypto conn.suite later).1 := by
  rw [followed, Follower.takeAll_append]
  rfl

def Ours (conn : Connection crypto) (events : List Event) (record : TlsRecord) : Prop :=
  ∃ direction, ∃ item ∈ conn.ownRecords direction events, item.record = record

/-- A run with the connection in it and without its keys. Its handshake is captured before its first
record, its records come in order, and its keys open no record of others, nor theirs one of its. -/
structure Scene (conn : Connection crypto) (log : List KeyLogEntry) (d : TlsDecryptor)
    (events : List Event) : Prop where
  start : conn.Waiting (conn.Ours events) log d (fun _ => [])
  apart : conn.Apart (conn.Ours events) log
  order : conn.InOrder (fun direction => conn.ownRecords direction events)
  strangers : ∀ item, Event.record item ∈ events → item.record.contentType = .applicationData →
    (∀ direction, (item.src, item.dst) ≠ conn.sockets direction) →
      Unopened crypto conn.schedule item.record
  silent : ∀ watched entries, Event.keys watched entries ∈ events →
    conn.Silent entries ∧ ∀ e ∈ entries, e ∈ log
  harmless : ∀ before record src dst after,
    events = before ++ Event.handshake record src dst :: after →
    conn.Harmless (conn.Ours events) (d.run crypto before).1 record
  captured : ∀ before after, events = before ++ after →
    (∃ direction, conn.ownRecords direction before ≠ []) →
      conn.observedIn (d.run crypto before).1 = true

namespace Scene

variable {log : List KeyLogEntry} {d : TlsDecryptor} {events first rest : List Event}

theorem mine (direction : Bool) (item : PendingRecord)
    (hitem : item ∈ conn.ownRecords direction events) : conn.Ours events item.record :=
  ⟨direction, item, hitem, rfl⟩

theorem ownRecords_isPrefix (hsplit : events = first ++ rest) (direction : Bool) :
    conn.ownRecords direction first <+: conn.ownRecords direction events := by
  rw [hsplit, ownRecords_append]
  exact prefix_append _ _

theorem behind_ownRecords (before : List Event) (event : Event) :
    conn.behind (fun direction => conn.ownRecords direction before) event =
      fun direction => conn.ownRecords direction (before ++ [event]) := by
  funext direction
  rw [behind, ownRecords_append]

theorem fair (scene : conn.Scene log d events) {event : Event}
    (hsplit : events = first ++ event :: rest) :
    conn.Fair (conn.Ours events) log (d.run crypto first).1 event := by
  have hmem : event ∈ events := by
    rw [hsplit]
    exact mem_append_right _ mem_cons_self
  cases event with
  | handshake record src dst => exact scene.harmless first record src dst rest hsplit
  | keys watched entries => exact scene.silent watched entries hmem
  | rewind => trivial
  | reorder entries => trivial
  | record item =>
    intro hdata
    refine ⟨?_, scene.strangers item hmem hdata⟩
    intro direction hitem
    refine ⟨direction, item, ?_, rfl⟩
    rw [ownRecords, mem_filterMap]
    exact ⟨.record item, hmem, if_pos ⟨hdata, hitem⟩⟩

/-- The handshake is captured before an event that brings a record of the connection, and before all
events after such a one. -/
theorem observed (scene : conn.Scene log d events) {event : Event}
    (hsplit : events = first ++ event :: rest)
    (hsome : ∃ direction, conn.ownRecords direction (first ++ [event]) ≠ []) :
    conn.observedIn (d.run crypto first).1 = true := by
  by_cases hhandshake : ∃ record src dst, event = .handshake record src dst
  · obtain ⟨record, src, dst, rfl⟩ := hhandshake
    apply scene.captured first _ hsplit
    obtain ⟨direction, hne⟩ := hsome
    rw [ownRecords_append] at hne
    exact ⟨direction, fun hnil => hne (by rw [hnil]; rfl)⟩
  · simp only [not_exists] at hhandshake
    have hafter := scene.captured (first ++ [event]) rest (by simp [hsplit]) hsome
    rw [run_concat] at hafter
    rw [← observedIn_of_agree ((apply_spec (d.run crypto first).1 event).1 hhandshake)]
    exact hafter

theorem waiting (scene : conn.Scene log d events) (hsplit : events = first ++ rest)
    (hspared : (d.run crypto first).1.rewindEvicted = d.rewindEvicted) :
    conn.Waiting (conn.Ours events) log (d.run crypto first).1
        (fun direction => conn.ownRecords direction first) ∧
      ∀ direction, ofSockets (conn.sockets direction) (d.run crypto first).2 = [] := by
  induction first using List.reverseRecOn generalizing rest with
  | nil => exact ⟨scene.start, fun _ => rfl⟩
  | append_singleton first event ih =>
    have hsplit' : events = first ++ event :: rest := by simp [hsplit]
    rw [run_concat] at hspared ⊢
    have hle := @rewindEvicted_le_run crypto d first
    have hle' := (@apply_spec crypto (d.run crypto first).1 event).2
    dsimp only at hspared ⊢
    obtain ⟨hwaiting, hnothing⟩ := ih hsplit' (by omega)
    obtain ⟨hafter, hnone⟩ := hwaiting.apply scene.apart
      (fun direction item hitem =>
        mine direction item ((ownRecords_isPrefix hsplit' direction).subset hitem))
      (scene.fair hsplit') (by omega)
    rw [behind_ownRecords] at hafter
    refine ⟨hafter, ?_⟩
    intro direction
    rw [ofSockets_append, hnothing, hnone]
    rfl

theorem following (scene : conn.Scene log d events) {d₁ : TlsDecryptor}
    (hagree : Agree (d.run crypto first).1 d₁)
    (hfollowing : conn.Following (conn.Ours events) log d₁
      (fun direction => conn.ownRecords direction first))
    (later : List Event) (hsplit : events = (first ++ later) ++ rest) :
    conn.Following (conn.Ours events) log (d₁.run crypto later).1
        (fun direction => conn.ownRecords direction (first ++ later)) ∧
      Agree (d.run crypto (first ++ later)).1 (d₁.run crypto later).1 ∧
      ∀ direction, ofSockets (conn.sockets direction) (d₁.run crypto later).2 =
        ((conn.followed direction (conn.ownRecords direction first)).takeAll crypto conn.suite
          (conn.ownRecords direction later)).2 := by
  induction later using List.reverseRecOn generalizing rest with
  | nil =>
    rw [append_nil]
    exact ⟨hfollowing, hagree, fun _ => rfl⟩
  | append_singleton later event ih =>
    have hsplit' : events = (first ++ later) ++ event :: rest := by simp [hsplit]
    have hall : events = (first ++ later ++ [event]) ++ rest := by simp [hsplit]
    obtain ⟨hbefore, hsame, houtputs⟩ := ih hsplit'
    have hobserved : (∃ direction, conn.behind
        (fun direction => conn.ownRecords direction (first ++ later)) event direction ≠ []) →
          conn.observedIn (d₁.run crypto later).1 = true := by
      intro hsome
      rw [behind_ownRecords] at hsome
      rw [observedIn_of_agree hsame]
      exact scene.observed hsplit' hsome
    have hnext : ∀ direction, conn.behind
        (fun direction => conn.ownRecords direction (first ++ later)) event direction <+:
          conn.ownRecords direction events := by
      rw [behind_ownRecords]
      exact ownRecords_isPrefix hall
    obtain ⟨hafter, hnew⟩ := hbefore.apply scene.apart scene.order mine
      ((scene.fair hsplit').agree hsame) hnext hobserved
    rw [behind_ownRecords, append_assoc] at hafter
    rw [← append_assoc, run_concat, run_concat, append_assoc]
    refine ⟨hafter, agree_apply hsame event, ?_⟩
    intro direction
    rw [ofSockets_append, houtputs, hnew, ownRecords_append conn direction later,
      ownRecords_append conn direction first, followed_append, Follower.takeAll_append]

/-! ## Early and late -/

def TriesAll (crypto : CryptoBackend) (d : TlsDecryptor) : Prop :=
  (ensureSessionsPopulated crypto { d with
    lastRewindGeneration := d.keylogGeneration }).WithinTrials crypto

/-- The plaintexts of a direction when the keys come behind the first events: those of the records
held, and those of the later records. -/
theorem outputs_eq (scene : conn.Scene log d events) (hsplit : events = first ++ rest)
    {watched : Bool} {entries : List KeyLogEntry} (hloaded : conn.Loaded entries)
    (hlog : ∀ e ∈ entries, e ∈ log)
    (hspared : (∃ direction, conn.ownRecords direction first ≠ []) →
      (d.run crypto (first ++ [Event.keys watched entries, Event.rewind])).1.rewindEvicted =
          d.rewindEvicted ∧
        TriesAll crypto (d.run crypto (first ++ [Event.keys watched entries])).1)
    (hfirst : (d.run crypto first).1.rewindEvicted = d.rewindEvicted) (direction : Bool) :
    ∃ recovered, ofSockets (conn.sockets direction)
        (d.run crypto (first ++ Event.keys watched entries :: Event.rewind :: rest)).2 =
          recovered ++ ((conn.followed direction (conn.ownRecords direction first)).takeAll crypto
            conn.suite (conn.ownRecords direction rest)).2 ∧
      recovered.Perm ((conn.start direction).takeAll crypto conn.suite
        (conn.ownRecords direction first)).2 ∧
      (((conn.start direction).takeAll crypto conn.suite
          (conn.ownRecords direction first)).2.Pairwise (fun a b => a.timestamp ≤ b.timestamp) →
        recovered = ((conn.start direction).takeAll crypto conn.suite
          (conn.ownRecords direction first)).2) := by
  obtain ⟨hwaiting, hnothing⟩ := scene.waiting hsplit hfirst
  have hloads := loadsKeys_loadKeys (d.run crypto first).1 watched entries
  obtain ⟨hprimed, hlt⟩ := hwaiting.arrives hloads hlog hloaded
  have hkeys : ∀ later, d.run crypto (first ++ Event.keys watched entries :: later) =
      ((((d.run crypto first).1.loadKeys watched entries).run crypto later).1,
        (d.run crypto first).2 ++
          (((d.run crypto first).1.loadKeys watched entries).run crypto later).2) := by
    intro later
    rw [run_append]
    rfl
  rw [hkeys] at hspared ⊢
  rw [hkeys] at hspared
  generalize (d.run crypto first).1.loadKeys watched entries = d₁ at *
  have hrewind : d₁.rewindIfKeysChanged crypto =
      rewind crypto { d₁ with lastRewindGeneration := d₁.keylogGeneration } := by
    rw [rewindIfKeysChanged, if_neg hlt.ne']
  have hrun : ∀ later, d₁.run crypto (.rewind :: later) =
      (((d₁.rewindIfKeysChanged crypto).1.run crypto later).1,
        (d₁.rewindIfKeysChanged crypto).2 ++
          ((d₁.rewindIfKeysChanged crypto).1.run crypto later).2) := fun later => rfl
  rw [hrun] at hspared ⊢
  obtain ⟨hstays, -⟩ := @stays_rewind crypto
    { d₁ with lastRewindGeneration := d₁.keylogGeneration }
  rw [← hrewind] at hstays
  have hagree : Agree (d.run crypto first).1 (d₁.rewindIfKeysChanged crypto).1 :=
    hloads.agree.trans ((unmoved_lastRewindGeneration d₁).agree.trans hstays.agree)
  have hafter := (hprimed.unmoved (unmoved_lastRewindGeneration d₁)).rewind scene.apart scene.order
    (ownRecords_isPrefix hsplit)
    (fun direction item hitem =>
      mine direction item ((ownRecords_isPrefix hsplit direction).subset hitem)) ?_
  · rw [← hrewind] at hafter
    obtain ⟨hfollowing, hrecovered⟩ := hafter
    obtain ⟨-, -, hlater⟩ := @following crypto conn log d events first [] scene _ hagree hfollowing
      rest (by simp [hsplit])
    refine ⟨ofSockets (conn.sockets direction) (d₁.rewindIfKeysChanged crypto).2, ?_,
      hrecovered direction⟩
    rw [ofSockets_append, ofSockets_append, hnothing, hlater, nil_append]
  · intro hsome
    obtain ⟨hevicted, htrials⟩ := hspared hsome
    refine ⟨?_, ?_, htrials⟩
    · have hseen := scene.captured first rest hsplit hsome
      rw [← observedIn_of_agree hloads.agree] at hseen
      exact hseen
    · rw [hrewind] at hevicted
      exact hevicted.trans (hfirst.symm.trans hloads.rewindEvicted.symm)

/-- The plaintexts of a connection are the same whenever its two secrets are loaded, and each is of a
record of its own. -/
theorem late_keys (scene : conn.Scene log d events) (hsplit : events = first ++ rest)
    {watched : Bool} {entries : List KeyLogEntry} (hloaded : conn.Loaded entries)
    (hlog : ∀ e ∈ entries, e ∈ log)
    (hspared : (d.run crypto (first ++ [Event.keys watched entries, Event.rewind])).1.rewindEvicted =
      d.rewindEvicted)
    (htrials : TriesAll crypto (d.run crypto (first ++ [Event.keys watched entries])).1)
    (direction : Bool) :
    (ofSockets (conn.sockets direction)
          (d.run crypto (first ++ Event.keys watched entries :: Event.rewind :: rest)).2).Perm
        (ofSockets (conn.sockets direction)
          (d.run crypto (Event.keys watched entries :: Event.rewind :: events)).2) ∧
      ((conn.ownRecords direction events).Pairwise (fun a b => a.timestamp ≤ b.timestamp) →
        ofSockets (conn.sockets direction)
            (d.run crypto (first ++ Event.keys watched entries :: Event.rewind :: rest)).2 =
          ofSockets (conn.sockets direction)
            (d.run crypto (Event.keys watched entries :: Event.rewind :: events)).2) ∧
      ∃ opened : List (PendingRecord × Bytes),
        (opened.map Prod.fst).Sublist (conn.ownRecords direction events) ∧
          ofSockets (conn.sockets direction)
              (d.run crypto (Event.keys watched entries :: Event.rewind :: events)).2 =
            opened.map (fun p => ⟨p.2, p.1.timestamp, p.1.src, p.1.dst⟩) := by
  have hfirst : (d.run crypto first).1.rewindEvicted = d.rewindEvicted := by
    have hle := @rewindEvicted_le_run crypto d first
    have hle' := @rewindEvicted_le_run crypto (d.run crypto first).1
      [Event.keys watched entries, Event.rewind]
    rw [run_append] at hspared
    dsimp only at hspared
    omega
  have hwhole : (((conn.start direction).takeAll crypto conn.suite
        (conn.ownRecords direction first)).2 ++
      ((conn.followed direction (conn.ownRecords direction first)).takeAll crypto conn.suite
        (conn.ownRecords direction rest)).2) =
      ((conn.start direction).takeAll crypto conn.suite (conn.ownRecords direction events)).2 := by
    rw [hsplit, ownRecords_append, Follower.takeAll_append]
    rfl
  obtain ⟨recovered, hlate, hperm, hsorted⟩ := scene.outputs_eq hsplit hloaded hlog
    (fun _ => ⟨hspared, htrials⟩) hfirst direction
  obtain ⟨nothing, hearly, -, hnothing⟩ := @outputs_eq crypto conn log d events [] events scene rfl
    watched entries hloaded hlog (fun ⟨direction, hne⟩ => absurd rfl hne) rfl direction
  have hstart : ofSockets (conn.sockets direction)
      (d.run crypto (Event.keys watched entries :: Event.rewind :: events)).2 =
        ((conn.start direction).takeAll crypto conn.suite
          (conn.ownRecords direction events)).2 := by
    rw [hnothing .nil] at hearly
    exact hearly
  rw [hlate, hstart, ← hwhole]
  refine ⟨hperm.append_right _, ?_, ?_⟩
  · intro htimes
    rw [hsorted (Follower.pairwise_takeAll _
      (htimes.sublist (ownRecords_isPrefix hsplit direction).sublist))]
  · rw [hwhole]
    exact Follower.exists_sublist_of_takeAll _ _

end Scene

/-! ## A connection with one record -/

theorem keysAfter_openCrypto {suite : CipherSuite} {first : TrafficKeys}
    (hfirst : first.key = first.secret ++ hkdfExpandLabelInfo (ascii "key") [] suite.keyLen)
    {epoch : ℕ} {keys : TrafficKeys} (h : keysAfter openCrypto suite first epoch = some keys) :
    ∃ extra, keys.secret = first.secret ++ extra ∧ epoch ≤ extra.length ∧
      keys.key = keys.secret ++ hkdfExpandLabelInfo (ascii "key") [] suite.keyLen := by
  induction epoch generalizing keys with
  | zero =>
    obtain rfl := Option.some.inj h
    exact ⟨[], (append_nil _).symm, le_rfl, hfirst⟩
  | succ epoch ih =>
    rw [keysAfter] at h
    obtain ⟨before, hbefore, hnext⟩ := Option.bind_eq_some_iff.mp h
    obtain ⟨extra, hsecret, hlength, -⟩ := ih hbefore
    unfold TrafficKeys.next at hnext
    simp only [openCrypto, deriveKeyIv, Option.bind_eq_bind, Option.bind_some, Option.pure_def]
      at hnext
    split_ifs at hnext
    obtain rfl := Option.some.inj hnext
    refine ⟨extra ++ hkdfExpandLabelInfo (ascii "traffic upd") [] before.secret.length, ?_, ?_, rfl⟩
    · rw [hsecret, append_assoc]
    · have hpos : 0 < (hkdfExpandLabelInfo (ascii "traffic upd") [] before.secret.length).length := by
        simp [hkdfExpandLabelInfo]
      rw [length_append]
      omega

def sampleSecret (direction : Bool) : Bytes := List.replicate 32 (if direction then 3 else 4)

def sampleKeys (direction : Bool) : TrafficKeys where
  secret := sampleSecret direction
  key := sampleSecret direction ++ hkdfExpandLabelInfo (ascii "key") [] 16
  iv := sampleSecret direction ++ hkdfExpandLabelInfo (ascii "iv") [] 12

def sampleConnection : Connection openCrypto where
  clientRandom := List.replicate 32 1
  client := sampleClient
  server := sampleServer
  suite := .aes128Gcm
  clientKeys := sampleKeys true
  serverKeys := sampleKeys false
  random_length := length_replicate
  ends_ne := by decide
  suite_eq := rfl
  client_derived := rfl
  server_derived := rfl

def sampleEntries : List KeyLogEntry :=
  [⟨"CLIENT_TRAFFIC_SECRET_0", sampleConnection.clientRandom, sampleSecret true⟩,
    ⟨"SERVER_TRAFFIC_SECRET_0", sampleConnection.clientRandom, sampleSecret false⟩]

def sampleClientHello : TlsRecord :=
  ⟨.handshake, .tls12, 38, [1, 0, 0, 34, 3, 3] ++ sampleConnection.clientRandom⟩

def sampleServerHello : TlsRecord :=
  ⟨.handshake, .tls12, 41, [2, 0, 0, 37, 3, 3] ++ List.replicate 32 9 ++ [0, 0x13, 0x01]⟩

/-- The first record of the client, with one byte of application data. -/
def sampleItem : PendingRecord where
  record :=
    ⟨.applicationData, .tls12, 100, openSeal (sampleKeys true).key (tls13Nonce (sampleKeys true).iv 0)
      (buildRecordAad ⟨.applicationData, .tls12, 100, []⟩) ++ [97, 23]⟩
  src := sampleClient
  dst := sampleServer
  timestamp := 5

def sampleEvents : List Event :=
  [.handshake sampleClientHello sampleClient sampleServer,
    .handshake sampleServerHello sampleServer sampleClient, .record sampleItem]

theorem sample_distinct {direction : Bool} {epoch : ℕ} {keys : TrafficKeys}
    (h : sampleConnection.schedule direction epoch = some keys)
    (hkey : keys.key = (sampleKeys true).key) : direction = true ∧ epoch = 0 := by
  have hfirst : (sampleConnection.firstKeys direction).key =
      (sampleConnection.firstKeys direction).secret ++ hkdfExpandLabelInfo (ascii "key") [] 16 := by
    cases direction <;> rfl
  obtain ⟨extra, hsecret, hlength, hlast⟩ := @keysAfter_openCrypto sampleConnection.suite
    (sampleConnection.firstKeys direction) hfirst epoch keys h
  rw [hlast, hsecret, append_assoc] at hkey
  have hlengths := congrArg List.length hkey
  have hsame : (sampleConnection.firstKeys direction).secret.length = 32 := by
    cases direction <;> rfl
  have hextra : extra = [] := by
    apply eq_nil_of_length_eq_zero
    rw [length_append, length_append, hsame] at hlengths
    have hkeys : (sampleKeys true).key.length =
        32 + (hkdfExpandLabelInfo (ascii "key") [] 16).length := by
      rw [sampleKeys, length_append]
      rfl
    have hlabel : sampleConnection.suite.keyLen = 16 := rfl
    rw [hkeys, hlabel] at hlengths
    omega
  rw [hextra] at hlength hkey
  refine ⟨?_, Nat.le_zero.mp hlength⟩
  cases direction with
  | true => rfl
  | false => exact absurd hkey (by decide)

theorem sample_order :
    sampleConnection.InOrder (fun direction => sampleConnection.ownRecords direction sampleEvents) := by
  intro direction
  cases direction with
  | true =>
    have hown : sampleConnection.ownRecords true sampleEvents = [sampleItem] := by decide +kernel
    have hsealed : SealedAt openCrypto sampleConnection.schedule true (0, 0) [97, 23]
        sampleItem.record :=
      sealedAt_of_ideal openCrypto_ideal (show _ = some (sampleKeys true) from rfl)
        (by decide +kernel) (by decide) (fun _ _ _ => sample_distinct) rfl
    dsimp only
    rw [hown]
    refine ⟨⟨(0, 1), .traffic hsealed (.inl rfl) (.nil _)⟩, ?_⟩
    intro item hitem
    rw [mem_singleton.mp hitem]
    rfl
  | false =>
    have hown : sampleConnection.ownRecords false sampleEvents = [] := by decide +kernel
    dsimp only
    rw [hown]
    exact ⟨⟨(0, 0), .nil _⟩, fun item hitem => absurd hitem not_mem_nil⟩

theorem sample_apart (mine : TlsRecord → Prop) : sampleConnection.Apart mine sampleEntries := by
  intro entries hentries clientRandom hne observed session hsession
  have hnone : entries.filter (fun e => e.clientRandom = clientRandom) = [] := by
    refine filter_eq_nil_iff.mpr ?_
    intro e he
    have hrandom : ∀ e ∈ sampleEntries, e.clientRandom = sampleConnection.clientRandom := by
      decide +kernel
    rw [decide_eq_true_eq, hrandom e (hentries e he)]
    exact fun h => hne h.symm
  rw [hnone] at hsession
  rcases hsession with h | h <;> cases h

theorem sample_scene : sampleConnection.Scene sampleEntries (.new [] none true) sampleEvents where
  start := by
    refine ⟨⟨?_, le_rfl, ?_, le_rfl, ?_⟩, rfl, ?_, rfl, fun _ => rfl⟩
    · exact fun e he => absurd he not_mem_nil
    · exact fun e he => absurd he not_mem_nil
    · exact fun sockets item hitem => absurd hitem not_mem_nil
    · exact fun e he => absurd he not_mem_nil
  apart := sample_apart _
  order := sample_order
  strangers := by
    intro item hitem _ hother
    obtain rfl : item = sampleItem := by simpa [sampleEvents] using hitem
    exact absurd rfl (hother true)
  silent := by
    intro watched entries hkeys
    simp [sampleEvents] at hkeys
  harmless := by
    intro before record src dst after hsplit clientRandom session hderived
    have hmem : Event.handshake record src dst ∈ sampleEvents := by
      rw [hsplit]
      exact mem_append_right _ mem_cons_self
    have hparse : parseClientKeyExchangeRsa record.payload = none := by
      simp only [sampleEvents, mem_cons, Event.handshake.injEq, reduceCtorEq,
        not_mem_nil, or_false] at hmem
      rcases hmem with ⟨rfl, -, -⟩ | ⟨rfl, -, -⟩ <;> decide +kernel
    rw [hparse] at hderived
    cases hderived
  captured := by
    -- Only the whole run has a record of the connection.
    have hbefore : ∀ n < 3, ∀ direction,
        sampleConnection.ownRecords direction (sampleEvents.take n) = [] := by decide +kernel
    have hafter : ∀ n, 3 ≤ n → sampleEvents.take n = sampleEvents :=
      fun n hn => take_of_length_le hn
    intro before after hsplit hsome
    have htake : before = sampleEvents.take before.length := by
      rw [hsplit, take_left]
    rw [htake] at hsome ⊢
    by_cases hlength : before.length < 3
    · obtain ⟨direction, hne⟩ := hsome
      exact absurd (hbefore _ hlength direction) hne
    · rw [hafter _ (Nat.le_of_not_lt hlength)]
      decide +kernel

theorem sample_loaded : sampleConnection.Loaded sampleEntries where
  client := ⟨_, mem_cons_self, rfl, rfl⟩
  server := ⟨_, mem_cons_of_mem _ mem_cons_self, rfl, rfl⟩
  agree := by decide +kernel

/-- The record is recovered when its keys come behind it. -/
theorem late_keys_sample :
    (ofSockets (sampleClient, sampleServer) (TlsDecryptor.run openCrypto (.new [] none true)
        (sampleEvents ++ [Event.keys true sampleEntries, Event.rewind])).2).map
          RecoveredRecord.plaintext = [[97]] ∧
    ofSockets (sampleClient, sampleServer) (TlsDecryptor.run openCrypto (.new [] none true)
        (sampleEvents ++ [Event.keys true sampleEntries, Event.rewind])).2 =
      ofSockets (sampleClient, sampleServer) (TlsDecryptor.run openCrypto (.new [] none true)
        (Event.keys true sampleEntries :: Event.rewind :: sampleEvents)).2 := by
  have hspared : (TlsDecryptor.run openCrypto (.new [] none true)
      (sampleEvents ++ [Event.keys true sampleEntries, Event.rewind])).1.rewindEvicted =
        (TlsDecryptor.new [] none true).rewindEvicted := by decide +kernel
  have htrials : Scene.TriesAll openCrypto (TlsDecryptor.run openCrypto (.new [] none true)
      (sampleEvents ++ [Event.keys true sampleEntries])).1 := by
    intro gone held rest hheld
    have hone : gone = [] := by
      have hlength := congrArg List.length hheld
      rw [length_append, length_cons] at hlength
      have hsingle : (heldRecords (ensureSessionsPopulated openCrypto
          { (TlsDecryptor.run openCrypto (.new [] none true)
              (sampleEvents ++ [Event.keys true sampleEntries])).1 with
            lastRewindGeneration := (TlsDecryptor.run openCrypto (.new [] none true)
              (sampleEvents ++ [Event.keys true sampleEntries])).1.keylogGeneration })).length = 1 := by
        decide +kernel
      have htotal := hlength.symm.trans hsingle
      apply eq_nil_of_length_eq_zero
      omega
    rw [hone]
    decide
  have hlate := sample_scene.late_keys (append_nil sampleEvents).symm sample_loaded
    (fun e he => he) hspared htrials true
  exact ⟨by decide +kernel, hlate.2.1 (by decide +kernel)⟩

end Connection

end Sipnab.Tls
