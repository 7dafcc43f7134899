import Sipnab.Lib.Lines

/-!
# The sections of a session description

One pass over the lines keeps the section that is open, the sections so far, and which of them
named a direction. Each section comes out as it does alone behind the same session part.
-/

namespace Sipnab.Sdp

open Text Option List

/-! ## The parser -/

inductive SdpDirection
  | sendRecv
  | sendOnly
  | recvOnly
  | inactive
  deriving DecidableEq

structure RtpMap where
  payloadType : ℕ
  encoding : List Char
  clockRate : ℕ
  channels : Option ℕ
  deriving DecidableEq

structure SdpCrypto where
  tag : ℕ
  suite : List Char
  keyParams : List Char
  deriving DecidableEq

structure SdpMedia where
  mediaType : List Char
  port : ℕ
  portCount : Option ℕ
  proto : List Char
  formats : List (List Char)
  connection : Option (List Char) := none
  direction : SdpDirection := .sendRecv
  rtpmap : List RtpMap := []
  fmtp : List (List Char) := []
  ptime : Option ℕ := none
  crypto : List SdpCrypto := []
  iceCandidates : List (List Char) := []
  rtcpMux : Bool := false
  rtcpPort : Option ℕ := none
  label : Option (List Char) := none
  deriving DecidableEq

structure SdpSession where
  origin : Option (List Char) := none
  sessionName : Option (List Char) := none
  connection : Option (List Char) := none
  media : List SdpMedia := []
  deriving DecidableEq

inductive ParseError
  | empty
  | invalidUtf8
  | sdpMissingVersion
  | badSdpVersion (version : List Char)
  deriving DecidableEq

def parseU16 : List Char → Option ℕ := parseUnsigned (2 ^ 16)

def parseConnection (value : List Char) : Option (List Char) := (splitWhitespace value)[2]?

def parseMediaLine (value : List Char) : Option SdpMedia :=
  match splitWhitespace value with
  | mediaType :: field :: proto :: formats => do
    let (portText, countText) := match splitOnce '/' field with
      | some (port, count) => (port, some count)
      | none => (field, none)
    let port ← parseU16 portText
    -- A count that is no number makes the whole line malformed.
    let portCount ← match countText with
      | some count => (parseU16 count).map some
      | none => some none
    some { mediaType, port, portCount, proto, formats }
  | _ => none

def parseDirection (value : List Char) : Option SdpDirection :=
  if value = "sendrecv".toList then some .sendRecv
  else if value = "sendonly".toList then some .sendOnly
  else if value = "recvonly".toList then some .recvOnly
  else if value = "inactive".toList then some .inactive
  else none

def parseRtpmap (value : List Char) : Option RtpMap := do
  let (pt, encodingPart) ← splitOnce ' ' value
  let payloadType ← (parseU8 (trim pt)).filter (· ≤ 127)
  let (encoding, rest) ← splitOnce '/' (trim encodingPart)
  let (rate, channels) := match splitOnce '/' rest with
    | some (rate, channels) => (rate, some channels)
    | none => (rest, none)
  let clockRate ← (parseU32 rate).filter (· ≠ 0)
  some ⟨payloadType, encoding, clockRate, channels.bind parseU32⟩

def parseCrypto (value : List Char) : Option SdpCrypto := do
  let (tag, rest) ← splitOnce ' ' value
  let tag ← parseU32 (trim tag)
  let (suite, keyParams) ← splitOnce ' ' rest
  some ⟨tag, trim suite, trim keyParams⟩

def stripPrefix (name : String) (value : List Char) : Option (List Char) :=
  name.toList.isPrefixOf? value

def parseAttribute (value : List Char) (media : SdpMedia) : SdpMedia :=
  match parseDirection value with
  | some dir => { media with direction := dir }
  | none =>
    if value = "rtcp-mux".toList then { media with rtcpMux := true }
    else if let some rest := stripPrefix "rtpmap:" value then
      { media with rtpmap := media.rtpmap ++ (parseRtpmap rest).toList }
    else if let some rest := stripPrefix "fmtp:" value then
      { media with fmtp := media.fmtp ++ [rest] }
    else if let some rest := stripPrefix "ptime:" value then
      { media with ptime := parseU32 (trim rest) }
    else if let some rest := stripPrefix "crypto:" value then
      { media with crypto := media.crypto ++ (parseCrypto rest).toList }
    else if let some rest := stripPrefix "label:" value then
      { media with label := if trim rest = [] then none else some (trim rest) }
    else if let some rest := stripPrefix "candidate:" value then
      { media with iceCandidates := media.iceCandidates ++ [rest] }
    else if let some rest := stripPrefix "rtcp:" value then
      { media with rtcpPort := (splitWhitespace rest).head?.bind parseU16 }
    else media

def fieldOf (line : List Char) : Option (Char × List Char) :=
  match line.rdropWhile (· = '\r') with
  | tag :: '=' :: value => some (tag, value)
  | _ => none

structure Parsing where
  session : SdpSession := {}
  inMedia : Bool := false
  mediaOpen : Bool := false
  sessionDirection : Option SdpDirection := none
  explicitDirection : Finset ℕ := ∅

namespace Parsing

def withMedia (st : Parsing) (media : List SdpMedia) : Parsing :=
  { st with session := { st.session with media := media } }

def modifyLast (st : Parsing) (f : SdpMedia → SdpMedia) : Parsing :=
  st.withMedia (st.session.media.dropLast ++ (st.session.media.getLast?.map f).toList)

def field (st : Parsing) (tag : Char) (value : List Char) : Parsing :=
  if tag = 'o' ∧ st.inMedia = false then
    { st with session := { st.session with origin := some value } }
  else if tag = 's' ∧ st.inMedia = false then
    { st with session := { st.session with sessionName := some value } }
  else if tag = 'c' then
    if st.inMedia then
      if st.mediaOpen then
        st.modifyLast (fun media => { media with connection := parseConnection value })
      else st
    else { st with session := { st.session with connection := parseConnection value } }
  else if tag = 'm' then
    match parseMediaLine value with
    | some media =>
      { st.withMedia (st.session.media ++ [media]) with inMedia := true, mediaOpen := true }
    | none => { st with inMedia := true, mediaOpen := false }
  else if tag = 'a' then
    if st.inMedia then
      if st.mediaOpen then
        { st.modifyLast (parseAttribute value) with
          explicitDirection := if (parseDirection value).isSome then
            insert (st.session.media.length - 1) st.explicitDirection else st.explicitDirection }
      else st
    else
      match parseDirection value with
      | some dir => { st with sessionDirection := some dir }
      | none => st
  else st

def line (st : Parsing) (line : List Char) : Parsing :=
  match fieldOf line with
  | some (tag, value) => st.field tag value
  | none => st

def lines (st : Parsing) (lines : List (List Char)) : Parsing := lines.foldl Parsing.line st

/-- The session's direction goes to the sections that named none. -/
def finish (st : Parsing) : SdpSession :=
  match st.sessionDirection with
  | some dir => { st.session with
      media := st.session.media.zipIdx.map (fun (media, i) =>
        if i ∈ st.explicitDirection then media else { media with direction := dir }) }
  | none => st.session

end Parsing

def checkVersion (text : List Char) : Except ParseError Unit :=
  match (lines text).find? (fun l => trim l ≠ []) with
  | none => .error .sdpMissingVersion
  | some first =>
    match stripPrefix "v=" first with
    | none => .error .sdpMissingVersion
    | some version =>
      if trim version ≠ "0".toList then .error (.badSdpVersion (trim version)) else .ok ()

def parseText (text : List Char) : SdpSession := (Parsing.lines {} (lines text)).finish

def parseSdp (body : List UInt8) : Except ParseError SdpSession :=
  if body.isEmpty then .error .empty
  else
    match Utf8.decode body with
    | none => .error .invalidUtf8
    | some text => (checkVersion text).map (fun _ => parseText text)

/-! ## One section -/

def IsMedia (line : List Char) : Prop := ∃ value, fieldOf line = some ('m', value)

instance decidableIsMedia (line : List Char) : Decidable (IsMedia line) :=
  decidable_of_iff ((fieldOf line).map Prod.fst = some 'm') (by
    rw [IsMedia, map_eq_some_iff]
    constructor
    · rintro ⟨⟨tag, value⟩, hfield, rfl⟩
      exact ⟨value, hfield⟩
    · rintro ⟨value, hfield⟩
      exact ⟨('m', value), hfield, rfl⟩)

def directionOf (line : List Char) : Option SdpDirection :=
  (fieldOf line).bind (fun field => if field.1 = 'a' then parseDirection field.2 else none)

def declared (lines : List (List Char)) : Option SdpDirection :=
  (lines.filterMap directionOf).getLast?

def ownLine (media : SdpMedia) (line : List Char) : SdpMedia :=
  match fieldOf line with
  | some (tag, value) =>
    if tag = 'c' then { media with connection := parseConnection value }
    else if tag = 'a' then parseAttribute value media
    else media
  | none => media

variable {st : Parsing} {line value : List Char} {rest : List (List Char)}

theorem direction_parseAttribute (value : List Char) (media : SdpMedia) :
    (parseAttribute value media).direction = (parseDirection value).getD media.direction := by
  unfold parseAttribute
  cases parseDirection value with
  | some dir => rfl
  | none =>
    dsimp only
    repeat' split
    all_goals rfl

theorem direction_ownLine (media : SdpMedia) (line : List Char) :
    (ownLine media line).direction = (directionOf line).getD media.direction := by
  rw [ownLine, directionOf]
  cases fieldOf line with
  | none => rfl
  | some field =>
    obtain ⟨tag, value⟩ := field
    dsimp only [bind_some]
    by_cases hc : tag = 'c'
    · rw [if_pos hc, if_neg (by rw [hc]; decide)]
      rfl
    · by_cases ha : tag = 'a'
      · rw [if_neg hc, if_pos ha, if_pos ha, direction_parseAttribute]
      · rw [if_neg hc, if_neg ha, if_neg ha]
        rfl

theorem declared_cons (line : List Char) (rest : List (List Char)) :
    declared (line :: rest) = (declared rest).or (directionOf line) := by
  rw [declared, declared, filterMap_cons]
  cases directionOf line with
  | none => rw [or_none]
  | some dir =>
    rw [List.getLast?_cons]
    cases (rest.filterMap directionOf).getLast? <;> rfl

theorem direction_foldl_ownLine (media : SdpMedia) (rest : List (List Char)) :
    (rest.foldl ownLine media).direction = (declared rest).getD media.direction := by
  induction rest generalizing media with
  | nil => rfl
  | cons line rest ih =>
    rw [foldl_cons, ih, direction_ownLine, declared_cons]
    cases declared rest <;> rfl

theorem line_closed (hin : st.inMedia = true) (hopen : st.mediaOpen = false)
    (hline : ¬ IsMedia line) : st.line line = st := by
  rw [Parsing.line]
  cases hfield : fieldOf line with
  | none => rfl
  | some field =>
    obtain ⟨tag, value⟩ := field
    have hm : tag ≠ 'm' := fun hm => hline ⟨value, by rw [hfield, hm]⟩
    simp [Parsing.field, hin, hopen, hm]

/-- With the open section at a description, and its direction named or not. -/
def Parsing.withLast (st : Parsing) (before : List SdpMedia) (media : SdpMedia) (named : Bool) :
    Parsing where
  session := { st.session with media := before ++ [media] }
  inMedia := st.inMedia
  mediaOpen := st.mediaOpen
  sessionDirection := st.sessionDirection
  explicitDirection :=
    if named then insert before.length st.explicitDirection else st.explicitDirection

variable {before : List SdpMedia} {media : SdpMedia}

theorem withLast_withLast (media' : SdpMedia) (named named' : Bool) :
    (st.withLast before media named).withLast before media' named' =
      st.withLast before media' (named' || named) := by
  cases named <;> cases named' <;> simp [Parsing.withLast]

theorem withLast_self (h : st.session.media = before ++ [media]) :
    st.withLast before media false = st := by
  rw [Parsing.withLast, ← h]
  rfl

theorem line_open (hin : st.inMedia = true) (hopen : st.mediaOpen = true)
    (hmedia : st.session.media = before ++ [media]) (hline : ¬ IsMedia line) :
    st.line line = st.withLast before (ownLine media line) (directionOf line).isSome := by
  have hlast (f : SdpMedia → SdpMedia) : st.modifyLast f = st.withLast before (f media) false := by
    rw [Parsing.modifyLast, hmedia, dropLast_concat, List.getLast?_concat]
    rfl
  rw [Parsing.line, ownLine, directionOf]
  cases hfield : fieldOf line with
  | none => exact (withLast_self hmedia).symm
  | some field =>
    obtain ⟨tag, value⟩ := field
    have hm : tag ≠ 'm' := fun hm => hline ⟨value, by rw [hfield, hm]⟩
    dsimp only [bind_some]
    by_cases hc : tag = 'c'
    · subst hc
      simp [Parsing.field, hin, hopen, hlast]
    · by_cases ha : tag = 'a'
      · subst ha
        simp [Parsing.field, hin, hopen, hlast, hmedia, Parsing.withLast]
      · rw [if_neg hc, if_neg ha, if_neg ha, isSome_none, withLast_self hmedia]
        simp [Parsing.field, hin, hm, hc, ha]

theorem lines_open (hin : st.inMedia = true) (hopen : st.mediaOpen = true)
    (hmedia : st.session.media = before ++ [media]) (hrest : ∀ line ∈ rest, ¬ IsMedia line) :
    st.lines rest = st.withLast before (rest.foldl ownLine media) (declared rest).isSome := by
  induction rest generalizing st media with
  | nil => exact (withLast_self hmedia).symm
  | cons line rest ih =>
    rw [forall_mem_cons] at hrest
    have hnext : (st.withLast before (ownLine media line) (directionOf line).isSome).lines rest =
        _ := ih hin hopen rfl hrest.2
    rw [Parsing.lines, foldl_cons, line_open hin hopen hmedia hrest.1, ← Parsing.lines, hnext,
      withLast_withLast, foldl_cons, declared_cons, Option.isSome_or]

theorem lines_closed (hin : st.inMedia = true) (hopen : st.mediaOpen = false)
    (hrest : ∀ line ∈ rest, ¬ IsMedia line) : st.lines rest = st := by
  induction rest with
  | nil => rfl
  | cons line rest ih =>
    rw [forall_mem_cons] at hrest
    rw [Parsing.lines, foldl_cons, line_closed hin hopen hrest.1]
    exact ih hrest.2

/-- The lines of a section: a media line, with a value, and lines that open no other section. -/
def SectionLines (lines : List (List Char)) (value : List Char) (rest : List (List Char)) : Prop :=
  ∃ first, lines = first :: rest ∧ fieldOf first = some ('m', value) ∧ ∀ l ∈ rest, ¬ IsMedia l

/-- The description of a section behind a session part with a direction, if its media line is well
formed. -/
def sectionMedia (dir : Option SdpDirection) (value : List Char) (rest : List (List Char)) :
    List SdpMedia :=
  (parseMediaLine value).toList.map (fun media =>
    { rest.foldl ownLine media with
      direction := (declared rest).getD (dir.getD (rest.foldl ownLine media).direction) })

def Parsing.Marked (st : Parsing) : Prop := ∀ i ∈ st.explicitDirection, i < st.session.media.length

theorem finish_withLast (hmarked : st.Marked) (rest : List (List Char)) :
    (st.withLast st.session.media (rest.foldl ownLine media) (declared rest).isSome).finish.media =
      st.finish.media ++ [{ rest.foldl ownLine media with
        direction := (declared rest).getD
          (st.sessionDirection.getD (rest.foldl ownLine media).direction) }] := by
  have hown := direction_foldl_ownLine media rest
  rw [Parsing.finish, Parsing.finish]
  dsimp only [Parsing.withLast]
  cases st.sessionDirection with
  | none =>
    dsimp only [getD_none]
    cases hdeclared : declared rest with
    | none => rfl
    | some dir =>
      rw [hdeclared, getD_some] at hown
      rw [getD_some, ← hown]
  | some dir =>
    dsimp only [getD_some]
    rw [zipIdx_append, map_append]
    congr 1
    · apply map_congr_left
      rintro ⟨other, i⟩ hmem
      have hne : i ≠ st.session.media.length := (mem_zipIdx' hmem).1.ne
      split_ifs <;> simp_all
    · have hfresh : st.session.media.length ∉ st.explicitDirection :=
        fun hmem => (hmarked _ hmem).ne rfl
      cases hdeclared : declared rest with
      | none => simp [hfresh]
      | some own =>
        rw [hdeclared, getD_some] at hown
        simp [← hown]

/-- A section adds its own description, and leaves the direction of the session part. -/
theorem lines_section (hmarked : st.Marked) {ls : List (List Char)}
    (hlines : SectionLines ls value rest) :
    (st.lines ls).finish.media = st.finish.media ++ sectionMedia st.sessionDirection value rest ∧
      (st.lines ls).sessionDirection = st.sessionDirection ∧ (st.lines ls).Marked := by
  obtain ⟨first, rfl, hfirst, hrest⟩ := hlines
  rw [Parsing.lines, foldl_cons, Parsing.line, hfirst]
  dsimp only
  rw [Parsing.field, if_neg (by simp), if_neg (by simp), if_neg (by decide), if_pos rfl,
    sectionMedia]
  cases parseMediaLine value with
  | none =>
    dsimp only
    rw [← Parsing.lines, lines_closed rfl rfl hrest]
    exact ⟨(append_nil _).symm, rfl, hmarked⟩
  | some media =>
    dsimp only
    rw [← Parsing.lines, lines_open rfl rfl rfl hrest]
    refine ⟨finish_withLast hmarked rest, rfl, ?_⟩
    intro i hi
    have hlength : i < st.session.media.length ∨ i = st.session.media.length := by
      dsimp only [Parsing.withLast] at hi
      split_ifs at hi with hnamed
      · exact (Finset.mem_insert.mp hi).symm.imp_left (hmarked i)
      · exact Or.inl (hmarked i hi)
    change i < (st.session.media ++ [_]).length
    rw [length_append, length_singleton]
    omega

/-! ## The parts of a body -/

/-- The session part has no section, and its direction is the one it names last. -/
theorem lines_session (hin : st.inMedia = false) (hrest : ∀ line ∈ rest, ¬ IsMedia line) :
    (st.lines rest).session.media = st.session.media ∧
      (st.lines rest).explicitDirection = st.explicitDirection ∧
      (st.lines rest).sessionDirection = (declared rest).or st.sessionDirection := by
  induction rest generalizing st with
  | nil => exact ⟨rfl, rfl, rfl⟩
  | cons line rest ih =>
    rw [forall_mem_cons] at hrest
    have hline : (st.line line).inMedia = false ∧ (st.line line).session.media = st.session.media ∧
        (st.line line).explicitDirection = st.explicitDirection ∧
        (st.line line).sessionDirection = (directionOf line).or st.sessionDirection := by
      rw [Parsing.line, directionOf]
      cases hfield : fieldOf line with
      | none => exact ⟨hin, rfl, rfl, rfl⟩
      | some field =>
        obtain ⟨tag, value⟩ := field
        have hm : tag ≠ 'm' := fun hm => hrest.1 ⟨value, by rw [hfield, hm]⟩
        dsimp only [bind_some]
        rw [Parsing.field, hin, if_neg hm]
        split_ifs <;> simp_all
        cases parseDirection value <;> simp [hin]
    obtain ⟨hmedia, hexplicit, hdirection⟩ := ih hline.1 hrest.2
    rw [Parsing.lines, foldl_cons, ← Parsing.lines, hmedia, hexplicit, hdirection,
      declared_cons, hline.2.1, hline.2.2.1, hline.2.2.2, Option.or_assoc]
    exact ⟨rfl, rfl, rfl⟩

theorem linesOf_append (pieces : List (List Char)) {more : List (List Char)} (hmore : more ≠ []) :
    linesOf (pieces ++ more) = pieces.map stripReturn ++ linesOf more := by
  induction pieces with
  | nil => rfl
  | cons piece pieces ih =>
    rw [map_cons, cons_append, cons_append, ← ih]
    cases hnext : pieces ++ more with
    | nil => exact absurd (append_eq_nil_iff.mp hnext).2 hmore
    | cons next rest => rw [linesOf]

theorem lines_append {a : List Char} (ha : a.getLast? = some '\n') (b : List Char) :
    lines (a ++ b) = lines a ++ lines b := by
  obtain ⟨init, rfl⟩ := List.getLast?_eq_some_iff.mp ha
  have hcut (b : List Char) : lines (init ++ ['\n'] ++ b) =
      (split '\n' init).map stripReturn ++ lines b := by
    rw [lines, split_eq_splitOn, append_assoc, singleton_append,
      splitOn_append_cons_self, linesOf_append _ (splitOn_ne_nil _ b),
      ← split_eq_splitOn, ← split_eq_splitOn, lines]
  have hself := hcut []
  rw [append_nil] at hself
  rw [hcut, hself, append_assoc]
  rfl

structure Parts (session : List Char) (sections : List (List Char)) : Prop where
  plain : ∀ line ∈ lines session, ¬ IsMedia line
  each : ∀ sec ∈ sections, ∃ value rest, SectionLines (lines sec) value rest
  whole : ∀ piece ∈ (session :: sections).dropLast, piece.getLast? = some '\n'

variable {session : List Char} {sections : List (List Char)}

theorem Parts.whole_session {sec : List Char} (h : Parts session sections) (hsec : sec ∈ sections) :
    session.getLast? = some '\n' := by
  cases sections with
  | nil => cases hsec
  | cons first sections => exact h.whole session mem_cons_self

theorem lines_flatten {piece : List Char}
    (h : ∀ p ∈ (piece :: sections).dropLast, p.getLast? = some '\n') :
    lines (piece ++ sections.flatten) = lines piece ++ sections.flatMap lines := by
  induction sections generalizing piece with
  | nil => rw [flatten_nil, append_nil, flatMap_nil, append_nil]
  | cons sec sections ih =>
    rw [dropLast_cons_of_ne_nil (cons_ne_nil sec sections), forall_mem_cons] at h
    rw [flatten_cons, lines_append h.1, ih h.2, flatMap_cons]

theorem lines_append_lines (st : Parsing) (a b : List (List Char)) :
    st.lines (a ++ b) = (st.lines a).lines b := foldl_append

theorem Parts.finish_session (h : Parts session sections) :
    (Parsing.lines {} (lines session)).Marked ∧
      (Parsing.lines {} (lines session)).sessionDirection = declared (lines session) ∧
      (Parsing.lines {} (lines session)).finish.media = [] := by
  have hin : ({} : Parsing).inMedia = false := rfl
  obtain ⟨hmedia, hexplicit, hdirection⟩ := lines_session hin h.plain
  refine ⟨?_, hdirection.trans or_none, ?_⟩
  · intro i hi
    rw [hexplicit] at hi
    exact absurd hi (Finset.notMem_empty i)
  · rw [Parsing.finish]
    cases (Parsing.lines {} (lines session)).sessionDirection with
    | none => exact hmedia
    | some dir =>
      rw [hmedia]
      rfl

theorem Parts.media_alone (h : Parts session sections) {sec : List Char} (hsec : sec ∈ sections)
    (hlines : SectionLines (lines sec) value rest) :
    (parseText (session ++ sec)).media = sectionMedia (declared (lines session)) value rest := by
  obtain ⟨hmarked, hdirection, hnone⟩ := h.finish_session
  rw [parseText, lines_append (h.whole_session hsec), lines_append_lines,
    (lines_section hmarked hlines).1, hnone, hdirection, nil_append]

/-- The sections of a body one after the other, each as it is alone. -/
theorem Parts.media_eq (h : Parts session sections) :
    (parseText (session ++ sections.flatten)).media =
      sections.flatMap (fun sec => (parseText (session ++ sec)).media) := by
  obtain ⟨hmarked, hdirection, hnone⟩ := h.finish_session
  -- The sections behind any state that has the session's direction.
  have hrun (more : List (List Char)) (hmore : more ⊆ sections) (st : Parsing)
      (hmarked : st.Marked) (hdirection : st.sessionDirection = declared (lines session)) :
      (st.lines (more.flatMap lines)).finish.media =
        st.finish.media ++ more.flatMap (fun sec => (parseText (session ++ sec)).media) := by
    induction more generalizing st with
    | nil => rw [flatMap_nil, flatMap_nil, append_nil]; rfl
    | cons sec more ih =>
      have hsec := hmore mem_cons_self
      obtain ⟨value, rest, hlines⟩ := h.each sec hsec
      obtain ⟨hmedia, hsame, hmarked'⟩ := lines_section hmarked hlines
      rw [flatMap_cons, flatMap_cons, lines_append_lines,
        ih (fun x hx => hmore (mem_cons_of_mem _ hx)) _ hmarked' (hsame.trans hdirection),
        hmedia, hdirection, h.media_alone hsec hlines, append_assoc]
  rw [parseText, lines_flatten h.whole, lines_append_lines,
    hrun sections (List.Subset.refl _) _ hmarked hdirection, hnone, nil_append]

/-! ## The version -/

theorem not_versioned_of_isMedia (h : IsMedia line) :
    trim line ≠ [] ∧ stripPrefix "v=" line = none := by
  obtain ⟨value, hvalue⟩ := h
  have hhead : ∃ more, line = 'm' :: more := by
    obtain ⟨tail, htail⟩ := List.rdropWhile_prefix (fun c => decide (c = '\r')) (l := line)
    rw [fieldOf] at hvalue
    split at hvalue
    case h_1 tag value' hdrop =>
      obtain ⟨rfl, rfl⟩ := Prod.mk.inj (some.inj hvalue)
      rw [hdrop] at htail
      exact ⟨_, htail.symm⟩
    case h_2 => cases hvalue
  obtain ⟨more, rfl⟩ := hhead
  refine ⟨?_, rfl⟩
  rw [Ne, trim_eq_nil_iff]
  exact fun hblank => absurd (hblank 'm' mem_cons_self) (by decide)

/-- An accepted body has its version in the session part, so each section alone is accepted. -/
theorem Parts.checkVersion_alone (h : Parts session sections) {sec : List Char}
    (hsec : sec ∈ sections) (hok : checkVersion (session ++ sections.flatten) = .ok ()) :
    checkVersion (session ++ sec) = .ok () := by
  rw [checkVersion, lines_flatten h.whole, List.find?_append] at hok
  rw [checkVersion, lines_append (h.whole_session hsec), List.find?_append]
  cases hfind : (lines session).find? (fun l => trim l ≠ []) with
  | some first =>
    rw [hfind] at hok
    exact hok
  | none =>
    rw [hfind, none_or] at hok
    cases sections with
    | nil => cases hsec
    | cons next others =>
      obtain ⟨value, rest, first, hlines, hfield, -⟩ := h.each next mem_cons_self
      obtain ⟨hblank, hversion⟩ := not_versioned_of_isMedia ⟨value, hfield⟩
      rw [flatMap_cons, hlines, cons_append, List.find?_cons_of_pos (by simpa using hblank)] at hok
      dsimp only at hok
      rw [hversion] at hok
      cases hok

theorem parseSdp_eq_ok {body : List UInt8} {text : List Char} {s : SdpSession}
    (hbody : Utf8.decode body = some text) :
    parseSdp body = .ok s ↔ body ≠ [] ∧ checkVersion text = .ok () ∧ s = parseText text := by
  rw [parseSdp, hbody]
  cases body with
  | nil => simp
  | cons b body =>
    dsimp only
    rw [if_neg (by simp)]
    cases checkVersion text with
    | error e => simp [Except.map]
    | ok u => simp [Except.map, eq_comm]

theorem direction_parseMediaLine (h : parseMediaLine value = some media) :
    media.direction = .sendRecv := by
  rw [parseMediaLine] at h
  split at h
  · obtain ⟨port, -, hport⟩ := bind_eq_some_iff.mp h
    split at hport
    all_goals
      obtain ⟨count, -, hmedia⟩ := bind_eq_some_iff.mp hport
      obtain rfl := some.inj hmedia
      rfl
  · cases h

/-- Each section comes out of a body as it comes out alone behind the session part, a malformed one
as nothing. Its direction is the one it names, else the session part's. -/
theorem sections_apart {body : List UInt8} {s : SdpSession} (hparts : Parts session sections)
    (hbody : Utf8.decode body = some (session ++ sections.flatten)) (hok : parseSdp body = .ok s)
    {alone : List Char → List UInt8}
    (halone : ∀ sec ∈ sections, Utf8.decode (alone sec) = some (session ++ sec)) :
    ∃ one : List Char → SdpSession, s.media = sections.flatMap (fun sec => (one sec).media) ∧
      ∀ sec ∈ sections, parseSdp (alone sec) = .ok (one sec) ∧
        ∀ value rest, SectionLines (lines sec) value rest →
          (one sec).media.length = (parseMediaLine value).toList.length ∧
          ∀ media ∈ (one sec).media, media.direction =
            (declared rest).getD ((declared (lines session)).getD .sendRecv) := by
  obtain ⟨-, hversion, rfl⟩ := (parseSdp_eq_ok hbody).mp hok
  refine ⟨fun sec => parseText (session ++ sec), hparts.media_eq, fun sec hsec => ⟨?_, ?_⟩⟩
  · refine (parseSdp_eq_ok (halone sec hsec)).mpr
      ⟨fun hnil => ?_, hparts.checkVersion_alone hsec hversion, rfl⟩
    have hempty := halone sec hsec
    rw [hnil] at hempty
    have hsession := hparts.whole_session hsec
    rw [(append_eq_nil_iff.mp (some.inj hempty).symm).1] at hsession
    cases hsession
  · intro value rest hlines
    rw [hparts.media_alone hsec hlines, sectionMedia]
    refine ⟨length_map _, fun media hmedia => ?_⟩
    obtain ⟨first, hfirst, rfl⟩ := List.mem_map.mp hmedia
    rw [direction_foldl_ownLine, direction_parseMediaLine (mem_toList.mp hfirst)]
    cases declared rest <;> rfl

def bytesOf (text : List Char) : List UInt8 := text.map (fun c => UInt8.ofNat c.toNat)

def sampleSession : List Char := "v=0\na=sendonly\n".toList

def sampleSections : List (List Char) :=
  ["m=audio 8000 X\r\n".toList, "m=audio none X\na=recvonly\n".toList,
    "m=text 9000 X\na=inactive".toList]

/-- The direction behind the malformed line goes to no section. -/
theorem sections_apart_sample : ∃ (s : SdpSession) (one : List Char → SdpSession),
    parseSdp (bytesOf (sampleSession ++ sampleSections.flatten)) = .ok s ∧
      s.media.map SdpMedia.direction = [.sendOnly, .inactive] ∧
      s.media = sampleSections.flatMap (fun sec => (one sec).media) := by
  have hparts : Parts sampleSession sampleSections := by
    refine ⟨by decide, ?_, by decide⟩
    intro sec hsec
    simp only [sampleSections, mem_cons, not_mem_nil, or_false] at hsec
    obtain rfl | rfl | rfl := hsec
    · exact ⟨_, _, _, rfl, rfl, by decide⟩
    · exact ⟨_, _, _, rfl, rfl, by decide⟩
    · exact ⟨_, _, _, rfl, rfl, by decide⟩
  have halone : ∀ sec ∈ sampleSections,
      Utf8.decode (bytesOf (sampleSession ++ sec)) = some (sampleSession ++ sec) := by
    simp only [sampleSections, forall_mem_cons]
    exact ⟨rfl, rfl, rfl, List.forall_mem_nil _⟩
  have hbody : Utf8.decode (bytesOf (sampleSession ++ sampleSections.flatten)) =
      some (sampleSession ++ sampleSections.flatten) := rfl
  obtain ⟨one, hmedia, -⟩ := sections_apart hparts hbody rfl halone
  exact ⟨_, one, rfl, by decide, hmedia⟩

end Sipnab.Sdp
