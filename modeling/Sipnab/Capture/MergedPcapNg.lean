import Sipnab.Capture.PcapNgSections

/-!
# Captures whose interfaces disagree

A second reader takes the blocks of a pcapng file from a decoder and gives each frame the link type
of the interface its block names. It has one table of interfaces for the whole file, and interfaces
are numbered from zero in every section: in a later section a number may name an interface of an
earlier one.
-/

namespace Sipnab.Pcap

open List

/-- A block as the decoder hands it out. The time is in nanoseconds since the epoch. -/
inductive DecodedBlock
  | sectionHeader
  | interfaceDescription (linktype : ℕ)
  | enhancedPacket (interfaceId timestamp originalLen : ℕ) (data : Bytes)
  | simplePacket (originalLen : ℕ) (data : Bytes)
  | other
  deriving DecidableEq

structure MergedFrame where
  data : Bytes
  ts : ℤ
  caplen : ℕ
  origlen : ℕ
  linkType : ℕ
  deriving DecidableEq

/-- The seconds as a signed number; a time outside the calendar is the epoch. -/
def epochToUtc (d : ℕ) : ℤ :=
  let secs := (BitVec.ofNat 64 (d / 1000000000)).toInt
  if -8334601228800 ≤ secs ∧ secs ≤ 8210266876799 then secs * 1000000000 + (d % 1000000000 : ℕ)
  else 0

/-- The reader between two blocks: its table, its frames and the blocks it could not use. -/
structure MergedPcapNg where
  ifaces : List ℕ
  frames : List MergedFrame
  skipped : ℕ
  deriving DecidableEq

namespace MergedPcapNg

def frame (ts : ℤ) (originalLen linkType : ℕ) (data : Bytes) : MergedFrame :=
  ⟨data, ts, data.length % 2 ^ 32, originalLen, linkType⟩

def readBlock (m : MergedPcapNg) : DecodedBlock → MergedPcapNg
  | .interfaceDescription linktype => { m with ifaces := m.ifaces ++ [linktype] }
  | .enhancedPacket interfaceId timestamp originalLen data =>
    match m.ifaces[interfaceId]? with
    | none => { m with skipped := m.skipped + 1 }
    | some linkType =>
      { m with frames := m.frames ++ [frame (epochToUtc timestamp) originalLen linkType data] }
  | .simplePacket originalLen data =>
    match m.ifaces.head? with
    | none => { m with skipped := m.skipped + 1 }
    | some linkType => { m with frames := m.frames ++ [frame 0 originalLen linkType data] }
  | _ => m

def readBlocks (blocks : List DecodedBlock) : MergedPcapNg := blocks.foldl readBlock ⟨[], [], 0⟩

def «open» (decode : Bytes → Except String (List DecodedBlock)) (bytes : Bytes) :
    Except String MergedPcapNg := (decode bytes).map readBlocks

end MergedPcapNg

/-! ## The blocks of a file -/

/-- How a block is decoded as the format says, with a clock for the packets' times and a reading of
simple packets. -/
def Block.decoded (clock : PacketBlock → ℕ) (simple : OtherBlock → DecodedBlock) :
    Block → DecodedBlock
  | .interface i => .interfaceDescription i.linkType
  | .packet p => .enhancedPacket p.interfaceId (clock p) p.origLen p.data
  | .other o => if o.blockType = 3 then simple o else .other

def Section.decoded (clock : PacketBlock → ℕ) (simple : OtherBlock → DecodedBlock) (s : Section) :
    List DecodedBlock :=
  .sectionHeader :: s.blocks.map (Block.decoded clock simple)

def Enhanced (blocks : List Block) : Prop := ∀ o, Block.other o ∈ blocks → o.blockType ≠ 3

theorem Enhanced.tail {b : Block} {blocks : List Block} (h : Enhanced (b :: blocks)) :
    Enhanced blocks := fun o ho => h o (mem_cons_of_mem b ho)

def MergedFrame.content (f : MergedFrame) : Bytes × ℕ × ℕ := (f.data, f.origlen, f.linkType)

def PcapPacket.content (p : PcapPacket) : Bytes × ℕ × ℕ := (p.data, p.origLen, p.linkType)

def linkTypesOf (blocks : List Block) : List ℕ := (interfacesOf blocks).map NgInterface.linkType

@[simp] theorem linkTypesOf_cons (b : Block) (blocks : List Block) :
    linkTypesOf (b :: blocks) = linkTypesOf [b] ++ linkTypesOf blocks := by
  rw [linkTypesOf, linkTypesOf, linkTypesOf, ← map_append]
  congr 1
  cases b <;> rfl

/-- The interface a packet names in its section has the link type of the interface with that number
in the table of the file. -/
def SameLinkType (before own : List ℕ) (p : PacketBlock) : Prop :=
  (before ++ own)[p.interfaceId]? = own[p.interfaceId]?

/-- Every packet has the link type of its own section's interface, in a file whose earlier sections
described some interfaces. -/
def SameLinkTypes : List ℕ → List Section → Prop
  | _, [] => True
  | before, s :: rest =>
    (∀ p, Block.packet p ∈ s.blocks → SameLinkType before (linkTypesOf s.blocks) p) ∧
      SameLinkTypes (before ++ linkTypesOf s.blocks) rest

namespace MergedPcapNg

variable {clock : PacketBlock → ℕ} {simple : OtherBlock → DecodedBlock} {m : MergedPcapNg} {blocks : List Block}

/-- What the frames of some blocks are, with a table of link types. -/
def contentsOn (linkTypes : List ℕ) (blocks : List Block) : List (Bytes × ℕ × ℕ) :=
  blocks.filterMap (fun
    | .packet p => linkTypes[p.interfaceId]?.map (fun linkType => (p.data, p.origLen, linkType))
    | _ => none)

theorem contents_packets (interfaces : List NgInterface) (blocks : List Block) :
    (blocks.filterMap (Block.packetOn interfaces)).map PcapPacket.content
      = contentsOn (interfaces.map NgInterface.linkType) blocks := by
  rw [contentsOn, map_filterMap]
  apply filterMap_congr
  intro b _
  cases b with
  | interface i => rfl
  | other o => rfl
  | packet p =>
    change ((interfaces[p.interfaceId]?).map p.on).map PcapPacket.content = _
    rw [Option.map_map]
    dsimp only
    rw [List.getElem?_map, Option.map_map]
    rfl

/-- The blocks of a section through the reader: the table grows by the section's link types, and a
packet finds its number in the table of the file. -/
theorem foldl_readBlock {n : ℕ} (hn : n ≤ m.ifaces.length) (hdeclared : Declared n blocks)
    (henhanced : Enhanced blocks) :
    ((blocks.map (Block.decoded clock simple)).foldl readBlock m).ifaces = m.ifaces ++ linkTypesOf blocks ∧
      ((blocks.map (Block.decoded clock simple)).foldl readBlock m).frames.map MergedFrame.content
        = m.frames.map MergedFrame.content
          ++ contentsOn (m.ifaces ++ linkTypesOf blocks) blocks := by
  induction blocks generalizing m n with
  | nil => exact ⟨(append_nil _).symm, (append_nil _).symm⟩
  | cons b blocks ih =>
    rw [map_cons, foldl_cons, linkTypesOf_cons, ← append_assoc]
    have henhanced' := henhanced.tail
    cases b with
    | interface i =>
      have hlength : n + 1 ≤ (m.ifaces ++ [i.linkType]).length := by
        rw [length_append, length_singleton]
        omega
      exact @ih { m with ifaces := m.ifaces ++ [i.linkType] } (n + 1) hlength hdeclared henhanced'
    | other o =>
      have hnone : m.ifaces ++ linkTypesOf [.other o] = m.ifaces := append_nil _
      have hread : m.readBlock ((Block.other o).decoded clock simple) = m := by
        rw [Block.decoded, if_neg (henhanced o (mem_cons_self ..))]
        rfl
      rw [hnone, hread]
      exact ih hn hdeclared henhanced'
    | packet p =>
      obtain ⟨hid, hdeclared⟩ := hdeclared
      have hnone : m.ifaces ++ linkTypesOf [.packet p] = m.ifaces := append_nil _
      have hin : p.interfaceId < m.ifaces.length := by omega
      have hget : m.ifaces[p.interfaceId]? = some (m.ifaces[p.interfaceId]) :=
        List.getElem?_eq_getElem hin
      have hget' : (m.ifaces ++ linkTypesOf blocks)[p.interfaceId]?
          = some (m.ifaces[p.interfaceId]) := by
        rw [List.getElem?_append_left hin, hget]
      have hread : m.readBlock ((Block.packet p).decoded clock simple)
          = { m with frames := m.frames
                ++ [frame (epochToUtc (clock p)) p.origLen m.ifaces[p.interfaceId] p.data] } := by
        rw [Block.decoded, readBlock, hget]
      obtain ⟨hifaces, hframes⟩ := @ih (m.readBlock ((Block.packet p).decoded clock simple)) n
        (by rw [hread]; exact hn) hdeclared henhanced'
      rw [hnone, contentsOn, filterMap_cons]
      dsimp only
      rw [hget', ← contentsOn, hifaces, hframes, hread]
      refine ⟨rfl, ?_⟩
      rw [map_append, append_assoc]
      rfl

/-- The contents of the frames of a file whose earlier sections described some interfaces. -/
def mergedContents : List ℕ → List Section → List (Bytes × ℕ × ℕ)
  | _, [] => []
  | before, s :: rest =>
    contentsOn (before ++ linkTypesOf s.blocks) s.blocks
      ++ mergedContents (before ++ linkTypesOf s.blocks) rest

theorem foldl_sections (sections : List Section)
    (henhanced : ∀ s ∈ sections, Enhanced s.blocks) :
    ((sections.flatMap (Section.decoded clock simple)).foldl readBlock m).frames.map MergedFrame.content
      = m.frames.map MergedFrame.content ++ mergedContents m.ifaces sections := by
  induction sections generalizing m with
  | nil => exact (append_nil _).symm
  | cons s rest ih =>
    obtain ⟨hifaces, hframes⟩ := @foldl_readBlock clock simple m s.blocks 0 (Nat.zero_le _)
      s.declared (henhanced s (mem_cons_self ..))
    rw [flatMap_cons, foldl_append,
      ih (fun t ht => henhanced t (mem_cons_of_mem s ht)), Section.decoded, foldl_cons]
    change List.map MergedFrame.content ((s.blocks.map (Block.decoded clock simple)).foldl readBlock m).frames
      ++ mergedContents ((s.blocks.map (Block.decoded clock simple)).foldl readBlock m).ifaces rest = _
    rw [hifaces, hframes, mergedContents, append_assoc]

/-! ## Agreement -/

theorem id_lt_of_declared {n : ℕ} (h : Declared n blocks) :
    ∀ p, Block.packet p ∈ blocks → p.interfaceId < n + (linkTypesOf blocks).length := by
  induction blocks generalizing n with
  | nil =>
    intro p hp
    cases hp
  | cons b blocks ih =>
    intro p hp
    rw [linkTypesOf_cons, length_append]
    cases b with
    | interface i =>
      have hone : (linkTypesOf [.interface i]).length = 1 := rfl
      obtain hp | hp := mem_cons.mp hp
      · cases hp
      · have hlt := ih h p hp
        omega
    | other o =>
      obtain hp | hp := mem_cons.mp hp
      · cases hp
      · have hlt := ih h p hp
        omega
    | packet q =>
      obtain hp | hp := mem_cons.mp hp
      · cases hp
        have hlt := h.1
        omega
      · have hlt := ih h.2 p hp
        omega

/-- With two tables that have every number, the same frames come out with the link types of each. -/
theorem contentsOn_agree {before own : List ℕ}
    (hin : ∀ p, Block.packet p ∈ blocks → p.interfaceId < own.length) :
    (contentsOn (before ++ own) blocks).length = (contentsOn own blocks).length ∧
      (contentsOn (before ++ own) blocks = contentsOn own blocks ↔
        ∀ p, Block.packet p ∈ blocks → SameLinkType before own p) := by
  induction blocks with
  | nil => exact ⟨rfl, iff_of_true rfl (fun p hp => (by cases hp))⟩
  | cons b blocks ih =>
    obtain ⟨hlength, hagree⟩ := ih (fun p hp => hin p (mem_cons_of_mem b hp))
    unfold contentsOn at hlength hagree ⊢
    rw [filterMap_cons, filterMap_cons]
    cases b with
    | interface i =>
      refine ⟨hlength, hagree.trans ⟨fun h p hp => ?_, fun h p hp => h p (mem_cons_of_mem _ hp)⟩⟩
      obtain hp | hp := mem_cons.mp hp
      · cases hp
      · exact h p hp
    | other o =>
      refine ⟨hlength, hagree.trans ⟨fun h p hp => ?_, fun h p hp => h p (mem_cons_of_mem _ hp)⟩⟩
      obtain hp | hp := mem_cons.mp hp
      · cases hp
      · exact h p hp
    | packet q =>
      have hown : q.interfaceId < own.length := hin q (mem_cons_self ..)
      have hall : q.interfaceId < (before ++ own).length := by
        rw [length_append]
        omega
      dsimp only
      rw [List.getElem?_eq_getElem hown, List.getElem?_eq_getElem hall]
      dsimp only [Option.map_some]
      refine ⟨congrArg (· + 1) hlength, ?_⟩
      rw [List.cons.injEq, Prod.mk.injEq, Prod.mk.injEq, hagree]
      have hsame : SameLinkType before own q ↔ (before ++ own)[q.interfaceId] = own[q.interfaceId] := by
        rw [SameLinkType, List.getElem?_eq_getElem hown, List.getElem?_eq_getElem hall,
          Option.some.injEq]
      constructor
      · rintro ⟨⟨-, -, hq⟩, hrest⟩ p hp
        obtain hp | hp := mem_cons.mp hp
        · cases hp
          exact hsame.mpr hq
        · exact hrest p hp
      · intro h
        exact ⟨⟨rfl, rfl, hsame.mp (h q (mem_cons_self ..))⟩,
          fun p hp => h p (mem_cons_of_mem _ hp)⟩

theorem mergedContents_iff (before : List ℕ) (sections : List Section) :
    mergedContents before sections
        = sections.flatMap (fun s => contentsOn (linkTypesOf s.blocks) s.blocks) ↔
      SameLinkTypes before sections := by
  induction sections generalizing before with
  | nil => exact iff_of_true rfl trivial
  | cons s rest ih =>
    have hin : ∀ p, Block.packet p ∈ s.blocks → p.interfaceId < (linkTypesOf s.blocks).length := by
      intro p hp
      have hlt := id_lt_of_declared s.declared p hp
      omega
    obtain ⟨hlength, hagree⟩ := @contentsOn_agree s.blocks before _ hin
    rw [mergedContents, flatMap_cons, SameLinkTypes, ← hagree, ← ih]
    exact ⟨fun h => append_inj h hlength, fun h => by rw [h.1, h.2]⟩

end MergedPcapNg

/-- In a file with one byte order the two readers give the same frames exactly when every packet
finds its section's link type in the table of the whole file. -/
theorem merged_agrees_iff (clock : PacketBlock → ℕ) (simple : OtherBlock → DecodedBlock)
    {bigEndian : Bool} {sections : List Section}
    (hne : sections ≠ []) (horder : ∀ s ∈ sections, s.bigEndian = bigEndian)
    (henhanced : ∀ s ∈ sections, Enhanced s.blocks)
    {decode : Bytes → Except String (List DecodedBlock)}
    (hdecode : decode (encodeFile sections) = .ok (sections.flatMap (Section.decoded clock simple))) :
    ∃ merged packets, MergedPcapNg.open decode (encodeFile sections) = .ok merged ∧
      readFile (encodeFile sections) = .ok packets ∧
      (merged.frames.map MergedFrame.content = packets.map PcapPacket.content ↔
        SameLinkTypes [] sections) := by
  have hreads : ∀ rest : List Section, (∀ s ∈ rest, s.bigEndian = bigEndian) →
      Reads bigEndian rest := by
    intro rest hrest
    induction rest with
    | nil => trivial
    | cons s rest ih =>
      have hs := hrest s (mem_cons_self ..)
      refine .inl ⟨hs ▸ s.headerRead_self, ?_⟩
      rw [hs]
      exact ih (fun t ht => hrest t (mem_cons_of_mem s ht))
  obtain ⟨first, rest, rfl⟩ := exists_cons_of_ne_nil hne
  have hfirst := horder first (mem_cons_self ..)
  have hread := (readFile_iff first rest).1
    (hfirst ▸ hreads rest (fun s hs => horder s (mem_cons_of_mem first hs)))
  refine ⟨_, _, by rw [MergedPcapNg.open, hdecode]; rfl, hread, ?_⟩
  have hpackets : ((first :: rest).flatMap Section.packets).map PcapPacket.content
      = (first :: rest).flatMap (fun s => MergedPcapNg.contentsOn (linkTypesOf s.blocks) s.blocks) := by
    rw [map_flatMap]
    exact flatMap_congr (fun s _ => MergedPcapNg.contents_packets _ s.blocks)
  have hframes := @MergedPcapNg.foldl_sections clock simple ⟨[], [], 0⟩ (first :: rest) henhanced
  rw [hpackets, ← MergedPcapNg.mergedContents_iff]
  change List.map MergedFrame.content (((first :: rest).flatMap (Section.decoded clock simple)).foldl
    MergedPcapNg.readBlock ⟨[], [], 0⟩).frames = _ ↔ _
  rw [hframes]
  exact Iff.rfl

/-- A section with one interface of a link type and one packet on it. -/
def linkSection (linkType : ℕ) (h : linkType < 2 ^ 16) : Section where
  bigEndian := false
  header := toBytes false 2 1 ++ (toBytes false 2 0 ++ List.replicate 8 0xff)
  blocks := [.interface ⟨linkType, [0, 0, 0, 0, 0, 0], [], true, h, rfl⟩, .packet (byteBlock 65)]
  header_long := by decide
  header_size := by decide
  sizes := by
    intro block hblock
    obtain rfl | rfl := mem_pair.mp hblock
    · simp [Block.body, encodeOptions]
    · simp [Block.body, byteBlock]
  declared := ⟨Nat.zero_lt_one, trivial⟩

/-- Two sections: the captures of an Ethernet interface and of one with raw IP. -/
def twoLinks : List Section := [linkSection 1 etherBlock.linkType_lt, linkSection 101 (by decide)]

theorem enhanced_twoLinks : ∀ s ∈ twoLinks, Enhanced s.blocks := by
  intro s hs o ho
  obtain rfl | rfl := mem_pair.mp hs
  · obtain ho | ho := mem_pair.mp ho <;> cases ho
  · obtain ho | ho := mem_pair.mp ho <;> cases ho

def decoderOf (sections : List Section) (_ : Bytes) : Except String (List DecodedBlock) :=
  .ok (sections.flatMap (Section.decoded (fun _ => 5000) (fun _ => .other)))

/-- With one section the readers agree. -/
theorem merged_agrees_one_section :
    ∃ merged packets,
      MergedPcapNg.open (decoderOf [linkSection 1 (by decide)])
          (encodeFile [linkSection 1 (by decide)]) = .ok merged ∧
      readFile (encodeFile [linkSection 1 (by decide)]) = .ok packets ∧
      merged.frames.map MergedFrame.content = packets.map PcapPacket.content := by
  have horder : ∀ s ∈ [linkSection 1 (by decide)], s.bigEndian = false := by
    intro s hs
    rw [mem_singleton.mp hs]
    rfl
  have henhanced : ∀ s ∈ [linkSection 1 (by decide)], Enhanced s.blocks := fun s hs =>
    enhanced_twoLinks s (mem_cons.mpr (Or.inl (mem_singleton.mp hs)))
  have hdecode : decoderOf [linkSection 1 (by decide)] (encodeFile [linkSection 1 (by decide)])
      = .ok ([linkSection 1 (by decide)].flatMap
        (Section.decoded (fun _ => 5000) (fun _ => .other))) := rfl
  obtain ⟨merged, packets, hopen, hread, hiff⟩ :=
    merged_agrees_iff _ _ (cons_ne_nil _ _) horder henhanced hdecode
  exact ⟨merged, packets, hopen, hread, hiff.mpr ⟨fun p _ => rfl, trivial⟩⟩

/-- The packet of the second section gets the link type of the first section's interface. -/
theorem second_section_first_link :
    (∀ s ∈ twoLinks, s.bigEndian = false ∧ Enhanced s.blocks) ∧
      ∃ merged packets, MergedPcapNg.open (decoderOf twoLinks) (encodeFile twoLinks) = .ok merged ∧
        readFile (encodeFile twoLinks) = .ok packets ∧
        merged.frames.map MergedFrame.content = [([65], 1, 1), ([65], 1, 1)] ∧
        packets.map PcapPacket.content = [([65], 1, 1), ([65], 1, 101)] := by
  refine ⟨fun s hs => ⟨?_, enhanced_twoLinks s hs⟩, _, _, rfl,
    (readFile_iff _ _).1 (.inl ⟨Section.headerRead_self _, trivial⟩), rfl, rfl⟩
  obtain rfl | rfl := mem_pair.mp hs <;> rfl

end Sipnab.Pcap
