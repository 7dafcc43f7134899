import Sipnab.Capture.PcapNgBlocks

/-!
# Sections of a pcapng file

A file is sections one behind the other, each with a byte order of its own. The length of a section's
header is read in the order of the section before it, so a section in another order is reached only
when its length is the same read either way.
-/

namespace Sipnab.Pcap

open List

/-- Each packet names an interface that was described before it. -/
def Declared : ℕ → List Block → Prop
  | _, [] => True
  | n, .interface _ :: blocks => Declared (n + 1) blocks
  | n, .packet p :: blocks => p.interfaceId < n ∧ Declared n blocks
  | n, .other _ :: blocks => Declared n blocks

/-- A section. Behind the byte-order magic its header has a version, a length and options. -/
structure Section where
  bigEndian : Bool
  header : Bytes
  blocks : List Block
  header_long : 12 ≤ header.length
  header_size : header.length + 16 < 2 ^ 32
  sizes : ∀ b ∈ blocks, (b.body bigEndian).length + 12 < 2 ^ 32
  declared : Declared 0 blocks

def encodeBlocks (bigEndian : Bool) (blocks : List Block) : Bytes :=
  blocks.flatMap (Block.encode bigEndian)

def interfacesOf (blocks : List Block) : List NgInterface :=
  blocks.filterMap (fun
    | .interface i => some i.interface
    | _ => none)

def Block.packetOn (interfaces : List NgInterface) : Block → Option PcapPacket
  | .packet p => interfaces[p.interfaceId]?.map p.on
  | _ => none

namespace Section

def headerBytes (s : Section) : Bytes :=
  encodeBlock s.bigEndian 0x0a0d0d0a (toBytes s.bigEndian 4 0x1a2b3c4d ++ s.header)

def encode (s : Section) : Bytes := s.headerBytes ++ encodeBlocks s.bigEndian s.blocks

/-- The packets of a section, each with its own bytes on the interface it names. -/
def packets (s : Section) : List PcapPacket :=
  s.blocks.filterMap (Block.packetOn (interfacesOf s.blocks))

def headerLength (s : Section) : ℕ := s.header.length + 16

def headerRead (bigEndian : Bool) (s : Section) : ℕ :=
  ofBytes bigEndian (toBytes s.bigEndian 4 s.headerLength)

@[simp] theorem length_headerBytes (s : Section) : s.headerBytes.length = s.headerLength := by
  rw [headerBytes, length_encodeBlock, length_append, length_toBytes, headerLength]
  omega

end Section

def encodeFile (sections : List Section) : Bytes := sections.flatMap Section.encode

theorem Section.headerRead_self (s : Section) : s.headerRead s.bigEndian = s.headerLength := by
  have hsize := s.header_size
  rw [headerRead, ofBytes_toBytes _ (by rw [headerLength]; omega)]

/-! ## Walking a section -/

namespace NgReader

variable {r : NgReader} {s : Section} {blocks : List Block} {behind : Bytes}

theorem walkIn_blocks (h : r.data.drop r.offset = encodeBlocks r.bigEndian blocks ++ behind)
    (hsizes : ∀ b ∈ blocks, (b.body r.bigEndian).length + 12 < 2 ^ 32)
    (hdeclared : Declared r.interfaces.length blocks) (n : ℕ) :
    walkIn (n + blocks.length) r =
      blocks.filterMap (Block.packetOn (r.interfaces ++ interfacesOf blocks)) ++
        walkIn n
          { r with
            offset := r.offset + (encodeBlocks r.bigEndian blocks).length
            interfaces := r.interfaces ++ interfacesOf blocks } := by
  induction blocks generalizing r with
  | nil =>
    have hnone : interfacesOf [] = [] := rfl
    simp [hnone, encodeBlocks]
  | cons b blocks ih =>
    have hcons : encodeBlocks r.bigEndian (b :: blocks) =
        b.encode r.bigEndian ++ encodeBlocks r.bigEndian blocks := rfl
    have hsize := hsizes b mem_cons_self
    have hsizes' : ∀ b ∈ blocks, (b.body r.bigEndian).length + 12 < 2 ^ 32 :=
      fun b hb => hsizes b (mem_cons_of_mem _ hb)
    rw [hcons, append_assoc] at h
    have hrest : ∀ interfaces, (r.past b interfaces).data.drop (r.past b interfaces).offset =
        encodeBlocks (r.past b interfaces).bigEndian blocks ++ behind :=
      fun interfaces => drop_field h rfl
    have hoffset : r.offset + (encodeBlocks r.bigEndian (b :: blocks)).length =
        r.offset + (b.encode r.bigEndian).length + (encodeBlocks r.bigEndian blocks).length := by
      rw [hcons, length_append, Nat.add_assoc]
    rw [length_cons, ← Nat.add_assoc, walkIn, filterMap_cons, hoffset]
    cases b with
    | interface i =>
      have hmore : r.interfaces ++ interfacesOf (.interface i :: blocks) =
          r.interfaces ++ [i.interface] ++ interfacesOf blocks := by
        simp [interfacesOf]
      have hdeclared' : Declared (r.interfaces ++ [i.interface]).length blocks := by
        simpa [Declared] using hdeclared
      rw [step_interface h hsize, hmore]
      exact ih (hrest _) hsizes' hdeclared'
    | packet p =>
      have hmore : interfacesOf (.packet p :: blocks) = interfacesOf blocks := rfl
      obtain ⟨hid, hdeclared'⟩ := hdeclared
      have hiface : r.interfaces[p.interfaceId]? = some r.interfaces[p.interfaceId] :=
        List.getElem?_eq_getElem hid
      have hpacket : Block.packetOn (r.interfaces ++ interfacesOf blocks) (.packet p) =
          some (p.on r.interfaces[p.interfaceId]) := by
        rw [Block.packetOn, List.getElem?_append_left hid, hiface]
        rfl
      rw [step_packet h hsize hiface, hmore, hpacket]
      exact congrArg _ (ih (hrest _) hsizes' hdeclared')
    | other o =>
      have hmore : interfacesOf (.other o :: blocks) = interfacesOf blocks := rfl
      rw [step_other h hsize, hmore]
      exact ih (hrest _) hsizes' hdeclared

theorem step_header (h : r.data.drop r.offset = s.headerBytes ++ behind) :
    r.step =
      if s.headerRead r.bigEndian < 12 ∨
          s.headerLength + behind.length < s.headerRead r.bigEndian then .ended
      else .moved ⟨r.data, r.offset + s.headerRead r.bigEndian, s.bigEndian, []⟩ := by
  have hlength := length_of_drop h
    (ne_nil_of_length_pos (by rw [s.length_headerBytes, Section.headerLength]; omega))
  rw [s.length_headerBytes] at hlength
  rw [Section.headerBytes, encodeBlock, append_assoc, append_assoc, append_assoc] at h
  have htype : r.readU32 r.offset = some 0x0a0d0d0a := by
    rw [readU32_of_drop h (length_toBytes _ _ _)]
    cases r.bigEndian <;> cases s.bigEndian <;> decide
  have hbehindType := drop_field h (by rw [length_toBytes])
  have hread : r.readU32 (r.offset + 4) = some (s.headerRead r.bigEndian) := by
    have htotal : 4 + s.header.length + 12 = s.header.length + 16 := by omega
    rw [readU32_of_drop hbehindType (length_toBytes _ _ _), Section.headerRead,
      Section.headerLength, length_append, length_toBytes, htotal]
  have hmagic : r.data.drop (r.offset + 8) = _ := drop_field hbehindType (by rw [length_toBytes])
  rw [append_assoc] at hmagic
  have horder : getRange r.data (r.offset + 8) 4 = some (toBytes s.bigEndian 4 0x1a2b3c4d) :=
    getRange_of_drop hmagic (length_toBytes _ _ _) (by rw [Section.headerLength] at hlength; omega)
  have hbig : decide (ofLeBytes (toBytes s.bigEndian 4 0x1a2b3c4d) = 0x4d3c2b1a) = s.bigEndian := by
    cases s.bigEndian <;> decide
  have hcond : (s.headerRead r.bigEndian < 12 ∨
      r.data.length < r.offset + s.headerRead r.bigEndian) ↔
        (s.headerRead r.bigEndian < 12 ∨
          s.headerLength + behind.length < s.headerRead r.bigEndian) := by omega
  rw [step, htype, hread]
  dsimp only
  rw [if_pos rfl, enterSection, horder]
  dsimp only
  rw [hbig]
  simp only [hcond]

theorem walkIn_section (h : r.data.drop r.offset = s.encode ++ behind)
    (hread : s.headerRead r.bigEndian = s.headerLength) {n : ℕ} (hn : r.left < n) :
    walkIn n r = s.packets ++
      walkIn n ⟨r.data, r.offset + s.encode.length, s.bigEndian, interfacesOf s.blocks⟩ := by
  rw [Section.encode, append_assoc] at h
  have hstep := step_header h
  have hlong := s.header_long
  have hpass : ¬ (s.headerLength < 12 ∨
      s.headerLength + (encodeBlocks s.bigEndian s.blocks ++ behind).length < s.headerLength) := by
    rw [Section.headerLength]
    omega
  rw [hread, if_neg hpass] at hstep
  have hblocks := drop_field h rfl
  rw [s.length_headerBytes] at hblocks
  have hwalk := @walkIn_blocks ⟨r.data, r.offset + s.headerLength, s.bigEndian, []⟩ s.blocks behind
    hblocks s.sizes s.declared n
  have hstable : walkIn n r = walkIn (n + s.blocks.length + 1) r := walkIn_stable hn (by omega)
  rw [hstable, walkIn, hstep]
  dsimp only
  rw [hwalk, Section.encode, length_append, s.length_headerBytes, ← Nat.add_assoc]
  rfl

end NgReader

/-! ## Walking a file -/

/-- The length of a header, read in the order of the section before, is no length a block can have
there. -/
def RunsOut (bigEndian : Bool) (s : Section) (rest : List Section) : Prop :=
  s.headerRead bigEndian < 12 ∨ (encodeFile (s :: rest)).length < s.headerRead bigEndian

/-- Every header is read right, or a header runs out and no packet is lost behind it. -/
def Reads : Bool → List Section → Prop
  | _, [] => True
  | bigEndian, s :: rest =>
    (s.headerRead bigEndian = s.headerLength ∧ Reads s.bigEndian rest) ∨
      (RunsOut bigEndian s rest ∧ ∀ t ∈ s :: rest, t.packets = [])

def Halts : Bool → List Section → Prop
  | _, [] => True
  | bigEndian, s :: rest =>
    if s.headerRead bigEndian = s.headerLength then Halts s.bigEndian rest
    else RunsOut bigEndian s rest

/-- A length in the other order is long: in a file of less than 16 MiB the first header that is not
read right runs out, unless its length ends in a zero byte. -/
theorem halts_of_short (bigEndian : Bool) {sections : List Section}
    (hlow : ∀ s ∈ sections, s.headerLength % 256 ≠ 0)
    (hshort : (encodeFile sections).length < 2 ^ 24) : Halts bigEndian sections := by
  induction sections generalizing bigEndian with
  | nil => trivial
  | cons s rest ih =>
    rw [Halts]
    split_ifs with hread
    · apply ih s.bigEndian (fun t ht => hlow t (mem_cons_of_mem _ ht))
      rw [encodeFile, flatMap_cons, length_append] at hshort
      rw [encodeFile]
      omega
    · have hother : bigEndian = !s.bigEndian := by
        apply Bool.eq_not.mpr
        intro hsame
        rw [hsame] at hread
        exact hread s.headerRead_self
      have hge : s.headerLength % 256 * 256 ^ 3 ≤
          ofBytes (!s.bigEndian) (toBytes s.bigEndian 4 s.headerLength) :=
        le_ofBytes_not s.bigEndian 3 s.headerLength
      have hpos := Nat.pos_of_ne_zero (hlow s mem_cons_self)
      rw [RunsOut, Section.headerRead, hother]
      omega

namespace NgReader

variable {r : NgReader} {s : Section} {sections rest : List Section}

def behindSection (r : NgReader) (s : Section) : NgReader :=
  ⟨r.data, r.offset + s.encode.length, s.bigEndian, interfacesOf s.blocks⟩

theorem left_behindSection_le (r : NgReader) (s : Section) : (r.behindSection s).left ≤ r.left := by
  rw [left, left, behindSection]
  dsimp only
  omega

theorem drop_behindSection (h : r.data.drop r.offset = encodeFile (s :: rest)) :
    (r.behindSection s).data.drop (r.behindSection s).offset = encodeFile rest :=
  drop_field h rfl

theorem walkIn_nil (h : r.data.drop r.offset = []) (n : ℕ) : walkIn n r = [] := by
  cases n with
  | zero => rfl
  | succ n =>
    have hshort : ¬ r.offset + 4 ≤ r.data.length := by
      have hlength := congrArg List.length h
      rw [length_drop, length_nil] at hlength
      omega
    rw [walkIn, step, readU32, getRange, if_neg hshort]
    rfl

theorem walkIn_of_runsOut (h : r.data.drop r.offset = encodeFile (s :: rest))
    (hout : RunsOut r.bigEndian s rest) (n : ℕ) : walkIn n r = [] := by
  have hfile : encodeFile (s :: rest) =
      s.headerBytes ++ (encodeBlocks s.bigEndian s.blocks ++ encodeFile rest) := by
    rw [← append_assoc]
    rfl
  have hstops : s.headerRead r.bigEndian < 12 ∨ s.headerLength +
      (encodeBlocks s.bigEndian s.blocks ++ encodeFile rest).length < s.headerRead r.bigEndian := by
    rw [RunsOut, hfile, length_append, s.length_headerBytes] at hout
    exact hout
  rw [hfile] at h
  cases n with
  | zero => rfl
  | succ n => rw [walkIn, step_header h, if_pos hstops]

theorem walkIn_of_reads (h : r.data.drop r.offset = encodeFile sections)
    (hreads : Reads r.bigEndian sections) {n : ℕ} (hn : r.left < n) :
    walkIn n r = sections.flatMap Section.packets := by
  induction sections generalizing r with
  | nil => exact walkIn_nil h n
  | cons s rest ih =>
    rcases hreads with ⟨hread, hreads⟩ | ⟨hout, hnone⟩
    · have hleft := left_behindSection_le r s
      have hrest := @ih (r.behindSection s) (drop_behindSection h) hreads (by omega)
      rw [walkIn_section h hread hn, flatMap_cons]
      exact congrArg _ hrest
    · have hempty : (s :: rest).flatMap Section.packets = [] := flatMap_eq_nil_iff.mpr hnone
      rw [walkIn_of_runsOut h hout, hempty]

theorem walkIn_iff_of_halts (h : r.data.drop r.offset = encodeFile sections)
    (hhalts : Halts r.bigEndian sections) {n : ℕ} (hn : r.left < n) :
    walkIn n r = sections.flatMap Section.packets ↔ Reads r.bigEndian sections := by
  refine ⟨?_, fun hreads => walkIn_of_reads h hreads hn⟩
  induction sections generalizing r with
  | nil => exact fun _ => trivial
  | cons s rest ih =>
    intro hall
    rw [Halts] at hhalts
    split_ifs at hhalts with hread
    · have hleft := left_behindSection_le r s
      rw [walkIn_section h hread hn, flatMap_cons] at hall
      have hrest := append_cancel_left hall
      exact .inl ⟨hread, @ih (r.behindSection s) (drop_behindSection h) hhalts (by omega) hrest⟩
    · rw [walkIn_of_runsOut h hhalts] at hall
      exact .inr ⟨hhalts, flatMap_eq_nil_iff.mp hall.symm⟩

end NgReader

theorem PcapReader.new_of_header {data behind : Bytes} {s : Section}
    (h : data = s.headerBytes ++ behind) :
    PcapReader.new data = .ok ⟨.ng ⟨data, s.headerLength, s.bigEndian, []⟩, 1⟩ := by
  have hlong := s.header_long
  have hlength : data.length = s.headerLength + behind.length := by
    rw [h, length_append, s.length_headerBytes]
  have hheader : s.headerLength = s.header.length + 16 := rfl
  rw [Section.headerBytes, encodeBlock, append_assoc, append_assoc, append_assoc] at h
  have hbehindType : data.drop 4 = _ := drop_field (drop_zero.trans h) (by rw [length_toBytes])
  have hmagic : data.drop 8 = _ := drop_field hbehindType (by rw [length_toBytes])
  rw [append_assoc] at hmagic
  have htype : data.take 4 = [0x0a, 0x0d, 0x0d, 0x0a] := by
    rw [h, take_left' (length_toBytes _ _ _)]
    cases s.bigEndian <;> decide
  have hgzip : PcapReader.isGzip data = false := by
    have htwo : (data.take 4).take 2 = data.take 2 := take_take
    rw [PcapReader.isGzip, ← htwo, htype]
    rfl
  have hbig : decide (ofLeBytes ((data.drop 8).take 4) = 0x4d3c2b1a) = s.bigEndian := by
    rw [hmagic, take_left' (length_toBytes _ _ _)]
    cases s.bigEndian <;> decide
  have hshb : ofBytes s.bigEndian ((data.drop 4).take 4) = s.headerLength := by
    have hsize := s.header_size
    rw [hbehindType, take_left' (length_toBytes _ _ _), length_append, length_toBytes,
      ofBytes_toBytes _ (by omega)]
    omega
  rw [PcapReader.new, if_neg (by omega), hgzip, htype]
  rw [if_neg Bool.false_ne_true, if_neg (by decide), if_pos (by decide), PcapReader.newNg,
    if_neg (by omega)]
  simp only [hbig, hshb]
  rw [if_pos (by omega)]

/-- The first header is read in its own order, so the walk begins at the first section's blocks. -/
theorem readFile_eq (first : Section) (rest : List Section) :
    ∃ r : NgReader, r.data.drop r.offset = encodeFile rest ∧ r.bigEndian = first.bigEndian ∧
      r.left < (encodeFile (first :: rest)).length + 1 ∧
        readFile (encodeFile (first :: rest)) =
          .ok (first.packets ++ r.walkIn ((encodeFile (first :: rest)).length + 1)) := by
  have hfile : encodeFile (first :: rest) =
      first.headerBytes ++ (encodeBlocks first.bigEndian first.blocks ++ encodeFile rest) := by
    rw [← append_assoc]
    rfl
  have hnew := PcapReader.new_of_header hfile
  generalize encodeFile (first :: rest) = data at hfile hnew ⊢
  have hblocks : data.drop first.headerLength =
      encodeBlocks first.bigEndian first.blocks ++ encodeFile rest := by
    rw [hfile, ← first.length_headerBytes, drop_left]
  have hlength : data.length = first.headerLength +
      ((encodeBlocks first.bigEndian first.blocks).length + (encodeFile rest).length) := by
    rw [hfile, length_append, length_append, first.length_headerBytes]
  have hwalk := @NgReader.walkIn_blocks ⟨data, first.headerLength, first.bigEndian, []⟩ first.blocks
    (encodeFile rest) hblocks first.sizes first.declared (data.length + 1)
  have hcollect : PcapReader.collectIn (data.length + 1)
      ⟨.ng ⟨data, first.headerLength, first.bigEndian, []⟩, 1⟩ =
        NgReader.walkIn (data.length + 1 + first.blocks.length)
          ⟨data, first.headerLength, first.bigEndian, []⟩ := by
    apply PcapReader.collectIn_eq_walkIn <;> rw [NgReader.left] <;> dsimp only <;> omega
  refine ⟨⟨data, first.headerLength + (encodeBlocks first.bigEndian first.blocks).length,
    first.bigEndian, interfacesOf first.blocks⟩, drop_field hblocks rfl, rfl, ?_, ?_⟩
  · rw [NgReader.left]
    dsimp only
    omega
  · rw [readFile, hnew]
    exact congrArg Except.ok (hcollect.trans hwalk)

/-- A file gives the packets of all its sections when every header is read right, up to the last
packet. When the first that is not read right runs out, it does so only then. -/
theorem readFile_iff (first : Section) (rest : List Section) :
    (Reads first.bigEndian rest →
        readFile (encodeFile (first :: rest)) = .ok ((first :: rest).flatMap Section.packets)) ∧
      (Halts first.bigEndian rest →
        (readFile (encodeFile (first :: rest)) = .ok ((first :: rest).flatMap Section.packets) ↔
          Reads first.bigEndian rest)) := by
  obtain ⟨r, hdrop, hbig, hleft, hread⟩ := readFile_eq first rest
  have hsame : readFile (encodeFile (first :: rest)) =
        .ok ((first :: rest).flatMap Section.packets) ↔
      r.walkIn ((encodeFile (first :: rest)).length + 1) = rest.flatMap Section.packets := by
    rw [hread, flatMap_cons, Except.ok.injEq, append_right_inj]
  rw [hsame, ← hbig]
  exact ⟨fun hreads => NgReader.walkIn_of_reads hdrop hreads hleft,
    fun hhalts => NgReader.walkIn_iff_of_halts hdrop hhalts hleft⟩

def etherBlock : InterfaceBlock where
  linkType := 1
  between := [0, 0, 0, 0, 0, 0]
  options := [⟨2, [0x65, 0x74, 0x68, 0x30], [], by decide, by decide, by decide, by decide⟩]
  closed := true
  linkType_lt := by decide
  between_length := by decide

def byteBlock (b : UInt8) : PacketBlock where
  interfaceId := 0
  tsHigh := 0
  tsLow := 5
  data := [b]
  origLen := 1
  behind := [0, 0, 0]
  interfaceId_lt := by decide
  tsHigh_lt := by decide
  tsLow_lt := by decide
  data_size := show 1 < 2 ^ 32 by decide
  origLen_lt := by decide

def byteSection (bigEndian : Bool) (b : UInt8) : Section where
  bigEndian := bigEndian
  header := toBytes bigEndian 2 1 ++ (toBytes bigEndian 2 0 ++ List.replicate 8 0xff)
  blocks := [.interface etherBlock, .packet (byteBlock b)]
  header_long := by cases bigEndian <;> decide
  header_size := by cases bigEndian <;> decide
  sizes := by
    intro block hblock
    rcases mem_pair.mp hblock with rfl | rfl
    · cases bigEndian <;> decide
    · simp [Block.body, byteBlock]
  declared := ⟨Nat.zero_lt_one, trivial⟩

theorem readFile_iff_two_sections :
    readFile (encodeFile [byteSection true 65, byteSection true 66]) =
        .ok ([byteSection true 65, byteSection true 66].flatMap Section.packets) ∧
      (readFile (encodeFile [byteSection true 65, byteSection false 66]) =
          .ok ([byteSection true 65, byteSection false 66].flatMap Section.packets) ↔
        Reads true [byteSection false 66]) := by
  have hlow : ∀ s ∈ [byteSection false 66], s.headerLength % 256 ≠ 0 := by decide +kernel
  have hshort : (encodeFile [byteSection false 66]).length < 2 ^ 24 := by decide +kernel
  exact ⟨(readFile_iff _ _).1 (.inl ⟨Section.headerRead_self _, trivial⟩),
    (readFile_iff _ _).2 (halts_of_short _ hlow hshort)⟩

/-- A section in the other byte order is not reached. -/
theorem other_order_lost :
    ¬ ∀ (first : Section) (rest : List Section),
      readFile (encodeFile (first :: rest)) = .ok ((first :: rest).flatMap Section.packets) := by
  intro h
  have hlost := h (byteSection false 65) [byteSection true 66]
  revert hlost
  decide +kernel

end Sipnab.Pcap
