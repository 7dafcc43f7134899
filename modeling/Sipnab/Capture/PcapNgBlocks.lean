import Sipnab.Capture.PcapReader

/-!
# Blocks of a pcapng file

What the blocks of a section are, what they are as bytes, and that the reader passes each of them
and takes from it what it says.
-/

namespace Sipnab.Pcap

open List

/-! ## Walking -/

def Stepped.reader : Stepped → Option NgReader
  | .ended => none
  | .moved r => some r
  | .yielded _ r => some r

namespace NgReader

/-- The packets of the blocks from the offset on, with a bound on the number of blocks. -/
def walkIn : ℕ → NgReader → List PcapPacket
  | 0, _ => []
  | n + 1, r =>
    match r.step with
    | .ended => []
    | .moved r' => walkIn n r'
    | .yielded packet r' => packet :: walkIn n r'

def left (r : NgReader) : ℕ := r.data.length - r.offset

/-- A block that is passed is behind the offset and within the file. -/
structure Passed (r r' : NgReader) : Prop where
  data : r'.data = r.data
  forward : r.offset < r'.offset
  within : r'.offset ≤ r.data.length

variable {r r' : NgReader} {packet : PcapPacket}

theorem Passed.left_lt (h : Passed r r') : r'.left < r.left := by
  have hforward := h.forward
  have hwithin := h.within
  rw [left, left, h.data]
  omega

theorem passed_of_readPacket {blockEnd : ℕ} (hforward : r.offset < blockEnd)
    (hwithin : blockEnd ≤ r.data.length) (h : (r.readPacket blockEnd).reader = some r') :
    Passed r r' := by
  have hend : r' = { r with offset := blockEnd } := by
    unfold readPacket at h
    split at h
    · cases h
    · split at h
      · exact (Option.some.inj h).symm
      · split at h
        · split at h <;> exact (Option.some.inj h).symm
        · cases h
  rw [hend]
  exact ⟨rfl, hforward, hwithin⟩

theorem passed_of_step (h : r.step.reader = some r') : Passed r r' := by
  unfold step at h
  split at h
  · next blockType blockTotalLen _ _ =>
    by_cases hends : blockTotalLen < 12 ∨ r.data.length < r.offset + blockTotalLen
    · rw [if_pos hends] at h
      cases h
    · have hforward : r.offset < r.offset + blockTotalLen := by omega
      have hwithin : r.offset + blockTotalLen ≤ r.data.length := by omega
      rw [if_neg hends] at h
      dsimp only at h
      split_ifs at h
      · cases h
        exact ⟨rfl, hforward, hwithin⟩
      · cases h
        exact ⟨rfl, hforward, hwithin⟩
      · cases h
        exact ⟨rfl, hforward, hwithin⟩
      · exact passed_of_readPacket hforward hwithin h
      · cases h
        exact ⟨rfl, hforward, hwithin⟩
  · cases h

theorem walkIn_stable {m n : ℕ} (hm : r.left < m) (hn : r.left < n) : walkIn m r = walkIn n r := by
  induction m generalizing n r with
  | zero => omega
  | succ m ih =>
    obtain ⟨n, rfl⟩ := Nat.exists_eq_succ_of_ne_zero (Nat.ne_zero_of_lt hn)
    rw [walkIn, walkIn]
    cases hstep : r.step with
    | ended => rfl
    | moved r' =>
      have hlt := (passed_of_step (by rw [hstep]; rfl) : Passed r r').left_lt
      exact ih (by omega) (by omega)
    | yielded packet r' =>
      have hlt := (passed_of_step (by rw [hstep]; rfl) : Passed r r').left_lt
      exact congrArg _ (ih (by omega) (by omega))

theorem walkIn_eq_nextPacketIn {n : ℕ} (hn : r.left < n) :
    (∃ packet r', nextPacketIn n r = (some packet, r') ∧ r'.left < r.left ∧ r'.data = r.data ∧
        walkIn n r = packet :: walkIn n r') ∨
      ((nextPacketIn n r).1 = none ∧ walkIn n r = []) := by
  induction n generalizing r with
  | zero => omega
  | succ n ih =>
    rw [nextPacketIn, walkIn]
    cases hstep : r.step with
    | ended => exact .inr ⟨rfl, rfl⟩
    | moved r₁ =>
      have hpassed : Passed r r₁ := passed_of_step (by rw [hstep]; rfl)
      have hlt := hpassed.left_lt
      rcases ih (by omega : r₁.left < n) with ⟨packet, r', hnext, hleft, hdata, hwalk⟩ | hnone
      · have hstable : walkIn n r' = walkIn (n + 1) r' := walkIn_stable (by omega) (by omega)
        exact .inl ⟨packet, r', hnext, by omega, hdata.trans hpassed.data,
          hwalk.trans (congrArg _ hstable)⟩
      · exact .inr hnone
    | yielded packet r' =>
      have hpassed : Passed r r' := passed_of_step (by rw [hstep]; rfl)
      have hlt := hpassed.left_lt
      exact .inl ⟨packet, r', rfl, hlt, hpassed.data,
        congrArg _ (walkIn_stable (by omega) (by omega))⟩

end NgReader

theorem PcapReader.collectIn_eq_walkIn {r : NgReader} {linkType m n : ℕ} (hm : r.left < m)
    (hn : r.left < n) :
    collectIn m ⟨.ng r, linkType⟩ = r.walkIn n := by
  induction m generalizing r linkType with
  | zero => omega
  | succ m ih =>
    have hbound : r.left < r.data.length + 1 := by
      rw [NgReader.left]
      omega
    rw [NgReader.walkIn_stable hn hbound, collectIn, next]
    simp only [NgReader.nextPacket]
    rcases NgReader.walkIn_eq_nextPacketIn hbound with
      ⟨packet, r', hnext, hleft, hdata, hwalk⟩ | ⟨hnone, hwalk⟩
    · have hrest := @ih r' packet.linkType (by omega) (by omega)
      have hstable : r'.walkIn n = r'.walkIn (r.data.length + 1) :=
        NgReader.walkIn_stable (by omega) (by omega)
      rw [hnext, hwalk, ← hstable]
      exact congrArg _ hrest
    · rw [hnone, hwalk]

/-! ## Blocks as bytes -/

/-- An option of an interface block. The end of options is not one of them. -/
structure NgOption where
  code : ℕ
  value : Bytes
  pad : Bytes
  code_lt : code < 2 ^ 16
  code_ne : code ≠ 0
  size : value.length < 2 ^ 16
  padded : pad.length = (4 - value.length % 4) % 4

def NgOption.encode (bigEndian : Bool) (o : NgOption) : Bytes :=
  toBytes bigEndian 2 o.code ++ (toBytes bigEndian 2 o.value.length ++ (o.value ++ o.pad))

/-- Options one behind the other, with or without the end of options. -/
def encodeOptions (bigEndian closed : Bool) (options : List NgOption) : Bytes :=
  options.flatMap (NgOption.encode bigEndian) ++ if closed then [0, 0, 0, 0] else []

/-- An interface. Between the link type and the options is a field not used and the snap length. -/
structure InterfaceBlock where
  linkType : ℕ
  between : Bytes
  options : List NgOption
  closed : Bool
  linkType_lt : linkType < 2 ^ 16
  between_length : between.length = 6

def InterfaceBlock.last (i : InterfaceBlock) (code : ℕ) : Option NgOption :=
  i.options.reverse.find? (fun o => o.code = code && o.value ≠ [])

def InterfaceBlock.interface (i : InterfaceBlock) : NgInterface where
  linkType := i.linkType
  tsresol := (((i.last 9).bind (fun o => o.value.head?)).map resolution).getD 1000000
  name := (i.last 2).map (fun o => Utf8.fromUtf8Lossy o.value)

structure PacketBlock where
  interfaceId : ℕ
  tsHigh : ℕ
  tsLow : ℕ
  data : Bytes
  origLen : ℕ
  behind : Bytes
  interfaceId_lt : interfaceId < 2 ^ 32
  tsHigh_lt : tsHigh < 2 ^ 32
  tsLow_lt : tsLow < 2 ^ 32
  data_size : data.length < 2 ^ 32
  origLen_lt : origLen < 2 ^ 32

def PacketBlock.on (p : PacketBlock) (iface : NgInterface) : PcapPacket where
  timestampSecs := (timestamp iface.tsresol (p.tsHigh * 2 ^ 32 + p.tsLow)).1
  timestampUsecs := (timestamp iface.tsresol (p.tsHigh * 2 ^ 32 + p.tsLow)).2
  data := p.data
  origLen := p.origLen
  linkType := iface.linkType
  interface := iface.name

structure OtherBlock where
  blockType : ℕ
  body : Bytes
  blockType_lt : blockType < 2 ^ 32
  blockType_ne : blockType ≠ 0x0a0d0d0a ∧ blockType ≠ 1 ∧ blockType ≠ 6

inductive Block
  | interface (i : InterfaceBlock)
  | packet (p : PacketBlock)
  | other (o : OtherBlock)

namespace Block

def blockType : Block → ℕ
  | .interface _ => 1
  | .packet _ => 6
  | .other o => o.blockType

def body (bigEndian : Bool) : Block → Bytes
  | .interface i =>
    toBytes bigEndian 2 i.linkType ++ (i.between ++ encodeOptions bigEndian i.closed i.options)
  | .packet p =>
    toBytes bigEndian 4 p.interfaceId ++ (toBytes bigEndian 4 p.tsHigh ++
      (toBytes bigEndian 4 p.tsLow ++ (toBytes bigEndian 4 p.data.length ++
        (toBytes bigEndian 4 p.origLen ++ (p.data ++ p.behind)))))
  | .other o => o.body

end Block

def encodeBlock (bigEndian : Bool) (blockType : ℕ) (body : Bytes) : Bytes :=
  toBytes bigEndian 4 blockType ++ (toBytes bigEndian 4 (body.length + 12) ++
    (body ++ toBytes bigEndian 4 (body.length + 12)))

def Block.encode (bigEndian : Bool) (b : Block) : Bytes :=
  encodeBlock bigEndian b.blockType (b.body bigEndian)

@[simp] theorem length_encodeBlock (bigEndian : Bool) (blockType : ℕ) (body : Bytes) :
    (encodeBlock bigEndian blockType body).length = body.length + 12 := by
  simp [encodeBlock]
  omega

/-! ## Reading a block -/

namespace NgReader

variable {r : NgReader} {behind : Bytes}

theorem readU32_of_drop {off : ℕ} {field : Bytes} (h : r.data.drop off = field ++ behind)
    (hfield : field.length = 4) : r.readU32 off = some (ofBytes r.bigEndian field) := by
  have hlength := length_of_drop h (ne_nil_of_length_pos (by omega))
  rw [readU32, getRange_of_drop h hfield (by omega)]
  rfl

theorem readU32_toBytes {off n : ℕ} (h : r.data.drop off = toBytes r.bigEndian 4 n ++ behind)
    (hn : n < 2 ^ 32) : r.readU32 off = some n := by
  rw [readU32_of_drop h (length_toBytes _ _ _), ofBytes_toBytes _ (by omega)]

theorem readU16_toBytes {off n : ℕ} (h : r.data.drop off = toBytes r.bigEndian 2 n ++ behind)
    (hn : n < 2 ^ 16) : r.readU16 off = some n := by
  have hlength := length_of_drop h (ne_nil_of_length_pos (by rw [length_toBytes]; omega))
  rw [readU16, getRange_of_drop h (length_toBytes _ _ _) (by omega), Option.map_some,
    ofBytes_toBytes _ (by omega)]

def withOption (entry : NgInterface) (o : NgOption) : NgInterface :=
  { entry with
    name := if o.code = 2 ∧ o.value ≠ [] then some (Utf8.fromUtf8Lossy o.value) else entry.name
    tsresol := if o.code = 9 then (o.value.head?.map resolution).getD entry.tsresol
      else entry.tsresol }

theorem readOption_eq {pos : ℕ} {o : NgOption} (h : r.data.drop pos = o.value ++ behind)
    (hwithin : pos ≤ r.data.length) (entry : NgInterface) :
    r.readOption pos o.code o.value.length entry = withOption entry o := by
  have hvalue : getRange r.data pos o.value.length = some o.value := getRange_of_drop h rfl hwithin
  rw [readOption, withOption, hvalue]
  by_cases hne : o.value = []
  · simp [hne]
  · obtain ⟨b, value, hcons⟩ := exists_cons_of_ne_nil hne
    have hsome : 1 ≤ o.value.length := length_pos_iff.mpr hne
    have hhead : r.data[pos]? = some b := by
      rw [← List.head?_drop, h, hcons]
      rfl
    by_cases hname : o.code = 2
    · simp [hname, hne, hsome]
    · by_cases hnine : o.code = 9
      · simp [hnine, hhead, hcons]
      · simp [hname, hnine]

theorem parseIdbOptions_eq {closed : Bool} {options : List NgOption} {pos n : ℕ}
    (h : r.data.drop pos = encodeOptions r.bigEndian closed options ++ behind)
    (hwithin : pos ≤ r.data.length) (hn : (encodeOptions r.bigEndian closed options).length < n)
    (entry : NgInterface) :
    r.parseIdbOptions (pos + (encodeOptions r.bigEndian closed options).length) n pos entry =
      options.foldl withOption entry := by
  induction options generalizing pos n entry with
  | nil =>
    obtain ⟨n, rfl⟩ := Nat.exists_eq_succ_of_ne_zero (Nat.ne_zero_of_lt hn)
    rw [parseIdbOptions]
    cases closed with
    | false =>
      rw [if_neg (by simp [encodeOptions])]
      rfl
    | true =>
      have hzero : toBytes r.bigEndian 2 0 = [0, 0] := by
        cases r.bigEndian <;> decide
      have hend : r.data.drop pos = toBytes r.bigEndian 2 0 ++ (toBytes r.bigEndian 2 0 ++ behind) := by
        rw [h, hzero]
        rfl
      have hcode : r.readU16 pos = some 0 := readU16_toBytes hend (by omega)
      have hlen : r.readU16 (pos + 2) = some 0 :=
        readU16_toBytes (drop_field hend (by rw [length_toBytes])) (by omega)
      rw [if_pos (by simp [encodeOptions]), hcode, hlen]
      simp [encodeOptions, readOption]
  | cons o options ih =>
    obtain ⟨n, rfl⟩ := Nat.exists_eq_succ_of_ne_zero (Nat.ne_zero_of_lt hn)
    have hcons : encodeOptions r.bigEndian closed (o :: options) =
        o.encode r.bigEndian ++ encodeOptions r.bigEndian closed options := by
      simp [encodeOptions]
    have hlength : (o.encode r.bigEndian).length =
        4 + (o.value.length + (4 - o.value.length % 4) % 4) := by
      simp only [NgOption.encode, length_append, length_toBytes, o.padded]
      omega
    rw [hcons, append_assoc] at h
    rw [hcons, length_append] at hn ⊢
    have htotal := length_of_drop h (ne_nil_of_length_pos (by omega))
    rw [length_append] at htotal
    have hrest := drop_field h rfl
    rw [NgOption.encode, append_assoc, append_assoc, append_assoc] at h
    have hcode : r.readU16 pos = some o.code := readU16_toBytes h o.code_lt
    have hbehindCode := drop_field h (by rw [length_toBytes])
    have hlen : r.readU16 (pos + 2) = some o.value.length := readU16_toBytes hbehindCode o.size
    have hvalue : r.data.drop (pos + 4) = _ := drop_field hbehindCode (by rw [length_toBytes])
    rw [parseIdbOptions, if_pos (by omega), hcode, hlen]
    dsimp only
    rw [if_pos (by omega), if_neg o.code_ne, readOption_eq hvalue (by omega)]
    have hih := ih hrest (by omega) (by omega : _ < n) (withOption entry o)
    have hnext : pos + 4 + (o.value.length + (4 - o.value.length % 4) % 4) =
        pos + (o.encode r.bigEndian).length := by omega
    rw [hnext, ← Nat.add_assoc]
    exact hih

theorem foldl_withOption (i : InterfaceBlock) :
    i.options.foldl withOption { NgInterface.default with linkType := i.linkType } =
      i.interface := by
  rw [InterfaceBlock.interface, InterfaceBlock.last, InterfaceBlock.last]
  induction i.options using List.reverseRecOn with
  | nil => rfl
  | append_singleton options o ih =>
    rw [foldl_append, ih, foldl_cons, foldl_nil, reverse_append,
      reverse_singleton, singleton_append, List.find?_cons, List.find?_cons]
    by_cases hne : o.value = []
    · simp [withOption, hne]
    · obtain ⟨b, value, hcons⟩ := exists_cons_of_ne_nil hne
      by_cases hname : o.code = 2
      · simp [withOption, hname, hcons]
      · by_cases hnine : o.code = 9
        · simp [withOption, hnine, hcons]
        · simp [withOption, hname, hnine]

theorem readBlock {b : Block} (h : r.data.drop r.offset = b.encode r.bigEndian ++ behind)
    (hsize : (b.body r.bigEndian).length + 12 < 2 ^ 32) :
    r.readU32 r.offset = some b.blockType ∧
      r.readU32 (r.offset + 4) = some ((b.body r.bigEndian).length + 12) ∧
        r.data.drop (r.offset + 8) = b.body r.bigEndian ++
          (toBytes r.bigEndian 4 ((b.body r.bigEndian).length + 12) ++ behind) ∧
          r.data.length = r.offset + ((b.body r.bigEndian).length + 12 + behind.length) := by
  have htype : b.blockType < 2 ^ 32 := by
    cases b with
    | interface i => exact show 1 < 2 ^ 32 by decide
    | packet p => exact show 6 < 2 ^ 32 by decide
    | other o => exact o.blockType_lt
  have hlength := length_of_drop h (ne_nil_of_length_pos (by simp [Block.encode]))
  rw [Block.encode, length_encodeBlock] at hlength
  rw [Block.encode, encodeBlock, append_assoc, append_assoc, append_assoc] at h
  have hbehindType := drop_field h (by rw [length_toBytes])
  exact ⟨readU32_toBytes h htype, readU32_toBytes hbehindType hsize,
    drop_field hbehindType (by rw [length_toBytes]), hlength⟩

def past (r : NgReader) (b : Block) (interfaces : List NgInterface) : NgReader :=
  { r with offset := r.offset + (b.encode r.bigEndian).length, interfaces := interfaces }

theorem step_interface {i : InterfaceBlock}
    (h : r.data.drop r.offset = (Block.interface i).encode r.bigEndian ++ behind)
    (hsize : ((Block.interface i).body r.bigEndian).length + 12 < 2 ^ 32) :
    r.step = .moved (r.past (.interface i) (r.interfaces ++ [i.interface])) := by
  obtain ⟨htype, htotal, hbody, hlength⟩ := readBlock h hsize
  have hbodyLength : ((Block.interface i).body r.bigEndian).length =
      8 + (encodeOptions r.bigEndian i.closed i.options).length := by
    simp only [Block.body, length_append, length_toBytes, i.between_length]
    omega
  rw [Block.body, append_assoc, append_assoc] at hbody
  have hlinkType : r.readU16 (r.offset + 8) = some i.linkType := readU16_toBytes hbody i.linkType_lt
  have hbetween : r.data.drop (r.offset + 10) = _ := drop_field hbody (by rw [length_toBytes])
  have hoptions : r.data.drop (r.offset + 16) = _ := drop_field hbetween (by rw [i.between_length])
  have hread : r.readInterface (((Block.interface i).body r.bigEndian).length + 12) =
      i.interface := by
    have hstop : r.offset + (((Block.interface i).body r.bigEndian).length + 12 - 4) =
        r.offset + 16 + (encodeOptions r.bigEndian i.closed i.options).length := by omega
    rw [readInterface, if_pos (by omega), hlinkType, hstop,
      parseIdbOptions_eq hoptions (by omega) (by omega), foldl_withOption]
  rw [step, htype, htotal]
  dsimp only [Block.blockType]
  rw [if_neg (by omega), if_neg (by decide), if_pos rfl, hread, past, Block.encode,
    length_encodeBlock]

theorem step_packet {p : PacketBlock} {iface : NgInterface}
    (h : r.data.drop r.offset = (Block.packet p).encode r.bigEndian ++ behind)
    (hsize : ((Block.packet p).body r.bigEndian).length + 12 < 2 ^ 32)
    (hiface : r.interfaces[p.interfaceId]? = some iface) :
    r.step = .yielded (p.on iface) (r.past (.packet p) r.interfaces) := by
  obtain ⟨htype, htotal, hbody, hlength⟩ := readBlock h hsize
  have hbodyLength : ((Block.packet p).body r.bigEndian).length =
      20 + (p.data.length + p.behind.length) := by
    simp only [Block.body, length_append, length_toBytes]
    omega
  rw [Block.body, append_assoc, append_assoc, append_assoc, append_assoc,
    append_assoc, append_assoc] at hbody
  have hhigh : r.data.drop (r.offset + 12) = _ := drop_field hbody (by rw [length_toBytes])
  have hlow : r.data.drop (r.offset + 16) = _ := drop_field hhigh (by rw [length_toBytes])
  have hcaptured : r.data.drop (r.offset + 20) = _ := drop_field hlow (by rw [length_toBytes])
  have horig : r.data.drop (r.offset + 24) = _ := drop_field hcaptured (by rw [length_toBytes])
  have hdata : r.data.drop (r.offset + 28) = _ := drop_field horig (by rw [length_toBytes])
  rw [step, htype, htotal]
  dsimp only [Block.blockType]
  rw [if_neg (by omega), if_neg (by decide), if_neg (by decide), if_pos rfl, if_neg (by omega),
    readPacket, readU32_toBytes hbody p.interfaceId_lt]
  dsimp only
  rw [hiface, readU32_toBytes hhigh p.tsHigh_lt, readU32_toBytes hlow p.tsLow_lt,
    readU32_toBytes hcaptured p.data_size, readU32_toBytes horig p.origLen_lt]
  dsimp only
  rw [getRange_of_drop hdata rfl (by omega), past, Block.encode, length_encodeBlock]
  rfl

theorem step_other {o : OtherBlock}
    (h : r.data.drop r.offset = (Block.other o).encode r.bigEndian ++ behind)
    (hsize : ((Block.other o).body r.bigEndian).length + 12 < 2 ^ 32) :
    r.step = .moved (r.past (.other o) r.interfaces) := by
  obtain ⟨htype, htotal, hbody, hlength⟩ := readBlock h hsize
  rw [step, htype, htotal]
  dsimp only [Block.blockType]
  rw [if_neg (by omega), if_neg o.blockType_ne.1, if_neg o.blockType_ne.2.1,
    if_neg o.blockType_ne.2.2, past, Block.encode, length_encodeBlock]


end NgReader

end Sipnab.Pcap
