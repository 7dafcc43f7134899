import Sipnab.Capture.PcapNgBlocks
import Sipnab.Capture.PcapNgSecrets

/-!
# Packets of a stripped file

The packet reader walks a file on its own. What it takes from a block depends on the block alone,
but for the bytes of a packet: these are bounded by the end of the file and not by the end of the
block. The reader is compared here over a file and its copy without secrets, block by block.
-/

namespace Sipnab.Pcap

open List Option

/-! ## What a block is to the reader -/

def interfaceOf (bigEndian : Bool) (block : Bytes) : NgInterface :=
  (⟨block, 0, bigEndian, []⟩ : NgReader).readInterface block.length

/-- A packet of a block, with the bytes that are taken for its data. -/
def packetOf (bigEndian : Bool) (block : Bytes) (iface : NgInterface) (data : Bytes) :
    PcapPacket where
  timestampSecs := (timestamp iface.tsresol
    (field bigEndian block 12 * 2 ^ 32 + field bigEndian block 16)).1
  timestampUsecs := (timestamp iface.tsresol
    (field bigEndian block 12 * 2 ^ 32 + field bigEndian block 16)).2
  data := data
  origLen := field bigEndian block 24
  linkType := iface.linkType
  interface := iface.name

def packetIn (bigEndian : Bool) (interfaces : List NgInterface) (block behind : Bytes) :
    Option PcapPacket :=
  if field bigEndian block 0 = 6 ∧ 32 ≤ block.length then
    interfaces[field bigEndian block 8]?.bind (fun iface =>
      (getRange (block ++ behind) 28 (field bigEndian block 20)).map
        (packetOf bigEndian block iface))
  else none

def orderAfter (bigEndian : Bool) (block : Bytes) : Bool :=
  if field bigEndian block 0 = 0x0a0d0d0a then
    ofLeBytes ((block.drop 8).take 4) = 0x4d3c2b1a
  else bigEndian

def interfacesAfter (bigEndian : Bool) (interfaces : List NgInterface) (block : Bytes) :
    List NgInterface :=
  if field bigEndian block 0 = 0x0a0d0d0a then []
  else if field bigEndian block 0 = 1 then interfaces ++ [interfaceOf bigEndian block]
  else interfaces

namespace NgReader

variable {r : NgReader} {block behind : Bytes}

section

variable (h : r.data.drop r.offset = block ++ behind)
include h

theorem readU32_in_block {start : ℕ} (hwithin : start + 4 ≤ block.length) (hne : block ≠ []) :
    r.readU32 (r.offset + start) = some (field r.bigEndian block start) := by
  rw [readU32, getRange_in_field h hwithin hne, map_some, field]

theorem readOption_in_block (hne : block ≠ []) {start optLen : ℕ}
    (hwithin : start + optLen ≤ block.length) (optCode : ℕ) (entry : NgInterface) :
    r.readOption (r.offset + start) optCode optLen entry =
      (⟨block, 0, r.bigEndian, []⟩ : NgReader).readOption start optCode optLen entry := by
  have hrange : getRange r.data (r.offset + start) optLen = getRange block start optLen := by
    rw [getRange_in_field h hwithin hne, getRange, if_pos hwithin]
  have hbyte : 1 ≤ optLen → r.data[r.offset + start]? = block[start]? := by
    intro hlen
    have hlt : start < block.length := by omega
    rw [← List.head?_drop, ← drop_drop, h, drop_append_of_le_length hlt.le,
      List.head?_append_of_ne_nil _ (ne_nil_of_length_pos (by rw [length_drop]; omega)),
      List.head?_drop]
  unfold readOption
  simp only [hrange]
  by_cases hlen : 1 ≤ optLen
  · simp only [hbyte hlen]
  · simp [hlen]

theorem parseIdbOptions_in_block (hne : block ≠ []) {stop : ℕ} (hstop : stop ≤ block.length) (n : ℕ) :
    ∀ (start : ℕ) (entry : NgInterface),
      r.parseIdbOptions (r.offset + stop) n (r.offset + start) entry =
        (⟨block, 0, r.bigEndian, []⟩ : NgReader).parseIdbOptions stop n start entry := by
  induction n with
  | zero =>
    intro start entry
    rfl
  | succ n ih =>
    intro start entry
    rw [parseIdbOptions, parseIdbOptions]
    by_cases hroom : start + 4 ≤ stop
    · have hword {p : ℕ} (hp : p + 2 ≤ block.length) : r.readU16 (r.offset + p) =
          (⟨block, 0, r.bigEndian, []⟩ : NgReader).readU16 p := by
        rw [readU16, readU16, getRange_in_field h hp hne, getRange, if_pos hp]
      rw [if_pos (by omega), if_pos hroom, hword (by omega),
        (by omega : r.offset + start + 2 = r.offset + (start + 2)), hword (by omega)]
      cases (⟨block, 0, r.bigEndian, []⟩ : NgReader).readU16 start with
      | none => rfl
      | some optCode =>
        cases (⟨block, 0, r.bigEndian, []⟩ : NgReader).readU16 (start + 2) with
        | none => rfl
        | some optLen =>
          dsimp only
          by_cases hfits : start + 4 + optLen ≤ stop
          · rw [if_pos (by omega), if_pos hfits,
              (by omega : r.offset + start + 4 = r.offset + (start + 4)),
              readOption_in_block h hne (by omega)]
            split_ifs
            · rfl
            · rw [Nat.add_assoc r.offset, ih]
          · rw [if_neg (by omega), if_neg hfits]
    · rw [if_neg (by omega), if_neg hroom]

theorem readInterface_in_block (hne : block ≠ []) :
    r.readInterface block.length = interfaceOf r.bigEndian block := by
  rw [interfaceOf, readInterface, readInterface]
  by_cases hlong : 20 ≤ block.length
  · have hlink : r.readU16 (r.offset + 8) =
        (⟨block, 0, r.bigEndian, []⟩ : NgReader).readU16 (0 + 8) := by
      rw [readU16, readU16, getRange_in_field h (by omega) hne, getRange,
        if_pos (by dsimp only; omega)]
    rw [if_pos hlong, if_pos hlong, hlink]
    rw [parseIdbOptions_in_block h hne (by omega), Nat.zero_add, Nat.zero_add]
  · rw [if_neg hlong, if_neg hlong]

theorem step_stops (hlong : 12 ≤ block.length)
    (hstops : field r.bigEndian block 4 < 12 ∨ block.length + behind.length < field r.bigEndian block 4) :
    r.step = .ended := by
  have hne : block ≠ [] := ne_nil_of_length_pos (by omega)
  have htotal := length_of_drop h hne
  have htype := readU32_in_block h (by omega : 0 + 4 ≤ _) hne
  rw [step, Nat.add_zero] at *
  rw [htype, readU32_in_block h (by omega) hne]
  dsimp only
  rw [if_pos (by omega)]

theorem readPacket_in_block (hlong : 32 ≤ block.length) (htype : field r.bigEndian block 0 = 6)
    (blockEnd : ℕ) :
    r.readPacket blockEnd =
      match packetIn r.bigEndian r.interfaces block behind with
      | none => .moved { r with offset := blockEnd }
      | some packet => .yielded packet { r with offset := blockEnd } := by
  have hne : block ≠ [] := ne_nil_of_length_pos (by omega)
  have htotal := length_of_drop h hne
  have hdata : getRange r.data (r.offset + 28) (field r.bigEndian block 20) =
      getRange (block ++ behind) 28 (field r.bigEndian block 20) := by
    have hdrop : r.data.drop (r.offset + 28) = (block ++ behind).drop 28 := by
      rw [← drop_drop, h]
    rw [getRange, getRange, hdrop, length_append]
    exact if_congr (by omega) rfl rfl
  rw [packetIn, if_pos ⟨htype, hlong⟩, readPacket, readU32_in_block h (by omega) hne]
  dsimp only
  cases r.interfaces[field r.bigEndian block 8]? with
  | none => rfl
  | some iface =>
    rw [readU32_in_block h (by omega) hne, readU32_in_block h (by omega) hne,
      readU32_in_block h (by omega) hne, readU32_in_block h (by omega) hne]
    dsimp only
    rw [hdata, bind_some]
    cases getRange (block ++ behind) 28 (field r.bigEndian block 20) <;> rfl

theorem step_block (hlong : 12 ≤ block.length) (hlength : field r.bigEndian block 4 = block.length) :
    r.step =
      match packetIn r.bigEndian r.interfaces block behind with
      | none => .moved ⟨r.data, r.offset + block.length, orderAfter r.bigEndian block,
          interfacesAfter r.bigEndian r.interfaces block⟩
      | some packet => .yielded packet ⟨r.data, r.offset + block.length,
          orderAfter r.bigEndian block, interfacesAfter r.bigEndian r.interfaces block⟩ := by
  have hne : block ≠ [] := ne_nil_of_length_pos (by omega)
  have htotal := length_of_drop h hne
  have htype : r.readU32 r.offset = some (field r.bigEndian block 0) :=
    readU32_in_block h (by omega : 0 + 4 ≤ _) hne
  rw [step, htype, readU32_in_block h (by omega) hne, hlength]
  dsimp only
  rw [if_neg (by omega)]
  by_cases hheader : field r.bigEndian block 0 = 0x0a0d0d0a
  · have hmagic : getRange r.data (r.offset + 8) 4 = some ((block.drop 8).take 4) :=
      getRange_in_field h (by omega) hne
    rw [if_pos hheader, packetIn, if_neg (by omega), orderAfter, interfacesAfter,
      if_pos hheader, if_pos hheader, enterSection, hmagic]
  by_cases hinterface : field r.bigEndian block 0 = 1
  · rw [if_neg hheader, if_pos hinterface, packetIn, if_neg (by omega), orderAfter,
      interfacesAfter, if_neg hheader, if_neg hheader, if_pos hinterface,
      readInterface_in_block h hne]
  rw [if_neg hheader, if_neg hinterface, orderAfter, interfacesAfter, if_neg hheader,
    if_neg hheader, if_neg hinterface]
  by_cases hpacket : field r.bigEndian block 0 = 6
  · rw [if_pos hpacket]
    by_cases hsize : 32 ≤ block.length
    · rw [if_neg (by omega), readPacket_in_block h hsize hpacket]
    · rw [if_pos (by omega), packetIn, if_neg (by omega)]
  · rw [if_neg hpacket, packetIn, if_neg (by omega)]

end

theorem step_ended (h : (r.data.drop r.offset).length < 8) : r.step = .ended := by
  have hnone : r.readU32 (r.offset + 4) = none := by
    rw [length_drop] at h
    rw [readU32, getRange, if_neg (by omega), map_none]
  rw [step, hnone]
  cases r.readU32 r.offset <;> rfl

/-- The packets of the blocks from the offset on, each with the offset of its block. -/
def walkAt : ℕ → NgReader → List (ℕ × PcapPacket)
  | 0, _ => []
  | n + 1, r =>
    match r.step with
    | .ended => []
    | .moved r' => walkAt n r'
    | .yielded packet r' => (r.offset, packet) :: walkAt n r'

theorem map_snd_walkAt (n : ℕ) : ∀ r : NgReader, (r.walkAt n).map Prod.snd = r.walkIn n := by
  induction n with
  | zero => simp [walkAt, walkIn]
  | succ n ih =>
    intro r
    rw [walkAt, walkIn]
    cases r.step with
    | ended => rfl
    | moved r' => exact ih r'
    | yielded packet r' => exact congrArg _ (ih r')

end NgReader

/-! ## Rows of blocks -/

/-- The length of a block, in the reader's byte order, is none it can have. -/
def Stops (bigEndian : Bool) (block behind : Bytes) : Prop :=
  field bigEndian block 4 < 12 ∨ block.length + behind.length < field bigEndian block 4

instance (bigEndian : Bool) (block behind : Bytes) : Decidable (Stops bigEndian block behind) :=
  inferInstanceAs (Decidable (_ ∨ _))

/-- The packets of a row of blocks, each with the offset of its block. -/
def readRow : ℕ → Bool → List NgInterface → List BlockFrame → Bytes → List (ℕ × PcapPacket)
  | _, _, _, [], _ => []
  | offset, bigEndian, interfaces, frame :: frames, tail =>
    if Stops bigEndian frame.bytes (rowBytes frames ++ tail) then []
    else
      ((packetIn bigEndian interfaces frame.bytes (rowBytes frames ++ tail)).map
        (offset, ·)).toList ++
        readRow (offset + frame.bytes.length) (orderAfter bigEndian frame.bytes)
          (interfacesAfter bigEndian interfaces frame.bytes) frames tail

/-- The reader reads the length of every block right, up to a block that is no secrets where it
stops. -/
def InStep : Bool → List BlockFrame → Bytes → Prop
  | _, [], _ => True
  | bigEndian, frame :: frames, tail =>
    (frame.kind ≠ dsbType ∧ Stops bigEndian frame.bytes (rowBytes frames ++ tail)) ∨
      (field bigEndian frame.bytes 4 = frame.bytes.length ∧
        InStep (orderAfter bigEndian frame.bytes) frames tail)

instance instDecidableInStep :
    ∀ bigEndian frames tail, Decidable (InStep bigEndian frames tail)
  | _, [], _ => isTrue trivial
  | bigEndian, frame :: frames, tail =>
    @instDecidableOr _ _ inferInstance
      (@instDecidableAnd _ _ inferInstance
        (instDecidableInStep (orderAfter bigEndian frame.bytes) frames tail))

theorem not_stops {bigEndian : Bool} {block behind : Bytes} (hlong : 12 ≤ block.length)
    (hlength : field bigEndian block 4 = block.length) : ¬ Stops bigEndian block behind := by
  rw [Stops]
  omega

theorem NgReader.walkAt_eq_readRow {tail : Bytes} (htail : tail.length < 8)
    (frames : List BlockFrame) :
    ∀ {r : NgReader} {n : ℕ}, r.data.drop r.offset = rowBytes frames ++ tail →
      (∀ frame ∈ frames, 12 ≤ frame.bytes.length) → InStep r.bigEndian frames tail →
      frames.length < n →
      r.walkAt n = readRow r.offset r.bigEndian r.interfaces frames tail := by
  induction frames with
  | nil =>
    intro r n h _ _ hn
    obtain ⟨n, rfl⟩ := Nat.exists_eq_succ_of_ne_zero (Nat.ne_zero_of_lt hn)
    have hshort : (r.data.drop r.offset).length < 8 := by
      rw [h]
      exact htail
    rw [walkAt, step_ended hshort, readRow]
  | cons frame frames ih =>
    intro r n h hlong hstep hn
    obtain ⟨n, rfl⟩ := Nat.exists_eq_succ_of_ne_zero (Nat.ne_zero_of_lt hn)
    have hframe := hlong frame mem_cons_self
    rw [rowBytes_cons, append_assoc] at h
    rcases hstep with ⟨-, hstops⟩ | ⟨hlength, hrest⟩
    · rw [walkAt, step_stops h hframe hstops, readRow, if_pos hstops]
    · have hwalk := @ih ⟨r.data, r.offset + frame.bytes.length, orderAfter r.bigEndian frame.bytes,
        interfacesAfter r.bigEndian r.interfaces frame.bytes⟩ n (drop_field h rfl)
        (fun f hf => hlong f (mem_cons_of_mem _ hf)) hrest (by simpa using hn)
      rw [walkAt, step_block h hframe hlength, readRow, if_neg (not_stops hframe hlength)]
      cases packetIn r.bigEndian r.interfaces frame.bytes (rowBytes frames ++ tail) with
      | none => simpa using hwalk
      | some packet => simpa using hwalk

/-! ## Secrets and packets -/

def secretSpans : ℕ → List BlockFrame → List (ℕ × ℕ)
  | _, [] => []
  | offset, frame :: frames =>
    (if frame.kind = dsbType then [(offset, frame.bytes.length)] else []) ++
      secretSpans (offset + frame.bytes.length) frames

def Apart (packets : List (ℕ × PcapPacket)) (secrets : List (ℕ × ℕ)) : Prop :=
  ∀ e ∈ packets, ∀ s ∈ secrets, e.1 + 28 + e.2.data.length ≤ s.1 ∨ s.1 + s.2 ≤ e.1 + 28

def plainRow (frames : List BlockFrame) : Bytes :=
  rowBytes (frames.takeWhile (fun frame => frame.kind ≠ dsbType))

def declaredAfter (bigEndian : Bool) (declared : ℕ) (block : Bytes) : ℕ :=
  if field bigEndian block 0 = 0x0a0d0d0a then 0
  else if field bigEndian block 0 = 1 then declared + 1
  else declared

/-- A packet on a declared interface ends before the next secrets and before the bytes left over,
or runs past the end of the file. -/
def OwnBounded (bigEndian : Bool) (declared : ℕ) (frame : BlockFrame) (frames : List BlockFrame)
    (tail : Bytes) : Prop :=
  field bigEndian frame.bytes 0 = 6 → 32 ≤ frame.bytes.length →
    field bigEndian frame.bytes 8 < declared →
    28 + field bigEndian frame.bytes 20 ≤ frame.bytes.length + (plainRow frames).length ∨
      frame.bytes.length + (rowBytes frames ++ tail).length < 28 + field bigEndian frame.bytes 20

/-- Every packet is bounded, up to a block where the reader stops. -/
def Bounded : Bool → ℕ → List BlockFrame → Bytes → Prop
  | _, _, [], _ => True
  | bigEndian, declared, frame :: frames, tail =>
    Stops bigEndian frame.bytes (rowBytes frames ++ tail) ∨
      (OwnBounded bigEndian declared frame frames tail ∧
        Bounded (orderAfter bigEndian frame.bytes)
          (declaredAfter bigEndian declared frame.bytes) frames tail)

instance (bigEndian : Bool) (declared : ℕ) (frame : BlockFrame) (frames : List BlockFrame)
    (tail : Bytes) : Decidable (OwnBounded bigEndian declared frame frames tail) :=
  inferInstanceAs (Decidable (_ → _ → _ → _ ∨ _))

instance instDecidableBounded :
    ∀ bigEndian declared frames tail, Decidable (Bounded bigEndian declared frames tail)
  | _, _, [], _ => isTrue trivial
  | bigEndian, declared, frame :: frames, tail =>
    @instDecidableOr _ _ inferInstance
      (@instDecidableAnd _ _ inferInstance
        (instDecidableBounded (orderAfter bigEndian frame.bytes)
          (declaredAfter bigEndian declared frame.bytes) frames tail))

theorem length_interfacesAfter (bigEndian : Bool) (interfaces : List NgInterface) (block : Bytes) :
    (interfacesAfter bigEndian interfaces block).length =
      declaredAfter bigEndian interfaces.length block := by
  unfold interfacesAfter declaredAfter
  split_ifs <;> simp

/-- Secrets are neither a section header nor an interface nor a packet, in either byte order. -/
def Harmless (frame : BlockFrame) : Prop :=
  frame.kind = dsbType → ∀ bigEndian, field bigEndian frame.bytes 0 ≠ 0x0a0d0d0a ∧
    field bigEndian frame.bytes 0 ≠ 1 ∧ field bigEndian frame.bytes 0 ≠ 6

theorem Framed.harmless {bigEndian : Bool} {frame : BlockFrame} (h : Framed bigEndian frame) :
    Harmless frame := by
  intro hkind other
  have hlength : (frame.bytes.take 4).length = 4 := by
    rw [length_take]
    have := h.long
    omega
  have hread := h.kind
  rw [hkind, field, drop_zero] at hread
  rw [field, drop_zero]
  cases horder : orderOf bigEndian frame.bytes with
  | true =>
    rw [horder] at hread
    have hbytes : frame.bytes.take 4 = [0, 0, 0, 10] := by
      apply ofBeBytes_inj hlength
      rw [← show ofBytes true (frame.bytes.take 4) = ofBeBytes (frame.bytes.take 4) from rfl,
        ← hread]
      rfl
    rw [hbytes]
    cases other <;> decide
  | false =>
    rw [horder] at hread
    have hbytes : (frame.bytes.take 4).reverse = [0, 0, 0, 10] := by
      apply ofBeBytes_inj (by rw [length_reverse, hlength]; rfl)
      rw [← show ofBytes false (frame.bytes.take 4) = ofBeBytes (frame.bytes.take 4).reverse
        from rfl, ← hread]
      rfl
    rw [← reverse_reverse (frame.bytes.take 4), hbytes]
    cases other <;> decide

section Compare

variable {frames : List BlockFrame} {tail : Bytes} {bigEndian : Bool}
  {interfaces : List NgInterface} {offset : ℕ} {frame : BlockFrame}

theorem packetIn_of_secrets (h : Harmless frame) (hkind : frame.kind = dsbType) (behind : Bytes) :
    packetIn bigEndian interfaces frame.bytes behind = none ∧
      orderAfter bigEndian frame.bytes = bigEndian ∧
        interfacesAfter bigEndian interfaces frame.bytes = interfaces ∧
          declaredAfter bigEndian interfaces.length frame.bytes = interfaces.length := by
  obtain ⟨hheader, hinterface, hpacket⟩ := h hkind bigEndian
  simp [packetIn, orderAfter, interfacesAfter, declaredAfter, hheader, hinterface, hpacket]

theorem withoutSecrets_cons_of_secrets (hkind : frame.kind = dsbType) :
    withoutSecrets (frame :: frames) = withoutSecrets frames := by
  simp [withoutSecrets, hkind]

theorem withoutSecrets_cons_of_plain (hkind : frame.kind ≠ dsbType) :
    withoutSecrets (frame :: frames) = frame :: withoutSecrets frames := by
  simp [withoutSecrets, hkind]

theorem offset_le_of_mem_readRow (frames : List BlockFrame) :
    ∀ {offset : ℕ} {bigEndian : Bool} {interfaces : List NgInterface} {e : ℕ × PcapPacket},
      e ∈ readRow offset bigEndian interfaces frames tail → offset ≤ e.1 := by
  induction frames with
  | nil => simp [readRow]
  | cons frame frames ih =>
    intro offset bigEndian interfaces e he
    rw [readRow] at he
    split_ifs at he with hstops
    · simp at he
    · rcases mem_append.1 he with he | he
      · obtain ⟨packet, -, rfl⟩ : ∃ packet, packetIn bigEndian interfaces frame.bytes
            (rowBytes frames ++ tail) = some packet ∧ (offset, packet) = e := by
          simpa using he
        exact le_rfl
      · exact (Nat.le_add_right _ _).trans (ih he)

theorem packetIn_isSome_iff (behind : Bytes) :
    (packetIn bigEndian interfaces frame.bytes behind).isSome ↔
      field bigEndian frame.bytes 0 = 6 ∧ 32 ≤ frame.bytes.length ∧
        field bigEndian frame.bytes 8 < interfaces.length ∧
          28 + field bigEndian frame.bytes 20 ≤ frame.bytes.length + behind.length := by
  unfold packetIn
  split_ifs with hpacket
  · cases hiface : interfaces[field bigEndian frame.bytes 8]? with
    | none =>
      have hge := List.getElem?_eq_none_iff.1 hiface
      simp
      omega
    | some iface =>
      obtain ⟨hlt, -⟩ := List.getElem?_eq_some_iff.1 hiface
      simp [getRange, hpacket, hlt]
  · simp
    omega

theorem data_length_of_packetIn {behind : Bytes} {packet : PcapPacket}
    (h : packetIn bigEndian interfaces frame.bytes behind = some packet) :
    packet.data.length = field bigEndian frame.bytes 20 := by
  unfold packetIn at h
  split_ifs at h
  obtain ⟨iface, -, hpacket⟩ := bind_eq_some_iff.1 h
  obtain ⟨data, hdata, rfl⟩ := map_eq_some_iff.1 hpacket
  rw [getRange] at hdata
  split_ifs at hdata with hfits
  obtain rfl := some.inj hdata
  rw [length_append] at hfits
  simp [packetOf]
  omega

theorem Stops.copy (h : Stops bigEndian frame.bytes (rowBytes frames ++ tail)) :
    Stops bigEndian frame.bytes (rowBytes (withoutSecrets frames) ++ []) := by
  have hsize := length_rowBytes_withoutSecrets_le frames
  rw [Stops, length_append] at h ⊢
  rw [length_nil]
  omega

theorem length_readRow_withoutSecrets_le (frames : List BlockFrame) :
    ∀ {offset offset' : ℕ} {bigEndian : Bool} {interfaces : List NgInterface},
      (∀ frame ∈ frames, 12 ≤ frame.bytes.length ∧ Harmless frame) →
      InStep bigEndian frames tail →
      (readRow offset' bigEndian interfaces (withoutSecrets frames) []).length ≤
        (readRow offset bigEndian interfaces frames tail).length := by
  induction frames with
  | nil => simp [withoutSecrets, readRow]
  | cons frame frames ih =>
    intro offset offset' bigEndian interfaces hframes hstep
    obtain ⟨hlong, hharmless⟩ := hframes frame mem_cons_self
    have hframes' : ∀ f ∈ frames, 12 ≤ f.bytes.length ∧ Harmless f :=
      fun f hf => hframes f (mem_cons_of_mem _ hf)
    have hsize := length_rowBytes_withoutSecrets_le frames
    by_cases hkind : frame.kind = dsbType
    · rcases hstep with ⟨hplain, -⟩ | ⟨hlength, hrest⟩
      · exact absurd hkind hplain
      obtain ⟨hnone, horder, hinterfaces, -⟩ := @packetIn_of_secrets bigEndian interfaces frame
        hharmless hkind (rowBytes frames ++ tail)
      rw [withoutSecrets_cons_of_secrets hkind, readRow, if_neg (not_stops hlong hlength), hnone,
        hinterfaces]
      rw [horder] at hrest ⊢
      simpa using ih hframes' hrest
    · rw [withoutSecrets_cons_of_plain hkind, readRow, readRow]
      rcases hstep with ⟨-, hstops⟩ | ⟨hlength, hrest⟩
      · rw [if_pos hstops, if_pos hstops.copy]
      · rw [if_neg (not_stops hlong hlength), if_neg (not_stops hlong hlength), length_append,
          length_append]
        have hrow := @ih (offset + frame.bytes.length) (offset' + frame.bytes.length) _
          (interfacesAfter bigEndian interfaces frame.bytes) hframes' hrest
        have hpacket : (packetIn bigEndian interfaces frame.bytes
            (rowBytes (withoutSecrets frames) ++ [])).isSome →
            (packetIn bigEndian interfaces frame.bytes (rowBytes frames ++ tail)).isSome := by
          simp only [packetIn_isSome_iff, length_append, length_nil]
          omega
        cases hcopy : packetIn bigEndian interfaces frame.bytes
            (rowBytes (withoutSecrets frames) ++ []) with
        | none =>
          rw [map_none, toList_none, length_nil, Nat.zero_add]
          omega
        | some packet =>
          rw [hcopy] at hpacket
          obtain ⟨packet', hfile⟩ := isSome_iff_exists.1 (hpacket rfl)
          rw [hfile]
          simpa using hrow

theorem offset_le_of_mem_secretSpans (frames : List BlockFrame) :
    ∀ {offset : ℕ} {s : ℕ × ℕ}, s ∈ secretSpans offset frames → offset ≤ s.1 := by
  induction frames with
  | nil => simp [secretSpans]
  | cons frame frames ih =>
    intro offset s hs
    rw [secretSpans] at hs
    rcases mem_append.1 hs with hs | hs
    · split_ifs at hs with hkind
      · obtain rfl : s = (offset, frame.bytes.length) := by simpa using hs
        exact le_rfl
      · simp at hs
    · exact (Nat.le_add_right _ _).trans (ih hs)

theorem apart_iff_plainRow (frames : List BlockFrame) :
    ∀ {offset start count : ℕ}, start < offset →
      ((∀ s ∈ secretSpans offset frames, start + count ≤ s.1 ∨ s.1 + s.2 ≤ start) ↔
        start + count ≤ offset + (plainRow frames).length ∨
          ∀ frame ∈ frames, frame.kind ≠ dsbType) := by
  induction frames with
  | nil => simp [secretSpans]
  | cons frame frames ih =>
    intro offset start count hstart
    rw [secretSpans]
    by_cases hkind : frame.kind = dsbType
    · have hplain : (plainRow (frame :: frames)).length = 0 := by
        simp [plainRow, rowBytes, hkind]
      rw [hplain, if_pos hkind]
      constructor
      · intro h
        have hfirst := h (offset, frame.bytes.length) (by simp)
        simp only at hfirst
        omega
      · rintro (hend | hnone)
        · intro s hs
          rcases mem_append.1 hs with hs | hs
          · obtain rfl : s = (offset, frame.bytes.length) := by simpa using hs
            exact .inl hend
          · have hle := offset_le_of_mem_secretSpans frames hs
            omega
        · exact absurd hkind (hnone frame mem_cons_self)
    · have hplain : (plainRow (frame :: frames)).length =
          frame.bytes.length + (plainRow frames).length := by
        simp [plainRow, rowBytes, hkind]
      rw [hplain, if_neg hkind, nil_append, ih (by omega), forall_mem_cons]
      simp only [ne_eq, hkind, not_false_eq_true, true_and, Nat.add_assoc]

theorem getRange_append {data behind : Bytes} {start count : ℕ}
    (h : start + count ≤ data.length) : getRange (data ++ behind) start count =
      getRange data start count := by
  rw [getRange, getRange, if_pos h, if_pos (by rw [length_append]; omega),
    drop_append_of_le_length (by omega),
    take_append_of_le_length (by rw [length_drop]; omega)]

theorem exists_plainRow (frames : List BlockFrame) :
    ∃ file copy, rowBytes frames = plainRow frames ++ file ∧
      rowBytes (withoutSecrets frames) = plainRow frames ++ copy := by
  have hsplit := (takeWhile_append_dropWhile
    (p := fun frame : BlockFrame => decide (frame.kind ≠ dsbType)) (l := frames)).symm
  have hplain : withoutSecrets (frames.takeWhile (fun frame => frame.kind ≠ dsbType)) =
      frames.takeWhile (fun frame => frame.kind ≠ dsbType) := by
    apply filter_eq_self.2
    intro frame hframe
    exact mem_takeWhile_imp (p := fun f : BlockFrame => decide (f.kind ≠ dsbType)) hframe
  refine ⟨rowBytes (frames.dropWhile (fun frame => frame.kind ≠ dsbType)),
    rowBytes (withoutSecrets (frames.dropWhile (fun frame => frame.kind ≠ dsbType))), ?_, ?_⟩
  · rw [plainRow, rowBytes, rowBytes, rowBytes, ← flatMap_append, ← hsplit]
  · conv_lhs => rw [hsplit]
    rw [withoutSecrets, filter_append, rowBytes, flatMap_append]
    exact congrArg (· ++ _) (congrArg rowBytes hplain)

theorem OwnBounded.packetIn_eq (h : OwnBounded bigEndian interfaces.length frame frames tail) :
    packetIn bigEndian interfaces frame.bytes (rowBytes (withoutSecrets frames) ++ []) =
      packetIn bigEndian interfaces frame.bytes (rowBytes frames ++ tail) := by
  by_cases hpacket : field bigEndian frame.bytes 0 = 6 ∧ 32 ≤ frame.bytes.length ∧
      field bigEndian frame.bytes 8 < interfaces.length
  · obtain ⟨htype, hlong, hdeclared⟩ := hpacket
    obtain ⟨file, copy, hfile, hcopy⟩ := exists_plainRow frames
    rcases h htype hlong hdeclared with hwithin | hbeyond
    · have hplain (behind : Bytes) :
          getRange (frame.bytes ++ (plainRow frames ++ behind)) 28 (field bigEndian frame.bytes 20) =
            getRange (frame.bytes ++ plainRow frames) 28 (field bigEndian frame.bytes 20) := by
        rw [← append_assoc]
        exact getRange_append (by rwa [length_append])
      rw [packetIn, packetIn, hfile, hcopy, append_assoc, append_assoc, hplain, hplain]
    · have hnone (behind : Bytes) (hle : behind.length ≤ (rowBytes frames ++ tail).length) :
          packetIn bigEndian interfaces frame.bytes behind = none := by
        rw [← not_isSome_iff_eq_none, packetIn_isSome_iff]
        omega
      have hsize := length_rowBytes_withoutSecrets_le frames
      rw [hnone _ le_rfl, hnone]
      simp only [length_append, length_nil]
      omega
  · have hnone (behind : Bytes) : packetIn bigEndian interfaces frame.bytes behind = none := by
      rw [← not_isSome_iff_eq_none, packetIn_isSome_iff]
      tauto
    rw [hnone, hnone]

theorem Apart.cons_of_secrets (hkind : frame.kind = dsbType) :
    Apart (readRow (offset + frame.bytes.length) bigEndian interfaces frames tail)
        (secretSpans offset (frame :: frames)) ↔
      Apart (readRow (offset + frame.bytes.length) bigEndian interfaces frames tail)
        (secretSpans (offset + frame.bytes.length) frames) := by
  rw [secretSpans, if_pos hkind]
  constructor
  · intro h e he s hs
    exact h e he s (mem_append_right _ hs)
  · intro h e he s hs
    rcases mem_append.1 hs with hs | hs
    · obtain rfl : s = (offset, frame.bytes.length) := by simpa using hs
      have hle := offset_le_of_mem_readRow frames he
      exact .inr (by dsimp only; omega)
    · exact h e he s hs

/-- The own packet of a block, if it gives one, is apart from the secrets behind it. -/
def OwnApart (offset : ℕ) (bigEndian : Bool) (packet : Option PcapPacket) (frame : BlockFrame)
    (frames : List BlockFrame) : Prop :=
  packet.isSome → ∀ s ∈ secretSpans (offset + frame.bytes.length) frames,
    offset + 28 + field bigEndian frame.bytes 20 ≤ s.1 ∨ s.1 + s.2 ≤ offset + 28

theorem Apart.cons_of_plain (hkind : frame.kind ≠ dsbType) {packet : Option PcapPacket}
    (hpacket : packet = packetIn bigEndian interfaces frame.bytes (rowBytes frames ++ tail))
    (rest : List (ℕ × PcapPacket)) :
    Apart ((packet.map (offset, ·)).toList ++ rest) (secretSpans offset (frame :: frames)) ↔
      OwnApart offset bigEndian packet frame frames ∧
        Apart rest (secretSpans (offset + frame.bytes.length) frames) := by
  rw [secretSpans, if_neg hkind, nil_append]
  constructor
  · intro h
    refine ⟨?_, fun e he => h e (mem_append_right _ he)⟩
    intro hsome s hs
    obtain ⟨own, hown⟩ := isSome_iff_exists.1 hsome
    rw [← data_length_of_packetIn (hpacket.symm.trans hown)]
    exact h (offset, own) (mem_append_left _ (by simp [hown])) s hs
  · rintro ⟨hown, hrest⟩ e he s hs
    rcases mem_append.1 he with he | he
    · obtain ⟨own, hsome, rfl⟩ : ∃ own, packet = some own ∧ (offset, own) = e := by
        simpa using he
      have hlength := data_length_of_packetIn (hpacket.symm.trans hsome)
      rw [hlength]
      exact hown (by rw [hsome]; rfl) s hs
    · exact hrest e he s hs

theorem map_snd_toList (packet : Option PcapPacket) (offset : ℕ) :
    (packet.map (offset, ·)).toList.map Prod.snd = packet.toList := by
  cases packet <;> rfl

theorem OwnBounded.ownApart (h : OwnBounded bigEndian interfaces.length frame frames tail) :
    OwnApart offset bigEndian
      (packetIn bigEndian interfaces frame.bytes (rowBytes frames ++ tail)) frame frames := by
  intro hsome
  obtain ⟨htype, hsize, hdeclared, hfits⟩ := packetIn_isSome_iff _ |>.1 hsome
  apply (apart_iff_plainRow frames (by omega)).2
  have hwithin := h htype hsize hdeclared
  omega

theorem ownBounded_of_ownApart
    (hown : OwnApart offset bigEndian
      (packetIn bigEndian interfaces frame.bytes (rowBytes frames ++ tail)) frame frames)
    (hcopy : (packetIn bigEndian interfaces frame.bytes (rowBytes frames ++ tail)).isSome →
      (packetIn bigEndian interfaces frame.bytes (rowBytes (withoutSecrets frames) ++ [])).isSome) :
    OwnBounded bigEndian interfaces.length frame frames tail := by
  intro htype hsize hdeclared
  by_cases hfits : 28 + field bigEndian frame.bytes 20 ≤
      frame.bytes.length + (rowBytes frames ++ tail).length
  · have hsome := (packetIn_isSome_iff _).2 ⟨htype, hsize, hdeclared, hfits⟩
    rcases (apart_iff_plainRow frames (by omega)).1 (hown hsome) with hwithin | hnone
    · exact .inl (by omega)
    · -- With no secrets behind it the packet could only reach into the bytes left over.
      obtain ⟨-, -, -, hwithin⟩ := (packetIn_isSome_iff _).1 (hcopy hsome)
      have hplain : plainRow frames = rowBytes frames := by
        rw [plainRow, takeWhile_eq_self_iff.2 (by simpa using hnone)]
      have hsame : withoutSecrets frames = frames :=
        filter_eq_self.2 (by simpa using hnone)
      rw [hsame, append_nil] at hwithin
      rw [hplain]
      exact .inl hwithin
  · exact .inr (by omega)

/-- A row and the row without secrets give the same packets, none with a byte of a secret, exactly
when the packets are bounded. -/
theorem readRow_iff (frames : List BlockFrame) :
    ∀ {offset offset' : ℕ} {bigEndian : Bool} {interfaces : List NgInterface},
      (∀ frame ∈ frames, 12 ≤ frame.bytes.length ∧ Harmless frame) →
      InStep bigEndian frames tail →
      ((readRow offset' bigEndian interfaces (withoutSecrets frames) []).map Prod.snd =
          (readRow offset bigEndian interfaces frames tail).map Prod.snd ∧
        Apart (readRow offset bigEndian interfaces frames tail) (secretSpans offset frames) ↔
          Bounded bigEndian interfaces.length frames tail) := by
  induction frames with
  | nil => simp [withoutSecrets, readRow, Apart, Bounded]
  | cons frame frames ih =>
    intro offset offset' bigEndian interfaces hframes hstep
    obtain ⟨hlong, hharmless⟩ := hframes frame mem_cons_self
    have hframes' : ∀ f ∈ frames, 12 ≤ f.bytes.length ∧ Harmless f :=
      fun f hf => hframes f (mem_cons_of_mem _ hf)
    by_cases hkind : frame.kind = dsbType
    · rcases hstep with ⟨hplain, -⟩ | ⟨hlength, hrest⟩
      · exact absurd hkind hplain
      obtain ⟨hnone, horder, hinterfaces, hdeclared⟩ := @packetIn_of_secrets bigEndian interfaces
        frame hharmless hkind (rowBytes frames ++ tail)
      obtain ⟨-, -, hnot⟩ := hharmless hkind bigEndian
      rw [horder] at hrest
      rw [withoutSecrets_cons_of_secrets hkind, readRow, Bounded,
        if_neg (not_stops hlong hlength), hnone, horder, hinterfaces, hdeclared,
        map_none, toList_none, nil_append, Apart.cons_of_secrets hkind,
        ih hframes' hrest]
      simp [not_stops hlong hlength, OwnBounded, hnot]
    · rw [withoutSecrets_cons_of_plain hkind, readRow, readRow, Bounded]
      rcases hstep with ⟨-, hstops⟩ | ⟨hlength, hrest⟩
      · rw [if_pos hstops, if_pos hstops.copy]
        simp [hstops, Apart]
      · rw [if_neg (not_stops hlong hlength), if_neg (not_stops hlong hlength),
          Apart.cons_of_plain hkind rfl, map_append, map_append, map_snd_toList,
          map_snd_toList, or_iff_right (not_stops hlong hlength), ← length_interfacesAfter]
        have hcount := @length_readRow_withoutSecrets_le tail frames
          (offset + frame.bytes.length) (offset' + frame.bytes.length) _
          (interfacesAfter bigEndian interfaces frame.bytes) hframes' hrest
        have hrow := @ih (offset + frame.bytes.length) (offset' + frame.bytes.length) _
          (interfacesAfter bigEndian interfaces frame.bytes) hframes' hrest
        constructor
        · rintro ⟨hlist, hown, hapart⟩
          have hbounded : OwnBounded bigEndian interfaces.length frame frames tail := by
            apply ownBounded_of_ownApart hown
            intro hsome
            by_contra hnone
            obtain ⟨packet, hpacket⟩ := isSome_iff_exists.1 hsome
            have hlength' := congrArg List.length hlist
            rw [not_isSome_iff_eq_none.1 hnone, hpacket] at hlength'
            simp only [toList_none, toList_some, nil_append,
              singleton_append, length_cons, length_map] at hlength'
            omega
          rw [hbounded.packetIn_eq] at hlist
          exact ⟨hbounded, hrow.1 ⟨append_cancel_left hlist, hapart⟩⟩
        · rintro ⟨hbounded, hrest'⟩
          obtain ⟨hlist, hapart⟩ := hrow.2 hrest'
          rw [hbounded.packetIn_eq, hlist]
          exact ⟨rfl, hbounded.ownApart, hapart⟩

end Compare

/-! ## Files -/

def yields (data : Bytes) : List PcapPacket :=
  match readFile data with
  | .ok packets => packets
  | .error _ => []

/-- The packets of a pcapng file, each with the offset of its block. -/
def packetsAt (data : Bytes) : List (ℕ × PcapPacket) :=
  match PcapReader.new data with
  | .ok ⟨.ng r, _⟩ => r.walkAt (data.length + 1)
  | _ => []

def blocksOf (bytes : Bytes) : List BlockFrame :=
  match blockWalk bytes with
  | .ok items => items.filterMap Except.toOption
  | .error _ => []

def leftOver (bytes : Bytes) : Bytes := bytes.drop (rowBytes (blocksOf bytes)).length

/-- The reader keeps in step with the stripper's walk, from the first section on. -/
def KeepsStep (bytes : Bytes) : Prop :=
  match blocksOf bytes with
  | [] => True
  | first :: frames => InStep (orderOf false first.bytes) frames (leftOver bytes)

def PacketsBounded (bytes : Bytes) : Prop :=
  match blocksOf bytes with
  | [] => True
  | first :: frames => Bounded (orderOf false first.bytes) 0 frames (leftOver bytes)

instance (bytes : Bytes) : Decidable (KeepsStep bytes) :=
  match h : blocksOf bytes with
  | [] => isTrue (by rw [KeepsStep, h]; trivial)
  | first :: frames =>
    decidable_of_iff (InStep (orderOf false first.bytes) frames (leftOver bytes))
      (by rw [KeepsStep, h])

instance (bytes : Bytes) : Decidable (PacketsBounded bytes) :=
  match h : blocksOf bytes with
  | [] => isTrue (by rw [PacketsBounded, h]; trivial)
  | first :: frames =>
    decidable_of_iff (Bounded (orderOf false first.bytes) 0 frames (leftOver bytes))
      (by rw [PacketsBounded, h])

section Files

variable {bytes tail : Bytes} {first : BlockFrame} {frames : List BlockFrame}

theorem Row.blocksOf_eq (h : Row bytes first frames tail) : blocksOf bytes = first :: frames := by
  have hitems : ((first :: frames).map .ok).filterMap (@Except.toOption ℕ BlockFrame) =
      first :: frames := by
    rw [filterMap_map]
    exact filterMap_some
  rw [blocksOf, h.blockWalk_eq]
  exact hitems

theorem Row.leftOver_eq (h : Row bytes first frames tail) : leftOver bytes = tail := by
  rw [leftOver, h.blocksOf_eq, h.bytes_eq, drop_left]

theorem Row.new_eq (h : Row bytes first frames tail) :
    PcapReader.new bytes =
      if bytes.length < 28 then .error (.tooShort "pcapng section header" 28 bytes.length)
      else .ok ⟨.ng ⟨bytes, first.bytes.length, orderOf false first.bytes, []⟩, 1⟩ := by
  have hlong := h.framed.1.long
  have hsplit : bytes.drop 0 = first.bytes ++ (rowBytes frames ++ tail) := by
    rw [← append_assoc]
    exact h.bytes_eq
  have htotal := length_of_drop hsplit h.framed.1.ne_nil
  have htype : bytes.take 4 = shbBytes := by
    rw [← h.header]
    exact take_drop_of_drop hsplit (by omega : 0 + 4 ≤ _)
  have hgzip : PcapReader.isGzip bytes = false := by
    have htwo : (bytes.take 4).take 2 = bytes.take 2 := take_take
    rw [PcapReader.isGzip, ← htwo, htype]
    rfl
  have hmagic : (bytes.drop 8).take 4 = (first.bytes.drop 8).take 4 := by
    simpa using take_drop_of_drop hsplit (by omega : 8 + 4 ≤ _)
  have hlen : (bytes.drop 4).take 4 = (first.bytes.drop 4).take 4 := by
    simpa using take_drop_of_drop hsplit (by omega : 4 + 4 ≤ _)
  have hbig : decide (ofLeBytes ((bytes.drop 8).take 4) = 0x4d3c2b1a) =
      orderOf false first.bytes := by
    obtain ⟨order, horder⟩ := isSome_iff_exists.1 h.magic
    rw [orderOf_header h.header horder, hmagic]
    unfold byteOrderFromShb at horder
    split_ifs at horder with hbe hle
    · rw [hbe, ← some.inj horder]
      decide
    · rw [hle, ← some.inj horder]
      decide
  have hshb : ofBytes (orderOf false first.bytes) ((bytes.drop 4).take 4) =
      first.bytes.length := by
    rw [hlen]
    exact h.framed.1.length.symm
  rw [PcapReader.new, if_neg (by omega), hgzip, htype, if_neg Bool.false_ne_true,
    if_neg (by decide), if_pos (by decide), PcapReader.newNg]
  have hwithin : 0 < first.bytes.length ∧ first.bytes.length ≤ bytes.length := by omega
  simp only [hbig, hshb]
  rw [if_pos hwithin]

theorem AllFramed.mem (frames : List BlockFrame) :
    ∀ {bigEndian : Bool}, AllFramed bigEndian frames → ∀ frame ∈ frames,
      12 ≤ frame.bytes.length ∧ Harmless frame := by
  induction frames with
  | nil => simp
  | cons f frames ih =>
    rintro bigEndian ⟨hframed, hall⟩ frame hframe
    rcases mem_cons.1 hframe with rfl | hframe
    · exact ⟨hframed.long, hframed.harmless⟩
    · exact ih hall frame hframe

theorem readRow_of_short (frames : List BlockFrame) :
    ∀ {offset : ℕ} {bigEndian : Bool} {interfaces : List NgInterface},
      (rowBytes frames).length < 32 →
      readRow offset bigEndian interfaces frames tail = [] := by
  induction frames with
  | nil =>
    intro offset bigEndian interfaces _
    rfl
  | cons frame frames ih =>
    intro offset bigEndian interfaces hshort
    rw [rowBytes_cons, length_append] at hshort
    have hnone : packetIn bigEndian interfaces frame.bytes (rowBytes frames ++ tail) = none := by
      rw [← not_isSome_iff_eq_none, packetIn_isSome_iff]
      omega
    rw [readRow, hnone, ih (by omega)]
    exact ite_self _

theorem Row.packetsAt_eq (h : Row bytes first frames tail)
    (hstep : InStep (orderOf false first.bytes) frames tail) :
    packetsAt bytes = readRow first.bytes.length (orderOf false first.bytes) [] frames tail ∧
      yields bytes = (packetsAt bytes).map Prod.snd := by
  have hlong := h.framed.1.long
  have hrow : bytes.drop first.bytes.length = rowBytes frames ++ tail := by
    rw [h.bytes_eq, rowBytes_cons, append_assoc, drop_left]
  have htotal : bytes.length = first.bytes.length + (rowBytes frames ++ tail).length := by
    rw [h.bytes_eq, rowBytes_cons, append_assoc, length_append]
  by_cases hshort : bytes.length < 28
  · have hempty : readRow first.bytes.length (orderOf false first.bytes) [] frames tail = [] := by
      apply readRow_of_short
      rw [length_append] at htotal
      omega
    rw [hempty, packetsAt, yields, readFile, h.new_eq, if_pos hshort]
    exact ⟨rfl, rfl⟩
  · have hcount := AllFramed.length_le frames h.framed.2
    have hwalk := @NgReader.walkAt_eq_readRow tail h.short frames
      ⟨bytes, first.bytes.length, orderOf false first.bytes, []⟩ (bytes.length + 1) hrow
      (fun frame hframe => (h.framed.2.mem frames frame hframe).1) hstep
      (by rw [length_append] at htotal; omega)
    have hread : readFile bytes = .ok ((NgReader.mk bytes first.bytes.length
        (orderOf false first.bytes) []).walkIn (bytes.length + 1)) := by
      rw [readFile, h.new_eq, if_neg hshort]
      apply congrArg Except.ok
      apply PcapReader.collectIn_eq_walkIn <;> rw [NgReader.left] <;> dsimp only <;> omega
    rw [packetsAt, h.new_eq, if_neg hshort, yields, hread]
    exact ⟨hwalk, (NgReader.map_snd_walkAt _ _).symm⟩

theorem InStep.copy (frames : List BlockFrame) :
    ∀ {bigEndian : Bool}, (∀ frame ∈ frames, 12 ≤ frame.bytes.length ∧ Harmless frame) →
      InStep bigEndian frames tail → InStep bigEndian (withoutSecrets frames) [] := by
  induction frames with
  | nil => simp [withoutSecrets, InStep]
  | cons frame frames ih =>
    intro bigEndian hframes hstep
    obtain ⟨-, hharmless⟩ := hframes frame mem_cons_self
    have hframes' : ∀ f ∈ frames, 12 ≤ f.bytes.length ∧ Harmless f :=
      fun f hf => hframes f (mem_cons_of_mem _ hf)
    by_cases hkind : frame.kind = dsbType
    · rcases hstep with ⟨hplain, -⟩ | ⟨-, hrest⟩
      · exact absurd hkind hplain
      obtain ⟨-, horder, -⟩ := @packetIn_of_secrets bigEndian [] frame hharmless hkind []
      rw [horder] at hrest
      rw [withoutSecrets_cons_of_secrets hkind]
      exact ih hframes' hrest
    · rw [withoutSecrets_cons_of_plain hkind]
      rcases hstep with ⟨-, hstops⟩ | ⟨hlength, hrest⟩
      · exact .inl ⟨hkind, hstops.copy⟩
      · exact .inr ⟨hlength, ih hframes' hrest⟩

/-- A file that is accepted has the blocks of its copy and secrets, and stripping the copy changes
nothing. While the reader keeps in step with the blocks, the file and its copy yield the same
packets, and none has a byte of a secret, exactly when the packets are bounded. -/
theorem stripSecrets_iff {maxBytes stripped : ℕ} {kept : Bytes}
    (h : stripSecrets maxBytes bytes = .ok (kept, stripped)) :
    blockWalk kept = .ok ((withoutSecrets (blocksOf bytes)).map .ok) ∧
      stripSecrets maxBytes kept = .ok (kept, 0) ∧
      (KeepsStep bytes →
        (yields kept = yields bytes ∧ Apart (packetsAt bytes) (secretSpans 0 (blocksOf bytes)) ↔
          PacketsBounded bytes)) := by
  obtain ⟨hsize, first, frames, tail, hrow, rfl⟩ := exists_row_of_stripSecrets h
  have hcopy := hrow.copy
  have hkeep : withoutSecrets (first :: frames) = first :: withoutSecrets frames :=
    withoutSecrets_cons_of_plain hrow.first_kind
  have hbytes : bytes.length = (rowBytes (first :: frames)).length + tail.length := by
    rw [hrow.bytes_eq, length_append]
  have hle := length_rowBytes_withoutSecrets_le (first :: frames)
  refine ⟨?_, ?_, ?_⟩
  · rw [hrow.blocksOf_eq, hkeep, ← hkeep, hcopy.blockWalk_eq, hkeep]
  · apply hcopy.stripSecrets_eq (by omega)
    intro frame hframe
    rw [← hkeep] at hframe
    simpa using of_mem_filter hframe
  · intro hstep
    rw [KeepsStep, hrow.blocksOf_eq, hrow.leftOver_eq] at hstep
    have hframes := hrow.framed.2.mem
    obtain ⟨hat, hyields⟩ := hrow.packetsAt_eq hstep
    obtain ⟨hat', hyields'⟩ := hcopy.packetsAt_eq (hstep.copy frames hframes)
    have hspans : secretSpans 0 (first :: frames) = secretSpans first.bytes.length frames := by
      rw [secretSpans, if_neg hrow.first_kind, nil_append, Nat.zero_add]
    rw [PacketsBounded, hrow.blocksOf_eq, hrow.leftOver_eq, hyields, hyields', hat, hat', hspans]
    exact readRow_iff frames hframes hstep

end Files

/-- A section, an interface, a packet block of 36 bytes with so many captured, and a secret. -/
def sampleFile (captured : UInt8) : Bytes :=
  shbBytes ++ [28, 0, 0, 0, 0x4D, 0x3C, 0x2B, 0x1A, 1, 0, 0, 0] ++ List.replicate 8 0xFF ++
    [28, 0, 0, 0] ++
  [1, 0, 0, 0, 20, 0, 0, 0, 1, 0, 0, 0, 0, 0, 4, 0, 20, 0, 0, 0] ++
  [6, 0, 0, 0, 36, 0, 0, 0, 0, 0, 0, 0, 0, 0, 0, 0, 0, 0, 0, 0, captured, 0, 0, 0,
    captured, 0, 0, 0, 0xAA, 0xBB, 0xCC, 0xDD, 36, 0, 0, 0] ++
  [10, 0, 0, 0, 24, 0, 0, 0, 0x4B, 0x53, 0x4C, 0x54, 4, 0, 0, 0, 0x4B, 0x45, 0x59, 0x21,
    24, 0, 0, 0]

def sampleCopy (captured : UInt8) : Bytes := (sampleFile captured).take 84

theorem stripSecrets_sample :
    stripSecrets 1000 (sampleFile 4) = .ok (sampleCopy 4, 1) ∧
      yields (sampleCopy 4) = yields (sampleFile 4) ∧
        Apart (packetsAt (sampleFile 4)) (secretSpans 0 (blocksOf (sampleFile 4))) := by
  have hstrip : stripSecrets 1000 (sampleFile 4) = .ok (sampleCopy 4, 1) := by decide +kernel
  have hstep : KeepsStep (sampleFile 4) := by decide +kernel
  have hbounded : PacketsBounded (sampleFile 4) := by decide +kernel
  exact ⟨hstrip, ((stripSecrets_iff hstrip).2.2 hstep).2 hbounded⟩

/-- A packet that says it has more bytes than its block is given those of the secrets behind it. -/
theorem secrets_in_packet :
    ¬ ∀ (maxBytes : ℕ) (bytes kept : Bytes) (stripped : ℕ),
      stripSecrets maxBytes bytes = .ok (kept, stripped) →
        yields kept = yields bytes ∧
          Apart (packetsAt bytes) (secretSpans 0 (blocksOf bytes)) := by
  intro h
  have hstrip : stripSecrets 1000 (sampleFile 28) = .ok (sampleCopy 28, 1) := by decide +kernel
  have hdiffer : yields (sampleCopy 28) ≠ yields (sampleFile 28) := by decide +kernel
  exact hdiffer (h 1000 _ _ _ hstrip).1

end Sipnab.Pcap
