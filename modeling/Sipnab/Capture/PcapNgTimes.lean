import Sipnab.Capture.PcapNgSections

/-!
# Times of pcapng packets

A packet block has a count of ticks, and its interface says how many ticks a second has. The count
is turned into seconds and microseconds in 64 bits: ticks past the second, times a million, stop at
the largest number there, and so does a resolution.
-/

namespace Sipnab.Pcap

/-- The ticks in a second that the byte of the option stands for. -/
def declaredTicks (tsresol : UInt8) : ℕ :=
  if tsresol &&& 0x80 ≠ 0 then 2 ^ (tsresol &&& 0x7f).toNat else 10 ^ tsresol.toNat

def InterfaceBlock.declaredTicks (i : InterfaceBlock) : ℕ :=
  (((i.last 9).bind (fun o => o.value.head?)).map Pcap.declaredTicks).getD 1000000

def PacketBlock.ticks (p : PacketBlock) : ℕ := p.tsHigh * 2 ^ 32 + p.tsLow

theorem PacketBlock.ticks_lt (p : PacketBlock) : p.ticks < 2 ^ 64 := by
  have hhigh := p.tsHigh_lt
  have hlow := p.tsLow_lt
  rw [ticks]
  omega

theorem declaredTicks_pos (tsresol : UInt8) : 0 < declaredTicks tsresol := by
  unfold declaredTicks
  split
  · exact Nat.two_pow_pos _
  · exact Nat.pow_pos (by decide)

theorem resolution_eq_min (tsresol : UInt8) :
    resolution tsresol = min (declaredTicks tsresol) (2 ^ 64 - 1) := by
  unfold resolution declaredTicks
  by_cases htwo : tsresol &&& 0x80 ≠ 0
  · rw [if_pos htwo, if_pos htwo]
    dsimp only
    by_cases hexp : (tsresol &&& 0x7f).toNat ≤ 63
    · have hle : 2 ^ (tsresol &&& 0x7f).toNat ≤ 2 ^ 63 := Nat.pow_le_pow_right (by decide) hexp
      rw [if_pos hexp, min_eq_left (by omega)]
    · have hle : 2 ^ 64 ≤ 2 ^ (tsresol &&& 0x7f).toNat :=
        Nat.pow_le_pow_right (by decide) (by omega)
      rw [if_neg hexp, min_eq_right (by omega)]
  · rw [if_neg htwo, if_neg htwo]
    by_cases hfits : 10 ^ tsresol.toNat < 2 ^ 64
    · rw [if_pos hfits, min_eq_left (by omega)]
    · rw [if_neg hfits, min_eq_right (by omega)]

theorem InterfaceBlock.declaredTicks_pos (i : InterfaceBlock) : 0 < i.declaredTicks := by
  unfold InterfaceBlock.declaredTicks
  cases (i.last 9).bind (fun o => o.value.head?) with
  | none => exact show 0 < 1000000 by decide
  | some b => exact Pcap.declaredTicks_pos b

theorem InterfaceBlock.tsresol_eq_min (i : InterfaceBlock) :
    i.interface.tsresol = min i.declaredTicks (2 ^ 64 - 1) := by
  unfold InterfaceBlock.interface InterfaceBlock.declaredTicks
  dsimp only
  cases (i.last 9).bind (fun o => o.value.head?) with
  | none => exact show 1000000 = min 1000000 (2 ^ 64 - 1) by decide
  | some b => exact resolution_eq_min b

/-! ## Microseconds -/

variable {resol ticks : ℕ}

theorem micros_lt (hresol : 0 < resol) (ticks : ℕ) : ticks % resol * 1000000 / resol < 1000000 := by
  have hmod := Nat.mod_lt ticks hresol
  rw [Nat.div_lt_iff_lt_mul hresol, Nat.mul_comm 1000000]
  exact Nat.mul_lt_mul_of_pos_right hmod (by decide)

theorem micros_eq (hresol : 0 < resol) (ticks : ℕ) :
    ticks * 1000000 / resol = ticks / resol * 1000000 + ticks % resol * 1000000 / resol := by
  have hsplit : ticks * 1000000 = resol * (ticks / resol * 1000000) + ticks % resol * 1000000 := by
    conv_lhs => rw [← Nat.div_add_mod ticks resol]
    ring
  rw [hsplit, Nat.mul_add_div hresol]

theorem timestamp_eq (hresol : 0 < resol) (ticks : ℕ) :
    timestamp resol ticks = (min (ticks / resol) (2 ^ 32 - 1),
      min (ticks % resol * 1000000) (2 ^ 64 - 1) / resol) := by
  have hlt := micros_lt hresol ticks
  have hle : min (ticks % resol * 1000000) (2 ^ 64 - 1) / resol
      ≤ ticks % resol * 1000000 / resol := Nat.div_le_div_right (min_le_left _ _)
  have hmax : max resol 1 = resol := max_eq_left hresol
  unfold timestamp
  dsimp only
  rw [hmax, Nat.mod_eq_of_lt (by omega)]

/-- The largest number stops the microseconds short only past a whole multiple of the
resolution. -/
theorem min_div_eq_iff (hresol : 0 < resol) (x m : ℕ) :
    min x m / resol = x / resol ↔ x < (m / resol + 1) * resol := by
  rw [← Nat.div_lt_iff_lt_mul hresol, Nat.lt_succ_iff]
  rcases le_total x m with hle | hle
  · rw [min_eq_left hle]
    exact iff_of_true rfl (Nat.div_le_div_right hle)
  · rw [min_eq_right hle]
    exact ⟨fun h => h.ge, fun h => le_antisymm (Nat.div_le_div_right hle) h⟩

/-! ## Times on an interface -/

variable {i : InterfaceBlock} {p p' : PacketBlock}

theorem PacketBlock.on_secs (p : PacketBlock) (i : InterfaceBlock) :
    (p.on i.interface).timestampSecs
      = min (p.ticks / min i.declaredTicks (2 ^ 64 - 1)) (2 ^ 32 - 1) := by
  have hpos := i.declaredTicks_pos
  have hstamp := timestamp_eq (lt_min hpos (by decide : 0 < 2 ^ 64 - 1)) p.ticks
  rw [← i.tsresol_eq_min] at hstamp ⊢
  exact congrArg Prod.fst hstamp

theorem PacketBlock.on_usecs (p : PacketBlock) (i : InterfaceBlock) :
    (p.on i.interface).timestampUsecs
      = min (p.ticks % min i.declaredTicks (2 ^ 64 - 1) * 1000000) (2 ^ 64 - 1)
        / min i.declaredTicks (2 ^ 64 - 1) := by
  have hpos := i.declaredTicks_pos
  have hstamp := timestamp_eq (lt_min hpos (by decide : 0 < 2 ^ 64 - 1)) p.ticks
  rw [← i.tsresol_eq_min] at hstamp ⊢
  exact congrArg Prod.snd hstamp

/-- The seconds and microseconds are those of the exact time, rounded down. -/
structure ExactTime (resol ticks : ℕ) (packet : PcapPacket) : Prop where
  secs : packet.timestampSecs = ⌊(ticks : ℚ) / resol⌋₊
  micros : packet.timestampSecs * 1000000 + packet.timestampUsecs
    = ⌊((ticks * 1000000 : ℕ) : ℚ) / resol⌋₊
  usecs_lt : packet.timestampUsecs < 1000000

def NotEarlier (packet packet' : PcapPacket) : Prop :=
  packet.timestampSecs < packet'.timestampSecs ∨
    packet.timestampSecs = packet'.timestampSecs ∧ packet.timestampUsecs ≤ packet'.timestampUsecs

/-- The ticks past the second, times a million, come to the same microseconds in 64 bits. A
resolution past 64 bits counts as the largest number there. -/
def MillionFits (resol ticks : ℕ) : Prop :=
  if resol < 2 ^ 64 then ticks % resol * 1000000 < ((2 ^ 64 - 1) / resol + 1) * resol
  else ticks * 1000000 < 2 ^ 64 - 1 ∨
    ticks < 2 ^ 64 - 1 ∧ resol ≤ ticks * 1000000 ∧ ticks * 1000000 < 2 * resol

instance decidableMillionFits (resol ticks : ℕ) : Decidable (MillionFits resol ticks) :=
  inferInstanceAs (Decidable (if resol < 2 ^ 64 then _ else _))

/-- Not both times are past the seconds of 32 bits, or the microseconds alone are in order. -/
def SecondsTell (resol ticks ticks' : ℕ) : Prop :=
  ticks' / resol < 2 ^ 32 ∨ ticks / resol < 2 ^ 32 - 1 ∨
    ticks % resol * 1000000 / resol ≤ ticks' % resol * 1000000 / resol

theorem exactTime_iff_millionFits (hfits : p.ticks / i.declaredTicks < 2 ^ 32) :
    ExactTime i.declaredTicks p.ticks (p.on i.interface) ↔ MillionFits i.declaredTicks p.ticks := by
  have hpos := i.declaredTicks_pos
  have hticks := p.ticks_lt
  have hexact : ExactTime i.declaredTicks p.ticks (p.on i.interface) ↔
      (p.on i.interface).timestampSecs = p.ticks / i.declaredTicks ∧
        (p.on i.interface).timestampUsecs
          = p.ticks % i.declaredTicks * 1000000 / i.declaredTicks := by
    have hlt := micros_lt hpos p.ticks
    have hmicros := micros_eq hpos p.ticks
    constructor
    · rintro ⟨hsecs, hsum, -⟩
      rw [Nat.floor_div_eq_div] at hsecs hsum
      rw [hsecs, hmicros] at hsum
      exact ⟨hsecs, by omega⟩
    · rintro ⟨hsecs, husecs⟩
      refine ⟨by rw [Nat.floor_div_eq_div, hsecs], ?_, by omega⟩
      rw [Nat.floor_div_eq_div, hmicros, hsecs, husecs]
  rw [hexact, p.on_secs, p.on_usecs]
  generalize i.declaredTicks = resol at hpos hfits
  generalize p.ticks = ticks at hticks hfits
  unfold MillionFits
  split
  case isTrue hlt =>
    rw [min_eq_left (by omega : resol ≤ 2 ^ 64 - 1), min_eq_left (by omega), min_div_eq_iff hpos]
    exact and_iff_right rfl
  case isFalse hge =>
    have hdiv : ticks / resol = 0 := Nat.div_eq_of_lt (by omega)
    have hmod : ticks % resol = ticks := Nat.mod_eq_of_lt (by omega)
    rw [min_eq_right (by omega : 2 ^ 64 - 1 ≤ resol), hdiv, hmod]
    by_cases hlast : ticks < 2 ^ 64 - 1
    · have hzero : ticks / (2 ^ 64 - 1) = 0 := Nat.div_eq_of_lt hlast
      rw [hzero, Nat.mod_eq_of_lt hlast, Nat.zero_min]
      rcases lt_or_ge (ticks * 1000000) (2 ^ 64 - 1) with hsmall | hlarge
      · have hnone : ticks * 1000000 / resol = 0 := Nat.div_eq_of_lt (by omega)
        rw [min_eq_left hsmall.le, Nat.div_eq_of_lt hsmall, hnone]
        exact iff_of_true ⟨rfl, rfl⟩ (Or.inl hsmall)
      · have hone : 1 = ticks * 1000000 / resol ↔
            resol ≤ ticks * 1000000 ∧ ticks * 1000000 < 2 * resol := by
          rw [eq_comm, Nat.div_eq_iff hpos]
          omega
        rw [min_eq_right hlarge, Nat.div_self (by decide), hone]
        constructor
        · rintro ⟨-, hbetween⟩
          exact Or.inr ⟨hlast, hbetween⟩
        · rintro (hsmall | ⟨-, hbetween⟩)
          · omega
          · exact ⟨rfl, hbetween⟩
    · have hone : ticks / (2 ^ 64 - 1) = 1 := by omega
      rw [hone]
      constructor
      · rintro ⟨hwrong, -⟩
        omega
      · rintro (hsmall | ⟨hsmall, -⟩)
        · omega
        · omega

theorem notEarlier_iff_secondsTell (hle : p.ticks ≤ p'.ticks) :
    NotEarlier (p.on i.interface) (p'.on i.interface) ↔
      SecondsTell i.declaredTicks p.ticks p'.ticks := by
  have hpos := i.declaredTicks_pos
  have hticks := p'.ticks_lt
  unfold NotEarlier SecondsTell
  rw [p.on_secs, p.on_usecs, p'.on_secs, p'.on_usecs]
  generalize i.declaredTicks = resol at hpos
  generalize p.ticks = ticks at hle
  generalize p'.ticks = ticks' at hle hticks
  have hresol : 0 < min resol (2 ^ 64 - 1) := lt_min hpos (by decide)
  have hsecs := Nat.div_le_div_right (c := min resol (2 ^ 64 - 1)) hle
  -- In one second the ticks past it are in order.
  have husecs : ticks / min resol (2 ^ 64 - 1) = ticks' / min resol (2 ^ 64 - 1) →
      min (ticks % min resol (2 ^ 64 - 1) * 1000000) (2 ^ 64 - 1) / min resol (2 ^ 64 - 1)
        ≤ min (ticks' % min resol (2 ^ 64 - 1) * 1000000) (2 ^ 64 - 1)
          / min resol (2 ^ 64 - 1) := by
    intro hsame
    have hmod : ticks % min resol (2 ^ 64 - 1) ≤ ticks' % min resol (2 ^ 64 - 1) := by
      have hsplit := Nat.div_add_mod ticks (min resol (2 ^ 64 - 1))
      have hsplit' := Nat.div_add_mod ticks' (min resol (2 ^ 64 - 1))
      rw [hsame] at hsplit
      omega
    exact Nat.div_le_div_right (min_le_min_right _ (Nat.mul_le_mul_right _ hmod))
  by_cases hsmall : ticks' / min resol (2 ^ 64 - 1) < 2 ^ 32
  · have hright : ticks' / resol < 2 ^ 32 :=
      (Nat.div_le_div_left (min_le_left _ _) hresol).trans_lt hsmall
    refine iff_of_true ?_ (Or.inl hright)
    rcases hsecs.lt_or_eq with hlt | heq
    · left
      omega
    · exact Or.inr ⟨by rw [heq], husecs heq⟩
  · have hlow : resol < 2 ^ 32 := by
      have hmul := Nat.div_mul_le_self ticks' (min resol (2 ^ 64 - 1))
      have hmany : 2 ^ 32 * min resol (2 ^ 64 - 1)
          ≤ ticks' / min resol (2 ^ 64 - 1) * min resol (2 ^ 64 - 1) :=
        Nat.mul_le_mul_right _ (by omega)
      omega
    have hmin : min resol (2 ^ 64 - 1) = resol := min_eq_left (by omega)
    rw [hmin] at hsmall hsecs husecs ⊢
    have hx := Nat.mod_lt ticks hpos
    have hx' := Nat.mod_lt ticks' hpos
    rw [min_eq_left (by omega : ticks % resol * 1000000 ≤ 2 ^ 64 - 1),
      min_eq_left (by omega : ticks' % resol * 1000000 ≤ 2 ^ 64 - 1)]
    omega

/-! ## Times as they are read -/

/-- A reader at a packet block, with the interface the block names in its table. -/
structure NgReader.At (r : NgReader) (i : InterfaceBlock) (p : PacketBlock) (behind : Bytes) :
    Prop where
  here : r.data.drop r.offset = (Block.packet p).encode r.bigEndian ++ behind
  size : ((Block.packet p).body r.bigEndian).length + 12 < 2 ^ 32
  iface : r.interfaces[p.interfaceId]? = some i.interface

/-- The times of two packets of an interface are exact and in order exactly when 64 bits hold what
they are computed from and 32 bits the seconds. -/
theorem times_exact_iff {r r' : NgReader} {behind behind' : Bytes} (h : r.At i p behind)
    (h' : r'.At i p' behind') :
    ∃ packet packet' next next', r.step = .yielded packet next ∧ r'.step = .yielded packet' next' ∧
      (((p.ticks / i.declaredTicks < 2 ^ 32 → ExactTime i.declaredTicks p.ticks packet) ∧
          (p.ticks ≤ p'.ticks → NotEarlier packet packet')) ↔
        (p.ticks / i.declaredTicks < 2 ^ 32 → MillionFits i.declaredTicks p.ticks) ∧
          (p.ticks ≤ p'.ticks → SecondsTell i.declaredTicks p.ticks p'.ticks)) :=
  ⟨p.on i.interface, p'.on i.interface, _, _, NgReader.step_packet h.here h.size h.iface,
    NgReader.step_packet h'.here h'.size h'.iface,
    and_congr (imp_congr_right exactTime_iff_millionFits)
      (imp_congr_right notEarlier_iff_secondsTell)⟩

def tsresolBlock (b : UInt8) : InterfaceBlock where
  linkType := 1
  between := [0, 0, 0, 0, 0, 0]
  options := [⟨9, [b], [0, 0, 0], by decide, by decide, etherBlock.linkType_lt, rfl⟩]
  closed := true
  linkType_lt := etherBlock.linkType_lt
  between_length := etherBlock.between_length

/-- A packet of one byte, nine hundred million million ticks after the epoch. -/
def ticksBlock : PacketBlock where
  interfaceId := 0
  tsHigh := 209547
  tsLow := 2488025088
  data := [65]
  origLen := 1
  behind := [0, 0, 0]
  interfaceId_lt := (byteBlock 65).interfaceId_lt
  tsHigh_lt := by decide
  tsLow_lt := by decide
  data_size := (byteBlock 65).data_size
  origLen_lt := (byteBlock 65).origLen_lt

def readerAt (b : UInt8) : NgReader where
  data := (Block.packet ticksBlock).encode false
  offset := 0
  bigEndian := false
  interfaces := [(tsresolBlock b).interface]

theorem at_readerAt (b : UInt8) : (readerAt b).At (tsresolBlock b) ticksBlock [] where
  here := (List.append_nil _).symm
  size := show (Block.body false (Block.packet ticksBlock)).length + 12 < 2 ^ 32 by decide
  iface := rfl

theorem times_exact_nanoseconds :
    ∃ packet packet' next next', (readerAt 9).step = .yielded packet next ∧
      (readerAt 9).step = .yielded packet' next' ∧
      ExactTime (tsresolBlock 9).declaredTicks ticksBlock.ticks packet ∧
        NotEarlier packet packet' := by
  obtain ⟨packet, packet', next, next', hstep, hstep', hiff⟩ :=
    times_exact_iff (at_readerAt 9) (at_readerAt 9)
  obtain ⟨hexact, horder⟩ := hiff.mpr ⟨fun _ => (by decide : MillionFits (10 ^ 9) ticksBlock.ticks),
    fun _ => Or.inl (by decide : ticksBlock.ticks / 10 ^ 9 < 2 ^ 32)⟩
  exact ⟨packet, packet', next, next', hstep, hstep',
    hexact (by decide : ticksBlock.ticks / 10 ^ 9 < 2 ^ 32), horder le_rfl⟩

/-- A clock of femtoseconds at nine tenths of a second: the reader says a fiftieth. -/
theorem femtoseconds_stop_short :
    (readerAt 15).At (tsresolBlock 15) ticksBlock [] ∧
      (tsresolBlock 15).declaredTicks = 10 ^ 15 ∧ ticksBlock.ticks = 9 * 10 ^ 14 ∧
      ∃ packet next, (readerAt 15).step = .yielded packet next ∧
        packet.timestampSecs = 0 ∧ packet.timestampUsecs = 18446 ∧
        ¬ ExactTime (tsresolBlock 15).declaredTicks ticksBlock.ticks packet := by
  refine ⟨at_readerAt 15, rfl, rfl, _, _,
    NgReader.step_packet (at_readerAt 15).here (at_readerAt 15).size (at_readerAt 15).iface,
    by decide, by decide, ?_⟩
  rw [exactTime_iff_millionFits (by decide : ticksBlock.ticks / 10 ^ 15 < 2 ^ 32)]
  exact (by decide : ¬ MillionFits (10 ^ 15) ticksBlock.ticks)

end Sipnab.Pcap
