import Sipnab.Capture.WebSocket

/-!
# Chunks of a WebSocket stream

How a stream is cut into chunks does not change what is decoded from it, up to the first refusal,
unless it begins with an HTTP head that ends late: such a head is refused only where a chunk ends
in it.
-/

namespace Sipnab.WebSocket

open List Option

/-! ## More bytes -/

variable {data buf c : Bytes} {i : ℕ} {h : FrameHeader} {ws : WsStream}

theorem take_drop_append {k : ℕ} (h : i + k ≤ data.length) (x : Bytes) :
    ((data ++ x).drop i).take k = (data.drop i).take k := by
  rw [drop_append_of_le_length (by omega), take_append_of_le_length (by rw [length_drop]; omega)]

theorem two_le_headerSize (len7 : ℕ) (masked : Bool) : 2 ≤ headerSize len7 masked := by
  unfold headerSize
  dsimp only
  split_ifs <;> omega

variable {len7 m : ℕ} {masked : Bool} {payload token : Bytes} {chunks : List Bytes} (n : ℕ)

theorem declaredLen_append (h : headerSize len7 masked ≤ data.length) (x : Bytes) :
    declaredLen (data ++ x) len7 = declaredLen data len7 := by
  unfold headerSize at h
  dsimp only at h
  unfold declaredLen
  split_ifs at h ⊢ <;> first | rfl | rw [take_drop_append (by omega)]

theorem maskKey_append (h : headerSize len7 masked ≤ data.length) (x : Bytes) :
    maskKey (data ++ x) (headerSize len7 masked) masked =
      maskKey data (headerSize len7 masked) masked := by
  cases masked with
  | false => rfl
  | true =>
    have hsize : 4 ≤ headerSize len7 true := by
      simp only [headerSize, if_true]
      omega
    have hkey : headerSize len7 true - 4 + 4 ≤ data.length := by omega
    rw [maskKey, maskKey, take_drop_append hkey]

theorem parseFrameHeader_append {r : Except Refusal (Option FrameHeader)}
    (h : parseFrameHeader data = r) (hr : r ≠ .ok none) (x : Bytes) :
    parseFrameHeader (data ++ x) = r := by
  match data with
  | [] => exact absurd h.symm hr
  | [_] => exact absurd h.symm hr
  | byte0 :: byte1 :: rest =>
    have hshort : ¬ (byte0 :: byte1 :: rest).length <
        headerSize (byte1 &&& 0x7F).toNat (byte1 &&& 0x80 != 0) := by
      intro hshort
      rw [parseFrameHeader, if_pos hshort] at h
      exact hr h.symm
    have hlong : ¬ (byte0 :: byte1 :: (rest ++ x)).length <
        headerSize (byte1 &&& 0x7F).toNat (byte1 &&& 0x80 != 0) := by
      simp only [length_cons, length_append] at hshort ⊢
      omega
    have hlen := declaredLen_append (not_lt.mp hshort) x
    have hmask := maskKey_append (not_lt.mp hshort) x
    simp only [cons_append] at hlen hmask
    rw [← h, cons_append, cons_append, parseFrameHeader, parseFrameHeader, if_neg hshort,
      if_neg hlong, hlen, hmask]

theorem parseFrameHeader_bounds (hparse : parseFrameHeader data = .ok (some h)) :
    2 ≤ h.headerLen ∧ h.headerLen ≤ data.length := by
  unfold parseFrameHeader at hparse
  split at hparse
  case h_1 byte0 byte1 rest =>
    dsimp only at hparse
    split_ifs at hparse with hshort
    · cases hparse
    · have heq := some.inj (Except.ok.inj hparse)
      rw [← heq]
      exact ⟨two_le_headerSize _ _, not_lt.mp hshort⟩
  case h_2 => cases hparse

/-! ## Frames -/

theorem takeFrame_withBuf {r : Except Refusal (WsStream × Option Bytes)}
    (hr : WsStream.takeFrame { ws with buf := buf } h payload = r) (buf' : Bytes) :
    WsStream.takeFrame { ws with buf := buf' } h payload =
      r.map (fun p => ({ p.1 with buf := buf' }, p.2)) := by
  rw [← hr]
  unfold WsStream.takeFrame
  split_ifs <;> rfl

theorem takeFrame_eq_ok {ws' : WsStream} {message : Option Bytes}
    (htake : ws.takeFrame h payload = .ok (ws', message)) :
    ws'.buf = ws.buf ∧ ws'.phase = ws.phase := by
  unfold WsStream.takeFrame at htake
  split_ifs at htake <;> (cases htake; exact ⟨rfl, rfl⟩)

theorem readFrames_of_le {n : ℕ} (hn : ws.buf.length ≤ n) (hm : ws.buf.length ≤ m) :
    readFrames n ws = readFrames m ws := by
  induction n generalizing m ws with
  | zero =>
    have hnil : ws.buf = [] := eq_nil_of_length_eq_zero (Nat.le_zero.mp hn)
    cases m with
    | zero => rfl
    | succ m => rw [readFrames, readFrames, hnil]; rfl
  | succ n ih =>
    cases m with
    | zero =>
      have hnil : ws.buf = [] := eq_nil_of_length_eq_zero (Nat.le_zero.mp hm)
      rw [readFrames, readFrames, hnil]
      rfl
    | succ m =>
      rw [readFrames, readFrames]
      cases hparse : parseFrameHeader ws.buf with
      | error e => rfl
      | ok header =>
        cases header with
        | none => rfl
        | some h =>
          obtain ⟨htwo, hle⟩ := parseFrameHeader_bounds hparse
          dsimp only
          by_cases hshort : ws.buf.length < h.headerLen + h.payloadLen
          · rw [if_pos hshort, if_pos hshort]
          · rw [if_neg hshort, if_neg hshort]
            split
            case h_1 => rfl
            case h_2 ws' message htake =>
              have hbuf : ws'.buf.length ≤ ws.buf.length - 2 := by
                rw [(takeFrame_eq_ok htake).1, length_drop]
                omega
              rw [ih (by omega) (m := m) (by omega)]

/-- What is decoded from some bytes and then from more is what is decoded from all of them. -/
def Continues (first : WsStream × WsOutput) (whole : WsOutput) (x : Bytes) : Prop :=
  match first.2.refused with
  | some e => whole = ⟨first.2.messages, some e⟩
  | none => ∀ n, (first.1.buf ++ x).length ≤ n →
      whole = ⟨first.2.messages ++ (readFrames n { first.1 with buf := first.1.buf ++ x }).2.messages,
        (readFrames n { first.1 with buf := first.1.buf ++ x }).2.refused⟩

theorem Continues.cons {first : WsStream × WsOutput} {whole : WsOutput} {x : Bytes}
    (h : Continues first whole x) (messages : List Bytes) :
    Continues (first.1, ⟨messages ++ first.2.messages, first.2.refused⟩)
      ⟨messages ++ whole.messages, whole.refused⟩ x := by
  unfold Continues at h ⊢
  cases hrefused : first.2.refused with
  | some e =>
    rw [hrefused] at h
    rw [h]
  | none =>
    rw [hrefused] at h
    intro n hn
    rw [h n hn, append_assoc]

theorem readFrames_whole {n : ℕ} (hparse : parseFrameHeader ws.buf = .ok (some h))
    (hwhole : ¬ws.buf.length < h.headerLen + h.payloadLen) : readFrames (n + 1) ws =
      match WsStream.takeFrame { ws with buf := ws.buf.drop (h.headerLen + h.payloadLen) } h
          (unmask ((ws.buf.drop h.headerLen).take h.payloadLen) h.mask) with
      | .error e => (WsStream.reset
        { ws with buf := ws.buf.drop (h.headerLen + h.payloadLen) }, ⟨[], some e⟩)
      | .ok (ws, message) => ((readFrames n ws).1,
        ⟨message.toList ++ (readFrames n ws).2.messages, (readFrames n ws).2.refused⟩) := by
  rw [readFrames, hparse]
  exact if_neg hwhole

theorem readFrames_append {n : ℕ} (hn : ws.buf.length ≤ n) (x : Bytes)
    (hm : (ws.buf ++ x).length ≤ m) :
    Continues (readFrames n ws) (readFrames m { ws with buf := ws.buf ++ x }).2 x := by
  have hheld : Continues (ws, ⟨[], none⟩) (readFrames m { ws with buf := ws.buf ++ x }).2 x := by
    intro k hk
    rw [readFrames_of_le hm hk]
    rfl
  induction n generalizing m ws with
  | zero => exact hheld
  | succ n ih =>
    rw [readFrames]
    cases hparse : parseFrameHeader ws.buf with
    | error e =>
      have hmore := parseFrameHeader_append hparse (by simp) x
      cases m with
      | zero =>
        have hnil : ws.buf = [] := by
          rw [length_append] at hm
          exact eq_nil_of_length_eq_zero (by omega)
        rw [hnil] at hparse
        cases hparse
      | succ m =>
        rw [readFrames, hmore]
        rfl
    | ok header =>
      cases header with
      | none => exact hheld
      | some h =>
        obtain ⟨htwo, hle⟩ := parseFrameHeader_bounds hparse
        have hmore := parseFrameHeader_append hparse (by simp) x
        dsimp only
        by_cases hshort : ws.buf.length < h.headerLen + h.payloadLen
        · rw [if_pos hshort]
          exact hheld
        · rw [if_neg hshort]
          have hlonger : ¬ (ws.buf ++ x).length < h.headerLen + h.payloadLen := by
            rw [length_append]
            omega
          obtain ⟨m, rfl⟩ : ∃ k, m = k + 1 := by
            refine ⟨m - 1, ?_⟩
            rw [length_append] at hm
            omega
          have hdrop : (ws.buf ++ x).drop (h.headerLen + h.payloadLen) =
              ws.buf.drop (h.headerLen + h.payloadLen) ++ x :=
            drop_append_of_le_length (not_lt.mp hshort)
          have hpayload : ((ws.buf ++ x).drop h.headerLen).take h.payloadLen =
              (ws.buf.drop h.headerLen).take h.payloadLen := take_drop_append (not_lt.mp hshort) x
          rw [readFrames_whole hmore hlonger]
          dsimp only
          rw [hdrop, hpayload]
          cases htake : WsStream.takeFrame
              { ws with buf := ws.buf.drop (h.headerLen + h.payloadLen) } h
              (unmask ((ws.buf.drop h.headerLen).take h.payloadLen) h.mask) with
          | error e =>
            rw [takeFrame_withBuf htake]
            rfl
          | ok taken =>
            obtain ⟨ws', message⟩ := taken
            have hbuf : ws'.buf = ws.buf.drop (h.headerLen + h.payloadLen) :=
              (takeFrame_eq_ok htake).1
            rw [takeFrame_withBuf htake, ← hbuf]
            have hlength : ws'.buf.length ≤ n := by
              rw [hbuf, length_drop]
              omega
            have hlength' : (ws'.buf ++ x).length ≤ m := by
              rw [length_append] at hm ⊢
              rw [hbuf, length_drop]
              omega
            have hrest := ih hlength hlength' (fun k hk => by rw [readFrames_of_le hlength' hk]; rfl)
            exact hrest.cons message.toList

theorem readFrames_phase (ws : WsStream) : (readFrames n ws).1.phase = ws.phase := by
  induction n generalizing ws with
  | zero => rfl
  | succ n ih =>
    rw [readFrames]
    split
    case h_1 => rfl
    case h_2 => rfl
    case h_3 h _ =>
      dsimp only
      split_ifs
      · rfl
      · split
        case h_1 => rfl
        case h_2 ws' message htake =>
          exact (ih ws').trans (takeFrame_eq_ok htake).2

theorem readFrames_refused_ne (ws : WsStream) :
    (readFrames n ws).2.refused ≠ some .headTooLong := by
  induction n generalizing ws with
  | zero => exact fun h => by cases h
  | succ n ih =>
    rw [readFrames]
    split
    case h_1 e hparse =>
      rintro ⟨⟩
      unfold parseFrameHeader at hparse
      split at hparse
      · dsimp only at hparse
        split_ifs at hparse <;> cases hparse
      · cases hparse
    case h_2 => exact fun h => by cases h
    case h_3 h _ =>
      dsimp only
      split_ifs
      · exact fun h => by cases h
      · split
        case h_1 e htake =>
          rintro ⟨⟩
          unfold WsStream.takeFrame at htake
          split_ifs at htake <;> cases htake
        case h_2 ws' message htake => exact ih ws'

/-! ## Heads -/

theorem isPrefixOf_append (h : token.length ≤ buf.length) (x : Bytes) :
    token.isPrefixOf (buf ++ x) = token.isPrefixOf buf := by
  rw [Bool.eq_iff_iff, isPrefixOf_iff_prefix, isPrefixOf_iff_prefix]
  constructor
  · intro hisPrefix
    exact prefix_of_prefix_length_le hisPrefix (prefix_append buf x) h
  · intro hisPrefix
    exact hisPrefix.trans (prefix_append buf x)

theorem opens_append (h : opens buf token ≠ some none) (x : Bytes) :
    opens (buf ++ x) token = opens buf token := by
  unfold opens at h ⊢
  by_cases hlt : buf.length < token.length
  · rw [if_pos hlt] at h ⊢
    by_cases hisPrefix : buf.isPrefixOf token = true
    · rw [if_pos hisPrefix] at h
      exact absurd rfl h
    · rw [if_neg hisPrefix]
      have hnone : ∀ y, buf ++ x <+: y → ¬ y <+: token := by
        intro y hy htoken
        exact hisPrefix ( isPrefixOf_iff_prefix.mpr ((prefix_append buf x).trans (hy.trans htoken)))
      split_ifs with hlt' hisPrefix' hisPrefix'
      · exact absurd ( isPrefixOf_iff_prefix.mp hisPrefix') (hnone _ prefix_rfl)
      · rfl
      · have htoken := isPrefixOf_iff_prefix.mp hisPrefix'
        exact absurd ( isPrefixOf_iff_prefix.mpr (prefix_of_prefix_length_le
          (prefix_append buf x) htoken hlt.le)) hisPrefix
      · rfl
  · have hlt' : ¬ (buf ++ x).length < token.length := by
      rw [length_append]
      omega
    rw [if_neg hlt, if_neg hlt', isPrefixOf_append (not_lt.mp hlt)]

theorem httpHeadStarts_append {b : Bool} (h : httpHeadStarts buf = some b) (x : Bytes) :
    httpHeadStarts (buf ++ x) = some b := by
  have hget : opens buf getToken ≠ some none := by
    intro hget
    rw [httpHeadStarts, hget] at h
    cases h
  have hhttp : opens buf getToken = none → opens buf httpToken ≠ some none := by
    intro hnone hhttp
    rw [httpHeadStarts, hnone, hhttp] at h
    cases h
  rw [httpHeadStarts] at h ⊢
  rw [opens_append hget]
  cases hcase : opens buf getToken with
  | some decided =>
    rw [hcase] at h
    exact h
  | none =>
    rw [hcase] at h
    rw [orElse_none, opens_append (hhttp hcase)]
    exact h

theorem httpHeadStarts_isSome (h : 5 ≤ buf.length) : (httpHeadStarts buf).isSome := by
  have hdecided : ∀ token : Bytes, token.length ≤ 5 → opens buf token ≠ some none := by
    intro token htoken
    rw [opens, if_neg (by omega)]
    split_ifs
    · exact fun h => by cases h
    · exact fun h => by cases h
  have hget := hdecided getToken (by decide)
  have hhttp := hdecided httpToken (by decide)
  unfold httpHeadStarts
  cases hcase : opens buf getToken with
  | some decided =>
    rw [hcase] at hget
    cases decided with
    | none => exact absurd rfl hget
    | some b => rfl
  | none =>
    rw [orElse_none]
    cases hcase' : opens buf httpToken with
    | some decided =>
      rw [hcase'] at hhttp
      cases decided with
      | none => exact absurd rfl hhttp
      | some b => rfl
    | none => rfl

theorem findBlankLine_bound (h : findBlankLine buf = some i) : i + 4 ≤ buf.length := by
  induction buf generalizing i with
  | nil => cases h
  | cons b buf ih =>
    rw [findBlankLine] at h
    split_ifs at h with hblank
    · cases h
      exact ( isPrefixOf_iff_prefix.mp hblank).length_le
    · obtain ⟨j, hj, rfl⟩ := map_eq_some_iff.mp h
      rw [length_cons]
      have := ih hj
      omega

theorem findBlankLine_append (h : findBlankLine buf = some i) (x : Bytes) :
    findBlankLine (buf ++ x) = some i := by
  induction buf generalizing i with
  | nil => cases h
  | cons b buf ih =>
    have hbound := findBlankLine_bound h
    have hlength : blankLine.length ≤ (b :: buf).length := by
      have hfour : blankLine.length = 4 := rfl
      omega
    have hsame := isPrefixOf_append hlength x
    rw [cons_append] at hsame ⊢
    rw [findBlankLine, hsame]
    rw [findBlankLine] at h
    split_ifs at h ⊢ with hblank
    · exact h
    · obtain ⟨j, hj, rfl⟩ := map_eq_some_iff.mp h
      rw [ih hj]
      rfl

theorem lt_of_findBlankLine {x : Bytes} (h : findBlankLine buf = none)
    (hmore : findBlankLine (buf ++ x) = some i) : buf.length < i + 4 := by
  induction buf generalizing i with
  | nil => exact Nat.succ_pos _
  | cons b buf ih =>
    rw [findBlankLine] at h
    rw [cons_append, findBlankLine] at hmore
    split_ifs at h with hblank
    rw [map_eq_none_iff] at h
    split_ifs at hmore with hmoreBlank
    · cases hmore
      by_contra hlong
      have hlength : blankLine.length ≤ (b :: buf).length := by
        have hfour : blankLine.length = 4 := rfl
        omega
      have hsame := isPrefixOf_append hlength x
      rw [cons_append, hmoreBlank] at hsame
      exact hblank hsame.symm
    · obtain ⟨j, hj, rfl⟩ := map_eq_some_iff.mp hmore
      have hlt := ih h hj
      rw [length_cons]
      omega

/-! ## Chunks -/

/-- A blank line ends late when it ends behind more bytes than a head may have and one. -/
def endsLate (bytes : Bytes) : Bool :=
  (findBlankLine bytes).any (fun i => maxWsHandshakeSize + 1 < i + 4)

def lateHead (bytes : Bytes) : Bool := httpHeadStarts bytes = some true && endsLate bytes

/-- The head is not yet read, and ends late in the bytes to come. -/
def WsStream.late (ws : WsStream) (x : Bytes) : Bool :=
  match ws.phase with
  | .start => lateHead (ws.buf ++ x)
  | .head => endsLate (ws.buf ++ x)
  | .frames => false

/-- What a chunk yields, followed by what the bytes behind it do. -/
def Follows (first : WsStream × WsOutput) (whole : WsOutput) (x : Bytes) : Prop :=
  match first.2.refused with
  | some e => whole = ⟨first.2.messages, some e⟩
  | none => first.1.late x = false ∧
      whole = ⟨first.2.messages ++ (first.1.push x).2.messages, (first.1.push x).2.refused⟩

theorem drain_follows {ws : WsStream} (hphase : ws.phase = .frames) (x : Bytes) :
    Follows ws.drain (WsStream.drain { ws with buf := ws.buf ++ x }).2 x := by
  have happend : Continues ws.drain (WsStream.drain { ws with buf := ws.buf ++ x }).2 x :=
    readFrames_append le_rfl x le_rfl
  have hsame : ws.drain.1.phase = .frames := (readFrames_phase ws.buf.length ws).trans hphase
  have hpush : ws.drain.1.push x =
      readFrames (ws.drain.1.buf ++ x).length { ws.drain.1 with buf := ws.drain.1.buf ++ x } := by
    unfold WsStream.push
    dsimp only
    rw [hsame]
    rfl
  unfold Continues at happend
  unfold Follows
  cases hrefused : ws.drain.2.refused with
  | some e =>
    rw [hrefused] at happend
    exact happend
  | none =>
    rw [hrefused] at happend
    refine ⟨by rw [WsStream.late, hsame], ?_⟩
    rw [hpush]
    exact happend _ le_rfl

theorem readHead_follows {ws : WsStream} (hphase : ws.phase = .head) {x : Bytes}
    (hlate : endsLate (ws.buf ++ x) = false) :
    Follows ws.readHead (WsStream.readHead { ws with buf := ws.buf ++ x }).2 x := by
  unfold WsStream.readHead
  dsimp only
  cases hblank : findBlankLine ws.buf with
  | some i =>
    have hdrop : (ws.buf ++ x).drop (i + 4) = ws.buf.drop (i + 4) ++ x :=
      drop_append_of_le_length (findBlankLine_bound hblank)
    rw [findBlankLine_append hblank]
    dsimp only
    rw [hdrop]
    exact @drain_follows { ws with phase := .frames, buf := ws.buf.drop (i + 4) } rfl x
  | none =>
    dsimp only
    by_cases hlong : maxWsHandshakeSize < ws.buf.length
    · have hmore : findBlankLine (ws.buf ++ x) = none := by
        cases hfound : findBlankLine (ws.buf ++ x) with
        | none => rfl
        | some i =>
          have hlt := lt_of_findBlankLine hblank hfound
          rw [endsLate, hfound, any_some, decide_eq_false_iff_not] at hlate
          omega
      have hlonger : maxWsHandshakeSize < (ws.buf ++ x).length := by
        rw [length_append]
        omega
      rw [if_pos hlong, hmore, if_pos hlonger]
      rfl
    · rw [if_neg hlong]
      refine ⟨by rw [WsStream.late, hphase]; exact hlate, ?_⟩
      unfold WsStream.push
      dsimp only
      rw [hphase]
      rfl

theorem push_follows {x : Bytes} (hlate : ws.late (c ++ x) = false) :
    Follows (ws.push c) (ws.push (c ++ x)).2 x := by
  unfold WsStream.late at hlate
  unfold WsStream.push
  dsimp only
  rw [← append_assoc] at hlate ⊢
  cases hphase : ws.phase with
  | start =>
    rw [hphase] at hlate
    dsimp only at hlate ⊢
    cases hstarts : httpHeadStarts (ws.buf ++ c) with
    | none => exact ⟨hlate, rfl⟩
    | some b =>
      rw [httpHeadStarts_append hstarts]
      cases b with
      | true =>
        rw [lateHead, httpHeadStarts_append hstarts] at hlate
        exact @readHead_follows { ws with phase := .head, buf := ws.buf ++ c } rfl x
          (by simpa using hlate)
      | false => exact @drain_follows { ws with phase := .frames, buf := ws.buf ++ c } rfl x
  | head =>
    rw [hphase] at hlate
    exact @readHead_follows { ws with phase := .head, buf := ws.buf ++ c } rfl x hlate
  | frames => exact @drain_follows { ws with phase := .frames, buf := ws.buf ++ c } rfl x

theorem feed_singleton (ws : WsStream) (c : Bytes) : ws.feed [c] = (ws.push c).2 := by
  rw [WsStream.feed]
  dsimp only
  split
  · rfl
  case h_2 hnone => rw [WsStream.feed, append_nil, ← hnone]

theorem feed_cons (hlate : ws.late (c ++ chunks.flatten) = false) :
    ws.feed (c :: chunks) = (ws.push (c ++ chunks.flatten)).2 := by
  induction chunks generalizing ws c with
  | nil =>
    rw [flatten_nil, append_nil]
    exact feed_singleton ws c
  | cons c' chunks ih =>
    have hfollows := push_follows hlate
    unfold Follows at hfollows
    rw [WsStream.feed]
    dsimp only
    cases hrefused : (ws.push c).2.refused with
    | some e =>
      rw [hrefused] at hfollows
      dsimp only at hfollows ⊢
      rw [hfollows, ← hrefused]
    | none =>
      rw [hrefused] at hfollows
      obtain ⟨hlate', hwhole⟩ := hfollows
      rw [flatten_cons] at hlate' hwhole ⊢
      rw [hwhole, ih hlate']

theorem feed_new_eq (hlate : lateHead chunks.flatten = false) :
    WsStream.new.feed chunks = (WsStream.new.push chunks.flatten).2 := by
  cases chunks with
  | nil => rfl
  | cons c chunks => exact feed_cons hlate

theorem push_new_head (hstarts : httpHeadStarts c = some true) :
    WsStream.new.push c = WsStream.readHead ⟨.head, c, [], false⟩ := by
  rw [WsStream.push, WsStream.new]
  rw [nil_append, hstarts]

theorem feed_lateHead {s : Bytes} (hlate : lateHead s = true) :
    (WsStream.new.feed [s.take (maxWsHandshakeSize + 1), s.drop (maxWsHandshakeSize + 1)]).refused =
        some .headTooLong ∧
      (WsStream.new.feed [s]).refused ≠ some .headTooLong := by
  rw [lateHead, Bool.and_eq_true, decide_eq_true_eq, endsLate] at hlate
  obtain ⟨hstarts, hlate⟩ := hlate
  cases hblank : findBlankLine s with
  | none =>
    rw [hblank] at hlate
    cases hlate
  | some i =>
    rw [hblank, any_some, decide_eq_true_eq] at hlate
    have hlength := findBlankLine_bound hblank
    have htake : (s.take (maxWsHandshakeSize + 1)).length = maxWsHandshakeSize + 1 := by
      rw [length_take]
      omega
    have hall := take_append_drop (maxWsHandshakeSize + 1) s
    have hfirst : httpHeadStarts (s.take (maxWsHandshakeSize + 1)) = some true := by
      have hsome : (httpHeadStarts (s.take (maxWsHandshakeSize + 1))).isSome :=
        httpHeadStarts_isSome (by rw [htake]; decide)
      obtain ⟨b, hb⟩ := isSome_iff_exists.mp hsome
      have hmore := httpHeadStarts_append hb (s.drop (maxWsHandshakeSize + 1))
      rw [hall, hstarts] at hmore
      rw [hb, hmore]
    have hnone : findBlankLine (s.take (maxWsHandshakeSize + 1)) = none := by
      cases hfound : findBlankLine (s.take (maxWsHandshakeSize + 1)) with
      | none => rfl
      | some j =>
        have hmore := findBlankLine_append hfound (s.drop (maxWsHandshakeSize + 1))
        have hbound := findBlankLine_bound hfound
        rw [hall, hblank] at hmore
        cases hmore
        omega
    constructor
    · rw [WsStream.feed, push_new_head hfirst, WsStream.readHead, hnone]
      rw [if_pos (by rw [htake]; exact Nat.lt_succ_self _)]
    · rw [feed_singleton, push_new_head hstarts, WsStream.readHead, hblank]
      exact readFrames_refused_ne _ _

theorem chunks_agree_iff (s : Bytes) :
    (∀ chunks chunks' : List Bytes, chunks.flatten = s → chunks'.flatten = s →
      WsStream.new.feed chunks = WsStream.new.feed chunks') ↔ lateHead s = false := by
  constructor
  · intro hagree
    by_contra hlate
    obtain ⟨hrefused, hread⟩ := feed_lateHead ((Bool.not_eq_false _).mp hlate)
    apply hread
    rw [hagree [s] [s.take (maxWsHandshakeSize + 1), s.drop (maxWsHandshakeSize + 1)] (by simp)
      (by simp)]
    exact hrefused
  · intro hlate chunks chunks' hchunks hchunks'
    rw [feed_new_eq (hchunks ▸ hlate), feed_new_eq (hchunks' ▸ hlate), hchunks, hchunks']

end Sipnab.WebSocket
