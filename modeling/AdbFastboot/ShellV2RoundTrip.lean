import AdbFastboot.ShellV2

namespace AdbFastboot

open ShellV2Packet List

structure ShellFrame where
  id : UInt8
  payload : Bytes
  fits : payload.length < 2 ^ 32

namespace ShellFrame

def encode (frame : ShellFrame) : Bytes :=
  frame.id :: (u32Le (UInt32.ofNat frame.payload.length) ++ frame.payload)

variable (frame : ShellFrame)

theorem encode_length : frame.encode.length = 5 + frame.payload.length := by
  rw [encode, length_cons, length_append, u32Le_length]
  omega

theorem u32At_encode {frame : ShellFrame} {buf more rest : Bytes}
    (h : buf ++ more = frame.encode ++ rest) (hb : 5 ≤ buf.length) :
    (u32At buf 1).toNat = frame.payload.length := by
  have hs : slice buf 1 5 = u32Le (UInt32.ofNat frame.payload.length) := by
    have hd : (frame.encode ++ rest).drop 1
        = u32Le (UInt32.ofNat frame.payload.length) ++ (frame.payload ++ rest) := by simp [encode]
    have hf : slice (buf ++ more) 1 5 = slice buf 1 5 := slice_append_left hb
    rw [← hf, h]
    exact slice_of_drop hd (by rw [u32Le_length])
  rw [u32At, hs, u32OfLe_u32Le, UInt32.toNat_ofNat', Nat.mod_eq_of_lt frame.fits]

theorem parse_encode (rest : Bytes) :
    ShellV2Packet.parse (frame.encode ++ rest) = match ofPayload frame.id frame.payload with
        | none => .error (.unknownStreamId frame.id)
        | some pkt => .ok (pkt, frame.encode.length) := by
  have hl : (frame.encode ++ rest).length = 5 + frame.payload.length + rest.length := by
    rw [length_append, encode_length]
  have hc := u32At_encode (append_nil (frame.encode ++ rest)) (by omega)
  have hpl : slice (frame.encode ++ rest) 5 (5 + frame.payload.length) = frame.payload := by
    have hd : (frame.encode ++ rest).drop 5 = frame.payload ++ rest := by
      rw [encode, cons_append, append_assoc, ← cons_append]
      exact drop_left' (by rw [length_cons, u32Le_length])
    exact slice_of_drop hd rfl
  have hi : (frame.encode ++ rest).headD 0 = frame.id := rfl
  unfold ShellV2Packet.parse
  rw [if_neg (by omega)]
  cases hp : ofPayload frame.id frame.payload with
  | none =>
    simp only [hc, hpl, hi, hp]
    exact if_neg (by omega)
  | some pkt =>
    simp only [hc, hpl, hi, hp, encode_length]
    exact if_neg (by omega)

end ShellFrame

def Waits (bytes : Bytes) : Prop :=
  ∃ e, ShellV2Packet.parse bytes = .error e ∧ e.Incomplete

/-- A frame that is cut is waited for. -/
theorem waits_of_short {frame : ShellFrame} {front more rest : Bytes}
    (h : front ++ more = frame.encode ++ rest) (hs : front.length < frame.encode.length) :
    Waits front := by
  rw [frame.encode_length] at hs
  unfold Waits ShellV2Packet.parse
  by_cases hh : front.length < 5
  · exact ⟨_, if_pos hh, trivial⟩
  have hc := ShellFrame.u32At_encode h (by omega)
  rw [if_neg hh]
  simp only [hc]
  exact ⟨_, if_pos hs, trivial⟩

namespace ShellV2Packet

variable {c : Char} {rows cols : UInt16}

theorem digit_toNat {n : Nat} (h : c ∈ Nat.toDigits 10 n) : 48 ≤ c.toNat ∧ c.toNat ≤ 57 := by
  have hd := Nat.isDigit_of_mem_toDigits (by omega) (by omega) h
  rw [Char.isDigit, Bool.and_eq_true, decide_eq_true_iff, decide_eq_true_iff] at hd
  exact ⟨UInt32.le_iff_toNat_le.mp hd.1, UInt32.le_iff_toNat_le.mp hd.2⟩

theorem digit_ne {n : Nat} {sep : Char} (h : c ∈ Nat.toDigits 10 n)
    (hs : sep.toNat < 48 ∨ 57 < sep.toNat) : (c == sep) = false := by
  have hr := digit_toNat h
  rw [beq_eq_false_iff_ne]
  rintro rfl
  omega

def windowBody (rows cols : UInt16) : List Char :=
  Nat.toDigits 10 rows.toNat ++ 'x' :: Nat.toDigits 10 cols.toNat

section

variable (h : c ∈ windowBody rows cols)
include h

theorem windowBody_range : 48 ≤ c.toNat ∧ c.toNat ≤ 57 ∨ c.toNat = 120 := by
  rcases mem_append.mp h with h | h
  · exact .inl (digit_toNat h)
  · rcases mem_cons.mp h with rfl | h
    · exact .inr rfl
    · exact .inl (digit_toNat h)

theorem windowBody_ne {sep : Char} (hs : sep.toNat < 48) : (c == sep) = false := by
  have hr := windowBody_range h
  rw [beq_eq_false_iff_ne]
  rintro rfl
  omega

theorem windowBody_not_whitespace : isWhitespace c = false := by
  have hr := windowBody_range h
  simp only [isWhitespace, Bool.or_eq_false_iff, Bool.and_eq_false_iff, decide_eq_false_iff_not,
    beq_eq_false_iff_ne]
  omega

end

theorem parseU16OrZero_toDigits (x : UInt16) : parseU16OrZero (Nat.toDigits 10 x.toNat) = x := by
  rw [parseU16OrZero, fromStrRadix_toDigits (by omega) (by omega) x.toNat_lt, Option.getD_some,
    UInt16.ofNat_toNat]

/-- The window size is read back from its text. -/
theorem windowSizeOfText_windowSizeText (rows cols : UInt16) :
    windowSizeOfText (windowSizeText rows cols) = (rows, cols) := by
  have hne : windowBody rows cols ≠ [] := by simp [windowBody]
  have ht : strTrim (trimMatches (fun c => c == '\x00') (windowSizeText rows cols))
      = windowBody rows cols := by
    have hz : trimMatches (fun c => c == '\x00') (windowBody rows cols ++ ['\x00'])
        = windowBody rows cols :=
      trimMatches_concat hne rfl fun c hc => windowBody_ne hc (by decide)
    have htx : windowSizeText rows cols = windowBody rows cols ++ ['\x00'] := by
      simp [windowSizeText, windowBody]
    rw [htx, hz, strTrim, trimMatches_eq_self fun c hc => windowBody_not_whitespace hc]
  have hcm : (windowBody rows cols).splitOn ',' = [windowBody rows cols] := by
    rw [splitOn_eq_splitOnP, splitOnP_eq_singleton fun c hc => windowBody_ne hc (by decide)]
  have hcl : (Nat.toDigits 10 cols.toNat).splitOnP (fun c => c == 'x') = [Nat.toDigits 10 cols.toNat] :=
    splitOnP_eq_singleton fun c hc => digit_ne hc (by decide)
  have hp : (windowBody rows cols).splitOn 'x'
      = [Nat.toDigits 10 rows.toNat, Nat.toDigits 10 cols.toNat] := by
    rw [splitOn_eq_splitOnP, windowBody,
      splitOnP_append_cons_of_forall_mem (fun c hc => digit_ne hc (by decide)) _ rfl, hcl]
  unfold windowSizeOfText
  simp [ht, hcm, hp, parseU16OrZero_toDigits]

theorem parseWindowSize_text (rows cols : UInt16) :
    parseWindowSize (utf8Bytes (String.ofList (windowSizeText rows cols))) = (rows, cols) := by
  unfold parseWindowSize
  rw [fromUtf8_utf8Bytes]
  simp [windowSizeOfText_windowSizeText]

variable (pkt : ShellV2Packet)

/-- A packet is made again of its id and payload. -/
theorem ofPayload_self : ofPayload pkt.streamId pkt.payload = some pkt := by
  cases pkt with
  | stdin data | stdout data | stderr data | exitCode code | closeStdin => rfl
  | windowSizeChange rows cols =>
    change some (windowSizeChange _ _) = _
    rw [payload, parseWindowSize_text]

section

variable {pkt : ShellV2Packet} (hlen : pkt.payload.length < 2 ^ 32)

include hlen

/-- A packet is parsed from its bytes. -/
theorem parse_encode (rest : Bytes) : parse (pkt.encode ++ rest) = .ok (pkt, pkt.encode.length) := by
  have h := ShellFrame.parse_encode ⟨pkt.streamId, pkt.payload, hlen⟩ rest
  rwa [ofPayload_self] at h

end

theorem encodeAll_cons (pkts : List ShellV2Packet) :
    encodeAll (pkt :: pkts) = pkt.encode ++ encodeAll pkts := flatMap_cons

theorem parseAll_error {buf : Bytes} {e : ShellV2Error} (h : parse buf = .error e) :
    parseAll buf = ([], e, buf) := by
  rw [parseAll]
  split
  next e' he =>
    rw [h] at he
    cases he
    rfl
  next ho => simp [h] at ho

theorem parseAll_cons {pkt : ShellV2Packet} (hlen : pkt.payload.length < 2 ^ 32) (rest : Bytes) :
    parseAll (pkt.encode ++ rest) = (pkt :: (parseAll rest).1, (parseAll rest).2) := by
  have hp := parse_encode hlen rest
  rw [parseAll]
  split
  next he => simp [hp] at he
  next pkt' n ho =>
    rw [hp] at ho
    cases ho
    rw [drop_left]

variable {pkts : List ShellV2Packet} (hlen : ∀ pkt ∈ pkts, pkt.payload.length < 2 ^ 32)
include hlen

/-- A cut stream gives the packets that are whole, and waits. -/
theorem parseAll_front {front more : Bytes} (h : front ++ more = encodeAll pkts) (hm : more ≠ []) :
    ∃ done pkt left rest e, pkts = done ++ pkt :: left ∧ front = encodeAll done ++ rest ∧
      rest.length < pkt.encode.length ∧ parseAll front = (done, e, rest) ∧ e.Incomplete := by
  induction pkts generalizing front with
  | nil => exact absurd (append_eq_nil_iff.mp h).2 hm
  | cons pkt pkts ih =>
    rw [forall_mem_cons] at hlen
    rw [encodeAll_cons] at h
    by_cases hs : front.length < pkt.encode.length
    · obtain ⟨e, he, hi⟩ := @waits_of_short ⟨pkt.streamId, pkt.payload, hlen.1⟩ _ _ _ h hs
      exact ⟨[], pkt, pkts, front, e, rfl, rfl, hs, parseAll_error he, hi⟩
    · obtain ⟨front', rfl, ht⟩ := append_cut h.symm (by omega)
      obtain ⟨done, pkt', left, rest, e, hsp, hf, hr, hp, hi⟩ :=
        ih hlen.2 ht.symm
      refine ⟨pkt :: done, pkt', left, rest, e, by rw [hsp, cons_append], ?_, hr, ?_, hi⟩
      · rw [hf, encodeAll_cons, append_assoc]
      · rw [parseAll_cons hlen.1, hp]

theorem parseAll_encodeAll : parseAll (encodeAll pkts) = (pkts, .headerTooShort, []) := by
  induction pkts with
  | nil => exact parseAll_error rfl
  | cons pkt pkts ih =>
    rw [forall_mem_cons] at hlen
    rw [encodeAll_cons, parseAll_cons hlen.1, ih hlen.2]

end ShellV2Packet

/-- A stream of shell packets is parsed to its packets and to its last byte. Of a stream that was
cut off, the parser returns the packets that are complete and asks for more. -/
theorem shellV2_stream (pkts : List ShellV2Packet)
    (hlen : ∀ pkt ∈ pkts, pkt.payload.length < 2 ^ 32) :
    ShellV2Packet.parseAll (ShellV2Packet.encodeAll pkts) = (pkts, .headerTooShort, []) ∧
    ∀ front more : List UInt8, front ++ more = ShellV2Packet.encodeAll pkts → more ≠ [] →
      ∃ done pkt left rest e, pkts = done ++ pkt :: left ∧
        front = ShellV2Packet.encodeAll done ++ rest ∧ rest.length < pkt.encode.length ∧
        ShellV2Packet.parseAll front = (done, e, rest) ∧ e.Incomplete :=
  ⟨parseAll_encodeAll hlen, fun _ _ h hm => parseAll_front hlen h hm⟩

theorem shellV2_stream_resize_exit :
    ShellV2Packet.parseAll (ShellV2Packet.encodeAll [.windowSizeChange 24 80, .exitCode 1])
      = ([.windowSizeChange 24 80, .exitCode 1], .headerTooShort, []) := by
  refine (shellV2_stream _ ?_).1
  intro pkt hp
  simp only [mem_cons, not_mem_nil, or_false] at hp
  rcases hp with rfl | rfl <;> decide

end AdbFastboot
