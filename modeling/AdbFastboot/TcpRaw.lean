import AdbFastboot.TcpTransport

namespace AdbFastboot

open FastbootResponse List

section

variable {logs : List String}

variable {accum : Bytes}

theorem tcpScan_response {resp : FastbootResponse} {n : Nat} (ht : isFbPrefix accum = true)
    (hps : parseOneResponse accum = .ok (resp, n)) (hf : resp.log? = none)
    (logs : List String) : tcpScan accum logs = .done resp logs (accum.drop n) := by
  have hne : accum ≠ [] := by
    rintro rfl
    exact absurd (isFbPrefix_length ht) (by decide)
  rw [tcpScan, dif_neg hne, resync_at_tag ht, if_pos rfl]
  split
  next resp' n' hp =>
    obtain ⟨rfl, rfl⟩ := Prod.mk.inj (Except.ok.inj (hps.symm.trans hp))
    rw [hf]
  next hp => exact absurd (hps.symm.trans hp) (by simp)
  next hp => exact absurd (hps.symm.trans hp) (by simp)

theorem tcpScan_tooShort (ht : isFbPrefix accum = true)
    (hps : parseOneResponse accum = .error .tooShort) (logs : List String) :
    tcpScan accum logs = .more accum logs := by
  have hne : accum ≠ [] := by
    rintro rfl
    exact absurd (isFbPrefix_length ht) (by decide)
  rw [tcpScan, dif_neg hne, resync_at_tag ht, if_pos rfl]
  split
  next hp => exact absurd (hps.symm.trans hp) (by simp)
  next => rfl
  next hn hp => exact absurd (Except.error.inj (hps.symm.trans hp)).symm hn

theorem resync_partial (h : isPartialPrefix accum = true) : resync accum = (false, accum) := by
  obtain ⟨hne, hl⟩ := isPartialPrefix_length h
  have hs (i : Nat) : isFbPrefix (accum.drop i) = false := by
    rw [isFbPrefix, if_pos]
    rw [length_drop]
    omega
  obtain ⟨k, hk⟩ := Nat.exists_eq_add_of_lt (length_pos_iff.mpr hne)
  have hz : (range accum.length).find?
      (fun j => accum.length - j < 4 && isPartialPrefix (accum.drop j)) = some 0 := by
    rw [hk, range_succ_eq_map, find?_cons_of_pos]
    simp only [Nat.sub_zero, drop_zero, h, Bool.and_true, decide_eq_true_eq]
    omega
  have hn := hs 0
  rw [drop_zero] at hn
  rw [resync, if_neg (by simp [hn]), find?_eq_none.mpr fun i _ => by simp [hs i]]
  rw [hz]
  rfl

theorem tcpScan_partial (h : isPartialPrefix accum = true) (logs : List String) :
    tcpScan accum logs = .more accum logs := by
  rw [tcpScan, dif_neg (isPartialPrefix_length h).1, resync_partial h, if_neg (by simp)]

theorem tcpScan_tag {tag : Bytes} (ht : tag ∈ fbPrefixes) {k : Nat} (hk : k < 4)
    (logs : List String) : tcpScan (tag.take k) logs = .more (tag.take k) logs := by
  have hp : ∀ tag ∈ fbPrefixes, ∀ k < 4, tag.take k = [] ∨ isPartialPrefix (tag.take k) = true := by
    decide
  rcases hp tag ht k hk with hn | hp
  · rw [hn]
    rw [tcpScan, dif_pos rfl]
  · exact tcpScan_partial hp logs

theorem isFbPrefix_data (bytes : Bytes) : isFbPrefix (dataTag ++ bytes) = true := by
  rfl

/-- A DATA response takes twelve bytes. -/
theorem parseOneResponse_data (bytes : Bytes) :
    parseOneResponse (dataTag ++ bytes) = if bytes.length < 8 then .error .tooShort
      else (parseData (bytes.take 8)).map fun resp => (resp, 12) := by
  have hl : (dataTag ++ bytes).length = 4 + bytes.length := length_append
  have ht : (dataTag ++ bytes).take 4 = dataTag := rfl
  have hp : FastbootResponse.parse ((dataTag ++ bytes).take 12) = parseData (bytes.take 8) := by
    simp [FastbootResponse.parse, dataTag, okayTag, failTag, infoTag, textTag]
  rw [parseOneResponse, if_neg (by omega)]
  rw [if_pos ht, hp]
  split
  next hs => rw [if_pos (by omega)]
  next hs => rw [if_neg (by omega)]

/-- How the scanner sees a message that `rest` follows: it waits for the whole of it, and stops
behind it however much of `rest` has arrived. -/
structure ScansAs (msg rest : Bytes) (resp : FastbootResponse) : Prop where
  waits : ∀ k, k < msg.length → ∀ logs, tcpScan (msg.take k) logs = .more (msg.take k) logs
  stops : ∀ back, back <+: rest → ∀ logs, tcpScan (msg ++ back) logs = .done resp logs back

theorem scansAs_data {digits : Bytes} {size : UInt32} (hl : digits.length = 8)
    (hp : parseData digits = .ok (.data size)) (rest : Bytes) :
    ScansAs (dataTag ++ digits) rest (.data size) where
  waits k hk logs := by
    rcases Nat.lt_or_ge k 4 with hlt | hge
    · have ht : (dataTag ++ digits).take k = dataTag.take k :=
        take_append_of_le_length (Nat.le_of_lt hlt)
      rw [ht]
      exact tcpScan_tag (by decide) hlt logs
    · have ht : (dataTag ++ digits).take k = dataTag ++ digits.take (k - 4) := by
        rw [take_append, take_of_length_le hge]
        rfl
      rw [length_append] at hk
      rw [ht]
      refine tcpScan_tooShort (isFbPrefix_data _) ?_ logs
      rw [parseOneResponse_data, if_pos]
      rw [length_take]
      exact Nat.lt_of_le_of_lt (Nat.min_le_left _ _) (by change k < 4 + _ at hk; omega)
  stops back _ logs := by
    have ho : parseOneResponse (dataTag ++ (digits ++ back)) = .ok (.data size, 12) := by
      rw [parseOneResponse_data, if_neg (by rw [length_append]; omega), take_left' hl, hp]
      rfl
    have hd : (dataTag ++ (digits ++ back)).drop 12 = back := by
      rw [← append_assoc]
      exact drop_left' (by rw [length_append, hl]; rfl)
    rw [append_assoc, tcpScan_response (isFbPrefix_data _) ho rfl, hd]

theorem scansAs_okay : ScansAs okayTag [] (.okay "") where
  waits k hk logs := tcpScan_tag (by decide) hk logs
  stops back hb logs := by
    rw [prefix_nil.mp hb]
    exact tcpScan_response (by decide) (parseOneResponse_text .okay []) rfl logs

end

namespace TcpTransport

def items (t : TcpTransport) : List TcpItem := t.leftover.map .byte ++ tcpItems t.stream

variable {t : TcpTransport}

theorem leftover_of_drained (h : ¬ t.readPos < t.readBuf.length) : t.leftover = [] :=
  drop_eq_nil_of_le (Nat.le_of_not_lt h)

theorem readBuffered_length_le (t : TcpTransport) (n : Nat) : (t.readBuffered n).1.length ≤ n := by
  unfold readBuffered
  dsimp only
  split
  all_goals
    simp only [slice, length_take]
    omega

/-- A read takes some of the bytes, first those left over. -/
theorem rawRead_bytes {n : Nat} (hn : 0 < n) (ho : OnlyBytes t.stream) (hne : t.items ≠ []) :
    ∃ bytes t', t.rawRead n = (.ok bytes, t') ∧ bytes ≠ [] ∧ bytes.length ≤ n ∧
      t.items = bytes.map .byte ++ t'.items ∧ OnlyBytes t'.stream ∧ t'.mode = t.mode ∧
      (t.leftover = [] → t'.leftover = []) := by
  unfold rawRead
  split
  next hb =>
    obtain ⟨hs, hm⟩ := t.readBuffered_stream n
    have ha := t.readBuffered_append n
    refine ⟨_, _, rfl, readBuffered_ne_nil hn hb, t.readBuffered_length_le n, ?_,
      hs ▸ ho, hm, fun hnil => ?_⟩
    · rw [items, items, hs, ← ha, map_append, append_assoc]
    · rw [hnil] at ha
      exact (append_eq_nil_iff.mp ha).2
  next hb =>
    rw [items, leftover_of_drained hb, map_nil, nil_append] at hne
    obtain ⟨bytes, events, hr, hbs, hl, hi, ho'⟩ := tcpRead_bytes hn ho hne
    rw [hr]
    refine ⟨bytes, _, rfl, hbs, hl, ?_, ho', rfl, fun hnil => hnil⟩
    rw [items, leftover_of_drained hb, hi]
    change _ = _ ++ (t.leftover.map TcpItem.byte ++ _)
    rw [leftover_of_drained hb]
    rfl

variable {accum rest : Bytes} {resp : FastbootResponse} {t' : TcpTransport}

theorem rawRecvLoop_more {bytes : Bytes} {logs : List String}
    (h : tcpScan accum logs = .more accum logs) (hr : t.rawRead 4096 = (.ok bytes, t'))
    (hne : bytes ≠ []) : rawRecvLoop t accum logs = rawRecvLoop t' (accum ++ bytes) logs := by
  rw [rawRecvLoop, h]
  dsimp only
  split
  next heq =>
    rw [hr] at heq
    cases heq
  next heq =>
    rw [hr] at heq
    cases heq
    rw [dif_neg hne, hr]

section

variable {msg : Bytes} (hscan : ScansAs msg rest resp)
include hscan

/-- The receiver reads until the message is complete, and keeps what came behind it. -/
theorem rawRecvLoop_scans (hl : t.leftover = []) (ho : OnlyBytes t.stream)
    (hi : accum.map .byte ++ t.items = msg.map .byte ++ rest.map .byte) (logs : List String) :
    ∃ t', rawRecvLoop t accum logs = (.ok resp, logs, t') ∧ t'.items = rest.map .byte ∧
      OnlyBytes t'.stream ∧ t'.mode = t.mode := by
  induction hn : t.items.length using Nat.strongRecOn generalizing t accum with
  | ind n ih =>
    rcases tcpItems_front hi with ⟨back, rfl, hr⟩ | ⟨tail, hne, hmsg, hr⟩
    · obtain ⟨front, later, rfl, hf, hla⟩ := map_eq_append_iff.mp hr
      cases TcpItem.byte_injective.list_map hf
      have hs : tcpItems t.stream = later.map .byte := by
        rw [hla, items, hl]
        rfl
      rw [rawRecvLoop, hscan.stops back ⟨later, rfl⟩ logs]
      refine ⟨_, rfl, ?_⟩
      split
      next =>
        refine ⟨?_, ho, rfl⟩
        rw [map_append, ← hs]
        rfl
      next hnil =>
        rw [not_not.mp hnil]
        exact ⟨hla.symm, ho, rfl⟩
    · have hst : msg.take accum.length = accum := by
        rw [hmsg]
        exact take_left
      have hw := hscan.waits accum.length (by
        rw [hmsg, length_append]
        have hp := length_pos_iff.mpr hne
        omega) logs
      rw [hst] at hw
      have hso : t.items ≠ [] := by
        rw [hr]
        intro hnil
        exact hne (map_eq_nil_iff.mp (append_eq_nil_iff.mp hnil).1)
      obtain ⟨bytes, t', hrd, hb, -, hi', ho', hm', hl'⟩ :=
        rawRead_bytes (Nat.succ_pos 4095) ho hso
      rw [rawRecvLoop_more hw hrd hb]
      have hlen : t'.items.length < n := by
        have hp := length_pos_iff.mpr hb
        rw [← hn, hi', length_append, length_map]
        omega
      obtain ⟨t'', hrc, hi'', ho'', hm''⟩ := ih _ hlen (hl' hl) ho'
        (by rw [map_append, append_assoc, ← hi', hi]) rfl
      exact ⟨t'', hrc, hi'', ho'', hm''.trans hm'⟩

/-- A response is received, and what is behind it stays unread. -/
theorem recvResponse_scans (hm : t.mode = .raw) (ho : OnlyBytes t.stream)
    (hi : t.items = (msg ++ rest).map .byte) :
    ∃ t', t.recvResponse = (.ok resp, t') ∧ t'.items = rest.map .byte ∧ OnlyBytes t'.stream ∧
      t'.mode = .raw := by
  rw [map_append] at hi
  obtain ⟨stream, mode, readBuf, readPos⟩ := t
  cases hm
  rw [recvResponse, recvResponseWithInfo]
  dsimp only
  split
  next hb =>
    obtain ⟨t', hr, h⟩ := rawRecvLoop_scans hscan (t := ⟨stream, .raw, [], 0⟩) rfl ho hi []
    exact ⟨t', by rw [hr], h⟩
  next hb =>
    have hs : ([] : Bytes).map .byte ++ items ⟨stream, .raw, readBuf, readPos⟩ = _ := hi
    obtain ⟨t', hr, h⟩ := rawRecvLoop_scans hscan (leftover_of_drained hb) ho hs []
    exact ⟨t', by rw [hr], h⟩

end

theorem rawRead_interrupted {n : Nat} (h : t.rawRead n = (.error .interrupted, t')) :
    t'.stream.length < t.stream.length := by
  unfold rawRead at h
  split at h
  next => cases (Prod.mk.inj h).1
  obtain ⟨he, rfl⟩ := Prod.mk.inj h
  exact tcpRead_error he

def rawReadExact (t : TcpTransport) (n : Nat) : Except TcpError Bytes × TcpTransport :=
  if _hn : n = 0 then (.ok [], t)
  else
    match _hread : t.rawRead n with
    | (.ok [], t') => (.error .unexpectedEof, t')
    | (.ok (b :: bytes), t') =>
      let more := rawReadExact t' (n - (b :: bytes).length)
      (more.1.map ((b :: bytes) ++ ·), more.2)
    | (.error .interrupted, t') => rawReadExact t' n
    | (.error e, t') => (.error e, t')
termination_by (n, t.stream.length)
decreasing_by
  · exact Prod.Lex.left _ _ (by rw [List.length_cons]; omega)
  · exact Prod.Lex.right _ (rawRead_interrupted _hread)

theorem rawReadExact_more {n : Nat} {bytes : Bytes} (hn : n ≠ 0)
    (hr : t.rawRead n = (.ok bytes, t')) (hne : bytes ≠ []) :
    t.rawReadExact n = ((t'.rawReadExact (n - bytes.length)).1.map (bytes ++ ·),
      (t'.rawReadExact (n - bytes.length)).2) := by
  rw [rawReadExact, dif_neg hn]
  split
  next heq =>
    cases Except.ok.inj (Prod.mk.inj (hr.symm.trans heq)).1
    exact absurd rfl hne
  next heq =>
    obtain ⟨hb, rfl⟩ := Prod.mk.inj (hr.symm.trans heq)
    cases hb
    rfl
  next heq => cases (Prod.mk.inj (hr.symm.trans heq)).1
  next heq => cases (Prod.mk.inj (hr.symm.trans heq)).1

/-- Exactly the payload is read, in as many reads as it takes. -/
theorem rawReadExact_bytes {payload : Bytes} (ho : OnlyBytes t.stream)
    (hi : t.items = (payload ++ rest).map .byte) :
    ∃ t', t.rawReadExact payload.length = (.ok payload, t') ∧ t'.items = rest.map .byte ∧
      OnlyBytes t'.stream ∧ t'.mode = t.mode := by
  induction hn : payload.length using Nat.strongRecOn generalizing t payload with
  | ind n ih =>
    subst hn
    cases payload with
    | nil =>
      rw [rawReadExact, dif_pos length_nil]
      exact ⟨t, rfl, hi, ho, rfl⟩
    | cons b payload =>
      have hs : t.items ≠ [] := by
        rw [hi]
        exact cons_ne_nil _ _
      obtain ⟨bytes, t', hrd, hbs, hl, hi', ho', hm', -⟩ :=
        rawRead_bytes (length_pos_of_ne_nil (cons_ne_nil b payload)) ho hs
      obtain ⟨tail, hp, ht⟩ :
          ∃ tail, b :: payload = bytes ++ tail ∧ t'.items = (tail ++ rest).map .byte := by
        rw [hi', map_append] at hi
        rcases tcpItems_front hi with ⟨back, hb, hr⟩ | ⟨tail, -, hp, ht⟩
        · rw [hb, length_append] at hl
          have hnil : back = [] := length_eq_zero_iff.mp (by rw [length_cons] at hl; omega)
          rw [hnil] at hb hr
          exact ⟨[], by rw [hb, append_nil, append_nil], hr.symm⟩
        · exact ⟨tail, hp, by rw [ht, map_append]⟩
      have hln : (b :: payload).length = bytes.length + tail.length := by
        rw [hp, length_append]
      have hpos := length_pos_iff.mpr hbs
      obtain ⟨t'', hmr, h, ho'', hm''⟩ := ih tail.length (by omega) ho' ht rfl
      refine ⟨t'', ?_, h, ho'', hm''.trans hm'⟩
      rw [rawReadExact_more (by simp) hrd hbs, hln, Nat.add_sub_cancel_left, hmr, hp]
      rfl

end TcpTransport

def hex8 (n : Nat) : Bytes := utf8Bytes (String.ofList (padDigits 16 8 n))

theorem digitIn_hex8 {n : Nat} {c : Char} (hc : c ∈ padDigits 16 8 n) : (digitIn 16 c).isSome :=
  digitIn_of_mem_padDigits (by decide) (by decide) hc

theorem hex8_length {n : Nat} (hn : n < 2 ^ 32) : (hex8 n).length = 8 := by
  rw [hex8, utf8Bytes_ascii fun c hc => digitIn_ascii (digitIn_hex8 hc), length_map,
    padDigits_length (by decide) (by decide)]
  exact hn

/-- Eight hex digits are read as the size. -/
theorem parseData_hex8 {n : Nat} (hn : n < 2 ^ 32) : parseData (hex8 n) = .ok (.data (UInt32.ofNat n)) := by
  have hs : fromStrRadix 16 (2 ^ 32) (padDigits 16 8 n) = some n :=
    fromStrRadix_padDigits (by decide) (by decide) 8 hn
  rw [parseData, if_neg (not_not.mpr (hex8_length hn)), hex8, fromUtf8_utf8Bytes]
  dsimp only
  rw [String.toList_ofList, hs]

/-- The data phase in raw mode: the size, as many bytes as it says, and the status behind them,
whatever the bytes are and however the stream is cut. -/
theorem rawData_phase (t : TcpTransport) (hmode : t.mode = .raw) (honly : OnlyBytes t.stream)
    (payload : List UInt8) (hlen : payload.length < 2 ^ 32)
    (hitems : t.items = (dataTag ++ hex8 payload.length ++ payload ++ okayTag).map .byte) :
    ∃ t₁ t₂ t₃, t.recvResponse = (.ok (.data (UInt32.ofNat payload.length)), t₁) ∧
      t₁.rawReadExact payload.length = (.ok payload, t₂) ∧
      t₂.recvResponse = (.ok (.okay ""), t₃) ∧ t₃.items = [] := by
  rw [append_assoc] at hitems
  obtain ⟨t₁, hd, hitems₁, honly₁, hmode₁⟩ := TcpTransport.recvResponse_scans
    (scansAs_data (hex8_length hlen) (parseData_hex8 hlen) (payload ++ okayTag)) hmode honly hitems
  obtain ⟨t₂, hr, hitems₂, honly₂, hmode₂⟩ := TcpTransport.rawReadExact_bytes honly₁ hitems₁
  obtain ⟨t₃, ho, hitems₃, -, -⟩ := TcpTransport.recvResponse_scans scansAs_okay
    (hmode₂.trans hmode₁) honly₂ (hitems₂.trans (by rw [append_nil]))
  exact ⟨t₁, t₂, t₃, hd, hr, ho, hitems₃⟩

def okayPayload : List TcpEvent :=
  [.bytes [0x44, 0x41],
    .bytes [0x54, 0x41, 0x30, 0x30, 0x30, 0x30, 0x30, 0x30, 0x30, 0x34, 0x4F, 0x4B],
    .bytes [0x41, 0x59, 0x4F], .bytes [0x4B, 0x41, 0x59]]

theorem rawData_phase_okayPayload : ∃ t₁ t₂ t₃,
    (⟨okayPayload, .raw, [], 0⟩ : TcpTransport).recvResponse = (.ok (.data 4), t₁) ∧
      t₁.rawReadExact 4 = (.ok okayTag, t₂) ∧ t₂.recvResponse = (.ok (.okay ""), t₃) ∧
      t₃.items = [] :=
  rawData_phase ⟨okayPayload, .raw, [], 0⟩ rfl (by simp [okayPayload, OnlyBytes]) okayTag
    (by decide) (by decide)

end AdbFastboot
