import AdbFastboot.IncrementalDecode

namespace AdbFastboot

open List RequestCommand Int16 IncrementalServer

namespace RequestCommand

def command (r : RequestCommand) : Bytes :=
  i16Be r.requestType.toInt ++ i16Be r.fileId.toInt ++ i32Be r.blockIdx.toInt

def encode (r : RequestCommand) : Bytes := beBytes 4 incrMagic ++ r.command

variable (r : RequestCommand)

theorem command_length : r.command.length = 8 := by
  simp [command, i16Be_length, i32Be_length]

theorem encode_length : r.encode.length = 12 := by
  rw [encode, length_append, beBytes_length, command_length]

theorem i16Be_ofInt {bs : Bytes} (h : bs.length = 2) : i16Be (ofInt (beNat bs)).toInt = bs := by
  have hlt := beNat_lt bs
  rw [h] at hlt
  have hm : (beNat bs : Int).bmod (2 ^ 16) % (2 ^ 16 : Nat) = beNat bs := by
    rw [Int.bmod_emod]
    omega
  have hb := beBytes_beNat bs
  rw [h] at hb
  rw [i16Be, toInt_ofInt]
  refine (congrArg (fun n : Int => beBytes 2 n.toNat) hm).trans ?_
  rw [Int.toNat_natCast, hb]

theorem i32Be_ofInt {bs : Bytes} (h : bs.length = 4) : i32Be (Int32.ofInt (beNat bs)).toInt = bs := by
  have hlt := beNat_lt bs
  rw [h] at hlt
  have hm : (beNat bs : Int).bmod (2 ^ 32) % (2 ^ 32 : Nat) = beNat bs := by
    rw [Int.bmod_emod]
    omega
  have hb := beBytes_beNat bs
  rw [h] at hb
  rw [i32Be, Int32.toInt_ofInt]
  refine (congrArg (fun n : Int => beBytes 4 n.toNat) hm).trans ?_
  rw [Int.toNat_natCast, hb]

theorem ofInt_i16Be (x : Int16) : ofInt (beNat (i16Be x.toInt)) = x := by
  have hr := i16OfBe_i16Be (le_toInt x) (toInt_lt x)
  exact toInt.inj (toInt_ofInt.trans hr)

theorem ofInt_i32Be (x : Int32) : Int32.ofInt (beNat (i32Be x.toInt)) = x := by
  have hr := i32OfBe_i32Be (Int32.le_toInt x) (Int32.toInt_lt x)
  exact Int32.toInt.inj (Int32.toInt_ofInt.trans hr)

variable {bytes : Bytes}

theorem slices_eq (h : bytes.length = 8) :
    slice bytes 0 2 ++ slice bytes 2 4 ++ slice bytes 4 8 = bytes := by
  have ht : slice bytes 4 8 = bytes.drop 4 := by
    rw [slice, take_of_length_le]
    rw [length_drop]
    omega
  have hm : slice bytes 2 4 ++ bytes.drop 4 = bytes.drop 2 := by
    have h := take_append_drop 2 (bytes.drop 2)
    rw [drop_drop] at h
    exact h
  rw [ht, append_assoc, hm]
  exact take_append_drop 2 bytes

/-- A decoded request has the bytes it was decoded from. -/
theorem command_of_decode {r : RequestCommand} (hl : bytes.length = 8)
    (h : decode bytes = some r) : r.command = bytes := by
  rw [decode, if_neg (by rw [hl]; decide)] at h
  cases h
  rw [command, i16Be_ofInt (slice_length (by omega)), i16Be_ofInt (slice_length (by omega)),
    i32Be_ofInt (slice_length (by omega)), slices_eq hl]

theorem decode_command : decode r.command = some r := by
  have h0 : slice r.command 0 2 = i16Be r.requestType.toInt := by
    exact take_left' (i16Be_length _)
  have h2 : slice r.command 2 4 = i16Be r.fileId.toInt := by
    have hd : r.command.drop 2 = i16Be r.fileId.toInt ++ i32Be r.blockIdx.toInt := by
      exact drop_left' (i16Be_length _)
    exact slice_of_drop hd (by rw [i16Be_length])
  have h4 : slice r.command 4 8 = i32Be r.blockIdx.toInt := by
    have hd : r.command.drop 4 = i32Be r.blockIdx.toInt ++ [] := by
      exact drop_left' (by rw [length_append, i16Be_length, i16Be_length])
    exact slice_of_drop hd (by rw [i32Be_length])
  rw [decode, if_neg (by rw [command_length]; decide), h0, h2, h4, ofInt_i16Be, ofInt_i16Be, ofInt_i32Be]

/-- Two streams that start with a request start with the same one. -/
theorem encode_append_inj {r r' : RequestCommand} {bytes' : Bytes}
    (h : r.encode ++ bytes = r'.encode ++ bytes') : r = r' ∧ bytes = bytes' := by
  obtain ⟨he, hb⟩ := append_inj h (by rw [encode_length, encode_length])
  refine ⟨?_, hb⟩
  have hc := congrArg decode (append_cancel_left he)
  rw [decode_command, decode_command] at hc
  exact Option.some.inj hc

end RequestCommand

inductive ScanItem where
  | pass (b : UInt8)
  | request (r : RequestCommand)
deriving DecidableEq, Repr

namespace ScanItem

def bytes : ScanItem → Bytes
  | pass b => [b]
  | request r => r.encode

def requests (items : List ScanItem) : List RequestCommand := items.filterMap fun
  | pass _ => none
  | request r => some r

def passed (items : List ScanItem) : Bytes := items.filterMap fun
  | pass b => some b
  | request _ => none

variable (items more : List ScanItem)

@[simp] theorem requests_append :
    requests (items ++ more) = requests items ++ requests more := filterMap_append

@[simp] theorem passed_append :
    passed (items ++ more) = passed items ++ passed more := filterMap_append

@[simp] theorem requests_pass (bytes : Bytes) : requests (bytes.map pass) = [] := by
  induction bytes with
  | nil => rfl
  | cons b bytes ih => exact ih

@[simp] theorem passed_pass (bytes : Bytes) : passed (bytes.map pass) = bytes := by
  induction bytes with
  | nil => rfl
  | cons b bytes ih => exact congrArg (b :: ·) ih

end ScanItem

def AtMagic (bytes : Bytes) : Prop := beBytes 4 incrMagic <+: bytes

/-- Input of which the scanner does not know yet what it is. -/
def Held (bytes : Bytes) : Prop := bytes.length ≤ 4 ∨ AtMagic bytes ∧ bytes.length < 12

inductive Reads : Bytes → List ScanItem → Bytes → Prop where
  | nil (bytes : Bytes) : Reads bytes [] bytes
  | pass {b : UInt8} {bytes rest : Bytes} {items : List ScanItem}
      (hmagic : ¬ AtMagic (b :: bytes)) (hlen : 4 ≤ bytes.length) (h : Reads bytes items rest) :
      Reads (b :: bytes) (.pass b :: items) rest
  | request {r : RequestCommand} {bytes rest : Bytes} {items : List ScanItem}
      (h : Reads bytes items rest) : Reads (r.encode ++ bytes) (.request r :: items) rest

/-- The scanner reads `bytes` as `items` and keeps `rest`. -/
def Scans (bytes : Bytes) (items : List ScanItem) (rest : Bytes) : Prop :=
  Reads bytes items rest ∧ Held rest

theorem atMagic_encode (r : RequestCommand) (bytes : Bytes) : AtMagic (r.encode ++ bytes) := by
  exact prefix_append _ _

theorem AtMagic.of_append {bytes more : Bytes} (h : AtMagic (bytes ++ more))
    (hl : 4 ≤ bytes.length) : AtMagic bytes :=
  prefix_of_prefix_length_le h (prefix_append _ _) (by rw [beBytes_length]; exact hl)

/-- A whole request is not held back. -/
theorem not_held_encode (r : RequestCommand) (bytes : Bytes) : ¬ Held (r.encode ++ bytes) := by
  intro h
  have hl := r.encode_length
  unfold Held at h
  rw [length_append] at h
  omega

theorem not_held_pass {b : UInt8} {bytes : Bytes} (hm : ¬ AtMagic (b :: bytes))
    (hl : 4 ≤ bytes.length) : ¬ Held (b :: bytes) := by
  rintro (h | h)
  · rw [length_cons] at h
    omega
  · exact hm h.1

variable {bytes rest : Bytes} {items items' : List ScanItem}

/-- What was read and what is left are the bytes. -/
theorem Reads.bytes_eq (h : Reads bytes items rest) : items.flatMap ScanItem.bytes ++ rest = bytes := by
  induction h with
  | nil => rfl
  | pass _ _ _ ih | request _ ih => rw [flatMap_cons, append_assoc, ih]; rfl

/-- One reading goes on where another ended. -/
theorem Reads.trans {mid : Bytes} (h : Reads bytes items mid)
    (h' : Reads mid items' rest) : Reads bytes (items ++ items') rest := by
  induction h with
  | nil => exact h'
  | pass hm hl _ ih => exact .pass hm hl (ih h')
  | request _ ih => exact .request (ih h')

theorem Reads.more (h : Reads bytes items rest)
    (more : Bytes) : Reads (bytes ++ more) items (rest ++ more) := by
  induction h with
  | nil => exact .nil _
  | @pass b bytes _ _ hm hl _ ih =>
    have hm' : ¬ AtMagic (b :: (bytes ++ more)) := by
      intro hf
      exact hm (hf.of_append (by rw [length_cons]; omega))
    have hl' : 4 ≤ (bytes ++ more).length := by
      rw [length_append]
      omega
    exact .pass hm' hl' ih
  | request _ ih =>
    exact .request ih

theorem Scans.append {more rest' : Bytes} (h : Scans bytes items rest)
    (h' : Scans (rest ++ more) items' rest') :
    Scans (bytes ++ more) (items ++ items') rest' := ⟨(h.1.more more).trans h'.1, h'.2⟩

/-- A stream is read in one way. -/
theorem Reads.det {bytes' rest' : Bytes} (h : Reads bytes items rest)
    (hr : Held rest) (h' : Reads bytes' items' rest') (hr' : Held rest')
    (heq : bytes' = bytes) : items' = items ∧ rest' = rest := by
  induction h generalizing bytes' items' rest' with
  | nil =>
    cases h' with
    | nil => exact ⟨rfl, heq⟩
    | pass hm hl => exact absurd (heq ▸ hr) (not_held_pass hm hl)
    | request => exact absurd (heq ▸ hr) (not_held_encode _ _)
  | pass hm hl _ ih =>
    cases h' with
    | nil => exact absurd (heq ▸ hr') (not_held_pass hm hl)
    | pass _ _ h =>
      obtain ⟨rfl, ht⟩ := cons.inj heq
      obtain ⟨rfl, rfl⟩ := ih hr h hr' ht
      exact ⟨rfl, rfl⟩
    | request => exact absurd (heq ▸ atMagic_encode _ _) hm
  | request _ ih =>
    cases h' with
    | nil => exact absurd (heq ▸ hr') (not_held_encode _ _)
    | pass hm => exact absurd (heq ▸ atMagic_encode _ _) hm
    | request h =>
      obtain ⟨rfl, ht⟩ := encode_append_inj heq
      obtain ⟨rfl, rfl⟩ := ih hr h hr' ht
      exact ⟨rfl, rfl⟩

/-- `bytes` are `items` one after the other: a request wherever one can begin, and else one byte. -/
inductive Carries : Bytes → List ScanItem → Prop where
  | nil : Carries [] []
  | pass {b : UInt8} {bytes : Bytes} {items : List ScanItem}
      (hnone : ∀ r more, b :: bytes ≠ RequestCommand.encode r ++ more) (h : Carries bytes items) :
      Carries (b :: bytes) (.pass b :: items)
  | request {r : RequestCommand} {bytes : Bytes} {items : List ScanItem}
      (h : Carries bytes items) : Carries (r.encode ++ bytes) (.request r :: items)

theorem carries_short (h : bytes.length < 12) : Carries bytes (bytes.map .pass) := by
  induction bytes with
  | nil => exact .nil
  | cons b bytes ih =>
    rw [length_cons] at h
    refine .pass ?_ (ih (by omega))
    intro r more heq
    have hl := congrArg length heq
    rw [length_cons, length_append, r.encode_length] at hl
    omega

theorem Held.length_lt (h : Held bytes) : bytes.length < 12 := by
  obtain h | h := h <;> omega

theorem Reads.carries (h : Reads bytes items rest) (h' : Carries rest items') :
    Carries bytes (items ++ items') := by
  induction h with
  | nil => exact h'
  | pass hm _ _ ih =>
    refine .pass ?_ (ih h')
    intro r more heq
    exact hm (heq ▸ atMagic_encode r more)
  | request _ ih => exact .request (ih h')

/-- Passing on what is held ends the stream. -/
theorem Scans.carries (h : Scans bytes items rest) :
    Carries bytes (items ++ rest.map .pass) := h.1.carries (carries_short h.2.length_lt)

theorem beNat_eq_incrMagic_iff {n : Nat} (h : n + 4 ≤ bytes.length) :
    beNat (slice bytes n (n + 4)) = incrMagic ↔ AtMagic (bytes.drop n) := by
  have hl : (slice bytes n (n + 4)).length = 4 := by
    rw [slice_length h]
    omega
  have hb := beBytes_beNat (slice bytes n (n + 4))
  rw [hl] at hb
  have hs : slice bytes n (n + 4) = (bytes.drop n).take 4 := by
    rw [slice, Nat.add_sub_cancel_left]
  constructor
  · intro hm
    rw [hm, hs] at hb
    exact prefix_iff_eq_take.mpr (by rw [beBytes_length]; exact hb)
  · intro hm
    have ht := prefix_iff_eq_take.mp hm
    rw [beBytes_length] at ht
    rw [hs, ← ht, beNat_beBytes]
    rfl

theorem reads_cons {n m : Nat} (hn : n + 4 < bytes.length) (hle : n + 1 ≤ m)
    (hm : ¬ AtMagic (bytes.drop n))
    (h : Reads (bytes.drop (n + 1)) ((slice bytes (n + 1) m).map .pass) (bytes.drop m)) :
    Reads (bytes.drop n) ((slice bytes n m).map .pass) (bytes.drop m) := by
  have hc : bytes.drop n = bytes[n] :: bytes.drop (n + 1) := drop_eq_getElem_cons (by omega)
  have hs : slice bytes n m = bytes[n] :: slice bytes (n + 1) m := by
    rw [slice, hc, show m - n = m - (n + 1) + 1 by omega, take_succ_cons, slice]
  rw [hc] at hm ⊢
  rw [hs]
  exact .pass hm (by rw [length_drop]; omega) h

variable {incoming : Bytes}

/-- The search passes over bytes that start no magic. -/
theorem findMagic_spec {turns n : Nat} {p : Int} {found : Bool}
    (h : findMagic incoming incoming.length turns n = some (p, found)) :
    ∃ m : Nat, p = m ∧ n ≤ m ∧ m < 2 ^ 31
      ∧ Reads (incoming.drop n) ((slice incoming n m).map .pass) (incoming.drop m)
      ∧ (found = true → AtMagic (incoming.drop m))
      ∧ (found = false → (incoming.drop m).length ≤ 4) := by
  induction turns generalizing n with
  | zero => cases h
  | succ turns ih =>
    unfold findMagic at h
    obtain ⟨last, hl, h⟩ := Option.bind_eq_some_iff.mp h
    obtain ⟨rfl, hsm⟩ := checkedI32_eq_some hl
    have hs : Reads (incoming.drop n) ((slice incoming n n).map .pass) (incoming.drop n) := by
      rw [slice, Nat.sub_self, take_zero]
      exact .nil _
    split at h
    next hin =>
      rw [asUsize_natCast (by omega)] at h
      rw [if_pos (by omega)] at h
      have hi : beNat (slice incoming n (n + 4)) = incrMagic ↔ AtMagic (incoming.drop n) :=
        beNat_eq_incrMagic_iff (by omega)
      split at h
      next hmg =>
        cases h
        exact ⟨n, rfl, Nat.le_refl n, by omega, hs, fun _ => hi.mp hmg,
          fun h => absurd h.symm Bool.false_ne_true⟩
      next hmg =>
        obtain ⟨next, hn, h⟩ := Option.bind_eq_some_iff.mp h
        obtain ⟨rfl, -⟩ := checkedI32_eq_some hn
        obtain ⟨m, hp, hle, hm, hr, he⟩ := ih (n := n + 1) h
        refine ⟨m, hp, by omega, hm, ?_, he⟩
        exact reads_cons (by omega) hle (fun ha => hmg (hi.mpr ha)) hr
    next ho =>
      cases h
      refine ⟨n, rfl, Nat.le_refl n, by omega, hs, fun h => absurd h Bool.false_ne_true, fun _ => ?_⟩
      rw [length_drop]
      omega

inductive Taken (incoming : Bytes) :
    Option RequestCommand → Bytes → Bytes → Prop where
  | held {forward rest : Bytes} (hheld : Held rest)
      (hreads : Reads incoming (forward.map .pass) rest) : Taken incoming none forward rest
  | request {r : RequestCommand} {forward rest : Bytes}
      (hreads : Reads incoming (forward.map .pass ++ [.request r]) rest)
      (hless : rest.length < incoming.length) : Taken incoming (some r) forward rest

/-- Behind a magic eight bytes are a request. -/
theorem decode_at_magic (hm : AtMagic bytes) (hl : 12 ≤ bytes.length) :
    ∃ r, RequestCommand.decode (slice bytes 4 12) = some r ∧ r.encode ++ bytes.drop 12 = bytes := by
  obtain ⟨tail, rfl⟩ := hm
  have hd : (beBytes 4 incrMagic ++ tail).drop 4 = tail := drop_left' (beBytes_length 4 _)
  have hs : slice (beBytes 4 incrMagic ++ tail) 4 12 = tail.take 8 := by
    rw [slice, hd]
  rw [length_append, beBytes_length] at hl
  have hc : (tail.take 8).length = 8 := by
    rw [length_take]
    omega
  obtain ⟨r, hr⟩ : ∃ r, RequestCommand.decode (tail.take 8) = some r := by
    rw [RequestCommand.decode, if_neg (by rw [hc]; decide)]
    exact ⟨_, rfl⟩
  refine ⟨r, by rw [hs, hr], ?_⟩
  rw [RequestCommand.encode, command_of_decode hc hr, append_assoc,
    show 12 = 4 + 8 from rfl, ← drop_drop, hd, take_append_drop]

/-- `take_request` returns, with the bytes before the first whole request. -/
theorem takeRequest_spec (hlen : incoming.length < 2 ^ 31) : ∃ request forward rest,
      takeRequest incoming = some (request, forward, rest)
        ∧ Taken incoming request forward rest := by
  obtain ⟨⟨request, forward, rest⟩, ht⟩ :=
    Option.isSome_iff_exists.mp (takeRequest_isSome incoming)
  refine ⟨request, forward, rest, ht, ?_⟩
  unfold takeRequest at ht
  rw [asI32_of_fits (by omega) (by omega)] at ht
  obtain ⟨⟨p, found⟩, hfd, ht⟩ := Option.bind_eq_some_iff.mp ht
  obtain ⟨m, rfl, -, hm, hrs, hf, hms⟩ := findMagic_spec (n := 0) hfd
  dsimp only at ht
  rw [asUsize_natCast (by omega)] at ht
  split at ht
  next hw =>
    obtain ⟨hy, hl⟩ := Bool.and_eq_true_iff.mp hw
    obtain ⟨r, hr, hb⟩ := decode_at_magic (hf hy) (of_decide_eq_true hl)
    have hr' : RequestCommand.decode (slice (incoming.drop m) 4 (4 + wireSize)) = some r := hr
    rw [hr'] at ht
    cases ht
    refine .request (hrs.trans (hb ▸ .request (.nil _))) ?_
    have hl := of_decide_eq_true hl
    rw [length_drop] at hl
    rw [length_drop, length_drop]
    omega
  next hp =>
    cases ht
    refine .held ?_ hrs
    cases found with
    | false => exact .inl (hms rfl)
    | true =>
      refine .inr ⟨hf rfl, ?_⟩
      by_contra hl
      exact hp (by rw [Bool.true_and]; exact decide_eq_true (Nat.not_lt.mp hl))

theorem Taken.reads {bytes : Bytes} {request : Option RequestCommand}
    (h : Taken incoming request bytes rest) :
    ∃ more, Reads incoming more rest ∧ ScanItem.passed more = bytes
      ∧ ScanItem.requests more = request.toList := by
  cases h with
  | held _ hrs =>
    exact ⟨_, hrs, ScanItem.passed_pass _, ScanItem.requests_pass _⟩
  | @request r _ _ hrs =>
    refine ⟨_, hrs, ?_, ?_⟩
    · rw [ScanItem.passed_append, ScanItem.passed_pass]
      exact append_nil _
    · rw [ScanItem.requests_append, ScanItem.requests_pass]
      rfl

namespace IncrementalServer

/-- `take_request` until it returns nothing. -/
def takeRequests : Nat → IncrementalServer → Option (List ScanItem × IncrementalServer)
  | 0, _ => none
  | turns + 1, s => do
    let (request, forward, incoming) ← takeRequest s.incoming
    let s := { s with incoming := incoming }
    match request with
    | none => pure (forward.map .pass, s)
    | some r =>
      let (items, s) ← takeRequests turns s
      pure (forward.map .pass ++ .request r :: items, s)

def feedPieces (s : IncrementalServer) : List Bytes → Option (List ScanItem × IncrementalServer)
  | [] => some ([], s)
  | piece :: pieces => do
    let s := s.feed piece
    let (items, s) ← s.takeRequests (s.incoming.length + 1)
    let (more, s) ← s.feedPieces pieces
    pure (items ++ more, s)

variable {s : IncrementalServer}

/-- Taking requests until there is none scans the buffer. -/
theorem takeRequests_spec {turns : Nat} (htr : s.incoming.length < turns)
    (hlen : s.incoming.length < 2 ^ 31) :
    ∃ items rest, takeRequests turns s = some (items, { s with incoming := rest })
      ∧ Scans s.incoming items rest := by
  induction turns generalizing s with
  | zero => omega
  | succ turns ih =>
    obtain ⟨request, forward, rest, hta, htk⟩ := takeRequest_spec hlen
    rw [takeRequests, hta]
    cases htk with
    | held hhl hrs =>
      exact ⟨forward.map .pass, rest, rfl, hrs, hhl⟩
    | @request r _ _ hrs hls =>
      obtain ⟨items, rest', hts, hsc⟩ := ih (s := { s with incoming := rest })
        (show rest.length < turns by omega) (show rest.length < 2 ^ 31 by omega)
      have hall := hrs.trans hsc.1
      rw [append_assoc] at hall
      refine ⟨forward.map .pass ++ .request r :: items, rest', ?_, hall, hsc.2⟩
      dsimp
      rw [hts]
      rfl

/-- Feeding pieces scans their bytes, with what was held before them. -/
theorem feedPieces_spec (pieces : List Bytes)
    (hh : Held s.incoming) (hl : (s.incoming ++ pieces.flatten).length < 2 ^ 31) :
    ∃ items rest, s.feedPieces pieces = some (items, { s with incoming := rest })
      ∧ Scans (s.incoming ++ pieces.flatten) items rest := by
  induction pieces generalizing s with
  | nil =>
    refine ⟨[], s.incoming, rfl, ?_⟩
    rw [flatten_nil, append_nil]
    exact ⟨.nil _, hh⟩
  | cons piece pieces ih =>
    rw [flatten_cons, ← append_assoc] at hl ⊢
    have hp : (s.feed piece).incoming = s.incoming ++ piece := rfl
    rw [length_append] at hl
    obtain ⟨items, rest, ht, hs⟩ := takeRequests_spec (s := s.feed piece)
      (Nat.lt_succ_self _) (by rw [hp]; omega)
    rw [hp] at hs
    have hr := congrArg length hs.1.bytes_eq
    rw [length_append] at hr
    obtain ⟨more, rest', hm, hs'⟩ := ih (s := { s with incoming := rest })
      hs.2 (by rw [length_append]; show rest.length + _ < _; omega)
    refine ⟨items ++ more, rest', ?_, hs.append hs'⟩
    have hf : { s.feed piece with incoming := rest } = { s with incoming := rest } := rfl
    rw [feedPieces]
    dsimp
    rw [ht, hf, Option.bind_some, hm]
    rfl

/-- The cuts do not matter, and nothing is lost or made up. -/
theorem feedPieces_flatten (files : List ServerFile) (pieces : List (List UInt8))
    (hlen : pieces.flatten.length < 2 ^ 31) :
    ∃ items rest, (new files).feedPieces pieces = some (items, { new files with incoming := rest })
      ∧ (new files).feedPieces [pieces.flatten] = some (items, { new files with incoming := rest })
      ∧ items.flatMap ScanItem.bytes ++ rest = pieces.flatten := by
  have hm : Held (new files).incoming := .inl (Nat.zero_le 4)
  obtain ⟨items, rest, hf, hs⟩ := feedPieces_spec pieces hm hlen
  have hw : [pieces.flatten].flatten = pieces.flatten := flatten_singleton
  obtain ⟨items', rest', hf', hs'⟩ := feedPieces_spec [pieces.flatten] hm (by rw [hw]; exact hlen)
  rw [hw] at hs'
  obtain ⟨rfl, rfl⟩ := hs.1.det hs.2 hs'.1 hs'.2 rfl
  exact ⟨items', rest', hf, hf', hs.1.bytes_eq⟩

theorem feedPieces_flatten_split :
    ∃ items rest, (new []).feedPieces [[1, 2, 0x49, 0x4e], [0x43, 0x52, 0, 2, 0],
        [0, 0, 0, 0, 0, 3]] = some (items, { new [] with incoming := rest })
      ∧ (new []).feedPieces [[1, 2, 0x49, 0x4e, 0x43, 0x52, 0, 2, 0, 0, 0, 0, 0, 0, 3]]
        = some (items, { new [] with incoming := rest })
      ∧ items.flatMap ScanItem.bytes ++ rest
        = [1, 2, 0x49, 0x4e, 0x43, 0x52, 0, 2, 0, 0, 0, 0, 0, 0, 3] :=
  feedPieces_flatten [] [[1, 2, 0x49, 0x4e], [0x43, 0x52, 0, 2, 0], [0, 0, 0, 0, 0, 3]] (by decide)

theorem takeRequest_rest {incoming forward rest : Bytes} {request : Option RequestCommand}
    (h : takeRequest incoming = some (request, forward, rest)) :
    rest.length + (if request.isSome then 12 else 0) ≤ incoming.length := by
  unfold takeRequest at h
  obtain ⟨⟨p, found⟩, -, h⟩ := Option.bind_eq_some_iff.mp h
  dsimp only at h
  have hd : (incoming.drop (asUsize p)).length ≤ incoming.length := by
    rw [length_drop]
    omega
  split at h
  next hw =>
    have hl : 12 ≤ (incoming.drop (asUsize p)).length :=
      of_decide_eq_true (Bool.and_eq_true_iff.mp hw).2
    cases h
    show ((incoming.drop (asUsize p)).drop 12).length + _ ≤ _
    rw [length_drop]
    split <;> omega
  next =>
    cases h
    exact hd

def RequestReady (incoming : Bytes) : Prop := ((takeRequest incoming).bind (·.1)).isSome

instance (incoming : Bytes) : Decidable (RequestReady incoming) :=
  inferInstanceAs (Decidable (_ = true))

theorem exists_scans (hl : bytes.length < 2 ^ 31) : ∃ items rest, Scans bytes items rest := by
  obtain ⟨items, rest, -, hs⟩ := takeRequests_spec (s := { new [] with incoming := bytes })
    (Nat.lt_succ_self _) hl
  exact ⟨items, rest, hs⟩

/-- A request is ready exactly if the scan finds one. -/
theorem requestReady_iff (hlen : bytes.length < 2 ^ 31) (h : Scans bytes items rest) :
    RequestReady bytes ↔ ScanItem.requests items ≠ [] := by
  obtain ⟨request, forward, rest', hta, htk⟩ := takeRequest_spec hlen
  rw [RequestReady, hta]
  cases htk with
  | held hhl hrs =>
    obtain ⟨rfl, rfl⟩ := hrs.det hhl h.1 h.2 rfl
    simp
  | @request r _ _ hrs hls =>
    obtain ⟨more, last, hsc⟩ := exists_scans (show rest'.length < 2 ^ 31 by omega)
    obtain ⟨rfl, rfl⟩ := (hrs.trans hsc.1).det hsc.2 h.1 h.2 rfl
    simp [ScanItem.requests]

theorem RequestReady.append {more : Bytes} (h : RequestReady bytes)
    (hl : (bytes ++ more).length < 2 ^ 31) : RequestReady (bytes ++ more) := by
  have hsum := hl
  rw [length_append] at hsum
  obtain ⟨items, rest, hs⟩ := exists_scans (show bytes.length < 2 ^ 31 by omega)
  have hr : rest.length ≤ bytes.length := by
    rw [← hs.1.bytes_eq, length_append]
    omega
  obtain ⟨items', rest', hs'⟩ := exists_scans
    (show (rest ++ more).length < 2 ^ 31 by rw [length_append]; omega)
  rw [requestReady_iff (by omega) hs] at h
  rw [requestReady_iff hl (hs.append hs'), ScanItem.requests_append]
  exact append_ne_nil_of_left_ne_nil h _

end IncrementalServer

end AdbFastboot
