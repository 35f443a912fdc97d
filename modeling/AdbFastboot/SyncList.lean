import AdbFastboot.SyncPush
import AdbFastboot.Utf8Cut

namespace AdbFastboot

open DeviceFrame StateCall List SyncMessageHeader Link Socket

structure RemoteEntry where
  mode : UInt32
  size : UInt32
  mtime : UInt32
  name : Text
deriving DecidableEq, Repr

def SyncDentResponse.entry (d : SyncDentResponse) : RemoteEntry := ⟨d.mode, d.size, d.mtime, d.name⟩

/-- `read_raw_sync`: the second word is taken for the length of what follows. -/
def readRawSync : Socket.Call (SyncMessageHeader × Bytes) := do
  let buf ← readExact SyncMessageHeader.size
  match SyncMessageHeader.decode buf with
  | .error e => throw (.failed ("Bad sync header: ".toList ++ e.text))
  | .ok header => do
    let payload ← readExact header.length.toNat
    pure (header, payload)

def listMessage (id : UInt32) (body : Bytes) (entries : List RemoteEntry) :
    Except LinkStop (LoopTurn (List RemoteEntry) (List RemoteEntry)) :=
  if id = syncDent then
    match SyncDentResponse.decode body with
    | .error e => .error (.failed ("Bad DENT: ".toList ++ e.text))
    | .ok dent => .ok (.next (entries ++ [dent.entry]))
  else if id = syncDone then .ok (.done entries)
  else if id = syncFail then
    .error (.failed ("Sync FAIL during list: ".toList ++ lossyText body))
  else .error (.failed
    ("Unexpected sync id ".toList ++ (hexText id).toList ++ " during list".toList))

def listServerLoop : Nat → List RemoteEntry → Socket.Call (List RemoteEntry)
  | 0, _ => throw .running
  | fuel + 1, entries => do
    let message ← readRawSync
    match listMessage message.1.id message.2 entries with
    | .error e => throw e
    | .ok (.next entries) => listServerLoop fuel entries
    | .ok (.done entries) => pure entries

def listServerInner (fuel : Nat) (remotePath : Text) : Socket.Call (List RemoteEntry) :=
  match buildSyncListReq remotePath with
  | .error e => throw (.failed ("Build LIST req failed: ".toList ++ e.text))
  | .ok req => do
    writeRawSync req
    listServerLoop fuel []

def listDirectTurn (ids : StreamIds) (entries : List RemoteEntry) (p : AdbPacket) :
    SendCall (LoopTurn (List RemoteEntry) (List RemoteEntry)) :=
  if p.header.command = aOkay then pure (.next entries)
  else if p.header.command = aWrte then do
    let _ ← (Outbox.send (AdbPacket.new aOkay ids.localId p.header.arg0 [])).attempt
    if p.payload.length < 8 then
      throw (.failed "Sync response too short during list".toList)
    else match SyncMessageHeader.decode p.payload with
      | .error e => throw (.failed ("Bad sync header during list: ".toList ++ e.text))
      | .ok header => StateCall.lift (listMessage header.id (p.payload.drop 8) entries)
  else if p.header.command = aClse then do
    let _ ← (Outbox.send (AdbPacket.new aClse ids.localId p.header.arg0 [])).attempt
    pure (.done entries)
  else pure (.next entries)

def listDirectInner (ids : StreamIds) (remotePath : Text) : LinkCall (List RemoteEntry) :=
  match buildSyncListReq remotePath with
  | .error e => throw (.failed ("Build LIST req failed: ".toList ++ e.text))
  | .ok req => do
    sendWrte ids req
    Link.loop (fun e => e) (listDirectTurn ids) []

def RemoteEntry.header (e : RemoteEntry) : Bytes :=
  u32Le syncDent ++ u32Le e.mode ++ u32Le e.size ++ u32Le e.mtime
    ++ u32Le (UInt32.ofNat (textBytes e.name).length)

def RemoteEntry.record (e : RemoteEntry) : Bytes := e.header ++ textBytes e.name

/-- The record of an entry is what a device encodes for it. -/
theorem RemoteEntry.encode_eq_record (e : RemoteEntry) (h : (textBytes e.name).length < 2 ^ 32)
    (namelen : UInt32) :
    SyncDentResponse.encode ⟨syncDent, e.mode, e.size, e.mtime, namelen, e.name⟩ = .ok e.record :=
  if_neg (Nat.not_le.mpr h)

@[simp] theorem RemoteEntry.header_length (e : RemoteEntry) : e.header.length = 20 := by
  simp [header]

def doneRecord (pad : Nat) : Bytes := u32Le syncDone ++ List.replicate pad 0

def listReply (entries : List RemoteEntry) (pad : Nat) : Bytes :=
  entries.flatMap RemoteEntry.record ++ doneRecord pad

variable {s : Socket} {entries : List RemoteEntry}

theorem Socket.readExact_eq_ok {n : Nat} {s' : Socket} {bs : Bytes}
    (h : (readExact n).runOn s = (.ok bs, s')) :
    n ≤ s.incoming.length ∧ bs = s.incoming.take n ∧ s'.incoming = s.incoming.drop n := by
  rw [readExact, runOn_ofRun] at h
  split at h
  next hn =>
    obtain ⟨hb, rfl⟩ := Prod.mk.inj h
    exact ⟨hn, (Except.ok.inj hb).symm, rfl⟩
  next => cases (Prod.mk.inj h).1

theorem u32At_take {bs : Bytes} {n off : Nat} (h : off + 4 ≤ n) :
    u32At (bs.take n) off = u32At bs off := by
  rw [u32At, u32At, slice, slice, drop_take, take_take, Nat.min_eq_left (by omega)]

/-- A message that was read is a header and some bytes behind it. -/
theorem readRawSync_eq_ok {s' : Socket} {message : SyncMessageHeader × Bytes}
    (h : readRawSync.runOn s = (.ok message, s')) :
    8 ≤ s.incoming.length ∧ message.1.id = u32At s.incoming 0 ∧
      ∃ n, message.2 = (s.incoming.drop 8).take n ∧ s'.incoming = s.incoming.drop (8 + n) := by
  obtain ⟨buf, s1, hb, h⟩ := runOn_bind_eq_ok h
  obtain ⟨hl, rfl, hs1⟩ := readExact_eq_ok hb
  rw [size] at hl hs1 h
  rw [decode_of_length (by rw [length_take]; omega)] at h
  obtain ⟨payload, s2, hp, h⟩ := runOn_bind_eq_ok h
  obtain ⟨-, rfl, hs2⟩ := readExact_eq_ok hp
  cases h
  refine ⟨hl, u32At_take (by omega), (u32At (s.incoming.take 8) 4).toNat, ?_, ?_⟩
  · rw [hs1]
  · rw [hs2, hs1, drop_drop]

variable {result : List RemoteEntry} {pad : Nat}

theorem listMessage_eq_ok {id : UInt32} {body : Bytes} {turn : LoopTurn (List RemoteEntry) (List RemoteEntry)}
    (h : listMessage id body entries = .ok turn) : (id = syncDone ∧ turn = .done entries) ∨
      ∃ dent, SyncDentResponse.decode body = .ok dent ∧ turn = .next (entries ++ [dent.entry]) := by
  unfold listMessage at h
  split at h
  next =>
    split at h
    next => cases h
    next dent hd =>
      cases h
      exact .inr ⟨dent, hd, rfl⟩
  next =>
    split at h
    next hi =>
      cases h
      exact .inl ⟨hi, rfl⟩
    next => split at h <;> cases h

/-- The entries that are found in what is left of a reply, if each message has some length. -/
inductive Lists : Bytes → List RemoteEntry → Prop
  | done {rest : Bytes} (hroom : 8 ≤ rest.length) (hid : u32At rest 0 = syncDone) : Lists rest []
  | dent {rest : Bytes} {n : Nat} {dent : SyncDentResponse} {more : List RemoteEntry}
      (hdent : SyncDentResponse.decode ((rest.drop 8).take n) = .ok dent)
      (h : Lists (rest.drop (8 + n)) more) : Lists rest (dent.entry :: more)

/-- What the server's loop returns it has listed from the stream. -/
theorem listServerLoop_lists {fuel : Nat} (h : ((listServerLoop fuel entries).runOn s).1 = .ok result) :
    ∃ more, result = entries ++ more ∧ Lists s.incoming more := by
  induction fuel generalizing entries s with
  | zero => cases h
  | succ fuel ih =>
    obtain ⟨message, s1, hr, h⟩ := runOn_bind_eq_ok (Prod.ext h rfl)
    obtain ⟨hl, hi, n, hb, hs1⟩ := readRawSync_eq_ok hr
    cases hm : listMessage message.1.id message.2 entries with
    | error e =>
      rw [hm] at h
      cases (Prod.mk.inj h).1
    | ok turn =>
      rw [hm] at h
      obtain ⟨hdn, rfl⟩ | ⟨dent, hd, rfl⟩ := listMessage_eq_ok hm
      · cases (Prod.mk.inj h).1
        exact ⟨[], (append_nil _).symm, .done hl (hi.symm.trans hdn)⟩
      · obtain ⟨more, rfl, hls⟩ := ih (congrArg Prod.fst h)
        exact ⟨dent.entry :: more, append_cons .. |>.symm, .dent (hb ▸ hd) (hs1 ▸ hls)⟩

theorem SyncDentResponse.decode_name {buf : Bytes} {d : SyncDentResponse} (h : decode buf = .ok d) :
    ∃ n, 20 + n ≤ buf.length ∧ d.name = lossyText ((buf.drop 20).take n) := by
  unfold decode at h
  split at h
  next => cases h
  dsimp only at h
  split at h
  next => cases h
  next hl =>
    cases h
    refine ⟨(u32At buf 16).toNat, Nat.not_lt.mp hl, ?_⟩
    rw [slice, headerSize, Nat.add_sub_cancel_left]

theorem doneRecord_inside {k : Nat} (hk : 0 < k) (hl : 8 ≤ ((doneRecord pad).drop k).length) :
    (u32At ((doneRecord pad).drop k) 0).toNat < 2 ^ 24 := by
  have hf : ((doneRecord pad).drop k)[3]? = some 0 := by
    rw [length_drop, doneRecord, length_append, u32Le_length, length_replicate] at hl
    rw [getElem?_drop, doneRecord, getElem?_append_right (by rw [u32Le_length]; omega),
      u32Le_length, getElem?_replicate, if_pos (by omega)]
  generalize (doneRecord pad).drop k = bs at hf hl
  rcases bs with _ | ⟨a, _ | ⟨b, _ | ⟨c, _ | ⟨d, bs⟩⟩⟩⟩
  · cases hf
  · cases hf
  · cases hf
  · cases hf
  · cases hf
    have ha := a.toNat_lt
    have hb := b.toNat_lt
    have hc := c.toNat_lt
    have hv : u32At (a :: b :: c :: 0 :: bs) 0
        = UInt32.ofNat (a.toNat + 256 * (b.toNat + 256 * c.toNat)) := rfl
    rw [hv, UInt32.toNat_ofNat', Nat.mod_eq_of_lt (by omega)]
    omega

/-- Bytes within a record's name are bytes of the name. -/
theorem record_region {e : RemoteEntry} {behind : Bytes} {k n m : Nat}
    (hm : 20 + m ≤ n) (hi : k + 28 + m ≤ e.record.length) :
    ((((((e.record ++ behind).drop k).drop 8).take n).drop 20).take m)
      = ((textBytes e.name).drop (k + 8)).take m := by
  rw [drop_take, drop_drop, drop_drop, take_take, Nat.min_eq_left (by omega),
    RemoteEntry.record, append_assoc, drop_append,
    drop_eq_nil_of_le (by rw [e.header_length]; omega), nil_append, e.header_length]
  rw [RemoteEntry.record, length_append, e.header_length] at hi
  rw [drop_append_of_le_length (by omega), take_append_of_le_length (by rw [length_drop]; omega)]
  congr 2

theorem listReply_cons (e : RemoteEntry) : listReply (e :: entries) pad = e.record ++ listReply entries pad := by
  simp [listReply]

/-- What is read as an entry from 8 bytes behind its start or later ends behind its own place, since no
part of a name that starts inside it decodes to the name. -/
theorem dent_overruns {e : RemoteEntry} {k n : Nat} {dent : SyncDentResponse}
    (hd : SyncDentResponse.decode ((((listReply (e :: entries) pad).drop k).drop 8).take n) = .ok dent)
    (he : dent.entry = e) : e.record.length < k + 8 + n := by
  obtain ⟨m, hm, hn⟩ := SyncDentResponse.decode_name hd
  have hmn := Nat.le_trans hm (length_take_le _ _)
  by_contra hin
  rw [listReply_cons, record_region hmn (by omega)] at hn
  have hl : e.record.length = 20 + (textBytes e.name).length := by
    rw [RemoteEntry.record, length_append, e.header_length]
  refine utf8Lossy_region_ne e.name (a := k + 8) (by omega) ?_ m ?_
  · change k + 8 ≤ (textBytes e.name).length
    omega
  · rw [← he] at hn ⊢
    exact hn.symm

theorem listReply_drop (entries : List RemoteEntry) (pad : Nat) {e : RemoteEntry} {k : Nat}
    (h : e.record.length < k) :
    ∃ j, 0 < j ∧ (listReply (e :: entries) pad).drop k = (listReply entries pad).drop j := by
  refine ⟨k - e.record.length, by omega, ?_⟩
  rw [listReply_cons, drop_append, drop_eq_nil_of_le (by omega), nil_append]

/-- From inside the records, or before a record that is there, the entries are not found: the last of
them would end inside the end of the listing. -/
theorem Lists.of_reply {k : Nat} (h : Lists ((listReply entries pad).drop k) entries) :
    k = 0 ∧ entries = [] := by
  induction entries generalizing k with
  | nil =>
    cases h with
    | done hl hi =>
      rw [listReply, flatMap_nil, nil_append] at hl hi
      refine ⟨?_, rfl⟩
      by_contra hk
      have hz := doneRecord_inside (Nat.pos_of_ne_zero hk) hl
      rw [hi] at hz
      exact absurd hz (by decide)
  | cons e entries ih =>
    cases h with
    | dent hd h =>
      obtain ⟨j, hj, hdj⟩ := listReply_drop entries pad (dent_overruns hd rfl)
      rw [drop_drop, ← Nat.add_assoc, hdj] at h
      exact absurd (ih h).1 (Nat.pos_iff_ne_zero.mp hj)

theorem doneRecord_header (hp : 4 ≤ pad) :
    ∃ behind, doneRecord pad = (SyncMessageHeader.mk syncDone 0).encode ++ behind := by
  obtain ⟨more, rfl⟩ := Nat.exists_eq_add_of_le hp
  refine ⟨replicate more 0, ?_⟩
  rw [doneRecord, replicate_add, ← append_assoc]
  rfl

theorem listServerLoop_empty (hp : 4 ≤ pad) (fuel : Nat) (hs : s.incoming = doneRecord pad) :
    ((listServerLoop (fuel + 1) []).runOn s).1 = .ok [] := by
  obtain ⟨behind, hdn⟩ := doneRecord_header hp
  have hh : Socket.Holds s.outgoing s ((SyncMessageHeader.mk syncDone 0).encode ++ behind) :=
    ⟨hs.trans hdn, rfl⟩
  obtain ⟨s1, hrd, -⟩ := Delivers.read_append (delivers s.outgoing) hh (encode_length _)
  have hd := decode_encode ⟨syncDone, 0⟩ []
  rw [append_nil] at hd
  have hr : readRawSync.runOn s = (.ok (⟨syncDone, 0⟩, []), s1) := by
    rw [readRawSync, size, runOn_bind_ok hrd, hd]
    rfl
  rw [listServerLoop, runOn_bind_ok hr]
  rfl

theorem listServerInner_exact_iff {remotePath : Text}
    (hpt : validatePath remotePath true = .ok ()) (hp : 4 ≤ pad) (fuel : Nat) (outgoing : Bytes) (atEnd : LinkStop) :
    ((listServerInner (fuel + 1) remotePath).runOn
        ⟨listReply entries pad, outgoing, atEnd⟩).1 = .ok entries ↔ entries = [] := by
  have hr : buildSyncListReq remotePath = .ok (syncMessage syncList (textBytes remotePath)) :=
    buildSyncPathReq_ok hpt syncList
  rw [listServerInner, hr]
  constructor
  · intro h
    obtain ⟨more, rfl, hl⟩ := listServerLoop_lists h
    exact (Lists.of_reply (k := 0) hl).2
  · rintro rfl
    exact listServerLoop_empty hp fuel rfl

/-- Behind the acknowledgement of the request, DONE comes with its eight bytes in one piece, and no
byte of it came before. -/
def DoneApart (frames : List DeviceFrame) : Prop :=
  ∃ early k payload later,
    frames = early ++ .okay :: (List.replicate k .okay ++ .wrte payload :: later) ∧
    DeviceFrame.acks early = 0 ∧ DeviceFrame.bytes early = [] ∧ 8 ≤ payload.length

section

variable (ids : StreamIds) (entries : List RemoteEntry)

theorem listDirectTurn_wrte (payload : Bytes) (sent : List AdbPacket) :
    (listDirectTurn ids entries ((wrte payload).packet ids)).runOn ⟨[], sent⟩
      = (if payload.length < 8 then .error (.failed "Sync response too short during list".toList)
          else listMessage (u32At payload 0) (payload.drop 8) entries,
        ⟨[], sent ++ [ids.ack]⟩) := by
  have hc : ((wrte payload).packet ids).header.command = aWrte := rfl
  have hp : ((wrte payload).packet ids).payload = payload := rfl
  rw [listDirectTurn, hc, hp, if_neg (by decide), if_pos rfl]
  by_cases hs : payload.length < 8
  · rw [if_pos hs, if_pos hs]
    rfl
  · rw [if_neg hs, if_neg hs, decode_of_length (Nat.not_lt.mp hs)]
    rfl

theorem listDirectLoop_okays (k : Nat) (entries : List RemoteEntry) (frames : List DeviceFrame)
    (out : Outbox) :
    loopFrom (fun e => e) (listDirectTurn ids) entries
        (inbox ids (List.replicate k .okay ++ frames)) out
      = loopFrom (fun e => e) (listDirectTurn ids) entries (inbox ids frames) out := by
  induction k with
  | zero => rfl
  | succ k ih => exact ih

variable {entries} {remotePath : Text}

theorem listDirectInner_eq (hp : validatePath remotePath true = .ok ()) :
    listDirectInner ids remotePath = (do
      sendWrte ids (syncMessage syncList (textBytes remotePath))
      loop (fun e => e) (listDirectTurn ids) []) := by
  have hr : buildSyncListReq remotePath = .ok (syncMessage syncList (textBytes remotePath)) :=
    buildSyncPathReq_ok hp syncList
  rw [listDirectInner, hr]

variable {link : Link} {frames : List DeviceFrame}

theorem listDirectInner_starts (hp : validatePath remotePath true = .ok ())
    {early : List DeviceFrame} (he : acks early = 0) (k : Nat) {tail : List DeviceFrame}
    (h : link.Carries ids (early ++ .okay :: (List.replicate k .okay ++ tail))) :
    ∃ sent, (listDirectInner ids remotePath).runOn link
      = loopFrom (fun e => e) (listDirectTurn ids) [] (inbox ids tail) ⟨[], sent⟩ := by
  obtain ⟨⟨inbox, faults, sent⟩, hs, hi, ho⟩ := sendWrte_run ids he h
    (syncMessage syncList (textBytes remotePath))
  subst hi
  cases ho
  refine ⟨sent, ?_⟩
  rw [listDirectInner_eq ids hp, runOn_bind_ok hs, loop, runOn_ofRun, listDirectLoop_okays]

theorem listDirectInner_starved (hp : validatePath remotePath true = .ok ())
    (ha : acks frames = 0) (h : link.Carries ids frames) :
    ((listDirectInner ids remotePath).runOn link).1 = .error .waiting := by
  have hw := sendWrte_starved ids ha h (syncMessage syncList (textBytes remotePath))
  rw [listDirectInner_eq ids hp, runOn_bind]
  rcases hr : (sendWrte ids (syncMessage syncList (textBytes remotePath))).runOn link
    with ⟨r, link1⟩
  rw [hr] at hw
  cases hw
  rfl

theorem u32At_append {front : Bytes} {off : Nat} (h : off + 4 ≤ front.length)
    (back : Bytes) : u32At (front ++ back) off = u32At front off := by
  rw [u32At, u32At, slice_append_left h]

/-- What the direct loop returns it has listed from the payloads. -/
theorem listDirectLoop_lists {result : List RemoteEntry} {sent : List AdbPacket}
    (h : (loopFrom (fun e => e) (listDirectTurn ids) entries (inbox ids frames) ⟨[], sent⟩).1
      = .ok result) :
    ∃ more, result = entries ++ more ∧ Lists (bytes frames) more ∧
      ∀ payload later, frames = .wrte payload :: later → 8 ≤ payload.length := by
  induction frames generalizing entries sent with
  | nil => cases h
  | cons frame frames ih =>
    cases frame with
    | okay =>
      obtain ⟨more, hm, hl, -⟩ := ih h
      exact ⟨more, hm, hl, nofun⟩
    | wrte payload =>
      rw [inbox_cons, loopFrom, listDirectTurn_wrte] at h
      by_cases hs : payload.length < 8
      · rw [if_pos hs] at h
        cases h
      rw [if_neg hs] at h
      have hl := Nat.not_lt.mp hs
      have hr : bytes (.wrte payload :: frames) = payload ++ bytes frames := rfl
      have hw : ∀ body later, DeviceFrame.wrte payload :: frames = .wrte body :: later →
          8 ≤ body.length := by
        rintro body later ⟨⟩
        exact hl
      cases hm : listMessage (u32At payload 0) (payload.drop 8) entries with
      | error e =>
        rw [hm] at h
        cases h
      | ok turn =>
        rw [hm] at h
        obtain ⟨hdn, rfl⟩ | ⟨dent, hd, rfl⟩ := listMessage_eq_ok hm
        · cases h
          refine ⟨[], (append_nil _).symm, .done ?_ ?_, hw⟩
          · rw [hr, length_append]
            omega
          · rw [hr, u32At_append (by omega), hdn]
        · obtain ⟨more, rfl, hls, -⟩ := ih h
          refine ⟨dent.entry :: more, (append_cons ..).symm, ?_, hw⟩
          refine .dent (n := payload.length - 8) ?_ ?_
          · rw [hr, drop_append_of_le_length hl, take_left' (by rw [length_drop]), hd]
          · rw [hr, Nat.add_sub_cancel' hl, drop_left]
            exact hls

theorem listDirectLoop_done {payload : Bytes} {later : List DeviceFrame}
    (hb : bytes (.wrte payload :: later) = doneRecord pad) (hl : 8 ≤ payload.length)
    (sent : List AdbPacket) :
    (loopFrom (fun e => e) (listDirectTurn ids) []
        (inbox ids (.wrte payload :: later)) ⟨[], sent⟩).1 = .ok [] := by
  have hr : bytes (.wrte payload :: later) = payload ++ bytes later := rfl
  have hst : (doneRecord pad).drop 0 = u32Le syncDone ++ replicate pad 0 := rfl
  have hi : u32At payload 0 = syncDone := by
    rw [← u32At_append (by omega) (bytes later), ← hr, hb]
    exact u32At_of_drop hst
  rw [inbox_cons, loopFrom, listDirectTurn_wrte, if_neg (Nat.not_lt.mpr hl), hi]
  rfl

/-- A direct listing is right exactly for a directory without entries whose end comes apart. -/
theorem listDirectInner_exact_iff (hp : validatePath remotePath true = .ok ())
    (hb : bytes frames = listReply entries pad) (h : link.Carries ids frames) :
    ((listDirectInner ids remotePath).runOn link).1 = .ok entries ↔ entries = [] ∧ DoneApart frames := by
  have hs {early tail : List DeviceFrame} {k : Nat}
      (hf : frames = early ++ .okay :: (replicate k .okay ++ tail)) :
      bytes early ++ bytes tail = listReply entries pad := by
    rw [← hb, hf]
    simp [DeviceFrame.payload, bytes, flatMap_replicate]
  constructor
  · intro ho
    rcases Nat.eq_zero_or_pos (acks frames) with hn | hsm
    · rw [listDirectInner_starved ids hp hn h] at ho
      cases ho
    obtain ⟨early, tail, rfl, he⟩ := split_at_ack hsm
    rcases split_at_wrte tail with ⟨k, rfl⟩ | ⟨k, payload, later, rfl⟩
    · rw [← append_nil (replicate k okay)] at h
      obtain ⟨sent, hr⟩ := listDirectInner_starts ids hp he k h
      rw [hr] at ho
      cases ho
    · obtain ⟨sent, hr⟩ := listDirectInner_starts ids hp he k h
      rw [hr] at ho
      obtain ⟨_, rfl, hls, hl⟩ := listDirectLoop_lists ids ho
      have hd : bytes (.wrte payload :: later) = (listReply entries pad).drop (bytes early).length := by
        rw [← hs rfl, drop_left]
      obtain ⟨hz, rfl⟩ := Lists.of_reply (hd ▸ hls)
      exact ⟨rfl, early, k, payload, later, rfl, he, length_eq_zero_iff.mp hz, hl payload later rfl⟩
  · rintro ⟨rfl, early, k, payload, later, hf, he, hn, hl⟩
    have hd := hs hf
    subst hf
    rw [hn, nil_append] at hd
    obtain ⟨sent, hr⟩ := listDirectInner_starts ids hp he k h
    rw [hr]
    exact listDirectLoop_done ids hd hl sent

end

/-- Each of the two listings gives exactly the entries only of a directory that has none, the direct one
if moreover the end comes apart. -/
theorem list_exact_iff (ids : StreamIds) {remotePath : Text}
    (hpath : validatePath remotePath true = .ok ()) (entries : List RemoteEntry) {pad : Nat}
    (hpad : 4 ≤ pad) {frames : List DeviceFrame}
    (hbytes : DeviceFrame.bytes frames = listReply entries pad) (sent : List AdbPacket) (fuel : Nat)
    (outgoing : List UInt8) (atEnd : LinkStop) :
    (((listServerInner (fuel + 1) remotePath).runOn
          ⟨listReply entries pad, outgoing, atEnd⟩).1 = .ok entries ↔ entries = []) ∧
      (((listDirectInner ids remotePath).runOn
          ⟨DeviceFrame.inbox ids frames, ⟨[], sent⟩⟩).1 = .ok entries ↔
        entries = [] ∧ DoneApart frames) :=
  ⟨listServerInner_exact_iff hpath hpad fuel outgoing atEnd,
    listDirectInner_exact_iff ids hpath hbytes ⟨rfl, rfl⟩⟩

theorem list_exact_iff_empty_directory :
    ((listServerInner 1 "/d".toList).runOn ⟨listReply [] 4, [], .waiting⟩).1 = .ok [] ∧
      ((listDirectInner ⟨1, 2⟩ "/d".toList).runOn
        ⟨DeviceFrame.inbox ⟨1, 2⟩ [.okay, .wrte (listReply [] 4)], ⟨[], []⟩⟩).1 = .ok [] := by
  have hp : validatePath "/d".toList true = .ok () := rfl
  have hb : bytes [.okay, .wrte (listReply [] 4)] = listReply [] 4 := rfl
  obtain ⟨hs, hd⟩ := list_exact_iff ⟨1, 2⟩ hp [] (Nat.le_refl 4) hb [] 0 [] .waiting
  exact ⟨hs.mpr rfl, hd.mpr ⟨rfl, [], 0, listReply [] 4, [], rfl, rfl, rfl, Nat.le_refl 8⟩⟩

/-- One file of mode 0644: through the server the mode is waited for as so many bytes, and on the
direct channel the letters of the name are taken for its length. -/
theorem list_not_exact_one_file : ((listServerInner 2 "/d".toList).runOn
        ⟨listReply [⟨0o100644, 512, 1720000000, "file.txt".toList⟩] 16, [], .waiting⟩).1
      = .error .waiting ∧
    ((listDirectInner ⟨1, 2⟩ "/d".toList).runOn ⟨DeviceFrame.inbox ⟨1, 2⟩ [.okay,
          .wrte (listReply [⟨0o100644, 512, 1720000000, "file.txt".toList⟩] 16)], ⟨[], []⟩⟩).1
      ≠ .ok [⟨0o100644, 512, 1720000000, "file.txt".toList⟩] := by
  refine ⟨rfl, ?_⟩
  intro h
  cases h

end AdbFastboot
