import AdbFastboot.LexicalPath
import AdbFastboot.SyncReader

namespace AdbFastboot

open StateCall SyncMessageHeader DeviceFrame List

def maxChunk : Nat := 64 * 1024

structure FileStat where
  mode : UInt32
  size : UInt32
  mtime : UInt32
deriving DecidableEq, Repr

section

variable {σ : Type} (read : Nat → StateCall σ LinkStop Bytes)

def readPullResponse : StateCall σ LinkStop (SyncMessageHeader × Bytes) := do
  let buf ← read SyncMessageHeader.size
  match SyncMessageHeader.decode buf with
  | .error e => throw (.failed e.text)
  | .ok header =>
    if header.id = syncData ∨ header.id = syncFail then
      if maxChunk < header.length.toNat then
        throw (.failed "SYNC DATA/FAIL length exceeds 64 KiB".toList)
      else do
        let payload ← read header.length.toNat
        pure (header, payload)
    else if (header.id = syncDone ∨ header.id = syncOkay) ∧ header.length = 0 then pure (header, [])
    else throw (.failed ("Unexpected sync id/size ".toList ++ (hexText header.id).toList ++ '/'
      :: decimal header.length.toNat ++ " during pull".toList))

def readStatResponse : StateCall σ LinkStop FileStat := do
  let front ← read 4
  let id := u32OfLe front
  if id = syncFail then do
    let word ← read 4
    let length := (u32OfLe word).toNat
    if maxChunk < length then throw (.failed "SYNC FAIL length exceeds 64 KiB".toList)
    else do
      let message ← read length
      throw (.failed ("Sync FAIL during stat: ".toList ++ lossyText message))
  else if id ≠ syncStat then
    throw (.failed ("Unexpected sync id ".toList ++ (hexText id).toList ++ " during stat".toList))
  else do
    let body ← read 12
    match SyncStatResponse.decodeV1Message (front ++ body) with
    | .error e => throw (.failed e.text)
    | .ok st =>
      if st.exists? then pure ⟨st.mode, st.size, st.mtime⟩
      else throw (.failed
        "STAT request returned no result: remote path unavailable".toList)

/-- The loop of a pull. `read_pull_response` lets DATA, FAIL, DONE and OKAY pass. -/
def pullLoop : Nat → Bytes → StateCall σ LinkStop Bytes
  | 0, _ => throw .running
  | fuel + 1, fileData => do
    let response ← readPullResponse read
    if response.1.id = syncData then pullLoop fuel (fileData ++ response.2)
    else if response.1.id = syncDone ∨ response.1.id = syncOkay then pure fileData
    else throw (.failed ("Sync FAIL during pull: ".toList ++ lossyText response.2))

variable (request : Bytes → StateCall σ LinkStop Unit)

def statOver (describe : Text → Text) (path : Text) : StateCall σ LinkStop FileStat :=
  match buildSyncStatReq path with
  | .error e => throw (.failed (describe e.text))
  | .ok req => do
    request req
    readStatResponse read

def pullOver (describe : Text → Text) (fuel : Nat) (remote : Text) (preserve : Bool) :
    StateCall σ LinkStop (Bytes × Option FileStat) := do
  let attrs ← if preserve then do
      let st ← statOver read request describe remote
      pure (some st)
    else pure none
  match buildSyncRecvReq remote with
  | .error e => throw (.failed ("Build RECV req failed: ".toList ++ e.text))
  | .ok req => do
    request req
    let fileData ← pullLoop read fuel []
    pure (fileData, attrs)

end

/-- The local file system: what it answers to a call, `none` where the call works. -/
structure LocalHost where
  createDirAll : Text → Option Text
  write : Text → Bytes → Option Text
  setTimeAndMode : Text → UInt32 → UInt32 → Option Text

inductive FileEvent where
  | createDir (path : Text)
  | write (path : Text) (content : Bytes)
  | setTimeAndMode (path : Text) (mtime mode : UInt32)
deriving DecidableEq, Repr

def FileEvent.written : FileEvent → Option (Text × Bytes)
  | .write path content => some (path, content)
  | _ => none

structure PullOutcome where
  result : Except LinkStop Unit
  files : List FileEvent

namespace LocalHost

variable (host : LocalHost)

def createParent (path : Text) : Option Text × List FileEvent :=
  match pathParent path with
  | none => (none, [])
  | some parent =>
    ((host.createDirAll parent).map fun e =>
      "Cannot create directory '".toList ++ parent ++ "': ".toList ++ e, [.createDir parent])

def storeAttrs (path : Text) : Option FileStat → Except LinkStop Unit × List FileEvent
  | none => (.ok (), [])
  | some st =>
    ((match host.setTimeAndMode path st.mtime st.mode with
      | some e => .error (.failed e)
      | none => .ok ()), [.setTimeAndMode path st.mtime st.mode])

def store (path : Text) (data : Bytes) (attrs : Option FileStat) : PullOutcome :=
  match host.createParent path with
  | (some e, events) => ⟨.error (.failed e), events⟩
  | (none, events) =>
    match host.write path data with
    | some e => ⟨.error (.failed ("Cannot write local file '".toList ++ path ++ "': ".toList ++ e)),
        events ++ [.write path data]⟩
    | none => ⟨(host.storeAttrs path attrs).1,
        events ++ .write path data :: (host.storeAttrs path attrs).2⟩

def finishPull (path : Text) : Except LinkStop (Bytes × Option FileStat) → PullOutcome
  | .error e => ⟨.error e, []⟩
  | .ok (data, attrs) => host.store path data attrs

theorem store_written {path : Text} (h : (host.createParent path).1 = none) (data : Bytes)
    (attrs : Option FileStat) :
    (host.store path data attrs).files.filterMap FileEvent.written = [(path, data)] := by
  have hp : (host.createParent path).2.filterMap FileEvent.written = [] := by
    rw [createParent]
    split <;> rfl
  have ha : (host.storeAttrs path attrs).2.filterMap FileEvent.written = [] := by
    cases attrs <;> rfl
  rcases hc : host.createParent path with ⟨e, events⟩
  rw [hc] at h hp
  simp only at h hp
  rw [store, hc, h]
  simp only
  split
  next => simp [hp, FileEvent.written]
  next => simp [hp, ha, FileEvent.written]

end LocalHost

def pullFileDirect (host : LocalHost) (ids : StreamIds) (fuel : Nat) (remote path : Text)
    (preserve : Bool) (link : Link) : PullOutcome × Link :=
  let run := (pullOver (DirectSyncReader.readExact ids) (DirectSyncReader.sendRequest ids)
    (fun e => e) fuel remote preserve).runOn (.new link)
  (host.finishPull path run.1, run.2.link)

def pullFileServer (host : LocalHost) (fuel : Nat) (remote path : Text) (preserve : Bool)
    (socket : Socket) : PullOutcome × Socket :=
  let run := (pullOver Socket.readExact Socket.writeRawSync
    (fun e => "Build STAT req failed: ".toList ++ e) fuel remote preserve).runOn socket
  (host.finishPull path run.1, run.2)

inductive PullEnd where
  | done
  | fail (message : Bytes)

def PullEnd.wire : PullEnd → Bytes
  | .done => (SyncMessageHeader.mk syncDone 0).encode
  | .fail message => syncMessage syncFail message

def pullReply (chunks : List Bytes) (ending : PullEnd) : Bytes :=
  chunks.flatMap (syncMessage syncData) ++ ending.wire

def PullEnd.expected (chunks : List Bytes) (attrs : Option FileStat) :
    PullEnd → Except LinkStop (Bytes × Option FileStat)
  | .done => .ok (chunks.flatten, attrs)
  | .fail message => .error (.failed ("Sync FAIL during pull: ".toList ++ lossyText message))

section

variable {σ : Type} {read : Nat → StateCall σ LinkStop Bytes}
  {holds : σ → Bytes → Prop} {s : σ}

variable {back : Bytes} {chunks : List Bytes} {ending : PullEnd}

section

variable {id : UInt32} (h : Delivers read holds) (hid : id = syncData ∨ id = syncFail)
include h hid

/-- A message of at most 64 KiB is read whole. -/
theorem readPullResponse_message {body : Bytes} (hl : body.length ≤ maxChunk)
    (hs : holds s (syncMessage id body ++ back)) :
    ∃ s', (readPullResponse read).runOn s
        = (.ok (⟨id, UInt32.ofNat body.length⟩, body), s') ∧ holds s' back := by
  have hln : (UInt32.ofNat body.length).toNat = body.length := by
    rw [UInt32.toNat_ofNat', Nat.mod_eq_of_lt (Nat.lt_of_le_of_lt hl (by decide))]
  rw [syncMessage, append_assoc] at hs
  obtain ⟨s1, hr, hs1⟩ := h.read_append hs (encode_length _)
  obtain ⟨s2, hb, hs2⟩ := h.read_append hs1 hln.symm
  have hd := decode_encode ⟨id, UInt32.ofNat body.length⟩ []
  rw [append_nil] at hd
  refine ⟨s2, ?_, hs2⟩
  rw [readPullResponse, size, runOn_bind_ok hr, hd]
  simp only
  rw [if_pos hid, if_neg (by rw [hln]; exact Nat.not_lt.mpr hl), runOn_bind_ok hb]
  rfl

/-- A longer message is refused before its body is read. -/
theorem readPullResponse_oversize {body : Bytes} (hl : maxChunk < body.length)
    (hf : body.length < 2 ^ 32) (hs : holds s (syncMessage id body ++ back)) :
    ∃ s', (readPullResponse read).runOn s
        = (.error (.failed "SYNC DATA/FAIL length exceeds 64 KiB".toList), s') := by
  have hln : (UInt32.ofNat body.length).toNat = body.length := by
    rw [UInt32.toNat_ofNat', Nat.mod_eq_of_lt hf]
  rw [syncMessage, append_assoc] at hs
  obtain ⟨s1, hr, -⟩ := h.read_append hs (encode_length _)
  have hd := decode_encode ⟨id, UInt32.ofNat body.length⟩ []
  rw [append_nil] at hd
  refine ⟨s1, ?_⟩
  rw [readPullResponse, size, runOn_bind_ok hr, hd]
  simp only
  rw [if_pos hid, if_pos (by rw [hln]; exact hl)]
  rfl

end

theorem readPullResponse_done (h : Delivers read holds) (hs : holds s (PullEnd.done.wire ++ back)) :
    ∃ s', (readPullResponse read).runOn s = (.ok (⟨syncDone, 0⟩, []), s') ∧ holds s' back := by
  obtain ⟨s1, hr, hs1⟩ := h.read_append hs (encode_length _)
  have hd := decode_encode ⟨syncDone, 0⟩ []
  rw [append_nil] at hd
  refine ⟨s1, ?_, hs1⟩
  rw [readPullResponse, size, runOn_bind_ok hr, PullEnd.wire, hd]
  rfl

variable {fuel : Nat} {st : SyncStatResponse}

/-- The loop collects the chunks, and ends as the reply does. -/
theorem pullLoop_run (h : Delivers read holds) (hchunks : ∀ chunk ∈ chunks, chunk.length ≤ maxChunk)
    (hending : ∀ message, ending = .fail message → message.length ≤ maxChunk)
    (hs : holds s (pullReply chunks ending ++ back)) (hfuel : chunks.length < fuel)
    (fileData : Bytes) :
    ∃ s', (pullLoop read fuel fileData).runOn s
        = ((ending.expected chunks none).map fun r => fileData ++ r.1, s') ∧ holds s' back := by
  obtain ⟨fuel, rfl⟩ : ∃ k, fuel = k + 1 := ⟨fuel - 1, by omega⟩
  induction chunks generalizing s fuel fileData with
  | nil =>
    cases ending with
    | done =>
      obtain ⟨s1, hr, hs1⟩ := readPullResponse_done h hs
      refine ⟨s1, ?_, hs1⟩
      rw [pullLoop, runOn_bind_ok hr]
      simp [PullEnd.expected, Except.map, syncDone, syncData]
    | fail message =>
      obtain ⟨s1, hr, hs1⟩ :=
        readPullResponse_message h (.inr rfl) (hending message rfl) hs
      refine ⟨s1, ?_, hs1⟩
      rw [pullLoop, runOn_bind_ok hr]
      simp [PullEnd.expected, Except.map, syncDone, syncData, syncFail, syncOkay]
  | cons chunk chunks ih =>
    rw [forall_mem_cons] at hchunks
    rw [length_cons] at hfuel
    obtain ⟨fuel, rfl⟩ : ∃ k, fuel = k + 1 := ⟨fuel - 1, by omega⟩
    have hc : pullReply (chunk :: chunks) ending ++ back
        = syncMessage syncData chunk ++ (pullReply chunks ending ++ back) := by
      simp [pullReply]
    rw [hc] at hs
    obtain ⟨s1, hr, hs1⟩ := readPullResponse_message h (.inl rfl) hchunks.1 hs
    obtain ⟨s2, hl, hs2⟩ := ih hchunks.2 hs1 (fileData ++ chunk) fuel (by omega)
    refine ⟨s2, ?_, hs2⟩
    rw [pullLoop, runOn_bind_ok hr]
    simp only [↓reduceIte]
    rw [hl]
    cases ending <;> simp [PullEnd.expected, Except.map]

/-- What a STAT comes to: a device that has nothing there answers with zeros. -/
def SyncStatResponse.answer (st : SyncStatResponse) : Except LinkStop FileStat :=
  if st.exists? then .ok ⟨st.mode, st.size, st.mtime⟩
  else .error (.failed "STAT request returned no result: remote path unavailable".toList)

theorem readStatResponse_wire (h : Delivers read holds) (hs : holds s (st.wire ++ back)) :
    ∃ s', (readStatResponse read).runOn s = (st.answer, s') ∧ holds s' back := by
  have hd := st.decodeV1Message_wire
  rw [SyncStatResponse.wire] at hs hd
  rw [append_assoc (u32Le syncStat)] at hs
  obtain ⟨s1, hr, hs1⟩ := h.read_append (n := 4) hs (u32Le_length _)
  obtain ⟨s2, hb, hs2⟩ := h.read_append (n := 12) hs1 (by simp)
  refine ⟨s2, ?_, hs2⟩
  rw [readStatResponse, runOn_bind_ok hr]
  rw [if_neg (by decide), if_neg (by decide), runOn_bind_ok hb, hd]
  simp only [SyncStatResponse.answer]
  split <;> rfl

variable {request : Bytes → StateCall σ LinkStop Unit} {before between after : σ → Prop}
  {remote : Text} {req : Bytes}

theorem statOver_run (h : Answers read request before after req st.wire)
    (hreq : buildSyncStatReq remote = .ok req) (describe : Text → Text) (hs : before s) :
    ∃ s', (statOver read request describe remote).runOn s = (st.answer, s') ∧ after s' := by
  obtain ⟨holds, hd, hrq, ha⟩ := h
  obtain ⟨s1, hsn, hs1⟩ := hrq s hs
  obtain ⟨s2, hr, hs2⟩ := readStatResponse_wire hd hs1
  refine ⟨s2, ?_, ha s2 hs2⟩
  rw [statOver, hreq]
  rw [runOn_bind_ok hsn, hr]

theorem pullOver_recv (hchunks : ∀ chunk ∈ chunks, chunk.length ≤ maxChunk)
    (hending : ∀ message, ending = .fail message → message.length ≤ maxChunk)
    (h : Answers read request before after req (pullReply chunks ending))
    (hfuel : chunks.length < fuel) (attrs : Option FileStat) (hs : before s) :
    ∃ s', (do
        request req
        let fileData ← pullLoop read fuel []
        pure (fileData, attrs)).runOn s = (ending.expected chunks attrs, s') ∧ after s' := by
  obtain ⟨holds, hd, hr, ha⟩ := h
  obtain ⟨s1, hsn, hs1⟩ := hr s hs
  rw [← append_nil (pullReply chunks ending)] at hs1
  obtain ⟨s2, hl, hs2⟩ := pullLoop_run hd hchunks hending hs1 hfuel []
  refine ⟨s2, ?_, ha s2 hs2⟩
  rw [runOn_bind_ok hsn]
  cases ending with
  | done =>
    rw [runOn_bind_ok (a := chunks.flatten) (by rw [hl]; rfl)]
    rfl
  | fail message =>
    rw [runOn_bind_error
      (e := .failed ("Sync FAIL during pull: ".toList ++ lossyText message)) (by rw [hl]; rfl)]
    rfl

theorem pullLoop_oversize {holds : σ → Bytes → Prop} (h : Delivers read holds)
    {message : Bytes} (hl : maxChunk < message.length) (hf : message.length < 2 ^ 32)
    (hs : holds s (pullReply [] (.fail message))) (fuel : Nat) (fileData : Bytes) :
    ∃ s', (pullLoop read (fuel + 1) fileData).runOn s
      = (.error (.failed "SYNC DATA/FAIL length exceeds 64 KiB".toList), s') := by
  rw [pullReply, flatMap_nil, nil_append, PullEnd.wire, ← append_nil (syncMessage syncFail message)] at hs
  obtain ⟨s', hr⟩ := readPullResponse_oversize h (.inr rfl) hl hf hs
  refine ⟨s', ?_⟩
  rw [pullLoop, runOn_bind_error hr]

variable (hchunks : ∀ chunk ∈ chunks, chunk.length ≤ maxChunk)
  (hending : ∀ message, ending = .fail message → message.length ≤ maxChunk)
include hchunks hending

theorem pullOver_plain (hreq : buildSyncRecvReq remote = .ok req)
    (h : Answers read request before after req (pullReply chunks ending))
    (hfuel : chunks.length < fuel) (describe : Text → Text) (hs : before s) :
    ∃ s', (pullOver read request describe fuel remote false).runOn s
        = (ending.expected chunks none, s') ∧ after s' := by
  obtain ⟨s', hr, hs'⟩ := pullOver_recv hchunks hending h hfuel none hs
  refine ⟨s', ?_, hs'⟩
  rw [pullOver, if_neg Bool.false_ne_true, runOn_bind_ok (runOn_pure none s), hreq]
  exact hr

theorem pullOver_preserve (hst : st.exists? = true) {statReq : Bytes}
    (hsr : buildSyncStatReq remote = .ok statReq)
    (hsta : Answers read request before between statReq st.wire)
    (hreq : buildSyncRecvReq remote = .ok req)
    (h : Answers read request between after req (pullReply chunks ending))
    (hfuel : chunks.length < fuel) (describe : Text → Text) (hs : before s) :
    ∃ s', (pullOver read request describe fuel remote true).runOn s
        = (ending.expected chunks (some ⟨st.mode, st.size, st.mtime⟩), s') ∧ after s' := by
  obtain ⟨s1, hsd, hs1⟩ := statOver_run hsta hsr describe hs
  rw [SyncStatResponse.answer, if_pos hst] at hsd
  obtain ⟨s', hr, hs'⟩ := pullOver_recv hchunks hending h hfuel
    (some ⟨st.mode, st.size, st.mtime⟩) hs1
  refine ⟨s', ?_, hs'⟩
  rw [pullOver, if_pos rfl, runOn_bind_ok hsd, runOn_bind_ok (runOn_pure _ s1), hreq]
  exact hr

end

structure StatReply where
  st : SyncStatResponse
  there : st.exists? = true
  reply : DeviceReply st.wire

namespace StatReply

def attrs (q : StatReply) : FileStat := ⟨q.st.mode, q.st.size, q.st.mtime⟩

def frames : Option StatReply → List DeviceFrame
  | none => []
  | some q => q.reply.frames

def wire : Option StatReply → Bytes
  | none => []
  | some q => q.st.wire

def log (ids : StreamIds) (remote : Text) : Option StatReply → List AdbPacket
  | none => []
  | some q => q.reply.log ids (syncMessage syncStat (textBytes remote))

end StatReply

theorem buildSyncPathReq_ok {remote : Text} (h : validatePath remote true = .ok ()) (id : UInt32) :
    buildSyncPathReq id remote = .ok (syncMessage id (textBytes remote)) := by
  rw [buildSyncPathReq, h]
  rfl

section

variable (host : LocalHost) {remote : Text} (hremote : validatePath remote true = .ok ())
  (path : Text) {chunks : List Bytes}
  (hchunks : ∀ chunk ∈ chunks, chunk.length ≤ maxChunk) {ending : PullEnd}
  (hending : ∀ message, ending = .fail message → message.length ≤ maxChunk)
  (stat : Option StatReply) {fuel : Nat} (hfuel : chunks.length < fuel)

include hremote hchunks hending hfuel

/-- The direct pull ends as the reply says, and leaves what is behind it. -/
theorem pullFileDirect_run (ids : StreamIds) (d : DeviceReply (pullReply chunks ending))
    (rest : List (Except Text AdbPacket)) (sent : List AdbPacket) :
    pullFileDirect host ids fuel remote path stat.isSome
        ⟨inbox ids (StatReply.frames stat ++ d.frames) ++ rest, ⟨[], sent⟩⟩
      = (host.finishPull path (ending.expected chunks (stat.map StatReply.attrs)),
          ⟨rest, ⟨[], sent ++ StatReply.log ids remote stat
            ++ d.log ids (syncMessage syncRecv (textBytes remote))⟩⟩) := by
  have hrc := buildSyncPathReq_ok hremote syncRecv
  rw [inbox_append, append_assoc]
  cases stat with
  | none =>
    obtain ⟨r, hr, -, hl⟩ := pullOver_plain hchunks hending hrc
      (d.answers ids rest sent _) hfuel (fun e => e) (s := .new _) ⟨rfl, rfl⟩
    rw [pullFileDirect]
    simp only [StatReply.frames, inbox_nil, nil_append, Option.isSome_none,
      Option.map_none, StatReply.log, append_nil]
    rw [hr, hl]
  | some q =>
    obtain ⟨r, hr, -, hl⟩ := pullOver_preserve hchunks hending q.there
      (buildSyncPathReq_ok hremote syncStat) (q.reply.answers ids _ sent _) hrc
      (d.answers ids rest _ _) hfuel (fun e => e) (s := .new _) ⟨rfl, rfl⟩
    rw [pullFileDirect]
    simp only [StatReply.frames, Option.isSome_some, Option.map_some, StatReply.log]
    rw [hr, hl]
    rfl

/-- The pull through the server ends as the reply says. -/
theorem pullFileServer_run (outgoing more : Bytes) (atEnd : LinkStop) :
    (pullFileServer host fuel remote path stat.isSome
        ⟨StatReply.wire stat ++ (pullReply chunks ending ++ more), outgoing, atEnd⟩).1
      = host.finishPull path (ending.expected chunks (stat.map StatReply.attrs)) := by
  have hrc := buildSyncPathReq_ok hremote syncRecv
  cases stat with
  | none =>
    obtain ⟨s, hr, -⟩ := pullOver_plain hchunks hending hrc (Socket.answers outgoing _ _ more) hfuel
      (fun e => "Build STAT req failed: ".toList ++ e) (s := ⟨_, outgoing, atEnd⟩) ⟨rfl, rfl⟩
    rw [pullFileServer]
    simp only [StatReply.wire, nil_append, Option.isSome_none, Option.map_none]
    rw [hr]
  | some q =>
    obtain ⟨s, hr, -⟩ := pullOver_preserve hchunks hending q.there
      (buildSyncPathReq_ok hremote syncStat) (Socket.answers outgoing _ _ _) hrc
      (Socket.answers _ _ _ more) hfuel
      (fun e => "Build STAT req failed: ".toList ++ e) (s := ⟨_, outgoing, atEnd⟩) ⟨rfl, rfl⟩
    rw [pullFileServer]
    simp only [StatReply.wire, Option.isSome_some, Option.map_some]
    rw [hr]
    rfl

/-- However a reply is cut, a direct pull stores the bytes or fails with the message of the device,
acknowledges each WRTE once, and comes to what a pull through the server comes to. -/
theorem pullFileDirect_faithful (ids : StreamIds) (d : DeviceReply (pullReply chunks ending))
    (rest : List (Except Text AdbPacket)) (sent : List AdbPacket) (outgoing more : List UInt8)
    (atEnd : LinkStop) :
    ∃ outcome : PullOutcome, pullFileDirect host ids fuel remote path stat.isSome
          ⟨DeviceFrame.inbox ids (StatReply.frames stat ++ d.frames) ++ rest, ⟨[], sent⟩⟩
        = (outcome, ⟨rest, ⟨[], sent ++ StatReply.log ids remote stat
            ++ d.log ids (syncMessage syncRecv (textBytes remote))⟩⟩) ∧
      (pullFileServer host fuel remote path stat.isSome
          ⟨StatReply.wire stat ++ (pullReply chunks ending ++ more), outgoing, atEnd⟩).1
        = outcome ∧
      (ending = .done → outcome = host.store path chunks.flatten (stat.map StatReply.attrs) ∧
        ((host.createParent path).1 = none →
          outcome.files.filterMap FileEvent.written = [(path, chunks.flatten)])) ∧
      ∀ message, ending = .fail message → outcome
        = ⟨.error (.failed ("Sync FAIL during pull: ".toList ++ lossyText message)), []⟩ := by
  refine ⟨host.finishPull path (ending.expected chunks (stat.map StatReply.attrs)),
    pullFileDirect_run host hremote path hchunks hending stat hfuel ids d rest sent,
    pullFileServer_run host hremote path hchunks hending stat hfuel outgoing more atEnd, ?_, ?_⟩
  · rintro rfl
    exact ⟨rfl, fun hp => host.store_written hp _ _⟩
  · rintro message rfl
    rfl

end

theorem pullFileDirect_oversize (host : LocalHost) {remote : Text}
    (hremote : validatePath remote true = .ok ()) (path : Text) {message : Bytes}
    (hl : maxChunk < message.length) (hf : message.length < 2 ^ 32) (fuel : Nat)
    (ids : StreamIds) (d : DeviceReply (pullReply [] (.fail message))) :
    (pullFileDirect host ids (fuel + 1) remote path false ⟨inbox ids d.frames ++ [], ⟨[], []⟩⟩).1
      = ⟨.error (.failed "SYNC DATA/FAIL length exceeds 64 KiB".toList), []⟩ := by
  obtain ⟨holds, hd, hrq, -⟩ :=
    d.answers ids [] [] (syncMessage syncRecv (textBytes remote))
  obtain ⟨r1, hs, hr1⟩ := hrq (.new _) ⟨rfl, rfl⟩
  obtain ⟨r2, hlp⟩ := pullLoop_oversize hd hl hf hr1 fuel []
  have hrc : buildSyncRecvReq remote = .ok (syncMessage syncRecv (textBytes remote)) :=
    buildSyncPathReq_ok hremote syncRecv
  rw [pullFileDirect, pullOver, if_neg Bool.false_ne_true, runOn_bind_ok (runOn_pure none _), hrc]
  rw [runOn_bind_ok hs, runOn_bind_error hlp]
  rfl

def LocalHost.willing : LocalHost := ⟨fun _ => none, fun _ _ => none, fun _ _ _ => none⟩

/-- Two DATA frames, cut inside the first header. -/
theorem pullFileDirect_faithful_two_chunks : ∃ outcome : PullOutcome,
      pullFileDirect .willing ⟨1, 2⟩ 3 "/f".toList "f".toList false
          ⟨DeviceFrame.inbox ⟨1, 2⟩ (DeviceReply.cutAt (pullReply [[1, 2], [3]] .done) 5
            (by decide) (by decide)).frames ++ [], ⟨[], []⟩⟩
        = (outcome, ⟨[], ⟨[], (DeviceReply.cutAt (pullReply [[1, 2], [3]] .done) 5
            (by decide) (by decide)).log ⟨1, 2⟩ (syncMessage syncRecv (textBytes "/f".toList))⟩⟩) ∧
      outcome.files.filterMap FileEvent.written = [("f".toList, [1, 2, 3])] := by
  have hending : ∀ message, PullEnd.done = .fail message → message.length ≤ maxChunk := by
    intro message h
    cases h
  have hremote : validatePath "/f".toList true = .ok () := rfl
  have hchunks : ∀ chunk ∈ ([[1, 2], [3]] : List (List UInt8)), chunk.length ≤ maxChunk := by decide
  have hfuel : ([[1, 2], [3]] : List (List UInt8)).length < 3 := by decide
  obtain ⟨outcome, hd, -, hdn, -⟩ := pullFileDirect_faithful .willing hremote "f".toList
    hchunks hending none hfuel ⟨1, 2⟩ (.cutAt _ 5 (by decide) (by decide)) [] [] [] [] .waiting
  exact ⟨outcome, hd, (hdn rfl).2 rfl⟩

/-- A FAIL with one byte more than a chunk: the error does not carry the message. -/
theorem pullFileDirect_long_fail :
    ∃ (message : List UInt8) (d : DeviceReply (pullReply [] (.fail message))),
      message.length = 65537 ∧ (pullFileDirect .willing ⟨1, 2⟩ 1 "/f".toList "f".toList false
          ⟨DeviceFrame.inbox ⟨1, 2⟩ d.frames ++ [], ⟨[], []⟩⟩).1.result
        ≠ .error (.failed ("Sync FAIL during pull: ".toList ++ lossyText message)) := by
  obtain ⟨message, hm⟩ : ∃ message : List UInt8, message.length = 65537 :=
    ⟨replicate 65537 120, length_replicate⟩
  have hln : (pullReply [] (.fail message)).length = 65545 := by
    rw [pullReply, flatMap_nil, nil_append, PullEnd.wire, syncMessage_length, hm]
  have hmax : maxPayloadV2.toNat = 1048576 := rfl
  refine ⟨message, .cutAt _ 0 (by omega) (by omega), hm, ?_⟩
  have hremote : validatePath "/f".toList true = .ok () := rfl
  rw [pullFileDirect_oversize .willing hremote "f".toList (by rw [hm]; decide)
    (by rw [hm]; decide) 0 ⟨1, 2⟩]
  intro h
  have ht := LinkStop.failed.inj (Except.error.inj h)
  have hl := congrArg (fun text : Text => text[1]?) ht
  simp at hl

end AdbFastboot
