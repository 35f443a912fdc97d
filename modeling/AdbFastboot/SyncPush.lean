import AdbFastboot.SyncPull

namespace AdbFastboot

open DeviceFrame StateCall List Link DirectSyncReader Outbox

/-- Send a WRTE and wait for its acknowledgement. What the device sends meanwhile is acknowledged
and thrown away. -/
def sendWrteTurn (ids : StreamIds) (p : AdbPacket) : SendCall (LoopTurn Unit Unit) :=
  if p.header.command = aOkay then pure (.done ())
  else if p.header.command = aWrte then do
    let _ ← (send (AdbPacket.new aOkay ids.localId p.header.arg0 [])).attempt
    pure (.next ())
  else if p.header.command = aClse then throw (.failed "Connection closed by peer".toList)
  else pure (.next ())

def sendWrte (ids : StreamIds) (payload : Bytes) : LinkCall Unit := do
  Link.sending (send (AdbPacket.new aWrte ids.localId ids.remoteId payload))
  Link.loop (fun e => e) (fun _ => sendWrteTurn ids) ()

def judgeSyncResponse (payload : Bytes) : Except LinkStop Unit :=
  if payload.length < 8 then .error (.failed "Sync response too short".toList)
  else match SyncMessageHeader.decode payload with
    | .error e => .error (.failed ("Bad sync header: ".toList ++ e.text))
    | .ok header =>
      if header.id = syncOkay then .ok ()
      else if header.id = syncFail then
        .error (.failed ("Sync FAIL: ".toList ++ lossyText (payload.drop 8)))
      else .error (.failed ("Unexpected sync response id ".toList ++ (hexText header.id).toList))

def recvSyncTurn (ids : StreamIds) (p : AdbPacket) : SendCall (LoopTurn Unit Unit) :=
  if p.header.command = aOkay then pure (.next ())
  else if p.header.command = aWrte then do
    let _ ← (send (AdbPacket.new aOkay ids.localId p.header.arg0 [])).attempt
    let _ ← lift (judgeSyncResponse p.payload)
    pure (.done ())
  else if p.header.command = aClse then do
    let _ ← (send (AdbPacket.new aClse ids.localId p.header.arg0 [])).attempt
    throw (.failed "Sync connection closed".toList)
  else pure (.next ())

def recvSyncResponse (ids : StreamIds) : LinkCall Unit :=
  Link.loop (fun e => "recv sync response error: ".toList ++ e) (fun _ => recvSyncTurn ids) ()

def sendChunks (ids : StreamIds) : List Bytes → LinkCall Unit
  | [] => pure ()
  | chunk :: chunks =>
    match buildSyncDataChunk chunk with
    | .error e => throw (.failed ("Build DATA chunk failed: ".toList ++ e.text))
    | .ok buf => do
      sendWrte ids buf
      sendChunks ids chunks

def sendFile (ids : StreamIds) (target : Text) (mtime : UInt32) (data : Bytes) : LinkCall Unit :=
  match buildSyncSendReq target 0o644 with
  | .error e => throw (.failed ("Build SEND req failed: ".toList ++ e.text))
  | .ok req => do
    sendWrte ids req
    sendChunks ids (chunksOf maxChunk data)
    sendWrte ids (buildSyncDone mtime)
    recvSyncResponse ids

def FileStat.remoteExists (st : FileStat) : Bool := st.mode != 0 || st.size != 0 || st.mtime != 0

def FileStat.syncEqual (st : FileStat) (localMtime : UInt32) : Bool :=
  st.remoteExists && st.mtime == localMtime

def modeIsDir (mode : UInt32) : Bool := mode &&& 0o170000 == 0o040000

def localPushBasename (path : Text) : Except Text Text :=
  match pathFileName path with
  | some name => .ok name
  | none => .error ("cannot determine basename of local path '".toList ++ path ++ "'".toList)

def resolveRemoteFileTarget (remote : Text) (remoteIsDir remoteExists : Bool)
    (localBasename : Text) : Except Text Text :=
  if remoteIsDir then
    .ok ((if endsWithSlash remote then remote else remote ++ ['/']) ++ localBasename)
  else if endsWithSlash remote && remoteExists then
    .error ("failed to access '".toList ++ remote ++ "': Not a directory".toList)
  else .ok remote

structure LocalFile where
  path : Text
  mtime : Except Text UInt32
  content : Except Text Bytes

def statDirectInner (ids : StreamIds) (path : Text) : LinkCall FileStat :=
  ofRun fun link =>
    let run := (statOver (DirectSyncReader.readExact ids) (DirectSyncReader.sendRequest ids)
      (fun e => e) path).runOn (.new link)
    (run.1, run.2.link)

/-- A STAT whose failure is taken as an answer. A call that waits does not come back. -/
def tryStat (ids : StreamIds) (path : Text) : LinkCall (Option FileStat) :=
  ofRun fun link =>
    match (statDirectInner ids path).runOn link with
    | (.ok st, link') => (.ok (some st), link')
    | (.error (.failed _), link') => (.ok none, link')
    | (.error e, link') => (.error e, link')

def liftText {σ α : Type} (r : Except Text α) : StateCall σ LinkStop α :=
  lift (r.mapError .failed)

theorem liftText_ok {σ α : Type} (a : α) : (liftText (.ok a) : StateCall σ LinkStop α) = pure a := rfl

def LocalFile.readContent (file : LocalFile) : LinkCall Bytes :=
  liftText (file.content.mapError fun e =>
    "Cannot read local file '".toList ++ file.path ++ "': ".toList ++ e)

/-- The file is at the device already, as far as its time says. -/
def skipPush (ids : StreamIds) (target : Text) (mtime : UInt32) (sync : Bool) : LinkCall Bool :=
  if sync then do
    let st ← tryStat ids target
    pure (st.any (·.syncEqual mtime))
  else pure false

def pushTarget (file : LocalFile) (remote : Text) (st : Option FileStat) : Except Text Text := do
  let present := st.any (·.remoteExists)
  if st.any (modeIsDir ·.mode) then
    let name ← localPushBasename file.path
    resolveRemoteFileTarget remote true present name
  else resolveRemoteFileTarget remote false present []

def pushFileDirect (ids : StreamIds) (file : LocalFile) (remote : Text) (sync : Bool) :
    LinkCall Unit := do
  let st ← tryStat ids remote
  let target ← liftText (pushTarget file remote st)
  let mtime ← liftText file.mtime
  let skip ← skipPush ids target mtime sync
  if skip then pure ()
  else do
    let data ← file.readContent
    sendFile ids target mtime data

def pushFileDirectWithIds (ids : StreamIds) (file : LocalFile) (remote : Text) (sync : Bool) :
    LinkCall Unit := do
  let skip ← if sync then do
      let mtime ← liftText file.mtime
      skipPush ids remote mtime true
    else pure false
  if skip then pure ()
  else do
    let data ← file.readContent
    let mtime ← liftText file.mtime
    sendFile ids remote mtime data

namespace DeviceFrame

/-- The frames up to the acknowledgement with a given number. -/
theorem split_at_ack {frames : List DeviceFrame} {n : Nat} (h : n < acks frames) :
    ∃ early later, frames = early ++ okay :: later ∧ acks early = n := by
  induction frames generalizing n with
  | nil => simp [acks] at h
  | cons frame frames ih =>
    cases frame with
    | okay =>
      cases n with
      | zero => exact ⟨[], frames, rfl, rfl⟩
      | succ n =>
        rw [acks_okay] at h
        obtain ⟨early, later, rfl, ha⟩ := ih (Nat.lt_of_succ_lt_succ h)
        exact ⟨okay :: early, later, rfl, by rw [acks_okay, ha]⟩
    | wrte payload =>
      rw [acks_wrte] at h
      obtain ⟨early, later, rfl, ha⟩ := ih h
      exact ⟨wrte payload :: early, later, rfl, by rw [acks_wrte, ha]⟩

theorem split_at_wrte (frames : List DeviceFrame) : (∃ k, frames = replicate k okay) ∨
      ∃ k payload later, frames = replicate k okay ++ wrte payload :: later := by
  induction frames with
  | nil => exact .inl ⟨0, rfl⟩
  | cons frame frames ih =>
    cases frame with
    | wrte payload => exact .inr ⟨0, payload, frames, rfl⟩
    | okay =>
      rcases ih with ⟨k, hk⟩ | ⟨k, payload, later, hk⟩
      · exact .inl ⟨k + 1, by rw [hk, replicate_succ]⟩
      · exact .inr ⟨k + 1, payload, later, by rw [hk, replicate_succ, cons_append]⟩

theorem inbox_injective (ids : StreamIds) : Function.Injective (inbox ids) := by
  refine map_injective_iff.mpr fun frame frame' h => ?_
  have hp := Except.ok.inj h
  cases frame with
  | okay =>
    cases frame' with
    | okay => rfl
    | wrte payload =>
      have hc : aOkay = aWrte := congrArg (·.header.command) hp
      exact absurd hc (by decide)
  | wrte payload =>
    cases frame' with
    | okay =>
      have hc : aWrte = aOkay := congrArg (·.header.command) hp
      exact absurd hc (by decide)
    | wrte payload' => exact congrArg wrte (congrArg AdbPacket.payload hp)

end DeviceFrame

section

variable (ids : StreamIds)

theorem sendWrteTurn_okay (out : Outbox) :
    (sendWrteTurn ids (okay.packet ids)).runOn out = (.ok (.done ()), out) := rfl

theorem sendWrteTurn_wrte (payload : Bytes) (sent : List AdbPacket) :
    (sendWrteTurn ids ((wrte payload).packet ids)).runOn ⟨[], sent⟩
      = (.ok (.next ()), ⟨[], sent ++ [ids.ack]⟩) := rfl

variable {early frames later : List DeviceFrame} {link : Link} {target : Text} {req : Bytes}

/-- Sending waits for an OKAY, and drops what comes before it. -/
theorem sendWrteLoop_run (he : acks early = 0) (later : List DeviceFrame) (sent : List AdbPacket) :
    loopFrom (fun e => e) (fun _ : Unit => sendWrteTurn ids) ()
        (inbox ids (early ++ .okay :: later)) ⟨[], sent⟩
      = (.ok (), ⟨inbox ids later, ⟨[], sent ++ replicate (DeviceFrame.wrtes early) ids.ack⟩⟩) := by
  induction early generalizing sent with
  | nil =>
    simp only [nil_append, inbox_cons, loopFrom, sendWrteTurn_okay]
    simp
  | cons frame early ih =>
    cases frame with
    | okay => simp at he
    | wrte payload =>
      rw [acks_wrte] at he
      simp only [cons_append, inbox_cons, loopFrom, sendWrteTurn_wrte]
      rw [ih he, wrtes_wrte, append_assoc]
      rfl

theorem sendWrteLoop_starved (h : acks frames = 0) (sent : List AdbPacket) :
    (loopFrom (fun e => e) (fun _ : Unit => sendWrteTurn ids) ()
      (inbox ids frames) ⟨[], sent⟩).1 = .error .waiting := by
  induction frames generalizing sent with
  | nil => rfl
  | cons frame frames ih =>
    cases frame with
    | okay => simp at h
    | wrte payload =>
      simp only [inbox_cons, loopFrom, sendWrteTurn_wrte]
      exact ih h _

theorem sendWrte_run (he : acks early = 0)
    (h : link.Carries ids (early ++ .okay :: later)) (payload : Bytes) :
    ∃ link', (sendWrte ids payload).runOn link = (.ok (), link') ∧ link'.Carries ids later := by
  obtain ⟨sent, rfl⟩ := h.eq
  exact ⟨_, sendWrteLoop_run ids he later _, rfl, rfl⟩

theorem sendWrte_starved (ha : acks frames = 0) (h : link.Carries ids frames)
    (payload : Bytes) : ((sendWrte ids payload).runOn link).1 = .error .waiting := by
  obtain ⟨sent, rfl⟩ := h.eq
  exact sendWrteLoop_starved ids ha _

def sendAll : List Bytes → LinkCall Unit
  | [] => pure ()
  | buf :: bufs => do
    sendWrte ids buf
    sendAll bufs

variable {bufs : List Bytes}

/-- As many acknowledgements as writes let all of them through. -/
theorem sendAll_run (ha : acks early + 1 = bufs.length)
    (h : link.Carries ids (early ++ .okay :: later)) :
    ∃ link', (sendAll ids bufs).runOn link = (.ok (), link') ∧ link'.Carries ids later := by
  induction bufs generalizing early link with
  | nil => simp at ha
  | cons buf bufs ih =>
    rw [length_cons, Nat.add_right_cancel_iff] at ha
    cases bufs with
    | nil =>
      obtain ⟨link1, hs, h1⟩ := sendWrte_run ids ha h buf
      refine ⟨link1, ?_, h1⟩
      rw [sendAll, runOn_bind_ok hs]
      rfl
    | cons next bufs =>
      obtain ⟨first, between, rfl, hf⟩ :=
        split_at_ack (by rw [ha]; exact Nat.succ_pos _)
      rw [append_assoc] at h
      obtain ⟨link1, hs, h1⟩ := sendWrte_run ids hf h buf
      rw [acks_append, acks_okay, hf, Nat.zero_add] at ha
      obtain ⟨link2, hr, h2⟩ := ih ha h1
      refine ⟨link2, ?_, h2⟩
      rw [sendAll, runOn_bind_ok hs, hr]

/-- With fewer acknowledgements than writes, sending waits for ever. -/
theorem sendAll_starved (ha : acks frames < bufs.length)
    (h : link.Carries ids frames) : ((sendAll ids bufs).runOn link).1 = .error .waiting := by
  induction bufs generalizing frames link with
  | nil => exact absurd ha (Nat.not_lt_zero _)
  | cons buf bufs ih =>
    rw [sendAll, runOn_bind]
    by_cases hz : acks frames = 0
    · have hw := sendWrte_starved ids hz h buf
      rcases hr : (sendWrte ids buf).runOn link with ⟨r, link1⟩
      rw [hr] at hw
      cases hw
      rfl
    · obtain ⟨first, later, rfl, hf⟩ := split_at_ack (Nat.pos_of_ne_zero hz)
      obtain ⟨link1, hs, h1⟩ := sendWrte_run ids hf h buf
      rw [hs]
      refine ih ?_ h1
      rw [acks_append, acks_okay, length_cons] at ha
      omega

theorem recvSyncTurn_wrte (payload : Bytes) (sent : List AdbPacket) :
    (recvSyncTurn ids ((wrte payload).packet ids)).runOn ⟨[], sent⟩
      = ((judgeSyncResponse payload).map fun _ => .done (), ⟨[], sent ++ [ids.ack]⟩) := by
  have hc : ((wrte payload).packet ids).header.command = aWrte := rfl
  have hp : ((wrte payload).packet ids).payload = payload := rfl
  rw [recvSyncTurn, hc, hp]
  cases judgeSyncResponse payload <;> rfl

theorem recvSyncLoop_run (k : Nat) (payload : Bytes) (later : List DeviceFrame)
    (sent : List AdbPacket) :
    loopFrom (fun e => "recv sync response error: ".toList ++ e)
        (fun _ : Unit => recvSyncTurn ids) ()
        (inbox ids (replicate k .okay ++ .wrte payload :: later)) ⟨[], sent⟩
      = (judgeSyncResponse payload, ⟨inbox ids later, ⟨[], sent ++ [ids.ack]⟩⟩) := by
  induction k with
  | zero =>
    rw [replicate_zero, nil_append, inbox_cons, loopFrom, recvSyncTurn_wrte]
    cases judgeSyncResponse payload <;> rfl
  | succ k ih => exact ih

/-- The first payload behind the acknowledgements is judged. -/
theorem recvSyncResponse_run (k : Nat) (payload : Bytes)
    (h : link.Carries ids (replicate k .okay ++ .wrte payload :: later)) :
    ∃ link', (recvSyncResponse ids).runOn link = (judgeSyncResponse payload, link') ∧
      link'.Carries ids later := by
  obtain ⟨sent, rfl⟩ := h.eq
  exact ⟨_, recvSyncLoop_run ids k payload later sent, rfl, rfl⟩

theorem recvSyncResponse_starved (k : Nat) (h : link.Carries ids (replicate k .okay)) :
    ((recvSyncResponse ids).runOn link).1 = .error .waiting := by
  obtain ⟨sent, rfl⟩ := h.eq
  clear h
  rw [recvSyncResponse, loop]
  induction k with
  | zero => rfl
  | succ k ih => exact ih

theorem sendAll_append (front back : List Bytes) :
    sendAll ids (front ++ back) = (do sendAll ids front; sendAll ids back) := by
  induction front with
  | nil => rw [nil_append, sendAll, pure_bind]
  | cons buf front ih => rw [cons_append, sendAll, ih, sendAll, bind_assoc]

theorem sendChunks_eq {chunks : List Bytes} (h : ∀ chunk ∈ chunks, chunk.length ≤ maxChunk) :
    sendChunks ids chunks = sendAll ids (chunks.map (syncMessage syncData)) := by
  induction chunks with
  | nil => rfl
  | cons chunk chunks ih =>
    rw [forall_mem_cons] at h
    have hm : maxChunk = 65536 := rfl
    have hb : buildSyncDataChunk chunk = .ok (syncMessage syncData chunk) := by
      rw [buildSyncDataChunk, if_neg (by omega)]
    rw [sendChunks, hb, map_cons, sendAll, ← ih h.2]

def pushWrites (req : Bytes) (chunks : List Bytes) (mtime : UInt32) : List Bytes :=
  req :: (chunks.map (syncMessage syncData) ++ [buildSyncDone mtime])

theorem pushWrites_length (req : Bytes) (chunks : List Bytes) (mtime : UInt32) :
    (pushWrites req chunks mtime).length = chunks.length + 2 := by
  simp [pushWrites]

theorem sendFile_eq (hreq : buildSyncSendReq target 0o644 = .ok req) (mtime : UInt32) (data : Bytes) :
    sendFile ids target mtime data
      = (do sendAll ids (pushWrites req (chunksOf maxChunk data) mtime); recvSyncResponse ids) := by
  rw [sendFile, hreq]
  simp only
  rw [sendChunks_eq ids fun chunk h => chunksOf_length_le h, pushWrites, sendAll, sendAll_append,
    sendAll, sendAll]
  simp [bind_assoc]

inductive PushStatus where
  | okay (message : Bytes)
  | fail (message : Bytes)

namespace PushStatus

def wire : PushStatus → Bytes
  | okay message => syncMessage syncOkay message
  | fail message => syncMessage syncFail message

def expected : PushStatus → Except LinkStop Unit
  | okay _ => .ok ()
  | fail message => .error (.failed ("Sync FAIL: ".toList ++ lossyText message))

variable (status : PushStatus)

theorem judge_wire : judgeSyncResponse status.wire = status.expected := by
  have hj (id : UInt32) (message : Bytes) : judgeSyncResponse (syncMessage id message)
      = if id = syncOkay then .ok ()
        else if id = syncFail then
          .error (.failed ("Sync FAIL: ".toList ++ lossyText message))
        else .error (.failed ("Unexpected sync response id ".toList ++ (hexText id).toList)) := by
    have hd : (syncMessage id message).drop 8 = message := by
      rw [syncMessage, drop_left' (SyncMessageHeader.encode_length _)]
    rw [judgeSyncResponse, if_neg (by rw [syncMessage_length]; omega), hd, syncMessage,
      SyncMessageHeader.decode_encode]
  cases status with
  | okay message => rw [wire, hj, if_pos rfl, expected]
  | fail message => rw [wire, hj, if_neg (by decide), if_pos rfl, expected]

theorem failed_of_expected {e : LinkStop} (h : status.expected = .error e) : ∃ text, e = .failed text := by
  cases status with
  | okay message => cases h
  | fail message => exact ⟨_, (Except.error.inj h).symm⟩

theorem wire_ne_nil : status.wire ≠ [] := by
  intro h
  have hl := congrArg length h
  cases status <;> simp [wire, syncMessage_length] at hl

theorem expected_ne_waiting : status.expected ≠ .error .waiting := by
  intro h
  cases status <;> cases h

end PushStatus

/-- The call ended as the device said, and took the bytes of the status last, in payloads one after
another; the frames before them carried nothing but the replies to STAT. With an acknowledgement
between the payloads the tail of one OKAY could be taken for another. -/
def StatusHeard (status : PushStatus) (replies : Bytes) (frames : List DeviceFrame)
    (run : Except LinkStop Unit × Link) : Prop :=
  ∃ past heard later, frames = past ++ heard ++ later ∧ bytes past = replies ∧
    bytes heard = status.wire ∧ acks heard = 0 ∧ run.2.inbox = inbox ids later ∧
    run.1 = status.expected

/-- No byte comes before the last write is acknowledged, and then the status comes in one piece. -/
def StatusApart (status : PushStatus) (writes : Nat) (frames : List DeviceFrame) : Prop :=
  ∃ early k later,
    frames = early ++ .okay :: (List.replicate k .okay ++ .wrte status.wire :: later) ∧
    acks early + 1 = writes ∧ bytes early = []

section

variable (hreq : buildSyncSendReq target 0o644 = .ok req)
include hreq

theorem sendFile_judges (mtime : UInt32) {data : Bytes} {k : Nat} {payload : Bytes}
    (ha : acks early + 1 = (chunksOf maxChunk data).length + 2)
    (h : link.Carries ids (early ++ .okay :: (replicate k .okay ++ .wrte payload :: later))) :
    ∃ link', (sendFile ids target mtime data).runOn link = (judgeSyncResponse payload, link') ∧
      link'.Carries ids later := by
  rw [← pushWrites_length req (chunksOf maxChunk data) mtime] at ha
  obtain ⟨link1, hs, h1⟩ := sendAll_run ids ha h
  rw [sendFile_eq ids hreq, runOn_bind_ok hs]
  exact recvSyncResponse_run ids k payload h1

/-- Sending a file waits for ever, or judges the payload behind the last OKAY. -/
theorem sendFile_run (mtime : UInt32) (data : Bytes) (h : link.Carries ids frames) :
    ((sendFile ids target mtime data).runOn link).1 = .error .waiting ∨
    ∃ early k payload later,
      frames = early ++ .okay :: (replicate k .okay ++ .wrte payload :: later) ∧
      acks early + 1 = (chunksOf maxChunk data).length + 2 ∧
      ∃ link', (sendFile ids target mtime data).runOn link = (judgeSyncResponse payload, link') ∧
        link'.Carries ids later := by
  by_cases ha : acks frames < (pushWrites req (chunksOf maxChunk data) mtime).length
  · have hwt := sendAll_starved ids ha h
    left
    rw [sendFile_eq ids hreq, runOn_bind]
    rcases hr : (sendAll ids (pushWrites req (chunksOf maxChunk data) mtime)).runOn link
      with ⟨r, link1⟩
    rw [hr] at hwt
    cases hwt
    rfl
  · rw [pushWrites_length] at ha
    obtain ⟨early, tail, rfl, he⟩ := split_at_ack
      (show (chunksOf maxChunk data).length + 1 < acks frames by omega)
    have hl : acks early + 1 = (chunksOf maxChunk data).length + 2 := by rw [he]
    rcases split_at_wrte tail with ⟨k, rfl⟩ | ⟨k, payload, later, rfl⟩
    · left
      have hw := hl
      rw [← pushWrites_length req (chunksOf maxChunk data) mtime] at hw
      obtain ⟨link1, hs, h1⟩ := sendAll_run ids hw h
      rw [sendFile_eq ids hreq, runOn_bind_ok hs]
      exact recvSyncResponse_starved ids k h1
    · exact .inr ⟨early, k, payload, later, rfl, hl, sendFile_judges ids hreq mtime hl h⟩

end

variable {past : List DeviceFrame} {path : Text}

theorem DeviceFrame.last_of_no_ack {heard front : List DeviceFrame} {frame : DeviceFrame}
    (h : past ++ heard = front ++ [okay, frame]) (hne : heard ≠ []) (ha : acks heard = 0) :
    past = front ++ [okay] ∧ heard = [frame] := by
  obtain ⟨between, last, rfl⟩ := (eq_nil_or_concat' heard).resolve_left hne
  rw [← append_assoc, append_cons front] at h
  obtain ⟨hp, hf⟩ := append_inj' h rfl
  rcases eq_nil_or_concat' between with rfl | ⟨before, other, rfl⟩
  · exact ⟨by rw [← hp, append_nil], by rw [nil_append, hf]⟩
  · rw [← append_assoc] at hp
    obtain ⟨-, ho⟩ := append_inj' hp rfl
    rw [ho] at ha
    simp at ha

/-- The status is heard exactly where it comes apart from the acknowledgements. -/
theorem sendFile_heard_iff (hreq : buildSyncSendReq target 0o644 = .ok req) (mtime : UInt32)
    (data : Bytes) (h : link.Carries ids frames) (status : PushStatus) :
    StatusHeard ids status [] frames ((sendFile ids target mtime data).runOn link) ↔
      StatusApart status ((chunksOf maxChunk data).length + 2) frames := by
  constructor
  · rintro ⟨past, heard, later, rfl, hb, hw, hno, hl, hrt⟩
    rcases sendFile_run ids hreq mtime data h with
      hwt | ⟨early, k, payload, later', hf, ha, link', hr, h'⟩
    · exact absurd (hrt.symm.trans hwt) status.expected_ne_waiting
    rw [hr] at hl
    obtain rfl := inbox_injective ids (hl.symm.trans h'.1)
    have ht : past ++ heard = early ++ replicate k .okay ++ [.okay, .wrte payload] := by
      rw [← cons_append, ← replicate_succ, replicate_succ'] at hf
      exact append_cancel_right (hf.trans (by simp))
    have hne : heard ≠ [] := by
      rintro rfl
      exact status.wire_ne_nil hw.symm
    obtain ⟨rfl, rfl⟩ := last_of_no_ack ht hne hno
    have hp : payload = status.wire := by
      simpa [DeviceFrame.payload] using hw
    refine ⟨early, k, later, by rw [hf, hp], ha, ?_⟩
    rw [bytes_append, bytes_append] at hb
    exact (append_eq_nil_iff.mp (append_eq_nil_iff.mp hb).1).1
  · rintro ⟨early, k, later, rfl, ha, hb⟩
    obtain ⟨link', hr, h'⟩ := sendFile_judges ids hreq mtime ha h
    refine ⟨early ++ .okay :: replicate k .okay, [.wrte status.wire], later, by simp, ?_,
      append_nil _, rfl, ?_, ?_⟩
    · rw [bytes_append, hb, bytes_cons, bytes]
      simp [DeviceFrame.payload]
    · rw [hr, h'.1]
    · rw [hr, status.judge_wire]

theorem sendFile_unbuilt {e : SyncProtocolError} (hreq : buildSyncSendReq target 0o644 = .error e)
    (mtime : UInt32) (data : Bytes) (link : Link) (status : PushStatus) :
    ((sendFile ids target mtime data).runOn link).1 ≠ status.expected := by
  rw [sendFile, hreq]
  intro h
  cases status with
  | okay message => cases h
  | fail message =>
    have ht := LinkStop.failed.inj (Except.error.inj h)
    simp at ht

/-- A file whose status is heard has taken an acknowledgement. -/
theorem sendFile_takes {n : Nat} (h : link.AtMost ids n) {mtime : UInt32} {data : Bytes}
    {status : PushStatus} (hr : ((sendFile ids target mtime data).runOn link).1 = status.expected) :
    ∃ m < n, ((sendFile ids target mtime data).runOn link).2.AtMost ids m := by
  obtain ⟨frames, hf, hl⟩ := h
  cases hreq : buildSyncSendReq target 0o644 with
  | error e => exact absurd hr (sendFile_unbuilt ids hreq mtime data link status)
  | ok req =>
    rcases sendFile_run ids hreq mtime data hf with
      hw | ⟨early, k, payload, later, rfl, -, link', hrun, h'⟩
    · exact absurd (hr.symm.trans hw) status.expected_ne_waiting
    · rw [acks_append, acks_okay, acks_append, acks_wrte] at hl
      rw [hrun]
      exact ⟨acks later, by omega, later, h', Nat.le_refl _⟩

theorem DeviceFrame.trim_end (frames : List DeviceFrame) :
    ∃ late tail, frames = late ++ tail ∧ bytes tail = [] ∧
      (late = [] ∨ ∃ front payload, late = front ++ [wrte payload] ∧ payload ≠ []) := by
  induction frames using reverseRecOn with
  | nil => exact ⟨[], [], rfl, rfl, .inl rfl⟩
  | append_singleton frames frame ih =>
    by_cases hp : frame.payload = []
    · obtain ⟨late, tail, rfl, hb, he⟩ := ih
      refine ⟨late, tail ++ [frame], by rw [append_assoc], ?_, he⟩
      simp [hb, hp]
    cases frame with
    | okay => exact absurd rfl hp
    | wrte payload =>
      exact ⟨frames ++ [wrte payload], [], by rw [append_nil], rfl, .inr ⟨frames, payload, rfl, hp⟩⟩

theorem DeviceReply.of_frames {reply : Bytes} (hb : bytes past = reply)
    (hs : reply.length ≤ maxPayloadV2.toNat) (ha : 0 < acks past) :
    ∃ (d : DeviceReply reply) (tail : List DeviceFrame), past = d.frames ++ tail ∧
      bytes tail = [] := by
  obtain ⟨early, behind, rfl, her⟩ := split_at_ack ha
  obtain ⟨late, tail, rfl, ht, he⟩ := trim_end behind
  have hw : bytes early ++ bytes late = reply := by
    rw [← hb]
    simp [ht, payload]
  have hl := congrArg length hw
  rw [length_append] at hl
  refine ⟨⟨early, late, her, by omega, ?_, hw, he⟩, tail, ?_, ht⟩
  · intro frame hf
    have hle : frame.payload.length ≤ (bytes late).length :=
      (sublist_flatten_of_mem (mem_map_of_mem hf)).length_le
    omega
  · rw [frames, append_assoc, cons_append]

/-- The STAT is answered with its own reply. -/
theorem tryStat_run (hp : validatePath path true = .ok ()) {st : SyncStatResponse}
    (d : DeviceReply st.wire) {tail : List DeviceFrame} (h : link.Carries ids (d.frames ++ tail)) :
    ∃ link', (tryStat ids path).runOn link = (.ok st.answer.toOption, link') ∧
      link'.Carries ids tail := by
  obtain ⟨sent, rfl⟩ := h.eq
  obtain ⟨r, hr, -, hl⟩ := statOver_run
    (d.answers ids (inbox ids tail) sent _) (buildSyncPathReq_ok hp syncStat)
    (fun e => e) (s := .new _) ⟨rfl, rfl⟩
  refine ⟨r.link, ?_, by rw [hl]; exact ⟨rfl, rfl⟩⟩
  rw [← inbox_append] at hr
  have hi : (statDirectInner ids path).runOn
      ⟨inbox ids (d.frames ++ tail), ⟨[], sent⟩⟩ = (st.answer, r.link) := by
    rw [statDirectInner, runOn_ofRun]
    rw [hr]
  rw [tryStat, runOn_ofRun, hi, SyncStatResponse.answer]
  cases st.exists? <;> rfl

variable (n : Nat)

theorem readStatResponse_keeps :
    (readStatResponse (readExact ids)).Keeps (DirectSyncReader.AtMost ids n) := by
  have hr := readExact_keeps ids n
  have ht {α : Type} (e : LinkStop) :
      (throw e : DirectSyncReader.Call α).Keeps (DirectSyncReader.AtMost ids n) :=
    keeps_throw _ e
  refine (hr 4).bind fun front => keeps_ite ?_ (keeps_ite (ht _) ?_)
  · exact (hr 4).bind fun word => keeps_ite (ht _) ((hr _).bind fun message => ht _)
  · refine (hr 12).bind fun body => ?_
    split
    next => exact ht _
    next => exact keeps_ite (keeps_pure _ _) (ht _)

theorem tryStat_ne_failed (path : Text) (link : Link) (text : Text) :
    ((tryStat ids path).runOn link).1 ≠ .error (.failed text) := by
  rw [tryStat, runOn_ofRun]
  rcases (statDirectInner ids path).runOn link with ⟨(e | _ | _) | st, link'⟩ <;> (intro h; cases h)

/-- A STAT that was answered has taken its acknowledgement. -/
theorem tryStat_takes (hp : validatePath path true = .ok ()) (h : link.AtMost ids n) :
    ((tryStat ids path).runOn link).2.AtMost ids n ∧
      ∀ st, ((tryStat ids path).runOn link).1 = .ok (some st) →
        ∃ m < n, ((tryStat ids path).runOn link).2.AtMost ids m := by
  have hreq : buildSyncStatReq path = .ok (syncMessage syncStat (textBytes path)) :=
    buildSyncPathReq_ok hp syncStat
  obtain ⟨hm, hl⟩ := sendRequest_takes ids (syncMessage syncStat (textBytes path)) (r := .new link) h
  have hsta : ((statDirectInner ids path).runOn link).2.AtMost ids n ∧
      ∀ st, ((statDirectInner ids path).runOn link).1 = .ok st →
        ∃ m < n, ((statDirectInner ids path).runOn link).2.AtMost ids m := by
    rw [statDirectInner, runOn_ofRun, statOver, hreq]
    dsimp only
    refine ⟨StateCall.Keeps.after hm fun _ => readStatResponse_keeps ids _, ?_⟩
    intro st hs
    obtain ⟨u, mid, hsn, -⟩ := runOn_bind_eq_ok (Prod.ext hs rfl)
    obtain ⟨m, hlt, hm'⟩ := hl (by rw [hsn])
    exact ⟨m, hlt, StateCall.Keeps.after hm' fun _ => readStatResponse_keeps ids m⟩
  rw [tryStat, runOn_ofRun]
  rcases hrun : (statDirectInner ids path).runOn link with ⟨res, link'⟩
  rw [hrun] at hsta
  rcases res with e | st
  · cases e <;> refine ⟨hsta.1, fun st hs => ?_⟩ <;> cases hs
  · exact ⟨hsta.1, fun _ _ => hsta.2 st rfl⟩

/-- A STAT and then a push: the status is heard exactly where the exchange of the STAT is over before
the status comes apart. A STAT that is answered takes its acknowledgement, and so does, by `hd`, what
follows one that is not; the frames up to the status have none to take if the STAT's comes later. -/
theorem afterStat_heard_iff (hp : validatePath path true = .ok ())
    (hreq : buildSyncSendReq target 0o644 = .ok req) (mtime : UInt32) (data : Bytes)
    (st : SyncStatResponse) {f : Option FileStat → LinkCall Unit}
    (hf : f st.answer.toOption = sendFile ids target mtime data)
    (hk : ∀ o n, (f o).Keeps (Link.AtMost ids n)) (status : PushStatus)
    (hd : ∀ n link, link.AtMost ids n → ((f none).runOn link).1 = status.expected →
      ∃ m < n, ((f none).runOn link).2.AtMost ids m) (h : link.Carries ids frames) :
    StatusHeard ids status st.wire frames ((tryStat ids path >>= f).runOn link) ↔
      ∃ (d : DeviceReply st.wire) (tail : List DeviceFrame), frames = d.frames ++ tail ∧
        StatusApart status ((chunksOf maxChunk data).length + 2) tail := by
  have hsz : st.wire.length ≤ maxPayloadV2.toNat := by
    have hmax : maxPayloadV2.toNat = 1048576 := rfl
    rw [st.wire_length]
    omega
  constructor
  · rintro ⟨past, heard, later, rfl, hb, hw, hno, hlf, hr⟩
    rcases Nat.eq_zero_or_pos (acks past) with hz | hsm
    · exfalso
      have hn : link.AtMost ids (acks later) := ⟨_, h, by simp [hz, hno]⟩
      have hlow : ¬∃ m < acks later, ((tryStat ids path >>= f).runOn link).2.AtMost ids m := by
        rintro ⟨m, hlt, left, ⟨hi, -⟩, hle⟩
        obtain rfl := inbox_injective ids (hlf.symm.trans hi)
        omega
      refine hlow ?_
      obtain ⟨hm, hls⟩ := tryStat_takes ids (acks later) hp hn
      rw [runOn_bind] at hr ⊢
      rcases hrun : (tryStat ids path).runOn link with ⟨res, link1⟩
      rw [hrun] at hr hm hls
      rcases res with e | _ | answer
      · obtain ⟨text, htx⟩ := status.failed_of_expected hr.symm
        exact absurd (by rw [hrun, htx]) (tryStat_ne_failed ids path link text)
      · exact hd _ _ hm hr
      · obtain ⟨m, hlt, hfew⟩ := hls answer rfl
        exact ⟨m, hlt, hk (some answer) m link1 hfew⟩
    · obtain ⟨d, tail, rfl, ht⟩ := DeviceReply.of_frames hb hsz hsm
      rw [append_assoc, append_assoc] at h ⊢
      obtain ⟨link1, hs, h1⟩ := tryStat_run ids hp d h
      rw [runOn_bind_ok hs, hf] at hlf hr
      exact ⟨d, _, rfl, (sendFile_heard_iff ids hreq mtime data h1 status).mp
        ⟨tail, heard, later, (append_assoc ..).symm, ht, hw, hno, hlf, hr⟩⟩
  · rintro ⟨d, tail, rfl, ha⟩
    obtain ⟨link1, hs, h1⟩ := tryStat_run ids hp d h
    obtain ⟨past, heard, later, rfl, hb, hw, hno, hlf, hr⟩ :=
      (sendFile_heard_iff ids hreq mtime data h1 status).mpr ha
    rw [runOn_bind_ok hs, hf]
    refine ⟨d.frames ++ past, heard, later, by simp only [append_assoc], ?_, hw, hno, hlf, hr⟩
    rw [bytes_append, hb, append_nil, DeviceReply.frames, bytes_append]
    exact d.bytes_eq

theorem sendWrte_keeps (payload : Bytes) : (sendWrte ids payload).Keeps (Link.AtMost ids n) := by
  refine (sending_keeps (send_keeps _) n).bind fun _ => loop_keeps ?_ n ()
  intro _ p
  exact keeps_ite (keeps_pure _ _) (keeps_ite ((send_keeps _).attempt.bind fun _ => keeps_pure _ _)
    (keeps_ite (keeps_throw _ _) (keeps_pure _ _)))

theorem recvSyncResponse_keeps : (recvSyncResponse ids).Keeps (Link.AtMost ids n) := by
  refine loop_keeps ?_ n ()
  intro _ p
  exact keeps_ite (keeps_pure _ _) (keeps_ite
    ((send_keeps _).attempt.bind fun _ => (keeps_lift _ _).bind fun _ =>
      keeps_pure _ _)
    (keeps_ite ((send_keeps _).attempt.bind fun _ => keeps_throw _ _) (keeps_pure _ _)))

theorem sendChunks_keeps (chunks : List Bytes) :
    (sendChunks ids chunks).Keeps (Link.AtMost ids n) := by
  induction chunks with
  | nil => exact keeps_pure _ _
  | cons chunk chunks ih =>
    rw [sendChunks]
    split
    next => exact keeps_throw _ _
    next => exact (sendWrte_keeps ids n _).bind fun _ => ih

theorem sendFile_keeps (target : Text) (mtime : UInt32) (data : Bytes) :
    (sendFile ids target mtime data).Keeps (Link.AtMost ids n) := by
  rw [sendFile]
  split
  next => exact keeps_throw _ _
  exact (sendWrte_keeps ids n _).bind fun _ => (sendChunks_keeps ids n _).bind fun _ =>
    (sendWrte_keeps ids n _).bind fun _ => recvSyncResponse_keeps ids n

end

theorem validatePath_of_send {target : Text} {mode : UInt32} {req : Bytes}
    (h : buildSyncSendReq target mode = .ok req) : validatePath target true = .ok () := by
  rw [buildSyncSendReq] at h
  cases hs : validatePath target false with
  | error e => rw [hs] at h; cases h
  | ok u =>
    unfold validatePath at hs ⊢
    split at hs
    next => cases hs
    next hm =>
      split at hs
      next => cases hs
      next hn =>
        split at hs
        next => cases hs
        rw [if_neg hm, if_neg hn]
        exact hs

/-- The STAT is answered, and then the status comes apart. -/
def StatusApartBehind (st : SyncStatResponse) (status : PushStatus) (writes : Nat)
    (frames : List DeviceFrame) : Prop :=
  ∃ (d : DeviceReply st.wire) (tail : List DeviceFrame), frames = d.frames ++ tail ∧
    StatusApart status writes tail

def SyncStatResponse.Differs (st : SyncStatResponse) (mtime : UInt32) : Prop :=
  st.answer.toOption.any (·.syncEqual mtime) = false

theorem readContent_ok {file : LocalFile} {data : Bytes} (h : file.content = .ok data) :
    file.readContent = pure data := by
  rw [LocalFile.readContent, h]
  rfl

theorem skipPush_sync (ids : StreamIds) (target : Text) (mtime : UInt32) {f : Bool → LinkCall Unit} :
    skipPush ids target mtime true >>= f
      = tryStat ids target >>= fun st => f (st.any (·.syncEqual mtime)) := by
  rw [skipPush, if_pos rfl]
  simp

section

variable (ids : StreamIds) {file : LocalFile} {mtime : UInt32} {data : Bytes}
  (hmtime : file.mtime = .ok mtime) (hcontent : file.content = .ok data)

include hmtime hcontent

variable (remote : Text)

theorem pushFileDirectWithIds_plain :
    pushFileDirectWithIds ids file remote false = sendFile ids remote mtime data := by
  rw [pushFileDirectWithIds, readContent_ok hcontent, hmtime]
  rfl

theorem pushFileDirectWithIds_sync :
    pushFileDirectWithIds ids file remote true = tryStat ids remote >>= fun st =>
      if st.any (·.syncEqual mtime) then pure () else sendFile ids remote mtime data := by
  rw [pushFileDirectWithIds, readContent_ok hcontent, hmtime]
  simp [↓reduceIte, liftText_ok, skipPush_sync]

theorem pushFileDirect_plain : pushFileDirect ids file remote false = tryStat ids remote >>= fun st =>
      liftText (pushTarget file remote st) >>= fun target => sendFile ids target mtime data := by
  rw [pushFileDirect, readContent_ok hcontent, hmtime]
  simp [skipPush, ↓reduceIte, liftText_ok]

theorem pushFileDirect_sync : pushFileDirect ids file remote true = tryStat ids remote >>= fun st =>
      liftText (pushTarget file remote st) >>= fun target => tryStat ids target >>= fun st =>
        if st.any (·.syncEqual mtime) then pure () else sendFile ids target mtime data := by
  rw [pushFileDirect, readContent_ok hcontent, hmtime]
  simp [liftText_ok, skipPush_sync]

end

section

variable (ids : StreamIds) (status : PushStatus) {frames : List DeviceFrame} {link : Link}
  (h : link.Carries ids frames) {mtime : UInt32} {data req : Bytes}

include h

variable {st : SyncStatResponse}

theorem syncPush_heard_iff {target : Text} (hreq : buildSyncSendReq target 0o644 = .ok req)
    (hs : st.Differs mtime) :
    StatusHeard ids status st.wire frames ((tryStat ids target >>= fun st =>
        if st.any (·.syncEqual mtime) then pure () else sendFile ids target mtime data).runOn link)
      ↔ StatusApartBehind st status ((chunksOf maxChunk data).length + 2) frames := by
  refine afterStat_heard_iff ids (validatePath_of_send hreq) hreq mtime data st ?_ ?_ status ?_ h
  · rw [if_neg (by rw [hs]; exact Bool.false_ne_true)]
  · intro o n
    exact keeps_ite (keeps_pure _ _) (sendFile_keeps ids n target mtime data)
  · intro n link hm hr
    exact sendFile_takes ids hm hr

theorem targetPush_heard_iff {file : LocalFile} {remote target : Text}
    (hrm : validatePath remote true = .ok ())
    (ht : pushTarget file remote st.answer.toOption = .ok target)
    (hreq : buildSyncSendReq target 0o644 = .ok req) :
    StatusHeard ids status st.wire frames ((tryStat ids remote >>= fun st =>
        liftText (pushTarget file remote st) >>= fun target =>
          sendFile ids target mtime data).runOn link)
      ↔ StatusApartBehind st status ((chunksOf maxChunk data).length + 2) frames := by
  refine afterStat_heard_iff ids hrm hreq mtime data st ?_ ?_ status ?_ h
  · rw [ht, liftText_ok, pure_bind]
  · intro o n
    exact (keeps_lift _ _).bind fun target => sendFile_keeps ids n target mtime data
  · have hn : pushTarget file remote none = .ok remote := by
      simp [pushTarget, resolveRemoteFileTarget]
    intro n link hm hr
    rw [hn, liftText_ok] at hr ⊢
    exact sendFile_takes ids hm hr

end

/-- A push hears the status of the device exactly where the status comes apart: no byte of it before
the last write is acknowledged, and all of it in the first payload after. -/
theorem push_heard_iff (ids : StreamIds) (status : PushStatus) {file : LocalFile} {mtime : UInt32}
    {data : List UInt8} (hmtime : file.mtime = .ok mtime) (hcontent : file.content = .ok data)
    {remote : Text} (hremote : validatePath remote true = .ok ()) {target : Text}
    {req : List UInt8} (hreq : buildSyncSendReq target 0o644 = .ok req)
    (frames : List DeviceFrame) (sent : List AdbPacket) :
    (target = remote →
      (StatusHeard ids status [] frames ((pushFileDirectWithIds ids file remote false).runOn
          ⟨DeviceFrame.inbox ids frames, ⟨[], sent⟩⟩)
        ↔ StatusApart status ((chunksOf maxChunk data).length + 2) frames) ∧
      ∀ st : SyncStatResponse, st.Differs mtime →
        (StatusHeard ids status st.wire frames ((pushFileDirectWithIds ids file remote true).runOn
            ⟨DeviceFrame.inbox ids frames, ⟨[], sent⟩⟩)
          ↔ StatusApartBehind st status ((chunksOf maxChunk data).length + 2) frames)) ∧
    ∀ st : SyncStatResponse, pushTarget file remote st.answer.toOption = .ok target →
      (StatusHeard ids status st.wire frames ((pushFileDirect ids file remote false).runOn
          ⟨DeviceFrame.inbox ids frames, ⟨[], sent⟩⟩)
        ↔ StatusApartBehind st status ((chunksOf maxChunk data).length + 2) frames) ∧
      ∀ (first : DeviceReply st.wire) (again : SyncStatResponse), again.Differs mtime →
        (StatusHeard ids status again.wire frames ((pushFileDirect ids file remote true).runOn
            ⟨DeviceFrame.inbox ids (first.frames ++ frames), ⟨[], sent⟩⟩)
          ↔ StatusApartBehind again status ((chunksOf maxChunk data).length + 2) frames) := by
  have hl (fs : List DeviceFrame) : Link.Carries ids fs ⟨inbox ids fs, ⟨[], sent⟩⟩ := ⟨rfl, rfl⟩
  constructor
  · rintro rfl
    constructor
    · rw [pushFileDirectWithIds_plain ids hmtime hcontent]
      exact sendFile_heard_iff ids hreq mtime data (hl frames) status
    · intro st hs
      rw [pushFileDirectWithIds_sync ids hmtime hcontent]
      exact syncPush_heard_iff ids status (hl frames) hreq hs
  · intro st ht
    constructor
    · rw [pushFileDirect_plain ids hmtime hcontent]
      exact targetPush_heard_iff ids status (hl frames) hremote ht hreq
    · intro first again ha
      obtain ⟨link₁, hsta, h₁⟩ := tryStat_run ids hremote first (hl (first.frames ++ frames))
      rw [pushFileDirect_sync ids hmtime hcontent, runOn_bind_ok hsta, ht, liftText_ok]
      exact syncPush_heard_iff ids status h₁ hreq ha

/-- An empty file, pushed to a device that answers in turn. -/
theorem push_heard_iff_in_turn : StatusHeard ⟨1, 2⟩ (.fail (textBytes "full".toList)) []
      [.okay, .okay, .wrte (PushStatus.fail (textBytes "full".toList)).wire]
      ((pushFileDirectWithIds ⟨1, 2⟩ ⟨"f".toList, .ok 7, .ok []⟩ "/f".toList false).runOn
        ⟨DeviceFrame.inbox ⟨1, 2⟩
          [.okay, .okay, .wrte (PushStatus.fail (textBytes "full".toList)).wire], ⟨[], []⟩⟩) := by
  have hr : validatePath "/f".toList true = .ok () := rfl
  have hreq : buildSyncSendReq "/f".toList 0o644
      = .ok (syncMessage syncSend (textBytes "/f,420".toList)) := rfl
  have hmtime : (⟨"f".toList, .ok 7, .ok []⟩ : LocalFile).mtime = .ok 7 := rfl
  have hcontent : (⟨"f".toList, .ok 7, .ok []⟩ : LocalFile).content = .ok [] := rfl
  refine ((push_heard_iff ⟨1, 2⟩ (.fail (textBytes "full".toList)) hmtime hcontent hr hreq
    [.okay, .okay, .wrte (PushStatus.fail (textBytes "full".toList)).wire] []).1 rfl).1.mpr ?_
  exact ⟨[.okay], 0, [], rfl, rfl, rfl⟩

/-- The device refuses at once: the message is thrown away and the push waits. -/
theorem push_not_heard_early_fail :
    ((pushFileDirectWithIds ⟨1, 2⟩ ⟨"f".toList, .ok 7, .ok []⟩ "/f".toList false).runOn
        ⟨DeviceFrame.inbox ⟨1, 2⟩
          [.wrte (PushStatus.fail (textBytes "full".toList)).wire, .okay, .okay], ⟨[], []⟩⟩).1
      = .error .waiting ∧
    ¬StatusHeard ⟨1, 2⟩ (.fail (textBytes "full".toList)) []
      [.wrte (PushStatus.fail (textBytes "full".toList)).wire, .okay, .okay]
      ((pushFileDirectWithIds ⟨1, 2⟩ ⟨"f".toList, .ok 7, .ok []⟩ "/f".toList false).runOn
        ⟨DeviceFrame.inbox ⟨1, 2⟩
          [.wrte (PushStatus.fail (textBytes "full".toList)).wire, .okay, .okay], ⟨[], []⟩⟩) := by
  have hw : ((pushFileDirectWithIds ⟨1, 2⟩ ⟨"f".toList, .ok 7, .ok []⟩ "/f".toList false).runOn
      ⟨inbox ⟨1, 2⟩
        [.wrte (PushStatus.fail (textBytes "full".toList)).wire, .okay, .okay], ⟨[], []⟩⟩).1
      = .error .waiting := rfl
  refine ⟨hw, ?_⟩
  rintro ⟨past, heard, later, -, -, -, -, -, hr⟩
  exact PushStatus.expected_ne_waiting _ (hr.symm.trans hw)

end AdbFastboot
