import AdbFastboot.AdbLink
import AdbFastboot.SyncFormat

namespace AdbFastboot

open StateCall Link DeviceFrame Outbox

def openTurn (dest : Text) (localId : UInt32) (p : AdbPacket) :
    SendCall (LoopTurn Unit StreamIds) :=
  if p.header.command = aOkay then pure (.done ⟨localId, p.header.arg0⟩)
  else if p.header.command = aClse then
    throw (.failed ("Service '".toList ++ dest ++ "' closed immediately".toList))
  else pure (.next ())

/-- `open_service`. The id that the device gives to the stream is taken from the first A_OKAY. -/
def openService (dest : Text) (localId : UInt32) : LinkCall StreamIds := do
  sending (send (AdbPacket.new aOpen localId 0 (textBytes dest)))
  loop (fun e => e) (fun _ => openTurn dest localId) ()

def shellService : Text := "shell,v2,raw:".toList

def runShellTurn (localId : UInt32) (output : Bytes) (p : AdbPacket) :
    SendCall (LoopTurn Bytes Bytes) :=
  if p.header.command = aOkay then pure (.next output)
  else if p.header.command = aWrte then do
    send (AdbPacket.new aOkay localId p.header.arg0 [])
    pure (.next (output ++ p.payload))
  else if p.header.command = aClse then do
    send (AdbPacket.new aClse localId p.header.arg0 [])
    pure (.done output)
  else throw (.failed
    ("Unexpected command while running shell: ".toList ++ (hexText p.header.command).toList))

def runShellCommand (command : Text) : LinkCall Text := do
  let ids ← openService (shellService ++ command) 1
  let output ← loop (fun e => e) (runShellTurn ids.localId) []
  pure (lossyText output)

/-- The loop of `uninstall_package` and `list_packages`: no send and no message can stop it. -/
def collectTurn (localId : UInt32) (output : Bytes) (p : AdbPacket) :
    SendCall (LoopTurn Bytes Bytes) :=
  if p.header.command = aOkay then pure (.next output)
  else if p.header.command = aWrte then do
    let _ ← (send (AdbPacket.new aOkay localId p.header.arg0 [])).attempt
    pure (.next (output ++ p.payload))
  else if p.header.command = aClse then do
    let _ ← (send (AdbPacket.new aClse localId p.header.arg0 [])).attempt
    pure (.done output)
  else pure (.next output)

def StreamIds.text (ids : StreamIds) : Text :=
  '(' :: decimal ids.localId.toNat ++ ", ".toList ++ decimal ids.remoteId.toNat ++ [')']

def AdbPacket.ids (p : AdbPacket) : StreamIds := ⟨p.header.arg0, p.header.arg1⟩

def writeExecTurn (ids : StreamIds) (pending : List Bytes) (p : AdbPacket) :
    SendCall (LoopTurn (List Bytes) (List Bytes)) :=
  if p.header.command = aOkay then
    if p.header.arg0 ≠ ids.remoteId ∨ p.header.arg1 ≠ ids.localId then
      throw (.failed ("Unexpected A_OKAY ids ".toList ++ p.ids.text))
    else pure (.done pending)
  else if p.header.command = aWrte then
    if p.header.arg0 ≠ ids.remoteId ∨ p.header.arg1 ≠ ids.localId then
      throw (.failed ("Unexpected A_WRTE ids ".toList ++ p.ids.text))
    else do
      send ids.ack
      pure (.next (pending ++ [p.payload]))
  else if p.header.command = aClse then do
    let _ ← (send (AdbPacket.new aClse ids.localId ids.remoteId [])).attempt
    throw (.failed "exec service closed before all input was sent".toList)
  else throw (.failed
    ("Unexpected exec input response: ".toList ++ (hexText p.header.command).toList))

def writeExecPayload (ids : StreamIds) (payload : Bytes) (pending : List Bytes) :
    LinkCall (List Bytes) := do
  sending (send (AdbPacket.new aWrte ids.localId ids.remoteId payload))
  loop (fun e => e) (writeExecTurn ids) pending

def readExecTurn (ids : StreamIds) (output : Bytes) (p : AdbPacket) :
    SendCall (LoopTurn Bytes Bytes) :=
  if p.header.command = aOkay then pure (.next output)
  else if p.header.command = aWrte then
    if p.header.arg0 ≠ ids.remoteId ∨ p.header.arg1 ≠ ids.localId then
      throw (.failed ("Unexpected A_WRTE ids ".toList ++ p.ids.text))
    else do
      send ids.ack
      pure (.next (output ++ p.payload))
  else if p.header.command = aClse then
    if p.header.arg0 ≠ ids.remoteId ∨ p.header.arg1 ≠ ids.localId then
      throw (.failed ("Unexpected A_CLSE ids ".toList ++ p.ids.text))
    else do
      send (AdbPacket.new aClse ids.localId ids.remoteId [])
      pure (.done output)
  else throw (.failed
    ("Unexpected exec output command: ".toList ++ (hexText p.header.command).toList))

def readExecOutput (ids : StreamIds) (pending : List Bytes) : LinkCall Text := do
  let output ← loop (fun e => e) (readExecTurn ids) pending.flatten
  pure (lossyText output)

def StreamIds.closed (ids : StreamIds) : AdbPacket :=
  AdbPacket.new aClse ids.remoteId ids.localId []

def serviceInbox (ids : StreamIds) (frames : List DeviceFrame) : List (Except Text AdbPacket) :=
  DeviceFrame.inbox ids (.okay :: frames) ++ [.ok ids.closed]

structure Collects (ids : StreamIds)
    (turn : Bytes → AdbPacket → SendCall (LoopTurn Bytes Bytes)) : Prop where
  frame : ∀ output (frame : DeviceFrame) {out : Outbox}, out.Works →
    (turn output (frame.packet ids)).Returns out (.next (output ++ frame.payload)) Outbox.Works
  closed : ∀ output {out : Outbox}, out.Works →
    (turn output ids.closed).Returns out (.done output) Outbox.Works

variable (describe : Text → Text) {rest : List (Except Text AdbPacket)} {link : Link}

/-- The loop collects the payloads of all frames up to the close. -/
theorem Collects.loop {ids : StreamIds} {turn : Bytes → AdbPacket → SendCall (LoopTurn Bytes Bytes)}
    (h : Collects ids turn) (frames : List DeviceFrame) (output : Bytes)
    (hln : link.Offers (DeviceFrame.inbox ids frames ++ .ok ids.closed :: rest)) :
    (loop describe turn output).Returns link (output ++ bytes frames) (Link.Offers rest) := by
  obtain ⟨inbox, out⟩ := link
  obtain ⟨hi, ho⟩ := hln
  subst hi
  induction frames generalizing output out with
  | nil =>
    obtain ⟨out', ht, hw⟩ := h.closed output ho
    refine ⟨⟨rest, out'⟩, ?_, rfl, hw⟩
    simp [loop, loopFrom, ht]
  | cons frame frames ih =>
    obtain ⟨out', ht, hw⟩ := h.frame output frame ho
    obtain ⟨link', hl, hof⟩ := ih (output ++ frame.payload) out' hw
    refine ⟨link', ?_, hof⟩
    rw [bytes_cons, ← List.append_assoc, ← hl, loop, runOn_ofRun,
      inbox_cons, List.cons_append, loopFrom, ht]
    rfl

variable (ids : StreamIds)

theorem returns_okay (output : Bytes) {out : Outbox} (ho : out.Works) :
    (pure (.next output) : SendCall (LoopTurn Bytes Bytes)).Returns out
      (.next (output ++ okay.payload)) Outbox.Works := by
  rw [payload, List.append_nil]
  exact returns_pure _ ho

theorem runShellTurn_collects : Collects ids (runShellTurn ids.localId) where
  frame output frame out ho := by
    cases frame with
    | okay => exact returns_okay output ho
    | wrte payload => exact (send_returns ho _).bind fun _ => returns_pure _
  closed output out ho := (send_returns ho _).bind fun _ => returns_pure _

theorem collectTurn_collects : Collects ids (collectTurn ids.localId) where
  frame output frame out ho := by
    cases frame with
    | okay => exact returns_okay output ho
    | wrte payload =>
      exact (send_returns ho _).attempt.bind fun _ => returns_pure _
  closed output out ho :=
    (send_returns ho _).attempt.bind fun _ => returns_pure _

/-- A service that is acknowledged is open. -/
theorem openService_returns (dest : Text) (hl : link.Offers (.ok (okay.packet ids) :: rest)) :
    (openService dest ids.localId).Returns link ids (Link.Offers rest) := by
  refine (sending_returns hl.1 (send_returns hl.2 _)).bind ?_
  rintro ⟨inbox, out⟩ ⟨hi, ho⟩
  subst hi
  exact ⟨⟨rest, out⟩, rfl, rfl, ho⟩

/-- A service whose output is collected gives the bytes of the frames, however they are cut. -/
theorem collected_returns {turn : UInt32 → Bytes → AdbPacket → SendCall (LoopTurn Bytes Bytes)}
    (ht : ∀ ids : StreamIds, Collects ids (turn ids.localId)) (dest : Text) {remoteId : UInt32}
    {frames : List DeviceFrame} (hl : link.Offers (serviceInbox ⟨1, remoteId⟩ frames))
    {α : Type} (f : Bytes → α) :
    (do
      let ids ← openService dest 1
      let output ← loop describe (turn ids.localId) []
      pure (f output) : LinkCall α).Returns link (f (bytes frames)) (Link.Offers []) := by
  have ho := openService_returns ⟨1, remoteId⟩ dest hl
  refine ho.bind fun link' hl' => ?_
  have hlp := (ht ⟨1, remoteId⟩).loop describe frames [] hl'
  exact hlp.bind fun _ => returns_pure _

end AdbFastboot
