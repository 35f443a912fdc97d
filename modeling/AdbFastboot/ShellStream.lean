import AdbFastboot.AdbLink
import AdbFastboot.LoopHalt
import AdbFastboot.Outcome
import AdbFastboot.ShellV2RoundTrip

namespace AdbFastboot

open List ShellV2Packet

/-- What the readers of a shell stream have made of it: the bytes that are captured, the exit code,
and what was written to the two outputs. -/
structure ShellOutput where
  captured : Option Bytes
  exitCode : Option UInt8
  stdout : Bytes
  stderr : Bytes
deriving DecidableEq, Repr

def ShellOutput.start (capture : Bool) : ShellOutput where
  captured := if capture then some [] else none
  exitCode := none
  stdout := []
  stderr := []

def ShellOutput.take (output : ShellOutput) : ShellV2Packet → ShellOutput
  | .stdout data =>
    { output with captured := output.captured.map (· ++ data), stdout := output.stdout ++ data }
  | .stderr data =>
    { output with captured := output.captured.map (· ++ data), stderr := output.stderr ++ data }
  | .exitCode code => { output with exitCode := some code }
  | _ => output

structure ShellReader where
  remainder : Bytes
  output : ShellOutput
deriving DecidableEq, Repr

abbrev ShellTurn := LoopStep ShellReader (Outcome LinkStop ShellReader)

def ShellReader.drainFront (reader : ShellReader) (n : Nat) : ShellTurn :=
  if n ≤ reader.remainder.length then .next { reader with remainder := reader.remainder.drop n }
  else .done panicked

def drainTurn (reader : ShellReader) : ShellTurn :=
  match ShellV2Packet.parse reader.remainder with
  | .ok (pkt, consumed) =>
    ShellReader.drainFront { reader with output := reader.output.take pkt } consumed
  | .error .headerTooShort => .done (.ok reader)
  | .error (.payloadTooShort _ _) => .done (.ok reader)
  | .error (.unknownStreamId _) =>
    match readU32 reader.remainder 1 with
    | .ok len => reader.drainFront (5 + len.toNat)
    | .error fault => .done (.error fault)

/-- The loop of `drain_shell_v2_stream`. A turn that goes on takes five bytes or more away, so it
ends within these turns. -/
def drainShellV2Stream (reader : ShellReader) : Outcome LinkStop ShellReader :=
  (runTurns drainTurn (reader.remainder.length + 1) reader).getD (fail .running)

def ShellReader.feed (reader : ShellReader) (bytes : Bytes) : Outcome LinkStop ShellReader :=
  drainShellV2Stream { reader with remainder := reader.remainder ++ bytes }

inductive RecvFailure where
  | unexpectedEof
  | other (text : Text)
deriving DecidableEq, Repr

structure ShellRun where
  result : Outcome LinkStop (Option Bytes × Option UInt8)
  output : ShellOutput

def ShellRun.returns (output : ShellOutput) : ShellRun :=
  ⟨.ok (output.captured, output.exitCode), output⟩

def Outbox.sendAnyway (out : Outbox) (p : AdbPacket) : Outbox := ((Outbox.send p).runOn out).2

def exitLoop (localId : UInt32) :
    List (Except RecvFailure AdbPacket) → Outbox → ShellReader → ShellRun × Outbox
  | [], out, reader => (⟨fail .waiting, reader.output⟩, out)
  | .error .unexpectedEof :: _, out, reader => (.returns reader.output, out)
  | .error (.other e) :: _, out, reader =>
    (⟨fail (.failed ("Stream error: ".toList ++ e)), reader.output⟩, out)
  | .ok p :: rest, out, reader =>
    if p.header.command = aOkay then exitLoop localId rest out reader
    else if p.header.command = aWrte then
      let out := out.sendAnyway (AdbPacket.new aOkay localId p.header.arg0 [])
      match reader.feed p.payload with
      | .ok reader => exitLoop localId rest out reader
      | .error fault => (⟨.error fault, reader.output⟩, out)
    else if p.header.command = aClse then
      (.returns reader.output, out.sendAnyway (AdbPacket.new aClse localId p.header.arg0 []))
    else exitLoop localId rest out reader

def streamShellV2Exit (localId : UInt32) (capture : Bool)
    (inbox : List (Except RecvFailure AdbPacket)) (out : Outbox) : ShellRun × Outbox :=
  exitLoop localId inbox out ⟨[], .start capture⟩

inductive SocketRead where
  | data (bytes : Bytes)
  | wouldBlock
  | timedOut
  | unexpectedEof
  | connectionReset
  | failed (text : Text)
deriving DecidableEq, Repr

def serverLoop : List SocketRead → ShellReader → ShellRun
  | [], reader => ⟨fail .waiting, reader.output⟩
  | .data bytes :: rest, reader =>
    if bytes.length = 0 then .returns reader.output
    else
      match reader.feed bytes with
      | .ok reader => serverLoop rest reader
      | .error fault => ⟨.error fault, reader.output⟩
  | .wouldBlock :: rest, reader => serverLoop rest reader
  | .timedOut :: _, reader => .returns reader.output
  | .unexpectedEof :: _, reader => .returns reader.output
  | .connectionReset :: _, reader => .returns reader.output
  | .failed e :: _, reader => ⟨fail (.failed e), reader.output⟩

def streamShellV2Server (capture : Bool) (reads : List SocketRead) : ShellRun :=
  serverLoop reads ⟨[], .start capture⟩

namespace ShellFrame

def encodeAll (frames : List ShellFrame) : Bytes := frames.flatMap encode

variable (frame : ShellFrame)

@[simp] theorem encodeAll_cons (frames : List ShellFrame) :
    encodeAll (frame :: frames) = frame.encode ++ encodeAll frames := flatMap_cons

end ShellFrame

theorem waits_nil : Waits [] := ⟨_, rfl, trivial⟩

/-- A whole frame is not waited for. -/
theorem not_waits_encode (frame : ShellFrame) (rest : Bytes) : ¬ Waits (frame.encode ++ rest) := by
  rintro ⟨e, hp, hi⟩
  rw [frame.parse_encode] at hp
  split at hp
  next =>
    cases hp
    exact hi
  next => cases hp

variable {frames : List ShellFrame} {reader : ShellReader}

/-- Wherever the stream of some frames is cut, whole frames stand before the cut, with a beginning
of the next one that is no whole frame. -/
theorem encodeAll_cut {front later : Bytes} (h : front ++ later = ShellFrame.encodeAll frames) :
    ∃ whole rest tail, frames = whole ++ rest ∧ front = ShellFrame.encodeAll whole ++ tail ∧
      tail ++ later = ShellFrame.encodeAll rest ∧ Waits tail := by
  induction frames generalizing front with
  | nil =>
    obtain ⟨rfl, rfl⟩ := append_eq_nil_iff.mp h
    exact ⟨[], [], [], rfl, rfl, rfl, waits_nil⟩
  | cons frame frames ih =>
    rw [ShellFrame.encodeAll_cons] at h
    by_cases hs : front.length < frame.encode.length
    · exact ⟨[], frame :: frames, front, rfl, rfl, h, waits_of_short h hs⟩
    obtain ⟨front', rfl⟩ : ∃ front', front = frame.encode ++ front' := by
      have hp := prefix_of_prefix_length_le ⟨_, rfl⟩ ⟨later, h⟩ (by omega)
      exact hp.imp fun _ => Eq.symm
    rw [append_assoc, append_cancel_left_eq] at h
    obtain ⟨whole, rest, tail, rfl, rfl, hr, hw⟩ := ih h
    exact ⟨frame :: whole, rest, tail, rfl, by simp, hr, hw⟩

/-- What one frame does to the output: under an id that is unknown, nothing. -/
def ShellOutput.takeFrame (output : ShellOutput) (frame : ShellFrame) : ShellOutput :=
  match ShellV2Packet.ofPayload frame.id frame.payload with
  | none => output
  | some pkt => output.take pkt

theorem drainTurn_encode (frame : ShellFrame) (rest : Bytes) (output : ShellOutput) :
    drainTurn ⟨frame.encode ++ rest, output⟩ = .next ⟨rest, output.takeFrame frame⟩ := by
  have hl : (frame.encode ++ rest).length = frame.encode.length + rest.length :=
    length_append
  have hd : ∀ output, ShellReader.drainFront ⟨frame.encode ++ rest, output⟩ frame.encode.length
      = .next ⟨rest, output⟩ := by
    intro output
    rw [ShellReader.drainFront, if_pos (by simp), drop_left]
  unfold drainTurn ShellOutput.takeFrame
  simp only [frame.parse_encode]
  cases ofPayload frame.id frame.payload with
  | some pkt => exact hd _
  | none =>
    have hh := frame.encode_length
    have hc := ShellFrame.u32At_encode (append_nil (frame.encode ++ rest)) (by omega)
    simp only [readU32_ok (show 1 + 4 ≤ (frame.encode ++ rest).length by omega), hc]
    rw [← hh]
    exact hd output

theorem drainTurn_waits (h : Waits reader.remainder) : drainTurn reader = .done (.ok reader) := by
  obtain ⟨e, hp, hi⟩ := h
  unfold drainTurn
  rw [hp]
  cases e with
  | headerTooShort | payloadTooShort expected got => rfl
  | unknownStreamId id => exact hi.elim

/-- The loop takes off all whole frames, and leaves the rest. -/
theorem runTurns_drainTurn {tail : Bytes} (hw : Waits tail) (frames : List ShellFrame)
    (output : ShellOutput) {fuel : Nat} (hf : frames.length < fuel) :
    runTurns drainTurn fuel ⟨ShellFrame.encodeAll frames ++ tail, output⟩
      = some (.ok ⟨tail, frames.foldl ShellOutput.takeFrame output⟩) := by
  induction frames generalizing output fuel with
  | nil =>
    obtain ⟨fuel, rfl⟩ : ∃ n, fuel = n + 1 := ⟨fuel - 1, by simp at hf; omega⟩
    exact runTurns_done (drainTurn_waits hw) fuel
  | cons frame frames ih =>
    obtain ⟨fuel, rfl⟩ : ∃ n, fuel = n + 1 := ⟨fuel - 1, by simp at hf; omega⟩
    rw [ShellFrame.encodeAll_cons, append_assoc, runTurns_next (drainTurn_encode ..), foldl_cons]
    exact ih _ (by simpa using hf)

theorem ShellFrame.length_le_encodeAll (frames : List ShellFrame) :
    frames.length ≤ (ShellFrame.encodeAll frames).length := by
  induction frames with
  | nil => exact Nat.le_refl 0
  | cons frame frames ih =>
    have hf := frame.encode_length
    rw [ShellFrame.encodeAll_cons, length_append, length_cons]
    omega

theorem drainShellV2Stream_eq {tail : Bytes} (hw : Waits tail) (frames : List ShellFrame)
    (output : ShellOutput) :
    drainShellV2Stream ⟨ShellFrame.encodeAll frames ++ tail, output⟩
      = .ok ⟨tail, frames.foldl ShellOutput.takeFrame output⟩ := by
  have hle := ShellFrame.length_le_encodeAll frames
  rw [drainShellV2Stream, runTurns_drainTurn hw frames output (by simp; omega)]
  rfl

/-- The reader stands before a whole packet, and with the bytes to come it has the frames before
it. -/
structure ShellReader.Awaits (reader : ShellReader) (later : Bytes) (frames : List ShellFrame) :
    Prop where
  waits : Waits reader.remainder
  stream : reader.remainder ++ later = ShellFrame.encodeAll frames

theorem ShellReader.awaits_start (capture : Bool) (frames : List ShellFrame) :
    ShellReader.Awaits ⟨[], .start capture⟩ (ShellFrame.encodeAll frames) frames :=
  ⟨waits_nil, rfl⟩

/-- Bytes that arrive complete frames, and the reader waits for the others. -/
theorem ShellReader.Awaits.feed {bytes later : Bytes} (h : reader.Awaits (bytes ++ later) frames) :
    ∃ whole rest tail, frames = whole ++ rest ∧
      reader.feed bytes = .ok ⟨tail, whole.foldl ShellOutput.takeFrame reader.output⟩ ∧
      ShellReader.Awaits ⟨tail, whole.foldl ShellOutput.takeFrame reader.output⟩ later rest := by
  obtain ⟨whole, rest, tail, hf, hfr, hr, hw⟩ :=
    encodeAll_cut ((append_assoc ..).trans h.stream)
  refine ⟨whole, rest, tail, hf, ?_, hw, hr⟩
  rw [ShellReader.feed, hfr, drainShellV2Stream_eq hw]

theorem ShellReader.Awaits.done (h : reader.Awaits [] frames) : frames = [] := by
  cases frames with
  | nil => rfl
  | cons frame frames =>
    have hs := h.stream
    rw [append_nil, ShellFrame.encodeAll_cons] at hs
    exact absurd (hs ▸ h.waits) (not_waits_encode frame _)

section

def wrtePayload (p : AdbPacket) : Bytes :=
  if p.header.command = aWrte then p.payload else []

def wrteAck (localId : UInt32) (p : AdbPacket) : List AdbPacket :=
  if p.header.command = aWrte then [AdbPacket.new aOkay localId p.header.arg0 []] else []

def EndsStream : Except RecvFailure AdbPacket → Prop
  | .ok p => p.header.command = aClse
  | .error failure => failure = .unexpectedEof

def closeAck (localId : UInt32) : Except RecvFailure AdbPacket → List AdbPacket
  | .ok p => [AdbPacket.new aClse localId p.header.arg0 []]
  | .error _ => []

@[simp] theorem Outbox.sendAnyway_sent (out : Outbox) (p : AdbPacket) :
    (out.sendAnyway p).sent = out.sent ++ [p] := by
  rw [Outbox.sendAnyway, Outbox.send, StateCall.runOn_ofRun]
  split <;> rfl

variable {localId : UInt32} {last : Except RecvFailure AdbPacket}
  {more : List (Except RecvFailure AdbPacket)}

/-- The end of the stream returns the output. -/
theorem exitLoop_ends (hl : EndsStream last) (out : Outbox) (reader : ShellReader) :
    (exitLoop localId (last :: more) out reader).1 = .returns reader.output ∧
    (exitLoop localId (last :: more) out reader).2.sent = out.sent ++ closeAck localId last := by
  cases last with
  | error failure =>
    cases hl
    exact ⟨rfl, (append_nil _).symm⟩
  | ok p =>
    have hc : p.header.command = aClse := hl
    have ho : p.header.command ≠ aOkay := by rw [hc]; decide
    have hw : p.header.command ≠ aWrte := by rw [hc]; decide
    rw [exitLoop, if_neg ho, if_neg hw, if_pos hc]
    exact ⟨rfl, Outbox.sendAnyway_sent ..⟩

theorem exitLoop_other {p : AdbPacket} (hw : p.header.command ≠ aWrte)
    (hc : p.header.command ≠ aClse) (rest : List (Except RecvFailure AdbPacket)) (out : Outbox)
    (reader : ShellReader) :
    exitLoop localId (.ok p :: rest) out reader = exitLoop localId rest out reader := by
  rw [exitLoop]
  by_cases ho : p.header.command = aOkay
  · rw [if_pos ho]
  · rw [if_neg ho, if_neg hw, if_neg hc]

theorem exitLoop_wrte {p : AdbPacket} (hw : p.header.command = aWrte)
    {reader reader' : ShellReader} (hf : reader.feed p.payload = .ok reader')
    (rest : List (Except RecvFailure AdbPacket)) (out : Outbox) :
    exitLoop localId (.ok p :: rest) out reader
      = exitLoop localId rest (out.sendAnyway (AdbPacket.new aOkay localId p.header.arg0 []))
          reader' := by
  have ho : p.header.command ≠ aOkay := by rw [hw]; decide
  rw [exitLoop, if_neg ho, if_pos hw, hf]

/-- The direct loop returns the output of all frames it was sent. -/
theorem exitLoop_eq (hls : EndsStream last) {messages : List AdbPacket}
    (ho : ∀ p ∈ messages, p.header.command ≠ aClse) (out : Outbox) {reader : ShellReader}
    {frames : List ShellFrame} (h : reader.Awaits (messages.flatMap wrtePayload) frames) :
    let run := exitLoop localId (messages.map .ok ++ last :: more) out reader
    run.1 = .returns (frames.foldl ShellOutput.takeFrame reader.output) ∧
    run.2.sent = out.sent ++ messages.flatMap (wrteAck localId) ++ closeAck localId last := by
  induction messages generalizing out reader frames with
  | nil =>
    cases h.done
    simpa using exitLoop_ends hls out reader
  | cons p messages ih =>
    have hc := ho p (mem_cons_self ..)
    have hl := fun q hq => ho q (mem_cons_of_mem p hq)
    simp only [map_cons, cons_append, flatMap_cons] at h ⊢
    by_cases hw : p.header.command = aWrte
    · rw [wrtePayload, if_pos hw] at h
      obtain ⟨whole, rest, tail, rfl, hf, ha⟩ := h.feed
      rw [exitLoop_wrte hw hf, foldl_append, wrteAck, if_pos hw]
      have hr := ih hl (out.sendAnyway (AdbPacket.new aOkay localId p.header.arg0 [])) ha
      rw [Outbox.sendAnyway_sent, append_assoc out.sent] at hr
      exact hr
    · rw [wrtePayload, if_neg hw, nil_append] at h
      rw [exitLoop_other hw hc, wrteAck, if_neg hw, nil_append]
      exact ih hl out h

end

namespace SocketRead

def GoesOn : SocketRead → Prop
  | data bytes => bytes ≠ []
  | wouldBlock => True
  | _ => False

def Ends : SocketRead → Prop
  | data bytes => bytes = []
  | timedOut => True
  | unexpectedEof => True
  | connectionReset => True
  | _ => False

def bytes : SocketRead → Bytes
  | data bytes => bytes
  | _ => []

end SocketRead

theorem serverLoop_ends {last : SocketRead} (hl : last.Ends) (more : List SocketRead)
    (reader : ShellReader) : serverLoop (last :: more) reader = .returns reader.output := by
  cases last with
  | data bytes =>
    cases hl
    rfl
  | wouldBlock => exact hl.elim
  | timedOut | unexpectedEof | connectionReset => rfl
  | failed e => exact hl.elim

/-- The server's loop returns the output of all frames it has read. -/
theorem serverLoop_eq {last : SocketRead} (hls : last.Ends) (more : List SocketRead)
    {reads : List SocketRead} (hrs : ∀ read ∈ reads, read.GoesOn)
    (h : reader.Awaits (reads.flatMap SocketRead.bytes) frames) :
    serverLoop (reads ++ last :: more) reader
      = .returns (frames.foldl ShellOutput.takeFrame reader.output) := by
  induction reads generalizing reader frames with
  | nil =>
    cases h.done
    exact serverLoop_ends hls more reader
  | cons read reads ih =>
    have hrd := hrs read (mem_cons_self ..)
    have hl := fun r hr => hrs r (mem_cons_of_mem read hr)
    cases read with
    | data bytes =>
      obtain ⟨whole, rest, tail, rfl, hf, ha⟩ := h.feed
      have hln : bytes.length ≠ 0 := fun hz => hrd (eq_nil_of_length_eq_zero hz)
      change reader.feed bytes = _ at hf
      rw [cons_append, serverLoop, if_neg hln, hf, foldl_append]
      exact ih hl ha
    | wouldBlock => exact ih hl h
    | timedOut | unexpectedEof | connectionReset | failed e => exact hrd.elim

namespace ShellFrame

def payloads (ids : Bytes) (frames : List ShellFrame) : Bytes :=
  (frames.filter fun frame => ids.contains frame.id).flatMap payload

def exitCodeOf (frame : ShellFrame) : Option UInt8 :=
  if frame.id = shellIdExit then some (frame.payload.headD 0) else none

/-- The code of the last exit packet: the first byte of its payload, zero without one. -/
def lastExitCode (frames : List ShellFrame) : Option UInt8 :=
  (frames.filterMap exitCodeOf).getLast?

theorem payloads_cons (ids : Bytes) (frame : ShellFrame) (frames : List ShellFrame) :
    payloads ids (frame :: frames)
      = (if ids.contains frame.id then frame.payload else []) ++ payloads ids frames := by
  unfold payloads
  rw [filter_cons]
  split
  next => exact flatMap_cons
  next => rfl

theorem lastExitCode_cons (frame : ShellFrame) (frames : List ShellFrame) :
    lastExitCode (frame :: frames) = (lastExitCode frames).or frame.exitCodeOf := by
  unfold lastExitCode
  cases hc : frame.exitCodeOf with
  | none => simp [hc]
  | some code => simp [hc, getLast?_cons, Option.or_some]

end ShellFrame

theorem ShellOutput.takeFrame_eq (output : ShellOutput) (frame : ShellFrame) : output.takeFrame frame = {
      captured := output.captured.map
        (· ++ if [shellIdStdout, shellIdStderr].contains frame.id then frame.payload else [])
      exitCode := frame.exitCodeOf.or output.exitCode
      stdout := output.stdout ++ if [shellIdStdout].contains frame.id then frame.payload else []
      stderr := output.stderr ++ if [shellIdStderr].contains frame.id then frame.payload else [] } := by
  obtain ⟨id, payload, fits⟩ := frame
  unfold ShellOutput.takeFrame ofPayload ShellFrame.exitCodeOf
  dsimp only
  by_cases ho : id = shellIdStdout
  · subst ho
    simp [ShellOutput.take, shellIdStdin, shellIdStdout, shellIdStderr, shellIdExit]
  by_cases he : id = shellIdStderr
  · subst he
    simp [ShellOutput.take, shellIdStdin, shellIdStdout, shellIdStderr, shellIdExit]
  by_cases hexit : id = shellIdExit
  · subst hexit
    simp [ShellOutput.take, shellIdStdin, shellIdStdout, shellIdStderr, shellIdExit]
  rw [if_neg ho, if_neg he, if_neg hexit, if_neg hexit]
  have hot : output = ⟨output.captured.map (· ++ []), (none : Option UInt8).or output.exitCode,
      output.stdout ++ [], output.stderr ++ []⟩ := by simp
  simp only [contains_cons, contains_nil, beq_eq_false_iff_ne.mpr ho,
    beq_eq_false_iff_ne.mpr he, Bool.or_self, Bool.false_eq_true, if_false, ← hot]
  split
  next => rfl
  next pkt hp =>
    split at hp
    next => cases hp; rfl
    split at hp
    next => cases hp; rfl
    split at hp
    next => cases hp; rfl
    next => cases hp

/-- The output of frames is the payload of each stream and the last exit code. -/
theorem ShellOutput.foldl_takeFrame (frames : List ShellFrame) (output : ShellOutput) :
    frames.foldl ShellOutput.takeFrame output = {
      captured := output.captured.map
        (· ++ ShellFrame.payloads [shellIdStdout, shellIdStderr] frames)
      exitCode := (ShellFrame.lastExitCode frames).or output.exitCode
      stdout := output.stdout ++ ShellFrame.payloads [shellIdStdout] frames
      stderr := output.stderr ++ ShellFrame.payloads [shellIdStderr] frames } := by
  induction frames generalizing output with
  | nil => simp [ShellFrame.payloads, ShellFrame.lastExitCode]
  | cons frame frames ih =>
    rw [foldl_cons, ih, output.takeFrame_eq]
    simp only [ShellFrame.payloads_cons, ShellFrame.lastExitCode_cons, Option.map_map,
      Function.comp_def, append_assoc, Option.or_assoc]

/-- However the stream of some packets is cut into frames of the device or into reads, both readers
write what the packets carry, give the last exit code, and each `WRTE` is answered once. -/
theorem shell_v2_streams_exact (localId : UInt32) (capture : Bool) (frames : List ShellFrame)
    (messages : List AdbPacket) (last : Except RecvFailure AdbPacket) (reads : List SocketRead)
    (lastRead : SocketRead) (hopen : ∀ p ∈ messages, p.header.command ≠ aClse)
    (hmessages : messages.flatMap wrtePayload = ShellFrame.encodeAll frames)
    (hlast : EndsStream last) (hgoes : ∀ read ∈ reads, read.GoesOn)
    (hreads : reads.flatMap SocketRead.bytes = ShellFrame.encodeAll frames)
    (hlastRead : lastRead.Ends)
    (out : Outbox) (more : List (Except RecvFailure AdbPacket)) (moreReads : List SocketRead) :
    let exit := streamShellV2Exit localId capture (messages.map .ok ++ last :: more) out
    let server := streamShellV2Server capture (reads ++ lastRead :: moreReads)
    exit.1 = server ∧
    server.result = .ok
      (if capture then some (ShellFrame.payloads [shellIdStdout, shellIdStderr] frames) else none,
        ShellFrame.lastExitCode frames) ∧
    server.output.stdout = ShellFrame.payloads [shellIdStdout] frames ∧
    server.output.stderr = ShellFrame.payloads [shellIdStderr] frames ∧
    exit.2.sent = out.sent ++ messages.flatMap (wrteAck localId) ++ closeAck localId last := by
  intro exit server
  have hst := ShellReader.awaits_start capture frames
  have hexit : exit.1 = _ ∧ exit.2.sent = _ := exitLoop_eq hlast hopen out (hmessages ▸ hst)
  have hs : server = _ := serverLoop_eq hlastRead moreReads hgoes (hreads ▸ hst)
  rw [ShellOutput.foldl_takeFrame] at hexit hs
  rw [hs, hexit.1, hexit.2]
  refine ⟨rfl, ?_, by simp [ShellRun.returns, ShellOutput.start],
    by simp [ShellRun.returns, ShellOutput.start], rfl⟩
  cases capture <;> simp [ShellRun.returns, ShellOutput.start]

/-- An unknown packet between two others, cut in its header by the frames and after it by the
reads. -/
theorem shell_v2_streams_exact_unknown :
    let stream : List UInt8 := [1, 1, 0, 0, 0, 65, 9, 1, 0, 0, 0, 7, 3, 1, 0, 0, 0, 2]
    let wrtes := [AdbPacket.new aWrte 5 1 (stream.take 8), AdbPacket.new aWrte 5 1 (stream.drop 8)]
    let reads : List SocketRead := [.data (stream.take 12), .data (stream.drop 12)]
    let run := streamShellV2Exit 1 true (wrtes.map .ok ++ [.error .unexpectedEof]) ⟨[], []⟩
    run.1 = streamShellV2Server true (reads ++ [.data []]) ∧
    run.1.result = .ok (some [65], some 2) ∧
    run.2.sent = [AdbPacket.new aOkay 1 5 [], AdbPacket.new aOkay 1 5 []] := by
  intro stream wrtes reads
  let frames : List ShellFrame :=
    [⟨1, [65], by decide⟩, ⟨9, [7], by decide⟩, ⟨3, [2], by decide⟩]
  have hexact := shell_v2_streams_exact 1 true frames wrtes (.error .unexpectedEof) reads (.data [])
    (by decide) rfl rfl (by simp [SocketRead.GoesOn, reads, stream]) rfl rfl ⟨[], []⟩ [] []
  dsimp only at hexact ⊢
  obtain ⟨ha, hr, -, -, hs⟩ := hexact
  rw [hs, ha, hr]
  exact ⟨rfl, rfl, rfl⟩

end AdbFastboot
