import AdbFastboot.AdbMessage
import AdbFastboot.HostProtocol
import AdbFastboot.HostRegistry

namespace AdbFastboot

/-- What `get-state`, `get-serialno` and `get-devpath` ask about a device. -/
inductive HostDatum where
  | state
  | serialno
  | devpath
deriving DecidableEq, Repr

def HostDatum.name : HostDatum → Text
  | .state => "get-state".toList
  | .serialno => "get-serialno".toList
  | .devpath => "get-devpath".toList

def HostDatum.all : List HostDatum := [.state, .serialno, .devpath]

def HostDatum.ofName (name : Text) : Option HostDatum :=
  HostDatum.all.find? fun d => decide (name = d.name)

def DeviceEntry.datum (dev : DeviceEntry) : HostDatum → Text
  | .state => dev.state.asStr
  | .serialno => dev.serial
  | .devpath => dev.origin.devpath

/-- The arms of the `match` in `dispatch_host_service`, with what each takes from the command. -/
inductive HostArm where
  | version
  | kill
  | startServer
  | devices (verbose : Bool)
  | trackDevices
  | waitForDevice
  | anyDatum (datum : HostDatum)
  | serialDatum (rest : Text)
  | transport (serial : Text)
  | transportAny
  | tportSerial (serial : Text)
  | tportAny
  | transportId (idStr : Text)
  | serialFeatures (rest : Text)
  | connect (target : Text)
  | emulator (portStr : Text)
  | disconnectAll
  | disconnect (serial : Text)
  | forward (sub : Text)
  | reverse (sub : Text)
  | hostFeatures
  | mdns (sub : Text)
  | jdwp
  | unknown (other : Text)
deriving DecidableEq, Repr

def HostArm.exactly (name : String) (arm : HostArm) (cmd : Text) : Option HostArm :=
  if cmd = name.toList then some arm else none

def HostArm.after (scheme : String) (arm : Text → HostArm) (cmd : Text) : Option HostArm :=
  (scheme.toList.isPrefixOf? cmd).map arm

def HostArm.guarded (scheme : String) (guard : Text → Bool) (arm : Text → HostArm) (cmd : Text) :
    Option HostArm :=
  (scheme.toList.isPrefixOf? cmd).bind fun rest => if guard cmd then some (arm rest) else none

open HostArm (exactly after guarded) in
def hostArms : List (Text → Option HostArm) :=
  [exactly "host:version" .version, exactly "host:kill" .kill,
    exactly "host:start-server" .startServer,
    exactly "host:devices" (.devices false),
    exactly "host:devices-l" (.devices true),
    exactly "host:track-devices" .trackDevices,
    exactly "host:wait-for-device" .waitForDevice,
    exactly "host:wait-for-any-device" .waitForDevice,
    exactly "host:get-state" (.anyDatum .state),
    exactly "host:get-serialno" (.anyDatum .serialno),
    exactly "host:get-devpath" (.anyDatum .devpath),
    guarded "host-serial:" (fun cmd => HostDatum.all.any fun d => (':' :: d.name).isSuffixOf cmd)
      .serialDatum,
    after "host:transport:" .transport,
    exactly "host:transport-any" .transportAny,
    after "host:tport:serial:" .tportSerial,
    exactly "host:tport:" .tportAny,
    exactly "host:tport:any" .tportAny,
    after "host:transport-id:" .transportId,
    guarded "host-serial:" (strContains ":features".toList) .serialFeatures,
    after "host:connect:" .connect,
    after "host:emulator:" .emulator,
    exactly "host:disconnect" .disconnectAll,
    after "host:disconnect:" .disconnect,
    after "host:forward:" .forward,
    after "host:reverse:" .reverse,
    after "reverse:" .reverse,
    exactly "host:host-features" .hostFeatures,
    after "host:mdns:" .mdns,
    exactly "host:jdwp" .jdwp]

def hostArm (cmd : Text) : HostArm := (hostArms.findSome? fun arm => arm cmd).getD (.unknown cmd)

/-- The host and the text of the port, the host without the brackets of IPv6. -/
def splitHostPort (target : Text) : Except Text (Text × Text) :=
  match target with
  | '[' :: rest =>
    match splitOnce ']' rest with
    | none => .error "invalid IPv6 address: missing closing ']'".toList
    | some (host, ':' :: port) => .ok (host, port)
    | some _ => .error "invalid address: IPv6 host must be followed by ':port'".toList
  | _ =>
    if target.count ':' ≠ 1 then
      .error "invalid address: IPv6 literals must be enclosed in '[' and ']'".toList
    else
      match splitOnce ':' target with
      | none => .error "invalid connect format: use host:port".toList
      | some hostPort => .ok hostPort

def parseAdbHostPort (target : Text) : Except Text (Text × UInt16) := do
  let (host, port) ← splitHostPort target
  if host.isEmpty then throw "invalid address: host is empty".toList
  match fromStrRadix 10 (2 ^ 16) port with
  | none => throw ("invalid port: ".toList ++ port)
  | some port =>
    if port = 0 then throw "invalid port: 0".toList
    pure (host, UInt16.ofNat port)

def connectAddrs (resolve : Text → Except Text (List SocketAddr)) (host : Text) (port : UInt16) :
    Except Text (List SocketAddr) :=
  if host = "localhost".toList ∨ host = [] then
    .ok [⟨"127.0.0.1".toList, port, none⟩, ⟨"::1".toList, port, some []⟩]
  else
    let addrStr :=
      if ':' ∈ host then '[' :: host ++ "]:".toList ++ decimal port.toNat
      else host ++ ':' :: decimal port.toNat
    (resolve addrStr).mapError fun e => "resolve failed: ".toList ++ e

/-- The addresses that `host:connect` tries; the error is what the call ends with. -/
def connectTargets (resolve : Text → Except Text (List SocketAddr)) (target : Text) :
    Except Text (List SocketAddr) := do
  let (host, port) ← parseAdbHostPort target
  connectAddrs resolve host port

inductive HostWrite where
  | okay
  | okayStr (s : Text)
  | fail (msg : Text)
  | raw (bytes : Bytes)
deriving DecidableEq, Repr

inductive HostThread where
  | watch (serial : Text)
  | emulator (port : Nat)
  | forwardListener (localSpec remote : Text)
deriving DecidableEq, Repr

/-- The server as one call sees it, and what the call has done so far. -/
structure HostRun where
  registry : TransportRegistry
  running : Bool
  locks : Nat
  written : List HostWrite
  spawned : List HostThread
deriving DecidableEq, Repr

/-- How a call ends early: with an error, or it is still waiting after the given polls. -/
inductive HostStop where
  | error (text : Text)
  | waiting
deriving DecidableEq, Repr

abbrev HostCall (α : Type) := ExceptT HostStop (StateM HostRun) α

def HostCall.runOn {α : Type} (x : HostCall α) (s : HostRun) : Except HostStop α × HostRun :=
  StateT.run (ExceptT.run x) s

namespace HostCall

variable {α β : Type}

@[simp] theorem runOn_pure (a : α) (s : HostRun) : (pure a : HostCall α).runOn s = (.ok a, s) := rfl

@[simp] theorem runOn_throw (e : HostStop) (s : HostRun) :
    (throw e : HostCall α).runOn s = (.error e, s) := rfl

theorem runOn_bind_ok {x : HostCall α} {f : α → HostCall β} {s s' : HostRun} {a : α}
    (h : x.runOn s = (.ok a, s')) : (x >>= f).runOn s = (f a).runOn s' := by
  unfold runOn at h ⊢
  rw [ExceptT.run_bind, StateT.run_bind, h]
  rfl

theorem runOn_bind_error {x : HostCall α} {f : α → HostCall β} {s s' : HostRun} {e : HostStop}
    (h : x.runOn s = (.error e, s')) : (x >>= f).runOn s = (.error e, s') := by
  unfold runOn at h ⊢
  rw [ExceptT.run_bind, StateT.run_bind, h]
  rfl

end HostCall

inductive AuthTry where
  | signature
  | publicKey
deriving DecidableEq, Repr

def AuthTry.failed : AuthTry → Text
  | .signature => "signature failed: ".toList
  | .publicKey => "rsakey failed: ".toList

/-- The device end of a TCP connection, by the messages that it has been sent. -/
structure RemotePeer where
  sendError : List AdbPacket → Option Text
  recv : List AdbPacket → Except Text AdbPacket

/-- All that a call depends on besides the server's own state. -/
structure HostWorld where
  /-- A thread has failed while it held the registry. -/
  poisoned : Bool
  /-- What other threads have done to the registry before the call takes its lock once more. -/
  others : Nat → TransportRegistry → TransportRegistry
  resolve : Text → Except Text (List SocketAddr)
  tcpConnect : SocketAddr → Except Text RemotePeer
  authMessage : AuthTry → Bytes → Except Text AdbPacket
  bind : Nat → Except ListenError Nat
  /-- The variable `ADB_MDNS` is `0`. -/
  mdnsDisabled : Bool

/-- Nothing else happens: no other thread, no network, every port free. -/
def HostWorld.quiet : HostWorld where
  poisoned := false
  others := fun _ reg => reg
  resolve := fun _ => .error "failed to lookup address information".toList
  tcpConnect := fun _ => .error "Connection refused".toList
  authMessage := fun _ _ => .error "no key".toList
  bind := fun port => .ok port
  mdnsDisabled := false

def HostRun.start (registry : TransportRegistry) : HostRun := ⟨registry, true, 0, [], []⟩

def HostRun.locked (world : HostWorld) (s : HostRun) : HostRun :=
  { s with registry := world.others s.locks s.registry, locks := s.locks + 1 }

namespace HostDispatch

def write (w : HostWrite) : HostCall Unit := modify fun s => { s with written := s.written ++ [w] }

def okEmpty : HostCall Unit := write .okay

def okStr (s : Text) : HostCall Unit := write (.okayStr s)

def fail (msg : Text) : HostCall Unit := write (.fail msg)

def setRegistry (reg : TransportRegistry) : HostCall Unit := modify fun s => { s with registry := reg }

def spawn (thread : HostThread) : HostCall Unit :=
  modify fun s => { s with spawned := s.spawned ++ [thread] }

def deviceNotFound (serial : Text) : Text :=
  "device '".toList ++ serial ++ "' not found".toList

variable (world : HostWorld)

def tryLock : HostCall (Except Text TransportRegistry) := do
  if world.poisoned then
    return .error "poisoned lock: another task failed inside".toList
  modify (HostRun.locked world)
  return .ok (← get).registry

def lockRegistry : HostCall TransportRegistry := do
  match ← tryLock world with
  | .error e => throw (.error ("lock: ".toList ++ e))
  | .ok reg => return reg

theorem runOn_tryLock (h : world.poisoned = false) (s : HostRun) :
    (tryLock world).runOn s = (.ok (.ok (s.locked world).registry), s.locked world) := by
  rw [tryLock, if_neg (by simp [h])]
  rfl

/-- Taking a lock that is not poisoned returns the registry of that moment. -/
theorem runOn_lockRegistry (h : world.poisoned = false) (s : HostRun) :
    (lockRegistry world).runOn s = (.ok (s.locked world).registry, s.locked world) := by
  rw [lockRegistry, HostCall.runOn_bind_ok (runOn_tryLock world h s)]
  rfl

theorem runOn_lockRegistry_poisoned (h : world.poisoned = true) (s : HostRun) : (lockRegistry world).runOn s
      = (.error (.error "lock: poisoned lock: another task failed inside".toList), s) := by
  have ht : (tryLock world).runOn s
      = (.ok (.error "poisoned lock: another task failed inside".toList), s) := by
    rw [tryLock, if_pos h]
    rfl
  rw [lockRegistry, HostCall.runOn_bind_ok ht]
  rfl

def adbVersion : UInt32 := 0x01000001

def aAuthToken : UInt32 := 1

/-- The exchange after the messages `sent`, with the AUTH answers in `tries` still to be given. -/
def authLoop (peer : RemotePeer) (addr : SocketAddr) :
    List AuthTry → List AdbPacket → Except Text Bytes
  | tries, sent => do
    let resp ← (peer.recv sent).mapError fun e => "CNXN response failed: ".toList ++ e
    if resp.header.command = aCnxn then
      return resp.payload
    if resp.header.command ≠ aAuth then
      throw ("expected A_CNXN or A_AUTH from adbd at ".toList ++ addr.toText ++ ", got cmd=0x".toList
        ++ padDigits 16 8 resp.header.command.toNat)
    if resp.header.arg0 ≠ aAuthToken then
      throw ("Unsupported AUTH request type from ".toList ++ addr.toText ++ ": ".toList
        ++ decimal resp.header.arg0.toNat)
    if resp.payload.length ≠ 20 then
      throw ("Invalid ADB AUTH token length from ".toList ++ addr.toText ++ ": ".toList
        ++ decimal resp.payload.length)
    match tries with
    | [] => throw "adbd rejected the ADB RSA key after signature and public-key exchange".toList
    | answer :: tries =>
      let message ← (world.authMessage answer resp.payload).mapError fun e => answer.failed ++ e
      match peer.sendError (sent ++ [message]) with
      | some e => throw ("AUTH send failed: ".toList ++ e)
      | none => authLoop peer addr tries (sent ++ [message])

def remoteBanner (addr : SocketAddr) : Except Text Bytes := do
  let peer ← (world.tcpConnect addr).mapError fun e =>
    "cannot connect to device at ".toList ++ addr.toText ++ ": ".toList ++ e
  let cnxn := AdbPacket.new aCnxn adbVersion maxPayloadV2 (utf8Bytes "host::")
  match peer.sendError [cnxn] with
  | some e => throw ("CNXN probe failed: ".toList ++ e)
  | none => authLoop world peer addr [.signature, .publicKey] [cnxn]

def setProperty (dev : DeviceEntry) (part : Text) : DeviceEntry :=
  match splitOnce '=' part with
  | none => dev
  | some (key, val) =>
    let keyTrimmed := (key.splitOn ':').getLastD key
    if keyTrimmed = "product".toList then { dev with product := some val }
    else if keyTrimmed = "model".toList then { dev with model := some val }
    else if keyTrimmed = "device".toList then { dev with deviceName := some val }
    else dev

def registerRemote (addr : SocketAddr) (payload : Bytes) (reg : TransportRegistry) :
    TransportRegistry :=
  let serial := addr.toText
  let reg := reg.upsertTcpDevice addr serial
  if payload.isEmpty then reg
  else
    let banner := (fromUtf8Lossy payload).toList
    { reg with
      devices := modifyFirst (fun d => decide (d.serial = serial))
        (fun d => ((strTrim banner).splitOn ';').foldl setProperty
          { d with transportFeatures := some banner })
        reg.devices }

def connectToRemote (addr : SocketAddr) : HostCall (Except Text Unit) := do
  match remoteBanner world addr with
  | .error e => return .error e
  | .ok payload =>
    match ← tryLock world with
    | .error e => return .error ("registry lock: ".toList ++ e)
    | .ok reg =>
      setRegistry (registerRemote addr payload reg)
      return .ok ()

def connectFirst : List SocketAddr → Option Text → HostCall (Except (Option Text) Text)
  | [], lastErr => return .error lastErr
  | addr :: addrs, _ => do
    match ← connectToRemote world addr with
    | .ok () => return .ok addr.toText
    | .error e => connectFirst addrs (some e)

def connect (target : Text) : HostCall Unit := do
  match connectTargets world.resolve target with
  | .error e => throw (.error e)
  | .ok sockAddrs =>
    let reg ← lockRegistry world
    if reg.devices.any fun d => decide (d.serial = target) then
      okStr ("already connected to ".toList ++ target)
    else
      match ← connectFirst world sockAddrs none with
      | .ok ipSerial =>
        let reg ← lockRegistry world
        setRegistry (reg.renameDevice ipSerial target)
        spawn (.watch target)
        okStr ("connected to ".toList ++ target)
      | .error lastErr =>
        fail ("cannot connect to ".toList ++ target ++ ": ".toList
          ++ lastErr.getD "cannot connect".toList)

def addForward (localSpec remote : Text) (noRebind : Bool) : HostCall Unit := do
  let reg ← lockRegistry world
  match reg.addForward world.bind localSpec remote noRebind with
  | .ok (res, reg, listens) =>
    setRegistry reg
    if listens then spawn (.forwardListener localSpec remote)
    okStr res
  | .error msg => fail msg

def handleForward (sub : Text) : HostCall Unit := do
  if sub = "list".toList then
    let reg ← lockRegistry world
    okStr reg.listForwards
  else if sub = "killforward-all".toList ∨ sub = "remove-all".toList then
    let reg ← lockRegistry world
    setRegistry reg.removeAllForwards
    okStr []
  else
    match "killforward:".toList.isPrefixOf? sub <|> "remove:".toList.isPrefixOf? sub with
    | some localSpec =>
      let reg ← lockRegistry world
      setRegistry (reg.removeForward localSpec).2
      if (reg.removeForward localSpec).1 then okStr []
      else fail ("forward '".toList ++ localSpec ++ "' not found".toList)
    | none =>
      match "norebind:".toList.isPrefixOf? sub with
      | some rest =>
        match parseSpecPair rest with
        | some (localSpec, remote) => addForward world localSpec remote true
        | none => fail "invalid forward norebind format: use local;remote".toList
      | none =>
        match parseSpecPair sub with
        | some (localSpec, remote) => addForward world localSpec remote false
        | none => fail ("invalid forward: ".toList ++ sub)

def addReverse (spec : Text) (noRebind : Bool) (malformed : Text) : HostCall Unit := do
  match parseSpecPair spec with
  | some (remote, localSpec) =>
    let reg ← lockRegistry world
    match reg.addReverse remote localSpec noRebind with
    | .ok reg =>
      setRegistry reg
      okStr []
    | .error msg => fail msg
  | none => fail malformed

def invalidReverseFormat : Text :=
  "invalid reverse format: use remote;local or remote:local".toList

def handleReverse (sub : Text) : HostCall Unit := do
  if sub = "list".toList then
    let reg ← lockRegistry world
    okStr reg.listReverses
  else if sub = "killforward-all".toList ∨ sub = "killreverse-all".toList
      ∨ sub = "remove-all".toList then
    let reg ← lockRegistry world
    setRegistry reg.removeAllReverses
    okStr []
  else
    match "killreverse:".toList.isPrefixOf? sub <|> "killforward:".toList.isPrefixOf? sub
        <|> "remove:".toList.isPrefixOf? sub with
    | some remote =>
      let reg ← lockRegistry world
      setRegistry (reg.removeReverse remote).2
      if (reg.removeReverse remote).1 then okStr []
      else fail ("reverse forward '".toList ++ remote ++ "' not found".toList)
    | none =>
      match "norebind:".toList.isPrefixOf? sub with
      | some rest => addReverse world rest true invalidReverseFormat
      | none =>
        match "forward:".toList.isPrefixOf? sub with
        | some rest => addReverse world rest false invalidReverseFormat
        | none => addReverse world sub false ("invalid reverse: ".toList ++ sub)

/-- `host:track-devices` after its OKAY: a list whenever it is not the last one. -/
def trackDevices : Nat → Option Text → HostCall Unit
  | 0, _ => throw .waiting
  | polls + 1, last => do
    if (← get).running then
      let reg ← lockRegistry world
      let current := reg.listDevices false
      if last ≠ some current then
        let bytes := utf8Bytes (String.ofList current)
        write (.raw (lengthPrefix bytes.length ++ bytes))
      trackDevices polls (some current)

def waitForDevice : Nat → HostCall Unit
  | 0 => throw .waiting
  | polls + 1 => do
    if (← get).running then
      let reg ← lockRegistry world
      if reg.findAnyDevice.isSome then okEmpty
      else waitForDevice polls
    else fail "server is shutting down".toList

def anyDatum (datum : HostDatum) : HostCall Unit := do
  let reg ← lockRegistry world
  match reg.findAnyDevice with
  | some dev => okStr (dev.datum datum)
  | none => fail "device not found".toList

def unsupportedService (service : Text) : Text :=
  "unsupported host-serial service: ".toList ++ service

def serialDatum (rest : Text) : HostCall Unit := do
  match splitOnce ':' rest with
  | some (serial, cmd) =>
    let reg ← lockRegistry world
    match reg.findBySerial serial with
    | some dev =>
      match HostDatum.ofName cmd with
      | some datum => okStr (dev.datum datum)
      | none => fail (unsupportedService cmd)
    | none => fail (deviceNotFound serial)
  | none => fail "invalid host-serial format".toList

def serialFeatures (rest : Text) : HostCall Unit := do
  match splitOnce ':' rest with
  | some (serial, service) =>
    if service = "features".toList then
      let reg ← lockRegistry world
      match (reg.findBySerial serial).bind DeviceEntry.features with
      | some feat => okStr feat
      | none => fail (deviceNotFound serial ++ " or no features".toList)
    else fail (unsupportedService service)
  | none => fail "invalid host-serial format".toList

def okTransportId (id : Nat) : HostCall Unit := do
  okEmpty
  write (.raw (u64Le (UInt64.ofNat id)))

def transport (serial : Text) : HostCall Unit := do
  let reg ← lockRegistry world
  if ((reg.findBySerial serial).map fun d => isUsableState d.state).getD false then okEmpty
  else fail (deviceNotFound serial)

def transportAny : HostCall Unit := do
  let reg ← lockRegistry world
  match reg.findUniqueDevice with
  | .ok _ => okEmpty
  | .error error => fail error

def tportSerial (serial : Text) : HostCall Unit := do
  let reg ← lockRegistry world
  match reg.findBySerial serial with
  | some dev =>
    if isUsableState dev.state then okTransportId dev.transportId
    else fail ("device '".toList ++ serial ++ "' is offline".toList)
  | none => fail (deviceNotFound serial)

def tportAny : HostCall Unit := do
  let reg ← lockRegistry world
  match reg.findUniqueDevice with
  | .ok dev => okTransportId dev.transportId
  | .error error => fail error

def transportId (idStr : Text) : HostCall Unit := do
  match fromStrRadix 10 (2 ^ 64) idStr with
  | none => fail "invalid transport id".toList
  | some tid =>
    let reg ← lockRegistry world
    if ((reg.findByTransportId tid).map fun d => isUsableState d.state).getD false then okEmpty
    else fail ("transport id ".toList ++ decimal tid ++ " not found".toList)

/-- Only starts a thread, and only for a port: the client is not written to. -/
def emulator (portStr : Text) : HostCall Unit :=
  match fromStrRadix 10 (2 ^ 16) portStr with
  | some port => spawn (.emulator port)
  | none => pure ()

def disconnectAll : HostCall Unit := do
  let reg ← lockRegistry world
  let count := reg.devices.countP fun d => d.origin.isTcp
  setRegistry reg.removeAllTcpDevices
  okStr ("disconnected ".toList ++ decimal count ++ " devices".toList)

def disconnect (serial : Text) : HostCall Unit := do
  let reg ← lockRegistry world
  setRegistry (reg.removeDevice serial).2
  if (reg.removeDevice serial).1 then okStr ("disconnected ".toList ++ serial)
  else fail (deviceNotFound serial)

def hostSupportedFeatures : List Text :=
  ["shell_v2".toList, "cmd".toList, "apex".toList, "abb_exec".toList]

def featuresToString (features : List Text) : Text := [','].intercalate features

def mdns (sub : Text) : HostCall Unit := do
  if sub = "check".toList then
    if world.mdnsDisabled then okStr "ERROR: mdns discovery disabled".toList
    else okStr "mdns daemon version [adb discovery 0.0.0]".toList
  else if sub = "services".toList then
    let reg ← lockRegistry world
    okStr reg.mdnsRows
  else fail ("unsupported mdns service: ".toList ++ sub)

def serverVersion : Nat := 0x01000001

/-- The body of each arm; the loops of two of them are cut off after some polls. -/
def runArm (polls : Nat) : HostArm → HostCall Unit
  | .version => okStr (padDigits 16 4 serverVersion)
  | .kill => do
    okEmpty
    modify fun s => { s with running := false }
  | .startServer => okEmpty
  | .devices verbose => do
    let reg ← lockRegistry world
    okStr (reg.listDevices verbose)
  | .trackDevices => do
    okEmpty
    trackDevices world polls none
  | .waitForDevice => waitForDevice world polls
  | .anyDatum datum => anyDatum world datum
  | .serialDatum rest => serialDatum world rest
  | .transport serial => transport world serial
  | .transportAny => transportAny world
  | .tportSerial serial => tportSerial world serial
  | .tportAny => tportAny world
  | .transportId idStr => transportId world idStr
  | .serialFeatures rest => serialFeatures world rest
  | .connect target => connect world target
  | .emulator portStr => emulator portStr
  | .disconnectAll => disconnectAll world
  | .disconnect serial => disconnect world serial
  | .forward sub => handleForward world sub
  | .reverse sub => handleReverse world sub
  | .hostFeatures => okStr (featuresToString hostSupportedFeatures)
  | .mdns sub => mdns world sub
  | .jdwp => okStr []
  | .unknown other => fail ("unknown host service: ".toList ++ other)

end HostDispatch

def dispatchHostService (world : HostWorld) (polls : Nat) (cmd : Text) : HostCall Unit :=
  HostDispatch.runArm world polls (hostArm cmd)

end AdbFastboot
