import AdbFastboot.StrOps
import AdbFastboot.RadixText

namespace AdbFastboot

abbrev Text := List Char

def decimal (n : Nat) : Text := Nat.toDigits 10 n

inductive DeviceState where
  | offline
  | device
  | recovery
  | sideload
  | bootloader
  | authorizing
  | connecting
  | noPerm
  | unknown
deriving DecidableEq, Repr

def DeviceState.asStr : DeviceState → Text
  | .offline => "offline".toList
  | .device => "device".toList
  | .recovery => "recovery".toList
  | .sideload => "sideload".toList
  | .bootloader => "bootloader".toList
  | .authorizing => "authorizing".toList
  | .connecting => "connecting".toList
  | .noPerm => "no permissions".toList
  | .unknown => "unknown".toList

def isUsableState : DeviceState → Bool
  | .device | .recovery | .sideload | .bootloader => true
  | _ => false

structure SocketAddr where
  ip : Text
  port : UInt16
  /-- What an IPv6 address is written with behind the IP (its scope); `none` for IPv4. -/
  v6 : Option Text
deriving DecidableEq, Repr

def SocketAddr.toText (addr : SocketAddr) : Text :=
  match addr.v6 with
  | none => addr.ip ++ ':' :: decimal addr.port.toNat
  | some scope => '[' :: addr.ip ++ scope ++ "]:".toList ++ decimal addr.port.toNat

inductive DeviceOrigin where
  | usb
  | tcp (addr : SocketAddr)
deriving DecidableEq, Repr

def DeviceOrigin.isTcp : DeviceOrigin → Bool
  | .usb => false
  | .tcp _ => true

def DeviceOrigin.devpath : DeviceOrigin → Text
  | .usb => "usb".toList
  | .tcp addr => addr.ip ++ ':' :: decimal addr.port.toNat

structure DeviceEntry where
  serial : Text
  transportId : Nat
  state : DeviceState
  origin : DeviceOrigin
  product : Option Text
  model : Option Text
  deviceName : Option Text
  transportFeatures : Option Text
deriving DecidableEq, Repr

/-- The value of the first part of the banner that starts with `features=`. -/
def DeviceEntry.features (dev : DeviceEntry) : Option Text := do
  let banner ← dev.transportFeatures
  (banner.splitOn ';').findSome? "features=".toList.isPrefixOf?

structure ForwardRule where
  serial : Text
  localSpec : Text
  remote : Text
deriving DecidableEq, Repr

structure ReverseRule where
  serial : Text
  remote : Text
  localSpec : Text
deriving DecidableEq, Repr

inductive AdbMdnsServiceType where
  | classic
  | tlsConnect
  | tlsPairing
deriving DecidableEq, Repr

def AdbMdnsServiceType.serviceName : AdbMdnsServiceType → Text
  | .classic => "_adb._tcp".toList
  | .tlsConnect => "_adb-tls-connect._tcp".toList
  | .tlsPairing => "_adb-tls-pairing._tcp".toList

structure AdbMdnsService where
  serviceType : AdbMdnsServiceType
  instanceName : Text
  addresses : List Text
  port : UInt16
deriving DecidableEq, Repr

structure TransportRegistry where
  devices : List DeviceEntry
  mdnsServices : List (Text × AdbMdnsService)
  forwards : List ForwardRule
  reverses : List ReverseRule
  nextId : Nat
deriving DecidableEq, Repr

/-- `iter_mut().find(p)` with a change of what it finds. -/
def modifyFirst {α : Type} (p : α → Bool) (f : α → α) : List α → List α
  | [] => []
  | x :: xs => if p x then f x :: xs else x :: modifyFirst p f xs

namespace TransportRegistry

variable (reg : TransportRegistry)

def deviceLine (verbose : Bool) (dev : DeviceEntry) : Text :=
  dev.serial ++ '\t' :: dev.state.asStr
    ++ (if verbose then
        " product:".toList ++ dev.product.getD "unknown".toList
          ++ " model:".toList ++ dev.model.getD "unknown".toList
          ++ " device:".toList ++ dev.deviceName.getD "unknown".toList
      else [])
    ++ ['\n']

def listDevices (verbose : Bool) : Text := reg.devices.flatMap (deviceLine verbose)

def findByTransportId (id : Nat) : Option DeviceEntry :=
  reg.devices.find? fun d => decide (d.transportId = id)

def findBySerial (serial : Text) : Option DeviceEntry :=
  reg.devices.find? fun d => decide (d.serial = serial)

def findAnyDevice : Option DeviceEntry := reg.devices.find? fun d => isUsableState d.state

def findUniqueDevice : Except Text DeviceEntry :=
  match reg.devices.filter fun d => isUsableState d.state with
  | [] => .error "no devices/emulators found".toList
  | [device] => .ok device
  | _ => .error "more than one device/emulator".toList

def upsertTcpDevice (addr : SocketAddr) (serial : Text) : TransportRegistry :=
  if (reg.findBySerial serial).isSome then
    { reg with
      devices := modifyFirst (fun d => decide (d.serial = serial))
        (fun d => { d with state := .device, origin := .tcp addr }) reg.devices }
  else
    { reg with
      devices := reg.devices ++ [⟨serial, reg.nextId, .device, .tcp addr, none, none, none, none⟩]
      nextId := reg.nextId + 1 }

def renameDevice (serial newSerial : Text) : TransportRegistry :=
  { reg with
    devices := modifyFirst (fun d => decide (d.serial = serial))
      (fun d => { d with serial := newSerial }) reg.devices }

def removeDevice (serial : Text) : Bool × TransportRegistry :=
  let devices := reg.devices.filter fun d => !decide (d.serial = serial)
  (decide (reg.devices.length ≠ devices.length), { reg with devices := devices })

def removeAllTcpDevices : TransportRegistry :=
  { reg with devices := reg.devices.filter fun d => !d.origin.isTcp }

def ruleSerial : Text :=
  (reg.findAnyDevice.map DeviceEntry.serial).getD "127.0.0.1:5555".toList

def listForwards : Text :=
  reg.forwards.flatMap fun fw => fw.serial ++ ' ' :: fw.localSpec ++ ' ' :: fw.remote ++ ['\n']

def removeForward (localSpec : Text) : Bool × TransportRegistry :=
  let canonical :=
    if !"tcp:".toList.isPrefixOf localSpec && localSpec.all Char.isDigit then
      "tcp:".toList ++ localSpec
    else localSpec
  let gone := fun f : ForwardRule => decide (f.localSpec = canonical ∨ f.localSpec = localSpec)
  (reg.forwards.any gone, { reg with forwards := reg.forwards.filter fun f => !gone f })

def removeAllForwards : TransportRegistry := { reg with forwards := [] }

def listReverses : Text :=
  reg.reverses.flatMap fun r => r.serial ++ ' ' :: r.remote ++ ' ' :: r.localSpec ++ ['\n']

def addReverse (remote localSpec : Text) (noRebind : Bool) : Except Text TransportRegistry :=
  if noRebind && reg.reverses.any fun r => decide (r.remote = remote) then
    .error ("reverse forward '".toList ++ remote ++ "' already exists".toList)
  else
    .ok { reg with
      reverses := (reg.reverses.filter fun r => !decide (r.remote = remote))
        ++ [⟨reg.ruleSerial, remote, localSpec⟩] }

def removeReverse (remote : Text) : Bool × TransportRegistry :=
  let reverses := reg.reverses.filter fun r => !decide (r.remote = remote)
  (decide (reg.reverses.length ≠ reverses.length), { reg with reverses := reverses })

def removeAllReverses : TransportRegistry := { reg with reverses := [] }

def mdnsRow (service : AdbMdnsService) : Option Text :=
  service.addresses.head?.map fun address =>
    service.instanceName ++ '\t' :: service.serviceType.serviceName ++ ".\t".toList
      ++ address ++ ':' :: decimal service.port.toNat ++ ['\n']

def mdnsRows : Text :=
  ((reg.mdnsServices.filterMap fun (_, service) => mdnsRow service).mergeSort
    fun a b => !b.lex a fun c d => decide (c.toNat < d.toNat)).flatten

end TransportRegistry

def noDevices : TransportRegistry := ⟨[], [], [], [], 1⟩

def specPrefixes : List Text :=
  ["tcp:".toList, "localabstract:".toList, "localreserved:".toList, "localfilesystem:".toList,
    "dev:".toList, "jdwp:".toList]

def parseSpecPair (s : Text) : Option (Text × Text) :=
  splitOnce ';' s
  <|> (specPrefixes.findSome? fun scheme => do
        let rest ← scheme.isPrefixOf? s
        let (p1, p2) ← splitOnce ':' rest
        pure (scheme ++ p1, p2))
  <|> splitOnce ':' s

inductive ListenError where
  | bind (e : Text)
  | localAddr (e : Text)
deriving DecidableEq, Repr

/-- The port a rule listens on (0 for a spec that is not TCP), its spec with that port, and
whether it has a listener. -/
def forwardListener (bind : Nat → Except ListenError Nat) (localSpec : Text) :
    Except Text (Nat × Text × Bool) :=
  if "tcp:".toList.isPrefixOf localSpec || localSpec.all Char.isDigit then
    match fromStrRadix 10 (2 ^ 16) (("tcp:".toList.isPrefixOf? localSpec).getD localSpec) with
    | none => .error ("invalid port in local spec: ".toList ++ localSpec)
    | some requestedPort =>
      match bind requestedPort with
      | .error (.bind e) =>
        .error ("cannot bind listener for ".toList ++ localSpec ++ ": ".toList ++ e)
      | .error (.localAddr e) => .error ("cannot get local addr: ".toList ++ e)
      | .ok p => .ok (p, "tcp:".toList ++ decimal p, true)
  else .ok (0, localSpec, false)

def TransportRegistry.addForward (reg : TransportRegistry) (bind : Nat → Except ListenError Nat)
    (localSpec remoteSpec : Text) (noRebind : Bool) :
    Except Text (Text × TransportRegistry × Bool) := do
  let (boundPort, canonicalLocal, listens) ← forwardListener bind localSpec
  if noRebind && reg.forwards.any fun f => decide (f.localSpec = canonicalLocal) then
    throw ("forward '".toList ++ canonicalLocal ++ "' already exists".toList)
  let reg := (reg.removeForward canonicalLocal).2
  let answer :=
    if localSpec = "tcp:0".toList ∨ localSpec = "0".toList then decimal boundPort else []
  pure (answer, { reg with
    forwards := reg.forwards ++ [⟨reg.ruleSerial, canonicalLocal, remoteSpec⟩] }, listens)

end AdbFastboot
