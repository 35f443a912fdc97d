import AdbFastboot.MdnsAnswer

namespace AdbFastboot

def ipv4Text (addr : Ipv4Addr) : Text :=
  List.intercalate ['.'] ([24, 16, 8, 0].map fun shift => decimal ((addr.toNat >>> shift) % 2 ^ 8))

def ipv6Segments (addr : Ipv6Addr) : List Nat :=
  [112, 96, 80, 64, 48, 32, 16, 0].map fun shift => (addr.toNat >>> shift) % 2 ^ 16

/-- The first of the longest runs of zeros: where it starts, and how long it is. -/
def longestZeroRun (segments : List Nat) : Nat × Nat :=
  let runs := (List.range segments.length).map fun start =>
    (start, ((segments.drop start).takeWhile (· == 0)).length)
  runs.foldl (fun best run => if best.2 < run.2 then run else best) (0, 0)

def segmentsText (segments : List Nat) : Text :=
  List.intercalate [':'] (segments.map (Nat.toDigits 16))

def ipv6Text (addr : Ipv6Addr) : Text :=
  let segments := ipv6Segments addr
  if segments.take 6 = [0, 0, 0, 0, 0, 0xffff] then
    "::ffff:".toList ++ ipv4Text (addr.setWidth 32)
  else
    let (start, len) := longestZeroRun segments
    if 1 < len then
      segmentsText (segments.take start) ++ "::".toList ++ segmentsText (segments.drop (start + len))
    else segmentsText segments

def IpAddr.toText : IpAddr → Text
  | .v4 addr => ipv4Text addr
  | .v6 addr => ipv6Text addr

/-- Without a scope nothing is written behind the address. -/
def SocketAddr.new (ip : IpAddr) (port : UInt16) : SocketAddr :=
  match ip with
  | .v4 addr => ⟨ipv4Text addr, port, none⟩
  | .v6 addr => ⟨ipv6Text addr, port, some []⟩

inductive AdbMdnsUpdate where
  | create
  | update
  | delete
deriving DecidableEq, Repr

structure DiscoveredService where
  instanceName : Text
  serviceType : Text
  hostName : Text
  ipv4Addresses : List Ipv4Addr
  ipv6Addresses : List Ipv6Addr
  port : UInt16
  txtRecords : TxtAttributes
deriving DecidableEq

namespace MdnsService

/-- The serial in a name of the form `adb-<serial>-_adb-tls-connect._tcp.local.`. -/
def nameSerial (name : Text) : Option Text := do
  let rest ← "adb-".toList.isPrefixOf? name
  let stop := (strFind "-_".toList rest <|> strFind "._".toList rest
    <|> strFind ".".toList rest).getD rest.length
  let serialPart := rest.take stop
  if serialPart.isEmpty then none else some serialPart

def deviceSerial (service : MdnsService) : Option Text :=
  match service.txtRecords.lookup "serial".toList with
  | some serial => if serial.isEmpty then nameSerial service.instanceName else some serial
  | none => nameSerial service.instanceName

def listed (service : MdnsService) : AdbMdnsService :=
  ⟨service.serviceType, service.instanceName, service.addresses.map IpAddr.toText, service.port⟩

end MdnsService

def serviceKey (service : MdnsService) : Text :=
  service.instanceName ++ '\x00' :: service.serviceType.serviceName

def serviceSerial (service : MdnsService) : Text :=
  service.deviceSerial.getD service.instanceName

def toAdbService (info : DiscoveredService) : Option MdnsService :=
  let service := fun serviceType : AdbMdnsServiceType => ({
    serviceType := serviceType
    instanceName := info.instanceName
    hostName := if info.hostName.isEmpty then none else some info.hostName
    addresses := info.ipv4Addresses.map .v4 ++ info.ipv6Addresses.map .v6
    port := info.port
    txtRecords := info.txtRecords } : MdnsService)
  if strContains "_adb-tls-connect._tcp".toList info.serviceType then some (service .tlsConnect)
  else if strContains "_adb._tcp".toList info.serviceType then some (service .classic)
  else none

abbrev ServiceMap := AList fun _ : Text => MdnsService

/-- The registry, with the whole of each service: the list in it has what the host command reads. -/
structure DiscoveryRegistry where
  registry : TransportRegistry
  mdnsServices : ServiceMap

namespace DiscoveryRegistry

def setServices (reg : DiscoveryRegistry) (services : ServiceMap) : DiscoveryRegistry where
  registry := { reg.registry with
    mdnsServices := services.entries.map fun entry => (entry.1, entry.2.listed) }
  mdnsServices := services

def setDevices (reg : DiscoveryRegistry) (devices : List DeviceEntry) : DiscoveryRegistry :=
  { reg with registry := { reg.registry with devices := devices } }

end DiscoveryRegistry

/-- `str::cmp`. The order of the UTF-8 bytes is that of the characters. -/
def textLt (a b : Text) : Bool := a.lex b fun c d => decide (c.toNat < d.toNat)

def serviceLe (a b : MdnsService) : Bool :=
  if a.serviceType.serviceName = b.serviceType.serviceName then
    !textLt b.instanceName a.instanceName
  else textLt a.serviceType.serviceName b.serviceType.serviceName

def candidates (order : IterationOrder MdnsService) (services : ServiceMap) (serial : Text) :
    List MdnsService :=
  ((order.arrange (services.entries.map Sigma.snd)).filter fun service =>
    decide (serviceSerial service = serial) && !service.addresses.isEmpty).mergeSort serviceLe

def txtOf (service : MdnsService) (key : String) : Option Text :=
  service.txtRecords.lookup key.toList

def DeviceEntry.advertised (dev : DeviceEntry) (service : MdnsService) (address : IpAddr) :
    DeviceEntry :=
  { dev with
    state := .device
    origin := .tcp (.new address service.port)
    product := txtOf service "product"
    model := txtOf service "model"
    deviceName := txtOf service "device" }

/-- No candidate is without an address, so `service.addresses[0]` is in range. -/
def refreshDeviceForSerial (order : IterationOrder MdnsService) (reg : DiscoveryRegistry)
    (serial : Text) : DiscoveryRegistry :=
  match candidates order reg.mdnsServices serial with
  | service :: _ =>
    match service.addresses with
    | [] => reg
    | address :: _ =>
      match reg.registry.findBySerial serial with
      | some existing =>
        if existing.origin.isTcp then
          reg.setDevices (modifyFirst (fun d => decide (d.serial = serial))
            (fun d => d.advertised service address) reg.registry.devices)
        else reg
      | none =>
        let dev : DeviceEntry :=
          ⟨serial, reg.registry.nextId, .device, .usb, none, none, none, none⟩
        { reg with registry := { reg.registry with
            devices := reg.registry.devices ++ [dev.advertised service address]
            nextId := reg.registry.nextId + 1 } }
  | [] =>
    reg.setDevices (reg.registry.devices.filter fun device =>
      !decide (device.serial = serial) || !device.origin.isTcp)

def applyDiscoveryEvent (order : IterationOrder MdnsService) (reg : DiscoveryRegistry)
    (event : AdbMdnsUpdate) (discovered : DiscoveredService) : DiscoveryRegistry :=
  match toAdbService discovered with
  | none => reg
  | some service =>
    let key := serviceKey service
    match event with
    | .create | .update =>
      let previous := reg.mdnsServices.lookup key
      let reg := reg.setServices (reg.mdnsServices.insert key service)
      let reg := match previous with
        | some old =>
          if serviceSerial old ≠ serviceSerial service then
            refreshDeviceForSerial order reg (serviceSerial old)
          else reg
        | none => reg
      refreshDeviceForSerial order reg (serviceSerial service)
    | .delete =>
      match reg.mdnsServices.lookup key with
      | some old =>
        refreshDeviceForSerial order (reg.setServices (reg.mdnsServices.erase key))
          (serviceSerial old)
      | none => reg

end AdbFastboot
