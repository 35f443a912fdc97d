import AdbFastboot.HostDispatch
import AdbFastboot.MdnsBackend
import AdbFastboot.StepRun
import Mathlib.Logic.Function.Basic

namespace AdbFastboot

structure UsbCandidate where
  serial : Option Text
  busNumber : UInt8
  address : UInt8
deriving DecidableEq, Repr

def UsbCandidate.name (cand : UsbCandidate) : Text :=
  cand.serial.getD (padDigits 10 3 cand.busNumber.toNat ++ padDigits 10 3 cand.address.toNat)

def swapRemove {α : Type} (xs : List α) (i : Nat) : List α :=
  match xs.getLast? with
  | none => xs
  | some last => if i + 1 = xs.length then xs.dropLast else xs.dropLast.set i last

/-- The loop that takes elements out of a vector with `swap_remove`. A turn goes on in the vector or
makes it shorter. -/
def swapPrune {α : Type} (gone : α → Bool) : Nat → Nat → List α → List α
  | 0, _, xs => xs
  | turns + 1, i, xs =>
    match xs[i]? with
    | none => xs
    | some x => if gone x then swapPrune gone turns i (swapRemove xs i)
      else swapPrune gone turns (i + 1) xs

namespace TransportRegistry

variable (reg : TransportRegistry)

def hasSerial (serial : Text) : Bool := reg.devices.any fun d => decide (d.serial = serial)

def pushUsb (serial : Text) : TransportRegistry :=
  { reg with
    devices := reg.devices ++ [⟨serial, reg.nextId, .device, .usb, none, none, none, none⟩]
    nextId := reg.nextId + 1 }

def registerUsbDevice (serial : Text) : TransportRegistry :=
  if reg.hasSerial serial then reg else reg.pushUsb serial

def refreshUsbDevices (serials : List Text) : TransportRegistry :=
  let reg := serials.foldl registerUsbDevice reg
  { reg with devices := reg.devices.filter fun d => d.origin.isTcp || serials.contains d.serial }

def pruneUsb (now : List Text) : TransportRegistry :=
  { reg with
    devices := swapPrune (fun d => !d.origin.isTcp && !now.contains d.serial) reg.devices.length 0
      reg.devices }

def usbSerials : List Text :=
  (reg.devices.filter fun d => !d.origin.isTcp).map DeviceEntry.serial

def markOffline (serial : Text) : TransportRegistry :=
  { reg with
    devices := modifyFirst (fun d => decide (d.serial = serial))
      (fun d => { d with state := .offline }) reg.devices }

def updateRegistryDevice (service : MdnsService) : TransportRegistry :=
  match service.addresses with
  | [] => reg
  | ip :: _ =>
    let serial := service.deviceSerial.getD (ip.toText ++ ':' :: decimal service.port.toNat)
    reg.upsertTcpDevice (.new ip service.port) serial

end TransportRegistry

inductive ServerCall where
  /-- `host:connect` after its check, or the thread of `host:emulator`: the serial to be, and the
  addresses to try. -/
  | connecting (serial : Text) (addrs : List SocketAddr)
  /-- The device is connected and registered under its address. -/
  | naming (ipSerial serial : Text) (connection : Nat)
  /-- The refresh of `TransportManager`: the serials before it, those found, those to look at. -/
  | refreshing (before now todo : List Text)
deriving DecidableEq, Repr

structure Watcher where
  serial : Text
  connection : Nat
deriving DecidableEq, Repr

structure ServerState where
  discovery : DiscoveryRegistry
  calls : List ServerCall
  watchers : List Watcher
  connections : Nat
  /-- The connection that has registered the device of a transport id. -/
  owner : Nat → Option Nat

/-- What happens under one lock of the registry, or between two. -/
inductive ServerStep where
  | connect (resolve : Text → Except Text (List SocketAddr)) (target : Text)
  | emulator (port : UInt16)
  /-- A call connects to one of its addresses; the device's banner. -/
  | connected (call addr : Nat) (banner : Bytes)
  | unreachable (call : Nat)
  | named (call : Nat)
  | lost (watcher : Nat)
  | disconnect (serial : Text)
  | disconnectAll
  | usbPoll (candidates : List UsbCandidate)
  | usbRefresh (candidates : List UsbCandidate)
  | usbNext (call : Nat)
  | registerUsb (serial : Text)
  | registerTcp (addr : SocketAddr) (serial : Text)
  | unregister (serial : Text)
  | mdnsEvent (order : IterationOrder MdnsService) (event : AdbMdnsUpdate)
      (discovered : DiscoveredService)
  | mdnsFound (service : MdnsService)
  | mdnsGone (serial : Text)

namespace ServerState

variable (s : ServerState)

def registry : TransportRegistry := s.discovery.registry

def setRegistry (reg : TransportRegistry) : ServerState :=
  { s with discovery := { s.discovery with registry := reg } }

def begin (call : ServerCall) : ServerState := { s with calls := s.calls ++ [call] }

/-- The registry of a server that starts where there is no device. -/
def start : ServerState := ⟨⟨⟨[], [], [], [], 1⟩, ∅⟩, [], [], 0, fun _ => none⟩

def emulatorSerial (port : UInt16) : Text := "emulator-".toList ++ decimal (port.toNat - 1)

def register (call : Nat) (serial : Text) (addr : SocketAddr) (banner : Bytes) : ServerState :=
  let reg := HostDispatch.registerRemote addr banner s.registry
  { s.setRegistry reg with
    calls := s.calls.set call (.naming addr.toText serial s.connections)
    connections := s.connections + 1
    owner := match reg.findBySerial addr.toText with
      | none => s.owner
      | some d => Function.update s.owner d.transportId (some s.connections) }

def name (call : Nat) (ipSerial serial : Text) (connection : Nat) : ServerState :=
  { s.setRegistry (s.registry.renameDevice ipSerial serial) with
    calls := s.calls.eraseIdx call
    watchers := s.watchers ++ [⟨serial, connection⟩] }

/-- One more of the devices that were found, or the end of the refresh. -/
def refreshNext (call : Nat) (before now : List Text) : List Text → ServerState
  | [] => { s.setRegistry (s.registry.pruneUsb now) with calls := s.calls.eraseIdx call }
  | serial :: todo =>
    let s := { s with calls := s.calls.set call (.refreshing before now todo) }
    if before.contains serial then s else s.setRegistry (s.registry.pushUsb serial)

def step : ServerStep → Option ServerState
  | .connect resolve target =>
    match connectTargets resolve target with
    | .error _ => some s
    | .ok addrs =>
      some (if s.registry.hasSerial target then s else s.begin (.connecting target addrs))
  | .emulator port =>
    some (s.begin (.connecting (emulatorSerial port) [⟨"127.0.0.1".toList, port, none⟩]))
  | .connected call addr banner =>
    match s.calls[call]? with
    | some (.connecting serial addrs) =>
      addrs[addr]?.map fun address => s.register call serial address banner
    | _ => none
  | .unreachable call =>
    match s.calls[call]? with
    | some (.connecting _ _) => some { s with calls := s.calls.eraseIdx call }
    | _ => none
  | .named call =>
    match s.calls[call]? with
    | some (.naming ipSerial serial connection) => some (s.name call ipSerial serial connection)
    | _ => none
  | .lost watcher =>
    s.watchers[watcher]?.map fun w =>
      { s.setRegistry (s.registry.markOffline w.serial) with
        watchers := s.watchers.eraseIdx watcher }
  | .disconnect serial => some (s.setRegistry (s.registry.removeDevice serial).2)
  | .disconnectAll => some (s.setRegistry s.registry.removeAllTcpDevices)
  | .usbPoll candidates =>
    some (s.setRegistry (s.registry.refreshUsbDevices (candidates.map UsbCandidate.name)))
  | .usbRefresh candidates =>
    let now := candidates.map UsbCandidate.name
    some (s.begin (.refreshing s.registry.usbSerials now now))
  | .usbNext call =>
    match s.calls[call]? with
    | some (.refreshing before now todo) => some (s.refreshNext call before now todo)
    | _ => none
  | .registerUsb serial => some (s.setRegistry (s.registry.registerUsbDevice serial))
  | .registerTcp addr serial => some (s.setRegistry (s.registry.upsertTcpDevice addr serial))
  | .unregister serial => some (s.setRegistry (s.registry.removeDevice serial).2)
  | .mdnsEvent order event discovered =>
    some { s with discovery := applyDiscoveryEvent order s.discovery event discovered }
  | .mdnsFound service => some (s.setRegistry (s.registry.updateRegistryDevice service))
  | .mdnsGone serial => some (s.setRegistry (s.registry.removeDevice serial).2)

end ServerState

end AdbFastboot
