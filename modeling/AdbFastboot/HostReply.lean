import AdbFastboot.HostDispatch

namespace AdbFastboot

open HostCall

open HostDispatch

section

variable {α : Type} {world : HostWorld}

end

section

variable {world : HostWorld}

end

def forwardNeedsRegistry (sub : Text) : Bool :=
  if sub = "list".toList then true
  else if sub = "killforward-all".toList ∨ sub = "remove-all".toList then true
  else
    match "killforward:".toList.isPrefixOf? sub <|> "remove:".toList.isPrefixOf? sub with
    | some _ => true
    | none => (parseSpecPair (("norebind:".toList.isPrefixOf? sub).getD sub)).isSome

def reverseNeedsRegistry (sub : Text) : Bool :=
  if sub = "list".toList then true
  else if sub = "killforward-all".toList ∨ sub = "killreverse-all".toList
      ∨ sub = "remove-all".toList then true
  else
    match "killreverse:".toList.isPrefixOf? sub <|> "killforward:".toList.isPrefixOf? sub
        <|> "remove:".toList.isPrefixOf? sub with
    | some _ => true
    | none =>
      (parseSpecPair (("norebind:".toList.isPrefixOf? sub <|> "forward:".toList.isPrefixOf? sub).getD
        sub)).isSome

section

variable (world : HostWorld)

def featuresNeedsRegistry (rest : Text) : Bool :=
  match splitOnce ':' rest with
  | some (_, service) => decide (service = "features".toList)
  | none => false

variable (sub : Text)

end

def HostArm.needsRegistry : HostArm → Bool
  | .version | .kill | .startServer | .trackDevices | .emulator _ | .hostFeatures | .jdwp
  | .unknown _ => false
  | .serialDatum rest => (splitOnce ':' rest).isSome
  | .serialFeatures rest => featuresNeedsRegistry rest
  | .transportId idStr => (fromStrRadix 10 (2 ^ 64) idStr).isSome
  | .forward sub => forwardNeedsRegistry sub
  | .reverse sub => reverseNeedsRegistry sub
  | .mdns sub => decide (sub = "services".toList)
  | .devices _ | .waitForDevice | .anyDatum _ | .transport _ | .transportAny | .tportSerial _
  | .tportAny | .connect _ | .disconnectAll | .disconnect _ => true

/-- The arm polls the registry, so that the call may wait for as long as the server runs. -/
def HostArm.polls : HostArm → Bool
  | .trackDevices | .waitForDevice => true
  | _ => false

def HostArm.plain : HostArm → Bool
  | .connect _ | .emulator _ => false
  | arm => !arm.polls

section

variable {world : HostWorld}

section

variable (hclear : world.poisoned = false)
include hclear

end

end

/-- Which arms answer: not `host:emulator`, not `host:connect` with an address that cannot be parsed
or resolved, and not with a poisoned lock the ones that need the registry. -/
def HostWorld.Answers (world : HostWorld) (running : Bool) : HostArm → Prop
  | .emulator _ => False
  | .connect target =>
    (∃ addrs, connectTargets world.resolve target = .ok addrs) ∧ world.poisoned = false
  | .waitForDevice => world.poisoned = false ∨ running = false
  | arm => arm.needsRegistry = true → world.poisoned = false

section

variable {world : HostWorld} {arm : HostArm} {s : HostRun} {x : HostCall Unit}

variable (world : HostWorld)

end

end AdbFastboot
