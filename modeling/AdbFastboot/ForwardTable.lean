import AdbFastboot.HostRegistry
import AdbFastboot.StepRun

namespace AdbFastboot

abbrev OsBind := List Nat → Nat → Except ListenError Nat

structure ForwardEntry where
  rule : ForwardRule
  activeFlag : Nat
deriving DecidableEq, Repr

/-- The thread of `run_forward_listener`, which holds its port until it ends. Of the rule it is
given the remote spec only. -/
structure ForwardListener where
  port : Nat
  active : Nat
  rule : ForwardRule
  accepting : Bool
deriving DecidableEq, Repr

/-- A connection whose thread has looked for a device: the serial of its rule, the devices at that
moment, and the address that it connects to, or nothing if it drops the connection. -/
structure RoutedConnection where
  serial : Text
  devices : List DeviceEntry
  target : Option SocketAddr
deriving DecidableEq, Repr

structure ForwardServer where
  registry : TransportRegistry
  entries : List ForwardEntry
  flags : List Bool
  listeners : List ForwardListener
  /-- The rules that connections were accepted for whose threads have not looked for a device. -/
  accepted : List ForwardRule
  routed : List RoutedConnection
deriving DecidableEq, Repr

/-- `store(false)` on the flag of each of the rules. -/
def lowerFlags (entries : List ForwardEntry) (flags : List Bool) : List Bool :=
  entries.foldl (fun flags e => flags.set e.activeFlag false) flags

def TransportRegistry.forwardTarget (reg : TransportRegistry) : Option SocketAddr :=
  match reg.findAnyDevice.map DeviceEntry.origin with
  | some (.tcp addr) => some addr
  | _ => none

namespace ForwardServer

def start (registry : TransportRegistry) : ForwardServer := ⟨registry, [], [], [], [], []⟩

variable (s : ForwardServer)

def heldPorts : List Nat := s.listeners.map ForwardListener.port

def removeForward (localSpec : Text) : Bool × ForwardServer :=
  let canonical :=
    if !"tcp:".toList.isPrefixOf localSpec && localSpec.all Char.isDigit then
      "tcp:".toList ++ localSpec
    else localSpec
  let gone := fun e : ForwardEntry =>
    decide (e.rule.localSpec = canonical ∨ e.rule.localSpec = localSpec)
  (s.entries.any gone, { s with
      entries := s.entries.filter fun e => !gone e
      flags := lowerFlags (s.entries.filter gone) s.flags })

def removeAllForwards : ForwardServer :=
  { s with entries := [], flags := lowerFlags s.entries s.flags }

def pushForward (port : Nat) (localSpec remoteSpec : Text) (listens : Bool) : ForwardServer :=
  let flag := s.flags.length
  let rule : ForwardRule := ⟨s.registry.ruleSerial, localSpec, remoteSpec⟩
  { s with
    flags := s.flags ++ [true]
    listeners := if listens then s.listeners ++ [⟨port, flag, rule, false⟩] else s.listeners
    entries := s.entries ++ [⟨rule, flag⟩] }

/-- What `add_forward` answers, and the server after it. `osBind` is told the ports held. Where a rule
is not to be replaced the new listener is dropped, and its port with it. -/
def addForward (osBind : List Nat → Nat → Except ListenError Nat) (localSpec remoteSpec : Text)
    (noRebind : Bool) : Except Text Text × ForwardServer :=
  match forwardListener (osBind s.heldPorts) localSpec with
  | .error e => (.error e, s)
  | .ok (boundPort, canonicalLocal, listens) =>
    if noRebind && s.entries.any fun e => decide (e.rule.localSpec = canonicalLocal) then
      (.error ("forward '".toList ++ canonicalLocal ++ "' already exists".toList), s)
    else
      let answer :=
        if localSpec = "tcp:0".toList ∨ localSpec = "0".toList then decimal boundPort else []
      (.ok answer,
        (s.removeForward canonicalLocal).2.pushForward boundPort canonicalLocal remoteSpec listens)

end ForwardServer

/-- What can happen to the rules, their listeners and the connections, one section under the lock or
one call of a thread at a time. -/
inductive ForwardStep where
  | addForward (localSpec remoteSpec : Text) (noRebind : Bool)
  | removeForward (localSpec : Text)
  | removeAllForwards
  /-- Other threads leave the registry with these devices. -/
  | devicesChange (devices : List DeviceEntry)
  | poll (listener : Nat)
  | accept (listener : Nat)
  /-- `accept` fails, and the thread sleeps. -/
  | acceptError (listener : Nat)
  /-- No thread can be started for the connection, which ends the listener's own. -/
  | spawnFails (listener : Nat)
  | connect (connection : Nat)
deriving DecidableEq, Repr

namespace ForwardServer

/-- The listener's thread is at its `accept` or at the check before it. -/
def setAccepting (s : ForwardServer) (i : Nat) (l : ForwardListener) (accepting : Bool) :
    ForwardServer :=
  { s with listeners := s.listeners.set i { l with accepting := accepting } }

def dropListener (s : ForwardServer) (i : Nat) : ForwardServer :=
  { s with listeners := s.listeners.eraseIdx i }

def route (s : ForwardServer) (i : Nat) (rule : ForwardRule) : ForwardServer :=
  { s with
    accepted := s.accepted.eraseIdx i
    routed := s.routed ++ [⟨rule.serial, s.registry.devices, s.registry.forwardTarget⟩] }

def step (osBind : List Nat → Nat → Except ListenError Nat) (s : ForwardServer) :
    ForwardStep → Option ForwardServer
  | .addForward localSpec remoteSpec noRebind =>
    some (s.addForward osBind localSpec remoteSpec noRebind).2
  | .removeForward localSpec => some (s.removeForward localSpec).2
  | .removeAllForwards => some s.removeAllForwards
  | .devicesChange devices => some { s with registry := { s.registry with devices := devices } }
  | .poll i =>
    match s.listeners[i]? with
    | none => none
    | some l =>
      if l.accepting then none
      else if s.flags[l.active]? = some true then some (s.setAccepting i l true)
      else some (s.dropListener i)
  | .accept i =>
    match s.listeners[i]? with
    | none => none
    | some l =>
      if l.accepting then
        some { s.setAccepting i l false with accepted := s.accepted ++ [l.rule] }
      else none
  | .acceptError i =>
    match s.listeners[i]? with
    | none => none
    | some l => if l.accepting then some (s.setAccepting i l false) else none
  | .spawnFails i =>
    match s.listeners[i]? with
    | none => none
    | some l => if l.accepting then some (s.dropListener i) else none
  | .connect i => s.accepted[i]?.map fun rule => s.route i rule

inductive Stepped (osBind : List Nat → Nat → Except ListenError Nat) (s : ForwardServer) :
    ForwardStep → ForwardServer → Prop where
  | addForward (localSpec remoteSpec : Text) (noRebind : Bool) :
    Stepped osBind s (.addForward localSpec remoteSpec noRebind)
      (s.addForward osBind localSpec remoteSpec noRebind).2
  | removeForward (localSpec : Text) :
    Stepped osBind s (.removeForward localSpec) (s.removeForward localSpec).2
  | removeAllForwards : Stepped osBind s .removeAllForwards s.removeAllForwards
  | devicesChange (devices : List DeviceEntry) :
    Stepped osBind s (.devicesChange devices)
      { s with registry := { s.registry with devices := devices } }
  | goesOn {i : Nat} {l : ForwardListener} (hl : s.listeners[i]? = some l) :
    Stepped osBind s (.poll i) (s.setAccepting i l true)
  | ends {i : Nat} {l : ForwardListener} (hl : s.listeners[i]? = some l)
      (hdown : s.flags[l.active]? ≠ some true) : Stepped osBind s (.poll i) (s.dropListener i)
  | accept {i : Nat} {l : ForwardListener} (hl : s.listeners[i]? = some l) :
    Stepped osBind s (.accept i)
      { s.setAccepting i l false with accepted := s.accepted ++ [l.rule] }
  | acceptError {i : Nat} {l : ForwardListener} (hl : s.listeners[i]? = some l) :
    Stepped osBind s (.acceptError i) (s.setAccepting i l false)
  | spawnFails (i : Nat) : Stepped osBind s (.spawnFails i) (s.dropListener i)
  | connect {i : Nat} {rule : ForwardRule} (hrule : s.accepted[i]? = some rule) :
    Stepped osBind s (.connect i) (s.route i rule)

/-- The steps of the forward server, one case for each kind. -/
theorem step_stepped {osBind : OsBind} {s s' : ForwardServer}
    {a : ForwardStep} (h : s.step osBind a = some s') : Stepped osBind s a s' := by
  cases a with
  | addForward localSpec remoteSpec noRebind =>
    cases h
    exact .addForward localSpec remoteSpec noRebind
  | removeForward localSpec =>
    cases h
    exact .removeForward localSpec
  | removeAllForwards =>
    cases h
    exact .removeAllForwards
  | devicesChange devices =>
    cases h
    exact .devicesChange devices
  | poll i =>
    simp only [step] at h
    split at h
    next => cases h
    next l hl =>
      split at h
      next => cases h
      split at h
      next =>
        cases h
        exact .goesOn hl
      next hd =>
        cases h
        exact .ends hl hd
  | accept i =>
    simp only [step] at h
    split at h
    next => cases h
    next l hl =>
      split at h
      next =>
        cases h
        exact .accept hl
      next => cases h
  | acceptError i =>
    simp only [step] at h
    split at h
    next => cases h
    next l hl =>
      split at h
      next =>
        cases h
        exact .acceptError hl
      next => cases h
  | spawnFails i =>
    simp only [step] at h
    split at h
    next => cases h
    next l hl =>
      split at h
      next =>
        cases h
        exact .spawnFails i
      next => cases h
  | connect i =>
    obtain ⟨rule, hr, heq⟩ := Option.map_eq_some_iff.mp h
    cases heq
    exact .connect hr

variable (s : ForwardServer)

/-- The registry that the host services see. -/
def toRegistry : TransportRegistry :=
  { s.registry with forwards := s.entries.map ForwardEntry.rule }

/-- The host service removes the rules that the table loses. -/
theorem removeForward_toRegistry (localSpec : Text) :
    ((s.removeForward localSpec).1, (s.removeForward localSpec).2.toRegistry)
      = s.toRegistry.removeForward localSpec := by
  simp only [removeForward, toRegistry, TransportRegistry.removeForward, List.any_map,
    List.filter_map]
  rfl

/-- The host service answers what the table answers, and adds the rule that the table gains. -/
theorem addForward_toRegistry (osBind : OsBind) (localSpec remoteSpec : Text) (noRebind : Bool) :
    (s.toRegistry.addForward (osBind s.heldPorts) localSpec remoteSpec noRebind).map
        (fun r => (r.1, r.2.1))
      = (s.addForward osBind localSpec remoteSpec noRebind).1.map fun answer =>
          (answer, (s.addForward osBind localSpec remoteSpec noRebind).2.toRegistry) := by
  unfold TransportRegistry.addForward addForward
  cases hl : forwardListener (osBind s.heldPorts) localSpec with
  | error e => rfl
  | ok r =>
    obtain ⟨boundPort, canonicalLocal, listens⟩ := r
    have hany : (s.toRegistry.forwards.any fun f => decide (f.localSpec = canonicalLocal))
        = s.entries.any fun e => decide (e.rule.localSpec = canonicalLocal) := by
      rw [toRegistry, List.any_map]
      rfl
    have hrm := congrArg Prod.snd (s.removeForward_toRegistry canonicalLocal)
    simp only [bind, Except.bind, hany]
    split
    next => rfl
    next =>
      rw [← hrm]
      simp only [pure, Except.pure, Except.map, pushForward, toRegistry, List.map_append]
      rfl

end ForwardServer

end AdbFastboot
