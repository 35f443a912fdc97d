import AdbFastboot.ForwardTable

namespace AdbFastboot

def HasUsable (devices : List DeviceEntry) (serial : Text) : Prop :=
  ∃ d ∈ devices, d.serial = serial ∧ isUsableState d.state = true

/-- A connection goes to the device of its rule and to no other, and is dropped only if that device
is not there. -/
structure RoutedConnection.Right (c : RoutedConnection) : Prop where
  own : ∀ addr, c.target = some addr → ∃ d ∈ c.devices, d.serial = c.serial ∧ d.origin = .tcp addr
  absent : c.target = none → ¬ HasUsable c.devices c.serial

/-- The first usable device is at the address of the device with the serial; or it is a USB device,
and no usable device has the serial. -/
def FirstIsOwn (reg : TransportRegistry) (serial : Text) : Prop :=
  ∀ d, reg.findAnyDevice = some d →
    match d.origin with
    | .tcp addr => ∃ own ∈ reg.devices, own.serial = serial ∧ own.origin = .tcp addr
    | .usb => ¬ HasUsable reg.devices serial

/-- A connection goes to the right device exactly if the first usable one is it. -/
theorem forwardTarget_right_iff (reg : TransportRegistry) (serial : Text) :
    RoutedConnection.Right ⟨serial, reg.devices, reg.forwardTarget⟩ ↔ FirstIsOwn reg serial := by
  unfold FirstIsOwn TransportRegistry.forwardTarget
  cases hany : reg.findAnyDevice with
  | none =>
    refine ⟨fun _ => nofun, fun _ => ⟨nofun, fun _ => ?_⟩⟩
    rintro ⟨d, hd, -, hu⟩
    exact List.find?_eq_none.mp hany d hd hu
  | some first =>
    obtain ⟨fserial, id, state, origin, product, model, name, features⟩ := first
    cases origin with
    | usb =>
      constructor
      · rintro hr d hd
        cases hd
        exact hr.absent rfl
      · exact fun hf => ⟨nofun, fun _ => hf _ rfl⟩
    | tcp addr =>
      constructor
      · rintro hr d hd
        cases hd
        exact hr.own addr rfl
      · intro hf
        refine ⟨fun addr' ha => ?_, nofun⟩
        cases ha
        exact hf _ rfl

namespace ForwardServer

def RoutesRight (s : ForwardServer) : Prop := ∀ c ∈ s.routed, c.Right

def ConnectsOwn (s : ForwardServer) : ForwardStep → Prop
  | .connect i => ∀ rule, s.accepted[i]? = some rule → FirstIsOwn s.registry rule.serial
  | _ => True

variable (osBind : OsBind)

theorem addForward_routed (s : ForwardServer) (localSpec remoteSpec : Text) (noRebind : Bool) :
    (s.addForward osBind localSpec remoteSpec noRebind).2.routed = s.routed := by
  unfold addForward
  split
  next => rfl
  split
  next => rfl
  next => rfl

theorem route_right_iff {s : ForwardServer} (h : s.RoutesRight) (i : Nat) (rule : ForwardRule) :
    (s.route i rule).RoutesRight ↔ FirstIsOwn s.registry rule.serial := by
  rw [← forwardTarget_right_iff]
  constructor
  · exact fun hr => hr _ (List.mem_append_right _ (List.mem_singleton.mpr rfl))
  · intro hr c hc
    rcases List.mem_append.mp hc with hc | hc
    · exact h c hc
    · cases List.mem_singleton.mp hc
      exact hr

/-- A step routes right exactly if the connection it makes meets its own device. -/
theorem step_routesRight_iff {s : ForwardServer} {a : ForwardStep} (h : s.RoutesRight) :
    s.ConnectsOwn a ↔ ∀ s', s.step osBind a = some s' → s'.RoutesRight := by
  constructor
  · intro ho s' hs
    cases step_stepped hs with
    | addForward localSpec remoteSpec noRebind =>
      unfold RoutesRight
      rw [addForward_routed]
      exact h
    | connect hr => exact (route_right_iff h _ _).mpr (ho _ hr)
    | removeForward | removeAllForwards | devicesChange | goesOn | ends | accept | acceptError
    | spawnFails => exact h
  · intro hrg
    cases a with
    | connect i =>
      intro rule hr
      exact (route_right_iff h i rule).mp (hrg _ (by rw [step, hr]; rfl))
    | _ => trivial

/-- Along a run every connection is relayed to the device of its rule, or dropped if that is absent,
exactly if each finds that device as the first usable one. -/
theorem forward_routes_right_iff (osBind : List Nat → Nat → Except ListenError Nat)
    (registry : TransportRegistry) (as : List ForwardStep) :
    (∀ front s, front <+: as → runSteps (step osBind) (start registry) front = some s →
        s.RoutesRight)
      ↔ StepsMeet (step osBind) ConnectsOwn (start registry) as := by
  have hs : (start registry).RoutesRight := fun c hc => (nomatch hc)
  exact runSteps_invariant_iff (step_routesRight_iff osBind) hs

def tablet : DeviceEntry :=
  ⟨"tablet".toList, 1, .device, .tcp ⟨"10.0.0.1".toList, 5555, none⟩, none, none, none, none⟩

def phone : DeviceEntry :=
  ⟨"phone".toList, 2, .device, .tcp ⟨"10.0.0.2".toList, 5555, none⟩, none, none, none, none⟩

/-- The rule is made while the phone is the only device. Then the tablet is listed before it, and
the client of the rule gets the tablet. -/
theorem forward_routes_other :
    ∃ s, runSteps (step fun _ port => .ok port) (start ⟨[phone], [], [], [], 3⟩)
        [.addForward "tcp:8080".toList "tcp:9000".toList false, .devicesChange [tablet, phone],
          .poll 0, .accept 0, .connect 0] = some s
      ∧ s.routed = [⟨phone.serial, [tablet, phone], some ⟨"10.0.0.1".toList, 5555, none⟩⟩]
      ∧ ¬ s.RoutesRight := by
  refine ⟨_, rfl, by decide, fun hr => ?_⟩
  obtain ⟨d, hd, hs, ho⟩ := (hr _ (List.mem_singleton.mpr rfl)).own _ rfl
  rcases List.mem_cons.mp hd with rfl | hd
  · exact absurd hs (by decide)
  · cases List.mem_singleton.mp hd
    exact absurd ho (by decide)

end ForwardServer

end AdbFastboot
