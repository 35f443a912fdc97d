import AdbFastboot.HostDispatch

namespace AdbFastboot

open HostDispatch List HostDatum

inductive SerialService where
  | datum (datum : HostDatum)
  | features
deriving DecidableEq, Repr

def SerialService.name : SerialService → Text
  | .datum d => d.name
  | .features => "features".toList

def DeviceEntry.answer (dev : DeviceEntry) : SerialService → Option Text
  | .datum d => some (dev.datum d)
  | .features => dev.features

def serialCommand (serial : Text) (service : SerialService) : Text :=
  "host-serial:".toList ++ (serial ++ ':' :: service.name)

variable (rest : Text)

theorem take_serialScheme : ("host-serial:".toList ++ rest).take 5 = "host-".toList := by
  simp

theorem exactly_serialScheme {name : String} (h : name.toList.take 5 ≠ "host-".toList)
    (arm : HostArm) (rest : Text) :
    HostArm.exactly name arm ("host-serial:".toList ++ rest) = none := by
  refine if_neg fun heq => h ?_
  rw [← heq, take_serialScheme]

theorem after_serialScheme {scheme : String} (hl : 5 ≤ scheme.toList.length)
    (h : scheme.toList.take 5 ≠ "host-".toList) (arm : Text → HostArm) (rest : Text) :
    HostArm.after scheme arm ("host-serial:".toList ++ rest) = none := by
  rw [HostArm.after, Option.map_eq_none_iff]
  by_contra hs
  obtain ⟨tail, ht⟩ := Option.ne_none_iff_exists'.mp hs
  have ha := isPrefixOf?_eq_some_iff_append_eq.mp ht
  apply h
  rw [← take_serialScheme rest, ← ha, take_append_of_le_length hl]

theorem guarded_serialScheme (guard : Text → Bool) (arm : Text → HostArm) (rest : Text) :
    HostArm.guarded "host-serial:" guard arm ("host-serial:".toList ++ rest)
      = if guard ("host-serial:".toList ++ rest) then some (arm rest) else none := by
  have hr : "host-serial:".toList.isPrefixOf? ("host-serial:".toList ++ rest) = some rest :=
    isPrefixOf?_eq_some_iff_append_eq.mpr rfl
  rw [HostArm.guarded, hr, Option.bind_some]

/-- A command for a serial comes to one of three arms. -/
theorem hostArm_serialScheme : hostArm ("host-serial:".toList ++ rest) = if (all.any fun d =>
            (':' :: d.name).isSuffixOf ("host-serial:".toList ++ rest)) = true then
          .serialDatum rest
        else if strContains ":features".toList ("host-serial:".toList ++ rest) = true then
          .serialFeatures rest
        else .unknown ("host-serial:".toList ++ rest) := by
  simp (disch := decide) only [hostArm, hostArms, findSome?_cons, findSome?_nil,
    exactly_serialScheme, after_serialScheme, guarded_serialScheme]
  split_ifs <;> rfl

theorem hostArm_serialDatum (h : ∃ d : HostDatum, ':' :: d.name <:+ "host-serial:".toList ++ rest) :
    hostArm ("host-serial:".toList ++ rest) = .serialDatum rest := by
  rw [hostArm_serialScheme]
  refine if_pos (any_eq_true.mpr ?_)
  obtain ⟨d, hd⟩ := h
  have hm : d ∈ HostDatum.all := by cases d <;> simp [HostDatum.all]
  exact ⟨d, hm, isSuffixOf_iff_suffix.mpr hd⟩

theorem hostArm_serialFeatures
    (hdt : ∀ d : HostDatum, ¬ (':' :: d.name <:+ "host-serial:".toList ++ rest))
    (hf : strContains ":features".toList ("host-serial:".toList ++ rest) = true) :
    hostArm ("host-serial:".toList ++ rest) = .serialFeatures rest := by
  have hg : (all.any fun d =>
      (':' :: d.name).isSuffixOf ("host-serial:".toList ++ rest)) = false := by
    refine any_eq_false.mpr fun d _ hd => ?_
    exact hdt d (isSuffixOf_iff_suffix.mp hd)
  rw [hostArm_serialScheme, hg, if_neg Bool.false_ne_true, if_pos hf]

/-- A command for the features is none for another datum. -/
theorem datum_not_suffix_features (front : Text) (d : HostDatum) :
    ¬ (':' :: d.name <:+ front ++ ":features".toList) := by
  rw [← isSuffixOf_iff_suffix, Bool.not_eq_true, isSuffixOf, reverse_append]
  cases d <;> rfl

theorem dispatch_datum (world : HostWorld) (polls : Nat) (serial : Text) (d : HostDatum) :
    dispatchHostService world polls (serialCommand serial (.datum d))
      = serialDatum world (serial ++ ':' :: d.name) := by
  have ha := hostArm_serialDatum (serial ++ ':' :: d.name)
    ⟨d, "host-serial:".toList ++ serial, append_assoc _ _ _⟩
  exact congrArg (runArm world polls) ha

theorem dispatch_features (world : HostWorld) (polls : Nat) (serial : Text) :
    dispatchHostService world polls (serialCommand serial .features)
      = serialFeatures world (serial ++ ':' :: "features".toList) := by
  have hc : "host-serial:".toList ++ (serial ++ ':' :: "features".toList)
      = "host-serial:".toList ++ serial ++ ":features".toList := (append_assoc _ _ _).symm
  have ha := hostArm_serialFeatures (serial ++ ':' :: "features".toList)
    (fun d hd => datum_not_suffix_features ("host-serial:".toList ++ serial) d (hc ▸ hd))
    (by rw [hc, ← append_nil (_ ++ _ ++ _)]; exact strContains_append _ _ [])
  exact congrArg (runArm world polls) ha

theorem ofName_name (d : HostDatum) : ofName d.name = some d := by
  cases d <;> decide

theorem ofName_eq_none {cmd : Text} (h : ':' ∈ cmd) : ofName cmd = none := by
  refine find?_eq_none.mpr fun d _ hd => ?_
  have hc : ':' ∉ d.name := by cases d <;> decide
  exact hc (of_decide_eq_true hd ▸ h)

/-- A serial with a colon is cut at that colon. -/
theorem splitOnce_serial_colon {serial : Text} (h : ':' ∈ serial) (name : Text) :
    ∃ front back, splitOnce ':' (serial ++ ':' :: name) = some (front, back) ∧ ':' ∈ back := by
  cases hs : splitOnce ':' serial with
  | none => exact absurd h (splitOnce_eq_none.mp hs)
  | some parts =>
    obtain ⟨front, tail⟩ := parts
    obtain ⟨hsl, hf⟩ := splitOnce_eq_some hs
    refine ⟨front, tail ++ ':' :: name, ?_, by simp⟩
    rw [hsl, append_assoc, cons_append, splitOnce_append hf]

/-- What is answered about the device with a serial in which there is no colon. -/
def serialReply (reg : TransportRegistry) (serial : Text) (service : SerialService) : HostWrite :=
  match (reg.findBySerial serial).bind fun dev => dev.answer service with
  | some d => .okayStr d
  | none =>
    match service with
    | .datum _ => .fail (deviceNotFound serial)
    | .features => .fail (deviceNotFound serial ++ " or no features".toList)

def WritesOnly (world : HostWorld) (polls : Nat) (s : HostRun) (cmd : Text) (w : HostWrite) : Prop :=
  ∃ s', (dispatchHostService world polls cmd).runOn s = (.ok (), s') ∧
    s'.written = s.written ++ [w]

section

variable {world : HostWorld} {polls : Nat} {s : HostRun} {cmd serial : Text}

theorem WritesOnly.unique {w w' : HostWrite} (h : WritesOnly world polls s cmd w)
    (h' : WritesOnly world polls s cmd w') : w = w' := by
  obtain ⟨r, hr, hw⟩ := h
  obtain ⟨r', hr', hw'⟩ := h'
  cases (Prod.mk.inj (hr.symm.trans hr')).2
  exact singleton_inj.mp (append_cancel_left (hw.symm.trans hw'))

theorem runOn_locked_write (hc : world.poisoned = false) {f : TransportRegistry → HostCall Unit}
    {w : HostWrite} (hf : f (s.locked world).registry = write w) :
    (lockRegistry world >>= f).runOn s = (.ok (), { s.locked world with written := s.written ++ [w] }) := by
  rw [HostCall.runOn_bind_ok (runOn_lockRegistry world hc s), hf]
  rfl

/-- For a serial without a colon the reply is that of its first device. -/
theorem writesOnly_serialReply (hc : world.poisoned = false) (hs : ':' ∉ serial)
    (service : SerialService) :
    WritesOnly world polls s (serialCommand serial service)
      (serialReply (s.locked world).registry serial service) := by
  refine ⟨{ s.locked world with
    written := s.written ++ [serialReply (s.locked world).registry serial service] }, ?_, rfl⟩
  cases service with
  | datum d =>
    rw [dispatch_datum, serialDatum, splitOnce_append hs]
    refine runOn_locked_write hc ?_
    simp only [serialReply, DeviceEntry.answer, ofName_name]
    cases (s.locked world).registry.findBySerial serial <;> rfl
  | features =>
    rw [dispatch_features, serialFeatures, splitOnce_append hs]
    refine runOn_locked_write hc ?_
    simp only [serialReply, DeviceEntry.answer]
    cases (s.locked world).registry.findBySerial serial with
    | none => rfl
    | some dev => cases hf : dev.features <;> simp [hf, okStr, HostDispatch.fail]

variable {service : SerialService}

theorem writesOnly_fail_of_colon (hsl : ':' ∈ serial)
    (h : world.poisoned = false ∨ service = .features) :
    ∃ msg, WritesOnly world polls s (serialCommand serial service) (.fail msg) := by
  obtain ⟨front, back, hs, hb⟩ := splitOnce_serial_colon hsl service.name
  cases service with
  | datum d =>
    have hc := h.resolve_right nofun
    let reg := (s.locked world).registry
    let msg := if (reg.findBySerial front).isSome then unsupportedService back
      else deviceNotFound front
    refine ⟨msg, { s.locked world with written := s.written ++ [.fail msg] }, ?_, rfl⟩
    rw [dispatch_datum, serialDatum, show splitOnce ':' (serial ++ ':' :: d.name) = _ from hs]
    refine runOn_locked_write hc ?_
    simp only [ofName_eq_none hb, msg, reg]
    cases (s.locked world).registry.findBySerial front <;> rfl
  | features =>
    have hne : back ≠ "features".toList := by
      rintro rfl
      exact absurd hb (by decide)
    refine ⟨unsupportedService back,
      { s with written := s.written ++ [.fail (unsupportedService back)] }, ?_, rfl⟩
    rw [dispatch_features, serialFeatures,
      show splitOnce ':' (serial ++ ':' :: "features".toList) = _ from hs]
    simp only [if_neg hne]
    rfl

/-- With a poisoned lock nothing is replied. -/
theorem not_writesOnly_of_poisoned (hp : world.poisoned = true)
    (h : ':' ∈ serial → service ≠ .features) (w : HostWrite) :
    ¬WritesOnly world polls s (serialCommand serial service) w := by
  rintro ⟨s', hr, -⟩
  cases service with
  | datum d =>
    cases hs : splitOnce ':' (serial ++ ':' :: d.name) with
    | none => exact absurd (splitOnce_eq_none.mp hs) (by simp)
    | some parts =>
      rw [dispatch_datum, serialDatum, hs,
        HostCall.runOn_bind_error (runOn_lockRegistry_poisoned world hp s)] at hr
      cases (Prod.mk.inj hr).1
  | features =>
    have hsl : ':' ∉ serial := fun hm => h hm rfl
    rw [dispatch_features, serialFeatures, splitOnce_append hsl] at hr
    simp only [if_true] at hr
    rw [HostCall.runOn_bind_error (runOn_lockRegistry_poisoned world hp s)] at hr
    cases (Prod.mk.inj hr).1

/-- Every device with the serial is answered about, and a serial that no device has fails. -/
def SerialAnswered (world : HostWorld) (polls : Nat) (s : HostRun) (serial : Text)
    (service : SerialService) : Prop :=
  (∀ dev ∈ (s.locked world).registry.devices, dev.serial = serial →
    ∃ d, dev.answer service = some d ∧
      WritesOnly world polls s (serialCommand serial service) (.okayStr d)) ∧
  ((∀ dev ∈ (s.locked world).registry.devices, dev.serial ≠ serial) →
    ∃ msg, WritesOnly world polls s (serialCommand serial service) (.fail msg))

/-- There is no colon in the serial, and the first device with it has what the service answers
about the device; without such a device, only the lock matters. -/
def SerialAnswerable (world : HostWorld) (s : HostRun) (serial : Text) (service : SerialService) :
    Prop :=
  let reg := (s.locked world).registry
  (∀ dev ∈ reg.devices, dev.serial = serial →
    world.poisoned = false ∧ ':' ∉ serial ∧
      ∃ d first, dev.answer service = some d ∧ reg.findBySerial serial = some first ∧
        first.answer service = some d) ∧
  ((∀ dev ∈ reg.devices, dev.serial ≠ serial) →
    world.poisoned = false ∨ (':' ∈ serial ∧ service = .features))

theorem serialReply_eq_okayStr {reg : TransportRegistry} {d : Text} :
    serialReply reg serial service = .okayStr d ↔
      ∃ first, reg.findBySerial serial = some first ∧ first.answer service = some d := by
  rw [← Option.bind_eq_some_iff]
  unfold serialReply
  split
  next found hf => simp [hf]
  next hn => cases service <;> simp [hn]

/-- A datum is replied exactly if the first device of that serial has it. -/
theorem writesOnly_okayStr_iff {d : Text} :
    WritesOnly world polls s (serialCommand serial service) (.okayStr d) ↔
      world.poisoned = false ∧ ':' ∉ serial ∧
        ∃ first, (s.locked world).registry.findBySerial serial = some first ∧
          first.answer service = some d := by
  constructor
  · intro h
    have hs : ':' ∉ serial := by
      intro hs
      by_cases hl : world.poisoned = false ∨ service = .features
      · obtain ⟨msg, hf⟩ := writesOnly_fail_of_colon hs hl
        cases hf.unique h
      · rw [not_or, Bool.not_eq_false] at hl
        exact not_writesOnly_of_poisoned hl.1 (fun _ => hl.2) _ h
    have hc : world.poisoned = false := by
      by_contra hp
      rw [Bool.not_eq_false] at hp
      exact not_writesOnly_of_poisoned hp (fun hm => absurd hm hs) _ h
    refine ⟨hc, hs, serialReply_eq_okayStr.mp ?_⟩
    exact (writesOnly_serialReply hc hs service).unique h
  · rintro ⟨hc, hs, hft⟩
    rw [← serialReply_eq_okayStr.mpr hft]
    exact writesOnly_serialReply hc hs service

/-- For an unknown serial FAIL is the reply, unless the lock is poisoned. -/
theorem writesOnly_fail_iff (ha : ∀ dev ∈ (s.locked world).registry.devices, dev.serial ≠ serial) :
    (∃ msg, WritesOnly world polls s (serialCommand serial service) (.fail msg)) ↔
      world.poisoned = false ∨ (':' ∈ serial ∧ service = .features) := by
  constructor
  · rintro ⟨msg, h⟩
    by_contra hn
    rw [not_or, Bool.not_eq_false] at hn
    exact not_writesOnly_of_poisoned hn.1 (fun hm hf => hn.2 ⟨hm, hf⟩) _ h
  · intro h
    by_cases hs : ':' ∈ serial
    · exact writesOnly_fail_of_colon hs (h.imp_right And.right)
    have hc := h.resolve_right fun hcn => hs hcn.1
    have hw : WritesOnly world polls s (serialCommand serial service) _ :=
      writesOnly_serialReply hc hs service
    have hno : (s.locked world).registry.findBySerial serial = none :=
      find?_eq_none.mpr fun dev hd heq => ha dev hd (of_decide_eq_true heq)
    cases service with
    | datum d | features =>
      rw [serialReply, hno] at hw
      exact ⟨_, hw⟩

end

/-- A service asked of a serial is answered for the very device exactly when the lock can be taken,
the serial has no colon, and the first device with the serial has the same to answer. -/
theorem serialAnswered_iff (world : HostWorld) (polls : Nat) (s : HostRun) (serial : Text)
    (service : SerialService) :
    SerialAnswered world polls s serial service ↔ SerialAnswerable world s serial service := by
  constructor
  · rintro ⟨hr, ha⟩
    refine ⟨fun dev hdev hs => ?_, fun hn => (writesOnly_fail_iff hn).mp (ha hn)⟩
    obtain ⟨d, hd, hw⟩ := hr dev hdev hs
    obtain ⟨hc, hcn, first, hf, han⟩ := writesOnly_okayStr_iff.mp hw
    exact ⟨hc, hcn, d, first, hd, hf, han⟩
  · rintro ⟨hr, ha⟩
    refine ⟨fun dev hdev hs => ?_, fun hn => (writesOnly_fail_iff hn).mpr (ha hn)⟩
    obtain ⟨hc, hcn, d, first, hd, hf, han⟩ := hr dev hdev hs
    exact ⟨d, hd, writesOnly_okayStr_iff.mpr ⟨hc, hcn, first, hf, han⟩⟩

def usbDevice (serial : Text) : DeviceEntry := ⟨serial, 1, .device, .usb, none, none, none, none⟩

def oneDevice (dev : DeviceEntry) : TransportRegistry := ⟨[dev], [], [], [], 2⟩

theorem serialAnswered_emulator :
    SerialAnswered .quiet 0 (.start (oneDevice (usbDevice "emulator-5554".toList)))
      "emulator-5554".toList (.datum .state) := by
  refine (serialAnswered_iff _ _ _ _ _).mpr ⟨fun dev hd _ => ?_, fun _ => .inl rfl⟩
  cases mem_singleton.mp hd
  exact ⟨rfl, by decide, _, _, rfl, rfl, rfl⟩

def wifiDevice : DeviceEntry :=
  ⟨"127.0.0.1:5555".toList, 1, .device, .tcp ⟨"127.0.0.1".toList, 5555, none⟩, none, none, none,
    none⟩

/-- The state of a device on the network is not to be had under its serial. -/
theorem wifiDevice_not_answered :
    ¬SerialAnswered .quiet 0 (.start (oneDevice wifiDevice)) "127.0.0.1:5555".toList
      (.datum .state) := by
  intro h
  obtain ⟨d, -, hw⟩ := h.1 wifiDevice mem_cons_self rfl
  exact absurd (writesOnly_okayStr_iff.mp hw).2.1 (by decide)

end AdbFastboot
