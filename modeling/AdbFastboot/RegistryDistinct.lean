import AdbFastboot.RegistryEdits

namespace AdbFastboot

open List

/-- The serials and the transport ids of a registry are distinct, the ids below the next one. -/
structure TransportRegistry.Distinct (reg : TransportRegistry) : Prop where
  serials : DistinctSerials reg.devices
  ids : reg.IdsFresh

namespace TransportRegistry

variable {reg reg' : TransportRegistry}

/-- Edits that look a serial up first keep the registry distinct. -/
theorem Distinct.edits {given : Text → Prop} (h : reg.Distinct)
    (he : TableEdits given reg.table reg'.table) : reg'.Distinct :=
  ⟨he.distinctSerials h.serials, he.keepsIds.fresh h.ids⟩

/-- Adding a USB device keeps it distinct exactly if its serial is new. -/
theorem Distinct.pushUsb_iff (h : reg.Distinct) (serial : Text) :
    (reg.pushUsb serial).Distinct ↔ reg.hasSerial serial = false := by
  rw [hasSerial_eq_false]
  constructor
  · rintro ⟨hs, -⟩ d hd rfl
    have hl : (⟨d.serial, reg.nextId, .device, .usb, none, none, none, none⟩ : DeviceEntry)
        ∈ (reg.pushUsb d.serial).devices := by simp [pushUsb]
    have hsm := hs.eq (mem_append_left _ hd) hl rfl
    have hlt := h.ids.below d hd
    rw [hsm] at hlt
    exact absurd hlt (Nat.lt_irrefl _)
  · intro hf
    have he : TableEdits (fun name => name = serial) reg.table (reg.pushUsb serial).table :=
      .single (.add rfl hf rfl)
    exact h.edits he

theorem distinctSerials_renameDevice_iff (h : DistinctSerials reg.devices) (serial newSerial : Text) :
    DistinctSerials (reg.renameDevice serial newSerial).devices ↔
      (reg.hasSerial serial = true → serial ≠ newSerial → reg.hasSerial newSerial = false) := by
  unfold renameDevice DistinctSerials
  cases hf : reg.findBySerial serial with
  | none =>
    have hno : ¬ reg.hasSerial serial = true := by
      rintro hsm
      obtain ⟨d, hd, heq⟩ := hasSerial_iff.mp hsm
      exact findBySerial_eq_none.mp hf d hd heq
    rw [modifyFirst_of_none hf]
    exact ⟨fun _ hy => absurd hy hno, fun _ => h⟩
  | some d =>
    obtain ⟨hd, hs⟩ := findBySerial_mem hf
    have hy := hasSerial_iff.mpr ⟨d, hd, hs⟩
    obtain ⟨front, back, hdv, hmd⟩ := modifyFirst_of_find?
      (f := fun d => { d with serial := newSerial }) hf
    unfold DistinctSerials at h
    rw [hdv, map_append, map_cons, nodup_middle, nodup_cons, hs] at h
    dsimp only
    rw [hmd, map_append, map_cons, nodup_middle, nodup_cons, mem_append, hasSerial_eq_false, hdv]
    simp only [mem_append, mem_cons]
    constructor
    · rintro ⟨hn, -⟩ - hne e he rfl
      rcases he with he | rfl | he
      · exact hn (.inl (mem_map_of_mem he))
      · exact hne hs.symm
      · exact hn (.inr (mem_map_of_mem he))
    · intro hfr
      refine ⟨fun hm => ?_, h.2⟩
      have hne : serial ≠ newSerial := by
        rintro rfl
        exact h.1 (mem_append.mpr hm)
      rcases hm with hm | hm
      · obtain ⟨e, he, heq⟩ := mem_map.mp hm
        exact hfr hy hne e (.inl he) heq
      · obtain ⟨e, he, heq⟩ := mem_map.mp hm
        exact hfr hy hne e (.inr (.inr he)) heq

theorem renameDevice_keepsIds (reg : TransportRegistry) (serial newSerial : Text) :
    reg.table.KeepsIds (reg.renameDevice serial newSerial).table := .change fun _ => rfl

/-- Renaming keeps it distinct exactly if the new serial is free. -/
theorem Distinct.renameDevice_iff (h : reg.Distinct) (serial newSerial : Text) :
    (reg.renameDevice serial newSerial).Distinct ↔
      (reg.hasSerial serial = true → serial ≠ newSerial → reg.hasSerial newSerial = false) := by
  rw [← distinctSerials_renameDevice_iff h.serials]
  exact ⟨Distinct.serials, fun hs => ⟨hs, (reg.renameDevice_keepsIds ..).fresh h.ids⟩⟩

end TransportRegistry

/-- The serial that a step gives to a device without a look at the registry is free: that of a
connection which gets its name, and that of a device which `TransportManager` finds. -/
def NamesFree (s : ServerState) : ServerStep → Prop
  | .named call => ∀ ipSerial serial connection,
      s.calls[call]? = some (.naming ipSerial serial connection) →
      s.registry.hasSerial ipSerial = true → ipSerial ≠ serial → s.registry.hasSerial serial = false
  | .usbNext call => ∀ before now serial todo,
      s.calls[call]? = some (.refreshing before now (serial :: todo)) →
      before.contains serial = false → s.registry.hasSerial serial = false
  | _ => True

section

variable {s s' : ServerState}

theorem step_named {call : Nat} (h : s.registry.Distinct) :
    NamesFree s (.named call) ↔ ∀ s', s.step (.named call) = some s' → s'.registry.Distinct := by
  simp only [NamesFree, ServerState.step]
  split
  next ipSerial serial connection hc =>
    simp only [hc, Option.some.injEq, ServerCall.naming.injEq, forall_eq', and_imp]
    rw [show (s.name call ipSerial serial connection).registry
      = s.registry.renameDevice ipSerial serial from rfl, h.renameDevice_iff]
    exact ⟨fun hf => hf _ _ _ rfl rfl rfl, fun hf _ _ _ h1 h2 _ => h1 ▸ h2 ▸ hf⟩
  next hn =>
    exact ⟨fun _ s' hs' => (by cases hs'), fun _ _ _ _ hc => absurd hc (hn _ _ _)⟩

theorem refreshNext_registry (s : ServerState) (call : Nat) (before now : List Text) (serial : Text)
    (todo : List Text) :
    (s.refreshNext call before now (serial :: todo)).registry
      = if before.contains serial then s.registry else s.registry.pushUsb serial := by
  unfold ServerState.refreshNext
  dsimp only
  split <;> rfl

theorem step_usbNext {call : Nat} (h : s.registry.Distinct) : NamesFree s (.usbNext call) ↔
      ∀ s', s.step (.usbNext call) = some s' → s'.registry.Distinct := by
  simp only [NamesFree, ServerState.step]
  split
  next before now todo hc =>
    simp only [hc, Option.some.injEq, forall_eq']
    cases todo with
    | nil =>
      refine ⟨fun _ => ?_, fun _ _ _ _ _ heq => by cases heq⟩
      have hp : TableEdits (fun _ => False) s.registry.table (s.registry.pruneUsb now).table :=
        s.registry.pruneUsb_edits now
      exact h.edits hp
    | cons serial todo =>
      rw [refreshNext_registry]
      by_cases hb : before.contains serial = true
      · rw [if_pos hb]
        refine ⟨fun _ => h, fun _ _ _ _ _ heq hnot => ?_⟩
        cases heq
        exact absurd hb (Bool.not_eq_true _ ▸ hnot)
      · rw [if_neg hb, h.pushUsb_iff]
        refine ⟨fun hf => hf _ _ _ _ rfl (Bool.not_eq_true _ ▸ hb), ?_⟩
        rintro hf _ _ _ _ heq -
        cases heq
        exact hf
  next hn =>
    exact ⟨fun _ s' hs' => (by cases hs'), fun _ _ _ _ _ hc => absurd hc (hn _ _ _)⟩

/-- A step keeps the registry distinct exactly if the name it gives is free. -/
theorem step_distinct {a : ServerStep} (h : s.registry.Distinct) :
    NamesFree s a ↔ ∀ s', s.step a = some s' → s'.registry.Distinct := by
  cases hl : a.unlooked with
  | false =>
    have hf : NamesFree s a := by
      unfold NamesFree
      split
      next => cases hl
      next => cases hl
      next => trivial
    exact iff_of_true hf fun s' hs' => h.edits (step_edits hs' hl)
  | true =>
    cases a with
    | named call => exact step_named h
    | usbNext call => exact step_usbNext h
    | _ => cases hl

end

theorem start_distinct : ServerState.start.registry.Distinct where
  serials := nodup_nil
  ids := ⟨nodup_nil, fun _ hd => nomatch hd⟩

/-- In a run from the empty registry, the serials and ids stay distinct exactly if each step that
gives a serial unlooked finds it free. -/
theorem registry_distinct_iff (steps : List ServerStep) :
    (∀ front s, front <+: steps → runSteps ServerState.step .start front = some s →
        s.registry.Distinct)
      ↔ StepsMeet ServerState.step NamesFree .start steps :=
  runSteps_invariant_iff step_distinct start_distinct

/-- An emulator that is announced again after its first connection: its serial stands twice. -/
theorem registry_not_distinct : ∃ s, runSteps ServerState.step .start
        [.emulator 5555, .connected 0 0 [], .named 0, .emulator 5555, .connected 0 0 [], .named 0]
          = some s ∧
      s.registry.devices.map DeviceEntry.serial = ["emulator-5554".toList, "emulator-5554".toList] ∧
      ¬ s.registry.Distinct := by
  refine ⟨_, rfl, by decide, ?_⟩
  intro h
  exact absurd h.serials (by unfold DistinctSerials; decide)

end AdbFastboot
