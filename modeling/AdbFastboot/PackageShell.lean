import AdbFastboot.DeviceService
import AdbFastboot.ShellV2
import AdbFastboot.Utf8Ascii

namespace AdbFastboot

open ShellV2Packet DeviceFrame List

def packageMark : Text := "package:".toList

def packagesOf (text : Text) : List Text :=
  ((strLines text).filter packageMark.isPrefixOf).map fun line =>
    trimStartMatches packageMark line.length line

def uninstallCommand (packageName : Text) (keepData : Bool) : Text :=
  if keepData then "pm uninstall -k \"".toList ++ packageName ++ ['"']
  else "pm uninstall \"".toList ++ packageName ++ ['"']

def uninstallPackage (packageName : Text) (keepData : Bool) : LinkCall Text := do
  let ids ← openService (shellService ++ uninstallCommand packageName keepData) 1
  let output ← Link.loop (fun e => e) (collectTurn ids.localId) []
  pure (lossyText output)

def listCommand : Option Text → Text
  | some filter => "pm list packages -f \"".toList ++ filter ++ ['"']
  | none => "pm list packages -f".toList

def listPackages (filter : Option Text) : LinkCall (List Text) := do
  let ids ← openService (shellService ++ listCommand filter) 1
  let output ← Link.loop (fun e => e) (collectTurn ids.localId) []
  pure (packagesOf (lossyText output))

def ShellV2Packet.output : ShellV2Packet → Bytes
  | .stdout data => data
  | .stderr data => data
  | _ => []

def outputText (pkts : List ShellV2Packet) : Text := lossyText (pkts.flatMap ShellV2Packet.output)

section

variable {remoteId : UInt32} {frames : List DeviceFrame} {link : Link}

variable (hlink : link.Offers (serviceInbox ⟨1, remoteId⟩ frames))
include hlink

/-- The text that is returned is that of all bytes received. -/
theorem runShellCommand_frames (command : Text) :
    ((runShellCommand command).runOn link).1 = .ok (lossyText (bytes frames)) := by
  obtain ⟨link', hr, -⟩ := collected_returns (fun e => e) runShellTurn_collects
    (shellService ++ command) hlink lossyText
  exact congrArg Prod.fst hr

theorem uninstallPackage_frames (packageName : Text) (keepData : Bool) :
    ((uninstallPackage packageName keepData).runOn link).1 = .ok (lossyText (bytes frames)) := by
  obtain ⟨link', hr, -⟩ := collected_returns (fun e => e) collectTurn_collects
    (shellService ++ uninstallCommand packageName keepData) hlink lossyText
  exact congrArg Prod.fst hr

theorem listPackages_frames (filter : Option Text) :
    ((listPackages filter).runOn link).1 = .ok (packagesOf (lossyText (bytes frames))) := by
  obtain ⟨link', hr, -⟩ := collected_returns (fun e => e) collectTurn_collects
    (shellService ++ listCommand filter) hlink fun output => packagesOf (lossyText output)
  exact congrArg Prod.fst hr

end

namespace ShellV2Packet

variable (pkt : ShellV2Packet)

theorem streamId_ascii : pkt.streamId.toNat < 0x80 := by
  cases pkt <;> exact of_decide_eq_true rfl

theorem output_sublist : pkt.output.Sublist pkt.payload := by
  cases pkt with
  | stdout data | stderr data => exact List.Sublist.refl data
  | _ => exact nil_sublist _

/-- A packet has at least one ASCII byte more than its output. -/
theorem encode_ascii : pkt.output.countP (·.toNat < 0x80) + 1 ≤ pkt.encode.countP (·.toNat < 0x80) := by
  have hle := pkt.output_sublist.countP_le (p := fun b : UInt8 => decide (b.toNat < 0x80))
  rw [encode, countP_cons_of_pos (by simpa using pkt.streamId_ascii), countP_append]
  omega

/-- Each packet adds at least one ASCII byte to the output. -/
theorem encodeAll_ascii (pkts : List ShellV2Packet) :
    (pkts.flatMap output).countP (·.toNat < 0x80) + pkts.length
      ≤ (encodeAll pkts).countP (·.toNat < 0x80) := by
  induction pkts with
  | nil => exact Nat.le_refl 0
  | cons pkt pkts ih =>
    have hp := pkt.encode_ascii
    rw [encodeAll] at ih ⊢
    rw [flatMap_cons, flatMap_cons, countP_append, countP_append, length_cons]
    omega

end ShellV2Packet

/-- The packets decode to the text they hold only where there are none. -/
theorem lossyText_encodeAll_eq_iff (pkts : List ShellV2Packet) :
    lossyText (encodeAll pkts) = outputText pkts ↔ pkts = [] := by
  constructor
  · intro h
    have hc := congrArg (countP (·.toNat < 0x80)) h
    rw [outputText, lossyText, lossyText, utf8Lossy_countP_ascii, utf8Lossy_countP_ascii] at hc
    have hm := encodeAll_ascii pkts
    exact length_eq_zero_iff.mp (by omega)
  · rintro rfl
    rfl

/-- The callers of a shell-v2 service return the text of its output only where the device sends no
packet at all, and a list of packages that is right only where the headers of the packets change
none of the lines that name one. -/
theorem shell_text_iff {remoteId : UInt32} {pkts : List ShellV2Packet} {frames : List DeviceFrame}
    (hframes : DeviceFrame.bytes frames = ShellV2Packet.encodeAll pkts) {link : Link}
    (hlink : link.Offers (serviceInbox ⟨1, remoteId⟩ frames)) (command packageName : Text)
    (keepData : Bool) (filter : Option Text) :
    (((runShellCommand command).runOn link).1 = .ok (outputText pkts) ↔ pkts = []) ∧
      (((uninstallPackage packageName keepData).runOn link).1 = .ok (outputText pkts) ↔ pkts = []) ∧
      (((listPackages filter).runOn link).1 = .ok (packagesOf (outputText pkts)) ↔
        packagesOf (lossyText (ShellV2Packet.encodeAll pkts)) = packagesOf (outputText pkts)) := by
  rw [runShellCommand_frames hlink, uninstallPackage_frames hlink, listPackages_frames hlink,
    hframes, Except.ok.injEq, Except.ok.injEq]
  exact ⟨lossyText_encodeAll_eq_iff pkts, lossyText_encodeAll_eq_iff pkts, Iff.rfl⟩

def Link.serving (frames : List DeviceFrame) : Link where
  inbox := serviceInbox ⟨1, 7⟩ frames
  out := ⟨[], []⟩

theorem shell_text_iff_silent :
    ((runShellCommand "true".toList).runOn (Link.serving [])).1 = .ok (outputText []) ∧
      ((uninstallPackage "a".toList false).runOn (Link.serving [])).1 = .ok (outputText []) ∧
      ((listPackages none).runOn (Link.serving [])).1 = .ok (packagesOf (outputText [])) := by
  have hlink : (Link.serving []).Offers (serviceInbox ⟨1, 7⟩ []) := ⟨rfl, rfl⟩
  have hf : bytes [] = encodeAll [] := rfl
  obtain ⟨hr, hu, hl⟩ := shell_text_iff hf hlink "true".toList "a".toList false none
  exact ⟨hr.mpr rfl, hu.mpr rfl, hl.mpr rfl⟩

def onePackage : List ShellV2Packet := [.stdout (textBytes "package:a\n".toList)]

/-- One package is listed as none, and the texts have the header in front. -/
theorem shell_text_fail_one_package :
    ∃ frames, DeviceFrame.bytes frames = ShellV2Packet.encodeAll onePackage ∧
      ((runShellCommand "pm list packages".toList).runOn (Link.serving frames)).1
        ≠ .ok (outputText onePackage) ∧
      ((uninstallPackage "a".toList false).runOn (Link.serving frames)).1
        ≠ .ok (outputText onePackage) ∧
      packagesOf (outputText onePackage) = ["a".toList] ∧
      ((listPackages none).runOn (Link.serving frames)).1 = .ok [] := by
  have hf : bytes [.wrte (encodeAll onePackage)] = encodeAll onePackage := List.append_nil _
  have hlink : (Link.serving [.wrte (encodeAll onePackage)]).Offers
      (serviceInbox ⟨1, 7⟩ [.wrte (encodeAll onePackage)]) := ⟨rfl, rfl⟩
  have hne : lossyText (encodeAll onePackage) ≠ outputText onePackage := fun h =>
    absurd ((lossyText_encodeAll_eq_iff onePackage).mp h) (List.cons_ne_nil _ _)
  refine ⟨_, hf, ?_, ?_, by decide, ?_⟩
  · rw [runShellCommand_frames hlink, hf]
    exact fun h => hne (Except.ok.inj h)
  · rw [uninstallPackage_frames hlink, hf]
    exact fun h => hne (Except.ok.inj h)
  · rw [listPackages_frames hlink, hf]
    exact congrArg Except.ok (by decide)

end AdbFastboot
