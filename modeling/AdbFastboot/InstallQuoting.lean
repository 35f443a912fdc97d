import AdbFastboot.InstallServices
import AdbFastboot.PackageShell
import AdbFastboot.ShellArguments

namespace AdbFastboot

open List PlainWord

variable {text : List Char} {t : CommandTransport}

theorem PlainWord.rawWord (h : PlainWord text) : RawWord text := by
  have hch : ∀ c ∈ text, isWordChar c = true ∧ isShellSpecial c = false ∧ c ≠ '#' := by
    intro c hc
    obtain ⟨hbl, ho, hs, hsn, hd, hb, hhs⟩ :=
      (isShellPlain_iff c).mp (h.plain c hc)
    exact ⟨by simp [isWordChar, hbl, ho, hsn, hd, hb], hs, hhs⟩
  refine ⟨h.ne_nil, ⟨?_, ?_⟩, ?_⟩
  · intro hh
    exact (hch _ (mem_of_mem_head? hh)).2.2 rfl
  · intro hh
    have hs := (hch _ (mem_of_mem_head? hh)).2.1
    simp [isShellSpecial] at hs
  · intro c hc
    obtain ⟨hw, hs, -⟩ := hch c hc
    simp only [isShellSpecial, Bool.or_eq_false_iff, beq_eq_false_iff_ne] at hs
    exact ⟨hw, hs.1.1.1.1.1.1.1, hs.1.1.1.1.1.1.2, hs.1.1.1.1.1.2, hs.1.1.1.1.2⟩

section

variable (hne : text.isEmpty = false) (hall : text.all isShellPlain = true)
include hne hall

theorem PlainWord.of_all : PlainWord text :=
  ⟨isEmpty_eq_false_iff.mp hne, all_eq_true.mp hall⟩

theorem rawWord_of_all : RawWord text :=
  (of_all hne hall).rawWord

end

theorem plain_of_ascii {p : Char → Bool}
    (hall : ∀ n : Fin 128, p (Char.ofNat n) = true → isShellPlain (Char.ofNat n) = true) {c : Char}
    (ha : c.toNat < 128) (hc : p c = true) : isShellPlain c = true := by
  have h := hall ⟨c.toNat, ha⟩
  rw [Char.ofNat_toNat] at h
  exact h hc

theorem SessionId.plainWord (session : SessionId) : PlainWord session.text where
  ne_nil := session.ne_nil
  plain c hc := by
    have hd := all_eq_true.mp session.digits c hc
    have ha : c.toNat < 128 := by
      simp only [Char.isDigit, Bool.and_eq_true, decide_eq_true_eq] at hd
      have hle := UInt32.le_iff_toNat_le.mp hd.2
      have hn : '9'.val.toNat = 57 := rfl
      have hv : c.val.toNat = c.toNat := rfl
      omega
    exact plain_of_ascii (by decide +kernel) ha hd

theorem decimal_plainWord (n : Nat) : PlainWord (decimal n) where
  ne_nil := Nat.toDigits_ne_nil
  plain c hc := by
    have hd := digitIn_of_mem_toDigits (by decide) (by decide) hc
    exact plain_of_ascii (p := fun c => (digitIn 10 c).isSome) (by decide +kernel)
      (digitIn_ascii hd) hd

/-- The flags of the options are plain words. -/
theorem toPmFlags_plainWord (options : InstallOptions) : ∀ flag ∈ options.toPmFlags, PlainWord flag := by
  have hf : ∀ (set : Bool) (text : String), PlainWord text.toList →
      ∀ flag ∈ (if set then [text.toList] else []), PlainWord flag := by
    intro set text ht flag hm
    split at hm
    next => rwa [mem_singleton.mp hm]
    next => cases hm
  unfold InstallOptions.toPmFlags
  simp only [forall_mem_append]
  refine ⟨⟨⟨⟨⟨⟨⟨?_, ?_⟩, ?_⟩, ?_⟩, ?_⟩, ?_⟩, ?_⟩, ?_⟩
  all_goals exact hf _ _ (of_all rfl rfl)

namespace InstallCommand

/-- The words of a command that come from outside: a file name, a timeout. -/
def userWords : InstallCommand → List Text
  | write _ _ name => [name]
  | commit timeout _ => timeout.toList
  | _ => []

def PlainFlags : InstallCommand → Prop
  | create flags => ∀ flag ∈ flags, PlainWord flag
  | _ => True

/-- A command's words are raw exactly if those from outside are. -/
theorem rawWords_iff {command : InstallCommand} (h : command.PlainFlags) :
    (∀ arg ∈ command.args, RawWord arg) ↔ ∀ word ∈ command.userWords, RawWord word := by
  have hi : ∀ session : SessionId, RawWord session.text := fun session => session.plainWord.rawWord
  cases command with
  | create flags =>
    have hn : RawWord "install-create".toList := rawWord_of_all rfl rfl
    have hfl : ∀ flag ∈ flags, RawWord flag := fun flag hf => (h flag hf).rawWord
    simp only [args, userWords, forall_mem_cons, hn, true_and]
    exact ⟨fun _ _ hm => absurd hm not_mem_nil, fun _ => hfl⟩
  | write size session name =>
    have hn : RawWord "install-write".toList := rawWord_of_all rfl rfl
    have hsz : RawWord "-S".toList := rawWord_of_all rfl rfl
    have hs : RawWord "-".toList := rawWord_of_all rfl rfl
    have hd := (decimal_plainWord size.toNat).rawWord
    simp only [args, userWords, forall_mem_cons, hn, hsz, hs, hd, hi, true_and]
  | addSession parent children =>
    have hn : RawWord "install-add-session".toList := rawWord_of_all rfl rfl
    simp only [args, userWords, forall_mem_append, forall_mem_cons, forall_mem_map,
      hn, hi, true_and, implies_true, and_true]
  | commit timeout session =>
    have hn : RawWord "install-commit".toList := rawWord_of_all rfl rfl
    have ht : RawWord "--staged-ready-timeout".toList :=
      rawWord_of_all rfl rfl
    cases timeout with
    | none =>
      simp only [args, userWords, forall_mem_cons, hn, hi, true_and, cons_append,
        nil_append, Option.toList_none]
    | some value =>
      simp only [args, userWords, forall_mem_cons, hn, ht, hi, true_and,
        cons_append, nil_append, Option.toList_some]
  | abandon session =>
    have hn : RawWord "install-abandon".toList := rawWord_of_all rfl rfl
    simp only [args, userWords, forall_mem_cons, hn, hi, true_and]

end InstallCommand

def CommandTransport.programWords : CommandTransport → List Text
  | .abbExec => []
  | .execCmd => ["cmd".toList, "package".toList]
  | .execPm => ["pm".toList]

/-- The shell reads the text of an `exec:` service as the words that the command is made of. -/
def ServiceRun.Tokenises (t : CommandTransport) (run : ServiceRun) : Prop :=
  ∃ text, run.service = execPrefix ++ text ∧ ReadsAs text (t.programWords ++ run.command.args)

variable {command : InstallCommand}

/-- A command is read as meant exactly if the words from outside are raw. -/
theorem tokenises_iff (ht : t ≠ .abbExec) (h : command.PlainFlags) (result : Except LinkStop Text) :
    (ServiceRun.mk command (t.serviceString command.args) result).Tokenises t ↔
      ∀ word ∈ command.userWords, RawWord word := by
  rw [← InstallCommand.rawWords_iff h]
  have hc : RawWord "cmd".toList := rawWord_of_all rfl rfl
  have hp : RawWord "package".toList := rawWord_of_all rfl rfl
  have hpm : RawWord "pm".toList := rawWord_of_all rfl rfl
  cases t with
  | abbExec => exact absurd rfl ht
  | execCmd =>
    have htx : CommandTransport.execCmd.serviceString command.args = execPrefix ++
        ("cmd".toList ++ ("package".toList :: command.args).flatMap fun arg => ' ' :: arg) := rfl
    have hi := readsAs_words_iff "cmd".toList ("package".toList :: command.args)
    rw [forall_mem_cons, forall_mem_cons] at hi
    constructor
    · rintro ⟨text, hs, hr⟩
      rw [htx] at hs
      rw [← append_cancel_left hs] at hr
      exact (hi.mp hr).2.2
    · exact fun hraw => ⟨_, htx, hi.mpr ⟨hc, hp, hraw⟩⟩
  | execPm =>
    have htx : CommandTransport.execPm.serviceString command.args = execPrefix ++
        ("pm".toList ++ command.args.flatMap fun arg => ' ' :: arg) := rfl
    have hi := readsAs_words_iff "pm".toList command.args
    rw [forall_mem_cons] at hi
    constructor
    · rintro ⟨text, hs, hr⟩
      rw [htx] at hs
      rw [← append_cancel_left hs] at hr
      exact (hi.mp hr).2
    · exact fun hraw => ⟨_, htx, hi.mpr ⟨hpm, hraw⟩⟩

/-- What the shell makes of the commands of a run, and where their words come from. -/
def CommandsRead (t : CommandTransport) (names : Text → Prop) (_ : Link) (log : List ServiceRun) :
    Prop :=
  ∀ run ∈ log, (run.Tokenises t ↔ ∀ word ∈ run.command.userWords, RawWord word) ∧
    ∀ word ∈ run.command.userWords, names word

/-- Every command of a run is read as meant under the same condition. -/
theorem keptBy_commandsRead (ht : t ≠ .abbExec) {allowed : InstallCommand → Prop}
    {names : Text → Prop} (ha : ∀ command, allowed command → command.PlainFlags ∧
      ∀ word ∈ command.userWords, names word) : KeptBy t allowed (CommandsRead t names) := by
  intro command x hc _ s hs run hr
  obtain ⟨hf, hn⟩ := ha command hc
  rcases mem_append.mp hr with hr | hr
  · exact hs run hr
  · rw [mem_singleton.mp hr]
    exact ⟨tokenises_iff ht hf _, hn⟩

variable {options : InstallOptions}

theorem ofStreamed_words {apks : List LocalApk} {totalSize : UInt64}
    (h : command.OfStreamed apks totalSize options) :
    command.PlainFlags ∧ ∀ word ∈ command.userWords, ∃ apk ∈ apks, apk.fileName = some word := by
  cases command with
  | create flags =>
    refine ⟨?_, forall_mem_nil _⟩
    rw [h]
    refine forall_mem_append.mpr ⟨?_, toPmFlags_plainWord options⟩
    exact forall_mem_cons.mpr ⟨of_all rfl rfl,
      forall_mem_cons.mpr ⟨decimal_plainWord _, forall_mem_nil _⟩⟩
  | write size session name =>
    refine ⟨trivial, fun word hw => ?_⟩
    rw [mem_singleton.mp hw]
    exact h
  | addSession parent children => exact ⟨trivial, forall_mem_nil _⟩
  | commit timeout session =>
    subst h
    exact ⟨trivial, forall_mem_nil _⟩
  | abandon session => exact ⟨trivial, forall_mem_nil _⟩

theorem installMultipleStreamed_commandsRead (ht : t ≠ .abbExec) (apks : List LocalApk)
    (totalSize : UInt64) (options : InstallOptions) (inbox : List (Except Text AdbPacket))
    (faults : List (Option Text)) :
    CommandsRead t (fun word => ∃ apk ∈ apks, apk.fileName = some word)
      ((installMultipleStreamed t apks totalSize options).runOn (.start inbox faults)).2.link
      ((installMultipleStreamed t apks totalSize options).runOn (.start inbox faults)).2.log :=
  installMultipleStreamed_keeps
    (keptBy_commandsRead ht fun _ hc => ofStreamed_words hc) (.start inbox faults)
    fun _ hr => absurd hr not_mem_nil

theorem ofPackages_words {packages : List (List MultiPackageApk)}
    {timeout : Option Text} (h : command.OfPackages packages options timeout) :
    command.PlainFlags ∧ ∀ word ∈ command.userWords,
      (∃ apk ∈ packages.flatten, apk.splitName = word) ∨ timeout = some word := by
  cases command with
  | create flags =>
    refine ⟨?_, forall_mem_nil _⟩
    obtain ⟨front, back, rfl, hfr, hb⟩ := h
    refine forall_mem_append.mpr ⟨forall_mem_append.mpr
      ⟨fun flag hf => ?_, toPmFlags_plainWord options⟩, fun flag hf => ?_⟩
    · rw [mem_singleton.mp (hfr hf)]
      exact of_all rfl rfl
    · rcases mem_cons.mp (hb hf) with rfl | hf
      · exact of_all rfl rfl
      · rw [mem_singleton.mp hf]
        exact of_all rfl rfl
  | write size session name =>
    refine ⟨trivial, fun word hw => .inl ?_⟩
    rw [mem_singleton.mp hw]
    exact h
  | addSession parent children => exact ⟨trivial, forall_mem_nil _⟩
  | commit value session =>
    subst h
    exact ⟨trivial, fun word hw => .inr (by simpa [InstallCommand.userWords] using hw)⟩
  | abandon session => exact ⟨trivial, forall_mem_nil _⟩

theorem uninstallPackage_opens (packageName : Text) (keepData : Bool) :
    Opens (shellService ++ uninstallCommand packageName keepData)
      (uninstallPackage packageName keepData) :=
  opens_bind _ 1 fun hi _ =>
    (Link.loop_keepsOut (collectTurn_keeps hi _) _).bind fun _ => StateCall.keeps_pure _ _

variable (filter : Option Text)

theorem listPackages_opens : Opens (shellService ++ listCommand filter) (listPackages filter) :=
  opens_bind _ 1 fun hi _ =>
    (Link.loop_keepsOut (collectTurn_keeps hi _) _).bind fun _ => StateCall.keeps_pure _ _

def uninstallWords (packageName : Text) (keepData : Bool) : List Text :=
  (if keepData then ["pm".toList, "uninstall".toList, "-k".toList]
    else ["pm".toList, "uninstall".toList]) ++ [packageName]

/-- The uninstall command is read as meant exactly if its name quotes safely. -/
theorem uninstall_readsAs_iff (packageName : Text) (keepData : Bool) :
    ReadsAs (uninstallCommand packageName keepData) (uninstallWords packageName keepData) ↔
      quotesSafely packageName = true := by
  cases keepData with
  | false =>
    have hf : ShellLexer.start.run "pm uninstall ".toList
        = ⟨.outside, [], ["pm".toList, "uninstall".toList].map .literal⟩ := by decide
    exact readsAs_quoted_iff hf packageName
  | true =>
    have hf : ShellLexer.start.run "pm uninstall -k ".toList
        = ⟨.outside, [], ["pm".toList, "uninstall".toList, "-k".toList].map .literal⟩ := by decide
    exact readsAs_quoted_iff hf packageName

def listWords (filter : Option Text) : List Text :=
  ["pm".toList, "list".toList, "packages".toList, "-f".toList] ++ filter.toList

/-- The list command is read as meant exactly if its filter quotes safely. -/
theorem list_readsAs_iff : ReadsAs (listCommand filter) (listWords filter) ↔
      ∀ value, filter = some value → quotesSafely value = true := by
  cases filter with
  | none =>
    have hr : ReadsAs (listCommand none) (listWords none) := by decide
    simpa using hr
  | some value =>
    have hf : ShellLexer.start.run "pm list packages -f ".toList
        = ⟨.outside, [], ["pm".toList, "list".toList, "packages".toList, "-f".toList].map
          .literal⟩ := by decide
    refine (readsAs_quoted_iff hf value).trans ⟨fun hs other heq => ?_, fun h => h value rfl⟩
    cases heq
    exact hs

/-- What is handed to the shell of the device, whatever it answers: a command of an install session
is read as its words exactly when the names in it need no quotes, for they are put there as they are;
a name between double quotes is read unchanged exactly when it has nothing that is special there. -/
theorem install_commands_tokenise_iff (inbox : List (Except Text AdbPacket))
    (faults : List (Option Text)) (t : CommandTransport) (ht : t ≠ .abbExec)
    (apks : List LocalApk) (packages : List (List MultiPackageApk)) (totalSize : UInt64)
    (options : InstallOptions) (apexSupported : Bool) (timeout : Option Text)
    (packageName : Text) (keepData : Bool) (filter : Option Text) :
    (∀ run ∈ ((installMultipleStreamed t apks totalSize options).runOn (.start inbox faults)).2.log,
        (run.Tokenises t ↔ ∀ word ∈ run.command.userWords, RawWord word) ∧
          ∀ word ∈ run.command.userWords, ∃ apk ∈ apks, apk.fileName = some word) ∧
      (∀ run ∈ ((installMultiPackageSessions t packages options apexSupported timeout).runOn
          (.start inbox faults)).2.log,
        (run.Tokenises t ↔ ∀ word ∈ run.command.userWords, RawWord word) ∧
          ∀ word ∈ run.command.userWords,
            (∃ apk ∈ packages.flatten, apk.splitName = word) ∨ timeout = some word) ∧
      Opens (shellService ++ uninstallCommand packageName keepData)
        (uninstallPackage packageName keepData) ∧
      (ReadsAs (uninstallCommand packageName keepData) (uninstallWords packageName keepData) ↔
        quotesSafely packageName = true) ∧
      Opens (shellService ++ listCommand filter) (listPackages filter) ∧
      (ReadsAs (listCommand filter) (listWords filter) ↔
        ∀ value, filter = some value → quotesSafely value = true) := by
  refine ⟨installMultipleStreamed_commandsRead ht _ _ _ _ _, ?_, uninstallPackage_opens _ _,
    uninstall_readsAs_iff _ _, listPackages_opens _, list_readsAs_iff _⟩
  exact installMultiPackageSessions_keeps
    (keptBy_commandsRead ht fun _ hc => ofPackages_words hc) apexSupported _
    fun _ hr => absurd hr not_mem_nil

def sessionCreated : List (Except Text AdbPacket) :=
  serviceInbox ⟨1, 7⟩ [.wrte (textBytes "Success: created install session [1]\n".toList)]

def rebootApk : LocalApk := ⟨some "a;reboot;.apk".toList, .ok 1, .ok 1, .ok 1, .ok [.ok [0]]⟩

theorem install_commands_tokenise_iff_keep : CommandTransport.execPm ≠ .abbExec ∧
      ReadsAs "pm uninstall -k \"com.example\"".toList
        ["pm".toList, "uninstall".toList, "-k".toList, "com.example".toList] :=
  ⟨by decide, (install_commands_tokenise_iff sessionCreated [] .execPm (by decide) [rebootApk] [] 1
    noOptions false none "com.example".toList true none).2.2.2.1.mpr (by decide)⟩

theorem install_commands_not_tokenised :
    (∃ run ∈ ((installMultipleStreamed .execCmd [rebootApk] 1 noOptions).runOn
        (.start sessionCreated [])).2.log, ¬ run.Tokenises .execCmd) ∧
      ¬ ReadsAs (uninstallCommand "a\"; reboot; \"".toList false)
        (uninstallWords "a\"; reboot; \"".toList false) ∧
      ¬ ReadsAs (listCommand (some "$(reboot)".toList)) (listWords (some "$(reboot)".toList)) := by
  refine ⟨?_, by decide, by decide⟩
  have hrd := installMultipleStreamed_commandsRead (t := .execCmd) (by decide) [rebootApk] 1
    noOptions sessionCreated []
  have hm : ["a;reboot;.apk".toList] ∈ ((installMultipleStreamed .execCmd [rebootApk] 1
      noOptions).runOn (.start sessionCreated [])).2.log.map (·.command.userWords) := by
    exact .tail _ (.head _)
  obtain ⟨run, hr, hu⟩ := mem_map.mp hm
  refine ⟨run, hr, fun ht => ?_⟩
  have hraw := (hrd run hr).1.mp ht "a;reboot;.apk".toList (by rw [hu]; exact .head _)
  exact absurd (hraw.chars ';' (by decide)).1 (by decide)

end AdbFastboot
