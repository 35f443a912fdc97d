import AdbFastboot.InstallAtomic

namespace AdbFastboot

open StateCall List Outbox

def openedServices (sent : List AdbPacket) : List Bytes :=
  (sent.filter fun p => p.header.command == aOpen).map AdbPacket.payload

theorem openedServices_append (sent more : List AdbPacket) :
    openedServices (sent ++ more) = openedServices sent ++ openedServices more := by
  simp [openedServices]

def Outbox.Opened (services : List Bytes) (out : Outbox) : Prop :=
  openedServices out.sent = services

def Link.Opened (services : List Bytes) (link : Link) : Prop := link.out.Opened services

/-- A property of the outbox that only a message that opens a service can change. -/
def KeptOpen (inv : Outbox → Prop) : Prop :=
  ∀ command arg0 arg1 payload, command ≠ aOpen →
    (Outbox.send (AdbPacket.new command arg0 arg1 payload)).Keeps inv

theorem Outbox.send_sent (p : AdbPacket) (out : Outbox) :
    ((send p).runOn out).2.sent = out.sent ++ [p] := by
  rw [send, runOn_ofRun]
  split <;> rfl

/-- Only an A_OPEN changes the services opened. -/
theorem keptOpen_services (services : List Bytes) : KeptOpen (Outbox.Opened services) := by
  intro command arg0 arg1 payload hc out ho
  have hn : openedServices [AdbPacket.new command arg0 arg1 payload] = [] := by
    simp [openedServices, AdbPacket.new, AdbMessageHeader.new, hc]
  rw [Outbox.Opened, send_sent, openedServices_append, hn, append_nil]
  exact ho

section

variable {inv : Outbox → Prop} (hinv : KeptOpen inv)

include hinv

variable (arg0 arg1 : UInt32)

theorem KeptOpen.okay (payload : Bytes) :
    (send (AdbPacket.new aOkay arg0 arg1 payload)).Keeps inv :=
  hinv aOkay arg0 arg1 payload (by decide)

theorem KeptOpen.wrte (payload : Bytes) :
    (send (AdbPacket.new aWrte arg0 arg1 payload)).Keeps inv :=
  hinv aWrte arg0 arg1 payload (by decide)

theorem KeptOpen.clse (payload : Bytes) :
    (send (AdbPacket.new aClse arg0 arg1 payload)).Keeps inv :=
  hinv aClse arg0 arg1 payload (by decide)

theorem runShellTurn_keeps (localId : UInt32) (output : Bytes) (p : AdbPacket) :
    (runShellTurn localId output p).Keeps inv := by
  refine keeps_ite (keeps_pure _ _) (keeps_ite ?_ (keeps_ite ?_ (keeps_throw _ _)))
  · exact (hinv.okay _ _ _).bind fun _ => keeps_pure _ _
  · exact (hinv.clse _ _ _).bind fun _ => keeps_pure _ _

theorem collectTurn_keeps (localId : UInt32) (output : Bytes) (p : AdbPacket) :
    (collectTurn localId output p).Keeps inv := by
  refine keeps_ite (keeps_pure _ _) (keeps_ite ?_ (keeps_ite ?_ (keeps_pure _ _)))
  · exact (hinv.okay _ _ _).attempt.bind fun _ => keeps_pure _ _
  · exact (hinv.clse _ _ _).attempt.bind fun _ => keeps_pure _ _

variable (ids : StreamIds) (pending : List Bytes)

theorem writeExecTurn_keeps (p : AdbPacket) : (writeExecTurn ids pending p).Keeps inv := by
  refine keeps_ite ?_ (keeps_ite ?_ (keeps_ite ?_ (keeps_throw _ _)))
  · exact keeps_ite (keeps_throw _ _) (keeps_pure _ _)
  · exact keeps_ite (keeps_throw _ _) ((hinv.okay _ _ _).bind fun _ => keeps_pure _ _)
  · exact (hinv.clse _ _ _).attempt.bind fun _ => keeps_throw _ _

theorem readExecTurn_keeps (output : Bytes) (p : AdbPacket) :
    (readExecTurn ids output p).Keeps inv := by
  refine keeps_ite (keeps_pure _ _) (keeps_ite ?_ (keeps_ite ?_ (keeps_throw _ _)))
  · exact keeps_ite (keeps_throw _ _) ((hinv.okay _ _ _).bind fun _ => keeps_pure _ _)
  · exact keeps_ite (keeps_throw _ _) ((hinv.clse _ _ _).bind fun _ => keeps_pure _ _)

theorem writeExecPayload_keeps (payload : Bytes) (pending : List Bytes) :
    (writeExecPayload ids payload pending).Keeps fun link => inv link.out :=
  (Link.sending_keepsOut (hinv.wrte _ _ _)).bind fun _ =>
    Link.loop_keepsOut (writeExecTurn_keeps hinv ids) pending

theorem readExecOutput_keeps : (readExecOutput ids pending).Keeps fun link => inv link.out :=
  (Link.loop_keepsOut (readExecTurn_keeps hinv ids) _).bind fun _ => keeps_pure _ _

theorem streamChunks_keeps (reads : List (Except Text Bytes)) (bytesSent : Nat)
    (pending : List Bytes) :
    (streamChunks ids reads bytesSent pending).Keeps fun link => inv link.out := by
  induction reads generalizing bytesSent pending with
  | nil => exact keeps_pure _ _
  | cons read reads ih =>
    cases read with
    | error e => exact keeps_throw _ _
    | ok chunk =>
      exact keeps_ite (keeps_pure _ _)
        ((writeExecPayload_keeps hinv ids chunk pending).bind fun _ => ih _ _)

end

theorem openTurn_keeps {inv : Outbox → Prop} (dest : Text) (localId : UInt32) (p : AdbPacket) :
    (openTurn dest localId p).Keeps inv :=
  keeps_ite (keeps_pure _ _) (keeps_ite (keeps_throw _ _) (keeps_pure _ _))

def Opens {α : Type} (service : Text) (x : LinkCall α) : Prop :=
  ∀ link, (x.runOn link).2.Opened (openedServices link.out.sent ++ [textBytes service])

variable (service : Text)

/-- A call that opens a service and then none opens just that one. -/
theorem opens_bind {α : Type} (localId : UInt32) {f : StreamIds → LinkCall α}
    (hf : ∀ {inv : Outbox → Prop}, KeptOpen inv → ∀ ids, (f ids).Keeps fun link => inv link.out) :
    Opens service (openService service localId >>= f) := by
  intro link
  have hk := keptOpen_services (openedServices link.out.sent ++ [textBytes service])
  have hs : ((Link.sending (send
      (AdbPacket.new aOpen localId 0 (textBytes service)))).runOn link).2.Opened
      (openedServices link.out.sent ++ [textBytes service]) := by
    change openedServices ((send _).runOn link.out).2.sent = _
    rw [send_sent, openedServices_append]
    rfl
  have ho : ((openService service localId).runOn link).2.Opened
      (openedServices link.out.sent ++ [textBytes service]) :=
    StateCall.Keeps.after hs fun _ =>
      Link.loop_keepsOut (fun _ => openTurn_keeps service localId) ()
  exact StateCall.Keeps.after ho (hf hk)

theorem runShellCommand_opens (command : Text) :
    Opens (shellService ++ command) (runShellCommand command) :=
  opens_bind _ 1 fun hinv _ =>
    (Link.loop_keepsOut (runShellTurn_keeps hinv _) _).bind fun _ => keeps_pure _ _

/-- Streaming a file opens one service. -/
theorem streamService_opens (fileSize : UInt64) (reads : List (Except Text Bytes)) :
    Opens service (streamService service fileSize reads) :=
  opens_bind _ 1 fun hinv ids => (streamChunks_keeps hinv ids reads 0 []).bind fun _ =>
    keeps_ite (keeps_throw _ _) (readExecOutput_keeps hinv _ _)

section

variable {inv : InstallState → Prop}

theorem keeps_lift_bind {α β : Type} {r : Except Text α} {f : α → InstallCall β}
    (hf : ∀ a, r = .ok a → (f a).Keeps inv) : (liftText r >>= f).Keeps inv := by
  intro s hs
  cases r with
  | error e => exact hs
  | ok a =>
    exact hf a rfl s hs

theorem discard_keeps {α : Type} {x : InstallCall α} (hx : x.Keeps inv) : (discard x).Keeps inv :=
  (keeps_returned hx).bind fun _ => keeps_pure _ _

variable {x : InstallCall Text}

theorem demand_keeps (hx : x.Keeps inv) (accepts : Text → Bool)
    (failure : Text → Text) : (demand accepts failure x).Keeps inv :=
  hx.bind fun _ => keeps_ite (keeps_pure _ _) (keeps_throw _ _)

theorem createSession_keeps (hx : x.Keeps inv) (failure : Text) : (createSession failure x).Keeps inv := by
  refine hx.bind fun output => ?_
  split
  next => exact keeps_pure _ _
  next => exact keeps_throw _ _

/-- A body and its abandon keep what both of them keep. -/
theorem orAbandon_keeps {body abandon : InstallCall Unit} (hb : body.Keeps inv)
    (ha : abandon.Keeps inv) : (orAbandon body abandon).Keeps inv := by
  refine (keeps_returned hb).bind fun result => ?_
  split
  next => exact keeps_pure _ _
  next => exact ha.bind fun _ => keeps_throw _ _

end

def InstallCommand.OfStreamed (apks : List LocalApk) (totalSize : UInt64)
    (options : InstallOptions) : InstallCommand → Prop
  | create flags => flags = ["-S".toList, decimal totalSize.toNat] ++ options.toPmFlags
  | write _ _ name => ∃ apk ∈ apks, apk.fileName = some name
  | addSession _ _ => False
  | commit timeout _ => timeout = none
  | abandon _ => True

def InstallCommand.OfPackages (packages : List (List MultiPackageApk)) (options : InstallOptions)
    (stagedReadyTimeout : Option Text) : InstallCommand → Prop
  | create flags => ∃ front back, flags = front ++ options.toPmFlags ++ back ∧
      front ⊆ ["--multi-package".toList] ∧ back ⊆ ["--staged".toList, "--apex".toList]
  | write _ _ name => ∃ apk ∈ packages.flatten, apk.splitName = name
  | addSession _ _ => True
  | commit timeout _ => timeout = stagedReadyTimeout
  | abandon _ => True

/-- A property of the connection and the commands that each command keeps which is allowed. -/
def KeptBy (t : CommandTransport) (allowed : InstallCommand → Prop)
    (inv : Link → List ServiceRun → Prop) : Prop :=
  ∀ command x, allowed command → Opens (t.serviceString command.args) x →
    (issue command (t.serviceString command.args) x).Keeps fun s => inv s.link s.log

section

variable {t : CommandTransport} {allowed : InstallCommand → Prop}
  {inv : Link → List ServiceRun → Prop} (hinv : KeptBy t allowed inv)

include hinv

/-- An allowed command keeps the invariant of link and log. -/
theorem KeptBy.run (command : InstallCommand) (h : allowed command) :
    (runInstallCommand t command).Keeps fun s => inv s.link s.log :=
  hinv command _ h (opens_bind _ 1 fun hinv _ => readExecOutput_keeps hinv _ _)

theorem KeptBy.stream {command : InstallCommand} (h : allowed command) (file : LocalApk)
    (expected : UInt64) :
    (streamFileToInstallCommand t command file expected).Keeps fun s => inv s.link s.log := by
  refine (keeps_lift _ _).bind fun fileSize => ?_
  refine keeps_ite (keeps_throw _ _) ?_
  exact (keeps_lift _ _).bind fun reads => hinv command _ h (streamService_opens _ _ _)

theorem writeStreamed_keeps (session : SessionId) {apks : List LocalApk}
    (h : ∀ apk ∈ apks, ∀ size name, apk.fileName = some name → allowed (.write size session name)) :
    (writeStreamed t session apks).Keeps fun s => inv s.link s.log := by
  induction apks with
  | nil => exact keeps_pure _ _
  | cons apk apks ih =>
    rw [forall_mem_cons] at h
    refine keeps_lift_bind fun fileName hn => keeps_lift_bind fun size _ => ?_
    have hw := h.1 size fileName (LocalApk.fileName_of_name hn)
    exact (demand_keeps (hinv.stream hw apk size) _ _).bind fun _ => ih h.2

theorem writeChild_keeps (child : SessionId) {apks : List MultiPackageApk}
    (h : ∀ apk ∈ apks, allowed (.write apk.size child apk.splitName)) :
    (writeChild t child apks).Keeps fun s => inv s.link s.log := by
  induction apks with
  | nil => exact keeps_pure _ _
  | cons apk apks ih =>
    rw [forall_mem_cons] at h
    exact (demand_keeps (hinv.stream h.1 apk.file apk.size) _ _).bind fun _ => ih h.2

theorem abandonAll_keeps {sessions : List SessionId}
    (h : ∀ session ∈ sessions, allowed (.abandon session)) :
    (abandonAll t sessions).Keeps fun s => inv s.link s.log := by
  induction sessions with
  | nil => exact keeps_pure _ _
  | cons session sessions ih =>
    rw [forall_mem_cons] at h
    exact (discard_keeps (hinv.run _ h.1)).bind fun _ => ih h.2

end

section

variable {t : CommandTransport} {inv : Link → List ServiceRun → Prop}

/-- Streamed installation issues only commands for its files. -/
theorem installMultipleStreamed_keeps {apks : List LocalApk} {totalSize : UInt64} {options : InstallOptions}
    (hinv : KeptBy t (InstallCommand.OfStreamed apks totalSize options) inv) :
    (installMultipleStreamed t apks totalSize options).Keeps fun s => inv s.link s.log := by
  refine (createSession_keeps (hinv.run (.create _) rfl) _).bind fun session =>
    orAbandon_keeps ?_ ?_
  · refine (writeStreamed_keeps hinv session fun apk ha size name hn => ?_).bind fun _ => ?_
    · exact ⟨apk, ha, hn⟩
    · exact demand_keeps (hinv.run (.commit none session) rfl) _ _
  · exact discard_keeps (hinv.run (.abandon session) trivial)

variable {packages : List (List MultiPackageApk)} {options : InstallOptions} {timeout : Option Text}

theorem childFlags_ofPackages (apexFound : Bool) (package : List MultiPackageApk) :
    (InstallCommand.create (childFlags options apexFound package)).OfPackages packages options
      timeout := by
  refine ⟨[], _, rfl, nil_subset _, ?_⟩
  split
  next => split <;> simp
  next => exact nil_subset _

variable (hinv : KeptBy t (InstallCommand.OfPackages packages options timeout) inv)
include hinv

/-- The child sessions issue only commands of their packages. -/
theorem childSessions_keeps (apexFound : Bool) {part : List (List MultiPackageApk)}
    (hp : part ⊆ packages) :
    (childSessions t options apexFound part).Keeps fun s => inv s.link s.log := by
  induction part with
  | nil => exact keeps_pure _ _
  | cons package rest ih =>
    rw [cons_subset] at hp
    refine (createSession_keeps (hinv.run _ (childFlags_ofPackages _ _)) _).bind fun child => ?_
    have hps : (pushChild child).Keeps fun s => inv s.link s.log := fun _ hs => hs
    refine hps.bind fun _ => ?_
    refine (writeChild_keeps hinv child fun apk ha => ?_).bind fun _ => ih hp.2
    exact ⟨apk, mem_flatten.mpr ⟨package, hp.1, ha⟩, rfl⟩

/-- Multi-package installation issues only commands of its packages. -/
theorem installMultiPackageSessions_keeps (apexSupported : Bool) :
    (installMultiPackageSessions t packages options apexSupported timeout).Keeps
      fun s => inv s.link s.log := by
  refine keeps_ite (keeps_throw _ _) ?_
  have hp : ∀ staged : Bool, (InstallCommand.create ("--multi-package".toList ::
      options.toPmFlags ++ if staged then ["--staged".toList] else [])).OfPackages packages options
      timeout := by
    intro staged
    refine ⟨["--multi-package".toList], _, rfl, List.Subset.refl _, ?_⟩
    split <;> simp
  have hi : childIds.Keeps fun s => inv s.link s.log := fun _ hs => hs
  refine (createSession_keeps (hinv.run _ (hp _)) _).bind fun parent => ?_
  have hsn : ∀ body abandon : InstallCall Unit, body.Keeps (fun s => inv s.link s.log) →
      abandon.Keeps (fun s => inv s.link s.log) →
      (withoutChildren (orAbandon body abandon)).Keeps fun s => inv s.link s.log :=
    fun body abandon hb ha s hs => orAbandon_keeps hb ha _ hs
  refine hsn _ _ ?_ ?_
  · refine (childSessions_keeps hinv _ (List.Subset.refl _)).bind fun _ => hi.bind fun children => ?_
    exact (demand_keeps (hinv.run (.addSession parent children) trivial) _ _).bind fun _ =>
      demand_keeps (hinv.run (.commit timeout parent) rfl) _ _
  · exact hi.bind fun children => abandonAll_keeps hinv fun _ _ => trivial

end

/-- The services that were opened since some point are those of the commands, in their order. -/
def ServicesOf (base : List Bytes) (link : Link) (log : List ServiceRun) : Prop :=
  openedServices link.out.sent = base ++ log.map fun run => textBytes run.service

variable (base : List Bytes) (command : InstallCommand)

theorem issue_servicesOf {service : Text} {x : LinkCall Text} (hx : Opens service x) :
    (issue command service x).Keeps fun s => ServicesOf base s.link s.log := by
  intro s hs
  have ho := hx s.link
  have hl : ((issue command service x).runOn s).2.log
      = s.log ++ [⟨command, service, (x.runOn s.link).1⟩] := rfl
  change openedServices (x.runOn s.link).2.out.sent = _
  rw [ho, hs, hl, map_append, append_assoc]
  rfl

/-- The log and the services opened stay the same. -/
theorem keptBy_servicesOf (t : CommandTransport) (allowed : InstallCommand → Prop) :
    KeptBy t allowed (ServicesOf base) :=
  fun command _ _ hx => issue_servicesOf base command hx

theorem runStaged_servicesOf (text : Text) :
    (runStaged command text).Keeps fun s => ServicesOf base s.link s.log :=
  issue_servicesOf base command (runShellCommand_opens text)

variable (apks : List StagedApk)

theorem installStagedMultiple_servicesOf (totalSize : UInt64) (options : InstallOptions) :
    (installStagedMultiple apks totalSize options).Keeps fun s => ServicesOf base s.link s.log := by
  have hr := runStaged_servicesOf base
  have hw : ∀ session (some : List StagedApk),
      (writeStaged session some).Keeps fun s => ServicesOf base s.link s.log := by
    intro session some
    induction some with
    | nil => exact keeps_pure _ _
    | cons apk apks ih => exact (demand_keeps (hr _ _) _ _).bind fun _ => ih
  refine (createSession_keeps (hr _ _) _).bind fun session => orAbandon_keeps ?_ ?_
  · exact (hw session apks).bind fun _ => demand_keeps (hr _ _) _ _
  · exact discard_keeps (hr _ _)

def InstallState.Asked (service : Text) (s : InstallState) : Prop :=
  textBytes service ∈ openedServices s.link.out.sent

def Came {α : Type} (r : Except LinkStop α) : Prop := r ≠ .error .waiting ∧ r ≠ .error .running

theorem discard_onLink_asked {service : Text} {x : LinkCall Text} (hx : Opens service x)
    (s : InstallState) :
    ((discard (onLink x)).runOn s).2.Asked service ∧
      ∀ other, s.Asked other → ((discard (onLink x)).runOn s).2.Asked other := by
  have hl : ((discard (onLink x)).runOn s).2.link = (x.runOn s.link).2 := by
    unfold discard returned onLink
    rw [runOn_bind, runOn_ofRun, runOn_ofRun]
    rcases x.runOn s.link with ⟨r, link⟩
    rcases r with (e | _ | _) | a <;> rfl
  have ho := hx s.link
  unfold InstallState.Asked
  rw [hl, ho]
  exact ⟨by simp, fun other hot => mem_append_left _ hot⟩

theorem discard_not_failed {α : Type} (x : InstallCall α) (s : InstallState) (e : Text) :
    ((discard x).runOn s).1 ≠ .error (.failed e) := by
  unfold discard returned
  rw [runOn_bind, runOn_ofRun]
  rcases x.runOn s with ⟨r, s'⟩
  rcases r with (e' | _ | _) | a <;> (intro h; cases h)

def removalService (apk : StagedApk) : Text := shellService ++ removeText apk.remotePath

/-- The cleanup asks for the removal of every staged file. -/
theorem cleanupStagedApks_asked (s : InstallState) :
    (∀ other, s.Asked other → ((cleanupStagedApks apks).runOn s).2.Asked other) ∧
      (((cleanupStagedApks apks).runOn s).1 = .ok () →
        ∀ apk ∈ apks, ((cleanupStagedApks apks).runOn s).2.Asked (removalService apk)) ∧
      ∀ e, ((cleanupStagedApks apks).runOn s).1 ≠ .error (.failed e) := by
  induction apks generalizing s with
  | nil =>
    refine ⟨fun _ h => h, fun _ apk hapk => absurd hapk not_mem_nil, ?_⟩
    intro e h
    cases h
  | cons apk apks ih =>
    obtain ⟨hft, hk⟩ := discard_onLink_asked (runShellCommand_opens (removeText apk.remotePath)) s
    have hf := discard_not_failed (onLink (runShellCommand (removeText apk.remotePath))) s
    rw [cleanupStagedApks, runOn_bind]
    rcases hr : (discard (onLink (runShellCommand (removeText apk.remotePath)))).runOn s
      with ⟨r, s'⟩
    rw [hr] at hft hk hf
    cases r with
    | error stop =>
      refine ⟨hk, ?_, fun e he => hf e (by cases he; rfl)⟩
      intro h
      cases h
    | ok =>
      obtain ⟨hk', ha, hne⟩ := ih s'
      refine ⟨fun other hot => hk' other (hk other hot), fun ho => ?_, hne⟩
      exact forall_mem_cons.mpr ⟨hk' _ hft, ha ho⟩

theorem cleanup_then_asked (staged : List StagedApk) {f : InstallCall Unit}
    (hf : ∀ s, (f.runOn s).2 = s) (s : InstallState)
    (hc : Came ((do cleanupStagedApks staged; f : InstallCall Unit).runOn s).1) :
    ∀ apk ∈ staged, ((do cleanupStagedApks staged; f : InstallCall Unit).runOn s).2.Asked
      (removalService apk) := by
  obtain ⟨-, ha, hne⟩ := cleanupStagedApks_asked staged s
  rw [runOn_bind] at hc ⊢
  rcases hr : (cleanupStagedApks staged).runOn s with ⟨r, s'⟩
  rw [hr] at hc ha hne
  rcases r with (e | _ | _) | _
  · exact absurd rfl (hne e)
  · exact absurd rfl hc.1
  · exact absurd rfl hc.2
  · simpa only [hf] using ha rfl

theorem came_returned_bind {α : Type} {x : InstallCall α} {g : Except Text α → InstallCall Unit}
    {q : InstallState → Prop}
    (hg : ∀ result s', Came ((g result).runOn s').1 → q ((g result).runOn s').2) {s : InstallState}
    (hc : Came ((returned x >>= g).runOn s).1) : q ((returned x >>= g).runOn s).2 := by
  rw [runOn_bind] at hc ⊢
  unfold returned at hc ⊢
  rw [runOn_ofRun] at hc ⊢
  rcases hr : x.runOn s with ⟨r, s'⟩
  rw [hr] at hc
  rcases r with (e | _ | _) | a
  · exact hg _ _ hc
  · exact absurd rfl hc.1
  · exact absurd rfl hc.2
  · exact hg _ _ hc

/-- Once pushing has begun, every outcome asks for every removal. -/
theorem installPushed_asked (apks : List LocalApk) (staged : List StagedApk) (totalSize : UInt64)
    (options : InstallOptions) (s : InstallState)
    (hc : Came ((installPushed apks staged totalSize options).runOn s).1) :
    ∀ apk ∈ staged,
      ((installPushed apks staged totalSize options).runOn s).2.Asked (removalService apk) := by
  refine came_returned_bind (q := fun s' => ∀ apk ∈ staged, s'.Asked (removalService apk)) ?_ hc
  intro pushed s' hp
  cases pushed with
  | error e => exact cleanup_then_asked staged (fun _ => rfl) s' hp
  | ok =>
    refine came_returned_bind (q := fun s' => ∀ apk ∈ staged, s'.Asked (removalService apk)) ?_ hp
    exact fun result s'' => cleanup_then_asked staged (fun _ => rfl) s''

theorem installMultiple_pushed {apks : List LocalApk} {options : InstallOptions}
    {staged : List StagedApk} {totalSize : UInt64}
    (hp : planApks apks [] 0 = .ok (staged, totalSize))
    (hs : options.streaming ≠ some true) (hne : apks ≠ []) (deviceBanner : Text)
    (s : InstallState) :
    (installMultiple apks options deviceBanner).runOn s
      = (installPushed apks staged totalSize options).runOn s := by
  rw [installMultiple, if_neg hne, hp, liftText_ok, runOn_bind_ok (runOn_pure _ s)]
  simp only
  rw [if_neg hs]

def InstallState.start (inbox : List (Except Text AdbPacket)) (faults : List (Option Text)) :
    InstallState where
  link := ⟨inbox, ⟨faults, []⟩⟩
  log := []
  children := []

/-- The commands of a run are the services it has opened, and its sessions are all or nothing. -/
def SessionsSafe (accepts : Text → Bool) (complete : List ServiceRun → Prop)
    (run : Except LinkStop Unit × InstallState) : Prop :=
  openedServices run.2.link.out.sent = run.2.log.map (fun r => textBytes r.service) ∧
    AllOrNothing accepts complete run.2.log run.1

/-- The log of a run is what was opened, and it is all or nothing. -/
theorem sessionsSafe_of {accepts : Text → Bool} {complete : List ServiceRun → Prop}
    {x : InstallCall Unit} (inbox : List (Except Text AdbPacket)) (faults : List (Option Text))
    (hs : x.Keeps fun s => ServicesOf [] s.link s.log)
    (ha : Adds x (.start inbox faults) fun r new _ => AllOrNothing accepts complete new r) :
    SessionsSafe accepts complete (x.runOn (.start inbox faults)) := by
  obtain ⟨new, hl, hall⟩ := ha
  have hn := hl
  refine ⟨hs _ rfl, ?_⟩
  rw [hn]
  exact hall

/-- Whatever the device answers and wherever the transport fails: each way to install with sessions
commits at most once and only what is complete, abandons what it has created when it fails, and the
one that pushes asks for the removal of all that it pushes. -/
theorem install_sessions_all_or_nothing (inbox : List (Except Text AdbPacket))
    (faults : List (Option Text)) (t : CommandTransport) (apks : List LocalApk)
    (staged : List StagedApk) (packages : List (List MultiPackageApk)) (totalSize : UInt64)
    (options : InstallOptions) (apexSupported : Bool) (timeout : Option Text)
    (deviceBanner : Text) :
    SessionsSafe containsSuccess
        (WritesAll (staged.map fun apk => (some apk.fileName, .ok apk.size)))
        ((installStagedMultiple staged totalSize options).runOn (.start inbox faults)) ∧
      SessionsSafe reportsSuccess (WritesAll (apks.map fun apk => (apk.fileName, apk.measured)))
        ((installMultipleStreamed t apks totalSize options).runOn (.start inbox faults)) ∧
      SessionsSafe reportsSuccess
        (fun log =>
          WritesAll (packages.flatten.map fun apk => (some apk.splitName, .ok apk.size)) log ∧
            LinksAll log)
        ((installMultiPackageSessions t packages options apexSupported timeout).runOn
          (.start inbox faults)) ∧
      ∀ planned plannedSize, planApks apks [] 0 = .ok (planned, plannedSize) →
        options.streaming ≠ some true →
        Came ((installMultiple apks options deviceBanner).runOn (.start inbox faults)).1 →
        ∀ apk ∈ planned, textBytes (removalService apk) ∈ openedServices
          ((installMultiple apks options deviceBanner).runOn
            (.start inbox faults)).2.link.out.sent := by
  refine ⟨?_, ?_, ?_, ?_⟩
  · exact sessionsSafe_of inbox faults (installStagedMultiple_servicesOf [] staged totalSize options)
      (installStagedMultiple_adds staged totalSize options rfl)
  · exact sessionsSafe_of inbox faults (installMultipleStreamed_keeps (keptBy_servicesOf [] t _))
      (installMultipleStreamed_adds t apks totalSize options rfl)
  · exact sessionsSafe_of inbox faults
      (installMultiPackageSessions_keeps (keptBy_servicesOf [] t _) apexSupported)
      (installMultiPackageSessions_adds t packages options apexSupported timeout _)
  · intro planned plannedSize hp hs hc
    by_cases hne : apks = []
    · subst hne
      cases hp
      exact forall_mem_nil _
    · rw [installMultiple_pushed hp hs hne] at hc ⊢
      exact installPushed_asked apks planned plannedSize options _ hc

def noOptions : InstallOptions := ⟨false, false, false, false, false, false, false, false, none⟩

def oneApk : LocalApk := ⟨some "a.apk".toList, .ok 1, .ok 1, .ok 1, .ok []⟩

/-- The device is gone when the push is opened, and the removal is asked for all the same. -/
theorem install_sessions_all_or_nothing_gone :
    textBytes (removalService ⟨stagingDir ++ "/a.apk".toList, "a.apk".toList, 1⟩) ∈ openedServices
      ((installMultiple [oneApk] noOptions []).runOn
        (.start (List.replicate 2 (.error "gone".toList)) [])).2.link.out.sent := by
  have hp : planApks [oneApk] [] 0
      = .ok ([⟨stagingDir ++ "/a.apk".toList, "a.apk".toList, 1⟩], 1) := rfl
  refine (install_sessions_all_or_nothing _ _ .execPm [oneApk] [] [] 1 noOptions false none
    []).2.2.2 _ _ hp (by decide) ⟨?_, ?_⟩ _ mem_cons_self
  · intro h
    cases h
  · intro h
    cases h

end AdbFastboot
