import AdbFastboot.DeviceService
import AdbFastboot.ShellQuoting
import AdbFastboot.SyncPush

namespace AdbFastboot

open StateCall

/-- `parse_banner_features`: the features of a banner, from the first property that states them. -/
def parseBannerFeatures (banner : Text) : List Text :=
  match banner.splitOn ':' with
  | _ :: _ :: props :: _ =>
    match (props.splitOn ';').findSome? (fun prop =>
        match splitOnce '=' prop with
        | some (key, value) =>
          if key = "features".toList ∧ '=' ∉ value then some value else none
        | none => none) with
    | some value =>
      ((value.splitOn ',').map (trimMatches fun c => c == '\x00')).filter fun f => f != []
    | none => []
  | _ => []

def hostSupportedFeatures : List Text :=
  ["shell_v2".toList, "cmd".toList, "apex".toList, "abb_exec".toList]

def canUseFeature (deviceFeatures : List Text) (feature : Text) : Bool :=
  decide (feature ∈ deviceFeatures) && decide (feature ∈ hostSupportedFeatures)

structure InstallOptions where
  reinstall : Bool
  downgrade : Bool
  grantPermissions : Bool
  forwardLock : Bool
  test : Bool
  installExternal : Bool
  allowDowngrade : Bool
  staging : Bool
  streaming : Option Bool
deriving DecidableEq, Repr

def InstallOptions.toPmFlags (o : InstallOptions) : List Text :=
  let flag (set : Bool) (text : String) : List Text := if set then [text.toList] else []
  flag o.reinstall "-r" ++ flag o.downgrade "-d" ++ flag o.grantPermissions "-g"
    ++ flag o.forwardLock "-l" ++ flag o.test "-t" ++ flag o.installExternal "-s"
    ++ flag o.allowDowngrade "--downgrade" ++ flag o.staging "--staging"

structure SessionId where
  text : Text
  ne_nil : text ≠ []
  digits : text.all Char.isDigit = true
deriving DecidableEq

def afterLast (sep : Char) (text : Text) : Option Text :=
  (splitOnce sep text.reverse).map fun parts => parts.1.reverse

def parseInstallSessionId (output : Text) : Option SessionId :=
  if strContains "Success".toList output then do
    let behind ← afterLast '[' output
    let (id, _) ← splitOnce ']' behind
    if h : id ≠ [] ∧ id.all Char.isDigit = true then some ⟨id, h.1, h.2⟩ else none
  else none

inductive CommandTransport where
  | abbExec
  | execCmd
  | execPm
deriving DecidableEq, Repr

namespace CommandTransport

def ofBanner (deviceBanner : Text) : CommandTransport :=
  if canUseFeature (parseBannerFeatures deviceBanner) "abb_exec".toList then .abbExec else .execCmd

def program : CommandTransport → Text
  | .abbExec => "abb_exec:package".toList
  | .execCmd => "exec:cmd package".toList
  | .execPm => "exec:pm".toList

def separator : CommandTransport → Char
  | .abbExec => '\x00'
  | .execCmd => ' '
  | .execPm => ' '

def serviceString (t : CommandTransport) (args : List Text) : Text :=
  t.program ++ args.flatMap fun arg => t.separator :: arg

end CommandTransport

inductive InstallCommand where
  | create (flags : List Text)
  | write (size : UInt64) (session : SessionId) (name : Text)
  | addSession (parent : SessionId) (children : List SessionId)
  | commit (timeout : Option Text) (session : SessionId)
  | abandon (session : SessionId)
deriving DecidableEq

def InstallCommand.args : InstallCommand → List Text
  | create flags => "install-create".toList :: flags
  | write size session name =>
    ["install-write".toList, "-S".toList, decimal size.toNat, session.text, name, "-".toList]
  | addSession parent children =>
    ["install-add-session".toList, parent.text] ++ children.map SessionId.text
  | commit timeout session =>
    "install-commit".toList :: (match timeout with
      | some value => ["--staged-ready-timeout".toList, value]
      | none => []) ++ [session.text]
  | abandon session => ["install-abandon".toList, session.text]

def shellQuote (value : Text) : Text := '\'' :: quotedChars value ++ ['\'']

def reportsSuccess (output : Text) : Bool :=
  (strLines output).any "Success".toList.isPrefixOf

/-- An input file of an install, as the calls that look at it find it. -/
structure LocalApk where
  /-- `file_name`, where the path has one and it is UTF-8. -/
  fileName : Option Text
  /-- The length that `fs::metadata` gives when the inputs are checked. -/
  planned : Except Text UInt64
  measured : Except Text UInt64
  /-- The length right before the file is opened to be sent. -/
  found : Except Text UInt64
  /-- What `File::open` gives, and then each `read`. -/
  opened : Except Text (List (Except Text Bytes))

def LocalApk.name (apk : LocalApk) : Except Text Text :=
  match apk.fileName with
  | some name => .ok name
  | none => .error "Invalid APK filename".toList

theorem LocalApk.fileName_of_name {apk : LocalApk} {name : Text} (h : apk.name = .ok name) :
    apk.fileName = some name := by
  unfold LocalApk.name at h
  split at h
  next found hf => rw [hf, Except.ok.inj h]
  next => cases h

structure ServiceRun where
  command : InstallCommand
  service : Text
  result : Except LinkStop Text

/-- The connection, the commands so far, and the ids of the child sessions. -/
structure InstallState where
  link : Link
  log : List ServiceRun
  children : List SessionId

abbrev InstallCall (α : Type) := StateCall InstallState LinkStop α

def onLink {α : Type} (x : LinkCall α) : InstallCall α := ofRun fun s =>
  ((x.runOn s.link).1, { s with link := (x.runOn s.link).2 })

def issue (command : InstallCommand) (service : Text) (x : LinkCall Text) : InstallCall Text :=
  ofRun fun s =>
    let run := x.runOn s.link
    (run.1, { s with link := run.2, log := s.log ++ [⟨command, service, run.1⟩] })

def discard {α : Type} (x : InstallCall α) : InstallCall Unit := do
  let _ ← returned x
  pure ()

def execService (service : Text) : LinkCall Text := do
  let ids ← openService service 1
  readExecOutput ids []

def runInstallCommand (t : CommandTransport) (command : InstallCommand) : InstallCall Text :=
  issue command (t.serviceString command.args) (execService (t.serviceString command.args))

def streamChunks (ids : StreamIds) : List (Except Text Bytes) → Nat → List Bytes →
      LinkCall (Nat × List Bytes)
  | [], bytesSent, pending => pure (bytesSent, pending)
  | .error e :: _, _, _ => throw (.failed e)
  | .ok chunk :: reads, bytesSent, pending =>
    if chunk = [] then pure (bytesSent, pending)
    else do
      let pending ← writeExecPayload ids chunk pending
      streamChunks ids reads (bytesSent + chunk.length) pending

def streamService (service : Text) (fileSize : UInt64) (reads : List (Except Text Bytes)) :
    LinkCall Text := do
  let ids ← openService service 1
  let (bytesSent, pending) ← streamChunks ids reads 0 []
  if bytesSent ≠ fileSize.toNat then
    throw (.failed ("Input file changed while streaming: expected ".toList ++ decimal fileSize.toNat
      ++ " bytes, sent ".toList ++ decimal bytesSent))
  else readExecOutput ids pending

def streamFileToInstallCommand (t : CommandTransport) (command : InstallCommand) (file : LocalApk)
    (expectedFileSize : UInt64) : InstallCall Text := do
  let fileSize ← liftText file.found
  if fileSize ≠ expectedFileSize then
    throw (.failed ("Input file changed before streaming: expected ".toList
      ++ decimal expectedFileSize.toNat ++ " bytes, found ".toList ++ decimal fileSize.toNat))
  else do
    let reads ← liftText file.opened
    issue command (t.serviceString command.args)
      (streamService (t.serviceString command.args) fileSize reads)

def demand (accepts : Text → Bool) (failure : Text → Text) (x : InstallCall Text) :
    InstallCall Unit := do
  let output ← x
  if accepts output then pure () else throw (.failed (failure (strTrim output)))

def createSession (failure : Text) (x : InstallCall Text) : InstallCall SessionId := do
  let output ← x
  match parseInstallSessionId output with
  | some session => pure session
  | none => throw (.failed (failure ++ ": ".toList ++ strTrim output))

/-- What an install does with its sessions, and what it does when that has failed. -/
def orAbandon (body abandon : InstallCall Unit) : InstallCall Unit := do
  let result ← returned body
  match result with
  | .ok () => pure ()
  | .error e => do
    abandon
    throw (.failed e)

def writeFailure (name output : Text) : Text :=
  "install-write failed for ".toList ++ name ++ ": ".toList ++ output

def commitFailure (session : SessionId) (output : Text) : Text :=
  "install-commit failed for session ".toList ++ session.text ++ ": ".toList ++ output

def writeStreamed (t : CommandTransport) (session : SessionId) : List LocalApk → InstallCall Unit
  | [] => pure ()
  | apk :: apks => do
    let fileName ← liftText apk.name
    let size ← liftText apk.measured
    demand reportsSuccess (writeFailure fileName)
      (streamFileToInstallCommand t (.write size session fileName) apk size)
    writeStreamed t session apks

def installMultipleStreamed (t : CommandTransport) (apks : List LocalApk) (totalSize : UInt64)
    (options : InstallOptions) : InstallCall Unit := do
  let session ← createSession "Failed to create streamed install session".toList
    (runInstallCommand t
      (.create (["-S".toList, decimal totalSize.toNat] ++ options.toPmFlags)))
  orAbandon
    (do
      writeStreamed t session apks
      demand reportsSuccess (commitFailure session) (runInstallCommand t (.commit none session)))
    (discard (runInstallCommand t (.abandon session)))

structure StagedApk where
  remotePath : Text
  fileName : Text
  size : UInt64
deriving DecidableEq

/-- A command of the staged install goes through the shell of the device. -/
def runStaged (command : InstallCommand) (text : Text) : InstallCall Text :=
  issue command (shellService ++ text) (runShellCommand text)

def stagedCreateText (totalSize : UInt64) (options : InstallOptions) : Text :=
  let flags := [' '].intercalate options.toPmFlags
  if flags = [] then "pm install-create -S ".toList ++ decimal totalSize.toNat
  else "pm install-create -S ".toList ++ decimal totalSize.toNat ++ ' ' :: flags

def stagedWriteText (apk : StagedApk) (session : SessionId) : Text :=
  "pm install-write -S ".toList ++ decimal apk.size.toNat ++ ' ' :: session.text
    ++ ' ' :: shellQuote apk.fileName ++ " - < ".toList ++ shellQuote apk.remotePath

def containsSuccess (output : Text) : Bool := strContains "Success".toList output

def writeStaged (session : SessionId) : List StagedApk → InstallCall Unit
  | [] => pure ()
  | apk :: apks => do
    demand containsSuccess (writeFailure apk.fileName)
      (runStaged (.write apk.size session apk.fileName) (stagedWriteText apk session))
    writeStaged session apks

def installStagedMultiple (apks : List StagedApk) (totalSize : UInt64) (options : InstallOptions) :
    InstallCall Unit := do
  let session ← createSession "Failed to create install session".toList
    (runStaged (.create (["-S".toList, decimal totalSize.toNat] ++ options.toPmFlags))
      (stagedCreateText totalSize options))
  orAbandon
    (do
      writeStaged session apks
      demand containsSuccess (commitFailure session)
        (runStaged (.commit none session) ("pm install-commit ".toList ++ session.text)))
    (discard (runStaged (.abandon session) ("pm install-abandon ".toList ++ session.text)))

structure MultiPackageApk where
  file : LocalApk
  splitName : Text
  size : UInt64
  isApex : Bool

def writeChild (t : CommandTransport) (child : SessionId) : List MultiPackageApk → InstallCall Unit
  | [] => pure ()
  | apk :: apks => do
    demand reportsSuccess
      (fun output => "install-write failed for child session ".toList ++ child.text
        ++ ", split ".toList ++ apk.splitName ++ ": ".toList ++ output)
      (streamFileToInstallCommand t (.write apk.size child apk.splitName) apk.file apk.size)
    writeChild t child apks

def childFlags (options : InstallOptions) (apexFound : Bool) (package : List MultiPackageApk) :
    List Text :=
  options.toPmFlags ++
    if apexFound then
      "--staged".toList :: if package.any (·.isApex) then ["--apex".toList] else []
    else []

def pushChild (child : SessionId) : InstallCall Unit := ofRun fun s =>
  (.ok (), { s with children := s.children ++ [child] })

def childSessions (t : CommandTransport) (options : InstallOptions) (apexFound : Bool) :
    List (List MultiPackageApk) → InstallCall Unit
  | [] => pure ()
  | package :: packages => do
    let child ← createSession "Failed to create child session".toList
      (runInstallCommand t (.create (childFlags options apexFound package)))
    pushChild child
    writeChild t child package
    childSessions t options apexFound packages

def childIds : InstallCall (List SessionId) := ofRun fun s => (.ok s.children, s)

def abandonAll (t : CommandTransport) : List SessionId → InstallCall Unit
  | [] => pure ()
  | session :: sessions => do
    discard (runInstallCommand t (.abandon session))
    abandonAll t sessions

def linkAndCommit (t : CommandTransport) (parent : SessionId) (timeout : Option Text) :
    InstallCall Unit := do
  let children ← childIds
  demand reportsSuccess ("install-add-session failed: ".toList ++ ·)
    (runInstallCommand t (.addSession parent children))
  demand reportsSuccess ("parent install-commit failed: ".toList ++ ·)
    (runInstallCommand t (.commit timeout parent))

def withoutChildren (x : InstallCall Unit) : InstallCall Unit := ofRun fun s =>
  x.runOn { s with children := [] }

def installMultiPackageSessions (t : CommandTransport) (packages : List (List MultiPackageApk))
    (options : InstallOptions) (apexSupported : Bool) (stagedReadyTimeout : Option Text) :
    InstallCall Unit :=
  let apexFound := packages.flatten.any (·.isApex)
  if apexFound && !apexSupported then
    throw (.failed ".apex is not supported on the target device".toList)
  else do
    let parent ← createSession "Failed to create multi-package parent session".toList
      (runInstallCommand t (.create
        ("--multi-package".toList :: options.toPmFlags
          ++ if apexFound then ["--staged".toList] else [])))
    withoutChildren (orAbandon
      (do
        childSessions t options apexFound packages
        linkAndCommit t parent stagedReadyTimeout)
      (do
        let children ← childIds
        abandonAll t (parent :: children)))

def syncCloseTurn (localId : UInt32) (p : AdbPacket) : SendCall (LoopTurn Unit Unit) :=
  if p.header.command = aClse then pure (.done ())
  else if p.header.command = aWrte then do
    Outbox.send (AdbPacket.new aOkay localId p.header.arg0 [])
    if p.payload ≠ [] then
      throw (.failed "Unexpected sync payload while closing stream".toList)
    else pure (.next ())
  else if p.header.command = aOkay then pure (.next ())
  else throw (.failed
    ("Unexpected sync close command: ".toList ++ (hexText p.header.command).toList))

def pushChunks (ids : StreamIds) : List (Except Text Bytes) → Nat → LinkCall Nat
  | [], bytesSent => pure bytesSent
  | .error e :: _, _ => throw (.failed e)
  | .ok chunk :: reads, bytesSent =>
    if chunk = [] then pure bytesSent
    else do
      let dataBuf ← liftText ((buildSyncDataChunk chunk).mapError SyncProtocolError.text)
      sendWrte ids dataBuf
      pushChunks ids reads (bytesSent + chunk.length)

def pushApkToPath (file : LocalApk) (remotePath : Text) : LinkCall Unit := do
  let fileSize ← liftText file.found
  let reads ← liftText file.opened
  let ids ← openService "sync:".toList 1
  let sendBuf ← liftText ((buildSyncSendReq remotePath 0x81a4).mapError SyncProtocolError.text)
  sendWrte ids sendBuf
  let bytesSent ← pushChunks ids reads 0
  if bytesSent ≠ fileSize.toNat then
    throw (.failed ("APK changed while pushing: expected ".toList ++ decimal fileSize.toNat
      ++ " bytes, sent ".toList ++ decimal bytesSent))
  else do
    sendWrte ids (buildSyncDone 0)
    recvSyncResponse ids
    Link.sending (Outbox.send (AdbPacket.new aClse ids.localId ids.remoteId []))
    Link.loop (fun e => e) (fun _ => syncCloseTurn ids.localId) ()

def pushApk (file : LocalApk) (remoteStagingDir : Text) : LinkCall Unit := do
  let fileName ← liftText file.name
  pushApkToPath file (remoteStagingDir ++ '/' :: fileName)

def removeText (path : Text) : Text := "rm ".toList ++ shellQuote path ++ " </dev/null".toList

def cleanupStagedApks : List StagedApk → InstallCall Unit
  | [] => pure ()
  | apk :: apks => do
    discard (onLink (runShellCommand (removeText apk.remotePath)))
    cleanupStagedApks apks

def pathExtension (name : Text) : Option Text :=
  if name = dotDot then none
  else match splitOnce '.' name.reverse with
    | some (extension, stem) => if stem = [] then none else some extension.reverse
    | none => none

def checkExtension (fileName : Text) : Except Text Unit :=
  let extension := ((pathExtension fileName).getD []).map Char.toLower
  if extension = "apex".toList then
    .error "APEX packages are not compatible with install-multiple".toList
  else if ["apk".toList, "dm".toList, "sdm".toList, "fsv_sig".toList, "idsig".toList].contains
    extension then .ok ()
  else .error
    ("install-multiple accepts .apk/.dm/.sdm/.fsv_sig/.idsig files only, got: ".toList ++ fileName)

def stagingDir : Text := "/data/local/tmp".toList

def planApks : List LocalApk → List Text → UInt64 → Except Text (List StagedApk × UInt64)
  | [], _, totalSize => .ok ([], totalSize)
  | apk :: apks, names, totalSize => do
    let fileName ← apk.name
    checkExtension fileName
    if fileName ∈ names then throw ("Duplicate APK filename: ".toList ++ fileName)
    let size ← apk.planned
    if 2 ^ 64 ≤ totalSize.toNat + size.toNat then
      throw "Combined APK size overflows u64".toList
    let (staged, totalSize) ← planApks apks (fileName :: names) (totalSize + size)
    pure (⟨stagingDir ++ '/' :: fileName, fileName, size⟩ :: staged, totalSize)

def pushApks : List LocalApk → InstallCall Unit
  | [] => pure ()
  | apk :: apks => do
    onLink (pushApk apk stagingDir)
    pushApks apks

def installPushed (apks : List LocalApk) (staged : List StagedApk) (totalSize : UInt64)
    (options : InstallOptions) : InstallCall Unit := do
  let pushed ← returned (pushApks apks)
  match pushed with
  | .error e => do
    cleanupStagedApks staged
    throw (.failed e)
  | .ok () => do
    let result ← returned (installStagedMultiple staged totalSize options)
    cleanupStagedApks staged
    liftText result

def installMultiple (apks : List LocalApk) (options : InstallOptions) (deviceBanner : Text) :
    InstallCall Unit :=
  if apks = [] then throw (.failed "No APK files provided".toList)
  else do
    let (staged, totalSize) ← liftText (planApks apks [] 0)
    if options.streaming = some true then
      installMultipleStreamed (.ofBanner deviceBanner) apks totalSize options
    else installPushed apks staged totalSize options

end AdbFastboot
