import AdbFastboot.SyncList

namespace AdbFastboot

open StateCall List

/-- What a recursive listing does on the local side. -/
inductive TreeAction where
  | createDir (path : Text)
  | pull (path remote : Text)
deriving DecidableEq, Repr

def TreeAction.path : TreeAction → Text
  | createDir path => path
  | pull path _ => path

section

variable {σ α : Type}

abbrev LoggedCall (σ α β : Type) := StateCall (σ × List α) LinkStop β

def onConnection {β : Type} (x : StateCall σ LinkStop β) : LoggedCall σ α β :=
  StateCall.ofRun fun s => ((x.runOn s.1).1, ((x.runOn s.1).2, s.2))

def record (a : α) : LoggedCall σ α Unit := StateCall.ofRun fun s => (.ok (), (s.1, s.2 ++ [a]))

def isDotEntry (e : RemoteEntry) : Bool := e.name == ".".toList || e.name == dotDot

/-- `fs::create_dir_all`, with the error that the recursion makes of it. -/
def createChildDir (host : LocalHost) (path : Text) : LoggedCall σ TreeAction Unit := do
  record (.createDir path)
  match host.createDirAll path with
  | none => pure ()
  | some e => throw (.failed
      ("Cannot create directory '".toList ++ path ++ "': ".toList ++ e))

def visitEntries (host : LocalHost) (recurse : Text → Text → LoggedCall σ TreeAction Unit)
    (currentRemote currentLocal : Text) : List RemoteEntry → LoggedCall σ TreeAction Unit
  | [] => pure ()
  | e :: entries =>
    if isDotEntry e then visitEntries host recurse currentRemote currentLocal entries
    else if modeIsDir e.mode then do
      createChildDir host (joinPath currentLocal e.name)
      recurse (joinPath currentRemote e.name) (joinPath currentLocal e.name)
      visitEntries host recurse currentRemote currentLocal entries
    else do
      record (.pull (joinPath currentLocal e.name) (joinPath currentRemote e.name))
      visitEntries host recurse currentRemote currentLocal entries

def buildRemoteFileList (list : Text → StateCall σ LinkStop (List RemoteEntry)) (host : LocalHost) :
    Nat → Text → Text → LoggedCall σ TreeAction Unit
  | 0, _, _ => throw .running
  | fuel + 1, currentRemote, currentLocal => do
    let entries ← onConnection (list currentRemote)
    visitEntries host (buildRemoteFileList list host fuel) currentRemote currentLocal entries

/-- The names that a device lists, each with the names of the directories it is in. -/
def walkEntries (recurse : Text → List Text → LoggedCall σ (List Text) Unit) (currentRemote : Text)
    (chain : List Text) : List RemoteEntry → LoggedCall σ (List Text) Unit
  | [] => pure ()
  | e :: entries =>
    if isDotEntry e then walkEntries recurse currentRemote chain entries
    else if modeIsDir e.mode then do
      record (chain ++ [e.name])
      recurse (joinPath currentRemote e.name) (chain ++ [e.name])
      walkEntries recurse currentRemote chain entries
    else do
      record (chain ++ [e.name])
      walkEntries recurse currentRemote chain entries

def walkTree (list : Text → StateCall σ LinkStop (List RemoteEntry)) :
    Nat → Text → List Text → LoggedCall σ (List Text) Unit
  | 0, _, _ => throw .running
  | fuel + 1, currentRemote, chain => do
    let entries ← onConnection (list currentRemote)
    walkEntries (walkTree list fuel) currentRemote chain entries

end

def buildRemoteFileListRecursiveServer (host : LocalHost) (listFuel : Nat) :
    Nat → Text → Text → LoggedCall Socket TreeAction Unit :=
  buildRemoteFileList (listServerInner listFuel) host

def buildRemoteFileListRecursiveDirect (host : LocalHost) (ids : StreamIds) :
    Nat → Text → Text → LoggedCall Link TreeAction Unit :=
  buildRemoteFileList (listDirectInner ids) host

section

variable {σ : Type}

def localPaths {β : Type} (run : Except LinkStop β × σ × List TreeAction) : List Text :=
  run.2.2.map TreeAction.path

def listedChains (list : Text → StateCall σ LinkStop (List RemoteEntry)) (fuel : Nat)
    (remote : Text) (s : σ) : List (List Text) :=
  ((walkTree list fuel remote []).runOn (s, [])).2.2

/-- A run of the recursion goes along with the walk, or was stopped by the file system on its way. -/
def Follows (host : LocalHost) (target : Text) (run : Except LinkStop Unit × σ × List TreeAction)
    (walk : Except LinkStop Unit × σ × List (List Text)) : Prop :=
  (run.1 = walk.1 ∧ run.2.1 = walk.2.1 ∧ localPaths run = walk.2.2.map (joinAll target)) ∨
    ((∃ path, host.createDirAll path ≠ none) ∧ (∃ e, run.1 = .error e) ∧
      localPaths run <+: walk.2.2.map (joinAll target))

def Along (host : LocalHost) (target : Text) (x : LoggedCall σ TreeAction Unit)
    (y : LoggedCall σ (List Text) Unit) : Prop :=
  ∀ s acts chains, acts.map TreeAction.path = chains.map (joinAll target) →
    Follows host target (x.runOn (s, acts)) (y.runOn (s, chains))

def Grows (y : LoggedCall σ (List Text) Unit) : Prop :=
  ∀ chains, y.Keeps fun s => chains <+: s.2

variable {host : LocalHost} {target : Text}

theorem Along.bind {x : LoggedCall σ TreeAction Unit} {y : LoggedCall σ (List Text) Unit}
    {f : LoggedCall σ TreeAction Unit} {g : LoggedCall σ (List Text) Unit}
    (hxy : Along host target x y) (hfg : Along host target f g) (hg : Grows g) :
    Along host target (x >>= fun _ => f) (y >>= fun _ => g) := by
  intro s acts chains hs
  rw [runOn_bind, runOn_bind]
  have hf := hxy s acts chains hs
  rcases hx : x.runOn (s, acts) with ⟨rx, sx, ax⟩
  rcases hy : y.runOn (s, chains) with ⟨ry, sy, cy⟩
  rw [hx, hy] at hf
  rcases hf with ⟨hr, hc, hp⟩ | ⟨hh, ⟨e, he⟩, hw⟩
  · cases hr
    cases hc
    cases rx with
    | ok u => exact hfg _ _ _ hp
    | error e => exact .inl ⟨rfl, rfl, hp⟩
  · cases he
    refine .inr ⟨hh, ⟨e, rfl⟩, hw.trans ?_⟩
    cases ry with
    | ok u => exact (hg cy (sy, cy) (prefix_refl cy)).map _
    | error e' => exact prefix_refl _

theorem joinAll_snoc (target : Text) (chain : List Text) (name : Text) :
    joinAll target (chain ++ [name]) = joinPath (joinAll target chain) name := by
  rw [joinAll, foldl_append]
  rfl

variable (chain : List Text)

theorem grows_record : Grows (record chain : LoggedCall σ (List Text) Unit) :=
  fun _ _ hs => hs.trans (prefix_append _ _)

theorem grows_bind {β : Type} {y : LoggedCall σ (List Text) β} {g : β → LoggedCall σ (List Text) Unit}
    (hy : ∀ chains, y.Keeps fun s => chains <+: s.2) (hg : ∀ b, Grows (g b)) : Grows (y >>= g) :=
  fun chains => (hy chains).bind fun b => hg b chains

variable {recurse : Text → List Text → LoggedCall σ (List Text) Unit}

theorem walkEntries_grows (hr : ∀ remote chain, Grows (recurse remote chain))
    (remote : Text) (chain : List Text) (entries : List RemoteEntry) :
    Grows (walkEntries recurse remote chain entries) := by
  induction entries with
  | nil => exact fun chains => keeps_pure _ _
  | cons e entries ih =>
    rw [walkEntries]
    split
    next => exact ih
    split
    next =>
      exact grows_bind (grows_record _) fun _ => grows_bind (hr _ _) fun _ => ih
    next => exact grows_bind (grows_record _) fun _ => ih

variable (list : Text → StateCall σ LinkStop (List RemoteEntry))

/-- A walk only adds to the chains it has recorded. -/
theorem walkTree_grows (fuel : Nat) (remote : Text) (chain : List Text) :
    Grows (walkTree list fuel remote chain) := by
  induction fuel generalizing remote chain with
  | zero => exact fun chains => keeps_throw _ _
  | succ fuel ih =>
    exact grows_bind (fun chains s hs => hs) fun entries =>
      walkEntries_grows ih remote chain entries

theorem record_along {a : TreeAction} {chain : List Text} (h : a.path = joinAll target chain) :
    Along host target (record a : LoggedCall σ TreeAction Unit) (record chain) := by
  intro s acts chains hs
  left
  refine ⟨rfl, rfl, ?_⟩
  change (acts ++ [a]).map TreeAction.path = (chains ++ [chain]).map (joinAll target)
  rw [map_append, map_append, hs, map_singleton, map_singleton, h]

theorem createChildDir_along :
    Along host target (createChildDir host (joinAll target chain) : LoggedCall σ TreeAction Unit)
      (record chain) := by
  intro s acts chains hs
  have hr : localPaths (((record (.createDir (joinAll target chain)) :
      LoggedCall σ TreeAction Unit)).runOn (s, acts))
      = ((record chain : LoggedCall σ (List Text) Unit).runOn (s, chains)).2.2.map
          (joinAll target) := by
    change (acts ++ [_]).map TreeAction.path = (chains ++ [chain]).map (joinAll target)
    rw [map_append, map_append, hs]
    rfl
  rw [createChildDir]
  cases hd : host.createDirAll (joinAll target chain) with
  | none => exact .inl ⟨rfl, rfl, hr⟩
  | some e =>
    refine .inr ⟨⟨joinAll target chain, by rw [hd]; exact Option.some_ne_none e⟩, ⟨_, rfl⟩, ?_⟩
    exact ⟨[], by rw [append_nil]; exact hr⟩

/-- Visiting the entries goes along the walk over their names. -/
theorem visitEntries_along {recurse : Text → Text → LoggedCall σ TreeAction Unit}
    {walk : Text → List Text → LoggedCall σ (List Text) Unit} (hrc : ∀ remote chain,
      Along host target (recurse remote (joinAll target chain)) (walk remote chain))
    (hg : ∀ remote chain, Grows (walk remote chain)) (remote : Text) (chain : List Text)
    (entries : List RemoteEntry) :
    Along host target (visitEntries host recurse remote (joinAll target chain) entries)
      (walkEntries walk remote chain entries) := by
  induction entries with
  | nil => exact fun s acts chains hs => .inl ⟨rfl, rfl, hs⟩
  | cons e entries ih =>
    have hr := walkEntries_grows hg remote chain entries
    rw [visitEntries, walkEntries, ← joinAll_snoc]
    split
    next => exact ih
    split
    next =>
      refine (createChildDir_along _).bind ((hrc _ _).bind ih hr) ?_
      exact grows_bind (hg _ _) fun _ => hr
    next => exact (record_along rfl).bind ih hr

/-- The pull's local paths go along the chains of the walk. -/
theorem buildRemoteFileList_along (host : LocalHost) (target : Text) (fuel : Nat) (remote : Text)
    (chain : List Text) :
    Along host target (buildRemoteFileList list host fuel remote (joinAll target chain))
      (walkTree list fuel remote chain) := by
  induction fuel generalizing remote chain with
  | zero => exact fun s acts chains hs => .inl ⟨rfl, rfl, hs⟩
  | succ fuel ih =>
    intro s acts chains hs
    rw [buildRemoteFileList, walkTree, runOn_bind, runOn_bind]
    simp only [onConnection, runOn_ofRun]
    rcases (list remote).runOn s with ⟨r, s'⟩
    cases r with
    | error e => exact .inl ⟨rfl, rfl, hs⟩
    | ok entries =>
      exact visitEntries_along ih (walkTree_grows list fuel) remote chain entries s' acts chains hs

/-- The paths of a run are those of the chains that the device lists, up to where the file system
stops it. -/
theorem localPaths_within (host : LocalHost) (target : Text) (fuel : Nat) (remote : Text) (s : σ) :
    localPaths ((buildRemoteFileList list host fuel remote target).runOn (s, []))
      <+: (listedChains list fuel remote s).map (joinAll target) := by
  rcases buildRemoteFileList_along list host target fuel remote [] s [] [] rfl with
    ⟨-, -, hp⟩ | ⟨-, -, hw⟩
  · exact ⟨[], by rw [append_nil]; exact hp⟩
  · exact hw

theorem localPaths_willing (target : Text) (fuel : Nat) (remote : Text) (s : σ) :
    localPaths ((buildRemoteFileList list .willing fuel remote target).runOn (s, []))
      = (listedChains list fuel remote s).map (joinAll target) := by
  rcases buildRemoteFileList_along list .willing target fuel remote [] s [] [] rfl with
    ⟨-, -, hp⟩ | ⟨⟨path, hs⟩, -⟩
  · exact hp
  · exact absurd rfl hs

/-- Every path of a recursive listing lies under its target, whatever the file system answers. -/
def ConfinedTo (list : Text → StateCall σ LinkStop (List RemoteEntry)) (remote : Text) (s : σ)
    (target : Text) : Prop :=
  ∀ host fuel, ∀ path ∈
    localPaths ((buildRemoteFileList list host fuel remote target).runOn (s, [])),
      LexicallyUnder target path

/-- No chain of names that the device lists steps above its start. -/
def NeverClimbs (list : Text → StateCall σ LinkStop (List RemoteEntry)) (remote : Text) (s : σ) :
    Prop :=
  ∀ fuel, ∀ chain ∈ listedChains list fuel remote s, ¬ClimbsFrom 0 (chain.flatMap pathComponents)

/-- A tree stays in every target exactly if no chain of it climbs. -/
theorem confinedTo_iff_neverClimbs (remote : Text) (s : σ) :
    (∀ target, target ≠ [] → ConfinedTo list remote s target) ↔ NeverClimbs list remote s := by
  constructor
  · intro hcn fuel chain hc hcl
    obtain ⟨target, ht, ho⟩ := exists_not_under hcl
    refine ho (hcn target ht .willing fuel _ ?_)
    rw [localPaths_willing]
    exact mem_map_of_mem hc
  · intro hn target ht host fuel path hp
    obtain ⟨chain, hc, rfl⟩ :=
      mem_map.mp ((localPaths_within list host target fuel remote s).subset hp)
    exact joinAll_under ht (hn fuel chain hc)

def Named (y : LoggedCall σ (List Text) Unit) : Prop := y.Keeps fun s => ∀ chain ∈ s.2, chain ≠ []

theorem named_record (name : Text) : Named (record (chain ++ [name]) : LoggedCall σ (List Text) Unit) := by
  intro s hs c hc
  rcases mem_append.mp hc with ho | hn
  · exact hs c ho
  · rw [mem_singleton.mp hn]
    exact append_ne_nil_of_right_ne_nil _ (cons_ne_nil _ _)

theorem walkEntries_named (hr : ∀ remote chain, Named (recurse remote chain))
    (remote : Text) (chain : List Text) (entries : List RemoteEntry) :
    Named (walkEntries recurse remote chain entries) := by
  induction entries with
  | nil => exact keeps_pure _ _
  | cons e entries ih =>
    rw [walkEntries]
    split
    next => exact ih
    split
    next =>
      exact (named_record _ _).bind fun _ => (hr _ _).bind fun _ => ih
    next => exact (named_record _ _).bind fun _ => ih

theorem walkTree_named (fuel : Nat) (remote : Text) (chain : List Text) :
    Named (walkTree list fuel remote chain) := by
  induction fuel generalizing remote chain with
  | zero => exact keeps_throw _ _
  | succ fuel ih =>
    have hl : (onConnection (list remote) : LoggedCall σ (List Text) _).Keeps
        fun s => ∀ chain ∈ s.2, chain ≠ [] := fun s hs => hs
    exact hl.bind fun entries => walkEntries_named ih remote chain entries

theorem confinedTo_nil_iff (remote : Text) (s : σ) :
    ConfinedTo list remote s [] ↔ ∀ fuel, listedChains list fuel remote s = [] := by
  constructor
  · intro hcn fuel
    rw [eq_nil_iff_forall_not_mem]
    intro chain hc
    have hne := walkTree_named list fuel remote [] (s, []) (forall_mem_nil _) chain hc
    obtain ⟨name, chain, rfl⟩ := exists_cons_of_ne_nil hne
    refine not_under_nil name chain (hcn .willing fuel _ ?_)
    rw [localPaths_willing]
    exact mem_map_of_mem hc
  · intro hn host fuel path hp
    have hw := localPaths_within list host [] fuel remote s
    rw [hn fuel] at hw
    exact absurd (hw.subset hp) not_mem_nil

end

/-- The paths of both recursive listings lie under the target exactly where the target is not empty
and no chain of names that the device lists steps above its start. -/
theorem pullTree_confined_iff (remote : Text) (socket : Socket) (listFuel : Nat) (ids : StreamIds)
    (link : Link) :
    (((∀ target, target ≠ [] → ∀ host fuel, ∀ path ∈ localPaths
          ((buildRemoteFileListRecursiveServer host listFuel fuel remote target).runOn
            (socket, [])), LexicallyUnder target path) ↔
        NeverClimbs (listServerInner listFuel) remote socket) ∧
      ((∀ host fuel, ∀ path ∈ localPaths
          ((buildRemoteFileListRecursiveServer host listFuel fuel remote []).runOn
            (socket, [])), LexicallyUnder [] path) ↔
        ∀ fuel, listedChains (listServerInner listFuel) fuel remote socket = [])) ∧
    (((∀ target, target ≠ [] → ∀ host fuel, ∀ path ∈ localPaths
          ((buildRemoteFileListRecursiveDirect host ids fuel remote target).runOn
            (link, [])), LexicallyUnder target path) ↔
        NeverClimbs (listDirectInner ids) remote link) ∧
      ((∀ host fuel, ∀ path ∈ localPaths
          ((buildRemoteFileListRecursiveDirect host ids fuel remote []).runOn
            (link, [])), LexicallyUnder [] path) ↔
        ∀ fuel, listedChains (listDirectInner ids) fuel remote link = [])) :=
  ⟨⟨confinedTo_iff_neverClimbs _ remote socket, confinedTo_nil_iff _ remote socket⟩,
    confinedTo_iff_neverClimbs _ remote link, confinedTo_nil_iff _ remote link⟩

/-- What a device sends that has one file with a name of its own choice. -/
def oneFileReply (name : Text) : Bytes :=
  syncMessage syncDent (RemoteEntry.record ⟨0o100644, 0, 0, name⟩)
    ++ (SyncMessageHeader.mk syncDone 0).encode

/-- A file whose name leads out of the directory that it is listed in. -/
theorem pullTree_not_confined :
    localPaths ((buildRemoteFileListRecursiveServer .willing 2 1 "/d".toList "out".toList).runOn
        (⟨oneFileReply "../x".toList, [], .waiting⟩, [])) = ["out/../x".toList] ∧
      ¬LexicallyUnder "out".toList "out/../x".toList := by
  refine ⟨by decide +kernel, ?_⟩
  rintro ⟨-, below, hs, -⟩
  have hp : pathStack "out/../x".toList = ["x".toList] := by decide +kernel
  have ht : pathStack "out".toList = ["out".toList] := by decide +kernel
  rw [hp, ht] at hs
  have hm : "out".toList ∈ ["x".toList] := by
    rw [hs]
    exact mem_append_right below (mem_singleton_self _)
  simp at hm

end AdbFastboot
