import AdbFastboot.InstallSession

namespace AdbFastboot

open InstallCommand List ServiceRun

namespace InstallCommand

def isCommit : InstallCommand → Bool
  | commit _ _ => true
  | _ => false

def isAbandon : InstallCommand → Bool
  | abandon _ => true
  | _ => false

def isStep : InstallCommand → Bool
  | write _ _ _ => true
  | addSession _ _ => true
  | _ => false

def written : InstallCommand → Option (UInt64 × Text)
  | write size _ name => some (size, name)
  | _ => none

theorem isCommit_of_isAbandon {c : InstallCommand} (h : c.isAbandon = true) : c.isCommit = false := by
  cases c <;> first | rfl | cases h

theorem isAbandon_of_isCommit {c : InstallCommand} (h : c.isCommit = true) : c.isAbandon = false := by
  cases c <;> first | rfl | cases h

end InstallCommand

namespace ServiceRun

def created (run : ServiceRun) : Option SessionId :=
  match run.command, run.result with
  | .create _, .ok output => parseInstallSessionId output
  | _, _ => none

def Accepted (accepts : Text → Bool) (run : ServiceRun) : Prop :=
  ∃ output, run.result = .ok output ∧ accepts output = true

variable {run : ServiceRun}

theorem created_eq_none (h : ∀ flags, run.command ≠ .create flags) : run.created = none := by
  unfold created
  split
  next flags output hcommand hr => exact absurd hcommand (h flags)
  next => rfl

theorem created_of_isCommit (h : run.command.isCommit = true) : run.created = none :=
  created_eq_none fun flags hf => by rw [hf] at h; cases h

theorem created_of_isAbandon (h : run.command.isAbandon = true) : run.created = none :=
  created_eq_none fun flags hf => by rw [hf] at h; cases h

end ServiceRun

def writesOf (log : List ServiceRun) : List (UInt64 × Text) :=
  log.filterMap fun run => run.command.written

def WritesAll (plan : List (Option Text × Except Text UInt64)) (log : List ServiceRun) : Prop :=
  (writesOf log).map (fun w => (some w.2, .ok w.1)) = plan

/-- All sessions that were created are linked, to the first of them. -/
def LinksAll (log : List ServiceRun) : Prop :=
  ∃ parent children, log.filterMap ServiceRun.created = parent :: children ∧
    ∃ run ∈ log, run.command = .addSession parent children

/-- An install of sessions is all or nothing: `complete` says of the commands before a commit that
nothing is missing. -/
structure AllOrNothing (accepts : Text → Bool) (complete : List ServiceRun → Prop)
    (log : List ServiceRun) (result : Except LinkStop Unit) : Prop where
  commit_once : log.countP (fun run => run.command.isCommit) ≤ 1
  commit_after : ∀ before run after, log = before ++ run :: after → run.command.isCommit = true →
    complete before ∧ ∀ earlier ∈ before, earlier.command.isStep = true → earlier.Accepted accepts
  abandoned : ∀ e, result = .error (.failed e) → ∀ run ∈ log, ∀ session,
    run.created = some session → ∃ later ∈ log, later.command = .abandon session
  kept : result = .ok () → ∀ run ∈ log, run.command.isAbandon = false

abbrev InstallPost (α : Type) :=
  Except LinkStop α → List ServiceRun → List SessionId → Prop

/-- From `s`, the call adds commands to the log so that `post` holds of its result, of what it
added and of the children at its end. -/
def Adds {α : Type} (x : InstallCall α) (s : InstallState) (post : InstallPost α) : Prop :=
  ∃ new, (x.runOn s).2.log = s.log ++ new ∧ post (x.runOn s).1 new (x.runOn s).2.children

section

variable {α β : Type} {s : InstallState}

variable {p : InstallPost α} {x : InstallCall α}

theorem Adds.mono {q : InstallPost α} (hx : Adds x s p)
    (h : ∀ r new children, p r new children → q r new children) : Adds x s q := by
  obtain ⟨new, hl, hp⟩ := hx
  exact ⟨new, hl, h _ _ _ hp⟩

theorem adds_pure {a : α} (h : p (.ok a) [] s.children) : Adds (pure a) s p := ⟨[], (append_nil _).symm, h⟩

theorem adds_throw {e : LinkStop} (h : p (.error e) [] s.children) :
    Adds (throw e) s p := ⟨[], (append_nil _).symm, h⟩

variable {f : α → InstallCall β}

/-- What two calls add to the log, one behind the other. -/
theorem Adds.bind {q : InstallPost β} (hx : Adds x s p)
    (he : ∀ e new children, p (.error e) new children → q (.error e) new children)
    (ho : ∀ a new s', p (.ok a) new s'.children →
      Adds (f a) s' fun r later children => q r (new ++ later) children) : Adds (x >>= f) s q := by
  obtain ⟨new, hl, hp⟩ := hx
  rw [Adds, StateCall.runOn_bind]
  rcases hr : x.runOn s with ⟨r, s'⟩
  rw [hr] at hl hp
  cases r with
  | error e => exact ⟨new, hl, he e new _ hp⟩
  | ok a =>
    obtain ⟨later, hla, hq⟩ := ho a new s' hp
    refine ⟨new ++ later, ?_, hq⟩
    rw [hla, hl, append_assoc]

/-- A call whose failure is caught adds what it added before. -/
theorem Adds.returned {p : InstallPost α} {q : InstallPost (Except Text α)} (hx : Adds x s p)
    (ho : ∀ a new children, p (.ok a) new children → q (.ok (.ok a)) new children)
    (hf : ∀ e new children, p (.error (.failed e)) new children → q (.ok (.error e)) new children)
    (hs : ∀ stop new children, (∀ e, stop ≠ .failed e) → p (.error stop) new children →
      q (.error stop) new children) : Adds (returned x) s q := by
  obtain ⟨new, hl, hp⟩ := hx
  unfold Adds AdbFastboot.returned
  rw [StateCall.runOn_ofRun]
  rcases hr : x.runOn s with ⟨r, s'⟩
  rw [hr] at hl hp
  rcases r with (e | _ | _) | a
  · exact ⟨new, hl, hf e _ _ hp⟩
  · exact ⟨new, hl, hs _ _ _ (by simp) hp⟩
  · exact ⟨new, hl, hs _ _ _ (by simp) hp⟩
  · exact ⟨new, hl, ho a _ _ hp⟩

theorem adds_lift_bind {r : Except Text α} {q : InstallPost β} (ho : ∀ a, r = .ok a → Adds (f a) s q)
    (he : ∀ e, r = .error e → q (.error (.failed e)) [] s.children) :
    Adds (liftText r >>= f) s q := by
  cases r with
  | ok a =>
    exact ho a rfl
  | error e => exact ⟨[], (append_nil _).symm, he e rfl⟩

end

def Issues (command : InstallCommand) (x : InstallCall Text) : Prop :=
  ∀ s, Adds x s fun r new children => children = s.children ∧
    ∃ service, new = [⟨command, service, r⟩]

theorem issue_issues (command : InstallCommand) (service : Text) (x : LinkCall Text) :
    Issues command (issue command service x) := fun _ => ⟨_, rfl, rfl, service, rfl⟩

variable (t : CommandTransport)

theorem runInstallCommand_issues (command : InstallCommand) :
    Issues command (runInstallCommand t command) := issue_issues _ _ _

theorem runStaged_issues (command : InstallCommand) (text : Text) :
    Issues command (runStaged command text) := issue_issues _ _ _

def Asks (command : InstallCommand) (x : InstallCall Text) : Prop :=
  ∀ s, Adds x s fun r new children => children = s.children ∧
    ((new = [] ∧ ∃ e, r = .error (.failed e)) ∨ ∃ service, new = [⟨command, service, r⟩])

variable {x : InstallCall Text} {s : InstallState} {command : InstallCommand}

theorem Issues.asks (hx : Issues command x) :
    Asks command x := fun s => (hx s).mono fun _ _ _ h => ⟨h.1, .inr h.2⟩

theorem streamFile_asks (command : InstallCommand) (file : LocalApk) (expected : UInt64) :
    Asks command (streamFileToInstallCommand t command file expected) := by
  intro s
  refine adds_lift_bind (fun fileSize _ => ?_) fun e _ => ⟨rfl, .inl ⟨rfl, e, rfl⟩⟩
  split
  next => exact adds_throw ⟨rfl, .inl ⟨rfl, _, rfl⟩⟩
  exact adds_lift_bind (fun reads _ => (issue_issues _ _ _).asks s)
    fun e _ => ⟨rfl, .inl ⟨rfl, e, rfl⟩⟩

/-- What a demand adds: its command, and where it is met, with an answer that is accepted. -/
def Demanded (accepts : Text → Bool) (command : InstallCommand) (r : Except LinkStop Unit)
    (new : List ServiceRun) : Prop :=
  (new = [] ∧ r ≠ .ok ()) ∨
    ∃ run, new = [run] ∧ run.command = command ∧ (r = .ok () → run.Accepted accepts)

variable (accepts : Text → Bool)

/-- A demanded answer that is not accepted is a failure. -/
theorem demand_adds (failure : Text → Text) (hx : Asks command x) (s : InstallState) :
    Adds (demand accepts failure x) s fun r new children =>
      children = s.children ∧ Demanded accepts command r new := by
  refine (hx s).bind ?_ ?_
  · rintro e new children ⟨hc, ⟨hn, -⟩ | ⟨service, hn⟩⟩
    · exact ⟨hc, .inl ⟨hn, by simp⟩⟩
    · exact ⟨hc, .inr ⟨_, hn, rfl, by simp⟩⟩
  · rintro output new s' ⟨hc, ⟨-, e, h⟩ | ⟨service, rfl⟩⟩
    · cases h
    · split
      next ha =>
        exact adds_pure ⟨hc, .inr ⟨_, rfl, rfl, fun _ => ⟨output, rfl, ha⟩⟩⟩
      next => exact adds_throw ⟨hc, .inr ⟨_, rfl, rfl, by simp⟩⟩

variable {flags : List Text}

/-- A session that was created is on the log with its id. -/
theorem createSession_adds (failure : Text) (hx : Issues (.create flags) x) (s : InstallState) :
    Adds (createSession failure x) s fun r new children => children = s.children ∧
      ∃ run, new = [run] ∧ run.command = .create flags ∧ run.created = r.toOption := by
  refine (hx s).bind ?_ ?_
  · rintro e new children ⟨hc, service, hn⟩
    exact ⟨hc, _, hn, rfl, rfl⟩
  · rintro output new s' ⟨hc, service, rfl⟩
    have hcr : (ServiceRun.mk (.create flags) service (.ok output)).created
        = parseInstallSessionId output := rfl
    cases hp : parseInstallSessionId output with
    | some session => exact adds_pure ⟨hc, _, rfl, rfl, by rw [hcr, hp]; rfl⟩
    | none => exact adds_throw ⟨hc, _, rfl, rfl, by rw [hcr, hp]; rfl⟩

/-- What the steps of a session add: its creations and its writes, where they succeed all those that
are planned. -/
structure Steps {α : Type} (accepts : Text → Bool) (plan : List (Option Text × Except Text UInt64))
    (r : Except LinkStop α) (new : List ServiceRun) : Prop where
  steps : ∀ run ∈ new, run.command.isCommit = false ∧ run.command.isAbandon = false
  accepted : ∀ a, r = .ok a → ∀ run ∈ new, run.command.isStep = true → run.Accepted accepts
  complete : ∀ a, r = .ok a → WritesAll plan new

section

variable {accepts : Text → Bool} {plan later : List (Option Text × Except Text UInt64)}
  {new new' : List ServiceRun} {α β : Type}

theorem steps_nil (r : Except LinkStop α) : Steps accepts [] r [] where
  steps _ hr := absurd hr not_mem_nil
  accepted _ _ _ hr := absurd hr not_mem_nil
  complete _ _ := rfl

theorem writesOf_append : writesOf (new ++ new') = writesOf new ++ writesOf new' :=
  filterMap_append

/-- Steps of a plan one behind the other. -/
theorem Steps.append {a : α} {r : Except LinkStop β} (h : Steps accepts plan (.ok a) new)
    (h' : Steps accepts later r new') : Steps accepts (plan ++ later) r (new ++ new') where
  steps run hr := by
    rcases mem_append.mp hr with hr | hr
    · exact h.steps run hr
    · exact h'.steps run hr
  accepted b hb run hr := by
    rcases mem_append.mp hr with hr | hr
    · exact h.accepted a rfl run hr
    · exact h'.accepted b hb run hr
  complete b hb := by
    rw [WritesAll, writesOf_append, map_append, h.complete a rfl, h'.complete b hb]

theorem Steps.failed {e : LinkStop} (h : Steps accepts plan (.error e : Except LinkStop α) new) :
    Steps accepts later (.error e : Except LinkStop β) new where
  steps := h.steps
  accepted a ha := by cases ha
  complete a ha := by cases ha

variable {r : Except LinkStop Unit}

theorem Demanded.created_eq_none {command : InstallCommand}
    (h : Demanded accepts command r new) (hcommand : ∀ flags, command ≠ .create flags) :
    ∀ run ∈ new, run.created = none := by
  rcases h with ⟨rfl, -⟩ | ⟨run, rfl, rfl, -⟩
  · exact forall_mem_nil _
  · simpa using created_eq_none hcommand

theorem Demanded.steps_write {size : UInt64} {session : SessionId} {name : Text}
    (h : Demanded accepts (.write size session name) r new) :
    Steps accepts [(some name, .ok size)] r new := by
  rcases h with ⟨rfl, hne⟩ | ⟨run, rfl, hcommand, hac⟩
  · exact ⟨by simp, by simp, fun a ha => absurd ha hne⟩
  refine ⟨?_, ?_, ?_⟩
  · simp [hcommand, isCommit, isAbandon]
  · intro a ha
    simpa using fun _ => hac ha
  · intro a ha
    simp [WritesAll, writesOf, hcommand, written]

end

def Writes (accepts : Text → Bool) (plan : List (Option Text × Except Text UInt64))
    (x : InstallCall Unit) : Prop :=
  ∀ s, Adds x s fun r new children => children = s.children ∧
    (∀ run ∈ new, run.created = none) ∧ Steps accepts plan r new

theorem writes_nil : Writes accepts [] (pure ()) :=
  fun _ => adds_pure ⟨rfl, forall_mem_nil _, steps_nil _⟩

/-- The writes of a plan, with one more at its front. -/
theorem writes_cons {accepts : Text → Bool} {plan : List (Option Text × Except Text UInt64)}
    {size : UInt64} {session : SessionId} {name : Text} {rest : InstallCall Unit}
    (hx : Asks (.write size session name) x) (failure : Text → Text)
    (hr : Writes accepts plan rest) :
    Writes accepts ((some name, .ok size) :: plan) (do demand accepts failure x; rest) := by
  intro s
  have hw : ∀ flags, InstallCommand.write size session name ≠ .create flags := by
    intro flags h
    cases h
  refine (demand_adds accepts failure hx s).bind ?_ ?_
  · rintro e new children ⟨hc, hd⟩
    exact ⟨hc, hd.created_eq_none hw, hd.steps_write.failed⟩
  · rintro _ new s' ⟨hc, hd⟩
    refine (hr s').mono ?_
    rintro r later children ⟨hs, hcr, hst⟩
    refine ⟨hs.trans hc, ?_, hd.steps_write.append hst⟩
    exact forall_mem_append.mpr ⟨hd.created_eq_none hw, hcr⟩

/-- Each file that is streamed is one write of the plan. -/
theorem writeStreamed_writes (session : SessionId) (apks : List LocalApk) :
    Writes reportsSuccess (apks.map fun apk => (apk.fileName, apk.measured))
      (writeStreamed t session apks) := by
  induction apks with
  | nil => exact writes_nil _
  | cons apk apks ih =>
    intro s
    have hn : ∀ run ∈ ([] : List ServiceRun), run.created = none :=
      forall_mem_nil _
    have hf : ∀ e : LinkStop, Steps reportsSuccess
        ((apk :: apks).map fun apk => (apk.fileName, apk.measured))
        (.error e : Except LinkStop Unit) [] := fun e =>
      (steps_nil (.error e : Except LinkStop Unit)).failed
    refine adds_lift_bind (fun fileName hnm => ?_) fun e _ => ⟨rfl, hn, hf _⟩
    refine adds_lift_bind (fun size hs => ?_) fun e _ => ⟨rfl, hn, hf _⟩
    rw [map_cons, LocalApk.fileName_of_name hnm, hs]
    exact writes_cons (streamFile_asks _ _ _ _) _ ih s

theorem writeStaged_writes (session : SessionId) (apks : List StagedApk) :
    Writes containsSuccess (apks.map fun apk => (some apk.fileName, .ok apk.size))
      (writeStaged session apks) := by
  induction apks with
  | nil => exact writes_nil _
  | cons apk apks ih => exact writes_cons (runStaged_issues _ _).asks _ ih

/-- Each split of a package is one write of the plan. -/
theorem writeChild_writes (child : SessionId) (apks : List MultiPackageApk) :
    Writes reportsSuccess (apks.map fun apk => (some apk.splitName, .ok apk.size))
      (writeChild t child apks) := by
  induction apks with
  | nil => exact writes_nil _
  | cons apk apks ih => exact writes_cons (streamFile_asks _ _ _ _) _ ih

/-- The end of a session: nothing, or a commit behind steps that are complete. -/
def CommitTail (accepts : Text → Bool) (complete : List ServiceRun → Prop)
    (steps tail : List ServiceRun) : Prop :=
  tail = [] ∨ ∃ run, tail = [run] ∧ run.command.isCommit = true ∧ complete steps ∧
    ∀ earlier ∈ steps, earlier.command.isStep = true → earlier.Accepted accepts

/-- What the sessions of an install add before it may have to abandon them. Each session that was
created is among the children. -/
def SessionBody (accepts : Text → Bool) (complete : List ServiceRun → Prop)
    (children : List SessionId) (new : List ServiceRun) : Prop :=
  ∃ steps tail, new = steps ++ tail ∧
    (∀ run ∈ steps, run.command.isCommit = false ∧ run.command.isAbandon = false) ∧
    (∀ run ∈ steps, ∀ session, run.created = some session → session ∈ children) ∧
    CommitTail accepts complete steps tail

section

variable {accepts : Text → Bool} {complete : List ServiceRun → Prop}

/-- The commit stands behind all steps and before the cleanup. -/
theorem commit_position {α : Type} {steps tail cleanup before after : List α} {run : α}
    (h : steps ++ (tail ++ cleanup) = before ++ run :: after) (hs : run ∉ steps)
    (hc : run ∉ cleanup) (ht : tail.length ≤ 1) :
    before = steps ∧ ∃ rest, tail = run :: rest := by
  rcases append_eq_append_iff.mp h with ⟨middle, hb, hl⟩ | ⟨middle, hf, hl⟩
  · cases tail with
    | nil =>
      have hm : run ∈ cleanup := by
        rw [nil_append] at hl
        rw [hl]
        simp
      exact absurd hm hc
    | cons first rest =>
      have hr := length_eq_zero_iff.mp (by simpa using ht)
      subst hr
      cases middle with
      | nil =>
        obtain ⟨rfl, -⟩ := cons.inj hl
        exact ⟨by simpa using hb, [], rfl⟩
      | cons other middle =>
        have htl : cleanup = middle ++ run :: after := (cons.inj hl).2
        have hm : run ∈ cleanup := by simp [htl]
        exact absurd hm hc
  · cases middle with
    | nil =>
      rw [append_nil] at hf
      rw [nil_append] at hl
      cases tail with
      | nil => exact absurd (by rw [nil_append] at hl; simp [← hl]) hc
      | cons first rest => exact ⟨hf.symm, rest, by rw [(cons.inj hl).1]⟩
    | cons other middle =>
      have hm : run ∈ steps := by
        rw [hf, (cons.inj hl).1]
        simp
      exact absurd hm hs

variable {steps cleanup tail : List ServiceRun} {r : Except LinkStop Unit} {first : ServiceRun}
  {children : List SessionId} {s : InstallState} {create : InstallCall Text}

/-- Steps, at most one commit, and a cleanup on failure are all or nothing. -/
theorem allOrNothing_of_parts
    (hs : ∀ run ∈ steps, run.command.isCommit = false ∧ run.command.isAbandon = false)
    (ht : CommitTail accepts complete steps tail)
    (hcl : ∀ run ∈ cleanup, run.command.isAbandon = true) (ho : r = .ok () → cleanup = [])
    (hf : ∀ e, r = .error (.failed e) → ∀ run ∈ steps, ∀ session,
      run.created = some session → ∃ later ∈ cleanup, later.command = .abandon session) :
    AllOrNothing accepts complete (steps ++ (tail ++ cleanup)) r := by
  have htc : ∀ run ∈ tail, run.command.isCommit = true := by
    rcases ht with rfl | ⟨run, rfl, hc, -⟩
    · exact forall_mem_nil _
    · simpa using hc
  refine ⟨?_, ?_, ?_, ?_⟩
  · have hno : steps.countP (fun run => run.command.isCommit) = 0 :=
      countP_eq_zero.mpr fun run hr => by simp [(hs run hr).1]
    have hnon : cleanup.countP (fun run => run.command.isCommit) = 0 :=
      countP_eq_zero.mpr fun run hr => by
        simp [isCommit_of_isAbandon (hcl run hr)]
    have hone : tail.length ≤ 1 := by
      rcases ht with rfl | ⟨run, rfl, -⟩
      · exact Nat.zero_le 1
      · exact Nat.le_refl 1
    have htl := countP_le_length (l := tail) (p := fun run => run.command.isCommit)
    rw [countP_append, countP_append]
    omega
  · intro before run after hlog hc
    have hns : run ∉ steps := fun hr => by
      rw [(hs run hr).1] at hc
      cases hc
    have hn : run ∉ cleanup := fun hr => by
      rw [isCommit_of_isAbandon (hcl run hr)] at hc
      cases hc
    obtain ⟨rfl, rest, hrs⟩ := commit_position hlog hns hn (by
      rcases ht with rfl | ⟨run, rfl, -⟩
      · exact Nat.zero_le 1
      · exact Nat.le_refl 1)
    rcases ht with rfl | ⟨commit, rfl, -, hcp, ha⟩
    · cases hrs
    · exact ⟨hcp, ha⟩
  · intro e he run hr session hcr
    rcases mem_append.mp hr with hr | hr
    · obtain ⟨later, hl, hcommand⟩ := hf e he run hr session hcr
      exact ⟨later, by simp [hl], hcommand⟩
    rcases mem_append.mp hr with hr | hr
    · rw [created_of_isCommit (htc run hr)] at hcr
      cases hcr
    · rw [created_of_isAbandon (hcl run hr)] at hcr
      cases hcr
  · intro h run hr
    rw [ho h, append_nil] at hr
    rcases mem_append.mp hr with hr | hr
    · exact (hs run hr).2
    · exact isAbandon_of_isCommit (htc run hr)

/-- What an install leaves behind that fails: a command to abandon each of these sessions. -/
def Abandons (sessions : List SessionId) (x : InstallCall Unit) (s : InstallState) : Prop :=
  Adds x s fun r new _ => (∀ run ∈ new, run.command.isAbandon = true) ∧
    (r = .ok () → ∀ session ∈ sessions, ∃ run ∈ new, run.command = .abandon session) ∧
    ∀ e, r ≠ .error (.failed e)

variable {session : SessionId} {flags : List Text}
    {plan : List (Option Text × Except Text UInt64)}

section

variable (hcommand : first.command = .create flags) (hfirst : first.created = some session)
include hcommand hfirst

theorem SessionBody.allOrNothing {new : List ServiceRun}
    (hb : SessionBody accepts (fun steps => complete (first :: steps)) children new)
    (hc : ∀ run ∈ cleanup, run.command.isAbandon = true) (ho : r = .ok () → cleanup = [])
    (hf : ∀ e, r = .error (.failed e) → ∀ id ∈ session :: children,
      ∃ run ∈ cleanup, run.command = .abandon id) :
    AllOrNothing accepts complete (first :: (new ++ cleanup)) r := by
  obtain ⟨steps, tail, rfl, hst, hcr, ht⟩ := hb
  rw [append_assoc, ← cons_append]
  refine allOrNothing_of_parts ?_ ?_ hc ho ?_
  · rw [forall_mem_cons, hcommand]
    exact ⟨⟨rfl, rfl⟩, hst⟩
  · rcases ht with hn | ⟨run, hr, hcm, hcp, ha⟩
    · exact .inl hn
    refine .inr ⟨run, hr, hcm, hcp, ?_⟩
    rw [forall_mem_cons, hcommand]
    refine ⟨?_, ha⟩
    intro hs
    cases hs
  · intro e he run hr id hi
    refine hf e he id ?_
    rcases mem_cons.mp hr with rfl | hr
    · rw [hfirst] at hi
      rw [Option.some.inj hi]
      exact mem_cons_self
    · exact mem_cons_of_mem _ (hcr run hr id hi)

/-- A body that fails is followed by its abandons. -/
theorem orAbandon_adds {body abandon : InstallCall Unit} (reached : List SessionId → Prop)
    (hb : Adds body s fun _ new children => reached children ∧
      SessionBody accepts (fun steps => complete (first :: steps)) children new)
    (ha : ∀ s', reached s'.children → Abandons (session :: s'.children) abandon s') :
    Adds (orAbandon body abandon) s fun r new _ =>
      AllOrNothing accepts complete (first :: new) r := by
  have hno : ∀ run ∈ ([] : List ServiceRun), run.command.isAbandon = true :=
    forall_mem_nil _
  have hrt : Adds (returned body) s fun r new children => (reached children ∧
      SessionBody accepts (fun steps => complete (first :: steps)) children new) ∧
      ∀ e, r ≠ .error (.failed e) :=
    hb.returned (fun _ _ _ h => ⟨h, by simp⟩) (fun _ _ _ h => ⟨h, by simp⟩)
      (fun stop _ _ hs h => ⟨h, fun e he => hs e (Except.error.inj he)⟩)
  refine hrt.bind ?_ ?_
  · rintro stop new children ⟨⟨-, hn⟩, hs⟩
    have hall := hn.allOrNothing hcommand hfirst (r := .error stop) hno (fun _ => rfl)
      fun e he => absurd (Except.error.inj he ▸ rfl) (hs e)
    rwa [append_nil] at hall
  · rintro result new s' ⟨⟨hr, hn⟩, -⟩
    cases result with
    | ok =>
      refine adds_pure (hn.allOrNothing hcommand hfirst hno (fun _ => rfl) ?_)
      intro e he
      cases he
    | error e =>
      refine (ha s' hr).bind ?_ ?_
      · rintro stop later children ⟨hl, -, hs⟩
        refine hn.allOrNothing hcommand hfirst hl ?_ fun e he => absurd he (hs e)
        intro h
        cases h
      · rintro _ later s'' ⟨hl, hc, -⟩
        refine adds_throw ?_
        rw [append_nil]
        refine hn.allOrNothing hcommand hfirst hl ?_ fun _ _ => hc rfl
        intro h
        cases h

end

variable {x : InstallCall Text}

theorem Issues.discard {session : SessionId} (hx : Issues (.abandon session) x) (s : InstallState) :
    Adds (discard x) s fun r new children => children = s.children ∧
      (∃ run, new = [run] ∧ run.command = .abandon session) ∧ ∀ e, r ≠ .error (.failed e) := by
  have hr : Adds (returned x) s fun r new children => children = s.children ∧
      (∃ run, new = [run] ∧ run.command = .abandon session) ∧ ∀ e, r ≠ .error (.failed e) := by
    refine (hx s).returned ?_ ?_ ?_
    · rintro output new children ⟨hc, service, hn⟩
      exact ⟨hc, ⟨_, hn, rfl⟩, by simp⟩
    · rintro text new children ⟨hc, service, hn⟩
      exact ⟨hc, ⟨_, hn, rfl⟩, by simp⟩
    · rintro stop new children hs ⟨hc, service, hn⟩
      exact ⟨hc, ⟨_, hn, rfl⟩, fun e he => hs e (Except.error.inj he)⟩
  refine hr.bind ?_ ?_
  · rintro stop new children ⟨hc, hn, hs⟩
    exact ⟨hc, hn, fun e he => hs e (by cases he; rfl)⟩
  · rintro _ new s' ⟨hc, ⟨run, rfl, hrun⟩, -⟩
    exact adds_pure ⟨hc, ⟨run, rfl, hrun⟩, by simp⟩

theorem Issues.abandons (hx : Issues (.abandon session) x)
    (s : InstallState) : Abandons [session] (AdbFastboot.discard x) s := by
  refine (hx.discard s).mono ?_
  rintro r new children ⟨-, ⟨run, rfl, hr⟩, hne⟩
  refine ⟨?_, ?_, hne⟩
  · simp [hr, isAbandon]
  · simp [hr]

/-- All sessions are abandoned, whatever the device answers. -/
theorem abandonAll_abandons (t : CommandTransport) (sessions : List SessionId) (s : InstallState) :
    Abandons sessions (abandonAll t sessions) s := by
  induction sessions generalizing s with
  | nil => exact adds_pure ⟨by simp, by simp, by simp⟩
  | cons session sessions ih =>
    refine ((runInstallCommand_issues t (.abandon session)).discard s).bind ?_ ?_
    · rintro stop new children ⟨-, ⟨run, rfl, hrun⟩, hs⟩
      refine ⟨by simp [hrun, isAbandon], ?_, hs⟩
      intro h
      cases h
    · rintro _ new s' ⟨-, ⟨run, rfl, hrun⟩, -⟩
      refine (ih s').mono ?_
      rintro r later children ⟨hl, hc, hne⟩
      refine ⟨by simpa [hrun, isAbandon] using hl, ?_, hne⟩
      intro hr id hi
      rcases mem_cons.mp hi with rfl | hi
      · exact ⟨run, by simp, hrun⟩
      · obtain ⟨found, hf, hcommand⟩ := hc hr id hi
        exact ⟨found, by simp [hf], hcommand⟩

variable {timeout : Option Text}

theorem Demanded.commitTail
    (h : Demanded accepts (.commit timeout session) r tail) (hc : complete steps)
    (ha : ∀ earlier ∈ steps, earlier.command.isStep = true → earlier.Accepted accepts) :
    CommitTail accepts complete steps tail := by
  rcases h with ⟨hn, -⟩ | ⟨run, hr, hcommand, -⟩
  · exact .inl hn
  · exact .inr ⟨run, hr, by rw [hcommand]; rfl, hc, ha⟩

/-- Writes and a commit make the body of a session. -/
theorem writes_commit_body {x : InstallCall Unit} {y : InstallCall Text}
    (hx : Writes accepts plan x) (hy : Issues (.commit timeout session) y) (failure : Text → Text)
    (s : InstallState) :
    Adds (do x; demand accepts failure y) s fun _ new children => children = s.children ∧
      SessionBody accepts (WritesAll plan) children new := by
  refine (hx s).bind ?_ ?_
  · rintro e new children ⟨hc, hcr, hst⟩
    refine ⟨hc, new, [], (append_nil _).symm, hst.steps, ?_, .inl rfl⟩
    intro run hr session hs
    rw [hcr run hr] at hs
    cases hs
  · rintro _ new s' ⟨hc, hcr, hst⟩
    refine (demand_adds accepts failure hy.asks s').mono ?_
    rintro r tail children ⟨hsm, hd⟩
    refine ⟨hsm.trans hc, new, tail, rfl, hst.steps, ?_,
      hd.commitTail (hst.complete _ rfl) (hst.accepted _ rfl)⟩
    intro run hr session hs
    rw [hcr run hr] at hs
    cases hs

/-- A session that is not created leaves nothing behind. -/
theorem created_allOrNothing {rest : SessionId → InstallCall Unit}
    (hct : Issues (.create flags) create) (failure : Text)
    (hr : ∀ first session s', first.command = .create flags → first.created = some session →
      s'.children = s.children →
      Adds (rest session) s' fun r new _ => AllOrNothing accepts complete (first :: new) r) :
    Adds (createSession failure create >>= rest) s
      fun r new _ => AllOrNothing accepts complete new r := by
  refine (createSession_adds failure hct s).bind ?_ ?_
  · rintro e new children ⟨-, run, rfl, hcommand, hc⟩
    have hst : ∀ run' ∈ [run], run'.command.isCommit = false ∧ run'.command.isAbandon = false := by
      simp [hcommand, isCommit, isAbandon]
    have hn : ∀ run ∈ ([] : List ServiceRun), run.command.isAbandon = true :=
      forall_mem_nil _
    refine allOrNothing_of_parts hst (.inl rfl) hn (fun _ => rfl) ?_
    intro text ht run' hrun' session hs
    rw [mem_singleton.mp hrun', hc] at hs
    cases hs
  · rintro session new s' ⟨hch, run, rfl, hcommand, hc⟩
    exact hr run session s' hcommand hc hch

theorem writesAll_create (hcommand : first.command = .create flags) (h : WritesAll plan steps) :
    WritesAll plan (first :: steps) := by
  rw [WritesAll, writesOf, filterMap_cons_none (by rw [hcommand]; rfl)]
  exact h

theorem SessionBody.mono {complete' : List ServiceRun → Prop} {new : List ServiceRun}
    (h : SessionBody accepts complete children new)
    (hm : ∀ steps, complete steps → complete' steps) :
    SessionBody accepts complete' children new := by
  obtain ⟨steps, tail, hn, hs, hcr, ht⟩ := h
  refine ⟨steps, tail, hn, hs, hcr, ?_⟩
  rcases ht with hnil | ⟨run, hr, hc, hcp, ha⟩
  · exact .inl hnil
  · exact .inr ⟨run, hr, hc, hm steps hcp, ha⟩

theorem single_allOrNothing {x : SessionId → InstallCall Unit}
    {commit abandon : SessionId → InstallCall Text} (hcr : Issues (.create flags) create)
    (hx : ∀ session, Writes accepts plan (x session))
    (hcm : ∀ session, Issues (.commit none session) (commit session))
    (ha : ∀ session, Issues (.abandon session) (abandon session)) (failure : Text)
    (commitFailure : SessionId → Text → Text) (hs : s.children = []) :
    Adds (do
      let session ← createSession failure create
      orAbandon (do x session; demand accepts (commitFailure session) (commit session))
        (discard (abandon session))) s
      fun r new _ => AllOrNothing accepts (WritesAll plan) new r := by
  refine created_allOrNothing hcr failure fun first session s' hcommand hct hc => ?_
  refine orAbandon_adds hcommand hct (fun children => children = []) ?_ ?_
  · refine (writes_commit_body (hx session) (hcm session) _ s').mono ?_
    rintro r new children ⟨hsm, hb⟩
    exact ⟨by rw [hsm, hc, hs], hb.mono fun steps => writesAll_create hcommand⟩
  · intro s'' hn
    rw [hn]
    exact (ha session).abandons s''

end

/-- Installing streamed files is all or nothing. -/
theorem installMultipleStreamed_adds (apks : List LocalApk) (totalSize : UInt64)
    (options : InstallOptions) (hs : s.children = []) :
    Adds (installMultipleStreamed t apks totalSize options) s fun r new _ =>
      AllOrNothing reportsSuccess
        (WritesAll (apks.map fun apk => (apk.fileName, apk.measured))) new r :=
  single_allOrNothing (runInstallCommand_issues t _)
    (fun session => writeStreamed_writes t session apks)
    (fun session => runInstallCommand_issues t (.commit none session))
    (fun session => runInstallCommand_issues t (.abandon session)) _ commitFailure hs

/-- Installing staged files is all or nothing. -/
theorem installStagedMultiple_adds (apks : List StagedApk) (totalSize : UInt64)
    (options : InstallOptions) (hs : s.children = []) :
    Adds (installStagedMultiple apks totalSize options) s fun r new _ =>
      AllOrNothing containsSuccess
        (WritesAll (apks.map fun apk => (some apk.fileName, .ok apk.size))) new r :=
  single_allOrNothing (runStaged_issues _ _) (fun session => writeStaged_writes session apks)
    (fun session => runStaged_issues (.commit none session) _)
    (fun session => runStaged_issues (.abandon session) _) _ commitFailure hs

theorem steps_create {α : Type} {run : ServiceRun}
    (hcommand : run.command = .create flags) (r : Except LinkStop α) :
    Steps accepts [] r [run] := by
  refine ⟨?_, ?_, ?_⟩
  · simp [hcommand, isCommit, isAbandon]
  · simp [hcommand, isStep]
  · intro a _
    exact writesAll_create hcommand rfl

/-- The children of a package session, with the ids that were obtained. -/
theorem childSessions_adds (options : InstallOptions) (apexFound : Bool)
    (packages : List (List MultiPackageApk)) (s : InstallState) :
    Adds (childSessions t options apexFound packages) s fun r new children =>
      children = s.children ++ new.filterMap created ∧
      Steps reportsSuccess (packages.flatten.map fun apk => (some apk.splitName, .ok apk.size)) r
        new := by
  induction packages generalizing s with
  | nil => exact adds_pure ⟨(append_nil _).symm, steps_nil _⟩
  | cons package packages ih =>
    rw [flatten_cons, map_append]
    refine (createSession_adds _ (runInstallCommand_issues t _) s).bind ?_ ?_
    · rintro e new children ⟨hc, run, rfl, hcommand, hcr⟩
      refine ⟨?_, (steps_create reportsSuccess hcommand (.error e : Except LinkStop Unit)).failed⟩
      rw [filterMap_cons_none hcr]
      simpa using hc
    · rintro child new s' ⟨hc, run, rfl, hcommand, hcr⟩
      have hph : Adds (pushChild child) s' fun r new children =>
          r = .ok () ∧ new = [] ∧ children = s.children ++ [child] :=
        ⟨[], (append_nil _).symm, rfl, rfl, by rw [← hc]; rfl⟩
      have hsr := steps_create reportsSuccess hcommand (.ok () : Except LinkStop Unit)
      refine hph.bind ?_ ?_
      · rintro e new children ⟨h, -⟩
        cases h
      · rintro _ _ s'' ⟨-, rfl, hp⟩
        have hco : ∀ writes : List ServiceRun, (∀ run ∈ writes, run.created = none) →
            (run :: writes).filterMap created = [child] := by
          intro writes hn
          rw [filterMap_cons_some hcr, filterMap_eq_nil_iff.mpr hn]
        refine (writeChild_writes t child package s'').bind ?_ ?_
        · rintro e writes children ⟨hs, hn, hst⟩
          refine ⟨?_, (hsr.append hst).failed⟩
          change children = s.children ++ (run :: writes).filterMap created
          rw [hs, hp, hco writes hn]
        · rintro _ writes s3 ⟨hs, hn, hst⟩
          refine (ih s3).mono ?_
          rintro r later children ⟨hg, hl⟩
          refine ⟨?_, (hsr.append hst).append hl⟩
          change children = s.children ++ ((run :: writes) ++ later).filterMap created
          rw [hg, hs, hp, filterMap_append, hco writes hn, append_assoc]

theorem adds_childIds_bind {α : Type} {f : List SessionId → InstallCall α} {q : InstallPost α}
    (h : Adds (f s.children) s q) : Adds (childIds >>= f) s q := by
  exact h

/-- The children are added before the parent is committed. -/
theorem linkAndCommit_adds (parent : SessionId) (timeout : Option Text) (s : InstallState) :
    Adds (linkAndCommit t parent timeout) s fun _ new children => children = s.children ∧
      ∃ add tail, new = add ++ tail ∧ (∀ run ∈ add, run.command = .addSession parent s.children) ∧
        (tail = [] ∨ ∃ run r, add = [run] ∧ run.Accepted reportsSuccess ∧
          Demanded reportsSuccess (.commit timeout parent) r tail) := by
  have ho : ∀ {r : Except LinkStop Unit} {add : List ServiceRun},
      Demanded reportsSuccess (.addSession parent s.children) r add →
      ∀ run ∈ add, run.command = .addSession parent s.children := by
    rintro r add (⟨rfl, -⟩ | ⟨run, rfl, hcommand, -⟩)
    · exact forall_mem_nil _
    · simpa using hcommand
  refine adds_childIds_bind ?_
  refine (demand_adds reportsSuccess _ (runInstallCommand_issues t _).asks s).bind ?_ ?_
  · rintro e add children ⟨hc, ha⟩
    exact ⟨hc, add, [], (append_nil _).symm, ho ha, .inl rfl⟩
  · rintro _ add s' ⟨hc, ha⟩
    refine (demand_adds reportsSuccess _ (runInstallCommand_issues t _).asks s').mono ?_
    rintro r tail children ⟨hs, ht⟩
    refine ⟨hs.trans hc, add, tail, rfl, ho ha, .inr ?_⟩
    rcases ha with ⟨-, hne⟩ | ⟨run, hr, -, hac⟩
    · exact absurd rfl hne
    · exact ⟨run, r, hr, hac rfl, ht⟩

variable (packages : List (List MultiPackageApk))

theorem multiPackage_body (options : InstallOptions)
    (apexFound : Bool) (timeout : Option Text) {first : ServiceRun} {parent : SessionId}
    (hcommand : first.command = .create flags) (hfirst : first.created = some parent)
    (hs : s.children = []) :
    Adds (do
      childSessions t options apexFound packages
      linkAndCommit t parent timeout) s fun _ new children => True ∧
      SessionBody reportsSuccess (fun steps =>
        WritesAll (packages.flatten.map fun apk => (some apk.splitName, .ok apk.size))
          (first :: steps) ∧ LinksAll (first :: steps)) children new := by
  have hm : ∀ {new : List ServiceRun} {children : List SessionId},
      children = s.children ++ new.filterMap created →
      ∀ run ∈ new, ∀ session, run.created = some session → session ∈ children := by
    intro new children hc run hr session hss
    rw [hc, hs]
    exact mem_filterMap.mpr ⟨run, hr, hss⟩
  refine (childSessions_adds t options apexFound packages s).bind ?_ ?_
  · rintro e new children ⟨hc, hst⟩
    exact ⟨trivial, new, [], (append_nil _).symm, hst.steps, hm hc, .inl rfl⟩
  · rintro _ new s' ⟨hc, hst⟩
    refine (linkAndCommit_adds t parent timeout s').mono ?_
    rintro r later children ⟨hsm, add, tail, rfl, ha, ht⟩
    have hn : ∀ run ∈ add, run.created = none := fun run hr =>
      created_eq_none fun flags hf => by
        rw [ha run hr] at hf
        cases hf
    refine ⟨trivial, new ++ add, tail, (append_assoc _ _ _).symm, ?_, ?_, ?_⟩
    · refine forall_mem_append.mpr ⟨hst.steps, fun run hr => ?_⟩
      rw [ha run hr]
      exact ⟨rfl, rfl⟩
    · intro run hr session hss
      rw [hsm]
      rcases mem_append.mp hr with hr | hr
      · exact hm hc run hr session hss
      · rw [hn run hr] at hss
        cases hss
    · rcases ht with rfl | ⟨run, r', rfl, hac, hcm⟩
      · exact .inl rfl
      refine hcm.commitTail ⟨writesAll_create hcommand ?_, parent, s'.children, ?_, run, ?_,
        ha run mem_cons_self⟩ ?_
      · have hw : writesOf [run] = [] := by
          simp [writesOf, ha run mem_cons_self, written]
        rw [WritesAll, writesOf_append, hw, append_nil]
        exact hst.complete _ rfl
      · rw [filterMap_cons_some hfirst, filterMap_append,
          filterMap_eq_nil_iff.mpr hn, append_nil, hc, hs, nil_append]
      · simp
      · refine forall_mem_append.mpr ⟨hst.accepted _ rfl, ?_⟩
        simpa using fun _ => hac

/-- Installing several packages is all or nothing. -/
theorem installMultiPackageSessions_adds
    (options : InstallOptions) (apexSupported : Bool) (timeout : Option Text) (s : InstallState) :
    Adds (installMultiPackageSessions t packages options apexSupported timeout) s fun r new _ =>
      AllOrNothing reportsSuccess (fun log =>
        WritesAll (packages.flatten.map fun apk => (some apk.splitName, .ok apk.size)) log ∧
          LinksAll log) new r := by
  unfold installMultiPackageSessions
  dsimp only
  split
  next =>
    refine adds_throw ⟨Nat.zero_le 1, ?_, ?_, ?_⟩
    · intro before run after h
      exact absurd h (by simp)
    · exact fun _ _ _ hr => absurd hr not_mem_nil
    · exact fun _ _ hr => absurd hr not_mem_nil
  next =>
    refine created_allOrNothing (runInstallCommand_issues t _) _
      fun first parent s' hcommand hc _ => ?_
    exact orAbandon_adds hcommand hc (fun _ => True)
      (multiPackage_body t packages options _ timeout hcommand hc rfl)
      fun s'' _ => adds_childIds_bind (abandonAll_abandons t _ s'')

end AdbFastboot
