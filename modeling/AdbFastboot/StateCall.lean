import Mathlib.Init

namespace AdbFastboot

/-- A call that works on a state and returns a value or ends with `ε`. -/
abbrev StateCall (σ ε α : Type) := ExceptT ε (StateM σ) α

namespace StateCall

variable {σ ε δ α β : Type}

def runOn (x : StateCall σ ε α) (s : σ) : Except ε α × σ := StateT.run (ExceptT.run x) s

def ofRun (f : σ → Except ε α × σ) : StateCall σ ε α := ExceptT.mk f

def attempt (x : StateCall σ ε α) : StateCall σ δ (Except ε α) :=
  ofRun fun s => (.ok (x.runOn s).1, (x.runOn s).2)

def lift (r : Except ε α) : StateCall σ ε α := ofRun fun s => (r, s)

@[simp] theorem runOn_ofRun (f : σ → Except ε α × σ) (s : σ) : (ofRun f).runOn s = f s := rfl

@[simp] theorem runOn_pure (a : α) (s : σ) : (pure a : StateCall σ ε α).runOn s = (.ok a, s) := rfl

@[simp] theorem runOn_throw (e : ε) (s : σ) : (throw e : StateCall σ ε α).runOn s = (.error e, s) := rfl

@[simp] theorem runOn_lift (r : Except ε α) (s : σ) : (lift r : StateCall σ ε α).runOn s = (r, s) :=
  rfl

@[simp] theorem runOn_attempt (x : StateCall σ ε α) (s : σ) :
    (x.attempt : StateCall σ δ _).runOn s = (.ok (x.runOn s).1, (x.runOn s).2) := rfl

theorem runOn_bind (x : StateCall σ ε α) (f : α → StateCall σ ε β) (s : σ) :
    (x >>= f).runOn s = match x.runOn s with
      | (.ok a, s') => (f a).runOn s'
      | (.error e, s') => (.error e, s') := by
  unfold runOn
  rw [ExceptT.run_bind, StateT.run_bind]
  rcases StateT.run (ExceptT.run x) s with ⟨r, s'⟩
  cases r <;> rfl

variable {x : StateCall σ ε α} {f : α → StateCall σ ε β} {inv : σ → Prop} {s : σ}
  {post : σ → Prop}

theorem runOn_bind_ok {s' : σ} {a : α} (h : x.runOn s = (.ok a, s')) :
    (x >>= f).runOn s = (f a).runOn s' := by
  rw [runOn_bind, h]

theorem runOn_bind_error {s' : σ} {e : ε} (h : x.runOn s = (.error e, s')) :
    (x >>= f).runOn s = (.error e, s') := by
  rw [runOn_bind, h]

/-- A sequence that succeeds does so in both parts. -/
theorem runOn_bind_eq_ok {s' : σ} {b : β} (h : (x >>= f).runOn s = (.ok b, s')) :
    ∃ a mid, x.runOn s = (.ok a, mid) ∧ (f a).runOn mid = (.ok b, s') := by
  rw [runOn_bind] at h
  rcases hx : x.runOn s with ⟨r, mid⟩
  rw [hx] at h
  cases r with
  | ok a => exact ⟨a, mid, rfl, h⟩
  | error e => cases (Prod.mk.inj h).1

def Keeps (inv : σ → Prop) (x : StateCall σ ε α) : Prop := ∀ s, inv s → inv (x.runOn s).2

theorem keeps_pure (inv : σ → Prop) (a : α) : (pure a : StateCall σ ε α).Keeps inv :=
  fun _ hs => hs

theorem keeps_throw (inv : σ → Prop) (e : ε) : (throw e : StateCall σ ε α).Keeps inv :=
  fun _ hs => hs

theorem Keeps.attempt (hx : x.Keeps inv) : (x.attempt : StateCall σ δ _).Keeps inv :=
  fun s hs => hx s hs

theorem keeps_lift (inv : σ → Prop) (r : Except ε α) : (lift r : StateCall σ ε α).Keeps inv :=
  fun _ hs => hs

theorem keeps_ite {c : Prop} [Decidable c] {y : StateCall σ ε α} (hx : x.Keeps inv)
    (hy : y.Keeps inv) : (if c then x else y).Keeps inv := by
  split
  next => exact hx
  next => exact hy

theorem Keeps.after (hs : inv (x.runOn s).2) (hf : ∀ a, (f a).Keeps inv) : inv ((x >>= f).runOn s).2 := by
  rw [runOn_bind]
  rcases hx : x.runOn s with ⟨r, mid⟩
  rw [hx] at hs
  cases r with
  | ok a => exact hf a mid hs
  | error e => exact hs

/-- A sequence keeps what both parts keep. -/
theorem Keeps.bind (hx : x.Keeps inv) (hf : ∀ a, (f a).Keeps inv) : (x >>= f).Keeps inv :=
  fun s hs => Keeps.after (hx s hs) hf

/-- From `s` the call returns `a`, in a state that `post` holds of. -/
def Returns (x : StateCall σ ε α) (s : σ) (a : α) (post : σ → Prop) : Prop :=
  ∃ s', x.runOn s = (.ok a, s') ∧ post s'

theorem returns_pure (a : α) (h : post s) : (pure a : StateCall σ ε α).Returns s a post := ⟨s, rfl, h⟩

/-- A sequence returns if both parts do. -/
theorem Returns.bind {a : α} {b : β} {mid : σ → Prop} (hx : x.Returns s a mid)
    (hf : ∀ s', mid s' → (f a).Returns s' b post) : (x >>= f).Returns s b post := by
  obtain ⟨s', hr, hm⟩ := hx
  obtain ⟨t, hl, hp⟩ := hf s' hm
  exact ⟨t, by rw [runOn_bind_ok hr, hl], hp⟩

theorem Returns.attempt {a : α} (hx : x.Returns s a post) :
    (x.attempt : StateCall σ δ _).Returns s (.ok a) post := by
  obtain ⟨s', hr, hp⟩ := hx
  exact ⟨s', by rw [runOn_attempt, hr], hp⟩

end StateCall

end AdbFastboot
