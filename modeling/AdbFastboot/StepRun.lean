import Mathlib.Data.List.Basic

namespace AdbFastboot

variable {S A : Type} (step : S → A → Option S)

/-- The state after a run, if each of its steps is possible in turn. -/
def runSteps (s : S) : List A → Option S
  | [] => some s
  | a :: as => (step s a).bind fun s' => runSteps s' as

/-- Every step of a run meets a condition in the state before it. -/
def StepsMeet (cond : S → A → Prop) (s : S) : List A → Prop
  | [] => True
  | a :: as => cond s a ∧ ∀ s', step s a = some s' → StepsMeet cond s' as

variable {step}

/-- A run can be cut anywhere. -/
theorem runSteps_append (s : S) (as bs : List A) :
    runSteps step s (as ++ bs) = (runSteps step s as).bind fun s' => runSteps step s' bs := by
  induction as generalizing s with
  | nil => rfl
  | cons a as ih =>
    rw [List.cons_append, runSteps, runSteps, Option.bind_assoc]
    exact Option.bind_congr fun s' _ => ih s'

variable {cond : S → A → Prop} {inv : S → Prop} {as : List A}

/-- What every step that meets the condition keeps holds in every state that such a run reaches. -/
theorem runSteps_invariant (hst : ∀ {s s' a}, inv s → cond s a → step s a = some s' → inv s')
    {s s' : S} (h : inv s) (hm : StepsMeet step cond s as)
    (hr : runSteps step s as = some s') : inv s' := by
  induction as generalizing s with
  | nil =>
    cases hr
    exact h
  | cons a as ih =>
    obtain ⟨s1, hs1, hr⟩ := Option.bind_eq_some_iff.mp hr
    exact ih (hst h hm.1 hs1) (hm.2 s1 hs1) hr

/-- Where the condition says exactly which steps keep the invariant, it holds in every state of a run
exactly if every step meets the condition. -/
theorem runSteps_invariant_iff
    (hst : ∀ {s a}, inv s → (cond s a ↔ ∀ s', step s a = some s' → inv s')) {s : S} (h : inv s) :
    (∀ front s', front <+: as → runSteps step s front = some s' → inv s') ↔ StepsMeet step cond s as := by
  constructor
  · intro hi
    induction as generalizing s with
    | nil => trivial
    | cons a as ih =>
      have hn : ∀ s1, step s a = some s1 → inv s1 := by
        intro s1 hs1
        exact hi [a] s1 ⟨as, rfl⟩ (by rw [runSteps, hs1]; rfl)
      refine ⟨(hst h).mpr hn, fun s1 hs1 => ih (hn s1 hs1) ?_⟩
      intro front s' hf hr
      exact hi (a :: front) s' (List.cons_prefix_cons.mpr ⟨rfl, hf⟩)
        (by rw [runSteps, hs1]; exact hr)
  · intro hm front s' hf hr
    induction as generalizing s front with
    | nil =>
      cases List.prefix_nil.mp hf
      cases hr
      exact h
    | cons a as ih =>
      cases front with
      | nil =>
        cases hr
        exact h
      | cons b front =>
        obtain ⟨rfl, hb⟩ := List.cons_prefix_cons.mp hf
        obtain ⟨s1, hs1, hr⟩ := Option.bind_eq_some_iff.mp hr
        exact ih ((hst h).mp hm.1 s1 hs1) (hm.2 s1 hs1) front hb hr

/-- Where the condition says exactly which steps are possible, a run is possible exactly if every step
meets the condition. -/
theorem runSteps_isSome_iff (hc : ∀ {s a}, inv s → ((step s a).isSome ↔ cond s a))
    (hk : ∀ {s s' a}, inv s → step s a = some s' → inv s') {s : S} (h : inv s) :
    (runSteps step s as).isSome ↔ StepsMeet step cond s as := by
  induction as generalizing s with
  | nil => exact ⟨fun _ => trivial, fun _ => rfl⟩
  | cons a as ih =>
    rw [StepsMeet, ← hc h, runSteps]
    cases hs : step s a with
    | none =>
      simp
    | some s1 =>
      rw [Option.bind_some, ih (hk h hs)]
      constructor
      · intro hm
        refine ⟨rfl, ?_⟩
        intro s' hs'
        cases hs'
        exact hm
      · intro hm
        exact hm.2 s1 rfl

theorem StepsMeet.of_mem (h : ∀ a ∈ as, ∀ s, cond s a) (s : S) : StepsMeet step cond s as := by
  induction as generalizing s with
  | nil => trivial
  | cons a as ih =>
    exact ⟨h a List.mem_cons_self s, fun s' _ => ih (fun b hb => h b (List.mem_cons_of_mem a hb)) s'⟩

theorem StepsMeet.of_forall (h : ∀ s a, cond s a) (s : S) (as : List A) :
    StepsMeet step cond s as := .of_mem (fun a _ s => h s a) s

/-- What every step keeps holds in every state that a run reaches. -/
theorem runSteps_keeps (hst : ∀ {s s' a}, inv s → step s a = some s' → inv s') {s s' : S}
    (h : inv s) (hr : runSteps step s as = some s') : inv s' :=
  runSteps_invariant (fun hs _ => hst hs) h (.of_forall (fun _ _ => trivial) s as) hr

instance StepsMeet.decidable {cond : S → A → Prop} [∀ s a, Decidable (cond s a)] :
    ∀ (s : S) (as : List A), Decidable (StepsMeet step cond s as)
  | _, [] => isTrue trivial
  | s, a :: as =>
    match hs : step s a with
    | none => decidable_of_iff (cond s a) ⟨fun h => ⟨h, fun s' h' => by simp [hs] at h'⟩, And.left⟩
    | some s₁ =>
      have : Decidable (StepsMeet step cond s₁ as) := StepsMeet.decidable s₁ as
      decidable_of_iff (cond s a ∧ StepsMeet step cond s₁ as)
        ⟨fun h => ⟨h.1, fun s' h' => by cases hs.symm.trans h'; exact h.2⟩,
          fun h => ⟨h.1, h.2 s₁ hs⟩⟩

end AdbFastboot
