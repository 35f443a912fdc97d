import Mathlib.Data.Fintype.Pigeonhole
import Mathlib.Logic.Relation

namespace AdbFastboot

inductive LoopStep (σ ρ : Type) where
  | next (s : σ)
  | done (r : ρ)
deriving DecidableEq, Repr

variable {σ ρ : Type} {turn : σ → LoopStep σ ρ}

def runTurns (turn : σ → LoopStep σ ρ) : Nat → σ → Option ρ
  | 0, _ => none
  | fuel + 1, s =>
    match turn s with
    | .next s' => runTurns turn fuel s'
    | .done r => some r

variable {s : σ} {fuel : Nat}

theorem runTurns_next {s' : σ} (h : turn s = .next s') (fuel : Nat) :
    runTurns turn (fuel + 1) s = runTurns turn fuel s' := by
  rw [runTurns, h]

theorem runTurns_done {r : ρ} (h : turn s = .done r) (fuel : Nat) :
    runTurns turn (fuel + 1) s = some r := by
  rw [runTurns, h]

/-- More turns do not change a result. -/
theorem runTurns_mono {more : Nat} {r : ρ} (h : runTurns turn fuel s = some r) (hle : fuel ≤ more) :
    runTurns turn more s = some r := by
  induction fuel generalizing more s with
  | zero => cases h
  | succ fuel ih =>
    obtain ⟨more, rfl⟩ : ∃ n, more = n + 1 := ⟨more - 1, by omega⟩
    cases ht : turn s with
    | next s' =>
      rw [runTurns_next ht] at h ⊢
      exact ih h (by omega)
    | done r' =>
      rw [runTurns_done ht] at h ⊢
      exact h

/-- What holds at the start and after each turn, in a loop that ends, holds before its last turn. -/
theorem runTurns_last (inv : σ → Prop) (hi : ∀ s s', inv s → turn s = .next s' → inv s') {r : ρ}
    (hs : inv s) (h : runTurns turn fuel s = some r) : ∃ last, inv last ∧ turn last = .done r := by
  induction fuel generalizing s with
  | zero => cases h
  | succ fuel ih =>
    cases ht : turn s with
    | next s' =>
      rw [runTurns_next ht] at h
      exact ih (hi s s' hs ht) h
    | done r' =>
      rw [runTurns_done ht] at h
      cases h
      exact ⟨s, hs, ht⟩

/-- A loop that makes something smaller in each turn ends. -/
theorem runTurns_of_measure {measure : σ → Nat}
    (hl : ∀ s s', turn s = .next s' → measure s' < measure s) (hf : measure s < fuel) :
    ∃ r, runTurns turn fuel s = some r := by
  induction fuel generalizing s with
  | zero => omega
  | succ fuel ih =>
    cases ht : turn s with
    | next s' =>
      rw [runTurns_next ht]
      have hlt := hl s s' ht
      exact ih (by omega)
    | done r => exact ⟨r, runTurns_done ht fuel⟩

/-- A loop goes on forever among states that each lead to another of them. -/
theorem runTurns_eq_none (stays : σ → Prop)
    (hst : ∀ s, stays s → ∃ s', turn s = .next s' ∧ stays s') (hs : stays s) (fuel : Nat) :
    runTurns turn fuel s = none := by
  induction fuel generalizing s with
  | zero => rfl
  | succ fuel ih =>
    obtain ⟨s', ht, hs'⟩ := hst s hs
    rw [runTurns_next ht]
    exact ih hs'

/-- A loop that has not ended has a trace of its states. -/
theorem runTurns_trace (h : runTurns turn fuel s = none) :
    ∃ trace : Nat → σ, trace 0 = s ∧ ∀ i < fuel, turn (trace i) = .next (trace (i + 1)) := by
  induction fuel generalizing s with
  | zero => exact ⟨fun _ => s, rfl, fun i hi => absurd hi (Nat.not_lt_zero i)⟩
  | succ fuel ih =>
    cases ht : turn s with
    | done r =>
      rw [runTurns_done ht] at h
      cases h
    | next s' =>
      rw [runTurns_next ht] at h
      obtain ⟨trace, hs, htr⟩ := ih h
      refine ⟨fun i => if i = 0 then s else trace (i - 1), rfl, fun i hi => ?_⟩
      rcases i with _ | i
      · simpa [hs] using ht
      · simpa using htr i (by omega)

variable {place : σ → Nat} {leads : Nat → Nat → Prop} {bound : Nat}
  (hleads : ∀ s s', turn s = .next s' → place s < bound ∧ leads (place s) (place s'))

include hleads

theorem trace_leads {trace : Nat → σ} {fuel : Nat}
    (ht : ∀ i < fuel, turn (trace i) = .next (trace (i + 1))) {i j : Nat} (hi : i < j)
    (hj : j ≤ fuel) : Relation.TransGen leads (place (trace i)) (place (trace j)) := by
  induction j with
  | zero => omega
  | succ j ih =>
    have hl := (hleads _ _ (ht j (by omega))).2
    rcases Nat.lt_succ_iff_lt_or_eq.mp hi with hlt | rfl
    · exact (ih hlt (by omega)).tail hl
    · exact .single hl

/-- A loop over places, finitely many, none of which leads back to itself, ends. -/
theorem runTurns_of_acyclic (ha : ∀ n, ¬ Relation.TransGen leads n n) (s : σ) :
    ∃ r, runTurns turn (bound + 1) s = some r := by
  cases hr : runTurns turn (bound + 1) s with
  | some r => exact ⟨r, rfl⟩
  | none =>
    obtain ⟨trace, -, ht⟩ := runTurns_trace hr
    let places : Fin (bound + 1) → Fin bound := fun i =>
      ⟨place (trace i), (hleads _ _ (ht i i.isLt)).1⟩
    obtain ⟨i, j, hne, heq⟩ := Fintype.exists_ne_map_eq_of_card_lt places (by simp)
    have hp : place (trace i) = place (trace j) := congrArg Fin.val heq
    rcases Nat.lt_or_gt_of_ne (Fin.val_ne_of_ne hne) with hlt | hgt
    · have hc := trace_leads hleads ht hlt (Nat.le_of_lt j.isLt)
      rw [← hp] at hc
      exact absurd hc (ha _)
    · have hc := trace_leads hleads ht hgt (Nat.le_of_lt i.isLt)
      rw [hp] at hc
      exact absurd hc (ha _)

end AdbFastboot
