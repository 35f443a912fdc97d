import Mathlib.Algebra.BigOperators.Group.List.Basic
import Mathlib.Algebra.Order.Ring.Nat

namespace AdbFastboot

open List

variable {α : Type} {mem : Nat → α} {cells : List (Option α)} {parts : List (List (Option α))}

/-- Write the cells at the addresses from 0 on; `none` leaves its address alone. -/
def overlay (cells : List (Option α)) (mem : Nat → α) : Nat → α :=
  fun a => cells[a]?.join.getD (mem a)

def overlayAll (parts : List (List (Option α))) (mem : Nat → α) : Nat → α :=
  parts.foldl (fun mem cells => overlay cells mem) mem

def laterCells : List (List (Option α)) → List (Option α)
  | [] => []
  | [] :: parts => laterCells parts
  | (_ :: _) :: parts => parts.flatten

@[simp] theorem overlay_nil (mem : Nat → α) : overlay [] mem = mem := by
  funext a
  simp [overlay]

theorem overlay_append_none {more : List (Option α)} (h : ∀ c ∈ more, c = none) :
    overlay (cells ++ more) mem = overlay cells mem := by
  funext a
  unfold overlay
  by_cases ha : a < cells.length
  · rw [getElem?_append_left ha]
  have hm : more[a - cells.length]?.join = none := by
    cases hc : more[a - cells.length]? with
    | none => rfl
    | some c => rw [h c (mem_of_getElem? hc)]; rfl
  rw [getElem?_append_right (by omega), hm, getElem?_eq_none (by omega)]
  rfl

theorem overlayAll_none (h : ∀ c ∈ parts.flatten, c = none) : overlayAll parts mem = mem := by
  induction parts generalizing mem with
  | nil => rfl
  | cons p parts ih =>
    rw [flatten_cons, forall_mem_append] at h
    have hp : overlay p mem = mem := by
      have hh : overlay ([] ++ p) mem = overlay [] mem := overlay_append_none h.1
      simpa using hh
    have hpr : overlayAll parts mem = mem := ih h.2
    simpa [overlayAll, hp] using hpr

/-- Parts that set nothing behind the first are one overlay. -/
theorem overlayAll_of_later (h : ∀ c ∈ laterCells parts, c = none) :
    overlayAll parts mem = overlay parts.flatten mem := by
  induction parts with
  | nil => simp [overlayAll]
  | cons p parts ih =>
    cases p with
    | nil => simpa [overlayAll] using ih h
    | cons c p =>
      have hn : ∀ c ∈ parts.flatten, c = none := h
      rw [flatten_cons, overlay_append_none hn]
      exact overlayAll_none hn

/-- A cell keeps its content or gets that of one of the parts. -/
theorem overlayAll_cell (parts : List (List (Option α))) (mem : Nat → α) (a : Nat) :
    overlayAll parts mem a = mem a ∨
      ∃ cells ∈ parts, cells[a]? = some (some (overlayAll parts mem a)) := by
  induction parts generalizing mem with
  | nil => exact Or.inl rfl
  | cons p parts ih =>
    rcases ih (overlay p mem) with h | ⟨cells, hm, hc⟩
    · have ha : overlayAll (p :: parts) mem a = overlay p mem a := h
      cases hp : p[a]?.join with
      | none => exact Or.inl (by simp [ha, overlay, hp])
      | some v =>
        refine Or.inr ⟨p, by simp, ?_⟩
        rw [ha, overlay, hp]
        exact Option.join_eq_some_iff.mp hp
    · exact Or.inr ⟨cells, mem_cons_of_mem p hm, hc⟩

theorem later_none_of_overlayAll [Nontrivial α] {p : List (Option α)} (hp : p ≠ [])
    (h : ∀ mem : Nat → α, overlayAll (p :: parts) mem = overlay (p ++ parts.flatten) mem)
    {a : Nat} (ha : p.length ≤ a) {v : α} : (p ++ parts.flatten)[a]? ≠ some (some v) := by
  intro hcl
  have hlt := (List.getElem?_eq_some_iff.mp hcl).1
  induction hn : (p ++ parts.flatten).length - a using Nat.strongRecOn generalizing a with
  | ind n ih =>
    obtain ⟨w, hw⟩ := exists_ne v
    have heq : overlayAll (p :: parts) (fun _ => w) a = v := by
      rw [h]
      simp [overlay, hcl]
    rcases overlayAll_cell (p :: parts) (fun _ => w) a with hmem | ⟨cells, hm, hc⟩
    · exact hw (hmem.symm.trans heq)
    rw [heq] at hc
    rcases mem_cons.mp hm with rfl | hm
    · have hl := (List.getElem?_eq_some_iff.mp hc).1
      omega
    obtain ⟨before, after, rfl⟩ := append_of_mem hm
    have hpos := length_pos_iff.mpr hp
    have hc' : (p ++ (before ++ cells :: after).flatten)[p.length
        + before.flatten.length + a]? = some (some v) := by
      have hl := (List.getElem?_eq_some_iff.mp hc).1
      rw [flatten_append, flatten_cons, ← append_assoc,
        List.getElem?_append_right (by simp), List.getElem?_append_left (by simp; omega)]
      simpa using hc
    have hlt' := (List.getElem?_eq_some_iff.mp hc').1
    exact ih _ (by omega) (by omega) hc' hlt' rfl

/-- Writing the parts, each from address 0 on, is writing their cells in a row exactly when no
part but the first that is not empty writes anything. -/
theorem overlayAll_eq_iff [Nontrivial α] (parts : List (List (Option α))) :
    (∀ mem : Nat → α, overlayAll parts mem = overlay parts.flatten mem) ↔
      ∀ c ∈ laterCells parts, c = none := by
  constructor
  · intro h
    induction parts with
    | nil => simp [laterCells]
    | cons p parts ih =>
      cases p with
      | nil => exact ih fun mem => by simpa [overlayAll] using h mem
      | cons c p =>
        intro d hd
        cases d with
        | none => rfl
        | some v =>
          obtain ⟨i, hi, hg⟩ := getElem_of_mem hd
          refine absurd ?_ (later_none_of_overlayAll (cons_ne_nil c p) h
            (a := (c :: p).length + i) (by omega) (v := v))
          rw [List.getElem?_append_right (by omega), Nat.add_sub_cancel_left]
          exact List.getElem?_eq_some_iff.mpr ⟨hi, hg⟩
  · exact fun h mem => overlayAll_of_later h

variable {front back : List (List (Option α))}

theorem laterCells_append (h : ∃ p ∈ front, p ≠ []) :
    laterCells (front ++ back) = laterCells front ++ back.flatten := by
  induction front with
  | nil => simp at h
  | cons p front ih =>
    cases p with
    | nil =>
      have hr : ∃ p ∈ front, p ≠ [] := by simpa using h
      exact ih hr
    | cons c p => simp [laterCells]

theorem laterCells_empty_append (h : ∀ p ∈ front, p = []) :
    laterCells (front ++ back) = laterCells back := by
  induction front with
  | nil => rfl
  | cons p front ih =>
    rw [forall_mem_cons] at h
    rw [h.1]
    exact ih h.2

theorem laterCells_append_nil (parts : List (List (Option α))) :
    laterCells (parts ++ [[]]) = laterCells parts := by
  induction parts with
  | nil => rfl
  | cons p parts ih =>
    cases p with
    | nil => exact ih
    | cons c p => simp [laterCells]

end AdbFastboot
