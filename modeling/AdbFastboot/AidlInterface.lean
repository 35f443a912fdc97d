import Mathlib

namespace AdbFastboot.AidlInterface

open List

/-- The id of a method whose literal is `n`, which is cast to `u32`. -/
def parseId (n : Nat) : Nat := n % 2 ^ 32

/-- The `tx_id` of each method, as `generate_interface` counts them. -/
def txIds : Nat → List (Option Nat) → List Nat
  | _, [] => []
  | autoId, some id :: methods => id :: txIds autoId methods
  | autoId, none :: methods => autoId :: txIds ((autoId + 1) % 2 ^ 32) methods

def firstCallTransaction : Nat := 1

/-- The transaction codes of the methods with these literals. A code over `u32` does not compile. -/
def codes (literals : List (Option Nat)) : List Nat :=
  (txIds 0 (literals.map (Option.map parseId))).map (firstCallTransaction + ·)

variable {autoId : Nat} {ms literals : List (Option Nat)}

theorem txIds_length : (txIds autoId ms).length = ms.length := by
  induction autoId, ms using txIds.induct <;> simp_all [txIds]

/-- A method with an id of its own keeps it. -/
theorem getElem?_txIds {i id : Nat} (hi : ms[i]? = some (some id)) :
    (txIds autoId ms)[i]? = some id := by
  induction autoId, ms using txIds.induct generalizing i <;> cases i <;> simp_all [txIds]

/-- While the counter does not overflow, the ids are the explicit ones and a range. -/
theorem txIds_perm (hc : autoId + ms.count none < 2 ^ 32) :
    txIds autoId ms ~ ms.reduceOption ++ range' autoId (ms.count none) := by
  induction autoId, ms using txIds.induct with
  | case1 => exact .nil
  | case2 autoId id ms ih => simpa [txIds] using ih (by simpa using hc)
  | case3 autoId ms ih =>
    rw [count_cons_self] at hc ⊢
    rw [txIds, reduceOption_cons_of_none, range'_succ]
    rw [Nat.mod_eq_of_lt (by omega)] at ih ⊢
    exact ((ih (by omega)).cons autoId).trans perm_middle.symm

theorem codes_eq (hl : ∀ n, some n ∈ literals → n + 1 < 2 ^ 32) :
    codes literals = (txIds 0 literals).map (firstCallTransaction + ·) := by
  have hm : literals.map (Option.map parseId) = literals.map id := by
    refine map_congr_left ?_
    rintro (_ | n) hm
    · rfl
    · have := hl n hm
      exact congrArg some (Nat.mod_eq_of_lt (by omega))
  rw [codes, hm, map_id]

/-- There are fewer than `2 ^ 32` distinct codes of type `u32`. -/
theorem count_lt_of_nodup (hd : (codes literals).Nodup) (hu : ∀ c ∈ codes literals, c < 2 ^ 32) :
    literals.count none < 2 ^ 32 := by
  have hs : txIds 0 (literals.map (Option.map parseId)) ⊆ range (2 ^ 32 - 1) := by
    intro id hm
    have := hu _ (mem_map_of_mem hm)
    rw [firstCallTransaction] at this
    exact mem_range.mpr (by omega)
  have hk := (hd.of_map.subperm hs).length_le
  rw [txIds_length, length_map, length_range] at hk
  exact Nat.lt_of_le_of_lt (Nat.le_trans count_le_length hk) (by decide)

/-- The codes are distinct and as written exactly if every literal fits and is at least the number
of methods without one. -/
theorem codes_distinct_iff (literals : List (Option Nat)) (hn : literals.reduceOption.Nodup) :
    ((codes literals).Nodup ∧ (∀ c ∈ codes literals, c < 2 ^ 32) ∧
        ∀ (i n : Nat), literals[i]? = some (some n) →
          (codes literals)[i]? = some (firstCallTransaction + n)) ↔
      literals.count none < 2 ^ 32 ∧
        ∀ n, some n ∈ literals → literals.count none ≤ n ∧ n + 1 < 2 ^ 32 := by
  have hp (hc : literals.count none < 2 ^ 32) : txIds 0 literals ~ _ := txIds_perm (by omega)
  constructor
  · rintro ⟨hd, hu, hk⟩
    have hc := count_lt_of_nodup hd hu
    have hl : ∀ n, some n ∈ literals → n + 1 < 2 ^ 32 := by
      intro n hm
      obtain ⟨i, hi⟩ := mem_iff_getElem?.mp hm
      have := hu _ (mem_of_getElem? (hk i n hi))
      rwa [firstCallTransaction, Nat.add_comm] at this
    rw [codes_eq hl] at hd
    have hd := nodup_append.mp ((hp hc).nodup_iff.mp hd.of_map)
    refine ⟨hc, fun n hm => ⟨?_, hl n hm⟩⟩
    by_contra hlt
    exact hd.2.2 n (reduceOption_mem_iff.mpr hm) n (mem_range'_1.mpr (by omega)) rfl
  · rintro ⟨hc, hl⟩
    have hp := hp hc
    rw [codes_eq fun n hm => (hl n hm).2]
    refine ⟨.map (fun _ _ => Nat.add_left_cancel) (hp.nodup_iff.mpr ?_), fun c hm => ?_,
      fun i n hi => by simp [getElem?_txIds hi]⟩
    · refine nodup_append.mpr ⟨hn, nodup_range', ?_⟩
      rintro n hm _ hr rfl
      have := (hl n (reduceOption_mem_iff.mp hm)).1
      have := mem_range'_1.mp hr
      omega
    · obtain ⟨id, hid, rfl⟩ := mem_map.mp hm
      rw [firstCallTransaction]
      rcases mem_append.mp (hp.mem_iff.mp hid) with he | hr
      · have := (hl id (reduceOption_mem_iff.mp he)).2
        omega
      · have := mem_range'_1.mp hr
        omega

theorem codes_distinct_two : (codes [some 1, none]).Nodup :=
  ((codes_distinct_iff [some 1, none] (by decide)).mpr (by simp)).1

/-- The first automatic id is the explicit one. -/
theorem codes_collide : ¬(codes [none, some 0]).Nodup := by decide

end AdbFastboot.AidlInterface
