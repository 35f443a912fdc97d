import AdbFastboot.Utf8

namespace AdbFastboot

open List

def IsTailByte (b : UInt8) : Prop := 0x80 ≤ b.toNat ∧ b.toNat < 0xC0

theorem utf8Next_tailByte {b : UInt8} (h : IsTailByte b) (bs : Bytes) : utf8Next b bs = (none, 0) := by
  obtain ⟨hl, hh⟩ := h
  have ht : utf8Tail b.toNat = none := by
    rw [utf8Tail, if_neg (by omega), if_pos (by omega)]
  rw [utf8Next, ht]

/-- Each stray tail byte becomes a replacement character. -/
theorem utf8Lossy_tailBytes {front : Bytes} (h : ∀ b ∈ front, IsTailByte b) (rest : Bytes) :
    utf8LossyAfter 0 (front ++ rest) = List.replicate front.length '�' ++ utf8LossyAfter 0 rest := by
  induction front with
  | nil => rfl
  | cons b front ih =>
    rw [forall_mem_cons] at h
    rw [cons_append, utf8LossyAfter_cons, utf8Next_tailByte h.1, drop_zero, ih h.2,
      length_cons, replicate_succ]
    rfl

theorem tailMatch_take {ranges : List (Nat × Nat)} {bs : Bytes}
    (h : tailMatch ranges bs = bs.length) (n : Nat) :
    tailMatch ranges (bs.take n) = (bs.take n).length := by
  induction bs generalizing ranges n with
  | nil => cases ranges <;> simp [tailMatch]
  | cons b bs ih =>
    cases n with
    | zero => cases ranges <;> simp [tailMatch]
    | succ n =>
      cases ranges with
      | nil => simp [tailMatch] at h
      | cons range ranges =>
        rw [tailMatch] at h
        split at h
        next hi =>
          rw [length_cons, Nat.add_right_cancel_iff] at h
          rw [take_succ_cons, tailMatch, if_pos hi, ih h, length_cons]
        next => simp at h

theorem utf8EncodeChar_shape (c : Char) :
    ∃ lead tail, String.utf8EncodeChar c = lead :: tail ∧ tail.length ≤ 3 ∧
      ∀ b ∈ tail, IsTailByte b := by
  have hb (n : Nat) : IsTailByte (UInt8.ofNat (n % 0x40 + 0x80)) := by
    rw [IsTailByte, byte_toNat (by omega)]
    omega
  have hn : ∀ b ∈ ([] : Bytes), IsTailByte b := forall_mem_nil _
  unfold String.utf8EncodeChar
  dsimp only
  split
  next => exact ⟨_, [], rfl, Nat.zero_le _, hn⟩
  split
  next => exact ⟨_, _, rfl, by simp, forall_mem_cons.mpr ⟨hb _, hn⟩⟩
  split
  next =>
    exact ⟨_, _, rfl, by simp, forall_mem_cons.mpr ⟨hb _, forall_mem_cons.mpr ⟨hb _, hn⟩⟩⟩
  exact ⟨_, _, rfl, by simp, forall_mem_cons.mpr ⟨hb _,
    forall_mem_cons.mpr ⟨hb _, forall_mem_cons.mpr ⟨hb _, hn⟩⟩⟩⟩

/-- What is left of a cut character is at most one replacement. -/
theorem utf8Lossy_cut_char (c : Char) {n : Nat} (h : n < (String.utf8EncodeChar c).length) :
    (utf8LossyAfter 0 ((String.utf8EncodeChar c).take n)).length ≤ 1 := by
  obtain ⟨lead, tail, he, hn⟩ := utf8Next_encode c
  cases n with
  | zero => simp [utf8LossyAfter]
  | succ n =>
    have hw := hn []
    rw [append_nil] at hw
    have hs : (utf8Next lead (tail.take n)).2 = (tail.take n).length := by
      unfold utf8Next at hw ⊢
      split at hw
      next => cases hw
      next ranges hr =>
        have hm : tailMatch ranges tail = tail.length := by
          dsimp only at hw
          split at hw
          next => exact (Prod.mk.inj hw).2
          next => cases (Prod.mk.inj hw).1
        dsimp only
        split
        next => exact tailMatch_take hm n
        next => exact tailMatch_take hm n
    rw [he, take_succ_cons, utf8LossyAfter_cons, hs, drop_length]
    simp [utf8LossyAfter]

variable (cs : List Char)

theorem utf8Lossy_cut_length (n : Nat) :
    (utf8LossyAfter 0 ((cs.flatMap String.utf8EncodeChar).take n)).length ≤ cs.length := by
  induction cs generalizing n with
  | nil => simp [utf8LossyAfter]
  | cons c cs ih =>
    rw [flatMap_cons, length_cons]
    by_cases hn : n < (String.utf8EncodeChar c).length
    · rw [take_append_of_le_length (Nat.le_of_lt hn)]
      exact Nat.le_trans (utf8Lossy_cut_char c hn) (Nat.le_add_left 1 _)
    have ho := utf8Lossy_encode [c]
      ((cs.flatMap String.utf8EncodeChar).take (n - (String.utf8EncodeChar c).length))
    rw [flatMap_cons, flatMap_nil, append_nil] at ho
    rw [take_append, take_of_length_le (Nat.not_lt.mp hn), ho]
    simpa using ih _

/-- A text cut anywhere starts with at most three tail bytes. -/
theorem drop_encode {a : Nat} (ha : a ≤ (cs.flatMap String.utf8EncodeChar).length) :
    ∃ q front, q ≤ cs.length ∧ front.length ≤ 3 ∧ (∀ b ∈ front, IsTailByte b) ∧
      (cs.flatMap String.utf8EncodeChar).drop a = front ++ (cs.drop q).flatMap String.utf8EncodeChar ∧
      a + front.length = ((cs.take q).flatMap String.utf8EncodeChar).length := by
  induction cs generalizing a with
  | nil => exact ⟨0, [], by simp, by simp, by simp, by simp, by simpa using ha⟩
  | cons c cs ih =>
    rcases Nat.eq_zero_or_pos a with rfl | hp
    · exact ⟨0, [], by simp, by simp, by simp, by simp, by simp⟩
    rw [flatMap_cons, length_append] at ha
    by_cases hi : a ≤ (String.utf8EncodeChar c).length
    · obtain ⟨lead, tail, he, hl, ht⟩ := utf8EncodeChar_shape c
      obtain ⟨a, rfl⟩ : ∃ k, a = k + 1 := ⟨a - 1, by omega⟩
      refine ⟨1, (String.utf8EncodeChar c).drop (a + 1), by simp, ?_, ?_, ?_, ?_⟩
      · rw [he, drop_succ_cons, length_drop]
        omega
      · intro b hb
        rw [he, drop_succ_cons] at hb
        exact ht b (mem_of_mem_drop hb)
      · rw [flatMap_cons, drop_append_of_le_length hi]
        rfl
      · simp only [take_succ_cons, take_zero, flatMap_cons, flatMap_nil, append_nil, length_drop]
        omega
    · obtain ⟨q, front, hq, hl, ht, hd, hs⟩ :=
        ih (show a - (String.utf8EncodeChar c).length ≤ _ by omega)
      refine ⟨q + 1, front, by simpa using hq, hl, ht, ?_, ?_⟩
      · rw [flatMap_cons, drop_append, drop_eq_nil_of_le (by omega), nil_append, hd, drop_succ_cons]
      · rw [take_succ_cons, flatMap_cons, length_append, ← hs]
        omega

/-- A part of the bytes of a text that leaves out the first eight does not read as the text.
Replacements make up for characters that are missing, but only for three of them, and these would
have to be replacements themselves. -/
theorem utf8Lossy_region_ne {a : Nat} (ha : 8 ≤ a)
    (hle : a ≤ (cs.flatMap String.utf8EncodeChar).length) (n : Nat) :
    utf8LossyAfter 0 (((cs.flatMap String.utf8EncodeChar).drop a).take n) ≠ cs := by
  intro h
  obtain ⟨q, front, hq, hl, ht, hd, hs⟩ := drop_encode cs hle
  have hcut : ∀ b ∈ front.take n, IsTailByte b := fun b hb => ht b (mem_of_mem_take hb)
  rw [hd, take_append, utf8Lossy_tailBytes hcut] at h
  have hr := utf8Lossy_cut_length (cs.drop q) (n - front.length)
  have hc := congrArg length h
  rw [length_append, length_replicate] at hc
  rw [length_drop] at hr
  have hfew : (front.take n).length ≤ front.length := by
    rw [length_take]
    exact Nat.min_le_right _ _
  have hqle : q ≤ (front.take n).length := by omega
  have hf : cs.take q = replicate q '�' := by
    rw [← h, take_append_of_le_length (by rwa [length_replicate]), take_replicate, Nat.min_eq_left hqle]
  have hbs : ((cs.take q).flatMap String.utf8EncodeChar).length = q * 3 := by
    have ho : (String.utf8EncodeChar '�').length = 3 := rfl
    rw [hf, length_flatMap, map_replicate, ho, sum_replicate_nat]
  omega

end AdbFastboot
