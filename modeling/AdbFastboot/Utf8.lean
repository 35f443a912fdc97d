import AdbFastboot.Bytes

namespace AdbFastboot

open List

/-- The ranges of the bytes that follow a lead byte, or `none` if no sequence starts with it. -/
def utf8Tail (lead : Nat) : Option (List (Nat × Nat)) :=
  if lead < 0x80 then some []
  else if lead < 0xC2 then none
  else if lead < 0xE0 then some [(0x80, 0xBF)]
  else if lead = 0xE0 then some [(0xA0, 0xBF), (0x80, 0xBF)]
  else if lead = 0xED then some [(0x80, 0x9F), (0x80, 0xBF)]
  else if lead < 0xF0 then some [(0x80, 0xBF), (0x80, 0xBF)]
  else if lead = 0xF0 then some [(0x90, 0xBF), (0x80, 0xBF), (0x80, 0xBF)]
  else if lead < 0xF4 then some [(0x80, 0xBF), (0x80, 0xBF), (0x80, 0xBF)]
  else if lead = 0xF4 then some [(0x80, 0x8F), (0x80, 0xBF), (0x80, 0xBF)]
  else none

/-- How many of the ranges the first bytes lie in, one after the other. -/
def tailMatch : List (Nat × Nat) → Bytes → Nat
  | [], _ => 0
  | _, [] => 0
  | (lo, hi) :: ranges, b :: bs =>
    if lo ≤ b.toNat ∧ b.toNat ≤ hi then tailMatch ranges bs + 1 else 0

def leadBits (lead n : Nat) : Nat :=
  match n with
  | 0 => lead
  | 1 => lead % 0x20
  | 2 => lead % 0x10
  | _ => lead % 0x08

/-- The first character of `lead :: bs`, or `none` if it is malformed, and how many bytes of `bs`
belong to it. -/
def utf8Next (lead : UInt8) (bs : Bytes) : Option Char × Nat :=
  match utf8Tail lead.toNat with
  | none => (none, 0)
  | some ranges =>
    let n := tailMatch ranges bs
    if n = ranges.length then
      (some (Char.ofNat ((bs.take n).foldl (fun v b => v * 64 + b.toNat % 64)
        (leadBits lead.toNat n))), n)
    else (none, n)

/-- Decoding after `skip` bytes, with a replacement character for each malformed sequence. -/
def utf8LossyAfter : Nat → Bytes → List Char
  | _, [] => []
  | skip + 1, _ :: bs => utf8LossyAfter skip bs
  | 0, b :: bs => (utf8Next b bs).1.getD '�' :: utf8LossyAfter (utf8Next b bs).2 bs

/-- Decoding after `skip` bytes, or `none` if a sequence is malformed. -/
def utf8StrictAfter : Nat → Bytes → Option (List Char)
  | _, [] => some []
  | skip + 1, _ :: bs => utf8StrictAfter skip bs
  | 0, b :: bs => do
    let c ← (utf8Next b bs).1
    let cs ← utf8StrictAfter (utf8Next b bs).2 bs
    pure (c :: cs)

def fromUtf8Lossy (bs : Bytes) : String := String.ofList (utf8LossyAfter 0 bs)

def fromUtf8 (bs : Bytes) : Option String := (utf8StrictAfter 0 bs).map String.ofList

def utf8Bytes (s : String) : Bytes := s.toList.flatMap String.utf8EncodeChar

theorem utf8LossyAfter_eq_drop (skip : Nat) (bs : Bytes) :
    utf8LossyAfter skip bs = utf8LossyAfter 0 (bs.drop skip) := by
  induction bs generalizing skip with
  | nil => simp [utf8LossyAfter]
  | cons b bs ih =>
    cases skip with
    | zero => rfl
    | succ skip => simpa [utf8LossyAfter] using ih skip

theorem utf8LossyAfter_cons (b : UInt8) (bs : Bytes) :
    utf8LossyAfter 0 (b :: bs) = (utf8Next b bs).1.getD '�'
      :: utf8LossyAfter 0 (bs.drop (utf8Next b bs).2) := by
  rw [utf8LossyAfter, utf8LossyAfter_eq_drop]

variable {ranges : List (Nat × Nat)}

theorem utf8Tail_ge {lead : Nat} (h : utf8Tail lead = some ranges) : ∀ r ∈ ranges, 0x80 ≤ r.1 := by
  unfold utf8Tail at h
  repeat' split at h
  all_goals first | (cases h; simp) | simp at h

theorem tailMatch_le (ranges : List (Nat × Nat)) (bs : Bytes) : tailMatch ranges bs ≤ bs.length := by
  induction ranges generalizing bs with
  | nil => simp [tailMatch]
  | cons r ranges ih =>
    cases bs with
    | nil => simp [tailMatch]
    | cons b bs =>
      have hh := ih bs
      rw [tailMatch]
      split <;> simp only [length_cons] <;> omega

variable {x : UInt8} {bs : Bytes}

/-- An ASCII byte continues no character. -/
theorem tailMatch_append_ascii (hr : ∀ r ∈ ranges, 0x80 ≤ r.1) (hx : x.toNat < 0x80)
    (bs rest : Bytes) : tailMatch ranges (bs ++ x :: rest) = tailMatch ranges bs := by
  induction ranges generalizing bs with
  | nil => simp [tailMatch]
  | cons r ranges ih =>
    rw [forall_mem_cons] at hr
    cases bs with
    | nil =>
      have hlt : ¬(r.1 ≤ x.toNat ∧ x.toNat ≤ r.2) := by omega
      simp [tailMatch, hlt]
    | cons b bs => simp [tailMatch, ih hr.2 bs]

theorem utf8Next_append_ascii (b : UInt8) (hx : x.toNat < 0x80) (bs rest : Bytes) :
    utf8Next b (bs ++ x :: rest) = utf8Next b bs ∧ (utf8Next b bs).2 ≤ bs.length := by
  unfold utf8Next
  split
  next => simp
  next ranges hr =>
    have hm := tailMatch_append_ascii (utf8Tail_ge hr) hx bs rest
    have hle := tailMatch_le ranges bs
    simp only [hm, take_append_of_le_length hle, true_and]
    split <;> exact hle

/-- Text can be cut before an ASCII byte. -/
theorem utf8Lossy_append_ascii (hx : x.toNat < 0x80) (bs rest : Bytes) :
    utf8LossyAfter 0 (bs ++ x :: rest) = utf8LossyAfter 0 bs ++ utf8LossyAfter 0 (x :: rest) := by
  induction hn : bs.length using Nat.strongRecOn generalizing bs with
  | ind n ih =>
    cases bs with
    | nil => simp [utf8LossyAfter]
    | cons b bs =>
      obtain ⟨hnx, hle⟩ := utf8Next_append_ascii b hx bs rest
      have hd : (bs ++ x :: rest).drop (utf8Next b bs).2
          = bs.drop (utf8Next b bs).2 ++ x :: rest := drop_append_of_le_length hle
      have ht := ih (bs.drop (utf8Next b bs).2).length
        (by simp only [length_drop, length_cons] at hn ⊢; omega) _ rfl
      rw [cons_append, utf8LossyAfter_cons, utf8LossyAfter_cons, hnx, hd, ht, cons_append]

theorem fromUtf8Lossy_append_ascii_ne (hx : x.toNat < 0x80) (bs rest : Bytes) :
    fromUtf8Lossy bs ≠ fromUtf8Lossy (bs ++ x :: rest) := by
  intro h
  have hl := String.ofList_injective h
  rw [utf8Lossy_append_ascii hx] at hl
  have hn := self_eq_append_right.mp hl
  simp [utf8LossyAfter] at hn

/-- A lead with all its tail bytes is a character. -/
theorem utf8Next_of_match {lead : UInt8} {tail : Bytes} {c : Char}
    (hr : utf8Tail lead.toNat = some ranges) (hl : tail.length = ranges.length)
    (hm : ∀ rest, tailMatch ranges (tail ++ rest) = ranges.length)
    (hv : tail.foldl (fun v b => v * 64 + b.toNat % 64) (leadBits lead.toNat tail.length)
      = c.toNat) (rest : Bytes) : utf8Next lead (tail ++ rest) = (some c, tail.length) := by
  have ht : (tail ++ rest).take tail.length = tail := take_left
  simp [utf8Next, hr, hm rest, ← hl, ht, hv, Char.ofNat_toNat]

theorem byte_toNat {n : Nat} (h : n < 256) : (UInt8.ofNat n).toNat = n := by
  rw [UInt8.toNat_ofNat', Nat.mod_eq_of_lt h]

theorem utf8Tail_three {v : Nat} (h : 0x7FF < v) (hle : v ≤ 0xFFFF) (hv : v < 0xD800 ∨ 0xDFFF < v) :
    ∃ lo hi, utf8Tail (v / 4096 % 0x10 + 0xE0) = some [(lo, hi), (0x80, 0xBF)] ∧
      lo ≤ v / 64 % 0x40 + 0x80 ∧ v / 64 % 0x40 + 0x80 ≤ hi := by
  unfold utf8Tail
  rw [if_neg (by omega), if_neg (by omega), if_neg (by omega)]
  by_cases h0 : v / 4096 % 0x10 + 0xE0 = 0xE0
  · exact ⟨0xA0, 0xBF, by rw [if_pos h0], by omega, by omega⟩
  rw [if_neg h0]
  by_cases hd : v / 4096 % 0x10 + 0xE0 = 0xED
  · exact ⟨0x80, 0x9F, by rw [if_pos hd], by omega, by omega⟩
  · exact ⟨0x80, 0xBF, by rw [if_neg hd, if_pos (by omega)], by omega, by omega⟩

theorem utf8Tail_four {v : Nat} (h : 0xFFFF < v) (hlt : v < 0x110000) :
    ∃ lo hi, utf8Tail (v / 262144 % 0x08 + 0xF0) = some [(lo, hi), (0x80, 0xBF), (0x80, 0xBF)] ∧
      lo ≤ v / 4096 % 0x40 + 0x80 ∧ v / 4096 % 0x40 + 0x80 ≤ hi := by
  unfold utf8Tail
  rw [if_neg (by omega), if_neg (by omega), if_neg (by omega), if_neg (by omega),
    if_neg (by omega), if_neg (by omega)]
  by_cases h0 : v / 262144 % 0x08 + 0xF0 = 0xF0
  · exact ⟨0x90, 0xBF, by rw [if_pos h0], by omega, by omega⟩
  rw [if_neg h0]
  by_cases h4 : v / 262144 % 0x08 + 0xF0 < 0xF4
  · exact ⟨0x80, 0xBF, by rw [if_pos h4], by omega, by omega⟩
  · exact ⟨0x80, 0x8F, by rw [if_neg h4, if_pos (by omega)], by omega, by omega⟩

/-- An encoded character is decoded whatever follows. -/
theorem utf8Next_encode (c : Char) : ∃ lead tail, String.utf8EncodeChar c = lead :: tail ∧
      ∀ rest, utf8Next lead (tail ++ rest) = (some c, tail.length) := by
  have hv : c.toNat < 0xD800 ∨ 0xDFFF < c.toNat ∧ c.toNat < 0x110000 := c.valid
  unfold String.utf8EncodeChar
  simp only [show c.val.toNat = c.toNat from rfl]
  generalize hc : c.toNat = v at hv
  split
  next h1 =>
    have hl := byte_toNat (show v < 256 by omega)
    have hr : utf8Tail (UInt8.ofNat v).toNat = some [] := by
      rw [hl, utf8Tail, if_pos (by omega)]
    refine ⟨_, _, rfl, utf8Next_of_match hr rfl (fun _ => rfl) ?_⟩
    simp [leadBits, hl, hc]
  next h1 =>
    split
    next h2 =>
      have hl := byte_toNat (show v / 64 % 0x20 + 0xC0 < 256 by omega)
      have hb := byte_toNat (show v % 0x40 + 0x80 < 256 by omega)
      have hr : utf8Tail (UInt8.ofNat (v / 64 % 0x20 + 0xC0)).toNat = some [(0x80, 0xBF)] := by
        rw [hl, utf8Tail, if_neg (by omega), if_neg (by omega), if_pos (by omega)]
      refine ⟨_, _, rfl, utf8Next_of_match hr rfl ?_ ?_⟩
      · intro rest
        simp only [cons_append, tailMatch, hb]
        rw [if_pos (by omega)]
        rfl
      · simp only [foldl_cons, foldl_nil, length_cons, length_nil, leadBits, hl, hb, hc]
        omega
    next h2 =>
      split
      next h3 =>
        have hl := byte_toNat (show v / 4096 % 0x10 + 0xE0 < 256 by omega)
        have hb := byte_toNat (show v / 64 % 0x40 + 0x80 < 256 by omega)
        have hb' := byte_toNat (show v % 0x40 + 0x80 < 256 by omega)
        obtain ⟨lo, hi, hr, hlo, hh⟩ := utf8Tail_three (by omega) h3 (by omega)
        rw [← hl] at hr
        refine ⟨_, _, rfl, utf8Next_of_match hr rfl ?_ ?_⟩
        · intro rest
          simp only [cons_append, tailMatch, hb, hb']
          rw [if_pos ⟨hlo, hh⟩, if_pos (by omega)]
          rfl
        · simp only [foldl_cons, foldl_nil, length_cons, length_nil, leadBits, hl, hb, hb', hc]
          omega
      next h3 =>
        have hl := byte_toNat (show v / 262144 % 0x08 + 0xF0 < 256 by omega)
        have hb := byte_toNat (show v / 4096 % 0x40 + 0x80 < 256 by omega)
        have hb' := byte_toNat (show v / 64 % 0x40 + 0x80 < 256 by omega)
        have hb'' := byte_toNat (show v % 0x40 + 0x80 < 256 by omega)
        obtain ⟨lo, hi, hr, hlo, hh⟩ := utf8Tail_four (show 0xFFFF < v by omega) (by omega)
        rw [← hl] at hr
        refine ⟨_, _, rfl, utf8Next_of_match hr rfl ?_ ?_⟩
        · intro rest
          simp only [cons_append, tailMatch, hb, hb', hb'']
          rw [if_pos ⟨hlo, hh⟩, if_pos (by omega), if_pos (by omega)]
          rfl
        · simp only [foldl_cons, foldl_nil, length_cons, length_nil, leadBits, hl, hb, hb', hb'', hc]
          omega

/-- Encoded characters are decoded one by one. -/
theorem utf8Lossy_encode (cs : List Char) (rest : Bytes) :
    utf8LossyAfter 0 (cs.flatMap String.utf8EncodeChar ++ rest) = cs ++ utf8LossyAfter 0 rest := by
  induction cs with
  | nil => rfl
  | cons c cs ih =>
    obtain ⟨lead, tail, he, hn⟩ := utf8Next_encode c
    rw [flatMap_cons, he, cons_append, cons_append, append_assoc,
      utf8LossyAfter_cons, hn, drop_left, ih]
    rfl

/-- A text is decoded to itself. -/
@[simp] theorem fromUtf8Lossy_utf8Bytes (s : String) : fromUtf8Lossy (utf8Bytes s) = s := by
  have h := utf8Lossy_encode s.toList []
  simp only [append_nil, utf8LossyAfter] at h
  rw [fromUtf8Lossy, utf8Bytes, h, String.ofList_toList]

theorem utf8StrictAfter_eq_drop (skip : Nat) (bs : Bytes) :
    utf8StrictAfter skip bs = utf8StrictAfter 0 (bs.drop skip) := by
  induction bs generalizing skip with
  | nil => simp [utf8StrictAfter]
  | cons b bs ih =>
    cases skip with
    | zero => rfl
    | succ skip => simpa [utf8StrictAfter] using ih skip

theorem utf8Strict_encode (cs : List Char) :
    utf8StrictAfter 0 (cs.flatMap String.utf8EncodeChar) = some cs := by
  induction cs with
  | nil => rfl
  | cons c cs ih =>
    obtain ⟨lead, tail, he, hn⟩ := utf8Next_encode c
    rw [flatMap_cons, he, cons_append, utf8StrictAfter, hn, utf8StrictAfter_eq_drop, drop_left, ih]
    rfl

/-- An encoded text is valid, and is decoded to itself. -/
@[simp] theorem fromUtf8_utf8Bytes (s : String) : fromUtf8 (utf8Bytes s) = some s := by
  rw [fromUtf8, utf8Bytes, utf8Strict_encode, Option.map_some, String.ofList_toList]

theorem utf8EncodeChar_ascii {c : Char} (h : c.toNat < 0x80) :
    String.utf8EncodeChar c = [UInt8.ofNat c.toNat] := by
  unfold String.utf8EncodeChar
  simp only [show c.val.toNat = c.toNat from rfl]
  rw [if_pos (by omega)]

theorem utf8Bytes_ascii {cs : List Char} (h : ∀ c ∈ cs, c.toNat < 0x80) :
    utf8Bytes (String.ofList cs) = cs.map fun c => UInt8.ofNat c.toNat := by
  rw [utf8Bytes, String.toList_ofList]
  induction cs with
  | nil => rfl
  | cons c cs ih =>
    rw [forall_mem_cons] at h
    rw [flatMap_cons, utf8EncodeChar_ascii h.1, ih h.2]
    rfl

theorem char_ofNat_toNat {n : Nat} (h : n < 0xD800) : (Char.ofNat n).toNat = n := by
  rw [Char.ofNat, dif_pos (Or.inl h)]
  rfl

theorem utf8Next_ascii {b : UInt8} (h : b.toNat < 0x80) (bs : Bytes) :
    utf8Next b bs = (some (Char.ofNat b.toNat), 0) := by
  simp [utf8Next, utf8Tail, h, tailMatch, leadBits]

theorem fromUtf8_ascii (h : ∀ b ∈ bs, b.toNat < 0x80) :
    fromUtf8 bs = some (String.ofList (bs.map fun b => Char.ofNat b.toNat)) := by
  have hs : utf8StrictAfter 0 bs = some (bs.map fun b => Char.ofNat b.toNat) := by
    induction bs with
    | nil => rfl
    | cons b bs ih =>
      rw [forall_mem_cons] at h
      simp [utf8StrictAfter, utf8Next_ascii h.1, ih h.2]
  rw [fromUtf8, hs]
  rfl

end AdbFastboot
