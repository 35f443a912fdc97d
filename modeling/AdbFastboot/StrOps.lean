import Mathlib.Data.List.Infix

namespace AdbFastboot

open List

/-- `char::is_whitespace`: the characters with the property White_Space. -/
def isWhitespace (c : Char) : Bool :=
  let n := c.toNat
  (0x09 ≤ n && n ≤ 0x0D) || n == 0x20 || n == 0x85 || n == 0xA0 || n == 0x1680
    || (0x2000 ≤ n && n ≤ 0x200A) || n == 0x2028 || n == 0x2029 || n == 0x202F || n == 0x205F
    || n == 0x3000

def trimMatches (p : Char → Bool) (text : List Char) : List Char :=
  ((text.dropWhile p).reverse.dropWhile p).reverse

def strTrim (text : List Char) : List Char := trimMatches isWhitespace text

section

variable {p : Char → Bool} {text : List Char}

theorem dropWhile_eq_self (h : ∀ c ∈ text, p c = false) : text.dropWhile p = text := by
  cases text with
  | nil => rfl
  | cons c text => rw [dropWhile_cons_of_neg (by simp [h c mem_cons_self])]

theorem trimMatches_eq_self (h : ∀ c ∈ text, p c = false) : trimMatches p text = text := by
  have hr : ∀ c ∈ text.reverse, p c = false := fun c hc => h c (mem_reverse.mp hc)
  rw [trimMatches, dropWhile_eq_self h, dropWhile_eq_self hr, reverse_reverse]

theorem trimMatches_concat {c : Char} (hne : text ≠ []) (hc : p c = true)
    (h : ∀ c ∈ text, p c = false) : trimMatches p (text ++ [c]) = text := by
  have hr : ∀ c ∈ text.reverse, p c = false := fun c hc => h c (mem_reverse.mp hc)
  have hf : (text ++ [c]).dropWhile p = text ++ [c] := by
    cases text with
    | nil => exact absurd rfl hne
    | cons d text =>
      rw [cons_append, dropWhile_cons_of_neg (by simp [h d mem_cons_self])]
  rw [trimMatches, hf, reverse_append, reverse_singleton, singleton_append,
    dropWhile_cons_of_pos hc, dropWhile_eq_self hr, reverse_reverse]

end

def strContains (needle text : List Char) : Bool := text.tails.any needle.isPrefixOf

theorem strContains_append (front needle back : List Char) :
    strContains needle (front ++ needle ++ back) = true := by
  refine any_eq_true.mpr ⟨needle ++ back, ?_, ?_⟩
  · exact (mem_tails _ _).mpr ⟨front, (append_assoc _ _ _).symm⟩
  · exact isPrefixOf_iff_prefix.mpr ⟨back, rfl⟩

def strFind (needle text : List Char) : Option Nat := text.tails.findIdx? needle.isPrefixOf

def splitOnce (sep : Char) : List Char → Option (List Char × List Char)
  | [] => none
  | c :: text =>
    if c = sep then some ([], text)
    else (splitOnce sep text).map fun (before, after) => (c :: before, after)

section

variable {sep : Char}

theorem splitOnce_eq_none {text : List Char} : splitOnce sep text = none ↔ sep ∉ text := by
  induction text with
  | nil => simp [splitOnce]
  | cons c text ih =>
    unfold splitOnce
    split
    next h => simp [h]
    next h => simp [ih, Ne.symm h]

theorem splitOnce_append {before : List Char} (h : sep ∉ before) (after : List Char) :
    splitOnce sep (before ++ sep :: after) = some (before, after) := by
  induction before with
  | nil => simp [splitOnce]
  | cons c before ih =>
    have hc : c ≠ sep := fun hc => h (hc ▸ mem_cons_self)
    have hb : sep ∉ before := fun hm => h (mem_cons_of_mem c hm)
    rw [cons_append, splitOnce, if_neg hc, ih hb]
    rfl

/-- The split is at the first separator. -/
theorem splitOnce_eq_some {text before after : List Char} (h : splitOnce sep text = some (before, after)) :
    text = before ++ sep :: after ∧ sep ∉ before := by
  induction text generalizing before with
  | nil => cases h
  | cons c text ih =>
    unfold splitOnce at h
    split at h
    next hc =>
      cases h
      exact ⟨by rw [hc]; rfl, not_mem_nil⟩
    next hc =>
      obtain ⟨⟨front, back⟩, hs, heq⟩ := Option.map_eq_some_iff.mp h
      cases heq
      obtain ⟨ht, hf⟩ := ih hs
      refine ⟨by rw [ht]; rfl, ?_⟩
      intro hm
      rcases mem_cons.mp hm with hm | hm
      · exact hc hm.symm
      · exact hf hm

end

def stripReturn (line : List Char) : List Char :=
  if line.getLast? = some '\r' then line.dropLast else line

/-- `str::lines`: what stands before each newline, and what stands after the last one. -/
def strLines (text : List Char) : List (List Char) :=
  let pieces := text.splitOn '\n'
  let last := pieces.getLastD []
  pieces.dropLast.map stripReturn ++ if last = [] then [] else [last]

/-- `trim_start_matches`, for a text that is not empty: as often as it stands in front. -/
def trimStartMatches (pattern : List Char) : Nat → List Char → List Char
  | 0, text => text
  | fuel + 1, text =>
    if pattern.isPrefixOf text then trimStartMatches pattern fuel (text.drop pattern.length)
    else text

/-- `trim_end_matches`, for a text that is not empty: as often as it stands at the end. -/
def trimEndMatches (pattern text : List Char) : List Char :=
  (trimStartMatches pattern.reverse text.length text.reverse).reverse

end AdbFastboot
