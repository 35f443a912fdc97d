import Mathlib.Algebra.GroupWithZero.Nat
import AdbFastboot.ShellWords

namespace AdbFastboot

open ShellLexer ShellToken ShellPiece List ShellMode

namespace ShellPiece

def char : ShellPiece → Char
  | literal c => c
  | special c => c

/-- The shell leaves the piece as it is, in an argument: a tilde means something in front only, and
what makes an assignment or a reserved word means nothing there. -/
def isInert (first : Bool) : ShellPiece → Bool
  | literal _ => true
  | special c => c == '=' || c == '!' || c == '\x7b' || (c == '~' && !first)

def ofChar (c : Char) : ShellPiece := if isShellSpecial c then special c else literal c

@[simp] theorem char_ofChar (c : Char) : (ofChar c).char = c := by
  unfold ofChar
  split <;> rfl

theorem isInert_ofChar (first : Bool) (c : Char) : (ofChar c).isInert first = true ↔
    isShellDollar c = false ∧ c ≠ '*' ∧ c ≠ '?' ∧ c ≠ '[' ∧ (first = true → c ≠ '~') := by
  unfold ofChar
  split
  next hs =>
    simp only [isShellSpecial, Bool.or_eq_true, beq_iff_eq] at hs
    simp only [isInert, Bool.or_eq_true, Bool.and_eq_true, Bool.not_eq_true', beq_iff_eq]
    constructor
    · rintro (((rfl | rfl) | rfl) | ⟨rfl, rfl⟩)
      all_goals simp [isShellDollar]
    · rintro ⟨hd, hst, hq, hb, ht⟩
      simp only [hd, hst, hq, hb, Bool.false_eq_true, false_or] at hs
      rcases hs with ((rfl | rfl) | rfl) | rfl
      · exact .inr ⟨rfl, by simpa using ht⟩
      · simp
      · simp
      · simp
  next hs =>
    simp only [isShellSpecial, Bool.or_eq_true, beq_iff_eq, not_or, Bool.not_eq_true] at hs
    obtain ⟨⟨⟨⟨⟨⟨⟨hd, hst⟩, hq⟩, hb⟩, ht⟩, -⟩, -⟩, -⟩ := hs
    exact ⟨fun _ => ⟨hd, hst, hq, hb, fun _ => ht⟩, fun _ => rfl⟩

end ShellPiece

def isWordChar (c : Char) : Bool :=
  !(isShellBlank c || isShellOperator c || c == '\'' || c == '"' || c == '\\')

/-- The text of an argument, or `none` where it is no word or the shell may expand it. -/
def ShellToken.argument : ShellToken → Option (List Char)
  | operator _ => none
  | word pieces =>
    if pieces.head?.all (isInert true) && pieces.tail.all (isInert false) then
      some (pieces.map char)
    else none

def ReadsAs (text : List Char) (args : List (List Char)) : Prop :=
  (shellTokens text).map (List.map ShellToken.argument) = some (args.map some)

instance (text : List Char) (args : List (List Char)) : Decidable (ReadsAs text args) :=
  inferInstanceAs (Decidable (_ = _))

def wordsWeight (args : List (List Char)) : Nat := (args.map fun w => w.length + 1).sum

def ShellToken.weight : ShellToken → Nat
  | operator _ => 0
  | word pieces => pieces.length + 1

variable {text : List Char} {pieces : List ShellPiece}

theorem ShellToken.argument_eq_some {token : ShellToken} (h : token.argument = some text) :
    ∃ pieces, token = .word pieces ∧
      text = pieces.map char ∧ pieces.head?.all (isInert true) = true ∧
      pieces.tail.all (isInert false) = true := by
  unfold argument at h
  split at h
  next => cases h
  next pieces =>
    split at h
    next hi =>
      rw [Bool.and_eq_true] at hi
      exact ⟨pieces, rfl, (Option.some.inj h).symm, hi⟩
    next => cases h

/-- The weight of tokens that read as arguments is that of the words. -/
theorem weight_of_arguments {tokens : List ShellToken} {args : List (List Char)}
    (h : tokens.map argument = args.map some) :
    (tokens.map weight).sum = wordsWeight args := by
  induction tokens generalizing args with
  | nil =>
    cases args with
    | nil => rfl
    | cons arg args => cases h
  | cons token tokens ih =>
    cases args with
    | nil => cases h
    | cons arg args =>
      obtain ⟨ht, hr⟩ := cons.inj h
      obtain ⟨pieces, rfl, rfl, -⟩ := argument_eq_some ht
      have hi := ih hr
      simp [wordsWeight, weight, hi]

namespace ShellMode

def pending : ShellMode → Nat
  | outsideEscape => 1
  | escape => 1
  | doubleEscape => 1
  | _ => 0

end ShellMode

namespace ShellLexer

/-- What the characters so far have come to: the pieces, and one for the end of each word. -/
def weight (s : ShellLexer) : Nat :=
  (s.tokens.map ShellToken.weight).sum + s.word.length + s.mode.pending

theorem weight_step_le (s : ShellLexer) (c : Char) : (s.step c).weight ≤ s.weight + 1 := by
  obtain ⟨mode, word, tokens⟩ := s
  cases mode <;> simp only [step, inWord] <;> repeat' split
  all_goals simp [weight, pending, emit, add, ShellToken.weight] <;> omega

/-- A text weighs at most as much as it has characters. -/
theorem weight_run_le (s : ShellLexer) (text : List Char) :
    (s.run text).weight ≤ s.weight + text.length := by
  induction text generalizing s with
  | nil => exact Nat.le_refl _
  | cons c text ih =>
    have hs := weight_step_le s c
    have hr := ih (s.step c)
    rw [run_cons, length_cons]
    omega

def Exact (s : ShellLexer) (text : List Char) : Prop :=
  (s.run text).weight = s.weight + text.length

variable {s : ShellLexer} {c : Char}

theorem Exact.cons {text : List Char} (h : s.Exact (c :: text)) :
    (s.step c).weight = s.weight + 1 ∧ (s.step c).Exact text := by
  have hs := weight_step_le s c
  have hr := weight_run_le (s.step c) text
  rw [Exact, run_cons, length_cons] at h
  rw [Exact]
  omega

theorem inWord_eq (s : ShellLexer) (c : Char) (h : isWordChar c = true) :
    s.inWord c = s.add .plain (.ofChar c) := by
  simp only [isWordChar, Bool.not_eq_true', Bool.or_eq_false_iff, beq_eq_false_iff_ne] at h
  obtain ⟨⟨⟨-, hs⟩, hd⟩, hb⟩ := h
  rw [inWord, if_neg hs, if_neg hd, if_neg hb, ofChar]
  split <;> rfl

theorem inWord_exact (h : (s.inWord c).weight = s.weight + 1) : c ≠ '\'' ∧ c ≠ '"' := by
  constructor
  · rintro rfl
    simp [inWord, weight, pending] at h
    omega
  · rintro rfl
    simp [inWord, weight, pending] at h
    omega

theorem step_outside_exact (hm : s.mode = .outside) (h : (s.step c).weight = s.weight + 1) :
    (isWordChar c = true ∧ c ≠ '#' ∧ s.step c = s.add .plain (.ofChar c)) ∨
      s.step c = { s with mode := .outsideEscape } := by
  simp only [step, hm] at h ⊢
  by_cases hbl : isShellBlank c = true
  · rw [if_pos hbl] at h
    omega
  rw [if_neg hbl] at h ⊢
  by_cases ho : isShellOperator c = true
  · rw [if_pos ho] at h
    simp [weight, emit, ShellToken.weight, pending, hm] at h
    omega
  rw [if_neg ho] at h ⊢
  by_cases hh : c = '#'
  · rw [if_pos hh] at h
    simp [weight, pending, hm] at h
  rw [if_neg hh] at h ⊢
  by_cases hb : c = '\\'
  · rw [if_pos hb]
    exact .inr rfl
  rw [if_neg hb] at h ⊢
  obtain ⟨hs, hd⟩ := inWord_exact h
  have hw : isWordChar c = true := by simp [isWordChar, hbl, ho, hs, hd, hb]
  exact .inl ⟨hw, hh, inWord_eq s c hw⟩

/-- In a word, a character of full weight ends it, or belongs to it, or escapes. -/
theorem step_plain_exact (hm : s.mode = .plain) (h : (s.step c).weight = s.weight + 1) :
    (∃ later, (∀ token ∈ later, token.argument = none) ∧
        s.step c = s.emit (.word s.word :: later)) ∨
      (isWordChar c = true ∧ s.step c = s.add .plain (.ofChar c)) ∨
      s.step c = { s with mode := .escape } := by
  simp only [step, hm] at h ⊢
  by_cases hb : isShellBlank c = true
  · rw [if_pos hb]
    exact .inl ⟨[], by simp, rfl⟩
  rw [if_neg hb] at h ⊢
  by_cases ho : isShellOperator c = true
  · rw [if_pos ho]
    exact .inl ⟨[.operator c], by simp [argument], rfl⟩
  rw [if_neg ho] at h ⊢
  obtain ⟨hs, hd⟩ := inWord_exact h
  by_cases hbc : c = '\\'
  · rw [inWord, if_neg hs, if_neg hd, if_pos hbc]
    exact .inr (.inr rfl)
  have hw : isWordChar c = true := by simp [isWordChar, hb, ho, hs, hd, hbc]
  exact .inr (.inl ⟨hw, inWord_eq s c hw⟩)

theorem step_escape_weight (hm : s.mode = .outsideEscape ∨ s.mode = .escape) (c : Char) :
    (s.step c).weight ≤ s.weight := by
  rcases hm with hm | hm
  · simp only [step, hm]
    split <;> simp [weight, add, pending, hm]
    omega
  · simp only [step, hm]
    split <;> simp [weight, add, pending, hm]
    omega

end ShellLexer

structure UnquotedPieces (pieces : List ShellPiece) : Prop where
  ne_nil : pieces ≠ []
  start : ∀ piece, pieces.head? = some piece → piece.char ≠ '#'
  pieces : ∀ piece ∈ pieces, isWordChar piece.char = true ∧
    piece = ofChar piece.char

theorem unquotedPieces_singleton {c : Char} (hw : isWordChar c = true) (hh : c ≠ '#') :
    UnquotedPieces [.ofChar c] where
  ne_nil := cons_ne_nil _ _
  start piece h := by
    rw [← Option.some.inj h, char_ofChar]
    exact hh
  pieces piece h := by
    rw [mem_singleton.mp h, char_ofChar]
    exact ⟨hw, rfl⟩

theorem UnquotedPieces.concat (h : UnquotedPieces pieces) {c : Char} (hw : isWordChar c = true) :
    UnquotedPieces (pieces ++ [.ofChar c]) where
  ne_nil := by simp
  start piece hp := by
    rw [head?_append_of_ne_nil _ h.ne_nil] at hp
    exact h.start piece hp
  pieces piece hp := by
    rcases mem_append.mp hp with hp | hp
    · exact h.pieces piece hp
    · rw [mem_singleton.mp hp, char_ofChar]
      exact ⟨hw, rfl⟩

structure RawWord (text : List Char) : Prop where
  ne_nil : text ≠ []
  start : text.head? ≠ some '#' ∧ text.head? ≠ some '~'
  chars : ∀ c ∈ text, isWordChar c = true ∧ isShellDollar c = false ∧ c ≠ '*' ∧ c ≠ '?' ∧
    c ≠ '['

namespace ShellLexer

/-- The words of a run in which nothing was lost need no quotes. -/
structure Unquoted (s : ShellLexer) : Prop where
  mode : (s.mode = .outside ∧ s.word = []) ∨ (s.mode = .plain ∧ UnquotedPieces s.word) ∨
    s.mode = .outsideEscape ∨ s.mode = .escape
  tokens : ∀ token ∈ s.tokens, token.argument = none ∨ ∃ pieces, token = .word pieces ∧
    UnquotedPieces pieces

/-- A step of full weight quotes nothing. -/
theorem Unquoted.step {s : ShellLexer} (h : s.Unquoted) {c : Char}
    (hexact : (s.step c).weight = s.weight + 1) : (s.step c).Unquoted := by
  rcases h.mode with ⟨hm, hw⟩ | ⟨hm, hw⟩ | hm
  · rcases step_outside_exact hm hexact with ⟨hc, hh, hs⟩ | hs
    · rw [hs]
      refine ⟨.inr (.inl ⟨rfl, ?_⟩), h.tokens⟩
      change UnquotedPieces (s.word ++ [.ofChar c])
      rw [hw]
      exact unquotedPieces_singleton hc hh
    · rw [hs]
      exact ⟨.inr (.inr (.inl rfl)), h.tokens⟩
  · rcases step_plain_exact hm hexact with ⟨later, hl, hs⟩ | ⟨hc, hs⟩ | hs
    · rw [hs]
      refine ⟨.inl ⟨rfl, rfl⟩, forall_mem_append.mpr ⟨h.tokens, forall_mem_cons.mpr ?_⟩⟩
      exact ⟨.inr ⟨s.word, rfl, hw⟩, fun token ht => .inl (hl token ht)⟩
    · rw [hs]
      exact ⟨.inr (.inl ⟨rfl, hw.concat hc⟩), h.tokens⟩
    · rw [hs]
      exact ⟨.inr (.inr (.inr rfl)), h.tokens⟩
  · have hls := step_escape_weight hm c
    omega

theorem Unquoted.run {s : ShellLexer} (h : s.Unquoted) {text : List Char} (hexact : s.Exact text) :
    (s.run text).Unquoted := by
  induction text generalizing s with
  | nil => exact h
  | cons c text ih =>
    obtain ⟨hs, hr⟩ := hexact.cons
    exact ih (h.step hs) hr

theorem unquoted_start : start.Unquoted where
  mode := .inl ⟨rfl, rfl⟩
  tokens _ h := absurd h not_mem_nil

end ShellLexer

/-- Unquoted pieces that are inert spell a raw word. -/
theorem rawWord_of_pieces (h : UnquotedPieces pieces) (hh : pieces.head?.all (isInert true) = true)
    (ht : pieces.tail.all (isInert false) = true) :
    RawWord (pieces.map char) := by
  cases pieces with
  | nil => exact absurd rfl h.ne_nil
  | cons piece pieces =>
    obtain ⟨hf, hr⟩ := forall_mem_cons.mp h.pieces
    rw [head?_cons, Option.all_some, hf.2, isInert_ofChar] at hh
    obtain ⟨hd, hs, hq, hb, htl⟩ := hh
    refine ⟨cons_ne_nil _ _, ⟨?_, ?_⟩, forall_mem_map.mpr (forall_mem_cons.mpr ?_)⟩
    · simpa using h.start piece rfl
    · simpa using htl rfl
    · refine ⟨⟨hf.1, hd, hs, hq, hb⟩, fun other ho => ?_⟩
      have hi := all_eq_true.mp ht other ho
      rw [(hr other ho).2, isInert_ofChar] at hi
      exact ⟨(hr other ho).1, hi.1, hi.2.1, hi.2.2.1, hi.2.2.2.1⟩

theorem RawWord.argument (h : RawWord text) : (word (text.map .ofChar)).argument = some text := by
  have hc : (text.map ofChar).map char = text := by
    rw [map_map]
    exact map_id'' char_ofChar text
  cases text with
  | nil => exact absurd rfl h.ne_nil
  | cons c text =>
    obtain ⟨⟨-, hdl, hs, hq, hb⟩, hr⟩ := forall_mem_cons.mp h.chars
    have htl : c ≠ '~' := by simpa using h.start.2
    have hh := (isInert_ofChar true c).mpr ⟨hdl, hs, hq, hb, fun _ => htl⟩
    have ht : (text.map ofChar).all (isInert false) = true := by
      rw [all_map, all_eq_true]
      intro d hd
      obtain ⟨-, h1, h2, h3, h4⟩ := hr d hd
      exact (isInert_ofChar false d).mpr ⟨h1, h2, h3, h4, by simp⟩
    rw [argument, map_cons, head?_cons, tail_cons, Option.all_some, hh, ht, ← map_cons, hc]
    rfl

namespace ShellLexer

variable {s : ShellLexer}

theorem run_wordChars (hm : s.mode = .plain) {text : List Char} (h : ∀ c ∈ text, isWordChar c = true) :
    s.run text = { s with word := s.word ++ text.map .ofChar } := by
  induction text generalizing s with
  | nil => simp [run]
  | cons c text ih =>
    obtain ⟨hc, hr⟩ := forall_mem_cons.mp h
    have hp : isShellBlank c = false ∧ isShellOperator c = false := by
      simp only [isWordChar, Bool.not_eq_true', Bool.or_eq_false_iff] at hc
      exact hc.1.1.1
    have hs : s.step c = s.add .plain (.ofChar c) := by
      rw [← inWord_eq s c hc]
      simp [step, hm, hp]
    rw [run_cons, hs, ih rfl hr]
    simp [add, hm]

/-- A raw word is read as it stands. -/
theorem run_rawWord (hm : s.mode = .outside) {text : List Char} (h : RawWord text) :
    s.run text = { s with mode := .plain, word := s.word ++ text.map .ofChar } := by
  cases text with
  | nil => exact absurd rfl h.ne_nil
  | cons c text =>
    obtain ⟨⟨hc, -⟩, hr⟩ := forall_mem_cons.mp h.chars
    have hh : c ≠ '#' := by simpa using h.start.1
    have hp := hc
    simp only [isWordChar, Bool.not_eq_true', Bool.or_eq_false_iff, beq_eq_false_iff_ne] at hp
    have hs : s.step c = s.add .plain (.ofChar c) := by
      rw [← inWord_eq s c hc]
      simp [step, hm, hp, hh]
    rw [run_cons, hs, run_wordChars rfl fun d hd => (hr d hd).1]
    simp [add]

variable {args : List (List Char)}

/-- Raw words with blanks between them are read as these words. -/
theorem run_rawWords (hm : s.mode = .plain) (h : ∀ arg ∈ args, RawWord arg) :
    (s.run (args.flatMap fun arg => ' ' :: arg)).finish
      = some (s.tokens ++ .word s.word :: args.map fun arg => .word (arg.map .ofChar)) := by
  induction args generalizing s with
  | nil =>
    change s.finish = _
    simp [finish, hm]
  | cons arg args ih =>
    obtain ⟨ha, hr⟩ := forall_mem_cons.mp h
    rw [flatMap_cons, cons_append, run_cons, step_space hm, run_append,
      run_rawWord rfl ha, ih rfl hr]
    simp [emit]

/-- A text that reads as words has no character to spare. -/
theorem finish_weight {tokens : List ShellToken}
    (h : s.finish = some tokens) (ha : tokens.map argument = args.map some) :
    (s.mode = .plain ∧ tokens = s.tokens ++ [.word s.word] ∧ s.weight + 1 = wordsWeight args) ∨
      wordsWeight args ≤ s.weight := by
  have hw := weight_of_arguments ha
  unfold finish at h
  split at h
  next hm =>
    cases h
    right
    rw [weight]
    omega
  next hm =>
    cases h
    right
    rw [weight]
    omega
  next hm =>
    cases h
    left
    refine ⟨hm, rfl, ?_⟩
    simp only [map_append, map_cons, map_nil, sum_append, sum_cons, sum_nil, ShellToken.weight] at hw
    simp only [weight, hm, pending]
    omega
  next => cases h

end ShellLexer

/-- A word that was read without quoting is raw. -/
theorem ShellLexer.Unquoted.rawWord {s : ShellLexer} (h : s.Unquoted) (hm : s.mode = .plain)
    {token : ShellToken} (ht : token ∈ s.tokens ++ [.word s.word])
    (htx : token.argument = some text) : RawWord text := by
  have hw : UnquotedPieces s.word := by
    rcases h.mode with ⟨h', -⟩ | ⟨-, h'⟩ | h' | h'
    · rw [hm] at h'
      cases h'
    · exact h'
    · rw [hm] at h'
      cases h'
    · rw [hm] at h'
      cases h'
  have hp : ∃ pieces, token = .word pieces ∧ UnquotedPieces pieces := by
    rcases mem_append.mp ht with ht | ht
    · rcases h.tokens token ht with hn | hp
      · rw [hn] at htx
        cases htx
      · exact hp
    · exact ⟨s.word, mem_singleton.mp ht, hw⟩
  obtain ⟨pieces, rfl, hu⟩ := hp
  obtain ⟨pieces', heq, rfl, hh, htl⟩ := argument_eq_some htx
  cases heq
  exact rawWord_of_pieces hu hh htl

theorem words_length (program : List Char) (args : List (List Char)) :
    (program ++ args.flatMap fun arg => ' ' :: arg).length + 1 = wordsWeight (program :: args) := by
  have ha : (args.flatMap fun arg => ' ' :: arg).length = wordsWeight args := by
    simp [wordsWeight, length_flatMap]
  simp [wordsWeight]
  omega

/-- Words that are written one after the other are read so exactly where each can go without
quotes. -/
theorem readsAs_words_iff (program : List Char) (args : List (List Char)) :
    ReadsAs (program ++ args.flatMap fun arg => ' ' :: arg) (program :: args) ↔
      ∀ arg ∈ program :: args, RawWord arg := by
  constructor
  · intro h
    obtain ⟨tokens, htn, ha⟩ := Option.map_eq_some_iff.mp h
    have hl := words_length program args
    have hle := weight_run_le .start (program ++ args.flatMap fun arg => ' ' :: arg)
    have hz : ShellLexer.start.weight = 0 := rfl
    rcases finish_weight htn ha with ⟨hm, hte, hw⟩ | ho
    · have hexact : ShellLexer.start.Exact (program ++ args.flatMap fun arg => ' ' :: arg) := by
        rw [ShellLexer.Exact]
        omega
      intro arg harg
      have hmem : some arg ∈ tokens.map argument := by
        rw [ha]
        exact mem_map_of_mem harg
      obtain ⟨token, ht, har⟩ := mem_map.mp hmem
      rw [hte] at ht
      exact (unquoted_start.run hexact).rawWord hm ht har
    · omega
  · intro h
    obtain ⟨hp, ha⟩ := forall_mem_cons.mp h
    rw [ReadsAs, shellTokens, run_append, run_rawWord rfl hp, run_rawWords rfl ha, Option.map_some]
    have hall := map_congr_left fun arg harg => (ha arg harg).argument
    have hf := hp.argument
    change some ((word (program.map .ofChar)).argument :: map _ (args.map _)) = _
    rw [hf, map_map, map_cons, ← hall]
    rfl

/-- A text that can stand between double quotes: no quote, nothing that is expanded, and each
backslash before a character that it does not change. -/
def quotesSafely : List Char → Bool
  | [] => true
  | ['\\'] => false
  | '\\' :: c :: text =>
    c != '\n' && c != '"' && c != '\\' && !isShellDollar c && quotesSafely text
  | c :: text => c != '"' && !isShellDollar c && quotesSafely text

namespace ShellLexer

variable {s : ShellLexer}

theorem run_double_safe (hm : s.mode = .double) {text : List Char} (h : quotesSafely text = true) :
    s.run text = { s with word := s.word ++ text.map .literal } := by
  fun_induction quotesSafely text generalizing s with
  | case1 => simp [run]
  | case2 => cases h
  | case3 c text ih =>
    simp only [Bool.and_eq_true, bne_iff_ne, Bool.not_eq_true', ne_eq] at h
    obtain ⟨⟨⟨⟨hn, hq⟩, hb⟩, hd⟩, hr⟩ := h
    have hs : (s.step '\\').step c = { s with word := s.word ++ [.literal '\\', .literal c] } := by
      simp [step, hm, add, hn, hq, hb, hd]
    have hl := ih (s := { s with word := s.word ++ [.literal '\\', .literal c] }) hm hr
    rw [run_cons, run_cons, hs, hl]
    simp
  | case4 c text hln hp ih =>
    have hb : c ≠ '\\' := by
      rintro rfl
      cases text with
      | nil => exact hln rfl rfl
      | cons d text => exact hp d text rfl rfl
    simp only [Bool.and_eq_true, bne_iff_ne, Bool.not_eq_true', ne_eq] at h
    obtain ⟨⟨hq, hd⟩, hr⟩ := h
    have hs : s.step c = { s with word := s.word ++ [.literal c] } := by
      simp [step, hm, add, hq, hb, hd]
    have hl := ih (s := { s with word := s.word ++ [.literal c] }) hm hr
    rw [run_cons, hs, hl]
    simp

theorem step_doubleEscape_exact (hm : s.mode = .doubleEscape) {c : Char}
    (h : (s.step c).weight = s.weight + 1) :
    (c != '\n' && c != '"' && c != '\\' && !isShellDollar c) = true ∧
      s.step c = ⟨.double, s.word ++ [.literal '\\', .literal c], s.tokens⟩ := by
  simp only [step, hm] at h ⊢
  by_cases hn : c = '\n'
  · rw [if_pos hn] at h
    simp [weight, pending, hm] at h
    omega
  rw [if_neg hn] at h ⊢
  by_cases he : (isShellDollar c || c == '"' || c == '\\') = true
  · rw [if_pos he] at h
    simp [weight, add, pending, hm] at h
    omega
  rw [if_neg he]
  simp only [Bool.or_eq_true, beq_iff_eq, not_or, Bool.not_eq_true] at he
  obtain ⟨⟨hd, hq⟩, hb⟩ := he
  exact ⟨by simp [hn, hq, hb, hd], by simp [add]⟩

theorem step_double_exact (hm : s.mode = .double) {c : Char} (hb : c ≠ '\\')
    (h : (s.step c).weight = s.weight + 1) :
    c ≠ '"' ∧ s.step c = s.add .double (if isShellDollar c then .special c else .literal c) := by
  simp only [step, hm] at h ⊢
  by_cases hq : c = '"'
  · rw [if_pos hq] at h
    simp [weight, pending, hm] at h
  rw [if_neg hq, if_neg hb]
  refine ⟨hq, ?_⟩
  split <;> rfl

/-- Within double quotes a text of full weight stays literal. -/
theorem run_double_exact (hm : s.mode = .double) {text : List Char} (h : s.Exact text) :
    ∃ more, (s.run text).word = s.word ++ more ∧ (s.run text).tokens = s.tokens ∧
      (((s.run text).mode = .double ∧
          ((∀ c, isShellDollar c = true → .special c ∉ more) → quotesSafely text = true)) ∨
        (s.run text).mode = .doubleEscape) := by
  fun_induction quotesSafely text generalizing s with
  | case1 => exact ⟨[], (append_nil _).symm, rfl, .inl ⟨hm, fun _ => rfl⟩⟩
  | case2 =>
    refine ⟨[], ?_⟩
    simp [run, step, hm]
  | case3 c text ih =>
    obtain ⟨-, hsc⟩ := h.cons
    have hf : s.step '\\' = { s with mode := .doubleEscape } := by simp [step, hm]
    rw [hf] at hsc
    obtain ⟨hw, hr⟩ := hsc.cons
    obtain ⟨hc, hs⟩ := step_doubleEscape_exact rfl hw
    rw [hs] at hr
    obtain ⟨more, hwr, ht, he⟩ := ih rfl hr
    rw [run_cons, run_cons, hf, hs]
    refine ⟨[.literal '\\', .literal c] ++ more, ?_, ht, ?_⟩
    · rw [hwr, append_assoc]
    · rcases he with ⟨hdb, hsf⟩ | hes
      · refine .inl ⟨hdb, fun hn => ?_⟩
        rw [hc, Bool.true_and]
        exact hsf fun d hdl hd => hn d hdl (mem_append_right _ hd)
      · exact .inr hes
  | case4 c text hl hp ih =>
    have hb : c ≠ '\\' := by
      rintro rfl
      cases text with
      | nil => exact hl rfl rfl
      | cons d text => exact hp d text rfl rfl
    obtain ⟨hw, hr⟩ := h.cons
    obtain ⟨hq, hs⟩ := step_double_exact hm hb hw
    rw [hs] at hr
    obtain ⟨more, hwr, ht, he⟩ := ih rfl hr
    rw [run_cons, hs]
    refine ⟨[if isShellDollar c then .special c else .literal c] ++ more, ?_, ht, ?_⟩
    · rw [hwr, ← append_assoc]
      rfl
    · rcases he with ⟨hdb, hsf⟩ | hes
      · refine .inl ⟨hdb, fun hn => ?_⟩
        have hdl : isShellDollar c = false := by
          by_contra hdl
          rw [Bool.not_eq_false] at hdl
          exact hn c hdl (by simp [hdl])
        have hr := hsf fun d hd hmem => hn d hd (mem_append_right _ hmem)
        simp [hq, hdl, hr]
      · exact .inr hes

theorem step_quote_weight (s : ShellLexer) :
    (s.step '"').weight ≤ s.weight ∨ (s.step '"').mode = .single := by
  obtain ⟨mode, word, tokens⟩ := s
  cases mode <;> simp [step, inWord, isShellBlank, isShellOperator, isShellDollar, add, weight,
    pending]
  all_goals omega

end ShellLexer

theorem literal_argument (text : List Char) : (ShellToken.literal text).argument = some text := by
  have hc : (text.map ShellPiece.literal).map ShellPiece.char = text := by
    rw [map_map]
    exact map_id'' (fun _ => rfl) text
  have hh : (text.map ShellPiece.literal).head?.all (ShellPiece.isInert true) = true := by
    cases text <;> rfl
  have ht : (text.map ShellPiece.literal).tail.all (ShellPiece.isInert false) = true := by
    rw [← map_tail, all_map]
    exact all_eq_true.mpr fun _ _ => rfl
  rw [ShellToken.literal, argument, hh, ht, hc]
  rfl

theorem weight_literals (words : List (List Char)) :
    ((words.map ShellToken.literal).map ShellToken.weight).sum = wordsWeight words := by
  refine weight_of_arguments ?_
  rw [map_map]
  exact map_congr_left fun word _ => literal_argument word

theorem special_not_mem (h : (word pieces).argument = some text) {c : Char}
    (hc : isShellDollar c = true) : .special c ∉ pieces := by
  have hi : ∀ first, (special c).isInert first = false := by
    intro first
    simp only [isShellDollar, Bool.or_eq_true, beq_iff_eq] at hc
    rcases hc with rfl | rfl <;> cases first <;> rfl
  obtain ⟨pieces', heq, -, hh, ht⟩ := argument_eq_some h
  cases heq
  intro hm
  cases pieces with
  | nil => cases hm
  | cons piece pieces =>
    rcases mem_cons.mp hm with rfl | hm
    · rw [head?_cons, Option.all_some, hi] at hh
      cases hh
    · have hf := all_eq_true.mp ht _ hm
      rw [hi] at hf
      cases hf

/-- Behind words that are read, a text between double quotes is read as it is exactly where it can
stand there. -/
theorem readsAs_quoted_iff {front : List Char} {words : List (List Char)}
    (hf : ShellLexer.start.run front = ⟨.outside, [], words.map .literal⟩) (text : List Char) :
    ReadsAs (front ++ '"' :: text ++ ['"']) (words ++ [text]) ↔ quotesSafely text = true := by
  have hr : ShellLexer.start.run (front ++ '"' :: text ++ ['"'])
      = (ShellLexer.run ⟨.double, [], words.map .literal⟩ text).step '"' := by
    rw [run_append, run_append, hf, run_cons]
    rfl
  have hwh : wordsWeight (words ++ [text]) = wordsWeight words + (text.length + 1) := by
    simp [wordsWeight]
  have hst : (⟨.double, [], words.map .literal⟩ : ShellLexer).weight = wordsWeight words := by
    rw [ShellLexer.weight, weight_literals]
    rfl
  rw [ReadsAs, shellTokens, hr]
  constructor
  · intro h
    obtain ⟨tokens, ht, ha⟩ := Option.map_eq_some_iff.mp h
    have hle := weight_run_le ⟨.double, [], words.map .literal⟩ text
    have hq := step_quote_weight (ShellLexer.run ⟨.double, [], words.map .literal⟩ text)
    rcases hq with hlo | hsn
    · rcases finish_weight ht ha with ⟨hm, hte, hwg⟩ | ho
      · have hexact : ShellLexer.Exact ⟨.double, [], words.map .literal⟩ text := by
          rw [ShellLexer.Exact]
          omega
        obtain ⟨more, hw, -, ⟨hd, hsf⟩ | he⟩ := run_double_exact rfl hexact
        · refine hsf fun c hc => ?_
          have hs : ((ShellLexer.run ⟨.double, [], words.map .literal⟩ text).step '"').word = more := by
            simpa [ShellLexer.step, hd] using hw
          rw [hte, map_append, map_append, hs] at ha
          have hl := (append_inj' ha rfl).2
          exact special_not_mem (cons.inj hl).1 hc
        · simp [ShellLexer.step, he, ShellLexer.add, isShellDollar] at hm
      · omega
    · rw [ShellLexer.finish, hsn] at ht
      cases ht
  · intro h
    rw [run_double_safe rfl h]
    have hs : ShellLexer.step ⟨.double, [] ++ text.map .literal, words.map .literal⟩ '"'
        = ⟨.plain, text.map .literal, words.map .literal⟩ := rfl
    have hwr : (words.map ShellToken.literal).map argument = words.map some := by
      rw [map_map]
      exact map_congr_left fun word _ => literal_argument word
    have hl : (ShellToken.word (text.map .literal)).argument = some text := literal_argument text
    rw [hs, ShellLexer.finish, Option.map_some, map_append, map_append, hwr,
      map_singleton, map_singleton, hl]

end AdbFastboot
