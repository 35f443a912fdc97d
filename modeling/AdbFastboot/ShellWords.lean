import Mathlib.Data.List.Basic

namespace AdbFastboot

/-- A character of a word, after quote removal: one that stands for itself, or one that was not
quoted and that the shell expands, or may. -/
inductive ShellPiece where
  | literal (c : Char)
  | special (c : Char)
deriving DecidableEq, Repr

inductive ShellToken where
  | word (pieces : List ShellPiece)
  | operator (c : Char)
deriving DecidableEq, Repr

def ShellToken.literal (text : List Char) : ShellToken := .word (text.map .literal)

inductive ShellMode where
  | outside
  | outsideEscape
  | comment
  | plain
  | escape
  | single
  | double
  | doubleEscape
deriving DecidableEq, Repr

def isShellBlank (c : Char) : Bool := c == ' ' || c == '\t'

def isShellOperator (c : Char) : Bool :=
  c == '\n' || c == '|' || c == '&' || c == ';' || c == '<' || c == '>' || c == '(' || c == ')'

def isShellDollar (c : Char) : Bool := c == '$' || c == '\x60'

def isShellSpecial (c : Char) : Bool :=
  isShellDollar c || c == '*' || c == '?' || c == '[' || c == '~' || c == '=' || c == '\x7b'
    || c == '!'

structure ShellLexer where
  mode : ShellMode
  word : List ShellPiece
  tokens : List ShellToken
deriving DecidableEq

namespace ShellLexer

def start : ShellLexer where
  mode := .outside
  word := []
  tokens := []

def add (s : ShellLexer) (mode : ShellMode) (piece : ShellPiece) : ShellLexer :=
  { s with mode := mode, word := s.word ++ [piece] }

def emit (s : ShellLexer) (tokens : List ShellToken) : ShellLexer where
  mode := .outside
  word := []
  tokens := s.tokens ++ tokens

def inWord (s : ShellLexer) (c : Char) : ShellLexer :=
  if c = '\'' then { s with mode := .single }
  else if c = '"' then { s with mode := .double }
  else if c = '\\' then { s with mode := .escape }
  else if isShellSpecial c then s.add .plain (.special c)
  else s.add .plain (.literal c)

def step (s : ShellLexer) (c : Char) : ShellLexer :=
  match s.mode with
  | .outside =>
    if isShellBlank c then s
    else if isShellOperator c then s.emit [.operator c]
    else if c = '#' then { s with mode := .comment }
    else if c = '\\' then { s with mode := .outsideEscape }
    else s.inWord c
  | .outsideEscape => if c = '\n' then { s with mode := .outside } else s.add .plain (.literal c)
  | .comment => if c = '\n' then s.emit [.operator c] else s
  | .plain =>
    if isShellBlank c then s.emit [.word s.word]
    else if isShellOperator c then s.emit [.word s.word, .operator c]
    else s.inWord c
  | .escape => if c = '\n' then { s with mode := .plain } else s.add .plain (.literal c)
  | .single => if c = '\'' then { s with mode := .plain } else s.add .single (.literal c)
  | .double =>
    if c = '"' then { s with mode := .plain }
    else if c = '\\' then { s with mode := .doubleEscape }
    else if isShellDollar c then s.add .double (.special c)
    else s.add .double (.literal c)
  | .doubleEscape =>
    if c = '\n' then { s with mode := .double }
    else if isShellDollar c || c == '"' || c == '\\' then s.add .double (.literal c)
    else (s.add .double (.literal '\\')).add .double (.literal c)

def run (s : ShellLexer) (text : List Char) : ShellLexer := text.foldl step s

def finish (s : ShellLexer) : Option (List ShellToken) :=
  match s.mode with
  | .outside => some s.tokens
  | .comment => some s.tokens
  | .plain => some (s.tokens ++ [.word s.word])
  | _ => none

theorem run_append (s : ShellLexer) (front back : List Char) :
    s.run (front ++ back) = (s.run front).run back := List.foldl_append

theorem run_cons (s : ShellLexer) (c : Char) (text : List Char) :
    s.run (c :: text) = (s.step c).run text := rfl

end ShellLexer

/-- The tokens of a text after POSIX token recognition and quote removal. -/
def shellTokens (text : List Char) : Option (List ShellToken) := (ShellLexer.start.run text).finish

def isShellPlain (c : Char) : Bool :=
  !(isShellBlank c || isShellOperator c || isShellSpecial c || c == '\'' || c == '"' || c == '\\'
    || c == '#')

structure PlainWord (text : List Char) : Prop where
  ne_nil : text ≠ []
  plain : ∀ c ∈ text, isShellPlain c = true

theorem isShellPlain_iff (c : Char) : isShellPlain c = true ↔
    isShellBlank c = false ∧ isShellOperator c = false ∧ isShellSpecial c = false ∧ c ≠ '\'' ∧
      c ≠ '"' ∧ c ≠ '\\' ∧ c ≠ '#' := by
  simp [isShellPlain, and_assoc]

namespace ShellLexer

theorem inWord_plain (s : ShellLexer) {c : Char} (h : isShellPlain c = true) :
    s.inWord c = s.add .plain (.literal c) := by
  obtain ⟨-, -, hsp, hs, hd, hb, -⟩ := (isShellPlain_iff c).mp h
  rw [inWord, if_neg hs, if_neg hd, if_neg hb, if_neg (by simp [hsp])]

variable {s : ShellLexer}

section

variable (hmode : s.mode = .outside ∨ s.mode = .plain)
include hmode

theorem step_plain {c : Char} (h : isShellPlain c = true) : s.step c = s.add .plain (.literal c) := by
  obtain ⟨hb, ho, -, -, -, hbc, hh⟩ := (isShellPlain_iff c).mp h
  rcases hmode with hmode | hmode
  · simp [step, hmode, hb, ho, hbc, hh, s.inWord_plain h]
  · simp [step, hmode, hb, ho, s.inWord_plain h]

/-- Plain characters make a word. -/
theorem run_plain {text : List Char} (hne : text ≠ []) (h : ∀ c ∈ text, isShellPlain c = true) :
    s.run text = { s with mode := .plain, word := s.word ++ text.map .literal } := by
  induction text generalizing s with
  | nil => exact absurd rfl hne
  | cons c text ih =>
    rw [List.forall_mem_cons] at h
    rw [run_cons, step_plain hmode h.1]
    cases text with
    | nil => rfl
    | cons d text =>
      rw [ih (.inr rfl) (List.cons_ne_nil _ _) h.2]
      simp [add]

theorem step_quote : s.step '\'' = { s with mode := .single } := by
  rcases hmode with hmode | hmode
  · simp [step, hmode, isShellBlank, isShellOperator, inWord]
  · simp [step, hmode, isShellBlank, isShellOperator, inWord]

end

section

variable (hmode : s.mode = .single)
include hmode

theorem step_single_quote : s.step '\'' = { s with mode := .plain } := by
  simp [step, hmode]

theorem step_single {c : Char} (h : c ≠ '\'') : s.step c = s.add .single (.literal c) := by
  simp [step, hmode, h]

/-- Closing, escaping and opening again quotes a quote. -/
theorem run_requote : s.run ['\'', '\\', '\'', '\''] = s.add .single (.literal '\'') := by
  rw [run_cons, step_single_quote hmode]
  simp [run, step, add, inWord, isShellBlank, isShellOperator]

end

theorem step_space (hmode : s.mode = .plain) : s.step ' ' = s.emit [.word s.word] := by
  simp [step, hmode, isShellBlank]

end ShellLexer

end AdbFastboot
