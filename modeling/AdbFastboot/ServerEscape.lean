import AdbFastboot.ShellArguments
import AdbFastboot.ShellQuoting

namespace AdbFastboot

open ShellLexer List

namespace AdbUtils

def isEscaped (ch : Char) : Bool := " \t\n\r\\'\"|&;()<>\x60$*?[]#~!\x7b\x7d".toList.contains ch

/-- `escape_arg` of the server. -/
def escapeArg (arg : List Char) : List Char :=
  arg.flatMap fun ch => if isEscaped ch then ['\\', ch] else [ch]

/-- What the shell reads the character as, which is lost if it is a newline. -/
def pieceOf (c : Char) : ShellPiece := if isEscaped c then .literal c else .ofChar c

def kept (arg : List Char) : List Char := arg.filter (· != '\n')

theorem pieceOf_char (c : Char) : (pieceOf c).char = c := by
  unfold pieceOf
  split
  next => rfl
  next => exact ShellPiece.char_ofChar c

theorem pieceOf_isInert (first : Bool) (c : Char) : (pieceOf c).isInert first = true := by
  unfold pieceOf
  split
  next => rfl
  next h =>
    rw [ShellPiece.isInert_ofChar]
    simp [isEscaped] at h
    simp [isShellDollar, h]

variable {s : ShellLexer} (hmode : s.mode = .outside ∨ s.mode = .plain)
include hmode

/-- A backslash quotes a character, but takes a newline away. -/
theorem run_escaped (c : Char) :
    s.run ['\\', c] = if c = '\n' then s else s.add .plain (.literal c) := by
  rcases hmode with h | h
  · simp [run, step, h, isShellBlank, isShellOperator, ShellLexer.add]
    rw [← h]
  · simp [run, step, h, isShellBlank, isShellOperator, inWord, ShellLexer.add]
    rw [← h]

theorem run_unescaped {c : Char} (h : isEscaped c = false) : s.run [c] = s.add .plain (.ofChar c) := by
  simp [isEscaped] at h
  have hw := s.inWord_eq c (by simp [isWordChar, isShellBlank, isShellOperator, h])
  rcases hmode with hmode | hmode
  · simp [run, step, hmode, isShellBlank, isShellOperator, h, hw]
  · simp [run, step, hmode, isShellBlank, isShellOperator, h, hw]

/-- Every character comes back but the newlines, which continue the line. -/
theorem run_escapeArg (arg : List Char) : s.run (escapeArg arg) = { s with
        mode := if kept arg = [] then s.mode else .plain
        word := s.word ++ (kept arg).map pieceOf } := by
  induction arg generalizing s with
  | nil => simp [escapeArg, kept, run]
  | cons c arg ih =>
    rw [escapeArg, flatMap_cons, run_append, ← escapeArg]
    by_cases hn : c = '\n'
    · subst hn
      rw [if_pos (by decide), run_escaped hmode, if_pos rfl, ih hmode]
      simp [kept]
    · have hs : s.run (if isEscaped c then ['\\', c] else [c]) = s.add .plain (pieceOf c) := by
        unfold pieceOf
        split
        next => rw [run_escaped hmode, if_neg hn]
        next h => exact run_unescaped hmode (by simpa using h)
      rw [hs, ih (.inr rfl)]
      simp [kept, hn, ShellLexer.add]

omit hmode

/-- A text that is one word is read as the argument it spells. -/
theorem readsAs_word_iff {text word : List Char} {piece : Char → ShellPiece}
    (hc : ∀ c, (piece c).char = c) (hi : ∀ first c, (piece c).isInert first = true)
    (h : shellTokens text = some [.word (word.map piece)]) (arg : List Char) :
    ReadsAs text [arg] ↔ word = arg := by
  have ha : (ShellToken.word (word.map piece)).argument = some word := by
    cases word <;> simp [ShellToken.argument, hi, hc, Function.comp_def]
  simp [ReadsAs, h, ha]

/-- A quoted argument is read as it is. -/
theorem readsAs_quoteArg (arg : List Char) : ReadsAs (quoteArg arg) [arg] := by
  have ht : shellTokens (quoteArg arg) = some [.word (arg.map .literal)] := by
    rw [shellTokens, run_quoteArg arg rfl]
    rfl
  exact (readsAs_word_iff (fun _ => rfl) (fun _ _ => rfl) ht arg).mpr rfl

/-- The two texts are read as the argument, exactly if it is not empty and has no newline. -/
theorem escape_arg_iff (arg : List Char) :
    ReadsAs (escapeArg arg) [arg] ∧ ReadsAs (quoteArg arg) [arg] ↔ arg ≠ [] ∧ '\n' ∉ arg := by
  have hr := run_escapeArg (s := .start) (.inl rfl) arg
  have ha : kept arg = arg ↔ '\n' ∉ arg := by
    rw [kept, filter_eq_self]
    simp only [bne_iff_ne]
    exact ⟨fun h hm => h _ hm rfl, fun h c hm heq => h (heq ▸ hm)⟩
  rw [and_iff_left (readsAs_quoteArg arg), ← ha]
  by_cases hk : kept arg = []
  · have ht : shellTokens (escapeArg arg) = some [] := by
      rw [shellTokens, hr, hk]
      rfl
    refine iff_of_false (by simp [ReadsAs, ht]) ?_
    rintro ⟨hne, heq⟩
    exact hne (heq ▸ hk)
  · have ht : shellTokens (escapeArg arg) = some [.word ((kept arg).map pieceOf)] := by
      rw [shellTokens, hr, if_neg hk]
      rfl
    rw [readsAs_word_iff pieceOf_char pieceOf_isInert ht]
    exact ⟨fun h => ⟨h ▸ hk, h⟩, fun h => h.2⟩

/-- The newline and the character before it are a line continuation. -/
theorem escape_arg_newline : ¬ReadsAs (escapeArg ['a', '\n', 'b']) [['a', '\n', 'b']]
    ∧ ReadsAs (escapeArg ['a', '\n', 'b']) [['a', 'b']] := by decide

end AdbUtils

end AdbFastboot
