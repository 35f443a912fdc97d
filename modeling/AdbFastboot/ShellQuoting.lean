import AdbFastboot.ShellWords
import AdbFastboot.Utf8

namespace AdbFastboot

open ShellLexer List

def requote : List Char := ['\'', '\\', '\'', '\'']

def isUnquotedByte (b : UInt8) : Bool :=
  (0x30 ≤ b.toNat && b.toNat ≤ 0x39) || (0x41 ≤ b.toNat && b.toNat ≤ 0x5A)
    || (0x61 ≤ b.toNat && b.toNat ≤ 0x7A) || b == 0x5F || b == 0x2D || b == 0x2E || b == 0x3A
    || b == 0x2F

def quotedChars (arg : List Char) : List Char :=
  arg.flatMap fun ch => if ch = '\'' then requote else [ch]

def quoteArg (arg : List Char) : List Char :=
  if arg.isEmpty then ['\'', '\'']
  else if (utf8Bytes (String.ofList arg)).all isUnquotedByte then arg
  else '\'' :: quotedChars arg ++ ['\'']

def quoteArgs (args : List (List Char)) : List Char := [' '].intercalate (args.map quoteArg)

def escapeLoop (s : List Char) : List Char :=
  match _h : s.dropWhile (fun c => c != '\'') with
  | [] => s
  | _ :: rest => s.takeWhile (fun c => c != '\'') ++ requote ++ escapeLoop rest
termination_by s.length
decreasing_by
  have hle := (List.dropWhile_suffix (l := s) (fun c => c != '\'')).length_le
  rw [_h, List.length_cons] at hle
  omega

def escapeArg (s : List Char) : List Char := '\'' :: escapeLoop s ++ ['\'']

def execPrefix : List Char := ['e', 'x', 'e', 'c', ':']

def execServiceString (args : List (List Char)) : List Char :=
  execPrefix ++ args.head?.getD [] ++ args.tail.flatMap fun arg => ' ' :: escapeArg arg

theorem quotedChars_of_ne {text : List Char} (h : ∀ c ∈ text, (c != '\'') = true) :
    quotedChars text = text := by
  induction text with
  | nil => rfl
  | cons c text ih =>
    rw [forall_mem_cons] at h
    rw [quotedChars, flatMap_cons, if_neg (bne_iff_ne.mp h.1)]
    exact congrArg (c :: ·) (ih h.2)

theorem quotedChars_append (front back : List Char) :
    quotedChars (front ++ back) = quotedChars front ++ quotedChars back := flatMap_append

theorem escapeLoop_eq (s : List Char) : escapeLoop s = quotedChars s := by
  induction hn : s.length using Nat.strongRecOn generalizing s with
  | ind n ih =>
    have hf : ∀ c ∈ s.takeWhile (fun c => c != '\''), (c != '\'') = true :=
      all_eq_true.mp all_takeWhile
    have hs : s.takeWhile (fun c => c != '\'') ++ s.dropWhile (fun c => c != '\'') = s :=
      takeWhile_append_dropWhile
    rw [escapeLoop]
    split
    next hnil =>
      rw [hnil, append_nil] at hs
      rw [hs] at hf
      rw [quotedChars_of_ne hf]
    next c rest hr =>
      have hl := congrArg length hs
      rw [hr, length_append, length_cons] at hl
      have hq : c = '\'' := by
        have hh := head_dropWhile_not (fun c => c != '\'') (l := s) (by rw [hr]; simp)
        simpa [hr] using hh
      rw [hq] at hr
      have ha := quotedChars_append (s.takeWhile (fun c => c != '\'')) ('\'' :: rest)
      rw [← hr, hs, quotedChars_of_ne hf] at ha
      rw [ih rest.length (by omega) rest rfl, ha, hr, append_assoc]
      rfl

variable (arg : List Char) {s : ShellLexer}

/-- Within single quotes the quoted characters spell the argument. -/
theorem run_quotedChars (hm : s.mode = .single) :
    s.run (quotedChars arg) = { s with word := s.word ++ arg.map .literal } := by
  induction arg generalizing s with
  | nil =>
    rw [map_nil, append_nil]
    rfl
  | cons c arg ih =>
    rw [quotedChars, flatMap_cons, run_append]
    have hs : s.run (if c = '\'' then requote else [c]) = s.add .single (.literal c) := by
      split
      next hc =>
        rw [hc]
        exact run_requote hm
      next hc => exact step_single hm hc
    rw [hs]
    change (s.add .single (.literal c)).run (quotedChars arg) = _
    rw [ih rfl]
    simp [ShellLexer.add, hm]

theorem run_quoted (hm : s.mode = .outside ∨ s.mode = .plain) : s.run ('\'' :: quotedChars arg ++ ['\''])
      = { s with mode := .plain, word := s.word ++ arg.map .literal } := by
  rw [cons_append, run_cons, step_quote hm, run_append,
    run_quotedChars arg rfl, run_cons, step_single_quote rfl]
  rfl

theorem isUnquotedByte_plain {b : UInt8} (h : isUnquotedByte b = true) :
    b.toNat < 0x80 ∧ isShellPlain (Char.ofNat b.toNat) = true := by
  have ha : ∀ n : Fin 256, isUnquotedByte (UInt8.ofNat n) = true →
      n.val < 0x80 ∧ isShellPlain (Char.ofNat n) = true := by decide +kernel
  have hn := ha ⟨b.toNat, b.toNat_lt⟩
  rw [UInt8.ofNat_toNat] at hn
  exact hn h

theorem plain_of_unquoted {arg : List Char}
    (h : (utf8Bytes (String.ofList arg)).all isUnquotedByte = true) :
    ∀ c ∈ arg, isShellPlain c = true := by
  rw [all_eq_true] at h
  have hd := fromUtf8_ascii fun b hb => (isUnquotedByte_plain (h b hb)).1
  rw [fromUtf8_utf8Bytes] at hd
  have hch := congrArg String.toList (Option.some.inj hd)
  rw [String.toList_ofList, String.toList_ofList] at hch
  intro c hc
  rw [hch] at hc
  obtain ⟨b, hb, rfl⟩ := mem_map.mp hc
  exact (isUnquotedByte_plain (h b hb)).2

/-- A quoted argument is one word of the lexer, as it is. -/
theorem run_quoteArg (hm : s.mode = .outside) :
    s.run (quoteArg arg) = { s with mode := .plain, word := s.word ++ arg.map .literal } := by
  unfold quoteArg
  split
  next hmt =>
    rw [isEmpty_iff.mp hmt]
    exact run_quoted [] (.inl hm)
  next hne =>
    split
    next hp =>
      exact run_plain (.inl hm) (fun hn => hne (isEmpty_iff.mpr hn)) (plain_of_unquoted hp)
    next => exact run_quoted arg (.inl hm)

/-- An escaped argument is one word of the lexer, as it is. -/
theorem run_escapeArg (hm : s.mode = .outside) :
    s.run (escapeArg arg) = { s with mode := .plain, word := s.word ++ arg.map .literal } := by
  rw [escapeArg, escapeLoop_eq]
  exact run_quoted arg (.inl hm)

theorem run_words {quote : List Char → List Char}
    (hq : ∀ (arg : List Char) {s : ShellLexer}, s.mode = .outside →
      s.run (quote arg) = { s with mode := .plain, word := s.word ++ arg.map .literal })
    (args : List (List Char)) (hm : s.mode = .plain) :
    (s.run (args.flatMap fun arg => ' ' :: quote arg)).finish
      = some (s.tokens ++ .word s.word :: args.map .literal) := by
  induction args generalizing s with
  | nil =>
    change s.finish = _
    simp [ShellLexer.finish, hm]
  | cons arg args ih =>
    rw [flatMap_cons, cons_append, run_cons, step_space hm, run_append, hq arg rfl, ih rfl]
    simp [ShellLexer.emit, ShellToken.literal]

variable (args : List (List Char))

theorem quoteArgs_cons :
    quoteArgs (arg :: args) = quoteArg arg ++ args.flatMap fun arg => ' ' :: quoteArg arg := by
  induction args generalizing arg with
  | nil => simp [quoteArgs]
  | cons next args ih =>
    have hs : quoteArgs (arg :: next :: args) = quoteArg arg ++ ' ' :: quoteArgs (next :: args) := by
      simp [quoteArgs, intercalate]
    rw [hs, ih, flatMap_cons]
    rfl

theorem shellTokens_quoteArgs : shellTokens (quoteArgs args) = some (args.map .literal) := by
  cases args with
  | nil => rfl
  | cons arg args =>
    rw [shellTokens, quoteArgs_cons, run_append, run_quoteArg arg rfl, run_words run_quoteArg args rfl]
    rfl

/-- The exec service is read as the program and its arguments. -/
theorem shellTokens_exec {prog : List Char} (hp : PlainWord prog) (args : List (List Char)) :
    shellTokens ((execServiceString (prog :: args)).drop execPrefix.length)
      = some ((prog :: args).map .literal) := by
  have hb : (execServiceString (prog :: args)).drop execPrefix.length
      = prog ++ args.flatMap fun arg => ' ' :: escapeArg arg := by
    rfl
  rw [hb, shellTokens, run_append,
    run_plain (.inl rfl) hp.ne_nil hp.plain, run_words run_escapeArg args rfl]
  rfl

/-- The shell splits a quoted command line into the arguments it was made of, whatever they are:
one word for each, without an operator or an expansion. -/
theorem quoting_preserves_words :
    (∀ args : List (List Char), shellTokens (quoteArgs args) = some (args.map .literal)) ∧
    ∀ (prog : List Char) (args : List (List Char)), PlainWord prog →
      execPrefix <+: execServiceString (prog :: args) ∧
      shellTokens ((execServiceString (prog :: args)).drop execPrefix.length)
        = some ((prog :: args).map .literal) := by
  refine ⟨shellTokens_quoteArgs, fun prog args hp => ⟨?_, shellTokens_exec hp args⟩⟩
  exact prefix_append _ _

theorem quoting_preserves_words_pm :
    shellTokens ((execServiceString ["pm".toList, "a b;$c".toList]).drop execPrefix.length)
      = some (["pm".toList, "a b;$c".toList].map .literal) :=
  (quoting_preserves_words.2 "pm".toList ["a b;$c".toList] ⟨by decide, all_eq_true.mp rfl⟩).2

end AdbFastboot
