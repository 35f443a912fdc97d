import AdbFastboot.HostRegistry
import Mathlib.Data.List.DropRight

namespace AdbFastboot

open List

/-- How many characters of a path stand before its names: a root, or a leading dot. -/
def pathStart : Text → Nat
  | '/' :: _ => 1
  | ['.'] => 1
  | '.' :: '/' :: _ => 1
  | _ => 0

def isPathName (name : Text) : Bool := name != [] && name != ['.']

def trimPathEnd (names : List Text) : List Text := names.rdropWhile fun name => !isPathName name

def pathParent (path : Text) : Option Text :=
  let names := trimPathEnd ((path.drop (pathStart path)).splitOn '/')
  if names = [] then if path.take (pathStart path) = ['.'] then some [] else none
  else some (path.take (pathStart path) ++ ['/'].intercalate (trimPathEnd names.dropLast))

def pathFileName (path : Text) : Option Text :=
  match (trimPathEnd ((path.drop (pathStart path)).splitOn '/')).getLast? with
  | some name => if name = "..".toList then none else some name
  | none => none

example : pathParent "out//a/./b/".toList = some "out//a".toList := by decide

def dotDot : Text := "..".toList

def pathComponents (path : Text) : List Text := (path.splitOn '/').filter isPathName

def isAbsolutePath (path : Text) : Bool := path.head? == some '/'

def pathStep (absolute : Bool) (stack : List Text) (name : Text) : List Text :=
  if name = dotDot then
    match stack with
    | [] => if absolute then [] else [dotDot]
    | top :: below => if top = dotDot then dotDot :: top :: below else below
  else name :: stack

def pathStack (path : Text) : List Text :=
  (pathComponents path).foldl (pathStep (isAbsolutePath path)) []

/-- A path is a directory or lies below it, by their texts alone. -/
def LexicallyUnder (target path : Text) : Prop :=
  isAbsolutePath path = isAbsolutePath target ∧
    ∃ below, pathStack path = below ++ pathStack target ∧ dotDot ∉ below

/-- A walk from some directory, so many levels below its start, leaves the start upwards. -/
def ClimbsFrom : Nat → List Text → Prop
  | _, [] => False
  | depth, name :: names =>
    if name = dotDot then
      match depth with
      | 0 => True
      | depth + 1 => ClimbsFrom depth names
    else ClimbsFrom (depth + 1) names

theorem climbsFrom_down (depth : Nat) {name : Text} (h : name ≠ dotDot) (names : List Text) :
    ClimbsFrom depth (name :: names) ↔ ClimbsFrom (depth + 1) names := by
  cases depth <;> simp [ClimbsFrom, h]

variable (absolute : Bool)

theorem pathStep_up {top : Text} (h : top ≠ dotDot) (below : List Text) :
    pathStep absolute (top :: below) dotDot = below := by
  simp [pathStep, h]

theorem pathStep_down (stack : List Text) {name : Text} (h : name ≠ dotDot) :
    pathStep absolute stack name = name :: stack := by
  simp [pathStep, h]

def endsWithSlash (path : Text) : Bool := path.getLast? == some '/'

def joinPath (dir name : Text) : Text :=
  if endsWithSlash dir then dir ++ name else dir ++ '/' :: name

theorem pathComponents_slash (front back : Text) :
    pathComponents (front ++ '/' :: back) = pathComponents front ++ pathComponents back := by
  rw [pathComponents, pathComponents, pathComponents, splitOn_eq_splitOnP,
    splitOn_eq_splitOnP, splitOn_eq_splitOnP, splitOnP_append_cons _ _ (by rfl),
    filter_append]

variable {dir : Text} {names : List Text}

theorem endsWithSlash_eq (h : endsWithSlash dir = true) : ∃ front, dir = front ++ ['/'] := by
  rw [endsWithSlash, beq_iff_eq] at h
  obtain ⟨front, hf⟩ := getLast?_eq_some_iff.mp h
  exact ⟨front, hf⟩

/-- A joined path has the components of both. -/
theorem pathComponents_join (dir name : Text) :
    pathComponents (joinPath dir name) = pathComponents dir ++ pathComponents name := by
  rw [joinPath]
  split
  next h =>
    obtain ⟨front, rfl⟩ := endsWithSlash_eq h
    have hn : pathComponents [] = [] := rfl
    rw [append_assoc, singleton_append, pathComponents_slash, pathComponents_slash, hn, append_nil]
  next => exact pathComponents_slash dir name

theorem isAbsolutePath_join (h : dir ≠ []) (name : Text) :
    isAbsolutePath (joinPath dir name) = isAbsolutePath dir := by
  cases dir with
  | nil => exact absurd rfl h
  | cons c dir =>
    rw [joinPath]
    split <;> rfl

theorem joinPath_ne_nil (h : dir ≠ []) (name : Text) : joinPath dir name ≠ [] := by
  rw [joinPath]
  split <;> simp [h]

def joinAll (dir : Text) (chain : List Text) : Text := chain.foldl joinPath dir

theorem pathComponents_joinAll (dir : Text) (chain : List Text) :
    pathComponents (joinAll dir chain) = pathComponents dir ++ chain.flatMap pathComponents := by
  induction chain generalizing dir with
  | nil => simp [joinAll]
  | cons name chain ih =>
    have hs : joinAll dir (name :: chain) = joinAll (joinPath dir name) chain := rfl
    rw [hs, ih, pathComponents_join, flatMap_cons, append_assoc]

theorem isAbsolutePath_joinAll (h : dir ≠ []) (chain : List Text) :
    isAbsolutePath (joinAll dir chain) = isAbsolutePath dir := by
  induction chain generalizing dir with
  | nil => rfl
  | cons name chain ih =>
    have hs : joinAll dir (name :: chain) = joinAll (joinPath dir name) chain := rfl
    rw [hs, ih (joinPath_ne_nil h name), isAbsolutePath_join h]

/-- Names that do not climb stay above where they started. -/
theorem pathStep_stays (base : List Text) {below : List Text} (hb : dotDot ∉ below)
    (h : ¬ClimbsFrom below.length names) :
    ∃ below', names.foldl (pathStep absolute) (below ++ base) = below' ++ base ∧
      dotDot ∉ below' := by
  induction names generalizing below with
  | nil => exact ⟨below, rfl, hb⟩
  | cons name names ih =>
    rw [foldl_cons]
    rcases eq_or_ne name dotDot with rfl | hn
    · cases below with
      | nil => exact absurd (by simp [ClimbsFrom]) h
      | cons top below =>
        rw [mem_cons, not_or] at hb
        rw [cons_append, pathStep_up absolute (Ne.symm hb.1)]
        exact ih hb.2 h
    · rw [climbsFrom_down _ hn] at h
      rw [pathStep_down absolute _ hn, ← cons_append]
      refine ih ?_ h
      rw [mem_cons, not_or]
      exact ⟨Ne.symm hn, hb⟩

section

variable {fresh : Text} (hdots : fresh ≠ dotDot) (hnames : fresh ∉ names)
include hdots hnames

theorem pathStep_fresh {stack : List Text} (hs : fresh ∉ stack) :
    fresh ∉ names.foldl (pathStep absolute) stack := by
  induction names generalizing stack with
  | nil => exact hs
  | cons name names ih =>
    rw [mem_cons, not_or] at hnames
    refine ih hnames.2 ?_
    rcases eq_or_ne name dotDot with rfl | hn
    · cases stack with
      | nil => cases absolute <;> simp [pathStep, hdots]
      | cons top below =>
        rcases eq_or_ne top dotDot with rfl | ht
        · simp only [pathStep, ↓reduceIte]
          rw [mem_cons, not_or]
          exact ⟨hdots, hs⟩
        · rw [pathStep_up absolute ht]
          exact fun hm => hs (mem_cons_of_mem _ hm)
    · rw [pathStep_down absolute _ hn, mem_cons, not_or]
      exact ⟨hnames.1, hs⟩

/-- Names that climb leave the place where they started. -/
theorem pathStep_climbs {below : List Text} (hb : dotDot ∉ below)
    (h : ClimbsFrom below.length names) (hf : fresh ∉ below) :
    fresh ∉ names.foldl (pathStep false) (below ++ [fresh]) := by
  induction names generalizing below with
  | nil => exact absurd h id
  | cons name names ih =>
    rw [mem_cons, not_or] at hnames
    rw [foldl_cons]
    rcases eq_or_ne name dotDot with rfl | hn
    · cases below with
      | nil =>
        rw [nil_append, pathStep_up false hdots]
        exact pathStep_fresh false hdots hnames.2 not_mem_nil
      | cons top below =>
        rw [mem_cons, not_or] at hb hf
        rw [cons_append, pathStep_up false (Ne.symm hb.1)]
        exact ih hnames.2 hb.2 h hf.2
    · rw [climbsFrom_down _ hn] at h
      rw [pathStep_down false _ hn, ← cons_append]
      refine ih hnames.2 ?_ h ?_
      · rw [mem_cons, not_or]
        exact ⟨Ne.symm hn, hb⟩
      · rw [mem_cons, not_or]
        exact ⟨hnames.1, hf⟩

end

/-- A chain that does not climb stays under the target. -/
theorem joinAll_under {target : Text} (ht : target ≠ []) {chain : List Text}
    (h : ¬ClimbsFrom 0 (chain.flatMap pathComponents)) :
    LexicallyUnder target (joinAll target chain) := by
  refine ⟨isAbsolutePath_joinAll ht chain, ?_⟩
  have hn : dotDot ∉ ([] : List Text) := not_mem_nil
  have hs := pathStep_stays (isAbsolutePath target) (pathStack target) hn h
  rw [pathStack, pathComponents_joinAll, isAbsolutePath_joinAll ht, foldl_append]
  exact hs

theorem exists_fresh (names : List Text) :
    ∃ fresh, fresh ∉ names ∧ fresh ≠ [] ∧ fresh ≠ dotDot ∧ isAbsolutePath fresh = false ∧
      pathComponents fresh = [fresh] := by
  have hl : (replicate (names.flatten.length + 3) 'x').length
      = names.flatten.length + 3 := length_replicate
  refine ⟨replicate (names.flatten.length + 3) 'x', ?_, ?_, ?_, rfl, ?_⟩
  · intro hm
    have hle := (sublist_flatten_of_mem hm).length_le
    omega
  · intro h
    rw [h] at hl
    simp at hl
  · intro h
    rw [h, dotDot] at hl
    simp at hl
  · have ho : (replicate (names.flatten.length + 3) 'x').splitOn '/'
        = [replicate (names.flatten.length + 3) 'x'] := by
      apply splitOnP_eq_singleton
      intro c hc
      rw [eq_of_mem_replicate hc]
      rfl
    rw [pathComponents, ho]
    rfl

/-- A chain that climbs leaves some target. -/
theorem exists_not_under {chain : List Text} (h : ClimbsFrom 0 (chain.flatMap pathComponents)) :
    ∃ target, target ≠ [] ∧ ¬LexicallyUnder target (joinAll target chain) := by
  obtain ⟨fresh, hnames, hne, hdots, hr, hs⟩ :=
    exists_fresh (chain.flatMap pathComponents)
  refine ⟨fresh, hne, ?_⟩
  have hst : pathStack fresh = [fresh] := by
    rw [pathStack, hs, foldl_cons, foldl_nil, pathStep_down _ _ hdots]
  have hn : dotDot ∉ ([] : List Text) := not_mem_nil
  have hl := pathStep_climbs hdots hnames hn h not_mem_nil
  rintro ⟨-, below, hp, -⟩
  rw [pathStack, pathComponents_joinAll, isAbsolutePath_joinAll hne, hr, hs,
    foldl_append, hst, foldl_cons, foldl_nil, pathStep_down _ _ hdots] at hp
  rw [nil_append, hp] at hl
  exact hl (mem_append_right below (mem_singleton_self fresh))

theorem not_under_nil (name : Text) (chain : List Text) :
    ¬LexicallyUnder [] (joinAll [] (name :: chain)) := by
  rintro ⟨ha, -⟩
  have hs : joinAll [] (name :: chain) = joinAll ('/' :: name) chain := rfl
  rw [hs, isAbsolutePath_joinAll (cons_ne_nil _ _)] at ha
  cases ha

end AdbFastboot
