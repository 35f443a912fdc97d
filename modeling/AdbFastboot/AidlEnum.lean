import AdbFastboot.HostRegistry

namespace AdbFastboot

open List

structure EnumVariant where
  name : Text
  value : Option Text

structure AidlEnum where
  name : Text
  variants : List EnumVariant

/-- What is written as the value of a variant. -/
def EnumVariant.valueText (variant : EnumVariant) (idx : Nat) : Text :=
  variant.value.getD (decimal idx)

namespace AidlEnum

variable (enm : AidlEnum)

/-- The name and the value in each line that is written for a variant. -/
def enumLines : List (Text × Text) :=
  enm.variants.zipIdx.map fun entry => (entry.1.name, entry.1.valueText entry.2)

def generateEnum : Text :=
  "#[derive(Debug, Clone, Copy, PartialEq, Eq, Hash)]\n".toList ++ "#[repr(i32)]\n".toList
    ++ "pub enum ".toList ++ enm.name ++ " \x7b\n".toList
    ++ (enm.enumLines.flatMap fun line =>
      "    ".toList ++ line.1 ++ " = ".toList ++ line.2 ++ ",\n".toList)
    ++ "\x7d\n".toList

/-- The value that the line of a variant gives it, where `value` is that of a generated expression. -/
def generatedValue (value : Text → Int) (i : Nat) : Option Int :=
  enm.enumLines[i]?.map fun line => value line.2

/-- A variant without a value of its own continues from the one before it. -/
def Continues (value : Text → Int) : Prop :=
  ∀ i variant, enm.variants[i]? = some variant → variant.value = none →
    enm.generatedValue value i
      = if i = 0 then some 0 else (enm.generatedValue value (i - 1)).map (· + 1)

section

variable {enm} {value : Text → Int} {i : Nat} {variant : EnumVariant}
  (hvariant : enm.variants[i]? = some variant)
include hvariant

/-- A variant's value is that of the text written behind its name. -/
theorem generatedValue_eq : enm.generatedValue value i = some (value (variant.valueText i)) := by
  rw [generatedValue, enumLines, getElem?_map, getElem?_zipIdx, hvariant, Nat.zero_add]
  rfl

theorem generatedValue_explicit {text : Text} (ht : variant.value = some text) :
    enm.generatedValue value i = some (value text) := by
  rw [generatedValue_eq hvariant, EnumVariant.valueText, ht]
  rfl

/-- A variant without a value gets its own position. -/
theorem generatedValue_implicit (hv : ∀ n : Nat, value (decimal n) = n)
    (hn : variant.value = none) : enm.generatedValue value i = some (i : Int) := by
  rw [generatedValue_eq hvariant, EnumVariant.valueText, hn]
  exact congrArg some (hv i)

end

/-- The values continue, exactly if each explicit value that is followed by a variant without one is
the position of its variant. -/
theorem enum_continues_iff {value : Text → Int} (hvalue : ∀ n : Nat, value (decimal n) = n) :
    enm.Continues value ↔ ∀ (i : Nat) variant next text, enm.variants[i]? = some variant →
      variant.value = some text → enm.variants[i + 1]? = some next → next.value = none →
        value text = i := by
  constructor
  · intro h i variant next text hvariant ht hnx hn
    have hc := h (i + 1) next hnx hn
    rw [generatedValue_implicit hnx hvalue hn, if_neg (Nat.succ_ne_zero i), Nat.add_sub_cancel,
      generatedValue_explicit hvariant ht] at hc
    have hs : ((i + 1 : Nat) : Int) = value text + 1 := Option.some.inj hc
    omega
  · intro h i variant hvariant hn
    rw [generatedValue_implicit hvariant hvalue hn]
    cases i with
    | zero => rfl
    | succ i =>
      have hlt := (List.getElem?_eq_some_iff.mp hvariant).1
      have hb := getElem?_eq_getElem (Nat.lt_of_succ_lt hlt)
      have hv : enm.generatedValue value i = some (i : Int) := by
        cases ht : enm.variants[i].value with
        | none => exact generatedValue_implicit hb hvalue ht
        | some text =>
          rw [generatedValue_explicit hb ht, h i _ variant text hb ht hvariant hn]
      rw [if_neg (Nat.succ_ne_zero i), Nat.add_sub_cancel, hv]
      rfl

def decimalValue (text : Text) : Int := Nat.ofDigitChars 10 text 0

def twoVariants (value : Text) : AidlEnum :=
  ⟨"E".toList, [⟨"A".toList, some value⟩, ⟨"B".toList, none⟩]⟩

theorem enum_continues_zero : (twoVariants "0".toList).Continues decimalValue := by
  refine (enum_continues_iff _ fun n => congrArg Int.ofNat Nat.ofDigitChars_ten_toDigits).mpr ?_
  rintro (_ | i) variant next text hvariant ht hn hno
  · cases hvariant
    cases ht
    rfl
  · cases hn

/-- `B` follows 5 and gets its position. -/
theorem enum_not_continued : ¬(twoVariants "5".toList).Continues decimalValue := by
  intro h
  exact absurd (h 1 _ rfl rfl) (by decide)

end AidlEnum

end AdbFastboot
