import MuLang.Fields

/-!
# Qualified names

A name may be preceded by the modules to look in, separated by dots.
-/
namespace MuLang

/-- A name and the modules it is qualified by, outermost first. -/
structure QualifiedName where
  path : List String
  name : String
  deriving DecidableEq, Inhabited

namespace QualifiedName

/-- The stretches of a text between its dots. -/
def parts (text : String) : List String := (fields (· == '.') text.toList).map String.ofList

/-- Splits a text at its dots: what follows the last one is the name. -/
def split (text : String) : QualifiedName := ⟨(parts text).dropLast, (parts text).getLast?.getD ""⟩

theorem split_of_not_mem {text : String} (h : '.' ∉ text.toList) : split text = ⟨[], text⟩ := by
  have hf : parts text = [text] := by
    unfold parts
    rw [fields_of_none]
    · simp
    · intro c hc
      have : c ≠ '.' := fun e => h (e ▸ hc)
      simpa using this
  simp [split, hf]

end QualifiedName

/-- Whether a text holds a dot. -/
def isDotted (text : String) : Bool := text.toList.contains '.'

/-- Names separated by dots. -/
def joinDots (names : List String) : String := ".".intercalate names

end MuLang
