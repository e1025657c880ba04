import ScalarSolve.Text.Blank
import Mathlib.Data.List.DropRight

/-!
# Trimming

A text is blanks, what is left when it is trimmed, and blanks again; and what is left has no blank
at either end, so that trimming it once more changes nothing.
-/

namespace ScalarSolve.Text

theorem trimChars_eq_rdropWhile (cs : List Char) :
    trimChars cs = (cs.dropWhile isBlank).rdropWhile isBlank := rfl

/-- Trimming takes blanks away at both ends and nothing else. -/
theorem exists_blanks (cs : List Char) :
    ∃ front back, (∀ c ∈ front, isBlank c) ∧ (∀ c ∈ back, isBlank c) ∧
      cs = front ++ trimChars cs ++ back := by
  refine ⟨cs.takeWhile isBlank, (cs.dropWhile isBlank).rtakeWhile isBlank, ?_, ?_, ?_⟩
  · exact fun c h ↦ List.mem_takeWhile_imp h
  · exact fun c h ↦ List.mem_rtakeWhile_imp h
  · rw [List.append_assoc, trimChars_eq_rdropWhile, List.rdropWhile_append_rtakeWhile,
      List.takeWhile_append_dropWhile]

theorem trimChars_trimChars (cs : List Char) : trimChars (trimChars cs) = trimChars cs := by
  have front : (trimChars cs).dropWhile isBlank = trimChars cs := by
    rw [List.dropWhile_eq_self_iff]
    intro some
    have kept : trimChars cs <+: cs.dropWhile isBlank := List.rdropWhile_prefix isBlank _
    rw [kept.getElem some]
    exact List.dropWhile_get_zero_not isBlank cs _
  rw [trimChars_eq_rdropWhile (trimChars cs), front, trimChars_eq_rdropWhile,
    List.rdropWhile_idempotent]

theorem toList_trim (text : String) : (trim text).toList = trimChars text.toList :=
  String.toList_ofList

theorem trim_trim (text : String) : trim (trim text) = trim text := by
  rw [trim, toList_trim, trimChars_trimChars]
  rfl

end ScalarSolve.Text
