/-!
# Separated lists

Cutting a list at its separators. A list with `n` separators has `n + 1` fields, some of which may
be empty; written out again with the separators between them, the fields give the list back.
-/
namespace MuLang

/-- The stretches of a list between its separators. -/
def fields {α : Type} (isSeparator : α → Bool) : List α → List (List α)
  | [] => [[]]
  | a :: rest =>
    if isSeparator a then [] :: fields isSeparator rest
    else match fields isSeparator rest with
      | [] => [[a]]
      | field :: others => (a :: field) :: others

variable {α : Type} {isSeparator : α → Bool}

theorem fields_ne_nil (list : List α) : fields isSeparator list ≠ [] := by
  cases list with
  | nil => simp [fields]
  | cons a rest =>
    simp only [fields]
    split
    · simp
    · split <;> simp

theorem fields_of_none {list : List α} (h : ∀ a ∈ list, isSeparator a = false) :
    fields isSeparator list = [list] := by
  induction list with
  | nil => rfl
  | cons a rest ih =>
    simp only [List.mem_cons, forall_eq_or_imp] at h
    simp [fields, h.1, ih h.2]

theorem not_mem_of_mem_fields {list field : List α} (h : field ∈ fields isSeparator list) :
    ∀ a ∈ field, isSeparator a = false := by
  induction list generalizing field with
  | nil => simp [fields] at h; simp [h]
  | cons a rest ih =>
    simp only [fields] at h
    split at h
    · rcases List.mem_cons.1 h with rfl | h
      · simp
      · exact ih h
    · next ha =>
      split at h
      · next hf => exact absurd hf (fields_ne_nil rest)
      · next first others hf =>
        rcases List.mem_cons.1 h with rfl | h
        · intro b hb
          rcases List.mem_cons.1 hb with rfl | hb
          · simpa using ha
          · exact ih (by simp [hf]) b hb
        · exact ih (by simp [hf, h])

theorem fields_append_separator {field rest : List α} {separator : α}
    (hf : ∀ a ∈ field, isSeparator a = false) (hs : isSeparator separator) :
    fields isSeparator (field ++ separator :: rest) = field :: fields isSeparator rest := by
  induction field with
  | nil => simp [fields, hs]
  | cons a field ih =>
    simp only [List.mem_cons, forall_eq_or_imp] at hf
    simp [fields, hf.1, ih hf.2]

/-- The first field is the whole list, or a separator ends it. -/
theorem eq_of_fields_eq_cons {list field : List α} {others : List (List α)}
    (h : fields isSeparator list = field :: others) :
    (others = [] ∧ list = field) ∨
      ∃ separator rest, isSeparator separator ∧ list = field ++ separator :: rest ∧
        fields isSeparator rest = others := by
  induction list generalizing field with
  | nil =>
    cases h
    exact .inl ⟨rfl, rfl⟩
  | cons a list ih =>
    simp only [fields] at h
    split at h
    · next hs =>
      cases h
      exact .inr ⟨a, list, hs, rfl, rfl⟩
    · split at h
      · next hf => exact absurd hf (fields_ne_nil list)
      · next first more hf =>
        cases h
        rcases ih hf with ⟨rfl, rfl⟩ | ⟨separator, rest, hs, rfl, hr⟩
        · exact .inl ⟨rfl, rfl⟩
        · exact .inr ⟨separator, rest, hs, rfl, hr⟩

end MuLang
