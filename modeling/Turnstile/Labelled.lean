/-!
# Labelled values

Values kept under labels that the user chooses. A label that is used again
stands for the new value.
-/

namespace Turnstile

abbrev Labelled (α : Type) := List (String × α)

namespace Labelled

variable {α : Type}

/-- The value under a label. -/
def get? (entries : Labelled α) (label : String) : Option α := entries.lookup label

/-- Replaces the value under a label, or adds one. -/
def assign (label : String) (a : α) : Labelled α → Labelled α
  | [] => [(label, a)]
  | (l, b) :: rest => if l = label then (label, a) :: rest else (l, b) :: assign label a rest

@[simp] theorem get?_assign_self (label : String) (a : α) (entries : Labelled α) :
    get? (assign label a entries) label = some a := by
  induction entries with
  | nil => simp [get?, assign]
  | cons e rest ih =>
    obtain ⟨l, b⟩ := e
    by_cases h : l = label
    · simp [get?, assign, h]
    · have h' : (label == l) = false := by simpa using Ne.symm h
      simpa [get?, assign, h, List.lookup_cons, h'] using ih

theorem get?_assign_of_ne {label other : String} (h : other ≠ label) (a : α)
    (entries : Labelled α) : get? (assign label a entries) other = get? entries other := by
  induction entries with
  | nil =>
    have h' : (other == label) = false := by simpa using h
    simp [get?, assign, List.lookup_cons, h']
  | cons e rest ih =>
    obtain ⟨l, b⟩ := e
    by_cases hl : l = label
    · subst hl
      have h' : (other == l) = false := by simpa using h
      simp [get?, assign, List.lookup_cons, h']
    · simp only [get?, assign, hl, if_false, List.lookup_cons] at ih ⊢
      split <;> simp_all

end Labelled

end Turnstile
