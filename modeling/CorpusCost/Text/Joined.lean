/-!
# Joined texts

Texts as lists of characters, put together with a separator between any two.
-/

set_option autoImplicit false

namespace CorpusCost.Text

variable {α : Type}

/-- The lists `parts` one after the other, with `sep` between any two. -/
def joined (sep : List α) : List (List α) → List α
  | [] => []
  | [part] => part
  | part :: parts => part ++ sep ++ joined sep parts

@[simp] theorem joined_nil (sep : List α) : joined sep [] = [] := rfl

@[simp] theorem joined_singleton (sep part : List α) : joined sep [part] = part := rfl

theorem joined_cons_cons (sep part next : List α) (parts : List (List α)) :
    joined sep (part :: next :: parts) = part ++ sep ++ joined sep (next :: parts) := rfl

/-- Without a separator, joining is concatenation. -/
theorem joined_empty (parts : List (List α)) : joined [] parts = parts.flatten := by
  induction parts with
  | nil => rfl
  | cons part parts ih =>
    cases parts with
    | nil => simp
    | cons next parts => simp [joined_cons_cons, ih]

/-- The decimal digits of a natural number. -/
def natural (n : Nat) : List Char := Nat.toDigits 10 n

/-- The decimal digits of an integer, after a `-` when it is below zero. -/
def integer : Int → List Char
  | .ofNat n => natural n
  | .negSucc n => '-' :: natural (n + 1)

end CorpusCost.Text
