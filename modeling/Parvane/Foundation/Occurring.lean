import Mathlib.Data.List.Basic

/-!
# Values that occur in other values

Somewhere in a message there are values of another type.  They are listed along the structure
of the message: in a record, field by field; in a list, item by item.
-/

namespace Occurring

/-- The values of one type that occur in a value of another, in the order of the fields. -/
class Holds (σ : Type) (α : Type) where
  held : α -> List σ

variable {σ α : Type} [Holds σ α]

/-- The values that occur in a value. -/
def held (σ : Type) [Holds σ α] (value : α) : List σ :=
  Holds.held value

/-- A value occurs in itself. -/
instance : Holds σ σ where
  held value := [value]

instance : Holds σ (Option α) where
  held value := value.toList.flatMap (held σ)

instance : Holds σ (List α) where
  held values := values.flatMap (held σ)

@[simp] theorem held_some (value : α) : held σ (some value) = held σ value := by
  change [value].flatMap (held σ) = _
  exact List.flatMap_singleton (held σ) value

theorem held_list (values : List α) : held σ values = values.flatMap (held σ) := rfl

@[simp] theorem held_append (first second : List α) :
    held σ (first ++ second) = held σ first ++ held σ second :=
  List.flatMap_append

end Occurring
