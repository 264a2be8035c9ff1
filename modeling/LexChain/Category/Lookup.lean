import LexChain.Fault
import LexChain.Value

/-!
# `LexChain.Category.Lookup`: categories by name and by value

A category is looked up by its name, or by a value: a category is its own value,
and any other value stands for the category whose number it equals.
-/

set_option autoImplicit false

namespace LexChain

/-- The category of a name. -/
def Category.ofName (name : String) : Except Fault Category :=
  match Category.named? name with
  | some c => .ok c
  | none => .error (.unknownCategory name)

/-- The category that a value stands for. -/
def Value.toCategory {F : Type} [Callable F] [BEq F] (v : Value F) :
    Except Fault Category :=
  match Category.all.find? fun c =>
      v.same (.category c) || v.same (.int c.number) with
  | some c => .ok c
  | Option.none => .error (.notACategory v.written)

end LexChain
