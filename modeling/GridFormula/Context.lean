import GridFormula.Value

/-!
# Contexts

A context binds the named parameters that are visible to a formula. A name that it binds refers
to a parameter; any other bare name refers to a field.

## Main definitions

* `Context`: the bindings.
* `Context.get?`, `Context.contains`, `Context.set`.

## Main results

* `Context.get?_set_self`, `Context.get?_set_ne`: what a binding changes and what it keeps.
-/

namespace GridFormula

/-- The named parameters that are visible to a formula. -/
structure Context where
  /-- The bindings, the latest first. A later binding of a name hides an earlier one. -/
  bindings : List (String × Value) := []

namespace Context

/-- The context without parameters. -/
def empty : Context := ⟨[]⟩

/-- The value bound to `name`. -/
def get? (context : Context) (name : String) : Option Value :=
  context.bindings.lookup name

/-- Whether `name` is bound. -/
def contains (context : Context) (name : String) : Bool :=
  (context.get? name).isSome

/-- The context with `name` bound to `value`. -/
def set (context : Context) (name : String) (value : Value) : Context :=
  ⟨(name, value) :: context.bindings⟩

@[simp] theorem get?_empty (name : String) : empty.get? name = none := rfl

@[simp] theorem get?_set_self (context : Context) (name : String) (value : Value) :
    (context.set name value).get? name = some value := by
  simp [get?, set]

theorem get?_set_ne (context : Context) {name other : String} (value : Value)
    (h : other ≠ name) : (context.set name value).get? other = context.get? other := by
  have : (other == name) = false := by simpa using h
  simp only [get?, set, List.lookup_cons, this]

end Context

end GridFormula
