/-!
# Bindings

Finite maps as lists of pairs.  Binding a key again replaces its value, so no
key occurs twice.
-/

namespace Jack

structure Bindings (κ α : Type) where
  pairs : List (κ × α) := []
  deriving DecidableEq, Repr

namespace Bindings

variable {κ α : Type} [DecidableEq κ]

def get? (b : Bindings κ α) (key : κ) : Option α :=
  (b.pairs.find? fun pair => decide (pair.1 = key)).map Prod.snd

def set (b : Bindings κ α) (key : κ) (value : α) : Bindings κ α :=
  ⟨(key, value) :: b.pairs.filter fun pair => decide (pair.1 ≠ key)⟩

@[simp] theorem get?_empty (key : κ) : ({} : Bindings κ α).get? key = none := rfl

@[simp] theorem get?_set_self (b : Bindings κ α) (key : κ) (value : α) :
    (b.set key value).get? key = some value := by
  simp [get?, set]

theorem get?_set_of_ne (b : Bindings κ α) {key other : κ} (value : α)
    (h : other ≠ key) : (b.set key value).get? other = b.get? other := by
  have hkey : decide (key = other) = false := by
    simpa using fun heq => h heq.symm
  simp only [get?, set, List.find?_cons, hkey, List.find?_filter]
  congr 1
  induction b.pairs with
  | nil => rfl
  | cons pair rest ih =>
      by_cases hpair : pair.1 = other
      · simp [hpair, h]
      · simpa [List.find?_cons, hpair] using ih

end Bindings

end Jack
