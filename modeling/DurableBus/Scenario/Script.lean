/-!
# Scripts

What a scripted party does on its first, second, … turn. A script that has run out repeats its last entry.
-/

set_option autoImplicit false

namespace DurableBus.Scenario

/-- The entry for turn `n`, counted from one; none if the script is empty. -/
def turn? {α : Type} (script : List α) (n : Nat) : Option α :=
  script[min n script.length - 1]?

end DurableBus.Scenario
