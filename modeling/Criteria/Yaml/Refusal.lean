import Criteria.ValueFault

/-!
# Refusals

Why a text gives no data: it is not of the form, or it spells a value that cannot be had.
-/

namespace Criteria.Yaml

/-- Why a text gives no data. -/
inductive Refusal
  /-- The text is not of the form. -/
  | unreadable
  /-- A value in it cannot be had. -/
  | value (fault : ValueFault)
  deriving DecidableEq, Repr

end Criteria.Yaml
