/-!
# How many digits an integer may have
-/

namespace Criteria

/-- The largest number of decimal digits with which an integer is read or written. -/
def maxIntDigits : Nat := 4300

end Criteria
