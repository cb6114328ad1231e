/-!
# Content ids

What a search needs to know of a component.
-/

namespace LicenseExpr.Search

structure ContentId where
  /-- The group that the name belongs to, if any. -/
  nameSpace : Option String
  name : String
  /-- Whether the id is complete enough to search for. -/
  valid : Bool
  deriving DecidableEq

end LicenseExpr.Search
