/-!
# Environment variables

The variables that a run is started with, and those that a file adds to them.  A variable that is
set already is never changed by a file.
-/

namespace LiveIngest

/-- The variables that are set, each with its value. -/
abbrev Environment := List (String × String)

namespace Environment

/-- The value of a variable. -/
def get? (e : Environment) (name : String) : Option String := e.lookup name

/-- Sets a variable that is not set yet. -/
def supply (e : Environment) (name value : String) : Environment :=
  match e.get? name with
  | some _ => e
  | none => e ++ [(name, value)]

end Environment

end LiveIngest
