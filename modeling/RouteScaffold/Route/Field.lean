/-! The fields of a schema.

Of a schema entry only three things matter: its name, the base type its value
starts from, and whether the caller may leave it out. -/
namespace RouteScaffold.Route

/-- The type a schema value starts from, named by the token after `z.`. -/
inductive BaseType where
  | string
  | number
  | boolean
  | other (token : String)
  deriving DecidableEq, Repr, Inhabited

namespace BaseType

def ofToken (token : String) : BaseType :=
  if token = "string" then .string
  else if token = "number" then .number
  else if token = "boolean" then .boolean
  else .other token

def token : BaseType → String
  | .string => "string"
  | .number => "number"
  | .boolean => "boolean"
  | .other token => token

/-- The kind of form input that asks for a value of this type. -/
def inputType : BaseType → String
  | .string => "text"
  | .number => "number"
  | .boolean => "checkbox"
  | .other _ => "text"

/-- The TypeScript type of a value. -/
def scriptType : BaseType → String
  | .string => "string"
  | .number => "number"
  | .boolean => "boolean"
  | .other token =>
    if token = "bigint" then "bigint"
    else if token = "date" then "Date"
    else if token = "array" then "unknown[]"
    else "unknown"

end BaseType

structure Field where
  name : String
  type : BaseType
  optional : Bool := false
  deriving DecidableEq, Repr, Inhabited

end RouteScaffold.Route
