/-! The HTTP methods a route can answer. -/
namespace RouteScaffold.Route

inductive Method where
  | get
  | post
  | put
  | patch
  | delete
  deriving DecidableEq, Repr, Inhabited

namespace Method

def all : List Method := [.get, .post, .put, .patch, .delete]

/-- The method as descriptor file names spell it. -/
def token : Method → String
  | .get => "get"
  | .post => "post"
  | .put => "put"
  | .patch => "patch"
  | .delete => "delete"

/-- The method as requests spell it. -/
def verb : Method → String
  | .get => "GET"
  | .post => "POST"
  | .put => "PUT"
  | .patch => "PATCH"
  | .delete => "DELETE"

/-- Only reading is fetched by itself; all else waits to be called. -/
def isQuery (m : Method) : Bool := m == .get

def ofToken? (token : String) : Option Method := all.find? (·.token == token)

theorem mem_all (m : Method) : m ∈ all := by cases m <;> decide

theorem token_injective {m n : Method} (h : m.token = n.token) : m = n := by
  cases m <;> cases n <;> first | rfl | simp [token] at h

theorem ofToken?_token (m : Method) : ofToken? m.token = some m := by cases m <;> decide

theorem token_of_ofToken? {t : String} {m : Method} (h : ofToken? t = some m) : m.token = t := by
  simpa using List.find?_some h

end Method
end RouteScaffold.Route
