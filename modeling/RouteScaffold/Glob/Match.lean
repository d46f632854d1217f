import RouteScaffold.Glob.Pattern
import RouteScaffold.Path.Basic

/-! Matching a path with a glob pattern.

The path is matched as it is spelled, from its first character to its last, and
case counts. Only `**` and a literal slash can match a slash; a dot in front of a
name is a character like any other. -/
namespace RouteScaffold.Glob

def Span.contains (s : Span) (c : Char) : Bool := s.first ≤ c && c ≤ s.last

/-- Whether a token that stands for one character stands for `c`. -/
def Token.accepts (c : Char) : Token → Bool
  | .char d => c == d
  | .anyChar => c != '/'
  | .oneOf spans => c != '/' && spans.any (·.contains c)
  | .noneOf spans => c != '/' && !spans.any (·.contains c)
  | .anyRun => false
  | .anyDepth => false

/-- Whether `rest` accepts what is left of the text after a run within one component. -/
def anyRunThen (rest : List Char → Bool) : List Char → Bool
  | [] => rest []
  | c :: cs => rest (c :: cs) || (c != '/' && anyRunThen rest cs)

/-- Whether `rest` accepts the text behind one of its slashes, or behind all of it. -/
def anyDepthThen (rest : List Char → Bool) : List Char → Bool
  | [] => rest []
  | c :: cs => (c == '/' && rest cs) || anyDepthThen rest cs

/-- Whether tokens match a text from its first character to its last. -/
def matchesText : List Token → List Char → Bool
  | [], cs => cs.isEmpty
  | .anyRun :: tokens, cs => anyRunThen (matchesText tokens) cs
  | .anyDepth :: tokens, cs => matchesText tokens cs || anyDepthThen (matchesText tokens) cs
  | token :: tokens, cs =>
    match cs with
    | [] => false
    | c :: cs => token.accepts c && matchesText tokens cs

def Pattern.matchesPath (p : Pattern) (path : Path) : Bool :=
  matchesText p.tokens path.text.toList

end RouteScaffold.Glob
