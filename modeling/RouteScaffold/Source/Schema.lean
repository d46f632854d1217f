import RouteScaffold.Route.Field
import RouteScaffold.Source.Declaration
import RouteScaffold.Source.Entry

/-! The fields of a schema.

The value of a schema entry starts from a call `z.<type>(…)`, perhaps coerced;
the calls chained behind it may make the field optional. Calls within the
arguments of another call are not looked at. -/
namespace RouteScaffold.Source
open Text Route

/-- The text behind `c`, if that is the next solid character. -/
def nextChar? (c : Char) (cs : List Char) : Option (List Char) :=
  match trimStart cs with
  | [] => none
  | d :: rest => if d == c then some rest else none

/-- The type token a text starts with, and the rest. -/
def typeToken? (cs : List Char) : Option Cut :=
  match trimStart cs with
  | [] => none
  | c :: rest =>
    if c.isAlpha || c == '_' || c == '$' then
      let inToken := fun d => isWordChar d || d == '$'
      some (c :: rest.takeWhile inToken, rest.dropWhile inToken)
    else none

/-- The text behind `coerce` and its dot. -/
def coerced? (cs : List Char) : Option (List Char) :=
  let cs := trimStart cs
  if "coerce".toList.isPrefixOf cs then nextChar? '.' (cs.drop 6) else none

/-- The type token of a schema value, and the text behind it. -/
def baseType? : List Char → Option Cut
  | 'z' :: rest => do
    let rest ← nextChar? '.' rest
    (coerced? rest).bind typeToken? <|> typeToken? rest
  | _ => none

theorem length_behind_lt {cs rest name behind : List Char} (hdot : stripComments cs = '.' :: rest)
    (hname : identifier? (trimStart rest) = some (name, behind)) :
    (trimStart behind).length < cs.length := by
  have h₁ := length_stripComments_le cs
  have h₂ := length_trimStart_le rest
  have h₃ := congrArg List.length (text_of_identifier? hname).1
  have h₄ := length_trimStart_le behind
  simp only [Cut.text, List.length_append] at h₃
  simp only [hdot, List.length_cons] at h₁
  omega

/-- The names of the calls and members chained behind an expression. -/
def chain (cs : List Char) : List (List Char) :=
  match hdot : stripComments cs with
  | '.' :: rest =>
    match hname : identifier? (trimStart rest) with
    | none => []
    | some (name, behind) =>
      have hlt := length_behind_lt hdot hname
      match hpar : trimStart behind with
      | '(' :: args =>
        have hargs : args.length < cs.length := by
          rw [hpar, List.length_cons] at hlt
          omega
        match hclose : enclosed? '(' args with
        | none => [name]
        | some (_, after) =>
          have := length_of_enclosed? hclose
          name :: chain after
      | tail =>
        have : tail.length < cs.length := by rwa [hpar] at hlt
        name :: chain tail
  | _ => []
termination_by cs.length

/-- Whether a name in the chain lets the caller leave the field out. -/
def makesOptional (name : List Char) : Bool :=
  name == "optional".toList || name == "nullish".toList

/-- The field that an entry of a schema declares. A value that is no call of `z` has a type of
its own kind, `unknown`. -/
def Entry.field (entry : Entry) : Field :=
  let name := String.ofList entry.key
  match baseType? entry.value with
  | none => ⟨name, .other "unknown", false⟩
  | some (token, behind) =>
    let optional :=
      match trimStart behind with
      | '(' :: args =>
        match enclosed? '(' args with
        | some (_, after) => (chain after).any makesOptional
        | none => false
      | _ => false
    ⟨name, .ofToken (String.ofList token), optional⟩

/-- The fields of the schema that the source declares as `name`; none if it declares no such
schema. -/
def schemaFields (source name : List Char) : List Field :=
  match objectBody? source name .schema with
  | some body => (entries body).map Entry.field
  | none => []

end RouteScaffold.Source
