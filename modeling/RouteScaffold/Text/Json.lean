import RouteScaffold.Text.Quoted

/-! JSON, printed for reading.

Each item of an array and each member of an object stands on a line of its own,
two blanks further in than what holds it. Strings are written as they are, except
for the quote, the backslash and the controls. -/
namespace RouteScaffold.Text

inductive Json where
  | boolean (b : Bool)
  | text (s : String)
  | array (items : List Json)
  | object (members : List (String × Json))

namespace Json

def escape (c : Char) : List Char :=
  if c == '\x22' || c == '\\' then ['\\', c]
  else if c == '\x08' then ['\\', 'b']
  else if c == '\x0c' then ['\\', 'f']
  else if c == '\n' then ['\\', 'n']
  else if c == '\r' then ['\\', 'r']
  else if c == '\t' then ['\\', 't']
  else if c.toNat < 0x20 then
    ['\\', 'u', '0', '0', Quoted.hexDigit (c.toNat / 16), Quoted.hexDigit (c.toNat % 16)]
  else [c]

def quote (s : String) : String :=
  String.ofList ('\x22' :: (s.toList.flatMap escape ++ ['\x22']))

def margin (depth : Nat) : String := String.ofList (List.replicate (2 * depth) ' ')

/-- Parts between brackets, each on a line of its own. Without parts, the brackets alone. -/
def bracketed (opening closing : String) (depth : Nat) (parts : List String) : String :=
  if parts.isEmpty then opening ++ closing
  else
    opening ++ "\n" ++ ",\n".intercalate (parts.map (margin (depth + 1) ++ ·)) ++ "\n" ++
      margin depth ++ closing

mutual

/-- The text of a value that stands `depth` levels deep, without the margin of its first line. -/
def print (depth : Nat) : Json → String
  | .boolean b => if b then "true" else "false"
  | .text s => quote s
  | .array items => bracketed "[" "]" depth (printItems (depth + 1) items)
  | .object members => bracketed "\x7b" "\x7d" depth (printMembers (depth + 1) members)

def printItems (depth : Nat) : List Json → List String
  | [] => []
  | item :: items => print depth item :: printItems depth items

def printMembers (depth : Nat) : List (String × Json) → List String
  | [] => []
  | (key, value) :: members =>
    (quote key ++ ": " ++ print depth value) :: printMembers depth members

end

end Json
end RouteScaffold.Text
