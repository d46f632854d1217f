import Mathlib.Data.List.TakeDrop
import Mathlib.Data.List.TakeWhile
import RouteScaffold.Artifact.Client
import RouteScaffold.Proofs.Artifact.Declared

/-! Reading what a function takes and what it requests.

The line that starts a function ends in an opening brace, and its parameter stands behind
its last parenthesis; a request is one line, with the URL between backticks and the parts
of the request in its last object. Lines are read wherever they start (`AnyColumn`), so the
lines of a hook have the hook's parameter and no other (`parameterIn_queryHook`,
`parameterIn_mutationHook`), and those of a client's method have its parameter, its URL and
its parts (`parameterIn_clientMethod`, `addressIn_clientMethod`, `passedIn_clientMethod`). -/
namespace RouteScaffold.Artifact
open Route Text

/-! ### Reading a line -/

/-- What stands behind the last such character. -/
def behindLast? (mark : Char) : List Char → Option (List Char)
  | [] => none
  | c :: cs => (behindLast? mark cs).or (if c == mark then some cs else none)

/-- A parameter from its name and the text behind the colon. -/
def typed? (name rest : List Char) : Option Parameter :=
  match rest.span (· != ' ') with
  | (type, []) => some ⟨String.ofList name, String.ofList type, false⟩
  | (type, behind) =>
    if behind = " = \x7b\x7d".toList then some ⟨String.ofList name, String.ofList type, true⟩
    else none

/-- The parameter that a text declares. -/
def parameter? (text : List Char) : Option Parameter :=
  match text.span (· != ':') with
  | (name, ':' :: ' ' :: rest) => typed? name rest
  | _ => none

/-- The first parameter of the function that a line starts, if its type is declared: what stands
behind the last opening parenthesis. -/
def parameterIn (line : String) : List Parameter :=
  if line.toList.getLast? = some '\x7b' then
    ((behindLast? '(' line.toList).bind fun rest =>
      parameter? (rest.takeWhile fun c => c != ',' && c != ')')).toList
  else []

/-- What stands between the first backtick and the last one. -/
def addressIn (line : String) : List (List Char) :=
  match line.toList.span (· != '\x60') with
  | (_, _ :: rest) =>
    match rest.reverse.span (· != '\x60') with
    | (_, _ :: inner) => [inner.reverse]
    | _ => []
  | _ => []

/-- The words that stand behind the word `input`. -/
def behindInput : List String → List String
  | word :: name :: rest =>
    if word == "input" then name :: behindInput rest else behindInput (name :: rest)
  | _ => []

/-- The members of the input that stand in the last object of a line. -/
def passedIn (line : String) : List String :=
  match behindLast? '\x7b' line.toList with
  | some object => behindInput (words object)
  | none => []

section marks
variable {mark : Char}

theorem behindLast?_cons_of_ne {c : Char} (h : c ≠ mark) (cs : List Char) :
    behindLast? mark (c :: cs) = behindLast? mark cs := by
  rw [behindLast?, if_neg (by simpa using h), Option.or_none]

theorem behindLast?_of_notMem {cs : List Char} (h : mark ∉ cs) : behindLast? mark cs = none := by
  induction cs with
  | nil => rfl
  | cons c cs ih =>
    rw [List.mem_cons, not_or] at h
    rw [behindLast?_cons_of_ne (Ne.symm h.1), ih h.2]

theorem behindLast?_append {back : List Char} (h : mark ∉ back) (front : List Char) :
    behindLast? mark (front ++ mark :: back) = some back := by
  induction front with
  | nil =>
    rw [List.nil_append, behindLast?, behindLast?_of_notMem h, if_pos (by simp), Option.none_or]
  | cons c front ih => rw [List.cons_append, behindLast?, ih, Option.some_or]

/-- A text is cut in two at the first such character. -/
theorem span_append {front : List Char} (h : mark ∉ front) (back : List Char) :
    (front ++ mark :: back).span (· != mark) = (front, mark :: back) := by
  have hfront : ∀ c ∈ front, (c != mark) = true := fun c hc =>
    bne_iff_ne.mpr fun heq => h (heq ▸ hc)
  rw [List.span_eq_takeWhile_dropWhile, List.takeWhile_append_of_pos hfront,
    List.dropWhile_append_of_pos hfront, List.takeWhile_cons_of_neg (by simp),
    List.dropWhile_cons_of_neg (by simp), List.append_nil]

theorem span_of_notMem {cs : List Char} (h : mark ∉ cs) : cs.span (· != mark) = (cs, []) := by
  have hcs : ∀ c ∈ cs, (c != mark) = true := fun c hc => bne_iff_ne.mpr fun heq => h (heq ▸ hc)
  rw [List.span_eq_takeWhile_dropWhile, List.takeWhile_eq_self_iff.mpr hcs,
    List.dropWhile_eq_nil_iff.mpr hcs]

end marks

/-! ### Lines and blocks -/

/-- Lines are read wherever they start. -/
structure AnyColumn {α : Type} (read : String → List α) : Prop where
  empty : read "" = []
  indented : ∀ line, read ("  " ++ line) = read line

namespace AnyColumn
variable {α : Type} {read : String → List α}

theorem flatMap_indent (h : AnyColumn read) (inner : List String) :
    (indent inner).flatMap read = inner.flatMap read := by
  rw [indent, List.flatMap_map]
  refine List.flatMap_congr fun line _ => ?_
  split
  next hline => rw [beq_iff_eq.mp hline]
  next => exact h.indented line

theorem flatMap_block (h : AnyColumn read) (head : String) (inner : List String) {tail : String}
    (htail : read ("\x7d" ++ tail) = []) :
    (block head inner tail).flatMap read = read (head ++ " \x7b") ++ inner.flatMap read := by
  rw [block, enclose, List.flatMap_cons, List.flatMap_append, h.flatMap_indent,
    List.flatMap_singleton, htail, List.append_nil]

end AnyColumn

theorem indent_infix_block {lines inner : List String} (h : lines <:+: inner) (head tail : String) :
    indent lines <:+: block head inner tail := by
  have hindent : indent lines <:+: indent inner := h.map _
  exact hindent.trans ((List.prefix_append _ _).isInfix.trans (List.suffix_cons _ _).isInfix)

theorem behindLast?_indented {mark : Char} (h : mark ≠ ' ') (line : String) :
    behindLast? mark ("  " ++ line).toList = behindLast? mark line.toList := by
  rw [String.toList_append]
  exact (behindLast?_cons_of_ne (Ne.symm h) _).trans (behindLast?_cons_of_ne (Ne.symm h) _)

theorem anyColumn_parameterIn : AnyColumn parameterIn where
  empty := rfl
  indented line := by
    have hlast : ("  " ++ line).toList.getLast? = some '\x7b' ↔
        line.toList.getLast? = some '\x7b' := by
      rw [String.toList_append, List.getLast?_append]
      cases line.toList.getLast? <;> simp
    rw [parameterIn, parameterIn, behindLast?_indented (by decide)]
    simp only [hlast]

theorem anyColumn_passedIn : AnyColumn passedIn where
  empty := rfl
  indented line := by rw [passedIn, behindLast?_indented (by decide), passedIn]

theorem anyColumn_addressIn : AnyColumn addressIn where
  empty := rfl
  indented line := by
    have hpad : (("  " ++ line).toList.span (· != '\x60')).2 =
        (line.toList.span (· != '\x60')).2 := by
      simp [List.span_eq_takeWhile_dropWhile]
    unfold addressIn
    split <;> simp_all

/-! ### Parameters -/

/-- Name and type of a parameter are words. -/
structure Parameter.Plain (p : Parameter) : Prop where
  name : ∀ c ∈ p.name.toList, isPlainChar c = true
  type : ∀ c ∈ p.type.toList, isPlainChar c = true

theorem notMem_of_plain {text : String} (h : ∀ c ∈ text.toList, isPlainChar c = true) {c : Char}
    (hc : isPlainChar c = false) : c ∉ text.toList := fun hmem => by
  rw [h c hmem] at hc
  cases hc

namespace Parameter
variable {p : Parameter}

theorem toList_text (p : Parameter) :
    p.text.toList = p.name.toList ++ ':' :: ' ' ::
      (p.type.toList ++ if p.optional then " = \x7b\x7d".toList else []) := by
  rw [text]
  cases p.optional <;> simp

/-- A parameter is read back from its text. -/
theorem Plain.parameter?_text (h : p.Plain) : parameter? p.text.toList = some p := by
  have hcolon : ':' ∉ p.name.toList := notMem_of_plain h.name (by decide)
  have hblank : ' ' ∉ p.type.toList := notMem_of_plain h.type (by decide)
  obtain ⟨name, type, optional⟩ := p
  rw [toList_text, parameter?, span_append hcolon]
  change typed? name.toList (type.toList ++ _) = _
  rw [typed?]
  cases optional with
  | false =>
    rw [if_neg Bool.false_ne_true, List.append_nil, span_of_notMem hblank]
    simp
  | true =>
    have hdefault : " = \x7b\x7d".toList = ' ' :: "= \x7b\x7d".toList := rfl
    rw [if_pos rfl, hdefault, span_append hblank]
    simp

/-- Neither a comma nor a parenthesis stands in a parameter. -/
theorem Plain.notMem_text (h : p.Plain) {c : Char} (hc : c ∈ ['(', ',', ')']) :
    c ∉ p.text.toList := by
  rw [List.mem_cons, List.mem_cons, List.mem_singleton] at hc
  have hword : isPlainChar c = false := by
    rcases hc with rfl | rfl | rfl <;> decide
  have hname := notMem_of_plain h.name hword
  have htype := notMem_of_plain h.type hword
  rw [text]
  rcases hc with rfl | rfl | rfl <;> split <;> simp_all

end Parameter

/-- The line that starts a function has its parameter. -/
theorem parameterIn_of {p : Parameter} (h : p.Plain) (front back : String) {line : String}
    {closing : Char} {rest : List Char} (hline : line = front ++ "(" ++ p.text ++ back)
    (hback : back.toList = closing :: rest) (hclosing : closing ∈ [',', ')'])
    (hparen : '(' ∉ rest) (hlast : rest.getLast? = some '\x7b') : parameterIn line = [p] := by
  have hopen : '(' ∉ p.text.toList ++ closing :: rest := by
    have hne : '(' ≠ closing := fun heq => absurd (heq ▸ hclosing) (by decide)
    rw [List.mem_append, List.mem_cons]
    exact not_or.mpr ⟨h.notMem_text (by decide), not_or.mpr ⟨hne, hparen⟩⟩
  have htext : line.toList = front.toList ++ '(' :: (p.text.toList ++ closing :: rest) := by
    simp [hline, hback]
  have hend : line.toList.getLast? = some '\x7b' := by
    rw [hline, String.toList_append, hback, List.getLast?_append, List.getLast?_cons, hlast]
    rfl
  have htake : (p.text.toList ++ closing :: rest).takeWhile (fun c => c != ',' && c != ')') =
      p.text.toList := by
    rw [List.takeWhile_append_of_pos, List.takeWhile_cons_of_neg, List.append_nil]
    · rcases List.mem_cons.mp hclosing with rfl | hclosing
      · simp
      · simp [List.mem_singleton.mp hclosing]
    · intro c hc
      rw [Bool.and_eq_true, bne_iff_ne, bne_iff_ne]
      exact ⟨fun heq => h.notMem_text (by decide) (heq ▸ hc),
        fun heq => h.notMem_text (by decide) (heq ▸ hc)⟩
  rw [parameterIn, if_pos hend, htext, behindLast?_append hopen, Option.bind_some, htake,
    h.parameter?_text, Option.toList_some]

/-- A line that does not end in an opening brace starts no function. -/
theorem parameterIn_of_getLast? (front : String) {back : String} {c : Char}
    (hback : back.toList.getLast? = some c) (hc : c ≠ '\x7b') :
    parameterIn (front ++ back) = [] := by
  refine if_neg fun hlast => ?_
  rw [String.toList_append, List.getLast?_append, hback, Option.some_or] at hlast
  exact hc (Option.some.inj hlast)

/-! ### Functions -/

theorem parameterIn_state (response : String) :
    parameterIn ("const [data, setData] = useState<" ++ response ++ " | undefined>(undefined);") =
      [] :=
  parameterIn_of_getLast? _ rfl (by decide)

/-- What a hook that fetches passes on is no parameter. -/
theorem parameterIn_fetch (method : Method) {type : String}
    (htype : ∀ c ∈ type.toList, isPlainChar c = true) :
    parameterIn ("const result = await client." ++ method.token ++
      "(JSON.parse(inputKey) as " ++ type ++ "," ++ " \x7b") = [] := by
  have hparen : '(' ∉ type.toList := notMem_of_plain htype (by decide)
  have htext : ("const result = await client." ++ method.token ++
      "(JSON.parse(inputKey) as " ++ type ++ "," ++ " \x7b").toList =
        ("const result = await client." ++ method.token ++ "(JSON.parse").toList ++ '(' ::
          ("inputKey".toList ++ ')' :: (" as ".toList ++ type.toList ++ ", \x7b".toList)) := by
    simp
  have htake : ("inputKey".toList ++ ')' :: (" as ".toList ++ type.toList ++
      ", \x7b".toList)).takeWhile (fun c => c != ',' && c != ')') = "inputKey".toList := by
    simp
  have hnone : parameter? "inputKey".toList = none := rfl
  rw [parameterIn, htext, behindLast?_append (by simp [hparen]), Option.bind_some, htake, hnone]
  exact ite_self _

/-- A hook that fetches by itself takes its parameter and has no other. -/
theorem parameterIn_queryHook {h : QueryHook} (hinput : h.input.Plain) :
    h.lines.flatMap parameterIn = [h.input] := by
  have hhead : parameterIn ("export function " ++ h.name ++ "(" ++ h.input.text ++ ")" ++ " \x7b") =
      [h.input] :=
    parameterIn_of hinput ("export function " ++ h.name) ") \x7b"
      (by simp [String.append_assoc]) rfl (by decide) (by decide) rfl
  rw [QueryHook.lines, anyColumn_parameterIn.flatMap_block _ _ rfl, hhead,
    List.append_right_eq_self]
  simp only [List.flatMap_append, List.flatMap_cons, parameterIn_state]
  rw [anyColumn_parameterIn.flatMap_block _ _ rfl]
  simp only [List.flatMap_append, anyColumn_parameterIn.flatMap_indent]
  rw [anyColumn_parameterIn.flatMap_block _ _ rfl, parameterIn_fetch h.method hinput.type,
    anyColumn_parameterIn.flatMap_block _ _ rfl, anyColumn_parameterIn.flatMap_block _ _ rfl,
    anyColumn_parameterIn.flatMap_block _ _ rfl]
  -- The lines that are left are fixed; as lists of characters they are read quickly.
  simp only [List.flatMap_cons, List.flatMap_nil, parameterIn, String.toList_append]
  repeat rw [String.toList_ofList]
  decide +kernel

/-- The function that a hook returns takes the hook's parameter, and there is no other. -/
theorem parameterIn_mutationHook {h : MutationHook} (hinput : h.input.Plain) :
    h.lines.flatMap parameterIn = [h.input] := by
  have hhead : parameterIn ("export function " ++ h.name ++ "()" ++ " \x7b") = [] := by
    have htext : ("export function " ++ h.name ++ "()" ++ " \x7b").toList =
        ("export function " ++ h.name).toList ++ '(' :: ") \x7b".toList := by
      simp
    rw [parameterIn, htext, behindLast?_append (by decide)]
    exact ite_self _
  have hinvoke : parameterIn ("const " ++ h.invoke ++ " = useCallback(async (" ++ h.input.text ++
      ") =>" ++ " \x7b") = [h.input] :=
    parameterIn_of hinput ("const " ++ h.invoke ++ " = useCallback(async ") ") => \x7b"
      (by simp [← String.toList_inj]) rfl (by decide) (by decide) rfl
  have hcall : parameterIn ("const result = await " ++ h.callee.text ++ "(" ++ h.input.name ++
      ");") = [] :=
    parameterIn_of_getLast? _ rfl (by decide)
  have hreturn : parameterIn ("return \x7b " ++ h.invoke ++ ", data, error, isLoading \x7d;") =
      [] :=
    parameterIn_of_getLast? _ rfl (by decide)
  rw [MutationHook.lines, anyColumn_parameterIn.flatMap_block _ _ rfl, hhead]
  simp only [List.flatMap_append, List.flatMap_cons, List.flatMap_nil, parameterIn_state, hreturn]
  rw [anyColumn_parameterIn.flatMap_block _ _ rfl, hinvoke]
  simp only [List.flatMap_append, List.flatMap_cons, List.flatMap_nil,
    anyColumn_parameterIn.flatMap_indent, hcall]
  simp only [parameterIn]
  repeat rw [String.toList_ofList]
  rfl

/-! ### Requests -/

theorem addressIn_of {line : String} {front inner back : List Char}
    (hline : line.toList = front ++ '\x60' :: (inner ++ '\x60' :: back)) (hfront : '\x60' ∉ front)
    (hback : '\x60' ∉ back) : addressIn line = [inner] := by
  have hreverse : (inner ++ '\x60' :: back).reverse = back.reverse ++ '\x60' :: inner.reverse := by
    simp
  rw [addressIn, hline, span_append hfront]
  dsimp only
  rw [hreverse, span_append (mt List.mem_reverse.mp hback)]
  simp

theorem addressIn_of_notMem {line : String} (h : '\x60' ∉ line.toList) : addressIn line = [] := by
  rw [addressIn, span_of_notMem h]

/-- The object that a call has for the parts of a request. -/
def partsObject (parts : List RequestPart) : String :=
  if parts.isEmpty then "\x7b\x7d" else inBraces (", ".intercalate (parts.map RequestPart.text))

/-- What stands in a call behind the brace that opens its object, and what is passed on there. -/
theorem partsObject_requestParts (d : Descriptor) :
    ∃ rest, (partsObject (requestParts d)).toList = '\x7b' :: rest ∧ '\x7b' ∉ rest ∧
      '\x60' ∉ rest ∧ behindInput (words (rest ++ ", options);".toList)) =
        (requestParts d).map RequestPart.name := by
  refine ⟨(partsObject (requestParts d)).toList.tail, ?_⟩
  rw [requestParts]
  cases d.body.declared <;> cases d.searchParams.declared <;> cases d.headers.declared <;>
    decide +kernel

section requests
variable {m : ClientMethod}

/-- The line that starts a method. -/
def ClientMethod.headLine (m : ClientMethod) : String :=
  "async " ++ m.method.token ++ "(" ++ m.input.text ++
    ", options: RequestOptions = \x7b\x7d): Promise<" ++ m.response ++ ">" ++ " \x7b"

/-- What stands in front of the URL that a method requests. -/
def ClientMethod.requestFront (m : ClientMethod) : String :=
  "return this.request<" ++ m.response ++ ">(\"" ++ m.method.verb ++ "\", "

/-- The line with the request of a method. -/
def ClientMethod.requestLine (m : ClientMethod) : String :=
  m.requestFront ++ m.url ++ ", " ++ partsObject m.parts ++ ", options);"

theorem flatMap_lines_clientMethod {α : Type} {read : String → List α} (h : AnyColumn read)
    (hclosing : read ("\x7d" ++ "") = []) (m : ClientMethod) :
    m.lines.flatMap read = read m.headLine ++ read m.requestLine := by
  rw [ClientMethod.lines, h.flatMap_block _ _ hclosing, List.flatMap_singleton]
  rfl

theorem parameterIn_clientMethod (hinput : m.input.Plain)
    (hresponse : ∀ c ∈ m.response.toList, isPlainChar c = true) :
    m.lines.flatMap parameterIn = [m.input] := by
  have hparen : '(' ∉ m.response.toList := notMem_of_plain hresponse (by decide)
  let rest := " options: RequestOptions = \x7b\x7d): Promise<".toList ++ m.response.toList ++
    "> \x7b".toList
  have hback : (", options: RequestOptions = \x7b\x7d): Promise<" ++ m.response ++
      "> \x7b").toList = ',' :: rest := by
    simp [rest]
  have hlast : rest.getLast? = some '\x7b' := by
    rw [List.getLast?_append]
    rfl
  have hline : m.headLine = "async " ++ m.method.token ++ "(" ++ m.input.text ++
      (", options: RequestOptions = \x7b\x7d): Promise<" ++ m.response ++ "> \x7b") := by
    simp [ClientMethod.headLine, ← String.toList_inj]
  have hhead : parameterIn m.headLine = [m.input] :=
    parameterIn_of hinput _ _ hline hback (by decide) (by simp [rest, hparen]) hlast
  have hrequest : parameterIn m.requestLine = [] := parameterIn_of_getLast? _ rfl (by decide)
  rw [flatMap_lines_clientMethod anyColumn_parameterIn rfl, hhead, hrequest, List.append_nil]

theorem addressIn_clientMethod (hinput : m.input.Plain)
    (hresponse : ∀ c ∈ m.response.toList, isPlainChar c = true) {inner : List Char}
    (hurl : m.url.toList = '\x60' :: (inner ++ ['\x60'])) {d : Descriptor}
    (hparts : m.parts = requestParts d) : m.lines.flatMap addressIn = [inner] := by
  obtain ⟨rest, hobject, -, htick, -⟩ := partsObject_requestParts d
  rw [← hparts] at hobject
  have hmark : isPlainChar '\x60' = false := by decide
  have hname := notMem_of_plain hinput.name hmark
  have htype := notMem_of_plain hinput.type hmark
  have hword := notMem_of_plain hresponse hmark
  have hhead : addressIn m.headLine = [] := by
    have htoken : '\x60' ∉ m.method.token.toList := by cases m.method <;> decide
    refine addressIn_of_notMem ?_
    rw [ClientMethod.headLine, Parameter.text]
    split <;> simp [htoken, hname, htype, hword]
  have hrequest : addressIn m.requestLine = [inner] := by
    have hverb : '\x60' ∉ m.method.verb.toList := by cases m.method <;> decide
    have hfront : '\x60' ∉ m.requestFront.toList := by
      unfold ClientMethod.requestFront
      simp [hword, hverb]
    have hline : m.requestLine.toList = m.requestFront.toList ++
        '\x60' :: (inner ++ '\x60' :: (", ".toList ++ '\x7b' :: rest ++ ", options);".toList)) := by
      simp [ClientMethod.requestLine, hurl, hobject]
    exact addressIn_of hline hfront (by simp [htick])
  rw [flatMap_lines_clientMethod anyColumn_addressIn (by decide), hhead, hrequest,
    List.nil_append]

theorem passedIn_clientMethod {d : Descriptor} (hparts : m.parts = requestParts d) :
    m.lines.flatMap passedIn = m.parts.map RequestPart.name := by
  obtain ⟨rest, hobject, hbrace, -, hwords⟩ := partsObject_requestParts d
  rw [← hparts] at hobject hwords
  have hhead : passedIn m.headLine = [] := by
    have hline : m.headLine.toList = ("async " ++ m.method.token ++ "(" ++ m.input.text ++
        ", options: RequestOptions = \x7b\x7d): Promise<" ++ m.response ++ "> ").toList ++
          '\x7b' :: [] := by
      simp [ClientMethod.headLine]
    rw [passedIn, hline, behindLast?_append (List.not_mem_nil)]
    rfl
  have hrequest : passedIn m.requestLine = m.parts.map RequestPart.name := by
    have hline : m.requestLine.toList = (m.requestFront ++ m.url ++ ", ").toList ++
        '\x7b' :: (rest ++ ", options);".toList) := by
      simp [ClientMethod.requestLine, hobject]
    rw [passedIn, hline, behindLast?_append (by simp [hbrace])]
    exact hwords
  rw [flatMap_lines_clientMethod anyColumn_passedIn (by decide), hhead, hrequest,
    List.nil_append]

end requests

end RouteScaffold.Artifact
