import Mathlib.Data.List.Basic
import RouteScaffold.Proofs.Artifact.References
import RouteScaffold.Proofs.Route.DescriptorNames

/-! Reading from a module which names it binds.

The names that a module binds stand in its text: an import lists them in front of the
word `from`, and a declaration starts at the margin with its kind and its name. Read
off line by line, they are those of the module's imports and declarations
(`declaredIn_lines`), and those of the methods of a class are the client's
(`methodIn_clientLines`). -/
namespace RouteScaffold.Artifact
open Route Text

/-! ### Reading a line -/

/-- What stands in front of the name in a line that declares one at the margin. -/
def openings : List String := exportOpenings ++ ["interface ", "function ", "const "]

/-- What stands in front of the name where a method of a class starts. -/
def methodOpenings : List String := ["async ", "private async "]

/-- The name behind the first of the openings that the line starts with. -/
def nameBehind? (openings : List String) (line : String) : Option String :=
  (openings.findSome? (behind? · line.toList)).map fun rest =>
    String.ofList (rest.takeWhile isPlainChar)

/-- The words of a text, and an empty one where nothing stands between two other characters. -/
def words (cs : List Char) : List String := (separate (!isPlainChar ·) cs).map String.ofList

/-- What stands among the names of an import without being one. -/
def reserved : List String := ["", "type", "as", "from"]

/-- The names that a line binds in its module. -/
def declaredIn (line : String) : List String :=
  match behind? "import " line.toList with
  | some rest => ((words rest).takeWhile (· != "from")).filter (· ∉ reserved)
  | none => (nameBehind? openings line).toList

/-- The method that starts at the margin. -/
def methodAt (line : String) : List String := (nameBehind? methodOpenings line).toList

/-- The method that starts in a line of a class. -/
def methodIn (line : String) : List String :=
  match behind? "  " line.toList with
  | some rest => methodAt (String.ofList rest)
  | none => []

/-- A name that can stand in an import. -/
structure IsIdentifier (name : String) : Prop where
  plain : ∀ c ∈ name.toList, isPlainChar c = true
  notMem_reserved : name ∉ reserved

/-! ### Openings -/

/-- No opening starts with another one. -/
def Distinguished (openings : List String) : Prop :=
  ∀ a ∈ openings, ∀ b ∈ openings, a.toList.isPrefixOf b.toList → a = b

instance (openings : List String) : Decidable (Distinguished openings) :=
  inferInstanceAs (Decidable (∀ a ∈ openings, ∀ b ∈ openings, _ → _))

theorem Distinguished.eq_of_append {openings : List String} (h : Distinguished openings)
    {a b : String} (ha : a ∈ openings) (hb : b ∈ openings) {x y : List Char}
    (heq : a.toList ++ x = b.toList ++ y) : a = b := by
  simp only [Distinguished, List.isPrefixOf_iff_prefix] at h
  rcases List.prefix_or_prefix_of_prefix ⟨x, heq⟩ ⟨y, rfl⟩ with hab | hba
  · exact h a ha b hb hab
  · exact (h b hb a ha hba).symm

/-- Behind an opening the name is read, up to a character that is no part of it. -/
theorem nameBehind?_of {openings : List String} (h : Distinguished openings) {opening : String}
    (hopening : opening ∈ openings) {name rest : String}
    (hname : ∀ c ∈ name.toList, isPlainChar c = true) {c : Char}
    (hrest : rest.toList.head? = some c) (hc : isPlainChar c = false) :
    nameBehind? openings (opening ++ name ++ rest) = some name := by
  obtain ⟨tail, htail⟩ := List.head?_eq_some_iff.mp hrest
  have hline : (opening ++ name ++ rest).toList =
      opening.toList ++ (name.toList ++ c :: tail) := by
    simp [htail]
  have hfound : openings.findSome? (behind? · (opening ++ name ++ rest).toList) =
      some (name.toList ++ c :: tail) := by
    rw [hline]
    cases hfind : openings.findSome? (behind? · (opening.toList ++ (name.toList ++ c :: tail))) with
    | none =>
      have := List.findSome?_eq_none_iff.mp hfind opening hopening
      rw [behind?_eq_some_iff.mpr rfl] at this
      cases this
    | some back =>
      obtain ⟨other, hother, hback⟩ := List.exists_of_findSome?_eq_some hfind
      have hback := behind?_eq_some_iff.mp hback
      obtain rfl := h.eq_of_append hother hopening hback.symm
      rw [List.append_cancel_left hback]
  rw [nameBehind?, hfound, Option.map_some, List.takeWhile_append_of_pos hname,
    List.takeWhile_cons_of_neg (by simp [hc]), List.append_nil, String.ofList_toList]

/-- No opening starts as the text does, which has this first character. -/
def NoneStarts (openings : List String) (first : Option Char) : Prop :=
  ∀ opening ∈ openings, opening.toList.head? ≠ none ∧ opening.toList.head? ≠ first

instance (openings : List String) (first : Option Char) : Decidable (NoneStarts openings first) :=
  inferInstanceAs (Decidable (∀ opening ∈ openings, _ ∧ _))

theorem behind?_of_noneStarts {openings : List String} {first : Option Char}
    (h : NoneStarts openings first) {opening : String} (hopening : opening ∈ openings)
    {line : String} (hline : line.toList.head? = first) : behind? opening line.toList = none := by
  obtain ⟨hne, hfirst⟩ := h opening hopening
  rw [Option.eq_none_iff_forall_ne_some]
  intro rest hrest
  rw [behind?_eq_some_iff.mp hrest, List.head?_append] at hline
  cases hhead : opening.toList.head? with
  | none => exact hne hhead
  | some c => exact hfirst (by rw [← hline, hhead]; rfl)

theorem nameBehind?_of_noneStarts {openings : List String} {first : Option Char}
    (h : NoneStarts openings first) {line : String} (hline : line.toList.head? = first) :
    nameBehind? openings line = none := by
  rw [nameBehind?, Option.map_eq_none_iff, List.findSome?_eq_none_iff]
  exact fun opening hopening => behind?_of_noneStarts h hopening hline

/-! ### Lines that declare -/

/-- The openings of all lines that bind a name. -/
def allOpenings : List String := "import " :: openings

theorem distinguished_allOpenings : Distinguished allOpenings := by decide

theorem distinguished_openings : Distinguished openings := fun a ha b hb =>
  distinguished_allOpenings a (List.mem_cons_of_mem _ ha) b (List.mem_cons_of_mem _ hb)

/-- A line that declares a name binds it and nothing else. -/
theorem declaredIn_of {opening name rest : String} (hopening : opening ∈ openings)
    (hname : IsIdentifier name) {c : Char} (hrest : rest.toList.head? = some c)
    (hc : isPlainChar c = false) : declaredIn (opening ++ name ++ rest) = [name] := by
  have himport : behind? "import " (opening ++ name ++ rest).toList = none := by
    rw [Option.eq_none_iff_forall_ne_some]
    intro back hback
    rw [behind?_eq_some_iff, String.append_assoc, String.toList_append] at hback
    have heq := distinguished_allOpenings.eq_of_append (List.mem_cons_of_mem _ hopening)
      (List.mem_cons_self ..) hback
    rw [heq] at hopening
    exact absurd hopening (by decide)
  rw [declaredIn, himport,
    nameBehind?_of distinguished_openings hopening hname.plain hrest hc]
  rfl

theorem noneStarts_allOpenings {first : Option Char}
    (h : first ∉ [some 'c', some 'e', some 'f', some 'i']) : NoneStarts allOpenings first := by
  have hall : ∀ opening ∈ allOpenings,
      opening.toList.head? ∈ [some 'c', some 'e', some 'f', some 'i'] := by
    simp only [allOpenings, openings, exportOpenings, List.cons_append, List.nil_append,
      List.forall_mem_cons]
    repeat rw [String.toList_ofList]
    decide
  refine fun opening hopening => ⟨?_, fun heq => h (heq ▸ hall opening hopening)⟩
  intro hnone
  exact absurd (hnone ▸ hall opening hopening) (by decide)

/-- A line that starts with another character binds nothing. -/
theorem declaredIn_of_first {line : String} (first : Option Char)
    (hline : line.toList.head? = first) (h : first ∉ [some 'c', some 'e', some 'f', some 'i']) :
    declaredIn line = [] := by
  have hfirst := noneStarts_allOpenings h
  have hopenings : NoneStarts openings first := fun opening hopening =>
    hfirst opening (List.mem_cons_of_mem _ hopening)
  rw [declaredIn, behind?_of_noneStarts hfirst (List.mem_cons_self ..) hline,
    nameBehind?_of_noneStarts hopenings hline]
  rfl

theorem declaredIn_of_isInner {line : String} (h : IsInner line) : declaredIn line = [] := by
  refine declaredIn_of_first _ rfl ?_
  simp only [IsInner, List.mem_cons, List.not_mem_nil, or_false] at h
  rcases h with h | h | h | h <;> rw [h] <;> decide

/-- Only lines at the margin are read, and not those that close a block. -/
structure AtMargin (read : String → List String) : Prop where
  empty : read "" = []
  indented : ∀ line, read ("  " ++ line) = []
  closing : ∀ tail, read ("\x7d" ++ tail) = []

theorem atMargin_declaredIn : AtMargin declaredIn where
  empty := declaredIn_of_first none rfl (by decide)
  indented line := declaredIn_of_first (some ' ') (by simp) (by decide)
  closing tail := declaredIn_of_first (some '\x7d') (by simp) (by decide)

theorem atMargin_methodAt : AtMargin methodAt where
  empty := by decide
  indented line := by
    have hfirst : NoneStarts methodOpenings (some ' ') := by decide
    rw [methodAt, nameBehind?_of_noneStarts hfirst (by simp)]
    rfl
  closing tail := by
    have hfirst : NoneStarts methodOpenings (some '\x7d') := by decide
    rw [methodAt, nameBehind?_of_noneStarts hfirst (by simp)]
    rfl

namespace AtMargin
variable {read : String → List String}

theorem flatMap_indent (h : AtMargin read) (inner : List String) :
    (indent inner).flatMap read = [] := by
  rw [List.flatMap_eq_nil_iff]
  intro line hline
  obtain ⟨text, -, rfl⟩ := List.mem_map.mp hline
  split
  · exact h.empty
  · exact h.indented text

/-- Of a block the head is read. -/
theorem flatMap_block (h : AtMargin read) (head : String) (inner : List String) (tail : String) :
    (block head inner tail).flatMap read = read (head ++ " \x7b") := by
  rw [block, enclose, List.flatMap_cons, List.flatMap_append, h.flatMap_indent,
    List.flatMap_singleton, h.closing, List.append_nil, List.append_nil]

end AtMargin

/-- Lines that a name heads bind it and nothing else. -/
theorem HeadedBy.declaredIn {opening name : String} {lines : List String}
    (h : HeadedBy opening name lines) (hopening : opening ∈ openings)
    (hname : IsIdentifier name) : lines.flatMap declaredIn = [name] := by
  obtain ⟨c, rest, inner, rfl, hrest, hc, hinner⟩ := h.starts
  have hnone : inner.flatMap Artifact.declaredIn = [] := by
    rw [List.flatMap_eq_nil_iff]
    exact fun line hline => declaredIn_of_isInner (hinner line hline)
  rw [List.flatMap_cons, hnone, List.append_nil]
  exact declaredIn_of hopening hname hrest hc

/-! ### Imports -/

theorem words_append {c : Char} (hc : isPlainChar c = false) (a b : List Char) :
    words (a ++ c :: b) = words a ++ words b := by
  rw [words, separate_append (by simp [hc]), List.map_append]
  rfl

/-- The text is a part of an import in front of `from` that lists the names. -/
structure Lists (cs : List Char) (names : List String) : Prop where
  fromless : "from" ∉ words cs
  filter_words : (words cs).filter (· ∉ reserved) = names

theorem Lists.append {a b : List Char} {xs ys : List String} (ha : Lists a xs) (c : Char)
    (hb : Lists b ys) (hc : isPlainChar c = false := by decide) :
    Lists (a ++ c :: b) (xs ++ ys) where
  fromless := by
    rw [words_append hc, List.mem_append, not_or]
    exact ⟨ha.fromless, hb.fromless⟩
  filter_words := by rw [words_append hc, List.filter_append, ha.filter_words, hb.filter_words]

theorem Lists.name {name : String} (h : IsIdentifier name) : Lists name.toList [name] := by
  have hword : words name.toList = [name] := by
    rw [words, separate_of_forall fun c hc => by simp [h.plain c hc], List.map_singleton,
      String.ofList_toList]
  refine ⟨?_, ?_⟩
  · rw [hword, List.mem_singleton]
    rintro rfl
    exact h.notMem_reserved (by decide)
  · rw [hword]
    exact List.filter_cons_of_pos (by simpa using h.notMem_reserved)

theorem Lists.nil : Lists [] [] := ⟨by decide, by decide⟩

theorem lists_imported {n : ImportedName} (h : IsIdentifier n.name) :
    Lists n.text.toList [n.name] := by
  rw [ImportedName.text]
  split
  · have htype : Lists "type".toList [] := ⟨by decide, by decide⟩
    have hcut : ("type " ++ n.name).toList = "type".toList ++ ' ' :: n.name.toList := by
      simp
    rw [hcut]
    exact htype.append ' ' (.name h)
  · exact .name h

theorem lists_intercalate {imported : List ImportedName}
    (h : ∀ n ∈ imported, IsIdentifier n.name) :
    Lists (", ".intercalate (imported.map ImportedName.text)).toList
      (imported.map ImportedName.name) := by
  induction imported with
  | nil => exact .nil
  | cons n rest ih =>
    rw [List.forall_mem_cons] at h
    cases rest with
    | nil => simpa using lists_imported h.1
    | cons m rest =>
      have hcut : (", ".intercalate ((n :: m :: rest).map ImportedName.text)).toList =
          n.text.toList ++ ',' :: ([] ++ ' ' ::
            (", ".intercalate ((m :: rest).map ImportedName.text)).toList) := by
        simp [String.toList_intercalate]
      rw [hcut]
      exact (lists_imported h.1).append ',' (Lists.nil.append ' ' (ih h.2))

theorem lists_binding {i : Import} (h : ∀ name ∈ i.locals, IsIdentifier name) :
    Lists i.binding.text.toList i.locals := by
  obtain ⟨typeOnly, binding, module⟩ := i
  cases binding with
  | all name =>
    have hall : Lists "* as".toList [] := ⟨by decide, by decide⟩
    have hcut : (Binding.all name).text.toList = "* as".toList ++ ' ' :: name.toList := by
      simp [Binding.text]
    rw [hcut]
    exact hall.append ' ' (.name (h name (List.mem_singleton_self _)))
  | names imported =>
    have hbrace : Lists ['\x7b'] [] := ⟨by decide, by decide⟩
    have hbrace' : Lists ['\x7d'] [] := ⟨by decide, by decide⟩
    have hnames := lists_intercalate fun n hn => h n.name (List.mem_map_of_mem hn)
    have hcut : (Binding.names imported).text.toList = ['\x7b'] ++ ' ' ::
        ((", ".intercalate (imported.map ImportedName.text)).toList ++ ' ' :: ['\x7d']) := by
      simp [Binding.text, inBraces]
    rw [hcut]
    simpa [Import.locals] using hbrace.append ' ' (hnames.append ' ' hbrace')

/-- An import binds the names that it brings in. -/
theorem declaredIn_import {i : Import} (h : ∀ name ∈ i.locals, IsIdentifier name) :
    declaredIn i.text = i.locals := by
  have hlists := lists_binding h
  -- A type import has one more word in front of what it binds.
  obtain ⟨front, hfront, htext⟩ : ∃ front, Lists front i.locals ∧
      i.text.toList = "import ".toList ++ (front ++ ' ' ::
        ("from".toList ++ ' ' :: ("\"" ++ i.module ++ "\";").toList)) := by
    cases htype : i.typeOnly with
    | true =>
      have hword : Lists "type".toList [] := ⟨by decide, by decide⟩
      exact ⟨_, hword.append ' ' hlists, by simp [Import.text, htype]⟩
    | false => exact ⟨_, hlists, by simp [Import.text, htype]⟩
  have hfrom : words "from".toList = ["from"] := by decide
  rw [declaredIn, behind?_eq_some_iff.mpr htext]
  change ((words _).takeWhile _).filter _ = _
  rw [words_append (by decide), words_append (by decide), hfrom,
    List.takeWhile_append_of_pos, List.singleton_append, List.takeWhile_cons_of_neg (by simp),
    List.append_nil, hfront.filter_words]
  intro word hword
  rw [bne_iff_ne]
  rintro rfl
  exact hfront.fromless hword

/-! ### Declarations -/

/-- The names that a declaration binds in its module, those it does not export included. -/
def Declaration.names : Declaration → List String
  | .clientTypes => ["RequestOptions", "RequestParts"]
  | .clientInstance _ => ["client"]
  | .formReaders => ["readString", "readNumber", "readBoolean", "readPrefixed"]
  | d => d.exports

theorem headedBy_clientInstance (name : String) :
    HeadedBy "const " "client" (Declaration.clientInstance name).lines :=
  headedBy_line "const " ' ' (" = new " ++ (name ++ "();")) (by simp [← String.toList_inj])
    (by simp) (by decide)

theorem declaredIn_routeConstants {methods : List Method}
    (h : ∀ name ∈ methods.map Method.verb, IsIdentifier name) :
    (Declaration.routeConstants methods).lines.flatMap declaredIn = methods.map Method.verb := by
  rw [Declaration.lines, List.flatMap_map, List.map_eq_flatMap]
  refine List.flatMap_congr fun m hm => ?_
  simpa using (headedBy_routeConstant m).declaredIn (by decide) (h _ (List.mem_map_of_mem hm))

theorem declaredIn_handler (segments : List String) (methods : List Method) :
    (Declaration.handler segments methods).lines.flatMap declaredIn = [] := by
  have hhead : declaredIn "export default createPagesRoute(\x7b" = [] := by decide
  have htail : declaredIn "\x7d);" = [] := atMargin_declaredIn.closing ");"
  rw [Declaration.lines, enclose, List.flatMap_cons, List.flatMap_append,
    atMargin_declaredIn.flatMap_indent, List.flatMap_singleton, hhead, htail]
  rfl

theorem declaredIn_clientTypes (hoptions : IsIdentifier "RequestOptions")
    (hparts : IsIdentifier "RequestParts") :
    clientTypes.flatMap declaredIn = ["RequestOptions", "RequestParts"] := by
  obtain ⟨options, parts, htypes, hfirst, hsecond⟩ := exists_clientTypes
  rw [htypes, List.flatMap_append, List.flatMap_append, hfirst.declaredIn (by decide) hoptions,
    hsecond.declaredIn (by decide) hparts, List.flatMap_singleton, atMargin_declaredIn.empty]
  rfl

/-- The readers of a form are four functions. -/
theorem declaredIn_formReaders (h : ∀ name ∈ Declaration.formReaders.names, IsIdentifier name) :
    formReaders.flatMap declaredIn = Declaration.formReaders.names := by
  rw [Declaration.names, List.forall_mem_cons, List.forall_mem_cons, List.forall_mem_cons,
    List.forall_mem_singleton] at h
  obtain ⟨hstring, hnumber, hboolean, hprefixed⟩ := h
  rw [formReaders]
  simp only [List.flatMap_append, List.flatMap_singleton, atMargin_declaredIn.empty]
  rw [(headedBy_block "function " '(' "(formData: FormData, key: string): string | undefined \x7b"
      (by simp) (by simp) (by decide)).declaredIn (by decide) hstring,
    (headedBy_block "function " '(' "(formData: FormData, key: string): number | undefined \x7b"
      (by simp) (by simp) (by decide)).declaredIn (by decide) hnumber,
    (headedBy_block "function " '(' "(formData: FormData, key: string): boolean \x7b"
      (by simp) (by simp) (by decide)).declaredIn (by decide) hboolean,
    (headedBy_block "function " '(' ("(formData: FormData, prefix: string): " ++
      "Record<string, FormDataEntryValue> \x7b")
      (by simp) (by simp) (by decide)).declaredIn (by decide) hprefixed]
  rfl

/-- The lines of a declaration bind its names. -/
theorem declaredIn_declaration {d : Declaration} (h : ∀ name ∈ d.names, IsIdentifier name) :
    d.lines.flatMap declaredIn = d.names := by
  have honly {name : String} (h : ∀ only ∈ [name], IsIdentifier only) : IsIdentifier name :=
    List.forall_mem_singleton.mp h
  cases d with
  | routeConstants methods => exact declaredIn_routeConstants h
  | handler segments methods => exact declaredIn_handler segments methods
  | clientTypes => exact declaredIn_clientTypes (h _ (by decide)) (h _ (by decide))
  | formReaders => exact declaredIn_formReaders h
  | clientInstance name => exact (headedBy_clientInstance name).declaredIn (by decide) (honly h)
  | inputType name members =>
    exact (headedBy_inputType name members).declaredIn (by decide) (honly h)
  | responseType name config =>
    exact (headedBy_responseType name config).declaredIn (by decide) (honly h)
  | client name methods => exact (headedBy_client name methods).declaredIn (by decide) (honly h)
  | queryHook hook => exact (headedBy_queryHook hook).declaredIn (by decide) (honly h)
  | mutationHook hook => exact (headedBy_mutationHook hook).declaredIn (by decide) (honly h)
  | action a => exact (headedBy_action a).declaredIn (by decide) (honly h)
  | formAction f => exact (headedBy_formAction f).declaredIn (by decide) (honly h)
  | formDefinitionType => exact headedBy_formDefinitionType.declaredIn (by decide) (honly h)
  | formDefinitions name inputs =>
    exact (headedBy_formDefinitions name inputs).declaredIn (by decide) (honly h)
  | formComponent name inputs =>
    exact (headedBy_formComponent name inputs).declaredIn (by decide) (honly h)

/-! ### Modules -/

namespace Script
variable {s : Script}

/-- The names that a module binds. -/
def names (s : Script) : List String :=
  s.imports.flatMap Import.locals ++ s.declarations.flatMap Declaration.names

/-- What stands in a module line by line, if there is nothing in an empty line. -/
theorem flatMap_lines {α : Type} {f : String → List α} (hempty : f "" = []) (s : Script) :
    s.lines.flatMap f =
      (if s.onServer then f serverDirective else []) ++ f marker ++
        s.imports.flatMap (fun i => f i.text) ++
        s.declarations.flatMap fun d => d.lines.flatMap f := by
  rw [lines]
  split
  next first rest himports hlines =>
    have hdeclarations : s.declarations.flatMap (fun d => d.lines.flatMap f) =
        (first :: rest).flatMap (·.flatMap f) := by
      rw [← hlines, List.flatMap_map]
    rw [hdeclarations, himports]
    cases s.onServer <;> simp [List.flatMap_assoc, hempty]
  · cases s.onServer <;> simp [List.flatMap_map, List.flatMap_assoc, hempty]

/-- Read off line by line, a module binds the names of its imports and declarations. -/
theorem declaredIn_lines (h : ∀ name ∈ s.names, IsIdentifier name) :
    s.lines.flatMap declaredIn = s.names := by
  have hempty := atMargin_declaredIn.empty
  have hdirective : declaredIn serverDirective = [] :=
    declaredIn_of_first (some '"') rfl (by decide)
  have hmarker : declaredIn marker = [] := declaredIn_of_first (some '/') rfl (by decide)
  have himports : s.imports.flatMap (fun i => declaredIn i.text) =
      s.imports.flatMap Import.locals :=
    List.flatMap_congr fun i hi => declaredIn_import fun name hname =>
      h name (List.mem_append_left _ (List.mem_flatMap.mpr ⟨i, hi, hname⟩))
  have hdeclarations : s.declarations.flatMap (fun d => d.lines.flatMap declaredIn) =
      s.declarations.flatMap Declaration.names :=
    List.flatMap_congr fun d hd => declaredIn_declaration fun name hname =>
      h name (List.mem_append_right _ (List.mem_flatMap.mpr ⟨d, hd, hname⟩))
  rw [flatMap_lines hempty, himports, hdeclarations, hdirective, hmarker]
  simp [names]

end Script

/-! ### Classes -/

/-- What stands in a class is read as at the margin. -/
theorem methodIn_indent (inner : List String) :
    (indent inner).flatMap methodIn = inner.flatMap methodAt := by
  rw [indent, List.flatMap_map]
  refine List.flatMap_congr fun line _ => ?_
  split
  next hline =>
    rw [beq_iff_eq] at hline
    subst hline
    exact atMargin_methodAt.empty.symm
  · rw [methodIn, String.toList_append, behind?_eq_some_iff.mpr rfl]
    exact congrArg methodAt String.ofList_toList

theorem methodAt_lines (m : ClientMethod) : m.lines.flatMap methodAt = [m.method.token] := by
  have htoken : ∀ c ∈ m.method.token.toList, isPlainChar c = true :=
    List.all_eq_true.mp (by cases m.method <;> decide)
  have hdistinguished : Distinguished methodOpenings := by decide
  rw [ClientMethod.lines, atMargin_methodAt.flatMap_block, methodAt]
  let rest := "(" ++ m.input.text ++ ", options: RequestOptions = \x7b\x7d): Promise<" ++
    m.response ++ ">" ++ " \x7b"
  have hline : "async " ++ m.method.token ++ "(" ++ m.input.text ++
      ", options: RequestOptions = \x7b\x7d): Promise<" ++ m.response ++ ">" ++ " \x7b" =
        "async " ++ m.method.token ++ rest := by
    simp only [rest, String.append_assoc]
  rw [hline, nameBehind?_of hdistinguished (List.mem_cons_self ..) htoken (c := '(')
    (by simp [rest]) (by decide)]
  rfl

/-- The methods of the client's class are those of its list and the one that sends requests. -/
theorem methodIn_clientLines (name : String) (methods : List ClientMethod) :
    (clientLines name methods).flatMap methodIn = methods.map (·.method.token) ++ ["request"] := by
  have hhead : methodIn ("export class " ++ name ++ " \x7b") = [] := by
    have hfirst : NoneStarts ["  "] (some 'e') := by decide
    rw [methodIn, behind?_of_noneStarts hfirst (List.mem_singleton_self _) (by simp)]
  have hmethods : (methods.flatMap fun m => m.lines ++ [""]).flatMap methodAt =
      methods.map (·.method.token) := by
    rw [List.flatMap_assoc, List.map_eq_flatMap]
    refine List.flatMap_congr fun m _ => ?_
    rw [List.flatMap_append, methodAt_lines, List.flatMap_singleton, atMargin_methodAt.empty,
      List.append_nil]
  have hconstructor : ["constructor(private readonly baseUrl: string = \"\") \x7b\x7d", ""].flatMap
      methodAt = [] := by
    decide
  have hrequest : requestMethod.flatMap methodAt = ["request"] := by
    simp only [requestMethod, List.flatMap_append, atMargin_methodAt.flatMap_indent,
      atMargin_methodAt.flatMap_block]
    decide
  have hclosing : methodIn ("\x7d" ++ "") = [] := by decide
  rw [clientLines, block, enclose, List.flatMap_cons, List.flatMap_append, methodIn_indent, hhead,
    List.flatMap_append, List.flatMap_append, hmethods, hconstructor, hrequest,
    List.flatMap_singleton, hclosing]
  simp

end RouteScaffold.Artifact
