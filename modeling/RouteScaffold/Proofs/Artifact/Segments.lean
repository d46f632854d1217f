import RouteScaffold.Artifact.Files
import RouteScaffold.Proofs.Artifact.Parameters
import RouteScaffold.Proofs.Artifact.Told
import RouteScaffold.Proofs.Route.Segments

/-! The dynamic segments of a route, wherever they are listed.

The client's URL, the handler of the pages convention and the fields of a method's
parameters each list the dynamic segments on their own. They list the same names in
the same order, as often as they occur (`segments_agree`): in the URL the names are
read piece by piece, in the handler's text they are read back from their quoted form,
and among the parameters they come first. -/
namespace RouteScaffold.Artifact
open Route Text Text.Quoted

/-! ### Lines of a text -/

theorem separate_line {line : List Char} (h : '\n' ∉ line) (rest : List Char) :
    separate (· == '\n') (line ++ '\n' :: rest) = line :: separate (· == '\n') rest := by
  have hline : separate (· == '\n') line = [line] :=
    separate_of_forall fun c hc => beq_eq_false_iff_ne.mpr fun heq => h (heq ▸ hc)
  rw [separate_append (by simp), hline]
  rfl

/-- Lines without line breaks are found again, and an empty rest behind the last one. -/
theorem separate_unlines {lines : List String} (h : ∀ line ∈ lines, '\n' ∉ line.toList) :
    separate (· == '\n') (unlines lines).toList = lines.map String.toList ++ [[]] := by
  induction lines with
  | nil => rfl
  | cons line lines ih =>
    obtain ⟨hline, hlines⟩ := List.forall_mem_cons.mp h
    have htext : (unlines (line :: lines)).toList =
        line.toList ++ '\n' :: (unlines lines).toList := by simp [unlines]
    rw [htext, separate_line hline, ih hlines]
    rfl

/-! ### The handler -/

/-- What stands in front of the names in a handler. -/
def segmentsLead : List Char := "  segments: [".toList

/-- The name that a string of a script stands for. -/
def name? (found : List Char × List Char) : Option String := (unescape found.2).map String.ofList

/-- The names that the last line with segments lists. What is imported stands further up and may
hold any text. -/
def handlerNames? (script : String) : Option (List String) :=
  ((separate (· == '\n') script.toList).reverse.find? (segmentsLead.isPrefixOf ·)).map fun line =>
    (strings true (.outside []) (line ++ ['\n'])).filterMap name?

/-- Quoted names with commas between them are told one by one. -/
theorem charsTell_names {front : List Char} (hquote : '\x22' ∉ front) (hbreak : '\n' ∉ front)
    (names : List String) :
    CharsTell (stringsIn true name?)
      (front ++ ((", ".intercalate (names.map quote)).toList ++ "],".toList)) names := by
  induction names generalizing front with
  | nil => exact charsTell_quoteless (by simp [hquote])
  | cons name names ih =>
    have hcons {back : List Char} {told : List String}
        (hback : CharsTell (stringsIn true name?) back told) :
        CharsTell (stringsIn true name?)
          (front ++ '\x22' :: (escapes name.toList ++ '\x22' :: back)) (name :: told) := by
      have hstring := hback.string hquote hbreak (takenIn_escapes name.toList)
      rwa [name?, ofList_unescape_escapes] at hstring
    cases names with
    | nil =>
      have hclose : CharsTell (stringsIn true name?) "],".toList [] :=
        charsTell_quoteless (by decide)
      have hlast := hcons hclose
      simpa [toList_quote] using hlast
    | cons next names =>
      have hcomma : '\x22' ∉ ", ".toList ∧ '\n' ∉ ", ".toList := by decide
      have hnext := hcons (ih hcomma.1 hcomma.2)
      simpa [toList_quote, String.intercalate_cons_cons] using hnext

/-- The line of a handler that lists its segments. -/
def segmentsLine (names : List String) : String :=
  "  " ++ ("segments: [" ++ ", ".intercalate (names.map quote) ++ "],")

theorem breakless_names (names : List String) :
    '\n' ∉ (", ".intercalate (names.map quote)).toList := by
  have hquote (name : String) : '\n' ∉ (quote name).toList := by
    simp [toList_quote, breakless_escapes]
  induction names with
  | nil => decide
  | cons name names ih =>
    cases names with
    | nil => exact hquote name
    | cons next names =>
      have hcut : (", ".intercalate ((name :: next :: names).map quote)).toList =
          (quote name).toList ++ (", ".toList ++
            (", ".intercalate ((next :: names).map quote)).toList) := by
        simp [String.toList_intercalate]
      rw [hcut, List.mem_append, List.mem_append]
      exact not_or.mpr ⟨hquote name, not_or.mpr ⟨by decide, ih⟩⟩

theorem toList_segmentsLine (names : List String) :
    (segmentsLine names).toList =
      segmentsLead ++ ((", ".intercalate (names.map quote)).toList ++ "],".toList) := by
  have hlead : segmentsLead = "  ".toList ++ "segments: [".toList := rfl
  simp only [segmentsLine, String.toList_append, hlead, List.append_assoc]

theorem breakless_segmentsLine (names : List String) : '\n' ∉ (segmentsLine names).toList := by
  rw [toList_segmentsLine, List.mem_append, List.mem_append]
  exact not_or.mpr ⟨by decide, not_or.mpr ⟨breakless_names names, by decide⟩⟩

/-- The entry of a handler for a method. -/
def methodLine (m : Method) : String := "  " ++ ("  " ++ (m.verb ++ ": " ++ configAlias m ++ ","))

/-- What stands below the segments in a handler. -/
def belowSegments (methods : List Method) : List String :=
  "  methods: \x7b" :: (methods.map methodLine ++ ["  \x7d,", "\x7d);"])

/-- Below the segments no line breaks within and none lists segments. -/
theorem plain_belowSegments {methods : List Method} {line : String}
    (h : line ∈ belowSegments methods) :
    '\n' ∉ line.toList ∧ ¬ segmentsLead <+: line.toList := by
  have hmethods : ∀ m ∈ Method.all,
      '\n' ∉ (methodLine m).toList ∧ ¬ segmentsLead <+: (methodLine m).toList := by decide +kernel
  rw [belowSegments, List.mem_cons, List.mem_append, List.mem_map] at h
  rcases h with rfl | ⟨m, -, rfl⟩ | h
  · decide +kernel
  · exact hmethods m (Method.mem_all m)
  · revert line
    decide +kernel

/-- A handler lists its segments on a line of its own. -/
theorem lines_handlerScript (e : Endpoint) :
    e.handlerScript.lines =
      (marker :: (e.handlerScript.imports.map Import.text ++ [""]) ++
          ["export default createPagesRoute(\x7b"]) ++
        segmentsLine e.segments :: belowSegments (e.configs.map Descriptor.method) := by
  have hmethod (m : Method) : m.verb ++ ": " ++ configAlias m ++ "," ≠ "" := by
    cases m <;> decide
  simp [Script.lines, Endpoint.handlerScript, Declaration.lines, block, enclose, indent,
    segmentsLine, belowSegments, methodLine, hmethod]

/-- **The names in a handler's text are the dynamic segments**, whatever it imports. -/
theorem handlerNames?_handlerScript (e : Endpoint) :
    handlerNames? e.handlerScript.text = some e.segments := by
  let above := marker :: (e.handlerScript.imports.map Import.text ++ [""])
  let opening := "export default createPagesRoute(\x7b"
  let below := belowSegments (e.configs.map Descriptor.method)
  have hplain : ∀ line ∈ segmentsLine e.segments :: below, '\n' ∉ line.toList :=
    List.forall_mem_cons.mpr
      ⟨breakless_segmentsLine e.segments, fun line hline => (plain_belowSegments hline).1⟩
  have htext : e.handlerScript.text.toList =
      ((unlines above).toList ++ opening.toList) ++
        '\n' :: (unlines (segmentsLine e.segments :: below)).toList := by
    rw [Script.text, lines_handlerScript, unlines_append, unlines_append]
    simp [unlines, above, opening, below]
  have hlead : segmentsLead.isPrefixOf (segmentsLine e.segments).toList = true :=
    List.isPrefixOf_iff_prefix.mpr (toList_segmentsLine _ ▸ List.prefix_append ..)
  have hbelow : ∀ line ∈ below.map String.toList ++ [[]],
      ¬ segmentsLead.isPrefixOf line = true := by
    refine List.forall_mem_append.mpr ⟨List.forall_mem_map.mpr fun line hline hprefix => ?_, ?_⟩
    · exact (plain_belowSegments hline).2 (List.isPrefixOf_iff_prefix.mp hprefix)
    · decide
  have hfind : (separate (· == '\n') e.handlerScript.text.toList).reverse.find?
      (segmentsLead.isPrefixOf ·) = some (segmentsLine e.segments).toList := by
    rw [htext, separate_append (by simp), separate_unlines hplain, List.map_cons,
      List.cons_append, List.reverse_append, List.reverse_cons, List.append_assoc,
      List.find?_append, List.find?_eq_none.mpr fun line hline =>
        hbelow line (List.mem_reverse.mp hline), Option.none_or]
    exact List.find?_cons_of_pos hlead
  have hplainLead : '\x22' ∉ segmentsLead ∧ '\n' ∉ segmentsLead := by decide
  have htold := charsTell_names hplainLead.1 hplainLead.2 e.segments []
  rw [← toList_segmentsLine, stringsIn, stringsIn, strings, List.filterMap_nil,
    List.append_nil] at htold
  rw [handlerNames?, hfind, Option.map_some, htold]

/-! ### All lists -/

/-- **One list of dynamic segments.** Between its backticks the URL of a route has one piece for
each segment of the route, a static one as it is and a dynamic one as a placeholder; the names in
the placeholders are the dynamic segments, in order, and so are the names that the handler lists
and the first names among the parameters of every descriptor. -/
theorem segments_agree (e : Endpoint) (d : Descriptor) :
    ∃ inner names,
      (urlTemplate e.path "input.params").toList = '\x60' :: (inner ++ ['\x60']) ∧
      Rendered "input.params" (separate (· == '/') e.path.toList) (separate (· == '/') inner)
        names ∧
      dynamicNames e.path = names.map String.ofList ∧
      handlerNames? e.handlerScript.text = some (names.map String.ofList) ∧
      names.map String.ofList <+: (e.paramFields d).map Field.name := by
  have hslashless : '/' ∉ "input.params".toList := by decide
  obtain ⟨inner, hinner, hrendered⟩ := rendered_pieces hslashless e.path
  have hnames : dynamicNames e.path =
      ((segments e.path.toList).filterMap dynamicName?).map String.ofList := by
    rw [dynamicNames, List.map_filterMap]
  refine ⟨inner, _, hinner, hrendered, hnames, ?_, ?_⟩
  · rw [← hnames]
    exact handlerNames?_handlerScript e
  · rw [← hnames]
    exact prefix_paramFields e d

end RouteScaffold.Artifact
