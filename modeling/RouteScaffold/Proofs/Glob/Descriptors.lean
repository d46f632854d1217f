import RouteScaffold.Proofs.Path.Stripped
import RouteScaffold.Proofs.Route.DescriptorNames
import RouteScaffold.Store.Basic

/-! The default pattern hides no descriptor file.

A pattern is matched with the text of a path, but what is left of a path behind a base
ends in its file name as it is spelled (`Path.toList_of_stripBase?`), and the default
pattern matches every text that ends so in the name of a descriptor file
(`matchesPath_of_stripBase?`). -/
namespace RouteScaffold.Glob
open Route

/-! ### Matching -/

theorem anyRunThen_of {rest : List Char → Bool} {run back : List Char} (hrun : '/' ∉ run)
    (h : rest back = true) : anyRunThen rest (run ++ back) = true := by
  induction run with
  | nil => cases back <;> simp [anyRunThen, h]
  | cons c run ih =>
    rw [List.mem_cons, not_or] at hrun
    simp [anyRunThen, ih hrun.2, Ne.symm hrun.1]

theorem anyDepthThen_of {rest : List Char → Bool} (front : List Char) {back : List Char}
    (h : rest back = true) : anyDepthThen rest (front ++ '/' :: back) = true := by
  induction front with
  | nil => simp [anyDepthThen, h]
  | cons c front ih => simp [anyDepthThen, ih]

theorem matchesText_chars (word : List Char) (tokens : List Token) (cs : List Char) :
    matchesText (word.map .char ++ tokens) (word ++ cs) = matchesText tokens cs := by
  induction word with
  | nil => rfl
  | cons c word ih => simp [matchesText, Token.accepts, ih]

/-! ### The default pattern -/

/-- What the default pattern is read to. -/
def descriptorTokens : List Token :=
  .anyDepth :: ("route.".toList.map .char ++ .anyRun :: (".config.".toList.map .char ++ [.anyRun]))

theorem ofString_descriptorPattern :
    Pattern.ofString descriptorPattern = .ok ⟨descriptorTokens⟩ := by
  simp [Pattern.ofString, descriptorPattern, scan, addDepth, descriptorTokens, Except.map]

/-- The names of descriptor files match what follows `**/`. -/
theorem matchesText_named {fileName : String} {m : Method} {extension : String}
    (h : Named fileName m extension) (hslash : '/' ∉ fileName.toList) :
    matchesText descriptorTokens.tail fileName.toList = true := by
  have hspelled : fileName.toList = "route.".toList ++
      (m.token.toList ++ (".config.".toList ++ extension.toList)) := by
    rw [h.spelled]
    simp
  have htoken : '/' ∉ m.token.toList := by cases m <;> decide
  have hextension : '/' ∉ extension.toList := fun hmem => hslash (by simp [hspelled, hmem])
  have hback : matchesText [.anyRun] extension.toList = true := by
    have hrun : anyRunThen (matchesText []) (extension.toList ++ []) = true :=
      anyRunThen_of hextension rfl
    rwa [List.append_nil] at hrun
  rw [hspelled, descriptorTokens, List.tail_cons, matchesText_chars]
  exact anyRunThen_of htoken (by rw [matchesText_chars, hback])

/-- The default pattern matches a text that is the name of a descriptor file, or ends in one behind
a slash. -/
theorem matchesText_descriptor {text : List Char} {fileName : String} {m : Method}
    (hmethod : methodOf? fileName = some m) (hslash : '/' ∉ fileName.toList)
    (h : text = fileName.toList ∨ ∃ front, text = front ++ '/' :: fileName.toList) :
    matchesText descriptorTokens text = true := by
  obtain ⟨extension, hnamed⟩ := methodOf?_eq_some_iff.mp hmethod
  have hname := matchesText_named hnamed hslash
  show (matchesText descriptorTokens.tail text ||
    anyDepthThen (matchesText descriptorTokens.tail) text) = true
  rcases h with rfl | ⟨front, rfl⟩
  · rw [hname, Bool.true_or]
  · rw [anyDepthThen_of front hname, Bool.or_true]

/-- What is left of a path behind a base matches the default pattern if it has the name of a
descriptor file. -/
theorem matchesPath_of_stripBase? {p base q : Path} {name : String} {m : Method}
    (h : p.stripBase? base = some q) (hname : q.fileName? = some name)
    (hmethod : methodOf? name = some m) : Pattern.matchesPath ⟨descriptorTokens⟩ q = true :=
  matchesText_descriptor hmethod (Path.slashless_of_fileName? hname)
    (Path.toList_of_stripBase? h hname)

end RouteScaffold.Glob
