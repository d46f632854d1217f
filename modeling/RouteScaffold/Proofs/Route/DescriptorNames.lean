import RouteScaffold.Route.Descriptor
import RouteScaffold.Route.Scan

/-! The names of descriptor files.

A name is one of a descriptor file exactly if it is spelled as `Named` says
(`methodOf?_eq_some_iff`). Its stem is then all of it but the extension
(`Named.stem_eq`), and so the module that the generated ones import is the
descriptor file without its extension. -/
namespace RouteScaffold.Route

theorem behind?_eq_some_iff {word : String} {cs rest : List Char} :
    behind? word cs = some rest ↔ cs = word.toList ++ rest := by
  rw [behind?]
  constructor
  · intro h
    split at h
    next hstart =>
      obtain ⟨back, rfl⟩ := List.isPrefixOf_iff_prefix.mp hstart
      rw [← String.length_toList, List.drop_left] at h
      rw [Option.some.inj h]
    next => cases h
  · rintro rfl
    rw [if_pos (List.isPrefixOf_iff_prefix.mpr (List.prefix_append ..)), ← String.length_toList,
      List.drop_left]

/-- A name that is spelled as that of a descriptor file. -/
structure Named (fileName : String) (m : Method) (extension : String) : Prop where
  spelled : fileName = "route." ++ m.token ++ ".config" ++ "." ++ extension
  nonempty : extension ≠ ""
  dotless : '.' ∉ extension.toList

theorem dotless_token (m : Method) : '.' ∉ m.token.toList := by cases m <;> decide

theorem takeWhile_token (m : Method) (rest : List Char) :
    (m.token.toList ++ '.' :: rest).takeWhile (· != '.') = m.token.toList := by
  have hdotless : ∀ c ∈ m.token.toList, (c != '.') = true := fun c hc => by
    rw [bne_iff_ne]
    rintro rfl
    exact dotless_token m hc
  rw [List.takeWhile_append_of_pos hdotless, List.takeWhile_cons_of_neg (by simp),
    List.append_nil]

/-- A name is accepted exactly if it is spelled as that of a descriptor file. -/
theorem methodOf?_eq_some_iff {fileName : String} {m : Method} :
    methodOf? fileName = some m ↔ ∃ extension, Named fileName m extension := by
  constructor
  · intro h
    obtain ⟨rest, hrest, h⟩ := Option.bind_eq_some_iff.mp h
    obtain ⟨extension, hextension, h⟩ := Option.bind_eq_some_iff.mp h
    rw [behind?_eq_some_iff] at hrest hextension
    split at h
    · cases h
    next hgood =>
      simp only [Bool.or_eq_true, not_or, List.isEmpty_iff, List.contains_iff_mem] at hgood
      have htoken := Method.token_of_ofToken? h
      have hcut : rest = m.token.toList ++ (".config.".toList ++ extension) := by
        rw [htoken, String.toList_ofList, ← hextension]
        exact (List.prefix_iff_eq_append.mp (List.takeWhile_prefix _)).symm
      refine ⟨String.ofList extension, ?_, fun hempty => hgood.1 (by simpa using hempty), ?_⟩
      · rw [← String.toList_inj, hrest, hcut]
        simp
      · rw [String.toList_ofList]
        exact hgood.2
  · rintro ⟨extension, rfl, hne, hdotless⟩
    have hroute : ("route." ++ m.token ++ ".config" ++ "." ++ extension).toList =
        "route.".toList ++ (m.token.toList ++ '.' :: ("config.".toList ++ extension.toList)) := by
      simp
    have hconfig : '.' :: ("config.".toList ++ extension.toList) =
        ".config.".toList ++ extension.toList := by simp
    rw [methodOf?, hroute, behind?_eq_some_iff.mpr rfl, Option.bind_eq_bind, Option.bind_some,
      takeWhile_token]
    dsimp only
    rw [List.drop_left, hconfig, behind?_eq_some_iff.mpr rfl, Option.bind_some, if_neg,
      String.ofList_toList, Method.ofToken?_token]
    simpa [String.toList_eq_nil_iff, hdotless] using hne

theorem stem_of_extension {front extension : String} (hfront : front ≠ "")
    (hdotless : '.' ∉ extension.toList) : stem (front ++ "." ++ extension) = front := by
  have hback : (front ++ "." ++ extension).toList.reverse =
      extension.toList.reverse ++ '.' :: front.toList.reverse := by simp
  have hextension : ∀ c ∈ extension.toList.reverse, (c != '.') = true := fun c hc => by
    rw [bne_iff_ne]
    rintro rfl
    exact hdotless (List.mem_reverse.mp hc)
  rw [stem, hback, List.dropWhile_append_of_pos hextension, List.dropWhile_cons_of_neg (by simp)]
  cases hrest : front.toList.reverse with
  | nil =>
    rw [List.reverse_eq_nil_iff, String.toList_eq_nil_iff] at hrest
    exact absurd hrest hfront
  | cons c cs =>
    dsimp only
    rw [← hrest, List.reverse_reverse, String.ofList_toList]

namespace Named
variable {fileName : String} {m : Method} {extension : String}

/-- Without its extension, the name tells the method. -/
theorem stem_eq (h : Named fileName m extension) :
    stem fileName = "route." ++ m.token ++ ".config" := by
  rw [h.spelled, stem_of_extension _ h.dotless]
  simp [← String.toList_inj]

end Named

/-- The module of a descriptor file has the file's name without its extension. -/
theorem exists_extension {fileName : String} {m : Method} (h : methodOf? fileName = some m) :
    ∃ extension, fileName = stem fileName ++ "." ++ extension ∧ extension ≠ "" ∧
      '.' ∉ extension.toList := by
  obtain ⟨extension, hnamed⟩ := methodOf?_eq_some_iff.mp h
  refine ⟨extension, ?_, hnamed.nonempty, hnamed.dotless⟩
  rw [hnamed.stem_eq]
  exact hnamed.spelled

/-- **A name is one of a descriptor file exactly if it is `route.`, a method's token, `.config.` and
an extension without a dot**, and whatever the extension is, the generated modules import the
descriptor under the name in front of it. -/
theorem methodOf?_exact (m : Method) :
    (∀ fileName, methodOf? fileName = some m ↔
      ∃ extension : String, extension ≠ "" ∧ '.' ∉ extension.toList ∧
        fileName = "route." ++ m.token ++ ".config." ++ extension) ∧
    ∀ d : Descriptor, methodOf? d.fileName = some m →
      d.specifier = "../route." ++ m.token ++ ".config" := by
  have hdot (extension : String) : "route." ++ m.token ++ ".config" ++ "." ++ extension =
      "route." ++ m.token ++ ".config." ++ extension := by
    simp [← String.toList_inj]
  refine ⟨fun fileName => methodOf?_eq_some_iff.trans ⟨?_, ?_⟩, fun d hd => ?_⟩
  · rintro ⟨extension, hnamed⟩
    exact ⟨extension, hnamed.nonempty, hnamed.dotless, hnamed.spelled.trans (hdot extension)⟩
  · rintro ⟨extension, hne, hdotless, hspelled⟩
    exact ⟨extension, hspelled.trans (hdot extension).symm, hne, hdotless⟩
  · obtain ⟨extension, hnamed⟩ := methodOf?_eq_some_iff.mp hd
    rw [Descriptor.specifier, hnamed.stem_eq]
    simp [← String.toList_inj]

/-- An extension of letters of another script is as good as any; a second one is not. -/
theorem methodOf?_exact_patch :
    methodOf? "route.patch.config.été" = some .patch ∧
      (Descriptor.specifier { method := .patch, fileName := "route.patch.config.été" } =
        "../route.patch.config") ∧
      methodOf? "route.patch.config.d.ts" ≠ some .patch := by
  have hname : methodOf? "route.patch.config.été" = some .patch := by decide
  refine ⟨hname, (methodOf?_exact .patch).2 _ hname, fun h => ?_⟩
  obtain ⟨extension, -, hdotless, hspelled⟩ := ((methodOf?_exact .patch).1 _).mp h
  have hspelled' : "route.patch.config.".toList ++ "d.ts".toList =
      "route.patch.config.".toList ++ extension.toList := by
    simpa [Method.token, ← String.toList_inj] using hspelled
  have hrest : "d.ts" = extension := String.toList_inj.mp (List.append_cancel_left hspelled')
  exact hdotless (hrest ▸ by decide)

end RouteScaffold.Route
