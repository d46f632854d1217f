import Mathlib.Data.List.TakeWhile
import RouteScaffold.Proofs.Source.SchemaFields
import RouteScaffold.Proofs.Text.Literal

/-! Properties under quoted keys.

A key may be any closed literal, with escapes in it. The walk that cuts a schema into its
properties steps over escaped quotes, but the name of a property is read up to the first
quote and is taken as it is written. So every property has a field under the text of its
key exactly if no literal has its own quote in it, and these texts are what the keys denote
exactly if no literal has a backslash (`schemaFields_keyed`). -/
namespace RouteScaffold.Source
open Text Route

/-! ### Keys -/

namespace Key

/-- An identifier, or a closed literal with any escapes. -/
def Closed : Key → Prop
  | .bare name => IsName name
  | .quoted quote body => (quote = '\x22' ∨ quote = '\x27') ∧ StringBody quote body

/-- What a key denotes in a script. -/
def denoted? : Key → Option (List Char)
  | .bare name => some name
  | .quoted _ body => Literal.denoted? body

/-- A literal does not have its own quote in it. -/
def Quoteless : Key → Prop
  | .bare _ => True
  | .quoted quote body => quote ∉ body

def Escapeless : Key → Prop
  | .bare _ => True
  | .quoted _ body => '\\' ∉ body

/-- The name up to the first quote. -/
def readName : Key → List Char
  | .bare name => name
  | .quoted quote body => body.takeWhile (· != quote)

theorem quoteless_of_escapeless {key : Key} (h : key.Closed) (hescape : key.Escapeless) :
    key.Quoteless := by
  cases key with
  | bare name => trivial
  | quoted quote body =>
    have hbody := h.2
    have hslash : '\\' ∉ body := hescape
    show quote ∉ body
    clear h hescape
    induction hbody with
    | nil => exact List.not_mem_nil
    | escaped _ _ => exact absurd List.mem_cons_self hslash
    | plain hquote _ _ ih =>
      rw [List.mem_cons, not_or] at hslash ⊢
      exact ⟨Ne.symm hquote, ih hslash.2⟩

theorem readName_eq_iff {key : Key} : key.readName = key.name ↔ key.Quoteless := by
  cases key with
  | bare name => exact ⟨fun _ => trivial, fun _ => rfl⟩
  | quoted quote body =>
    show body.takeWhile (· != quote) = body ↔ quote ∉ body
    rw [List.takeWhile_eq_self_iff]
    exact ⟨fun h hmem => by simpa using h quote hmem, fun h c hc => by
      simpa using fun heq : c = quote => h (heq ▸ hc)⟩

/-- A literal denotes its own text exactly if it has no escapes. -/
theorem denoted?_eq_name_iff {key : Key} : some key.name = key.denoted? ↔ key.Escapeless := by
  cases key with
  | bare name => exact ⟨fun _ => trivial, fun _ => rfl⟩
  | quoted quote body => exact eq_comm.trans Literal.denoted?_eq_self_iff

theorem Closed.tokens {key : Key} (h : key.Closed) {rest : List Char}
    (hrest : ∀ before, Tokens false before rest) (before : Option Char) :
    Tokens false before (key.text ++ rest) := by
  cases key with
  | bare name => exact .name (IsName.chars h) (hrest _)
  | quoted quote body =>
    have hquote : isQuote quote = true := by rcases h.1 with rfl | rfl <;> rfl
    have htokens : Tokens false before (quote :: (body ++ quote :: rest)) :=
      .string hquote h.2 (hrest _)
    simpa [Key.text] using htokens

/-- The name of a key is read up to the first quote; the rest is what stands behind the key only if
that is the quote that closes it. -/
theorem Closed.key? {key : Key} (h : key.Closed) {rest : List Char}
    (hhead : ∀ c ∈ rest.head?, isIdentChar c = false)
    (hsolid : ∀ c ∈ (trimStart rest).head?, isIdentChar c = false) :
    ∃ behind, Source.key? (key.text ++ rest) = some (key.readName, behind) ∧
      (key.Quoteless → behind = rest) := by
  cases key with
  | bare name => exact ⟨rest, key?_name h hsolid hhead, fun _ => rfl⟩
  | quoted quote body =>
    have htext (front tail : List Char) :
        (Key.quoted quote (front ++ quote :: tail)).text ++ rest =
          quote :: (front ++ quote :: (tail ++ quote :: rest)) := by simp [Key.text]
    by_cases hmem : quote ∈ body
    · obtain ⟨front, tail, rfl, hfront⟩ := List.eq_append_cons_of_mem hmem
      have hname : (front ++ quote :: tail).takeWhile (· != quote) = front := by
        rw [List.takeWhile_append_of_pos fun c hc => by
          simpa using fun heq : c = quote => hfront (heq ▸ hc)]
        simp
      rw [readName, hname, htext]
      exact ⟨_, key?_quoted h.1 hfront _, fun hquoteless => absurd hmem hquoteless⟩
    · have hname : (Key.quoted quote body).readName = body := readName_eq_iff.mpr hmem
      rw [hname, Key.text, List.cons_append, List.append_assoc, List.singleton_append]
      exact ⟨rest, key?_quoted h.1 hmem rest, fun _ => rfl⟩

/-- A key starts with a character that is no blank and starts no comment and no spread. -/
theorem Closed.head {key : Key} (h : key.Closed) (rest : List Char) :
    ∃ c tail, key.text ++ rest = c :: tail ∧ isBlank c = false ∧ c ≠ '/' ∧ c ≠ '.' := by
  cases key with
  | bare name =>
    have hname : IsName name := h
    have hblank := hname.isBlank_head rest
    have hslash := hname.head_ne (isIdentChar_of_mem_signs '/' (by decide)) rest
    have hdot := hname.head_ne (isIdentChar_of_mem_signs '.' (by decide)) rest
    obtain ⟨c, name, rfl⟩ := List.exists_cons_of_ne_nil hname.nonempty
    exact ⟨c, name ++ rest, rfl, hblank c rfl, hslash c rfl, hdot c rfl⟩
  | quoted quote body => exact ⟨quote, _, rfl, by rcases h.1 with rfl | rfl <;> decide⟩

end Key

/-! ### Properties -/

/-- A property of an object literal. -/
structure Keyed where
  /-- Blanks and comments in front of the key. -/
  gap : List Char := []
  key : Key
  /-- Blanks in front of the colon. -/
  space : List Char := []
  /-- All that stands behind the colon. -/
  value : List Char

namespace Keyed

def text (p : Keyed) : List Char := p.gap ++ (p.key.text ++ (p.space ++ ':' :: p.value))

/-- The entry that is meant. -/
def entry (p : Keyed) : Entry := ⟨p.key.name, trim p.value⟩

structure WellFormed (p : Keyed) : Prop where
  gap : Gap p.gap
  key : p.key.Closed
  space : Blank p.space
  value : Tokens false (some ':') p.value

theorem tokens {p : Keyed} (h : p.WellFormed) (before : Option Char) :
    Tokens false before p.text := by
  have hvalue (before : Option Char) : Tokens false before (':' :: p.value) :=
    .plain (by decide) (by decide) h.value
  exact .gap h.gap (Key.Closed.tokens h.key fun _ =>
    .word p.space (plainWord_of_blank h.space) (hvalue _))

/-- A property is read under the name up to the first quote, if at all, and with its own value if
that is the quote that closes its key. -/
theorem exists_ofPart?_text {p : Keyed} (h : p.WellFormed) :
    ∃ behind, Entry.ofPart? p.text = (value? p.key.readName behind).map (Entry.mk p.key.readName) ∧
      (p.key.Quoteless → value? p.key.readName behind = some (trim p.value)) := by
  have hcolon : isBlank ':' = false := isBlank_of_mem_signs ':' (by decide)
  let rest := p.space ++ ':' :: trimEnd p.value
  have hsolid : trimStart rest = ':' :: trimEnd p.value := by
    rw [trimStart_blank h.space, trimStart_solid (by simp [hcolon])]
  have hcolons : ∀ c ∈ (trimStart rest).head?, isIdentChar c = false := by
    rw [hsolid]
    exact (isIdentChar_sign (c := ':') (by decide) _).1
  have hhead : ∀ c ∈ rest.head?, isIdentChar c = false := by
    cases hspace : p.space with
    | nil => simpa [rest, hspace] using isIdentChar_of_mem_signs ':' (by decide)
    | cons d space =>
      have hblank : isBlank d = true := h.space d (by simp [hspace])
      simpa [rest, hspace] using isIdentChar_of_isBlank hblank
  obtain ⟨behind, hkey, hbehind⟩ := Key.Closed.key? h.key hhead hcolons
  obtain ⟨c, tail, htext, hblank, hslash, -⟩ := Key.Closed.head h.key (p.space ++ ':' :: p.value)
  obtain ⟨d, tail', hdtext, -, -, hdot⟩ := Key.Closed.head h.key rest
  have htrim : trimEnd (p.key.text ++ (p.space ++ ':' :: p.value)) = p.key.text ++ rest := by
    rw [← List.append_assoc, trimEnd_solid _ hcolon, List.append_assoc]
  have hgap := ofPart?_between h.gap (List.forall_mem_nil _) hblank hslash tail
  rw [List.append_nil, ← htext] at hgap
  refine ⟨behind, ?_, fun hquoteless => ?_⟩
  · rw [text, hgap]
    refine ofPart?_eq_of_key? (htext ▸ stripComments_of_head hblank hslash tail) htrim ?_ hkey
    rw [hdtext]
    simpa using hdot
  · rw [hbehind hquoteless, value?, hsolid]
    exact congrArg some (trim_trimEnd p.value)

theorem ofPart?_text {p : Keyed} (h : p.WellFormed) (hquoteless : p.key.Quoteless) :
    Entry.ofPart? p.text = some p.entry := by
  obtain ⟨behind, hread, hvalue⟩ := exists_ofPart?_text h
  rw [hread, hvalue hquoteless, Key.readName_eq_iff.mpr hquoteless, Option.map_some, entry]

/-- A property is read under the text of its key exactly if the first quote closes the key. -/
theorem key_ofPart?_text_iff {p : Keyed} (h : p.WellFormed) :
    (Entry.ofPart? p.text).map Entry.key = some p.key.name ↔ p.key.Quoteless := by
  constructor
  · intro hname
    obtain ⟨behind, hread, -⟩ := exists_ofPart?_text h
    rw [hread, Option.map_map] at hname
    obtain ⟨value, -, hkey⟩ := Option.map_eq_some_iff.mp hname
    exact Key.readName_eq_iff.mp hkey
  · intro hquoteless
    rw [ofPart?_text h hquoteless]
    rfl

end Keyed

/-- What stands between the braces of a schema. With a trailing comma, `trailing` is the gap behind
it. -/
def keyedBody (props : List Keyed) (trailing : Option (List Char)) : List Char :=
  List.intercalate [','] (props.map Keyed.text ++ trailing.toList)

/-- The fields of a schema are those of its properties that are read. -/
theorem schemaFields_keyedBody {before name : List Char} {props : List Keyed}
    {trailing : Option (List Char)} (hbefore : Lines before) (hdecl : ¬ Declares name before)
    (hname : IsName name) (hprops : ∀ p ∈ props, p.WellFormed)
    (htrailing : ∀ gap ∈ trailing, Gap gap) (after : List Char) :
    schemaFields
        (before ++ (schemaHead name ++ (keyedBody props trailing ++ '\x7d' :: after))) name =
      (props.filterMap fun p => Entry.ofPart? p.text).map Entry.field := by
  have htexts : ∀ part ∈ props.map Keyed.text, ∀ before, Tokens false before part :=
    List.forall_mem_map.mpr fun p hp => Keyed.tokens (hprops p hp)
  have hbody := objectBody?_schemaHead hbefore hdecl hname
    (Tokens.intercalate (parts_tokens htexts htrailing) _) after
  rw [schemaFields, keyedBody, hbody]
  show (entries _).map Entry.field = _
  rw [entries_intercalate htexts htrailing, List.filterMap_map]
  rfl

theorem name_field (entry : Entry) : entry.field.name = String.ofList entry.key := by
  rw [Entry.field]
  split <;> rfl

theorem Keyed.name_field (p : Keyed) : p.entry.field.name.toList = p.key.name := by
  rw [Source.name_field, String.toList_ofList]
  rfl

/-- **Fields and quoted keys.** The fields of a schema are named by the texts of its keys, one for
each property and in order, exactly if no literal has its own quote in it, and then each is the
field of its property. That these names are also what the keys denote, so that keys that denote the
same have the same name, holds exactly if no literal has a backslash. -/
theorem schemaFields_keyed {before name : List Char} {props : List Keyed}
    {trailing : Option (List Char)} (hbefore : Lines before) (hdecl : ¬ Declares name before)
    (hname : IsName name) (hprops : ∀ p ∈ props, p.WellFormed)
    (htrailing : ∀ gap ∈ trailing, Gap gap) (after : List Char) :
    let fields := schemaFields
      (before ++ (schemaHead name ++ (keyedBody props trailing ++ '\x7d' :: after))) name
    (fields.map (·.name.toList) = props.map (·.key.name) ↔ ∀ p ∈ props, p.key.Quoteless) ∧
      ((∀ p ∈ props, p.key.Quoteless) → fields = props.map (·.entry.field)) ∧
      (fields = props.map (·.entry.field) ∧
          fields.map (some ·.name.toList) = props.map (·.key.denoted?) ↔
        ∀ p ∈ props, p.key.Escapeless) := by
  rw [schemaFields_keyedBody hbefore hdecl hname hprops htrailing after]
  intro fields
  have hfields : (∀ p ∈ props, p.key.Quoteless) → fields = props.map (·.entry.field) := by
    intro hquoteless
    have hentries : (props.filterMap fun p => Entry.ofPart? p.text) = props.map Keyed.entry :=
      List.filterMap_eq_map_iff_forall_eq_some.mpr fun p hp =>
        Keyed.ofPart?_text (hprops p hp) (hquoteless p hp)
    exact (congrArg (List.map Entry.field) hentries).trans List.map_map
  have hnames : fields.map (·.name.toList) =
      props.filterMap fun p => (Entry.ofPart? p.text).map Entry.key := by
    simp only [fields, List.map_filterMap]
    refine List.filterMap_congr fun p _ => ?_
    cases Entry.ofPart? p.text with
    | none => rfl
    | some entry => simp [name_field]
  have hdenoted (hread : fields = props.map (·.entry.field)) :
      fields.map (some ·.name.toList) = props.map (·.key.denoted?) ↔
        ∀ p ∈ props, p.key.Escapeless := by
    rw [hread, List.map_map, List.map_inj_left]
    refine forall₂_congr fun p _ => ?_
    rw [Function.comp_apply, Keyed.name_field]
    exact Key.denoted?_eq_name_iff
  refine ⟨?_, hfields, fun h => (hdenoted h.1).mp h.2, fun h => ?_⟩
  · rw [hnames, List.filterMap_eq_map_iff_forall_eq_some]
    exact forall₂_congr fun p hp => Keyed.key_ofPart?_text_iff (hprops p hp)
  · have hread := hfields fun p hp => Key.quoteless_of_escapeless (hprops p hp).key (h p hp)
    exact ⟨hread, (hdenoted hread).mpr h⟩

/-- A quote of the other kind does not close a key, and an escape stays as it is written. -/
theorem schemaFields_keyed_other_quote :
    schemaFields
        "const Q = z.object(\x7b\x22it's\x22: z.string(),'a\\x62' :z.number()\x7d)".toList ['Q'] =
      [⟨"it's", .string, false⟩, ⟨"a\\x62", .number, false⟩] := by
  let its : Keyed := { key := .quoted '\x22' "it's".toList, value := " z.string()".toList }
  let escaped : Keyed :=
    { key := .quoted '\x27' "a\\x62".toList, space := [' '], value := "z.number()".toList }
  have hits : its.WellFormed :=
    ⟨.nil, ⟨.inl rfl, .of_plain (by decide) (by decide)⟩, List.forall_mem_nil _,
      .word " z.string".toList (by decide +kernel) (.group .round .nil .nil)⟩
  have hescaped : escaped.WellFormed :=
    ⟨.nil,
      ⟨.inr rfl, .plain (by decide) (by decide) (.escaped (.of_plain (by decide) (by decide)))⟩,
      List.forall_mem_singleton.mpr (by decide),
      .word "z.number".toList (by decide +kernel) (.group .round .nil .nil)⟩
  have hquoteless : ∀ p ∈ [its, escaped], p.key.Quoteless :=
    List.forall_mem_cons.mpr ⟨(by decide : '\x22' ∉ "it's".toList),
      List.forall_mem_singleton.mpr (by decide : '\x27' ∉ "a\\x62".toList)⟩
  have h := @schemaFields_keyed [] ['Q'] [its, escaped] none ⟨.nil, by simp⟩
    (not_declares_gap .nil _) (by decide)
    (List.forall_mem_cons.mpr ⟨hits, List.forall_mem_singleton.mpr hescaped⟩) (by simp) [')']
  have hsource :
      "const Q = z.object(\x7b\x22it's\x22: z.string(),'a\\x62' :z.number()\x7d)".toList =
      [] ++ (schemaHead ['Q'] ++ (keyedBody [its, escaped] none ++ '\x7d' :: [')'])) := by
    decide +kernel
  rw [hsource, h.2.1 hquoteless]
  decide +kernel

/-- So a property with an escaped quote in its key is lost, and two keys that denote the same have
different names. -/
theorem escapes_change_keys :
    schemaFields "const v = z.object(\x7b 'it\\'s': z.string(), b: z.number() \x7d);".toList ['v'] =
        [⟨"b", .number, false⟩] ∧
      Literal.denoted? "it\\'s".toList = some "it's".toList ∧
      schemaFields
          "const v = z.object(\x7b 'a\\x62': z.string(), ab: z.string() \x7d);".toList ['v'] =
        [⟨"a\\x62", .string, false⟩, ⟨"ab", .string, false⟩] ∧
      Literal.denoted? "a\\x62".toList = some "ab".toList := by
  decide +kernel

end RouteScaffold.Source
