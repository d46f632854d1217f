import RouteScaffold.Proofs.Artifact.Keys
import RouteScaffold.Proofs.Artifact.Markup
import RouteScaffold.Proofs.Artifact.Signatures
import RouteScaffold.Proofs.Artifact.Templates

/-! Reading from a line which descriptors and which methods of the client it mentions.

What stands in strings and in the address of a request is data, and so is what markup shows;
the rest of a line is code. In code a name is mentioned where it is neither a key nor a member
of something else, so the aliases of descriptors and the calls of the client can be read off
(`mentions`). A line is put together of texts that end where a name can start (`Speaks`) and of
names between them (`Names`), and mentions what its parts do (`Speaks.insert`). -/
namespace RouteScaffold.Artifact
open Route Text Text.Quoted

/-! ### Reading a line -/

inductive Mention where
  /-- The module of a descriptor, by its alias. -/
  | descriptor (name : String)
  /-- A method of the client that is called. -/
  | call (method : String)
  deriving DecidableEq, Repr

/-- Where a walk along a line of code is. -/
inductive Spot where
  | code
  | string
  /-- In a string behind a backslash. -/
  | escaped
  | address
  deriving DecidableEq, Repr

/-- The code of a line, with a blank for each string and for the address between the first backtick
and the last one. -/
def codeFrom : Spot → List Char → List Char
  | _, [] => []
  | .code, c :: cs =>
    if c == '\x22' then ' ' :: codeFrom .string cs
    else if c == '\x60' then ' ' :: codeFrom .address cs
    else c :: codeFrom .code cs
  | .string, c :: cs =>
    if c == '\x22' then codeFrom .code cs
    else if c == '\\' then codeFrom .escaped cs
    else codeFrom .string cs
  | .escaped, _ :: cs => codeFrom .string cs
  | .address, c :: cs =>
    if c == '\x60' && !cs.contains '\x60' then codeFrom .code cs else codeFrom .address cs

/-- Where a walk along a line of markup is. -/
inductive MarkupSpot where
  | text
  | tag
  | attribute
  deriving DecidableEq, Repr

/-- The code of a line of markup: what stands in its tags, with a blank for each attribute. -/
def tagsFrom : MarkupSpot → List Char → List Char
  | _, [] => []
  | .text, c :: cs => if c == '<' then ' ' :: tagsFrom .tag cs else tagsFrom .text cs
  | .tag, c :: cs =>
    if c == '\x22' then ' ' :: tagsFrom .attribute cs
    else if c == '>' then ' ' :: tagsFrom .text cs
    else c :: tagsFrom .tag cs
  | .attribute, c :: cs =>
    if c == '\x22' then tagsFrom .tag cs else tagsFrom .attribute cs

/-- A character of a name, or one that joins names or makes a key of them. -/
def isLink (c : Char) : Bool := isPlainChar c || c == '.' || c == '?' || c == ':'

/-- The names under which descriptors are imported. -/
def aliases : List (List Char) := Method.all.map fun m => (configAlias m).toList

/-- What names that are joined mention. The first one is no member, as the others are; and with a
colon behind them they are a key. -/
def mention? (names : List Char) : Option Mention :=
  if names.getLast? = some ':' then none
  else
    match (names.dropWhile (· == '.')).span isPlainChar with
    | (first, rest) =>
      if first = "client".toList ∧ rest ≠ [] then
        some (.call (String.ofList ((rest.dropWhile (!isPlainChar ·)).takeWhile isPlainChar)))
      else if aliases.contains first then some (.descriptor (String.ofList first))
      else none

def mentionsOf (code : List Char) : List Mention :=
  (separate (!isLink ·) code).filterMap mention?

/-- What a line of a module mentions. An import gives names and mentions none. -/
def mentionsIn (line : List Char) : List Mention :=
  let text := line.dropWhile (· == ' ')
  if "import ".toList.isPrefixOf text then []
  else if text.head? = some '<' then mentionsOf (tagsFrom .text text)
  else mentionsOf (codeFrom .code text)

def mentions (line : String) : List Mention := mentionsIn line.toList

example : mentions "  return client.get(getConfig, \"client.put\", input.client.post as Input);" =
    [.call "get", .descriptor "getConfig"] := by decide +kernel

theorem mentionsOf_nil : mentionsOf [] = [] := by decide

theorem mentionsOf_cut {c : Char} (hc : isLink c = false) (a b : List Char) :
    mentionsOf (a ++ c :: b) = mentionsOf a ++ mentionsOf b := by
  rw [mentionsOf, separate_append (by simp [hc]), List.filterMap_append]
  rfl

theorem mentionsOf_cons {c : Char} (hc : isLink c = false) (cs : List Char) :
    mentionsOf (c :: cs) = mentionsOf cs := mentionsOf_cut hc [] cs

/-- No name goes on from one text to the other. -/
structure Gap (a b : List Char) : Prop where
  between : (∃ c ∈ a.getLast?, isLink c = false) ∨ ∃ c ∈ b.head?, isLink c = false

theorem Gap.mentionsOf_append {a b : List Char} (h : Gap a b) :
    mentionsOf (a ++ b) = mentionsOf a ++ mentionsOf b := by
  rcases h.between with ⟨c, ha, hc⟩ | ⟨c, hb, hc⟩
  · obtain ⟨front, rfl⟩ := List.getLast?_eq_some_iff.mp ha
    rw [List.append_assoc, List.singleton_append, mentionsOf_cut hc, mentionsOf_cut hc,
      mentionsOf_nil, List.append_nil]
  · obtain ⟨back, rfl⟩ := List.head?_eq_some_iff.mp hb
    rw [mentionsOf_cut hc, mentionsOf_cons hc]

/-- Neither a string nor an address starts in the text. -/
def IsBare (cs : List Char) : Prop := '\x22' ∉ cs ∧ '\x60' ∉ cs

instance (cs : List Char) : Decidable (IsBare cs) := inferInstanceAs (Decidable (_ ∧ _))

theorem IsBare.codeFrom_append {a : List Char} (h : IsBare a) (b : List Char) :
    codeFrom .code (a ++ b) = a ++ codeFrom .code b := by
  obtain ⟨hquote, htick⟩ := h
  induction a with
  | nil => rfl
  | cons c a ih =>
    rw [List.mem_cons, not_or] at hquote htick
    rw [List.cons_append, codeFrom, if_neg (by simpa using Ne.symm hquote.1),
      if_neg (by simpa using Ne.symm htick.1), ih hquote.2 htick.2]
    rfl

/-- What is no part of a name ends a name in code, too, be it a string that starts there. -/
theorem exists_head?_codeFrom {rest : List Char} (h : ∃ c ∈ rest.head?, isLink c = false) :
    ∃ c ∈ (codeFrom .code rest).head?, isLink c = false := by
  obtain ⟨c, hrest, hc⟩ := h
  obtain ⟨rest, rfl⟩ := List.head?_eq_some_iff.mp hrest
  rw [codeFrom]
  split
  · exact ⟨' ', rfl, by decide⟩
  split
  · exact ⟨' ', rfl, by decide⟩
  · exact ⟨c, rfl, hc⟩

/-! ### Texts -/

/-- What is mentioned in a line from here on, the line being code. -/
def mentionsFrom (rest : List Char) : List Mention := mentionsOf (codeFrom .code rest)

/-- The text has these mentions, whatever follows it. -/
def Speaks (text : String) (ms : List Mention) : Prop :=
  ∀ rest, mentionsFrom (text.toList ++ rest) = ms ++ mentionsFrom rest

/-- The text has these mentions, if no name goes on behind it. -/
def Names (text : String) (ms : List Mention) : Prop :=
  ∀ rest : List Char, (∃ c ∈ rest.head?, isLink c = false) →
    mentionsFrom (text.toList ++ rest) = ms ++ mentionsFrom rest

/-- No name goes on in the text. -/
def Breaks (text : String) : Prop := ∃ c ∈ text.toList.head?, isLink c = false

section texts
variable {a b text : String} {xs ys ms : List Mention}

theorem Speaks.names (h : Speaks text ms) : Names text ms := fun rest _ => h rest

theorem Speaks.append (ha : Speaks a xs) (hb : Speaks b ys) : Speaks (a ++ b) (xs ++ ys) :=
  fun rest => by rw [String.toList_append, List.append_assoc, ha, hb, List.append_assoc]

theorem Speaks.append_names (ha : Speaks a xs) (hb : Names b ys) : Names (a ++ b) (xs ++ ys) :=
  fun rest hrest => by
    rw [String.toList_append, List.append_assoc, ha, hb rest hrest, List.append_assoc]

theorem Names.append (ha : Names a xs) (hb : Speaks b ys) (hbreak : Breaks b) :
    Speaks (a ++ b) (xs ++ ys) := fun rest => by
  obtain ⟨c, hhead, hc⟩ := hbreak
  have hrest : ∃ c ∈ (b.toList ++ rest).head?, isLink c = false :=
    ⟨c, by rw [List.head?_append, Option.mem_def.mp hhead]; rfl, hc⟩
  rw [String.toList_append, List.append_assoc, ha _ hrest, hb, List.append_assoc]

theorem names_of_isBare (hbare : IsBare text.toList) : Names text (mentionsOf text.toList) :=
  fun rest hrest => by
    rw [mentionsFrom, hbare.codeFrom_append,
      Gap.mentionsOf_append ⟨.inr (exists_head?_codeFrom hrest)⟩]
    rfl

end texts

/-! ### Strings, keys and names -/

theorem mentionsOf_of_links {cs : List Char} (h : ∀ c ∈ cs, isLink c = true) :
    mentionsOf cs = (mention? cs).toList := by
  rw [mentionsOf, separate_of_forall fun c hc => by simp [h c hc], List.filterMap_cons]
  cases mention? cs <;> rfl

theorem isBare_of_links {cs : List Char} (h : ∀ c ∈ cs, isLink c = true) : IsBare cs :=
  ⟨fun hmem => absurd (h _ hmem) (by decide), fun hmem => absurd (h _ hmem) (by decide)⟩

theorem isLink_of_plain {c : Char} (h : isPlainChar c = true) : isLink c = true := by
  simp [isLink, h]

/-- The name stands for nothing that is mentioned. -/
structure IsSilent (name : String) : Prop where
  plain : ∀ c ∈ name.toList, isPlainChar c = true
  notMem : name.toList ∉ "client".toList :: aliases

theorem isSilent_iff {name : String} : IsSilent name ↔
    (name.toList.all isPlainChar && !("client".toList :: aliases).contains name.toList) = true := by
  rw [Bool.and_eq_true_iff, List.all_eq_true, Bool.not_eq_true', ← Bool.not_eq_true,
    List.contains_iff_mem]
  exact ⟨fun h => ⟨h.plain, h.notMem⟩, fun h => ⟨h.1, h.2⟩⟩

instance (name : String) : Decidable (IsSilent name) := decidable_of_iff' _ isSilent_iff

theorem IsSilent.names {name : String} (h : IsSilent name) : Names name [] := by
  have hlinks : ∀ c ∈ name.toList, isLink c = true := fun c hc => isLink_of_plain (h.plain c hc)
  have hnone : mention? name.toList = none := by
    have hlast : name.toList.getLast? ≠ some ':' := fun hlast =>
      absurd (h.plain _ (List.mem_of_getLast? hlast)) (by decide)
    have hdrop : name.toList.dropWhile (· == '.') = name.toList := by
      cases hname : name.toList with
      | nil => rfl
      | cons c cs =>
        have hdot : c ≠ '.' := fun hc =>
          absurd (h.plain c (by rw [hname]; exact List.mem_cons_self)) (by rw [hc]; decide)
        exact List.dropWhile_cons_of_neg (by simpa using hdot)
    have hspan : name.toList.span isPlainChar = (name.toList, []) := by
      rw [List.span_eq_takeWhile_dropWhile, List.takeWhile_eq_self_iff.mpr h.plain,
        List.dropWhile_eq_nil_iff.mpr h.plain]
    have halias := (not_or.mp (mt List.mem_cons.mpr h.notMem)).2
    rw [mention?, if_neg hlast, hdrop, hspan]
    dsimp only
    rw [if_neg fun h => h.2 rfl, if_neg (mt List.contains_iff_mem.mp halias)]
  have hnames := names_of_isBare (isBare_of_links hlinks)
  rwa [mentionsOf_of_links hlinks, hnone] at hnames

/-- What stands between texts that end in a separator. -/
theorem Speaks.insert {a text b : String} (ha : Speaks a []) (htext : Names text [])
    (hb : Speaks b []) (hbreak : Breaks b) : Speaks (a ++ text ++ b) [] :=
  (ha.append_names htext).append hb hbreak

/-- The characters are known: no string and no address starts among them, and these are the
mentions. -/
def isKnown (cs : List Char) (ms : List Mention) : Bool :=
  !cs.contains '\x22' && !cs.contains '\x60' && mentionsOf cs == ms

/-- The line is code: the first of its characters that is no blank starts neither an import nor
markup. -/
def StartsCode (line : String) : Prop :=
  ∃ c ∈ (line.toList.dropWhile (· == ' ')).head?, c ≠ 'i' ∧ c ≠ '<'

theorem StartsCode.append {front : String} (h : StartsCode front) (rest : String) :
    StartsCode (front ++ rest) := by
  obtain ⟨c, hline, hc⟩ := h
  obtain ⟨cs, hcs⟩ := List.head?_eq_some_iff.mp hline
  refine ⟨c, ?_, hc⟩
  rw [String.toList_append, List.dropWhile_append, hcs]
  rfl

end RouteScaffold.Artifact
