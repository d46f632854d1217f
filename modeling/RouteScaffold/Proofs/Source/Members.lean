import Mathlib.Data.List.Basic
import RouteScaffold.Proofs.Source.Gaps
import RouteScaffold.Proofs.Source.Walks

/-! Members of an object literal.

An object literal is written as members between commas, each with a gap in front:
`key: value` under a bare or quoted key, a shorthand, a method, or a spread
(`Member`). `entries_literal` says that reading it back gives the entries of its
members, in order, and nothing for a spread, whatever the values hold. -/
namespace RouteScaffold.Source
open Text

/-! ### Names -/

/-- Letters, numbers, `_` and `$`, without a digit of ASCII in front. -/
structure IsName (name : List Char) : Prop where
  nonempty : name ≠ []
  chars : ∀ c ∈ name, isIdentChar c = true
  start : ∀ c ∈ name.head?, c.isDigit = false

instance (name : List Char) : Decidable (IsName name) :=
  decidable_of_iff
    (name ≠ [] ∧ name.all isIdentChar = true ∧ name.head?.all (!·.isDigit) = true) <| by
    simp only [List.all_eq_true, Option.all_eq_true, Bool.not_eq_true']
    exact ⟨fun ⟨hne, hchars, hstart⟩ => ⟨hne, hchars, hstart⟩,
      fun h => ⟨h.nonempty, h.chars, h.start⟩⟩

theorem IsName.head_ne {name : List Char} (h : IsName name) {c : Char} (hc : isIdentChar c = false)
    (rest : List Char) : ∀ d ∈ (name ++ rest).head?, d ≠ c := by
  obtain ⟨d, name, rfl⟩ := List.exists_cons_of_ne_nil h.nonempty
  rintro e he rfl
  obtain rfl : d = e := by simpa using he
  rw [h.chars d (List.mem_cons_self ..)] at hc
  cases hc

theorem IsName.isBlank_head {name : List Char} (h : IsName name) (rest : List Char) :
    ∀ c ∈ (name ++ rest).head?, isBlank c = false := by
  obtain ⟨d, name, rfl⟩ := List.exists_cons_of_ne_nil h.nonempty
  intro c hc
  obtain rfl : d = c := by simpa using hc
  exact isBlank_of_isIdentChar (h.chars d (List.mem_cons_self ..))

theorem identifier?_eq (cs : List Char) :
    identifier? cs =
      if IsName (cs.takeWhile isIdentChar) then
        some (cs.takeWhile isIdentChar, cs.dropWhile isIdentChar)
      else none := by
  have hchars : ∀ c ∈ cs.takeWhile isIdentChar, isIdentChar c = true :=
    List.all_eq_true.mp List.all_takeWhile
  rw [identifier?]
  cases hname : cs.takeWhile isIdentChar with
  | nil => rw [if_neg fun h => h.nonempty rfl]
  | cons c name =>
    rw [hname] at hchars
    by_cases hdigit : c.isDigit = true
    · have hnot : ¬ IsName (c :: name) := fun h => by
        rw [h.start c rfl] at hdigit
        cases hdigit
      rw [if_neg hnot]
      exact if_pos hdigit
    · have his : IsName (c :: name) :=
        ⟨List.cons_ne_nil c name, hchars, by simpa using hdigit⟩
      rw [if_pos his]
      exact if_neg hdigit

theorem identifier?_name {name rest : List Char} (h : IsName name)
    (hrest : ∀ c ∈ rest.head?, isIdentChar c = false) :
    identifier? (name ++ rest) = some (name, rest) := by
  have htake : (name ++ rest).takeWhile isIdentChar = name := by
    rw [List.takeWhile_append_of_pos h.chars]
    cases rest with
    | nil => simp
    | cons c rest => simp [hrest c rfl]
  have hdrop : (name ++ rest).dropWhile isIdentChar = rest := by
    rw [List.dropWhile_append_of_pos h.chars]
    cases rest with
    | nil => rfl
    | cons c rest => simp [hrest c rfl]
  rw [identifier?_eq, htake, hdrop, if_pos h]

theorem isIdentChar_of_mem_modifier :
    ∀ word ∈ modifiers, ∀ c ∈ word.toList, isIdentChar c = true := by
  have hall : modifiers.all (·.toList.all isIdentChar) = true := by decide
  simpa only [List.all_eq_true] using hall

/-- Where no name follows, or no blank comes first, there is no method name. -/
theorem methodName?_eq_none {behind : List Char}
    (h : (∀ c ∈ (trimStart behind).head?, isIdentChar c = false) ∨ trimStart behind = behind) :
    methodName? behind = none := by
  unfold methodName?
  split
  · rfl
  next c name heq =>
    rcases h with h | h
    · rw [h c (by simp [heq]), Bool.and_false]
      rfl
    · rw [← h, heq]
      simp

/-- Behind a modifier that a name starts with, no further name follows. -/
theorem methodName?_modifier {word : String} (hword : word ∈ modifiers) {name tail rest : List Char}
    (h : IsName name) (htail : ∀ c ∈ (trimStart tail).head?, isIdentChar c = false)
    (heq : word.toList ++ rest = name ++ tail) : methodName? rest = none := by
  apply methodName?_eq_none
  rcases List.append_eq_append_iff.mp heq with ⟨more, hname, rfl⟩ | ⟨more, hword', htail'⟩
  · cases more with
    | nil => exact .inl htail
    | cons d more =>
      have hd : isBlank d = false := isBlank_of_isIdentChar (h.chars d (by simp [hname]))
      exact .inr (trimStart_solid (by simp [hd]))
  · cases more with
    | nil =>
      rw [List.nil_append] at htail'
      exact .inl (htail' ▸ htail)
    | cons d more =>
      -- The modifier would go on into what follows the name.
      have hd : isIdentChar d = true :=
        isIdentChar_of_mem_modifier word hword d (by simp [hword'])
      rw [htail', trimStart_solid (by simp [isBlank_of_isIdentChar hd])] at htail
      rw [htail d rfl] at hd
      cases hd

/-- A name is never taken for a modifier, not even if it starts with one or is one: no further
name follows it. -/
theorem stripModifier_name {name tail : List Char} (h : IsName name)
    (htail : ∀ c ∈ (trimStart tail).head?, isIdentChar c = false) :
    stripModifier (name ++ tail) = name ++ tail := by
  rw [stripModifier, List.findSome?_eq_none_iff.mpr]
  · rfl
  intro word hword
  split
  next hprefix =>
    obtain ⟨rest, hrest⟩ := List.isPrefixOf_iff_prefix.mp hprefix
    have hdrop : (name ++ tail).drop word.length = rest := by
      rw [← hrest, ← String.length_toList, List.drop_left]
    rw [hdrop]
    exact methodName?_modifier hword h htail hrest
  next => rfl

/-- A name behind `async` and blanks is what is left without the modifier. -/
theorem stripModifier_async {blank name : List Char} (hb : Blank blank) (hne : blank ≠ [])
    (h : IsName name) (tail : List Char) :
    stripModifier ("async".toList ++ (blank ++ (name ++ tail))) = name ++ tail := by
  have hname : methodName? (blank ++ (name ++ tail)) = some (name ++ tail) := by
    have hpos : 0 < blank.length := List.length_pos_iff.mpr hne
    obtain ⟨c, rest, rfl⟩ := List.exists_cons_of_ne_nil h.nonempty
    rw [methodName?, trimStart_blank hb, trimStart_solid (h.isBlank_head tail), List.cons_append]
    simp [h.chars c (List.mem_cons_self ..), hpos]
  have hprefix : "async".toList.isPrefixOf ("async".toList ++ (blank ++ (name ++ tail))) = true :=
    rfl
  have hdrop : ("async".toList ++ (blank ++ (name ++ tail))).drop "async".length =
      blank ++ (name ++ tail) := rfl
  rw [stripModifier, modifiers, List.findSome?_cons, if_pos hprefix, hdrop, hname]
  rfl

theorem key?_name {name tail : List Char} (h : IsName name)
    (htail : ∀ c ∈ (trimStart tail).head?, isIdentChar c = false)
    (hhead : ∀ c ∈ tail.head?, isIdentChar c = false) :
    key? (name ++ tail) = some (name, tail) := by
  have hdouble := h.head_ne (isIdentChar_of_mem_signs '\x22' (by decide)) tail
  have hsingle := h.head_ne (isIdentChar_of_mem_signs '\x27' (by decide)) tail
  have hstrip := stripModifier_name h htail
  have hident := identifier?_name h hhead
  obtain ⟨c, name, rfl⟩ := List.exists_cons_of_ne_nil h.nonempty
  rw [List.cons_append] at hdouble hsingle hstrip hident ⊢
  simp [key?, hdouble c rfl, hsingle c rfl, hstrip, hident]

theorem key?_async {blank name tail : List Char} (hb : Blank blank) (hne : blank ≠ [])
    (h : IsName name) (hhead : ∀ c ∈ tail.head?, isIdentChar c = false) :
    key? ("async".toList ++ (blank ++ (name ++ tail))) = some (name, tail) := by
  have hstrip := stripModifier_async hb hne h tail
  have hident := identifier?_name h hhead
  have hcs : "async".toList ++ (blank ++ (name ++ tail)) =
      'a' :: ("sync".toList ++ (blank ++ (name ++ tail))) := rfl
  rw [hcs] at hstrip ⊢
  rw [key?, hstrip, hident]
  rfl

theorem key?_quoted {quote : Char} (hq : quote = '\x22' ∨ quote = '\x27') {name : List Char}
    (h : quote ∉ name) (tail : List Char) :
    key? (quote :: (name ++ quote :: tail)) = some (name, tail) := by
  have hne : ∀ c ∈ name, (c != quote) = true := fun c hc => by
    simpa using fun (e : c = quote) => h (e ▸ hc)
  have hcond : (quote == '\x22' || quote == '\x27') = true := by simpa using hq
  rw [key?]
  simp only [hcond, if_true, List.dropWhile_append_of_pos hne, List.takeWhile_append_of_pos hne]
  simp

/-! ### Members -/

/-- A key, bare or between quotes. -/
inductive Key where
  | bare (name : List Char)
  | quoted (quote : Char) (name : List Char)

namespace Key

def name : Key → List Char
  | .bare name => name
  | .quoted _ name => name

def text : Key → List Char
  | .bare name => name
  | .quoted quote name => quote :: (name ++ [quote])

/-- A quoted name has neither its quote nor a backslash. -/
def WellFormed : Key → Prop
  | .bare name => IsName name
  | .quoted quote name => (quote = '\x22' ∨ quote = '\x27') ∧ quote ∉ name ∧ '\\' ∉ name

end Key

/-- A member of an object literal. -/
inductive Member where
  /-- The value is all that stands behind the colon, blanks included. -/
  | property (key : Key) (value : List Char)
  | shorthand (name : List Char)
  /-- A method; `async` are the blanks behind that word, if it stands in front, and `space` those
  before the body. -/
  | method (async : Option (List Char)) (name args space body : List Char)
  | spread (value : List Char)

namespace Member

/-- What stands in front of the name of a method. -/
def modifier : Option (List Char) → List Char
  | some blank => "async".toList ++ blank
  | none => []

/-- A method from its parameters on. -/
def function (args space body : List Char) : List Char :=
  '(' :: (args ++ ')' :: (space ++ '\x7b' :: (body ++ ['\x7d'])))

def text : Member → List Char
  | .property key value => key.text ++ ':' :: value
  | .shorthand name => name
  | .method async name args space body => modifier async ++ (name ++ function args space body)
  | .spread value => '.' :: '.' :: '.' :: value

theorem text_async (blank name args space body : List Char) :
    (method (some blank) name args space body).text =
      "async".toList ++ (blank ++ (name ++ function args space body)) := List.append_assoc ..

/-- What a member declares: under which key, with which value. -/
def entry? : Member → Option Entry
  | .property key value => some ⟨key.name, trim value⟩
  | .shorthand name => some ⟨name, name⟩
  | .method _ name args space body => some ⟨name, function args space body⟩
  | .spread _ => none

/-- A value is made of tokens and has no comma outside all brackets. -/
inductive WellFormed : Member → Prop where
  | property {key value} : key.WellFormed → Tokens false (some ':') value →
      WellFormed (.property key value)
  | shorthand {name} : IsName name → WellFormed (.shorthand name)
  | method {async name args space body} : (∀ blank ∈ async, Blank blank ∧ blank ≠ []) →
      IsName name → Tokens true (some '(') args → Blank space → Tokens true (some '\x7b') body →
      WellFormed (.method async name args space body)
  | spread {value} : Tokens false (some '.') value → WellFormed (.spread value)

end Member

/-! ### The tokens of a member -/

theorem plainWord_of_ident {name : List Char} (h : ∀ c ∈ name, isIdentChar c = true) :
    PlainWord name := fun c hc => isPlainWord_of_isIdentChar (h c hc)

theorem Tokens.name {commas : Bool} {before : Option Char} {name rest : List Char}
    (h : ∀ c ∈ name, isIdentChar c = true) (hrest : Tokens commas (lastSolid before name) rest) :
    Tokens commas before (name ++ rest) :=
  .word name (plainWord_of_ident h) hrest

theorem Key.tokens {key : Key} (h : key.WellFormed) {rest : List Char}
    (hrest : Tokens false (some ':') rest) (before : Option Char) :
    Tokens false before (key.text ++ ':' :: rest) := by
  have hcolon (before : Option Char) : Tokens false before (':' :: rest) :=
    .plain (by decide) (by simp) hrest
  cases key with
  | bare name => exact .name (IsName.chars h) (hcolon _)
  | quoted quote name =>
    obtain ⟨hq, hquote, hslash⟩ := h
    have hisQuote : isQuote quote = true := by rcases hq with rfl | rfl <;> rfl
    have htokens : Tokens false before (quote :: (name ++ quote :: ':' :: rest)) :=
      .string hisQuote (.of_plain hquote hslash) (hcolon _)
    simpa [Key.text] using htokens

theorem Member.tokens {m : Member} (h : m.WellFormed) (before : Option Char) :
    Tokens false before m.text := by
  cases h with
  | property hkey hvalue => exact Key.tokens hkey hvalue before
  | shorthand hname => exact .of_word (plainWord_of_ident hname.chars)
  | @method async name args space body hasync hname hargs hspace hbody =>
    have hfunction (before : Option Char) : Tokens false before (Member.function args space body) :=
      .group .round hargs (.word space (plainWord_of_blank hspace) (.group .curly hbody .nil))
    have hmethod (before : Option Char) :
        Tokens false before (name ++ Member.function args space body) :=
      .name hname.chars (hfunction _)
    cases async with
    | none => exact hmethod before
    | some blank =>
      have hblank := (hasync blank rfl).1
      rw [Member.text_async]
      exact .word _ (by decide) (.word blank (plainWord_of_blank hblank) (hmethod _))
  | spread hvalue =>
    exact .word ['.', '.', '.'] (by decide) hvalue

/-! ### Reading a member -/

/-- A member starts with a character that is no blank and starts no comment. -/
theorem Member.head {m : Member} (h : m.WellFormed) :
    ∃ c rest, m.text = c :: rest ∧ isBlank c = false ∧ c ≠ '/' := by
  have hname {name : List Char} (h : IsName name) (rest : List Char) :
      ∃ c rest', name ++ rest = c :: rest' ∧ isBlank c = false ∧ c ≠ '/' := by
    have hblank := h.isBlank_head rest
    have hslash := h.head_ne (isIdentChar_of_mem_signs '/' (by decide)) rest
    obtain ⟨c, name, rfl⟩ := List.exists_cons_of_ne_nil h.nonempty
    exact ⟨c, name ++ rest, rfl, hblank c rfl, hslash c rfl⟩
  cases h with
  | @property key value hkey hvalue =>
    cases key with
    | bare name => exact hname hkey _
    | quoted quote name => exact ⟨quote, _, rfl, by rcases hkey.1 with rfl | rfl <;> decide⟩
  | @shorthand name h =>
    have := hname h []
    rwa [List.append_nil] at this
  | @method async name args space body hasync h _ _ _ =>
    cases async with
    | none => exact hname h _
    | some blank => exact ⟨'a', _, rfl, by decide⟩
  | spread _ => exact ⟨'.', _, rfl, by decide⟩

theorem stripComments_of_head {c : Char} (hb : isBlank c = false) (hs : c ≠ '/')
    (rest : List Char) : stripComments (c :: rest) = c :: rest := by
  have htrim : trimStart (c :: rest) = c :: rest := trimStart_solid (by simp [hb])
  rw [stripComments_solid, htrim]
  rw [htrim]
  simpa using hs

/-- The gap in front of a part and the blanks behind it do not count. -/
theorem ofPart?_between {gap space : List Char} (hg : Gap gap) (hs : Blank space) {c : Char}
    (hb : isBlank c = false) (hc : c ≠ '/') (rest : List Char) :
    Entry.ofPart? (gap ++ (c :: rest ++ space)) = Entry.ofPart? (c :: rest) := by
  rw [Entry.ofPart?, Entry.ofPart?, stripComments_gap hg, List.cons_append,
    stripComments_of_head hb hc, stripComments_of_head hb hc, ← List.cons_append,
    trimEnd_blank _ hs]

/-- A part whose key is read has the entry that the rest gives it. -/
theorem ofPart?_eq_of_key? {text trimmed key behind : List Char}
    (hstrip : stripComments text = text) (htrim : trimEnd text = trimmed)
    (hdot : ∀ c ∈ trimmed.head?, c ≠ '.') (hkey : key? trimmed = some (key, behind)) :
    Entry.ofPart? text = (value? key behind).map (Entry.mk key) := by
  have hspread : "...".toList.isPrefixOf trimmed = false := by
    cases trimmed with
    | nil => rfl
    | cons c rest =>
      have hc : ('.' == c) = false := beq_eq_false_iff_ne.mpr (hdot c rfl).symm
      show ('.' == c && _) = false
      rw [hc, Bool.false_and]
  simp only [Entry.ofPart?, hstrip, htrim, hspread, Bool.false_eq_true, if_false, hkey]
  cases hvalue : value? key behind <;> simp [hvalue]

theorem ofPart?_of_key? {text trimmed key behind value : List Char}
    (hstrip : stripComments text = text) (htrim : trimEnd text = trimmed)
    (hdot : ∀ c ∈ trimmed.head?, c ≠ '.') (hkey : key? trimmed = some (key, behind))
    (hvalue : value? key behind = some value) : Entry.ofPart? text = some ⟨key, value⟩ := by
  rw [ofPart?_eq_of_key? hstrip htrim hdot hkey, hvalue, Option.map_some]

/-- What stands behind a name does not go on with it. -/
theorem isIdentChar_sign {c : Char} (h : c ∈ signs) (rest : List Char) :
    (∀ d ∈ (c :: rest).head?, isIdentChar d = false) ∧
      ∀ d ∈ (trimStart (c :: rest)).head?, isIdentChar d = false := by
  rw [trimStart_solid (by simpa using isBlank_of_mem_signs c h)]
  simpa using isIdentChar_of_mem_signs c h

theorem trimEnd_ident {name : List Char} (h : ∀ c ∈ name, isIdentChar c = true) :
    trimEnd name = name := by
  rcases List.eq_nil_or_concat name with rfl | ⟨front, c, rfl⟩
  · rfl
  · rw [List.concat_eq_append]
    exact trimEnd_solid front (isBlank_of_isIdentChar (h c (by simp))) []

theorem Key.head_ne_dot {key : Key} (h : key.WellFormed) (rest : List Char) :
    ∀ c ∈ (key.text ++ rest).head?, c ≠ '.' := by
  cases key with
  | bare name => exact IsName.head_ne h (isIdentChar_of_mem_signs '.' (by decide)) rest
  | quoted quote name => rcases h.1 with rfl | rfl <;> simp [Key.text]

theorem key?_key {key : Key} (h : key.WellFormed) (rest : List Char) :
    key? (key.text ++ ':' :: rest) = some (key.name, ':' :: rest) := by
  cases key with
  | bare name =>
    obtain ⟨hhead, htail⟩ := isIdentChar_sign (c := ':') (by decide) rest
    exact key?_name h htail hhead
  | quoted quote name =>
    have hquoted := key?_quoted h.1 h.2.1 (':' :: rest)
    simpa [Key.text, Key.name] using hquoted

theorem ofPart?_property {key : Key} (h : key.WellFormed) {value : List Char}
    (hstrip : stripComments (key.text ++ ':' :: value) = key.text ++ ':' :: value) :
    Entry.ofPart? (key.text ++ ':' :: value) = some ⟨key.name, trim value⟩ := by
  have hcolon := isBlank_of_mem_signs ':' (by decide)
  have hvalue : value? key.name (':' :: trimEnd value) = some (trim value) := by
    rw [value?, trimStart_solid (by simp [hcolon])]
    simp [trim_trimEnd]
  exact ofPart?_of_key? hstrip (trimEnd_solid key.text hcolon value) (Key.head_ne_dot h _)
    (key?_key h _) hvalue

theorem ofPart?_shorthand {name : List Char} (h : IsName name)
    (hstrip : stripComments name = name) : Entry.ofPart? name = some ⟨name, name⟩ := by
  have hkey : key? (name ++ []) = some (name, []) := key?_name h (by simp [trimStart]) (by simp)
  have hhead := h.head_ne (isIdentChar_of_mem_signs '.' (by decide)) []
  rw [List.append_nil] at hkey hhead
  exact ofPart?_of_key? hstrip (trimEnd_ident h.chars) hhead hkey rfl

theorem trimEnd_function (front args space body : List Char) :
    trimEnd (front ++ Member.function args space body) =
      front ++ Member.function args space body := by
  have hcurly : isBlank '\x7d' = false := by decide
  have htrim := trimEnd_solid
    (front ++ '(' :: (args ++ ')' :: (space ++ '\x7b' :: body))) hcurly []
  simpa [Member.function, trimEnd] using htrim

/-- The value of a method is all that stands behind its name. -/
theorem value?_function (name args space body : List Char) :
    value? name (Member.function args space body) = some (Member.function args space body) := by
  have hround := isBlank_of_mem_signs '(' (by decide)
  rw [value?, Member.function, trimStart_solid (by simp [hround])]
  rfl

theorem ofPart?_method {async : Option (List Char)} {name args space body : List Char}
    (hasync : ∀ blank ∈ async, Blank blank ∧ blank ≠ []) (h : IsName name)
    (hstrip : stripComments (Member.method async name args space body).text =
      (Member.method async name args space body).text) :
    Entry.ofPart? (Member.method async name args space body).text =
      some ⟨name, Member.function args space body⟩ := by
  obtain ⟨hhead, htail⟩ := isIdentChar_sign (c := '(') (by decide)
    (args ++ ')' :: (space ++ '\x7b' :: (body ++ ['\x7d'])))
  have hvalue := value?_function name args space body
  cases async with
  | none =>
    exact ofPart?_of_key? hstrip (trimEnd_function name args space body)
      (h.head_ne (isIdentChar_of_mem_signs '.' (by decide)) _) (key?_name h htail hhead) hvalue
  | some blank =>
    obtain ⟨hblank, hne⟩ := hasync blank rfl
    have htrim : trimEnd (Member.method (some blank) name args space body).text =
        "async".toList ++ (blank ++ (name ++ Member.function args space body)) := by
      rw [Member.text_async, ← List.append_assoc blank, ← List.append_assoc, trimEnd_function]
    exact ofPart?_of_key? hstrip htrim (by simp) (key?_async hblank hne h hhead) hvalue

theorem ofPart?_spread {value : List Char}
    (hstrip : stripComments (Member.spread value).text = (Member.spread value).text) :
    Entry.ofPart? (Member.spread value).text = none := by
  have hdot : isBlank '.' = false := isBlank_of_mem_signs '.' (by decide)
  have htrim : trimEnd ('.' :: '.' :: '.' :: value) = '.' :: '.' :: '.' :: trimEnd value :=
    trimEnd_solid ['.', '.'] hdot value
  rw [Entry.ofPart?, hstrip, Member.text, htrim]
  rfl

/-- **Reading a member gives what it declares.** -/
theorem ofPart?_member {m : Member} (h : m.WellFormed) : Entry.ofPart? m.text = m.entry? := by
  obtain ⟨c, rest, htext, hb, hs⟩ := Member.head h
  have hstrip : stripComments m.text = m.text := by rw [htext, stripComments_of_head hb hs]
  cases h with
  | property hkey _ => exact ofPart?_property hkey hstrip
  | shorthand hname => exact ofPart?_shorthand hname hstrip
  | method hasync hname _ _ _ => exact ofPart?_method hasync hname hstrip
  | spread _ => exact ofPart?_spread hstrip

/-! ### Object literals -/

/-- A member with the gap in front of it and the blanks behind it. -/
structure Item where
  gap : List Char := []
  member : Member
  space : List Char := []

namespace Item

def text (i : Item) : List Char := i.gap ++ (i.member.text ++ i.space)

structure WellFormed (i : Item) : Prop where
  gap : Gap i.gap
  member : i.member.WellFormed
  space : Blank i.space

end Item

/-- What stands between the braces of an object literal. With a trailing comma, `trailing` is the
gap behind it. -/
def literal (items : List Item) (trailing : Option (List Char)) : List Char :=
  List.intercalate [','] (items.map Item.text ++ trailing.toList)

/-- What the items declare, in order. -/
def declared (items : List Item) : List Entry := items.filterMap fun i => i.member.entry?

theorem Item.tokens {i : Item} (h : i.WellFormed) (before : Option Char) :
    Tokens false before i.text :=
  .gap h.gap fun before => (Member.tokens h.member before).append_blank h.space

theorem Item.ofPart? {i : Item} (h : i.WellFormed) : Entry.ofPart? i.text = i.member.entry? := by
  obtain ⟨c, rest, htext, hb, hs⟩ := Member.head h.member
  rw [Item.text, htext, ofPart?_between h.gap h.space hb hs, ← htext, ofPart?_member h.member]

theorem ofPart?_gap {gap : List Char} (h : Gap gap) : Entry.ofPart? gap = none := by
  have hstrip := stripComments_gap h []
  rw [List.append_nil] at hstrip
  rw [Entry.ofPart?, hstrip, stripComments_nil]
  rfl

theorem parts_tokens {parts : List (List Char)} {trailing : Option (List Char)}
    (h : ∀ part ∈ parts, ∀ before, Tokens false before part) (ht : ∀ gap ∈ trailing, Gap gap) :
    ∀ part ∈ parts ++ trailing.toList, ∀ before, Tokens false before part :=
  List.forall_mem_append.mpr ⟨h, fun part hpart _ => (ht part (by simpa using hpart)).tokens _⟩

/-- What is read between braces is read part by part, and nothing behind a trailing comma. -/
theorem entries_intercalate {parts : List (List Char)} {trailing : Option (List Char)}
    (h : ∀ part ∈ parts, ∀ before, Tokens false before part) (ht : ∀ gap ∈ trailing, Gap gap) :
    entries (List.intercalate [','] (parts ++ trailing.toList)) =
      parts.filterMap Entry.ofPart? := by
  have htrailing : trailing.toList.filterMap Entry.ofPart? = [] := by
    cases trailing with
    | none => rfl
    | some gap => simp [ofPart?_gap (ht gap rfl)]
  by_cases hne : parts ++ trailing.toList = []
  · have hempty : commaParts (List.intercalate [','] [[]]) = [[]] :=
      commaParts_intercalate (by simp) (by simpa using fun _ => .nil)
    rw [entries, hne, (List.append_eq_nil_iff.mp hne).1]
    show (commaParts (List.intercalate [','] [[]])).filterMap Entry.ofPart? = []
    rw [hempty]
    simp [ofPart?_gap .nil]
  · rw [entries, commaParts_intercalate hne (parts_tokens h ht), List.filterMap_append, htrailing,
      List.append_nil]

theorem Item.tokens_texts {items : List Item} (h : ∀ i ∈ items, i.WellFormed) :
    ∀ part ∈ items.map Item.text, ∀ before, Tokens false before part :=
  List.forall_mem_map.mpr fun i hi => Item.tokens (h i hi)

theorem literal_tokens {items : List Item} {trailing : Option (List Char)}
    (h : ∀ i ∈ items, i.WellFormed) (ht : ∀ gap ∈ trailing, Gap gap) :
    ∀ part ∈ items.map Item.text ++ trailing.toList, ∀ before, Tokens false before part :=
  parts_tokens (Item.tokens_texts h) ht

/-- **Reading an object literal gives the entries of its members**, in order. -/
theorem entries_literal {items : List Item} {trailing : Option (List Char)}
    (h : ∀ i ∈ items, i.WellFormed) (ht : ∀ gap ∈ trailing, Gap gap) :
    entries (literal items trailing) = declared items := by
  rw [literal, entries_intercalate (Item.tokens_texts h) ht, List.filterMap_map]
  exact List.filterMap_congr fun i hi => Item.ofPart? (h i hi)

end RouteScaffold.Source
