import RouteScaffold.Proofs.Source.SchemaFields
import RouteScaffold.Proofs.Source.Filled

/-! What the calls of a field are chained behind.

The value of a property starts with a head: a call of `z`, a call one name further
down, or a reference to another schema (`Head`); calls are chained behind it, each
perhaps behind a gap. `schemaFields_property` says which field is read from such a
property, in any literal: behind a call of `z`, coerced or not, it is optional
exactly if one of the chained calls makes it so, and behind any other head it is
required whatever is chained there. -/
namespace RouteScaffold.Source
open Text Route

/-! ### What is written -/

/-- What the calls of a value are chained behind. The blanks stand in front of a dot. -/
inductive Head where
  /-- A call `z.token(args)`. -/
  | call (blank token args : List Char)
  /-- A call `z.family.token(args)`. -/
  | member (blank family blank' token args : List Char)
  /-- The name of another schema. -/
  | reference (name : List Char)

namespace Head

def text : Head → List Char
  | .call blank token args => 'z' :: (blank ++ '.' :: (token ++ '(' :: (args ++ [')'])))
  | .member blank family blank' token args =>
    'z' :: (blank ++ '.' :: (family ++ (blank' ++ '.' :: (token ++ '(' :: (args ++ [')'])))))
  | .reference name => name

/-- Whether it is the type itself that is called. -/
def isTypeCall : Head → Bool
  | .call .. => true
  | .member _ family .. => family == "coerce".toList
  | .reference _ => false

def type : Head → BaseType
  | .call _ token _ => .ofToken (String.ofList token)
  | .member _ family _ token _ =>
    .ofToken (String.ofList (if family = "coerce".toList then token else family))
  | .reference _ => .other "unknown"

/-- The arguments are balanced, and `z` itself is no schema. -/
inductive WellFormed : Head → Prop where
  | call {blank token args} : Blank blank → IsTypeToken token → Tokens true (some '(') args →
      WellFormed (.call blank token args)
  | member {blank family blank' token args} : Blank blank → IsTypeToken family → Blank blank' →
      IsTypeToken token → Tokens true (some '(') args →
      WellFormed (.member blank family blank' token args)
  | reference {name} : IsName name → name ≠ ['z'] → WellFormed (.reference name)

end Head

/-- A chained call with the gap in front of it. -/
structure Link where
  gap : List Char := []
  call : Call

namespace Link

def text (l : Link) : List Char := l.gap ++ l.call.text

structure WellFormed (l : Link) : Prop where
  gap : Gap l.gap
  call : l.call.WellFormed

end Link

/-- A property of a schema as it is written down. -/
structure Property where
  /-- Blanks and comments in front of the key. -/
  gap : List Char := []
  key : Key
  /-- Blanks behind the colon. -/
  lead : List Char := [' ']
  head : Head
  links : List Link := []
  /-- Blanks behind the value. -/
  space : List Char := []

namespace Property

def expression (p : Property) : List Char := p.head.text ++ p.links.flatMap Link.text

def item (p : Property) : Item := ⟨p.gap, .property p.key (p.lead ++ p.expression), p.space⟩

/-- Whether a chained call makes it optional, of those that are read. -/
def optional (p : Property) : Bool :=
  p.head.isTypeCall && p.links.any fun l => makesOptional l.call.name

def field (p : Property) : Field := ⟨String.ofList p.key.name, p.head.type, p.optional⟩

structure WellFormed (p : Property) : Prop where
  gap : Gap p.gap
  key : p.key.WellFormed
  lead : Blank p.lead
  head : p.head.WellFormed
  links : ∀ l ∈ p.links, l.WellFormed
  space : Blank p.space

end Property

/-! ### Its tokens -/

theorem IsTypeToken.plainWord {token : List Char} (h : IsTypeToken token) : PlainWord token :=
  fun c hc => isPlainWord_of_not_mem fun hm => by
    have := h.chars c hc
    rw [isTokenChar_of_mem_signs c hm] at this
    cases this

theorem Link.tokens {links : List Link} (h : ∀ l ∈ links, l.WellFormed) (before : Option Char) :
    Tokens false before (links.flatMap Link.text) := by
  induction links generalizing before with
  | nil => exact .nil
  | cons l links ih =>
    have hl := h l (List.mem_cons_self ..)
    have hrest (before : Option Char) := ih (fun m hm => h m (List.mem_cons_of_mem l hm)) before
    have hcall (before : Option Char) :
        Tokens false before (l.call.text ++ links.flatMap Link.text) := by
      have htokens : Tokens false before ('.' :: (l.call.name ++ Bracket.round.opening ::
          (l.call.args ++ Bracket.round.closing :: links.flatMap Link.text))) :=
        .plain (by decide) (by decide)
          (.name hl.call.name.chars (.group .round hl.call.args (hrest _)))
      simpa [Call.text, Bracket.opening, Bracket.closing] using htokens
    rw [List.flatMap_cons, Link.text, List.append_assoc]
    exact .gap hl.gap hcall

theorem Head.tokens {head : Head} (h : head.WellFormed) {rest : List Char}
    (hrest : ∀ before, Tokens false before rest) (before : Option Char) :
    Tokens false before (head.text ++ rest) := by
  have hdot : PlainWord ['.'] := by decide
  have hz : PlainWord ['z'] := by decide
  have hcalled {token args : List Char} (htoken : IsTypeToken token)
      (hargs : Tokens true (some '(') args) (before : Option Char) :
      Tokens false before (['.'] ++ (token ++ '(' :: (args ++ ')' :: rest))) :=
    .word _ hdot (.word token htoken.plainWord (.group .round hargs (hrest _)))
  cases h with
  | @call blank token args hblank htoken hargs =>
    have htokens : Tokens false before (['z'] ++ (blank ++ _)) :=
      .word _ hz (.word blank (plainWord_of_blank hblank) (hcalled htoken hargs _))
    simpa [Head.text] using htokens
  | @member blank family blank' token args hblank hfamily hblank' htoken hargs =>
    have htokens : Tokens false before (['z'] ++ (blank ++ (['.'] ++ (family ++ (blank' ++ _))))) :=
      .word _ hz (.word blank (plainWord_of_blank hblank) (.word _ hdot
        (.word family hfamily.plainWord
          (.word blank' (plainWord_of_blank hblank') (hcalled htoken hargs _)))))
    simpa [Head.text] using htokens
  | reference hname _ => exact .name hname.chars (hrest _)

theorem Property.item_wellFormed {p : Property} (h : p.WellFormed) : p.item.WellFormed :=
  ⟨h.gap, .property h.key (.word p.lead (plainWord_of_blank h.lead)
    (Head.tokens h.head (Link.tokens h.links) _)), h.space⟩

/-! ### Reading the head -/

theorem chain_congr {a b : List Char} (h : stripComments a = stripComments b) :
    chain a = chain b := by
  by_cases hdot : ∃ rest, stripComments b = '.' :: rest
  · obtain ⟨rest, hrest⟩ := hdot
    rw [chain_of_dot hrest, chain_of_dot (h.trans hrest)]
  · rw [not_exists] at hdot
    rw [chain_of_ne hdot, chain_of_ne (h ▸ hdot)]

theorem chain_links {links : List Link} (h : ∀ l ∈ links, l.WellFormed) :
    chain (links.flatMap Link.text) = links.map fun l => l.call.name := by
  induction links with
  | nil => exact chain_nil
  | cons l links ih =>
    have hl := h l (List.mem_cons_self ..)
    rw [List.flatMap_cons, Link.text, List.append_assoc,
      chain_congr (stripComments_gap hl.gap _), chain_call hl.call,
      ih fun m hm => h m (List.mem_cons_of_mem l hm), List.map_cons]

/-- Behind the arguments of a call, the chained calls make a field optional. -/
theorem optionalBehind_call {args : List Char} (hargs : Tokens true (some '(') args)
    {links : List Link} (hlinks : ∀ l ∈ links, l.WellFormed) :
    optionalBehind (trimStart ('(' :: (args ++ ')' :: links.flatMap Link.text))) =
      links.any fun l => makesOptional l.call.name := by
  have hclose : enclosed? '(' (args ++ ')' :: links.flatMap Link.text) =
      some (args, links.flatMap Link.text) := enclosed?_tokens .round hargs _
  rw [trimStart_solid (by simpa using isBlank_of_mem_signs '(' (by decide)), optionalBehind,
    pastArguments, hclose]
  show (chain (links.flatMap Link.text)).any makesOptional = _
  rw [chain_links hlinks, List.any_map]
  rfl

/-- Where no arguments follow, nothing does. -/
theorem optionalBehind_dot {blank : List Char} (h : Blank blank) (rest : List Char) :
    optionalBehind (trimStart (blank ++ '.' :: rest)) = false := by
  rw [trimStart_blank h, trimStart_solid (by simpa using isBlank_of_mem_signs '.' (by decide))]
  rfl

/-- What ends a type token in front of a dot. -/
theorem not_token_dot {blank : List Char} (h : Blank blank) (rest : List Char) :
    ∀ c ∈ (blank ++ '.' :: rest).head?, isTokenChar c = false := by
  cases blank with
  | nil => simpa using isTokenChar_of_mem_signs '.' (by decide)
  | cons d blank =>
    have hd : isBlank d = true := h d (List.mem_cons_self ..)
    intro c hc
    obtain rfl : d = c := by simpa using hc
    cases htoken : isTokenChar d with
    | false => rfl
    | true => rw [isBlank_of_isTokenChar htoken] at hd; cases hd

/-- A name other than `z` is no call of it. -/
theorem baseType?_reference {name rest : List Char} (h : IsName name) (hz : name ≠ ['z']) :
    baseType? (name ++ rest) = none := by
  obtain ⟨c, tail, rfl⟩ := List.exists_cons_of_ne_nil h.nonempty
  by_cases hc : c = 'z'
  · subst hc
    obtain ⟨d, tail, rfl⟩ : ∃ d tail', tail = d :: tail' :=
      List.exists_cons_of_ne_nil fun hnil => hz (by rw [hnil])
    have hd : isIdentChar d = true := h.chars d (by simp)
    have hdot : d ≠ '.' := by
      rintro rfl
      rw [isIdentChar_of_mem_signs '.' (by decide)] at hd
      cases hd
    have hnone : nextChar? '.' (d :: tail ++ rest) = none := by
      rw [List.cons_append, nextChar?_solid (isBlank_of_isIdentChar hd)]
      simp [hdot]
    show (nextChar? '.' (d :: tail ++ rest)).bind _ = none
    rw [hnone, Option.bind_none]
  · rw [List.cons_append, baseType?]
    simpa using hc

theorem field_of_baseType? {key value token behind : List Char}
    (h : baseType? value = some (token, behind)) : Entry.field ⟨key, value⟩ =
      ⟨String.ofList key, .ofToken (String.ofList token), optionalBehind (trimStart behind)⟩ := by
  rw [field_eq, h]
  rfl

/-- The field that is read from a head and what is chained behind it. -/
theorem Head.field {head : Head} (h : head.WellFormed) (key : List Char) {links : List Link}
    (hlinks : ∀ l ∈ links, l.WellFormed) :
    Entry.field ⟨key, head.text ++ links.flatMap Link.text⟩ =
      ⟨String.ofList key, head.type,
        head.isTypeCall && links.any fun l => makesOptional l.call.name⟩ := by
  cases h with
  | @call blank token args hblank htoken hargs =>
    let called := '(' :: (args ++ ')' :: links.flatMap Link.text)
    obtain ⟨hend, hround⟩ : (∀ c ∈ called.head?, isTokenChar c = false) ∧ _ := not_token_round _
    have hbase := baseType?_dot hblank (token ++ called)
    rw [coerced?_token htoken hend fun _ => hround, Option.bind_none, Option.none_or,
      typeToken?_token htoken hend] at hbase
    have hvalue : (Head.call blank token args).text ++ links.flatMap Link.text =
        'z' :: (blank ++ '.' :: (token ++ called)) := by
      simp [Head.text, called]
    rw [hvalue, field_of_baseType? hbase, optionalBehind_call hargs hlinks]
    rfl
  | @member blank family blank' token args hblank hfamily hblank' htoken hargs =>
    let called := '(' :: (args ++ ')' :: links.flatMap Link.text)
    let behind := blank' ++ '.' :: (token ++ called)
    have hbase := baseType?_dot hblank (family ++ behind)
    have hvalue : (Head.member blank family blank' token args).text ++ links.flatMap Link.text =
        'z' :: (blank ++ '.' :: (family ++ behind)) := by
      simp [Head.text, behind, called]
    rw [hvalue]
    by_cases hcoerce : family = "coerce".toList
    · have hend : ∀ c ∈ called.head?, isTokenChar c = false := (not_token_round _).1
      have hcoerced : coerced? (family ++ behind) = some (token ++ called) := by
        rw [hcoerce]
        exact nextChar?_dot hblank' _
      rw [hcoerced, Option.bind_some, typeToken?_token htoken hend, Option.some_or] at hbase
      rw [field_of_baseType? hbase, optionalBehind_call hargs hlinks]
      simp [Head.type, Head.isTypeCall, hcoerce]
    · have hdot := not_token_dot hblank' (token ++ called)
      rw [coerced?_token hfamily hdot fun heq => absurd heq hcoerce, Option.bind_none,
        Option.none_or, typeToken?_token hfamily hdot] at hbase
      have hfamily : (family == "coerce".toList) = false := beq_eq_false_iff_ne.mpr hcoerce
      rw [field_of_baseType? hbase, optionalBehind_dot hblank', Head.type, Head.isTypeCall,
        if_neg hcoerce, hfamily, Bool.false_and]
  | @reference name hname hz =>
    rw [field_eq, Head.text, baseType?_reference hname hz]
    rfl

/-! ### Reading the property -/

theorem trimEnd_concat (front : List Char) {c : Char} (h : isBlank c = false) :
    trimEnd (front ++ [c]) = front ++ [c] := trimEnd_solid front h []

theorem Head.trimEnd_text {head : Head} (h : head.WellFormed) : trimEnd head.text = head.text := by
  have hround := isBlank_of_mem_signs ')' (by decide)
  cases h with
  | @call blank token args =>
    simpa [Head.text] using trimEnd_concat ('z' :: (blank ++ '.' :: (token ++ '(' :: args))) hround
  | @member blank family blank' token args =>
    simpa [Head.text] using trimEnd_concat
      ('z' :: (blank ++ '.' :: (family ++ (blank' ++ '.' :: (token ++ '(' :: args))))) hround
  | reference hname _ => exact trimEnd_ident hname.chars

theorem Property.trimEnd_expression {p : Property} (h : p.WellFormed) :
    trimEnd p.expression = p.expression := by
  rw [Property.expression]
  rcases List.eq_nil_or_concat p.links with heq | ⟨links, l, heq⟩
  · rw [heq, List.flatMap_nil, List.append_nil, Head.trimEnd_text h.head]
  · simpa [heq, Link.text, Call.text] using trimEnd_concat
      (p.head.text ++ (links.flatMap Link.text ++ (l.gap ++ '.' :: (l.call.name ++ '(' ::
        l.call.args)))) (isBlank_of_mem_signs ')' (by decide))

theorem Head.isBlank_head {head : Head} (h : head.WellFormed) (rest : List Char) :
    ∀ c ∈ (head.text ++ rest).head?, isBlank c = false := by
  have hz : isBlank 'z' = false := by decide
  cases h with
  | call => simp [Head.text, hz]
  | member => simp [Head.text, hz]
  | reference hname _ => exact hname.isBlank_head rest

/-- An expression is blank at neither end. -/
theorem Property.trim_expression {p : Property} (h : p.WellFormed) :
    trim (p.lead ++ p.expression) = p.expression := by
  have hhead : ∀ c ∈ p.expression.head?, isBlank c = false := Head.isBlank_head h.head _
  rw [trim, trimStart_blank h.lead, trimStart_solid hhead, Property.trimEnd_expression h]

theorem declared_property (front : List Item) {p : Property} (h : p.WellFormed)
    (back : List Item) :
    (declared (front ++ p.item :: back)).map Entry.field =
      (declared front).map Entry.field ++ p.field :: (declared back).map Entry.field := by
  have hentry : p.item.member.entry? = some ⟨p.key.name, p.expression⟩ := by
    show some (Entry.mk p.key.name (trim (p.lead ++ p.expression))) = _
    rw [Property.trim_expression h]
  have hfield : Entry.field ⟨p.key.name, p.expression⟩ = p.field := Head.field h.head _ h.links
  simp only [declared, List.filterMap_append, List.filterMap_cons, hentry, List.map_append,
    List.map_cons, hfield]

theorem makesOptional_iff (name : List Char) :
    makesOptional name = true ↔ name = "optional".toList ∨ name = "nullish".toList := by
  simp [makesOptional]

/-- **The optional flag of a property**, whatever members stand around it: its field is optional
exactly if the head is a call of `z`, perhaps coerced, and a call of the chain itself is named
`optional` or `nullish`. What the arguments hold does not count. -/
theorem schemaFields_property {before name : List Char} {front back : List Item} {p : Property}
    {trailing : Option (List Char)} (hbefore : Lines before) (hdecl : ¬ Declares name before)
    (hname : IsName name) (hfront : ∀ i ∈ front, i.WellFormed) (hp : p.WellFormed)
    (hback : ∀ i ∈ back, i.WellFormed) (htrailing : ∀ gap ∈ trailing, Gap gap)
    (after : List Char) :
    schemaFields (before ++ (schemaHead name ++
        (literal (front ++ p.item :: back) trailing ++ '\x7d' :: after))) name =
      (declared front).map Entry.field ++ p.field :: (declared back).map Entry.field ∧
    (p.field.optional = true ↔ p.head.isTypeCall = true ∧
      ∃ l ∈ p.links, l.call.name = "optional".toList ∨ l.call.name = "nullish".toList) := by
  have hitems : ∀ i ∈ front ++ p.item :: back, i.WellFormed :=
    List.forall_mem_append.mpr ⟨hfront, List.forall_mem_cons.mpr ⟨p.item_wellFormed hp, hback⟩⟩
  constructor
  · rw [schemaFields_items hbefore hdecl hname hitems htrailing, declared_property front hp back]
  · rw [Property.field, Property.optional, Bool.and_eq_true, List.any_eq_true]
    simp only [makesOptional_iff]

/-- A call on lines of its own is read, a word in its arguments is not, and behind a reference or a
namespace nothing is. -/
theorem schemaFields_property_day :
    schemaFields ("const Q = z.object(\x7ba: user.optional(), b: z\n.string('.optional()')\n" ++
        "// or none\n.nullish(), c: z.iso.date().optional()\x7d)").toList ['Q'] =
      [⟨"a", .other "unknown", false⟩, ⟨"b", .string, true⟩, ⟨"c", .other "iso", false⟩] := by
  let optional : Link := { call := ⟨"optional".toList, []⟩ }
  let nullish : Link :=
    { gap := "\n// or none\n".toList, call := ⟨"nullish".toList, []⟩ }
  let user : Property :=
    { key := .bare ['a'], head := .reference "user".toList, links := [optional] }
  let text : Property :=
    { gap := [' '], key := .bare ['b'],
      head := .call ['\n'] "string".toList "'.optional()'".toList, links := [nullish] }
  let day : Property :=
    { gap := [' '], key := .bare ['c'], head := .member [] "iso".toList [] "date".toList [],
      links := [optional] }
  have hspace : Blank [' '] := List.forall_mem_singleton.mpr (by decide)
  have hgap : Gap [' '] := .blank (by decide) .nil
  have hnames : IsName ['a'] ∧ IsName ['b'] ∧ IsName ['c'] ∧ IsName "user".toList ∧
      IsName "optional".toList ∧ IsName "nullish".toList := by decide +kernel
  have htokens : IsTypeToken "string".toList ∧ IsTypeToken "iso".toList ∧
      IsTypeToken "date".toList := by decide +kernel
  have hargs : Tokens true (some '(') "'.optional()'".toList :=
    @Tokens.string true (some '(') '\x27' ".optional()".toList [] rfl
      (.of_plain (by decide) (by decide)) .nil
  have hoptional : optional.WellFormed := ⟨.nil, hnames.2.2.2.2.1, .nil⟩
  have hnullish : nullish.WellFormed :=
    ⟨.blank (by decide) (.comment (.line " or none".toList (by decide)) .nil),
      hnames.2.2.2.2.2, .nil⟩
  have huser : user.WellFormed :=
    ⟨.nil, hnames.1, hspace, .reference hnames.2.2.2.1 (by decide), by simp [user, hoptional],
      List.forall_mem_nil _⟩
  have htext : text.WellFormed :=
    ⟨hgap, hnames.2.1, hspace,
      .call (List.forall_mem_singleton.mpr (by decide)) htokens.1 hargs, by simp [text, hnullish],
      List.forall_mem_nil _⟩
  have hday : day.WellFormed :=
    ⟨hgap, hnames.2.2.1, hspace,
      .member (List.forall_mem_nil _) htokens.2.1 (List.forall_mem_nil _) htokens.2.2 .nil,
      by simp [day, hoptional], List.forall_mem_nil _⟩
  have h := @schemaFields_property [] ['Q'] [user.item] [day.item] text none ⟨.nil, by simp⟩
    (not_declares_gap .nil _) (by decide) (by simpa using Property.item_wellFormed huser) htext
    (by simpa using Property.item_wellFormed hday) (by simp) [')']
  have hsource : ("const Q = z.object(\x7ba: user.optional(), b: z\n.string('.optional()')\n" ++
      "// or none\n.nullish(), c: z.iso.date().optional()\x7d)").toList =
        [] ++ (schemaHead ['Q'] ++
          (literal ([user.item] ++ text.item :: [day.item]) none ++ '\x7d' :: [')'])) := by
    decide +kernel
  rw [hsource, h.1]
  decide +kernel

/-- So behind a namespace and behind a reference the flag is lost. -/
theorem optional_unread :
    schemaFields ("const v = z.object(\x7b a: z.iso.date().optional(), b: user.optional(), " ++
        "c: z.date().optional() \x7d);").toList ['v'] =
      [⟨"a", .other "iso", false⟩, ⟨"b", .other "unknown", false⟩, ⟨"c", .other "date", true⟩] := by
  decide +kernel

end RouteScaffold.Source
