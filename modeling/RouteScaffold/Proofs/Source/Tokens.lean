import RouteScaffold.Proofs.Source.Words

/-! Texts of tokens.

What a source text is made of, said without the walk that reads it: plain
characters, closed strings, closed comments, regular expressions where one can
stand, and balanced brackets of the same (`Tokens`).

All readers rest on two facts. In front of any text that cannot run into it, a text
of tokens is cut into pieces of its own and the walk goes on behind it as if it
started there (`pieces_append`); and the brackets among its pieces are balanced
(`nested_pieces`). -/
namespace RouteScaffold.Source
open Text

/-! ### What is passed over -/

/-- The inside of a string: a backslash and the character it escapes, or any character but
the quote. -/
inductive StringBody (quote : Char) : List Char → Prop where
  | nil : StringBody quote []
  | escaped {c rest} : StringBody quote rest → StringBody quote ('\\' :: c :: rest)
  | plain {c rest} : c ≠ quote → c ≠ '\\' → StringBody quote rest → StringBody quote (c :: rest)

/-- A text without the quote and backslashes is a string's. -/
theorem StringBody.of_plain {quote : Char} {body : List Char} (hquote : quote ∉ body)
    (hslash : '\\' ∉ body) : StringBody quote body := by
  induction body with
  | nil => exact .nil
  | cons c body ih =>
    rw [List.mem_cons, not_or] at hquote hslash
    exact .plain (Ne.symm hquote.1) (Ne.symm hslash.1) (ih hquote.2 hslash.2)

/-- A comment and what closes it, which for a line comment is the line break. -/
inductive Comment : List Char → Prop where
  | line (text) : '\n' ∉ text → Comment ('/' :: '/' :: (text ++ ['\n']))
  | block (text) : ¬ ['*', '/'] <:+: text → Comment ('/' :: '*' :: (text ++ ['*', '/']))

/-- The inside of a regular expression, from a place within or outside a character class. -/
inductive RegexBody : Bool → List Char → Prop where
  | nil : RegexBody false []
  | escaped {inClass c rest} : RegexBody inClass rest → RegexBody inClass ('\\' :: c :: rest)
  | opened {inClass rest} : RegexBody true rest → RegexBody inClass ('[' :: rest)
  | closed {inClass rest} : RegexBody false rest → RegexBody inClass (']' :: rest)
  | slash {rest} : RegexBody true rest → RegexBody true ('/' :: rest)
  | plain {inClass c rest} : c ∉ ['\\', '[', ']', '/', '\n'] → RegexBody inClass rest →
      RegexBody inClass (c :: rest)

/-- A regular expression with its flags. Its inside is not empty and starts no comment. -/
structure IsRegex (body flags : List Char) : Prop where
  inside : RegexBody false body
  nonempty : body ≠ []
  no_comment : body.head? ≠ some '*'
  letters : ∀ c ∈ flags, c.isAlpha = true

/-! ### Tokens -/

inductive Bracket where
  | round
  | square
  | curly
  deriving DecidableEq, Repr

def Bracket.opening : Bracket → Char
  | .round => '('
  | .square => '['
  | .curly => '\x7b'

def Bracket.closing : Bracket → Char
  | .round => ')'
  | .square => ']'
  | .curly => '\x7d'

/-- A character that starts nothing and is no bracket. -/
def isPlain (c : Char) : Bool := !isQuote c && c != '/' && !isOpening c && !isClosing c

/-- `Tokens commas before text`: behind the solid character `before`, the text is made of
tokens. Without `commas`, none stands outside all brackets. -/
inductive Tokens : Bool → Option Char → List Char → Prop where
  | nil {commas before} : Tokens commas before []
  | plain {commas before c rest} : isPlain c = true → (c = ',' → commas = true) →
      Tokens commas (lastSolid before [c]) rest → Tokens commas before (c :: rest)
  | string {commas before quote body rest} : isQuote quote = true → StringBody quote body →
      Tokens commas (some quote) rest → Tokens commas before (quote :: (body ++ quote :: rest))
  | comment {commas before text rest} : Comment text →
      Tokens commas (lastSolid before text) rest → Tokens commas before (text ++ rest)
  | regex {commas before body flags rest} : opensRegex before = true → IsRegex body flags →
      (∀ c ∈ rest.head?, c.isAlpha = false) →
      Tokens commas (lastSolid (some '/') flags) rest →
      Tokens commas before ('/' :: (body ++ '/' :: (flags ++ rest)))
  | group {commas before inner rest} (b : Bracket) : Tokens true (some b.opening) inner →
      Tokens commas (some b.closing) rest →
      Tokens commas before (b.opening :: (inner ++ b.closing :: rest))

/-! ### Passing over -/

theorem takeString_body {quote : Char} {body : List Char} (h : StringBody quote body)
    (hq : quote ≠ '\\') (rest : List Char) :
    takeString quote (body ++ quote :: rest) = (body ++ [quote], rest) := by
  induction h with
  | nil =>
    rw [List.nil_append, takeString]
    · simp
    · intro c rest h
      exact absurd h hq
  | escaped _ ih => simp [takeString, ih, Cut.cons]
  | plain hne hb _ ih =>
    rw [List.cons_append, takeString]
    · simp [hne, ih, Cut.cons]
    · intro c rest h
      exact absurd h hb

theorem takeBlock_body {text : List Char} (h : ¬ ['*', '/'] <:+: text) (rest : List Char) :
    takeBlock (text ++ '*' :: '/' :: rest) = (text ++ ['*', '/'], rest) := by
  induction text with
  | nil => rfl
  | cons c text ih =>
    have htext : ¬ ['*', '/'] <:+: text := fun hin =>
      h (hin.trans (List.suffix_cons c text).isInfix)
    rw [List.cons_append, takeBlock]
    · simp [ih htext, Cut.cons]
    · rintro rest' rfl heq
      cases text with
      | nil => simp at heq
      | cons d text =>
        obtain ⟨rfl, -⟩ := List.cons.inj heq
        exact h (List.prefix_append ['*', '/'] text).isInfix

theorem takeLine_text {text : List Char} (h : '\n' ∉ text) (rest : List Char) :
    takeLine (text ++ '\n' :: rest) = (text, '\n' :: rest) := by
  have hne : ∀ c ∈ text, (c != '\n') = true := fun c hc => by
    simpa using fun (e : c = '\n') => h (e ▸ hc)
  simp [takeLine, List.takeWhile_append_of_pos hne, List.dropWhile_append_of_pos hne]

theorem takeFlags_text {flags rest : List Char} (h : ∀ c ∈ flags, c.isAlpha = true)
    (hrest : ∀ c ∈ rest.head?, c.isAlpha = false) : takeFlags (flags ++ rest) = (flags, rest) := by
  rw [takeFlags, List.takeWhile_append_of_pos h, List.dropWhile_append_of_pos h]
  cases rest with
  | nil => simp
  | cons d rest => simp [hrest d rfl]

theorem takeRegex_body {inClass : Bool} {body : List Char} (h : RegexBody inClass body)
    {flags rest : List Char} (hf : ∀ c ∈ flags, c.isAlpha = true)
    (hrest : ∀ c ∈ rest.head?, c.isAlpha = false) :
    takeRegex inClass (body ++ '/' :: (flags ++ rest)) = some (body ++ '/' :: flags, rest) := by
  induction h with
  | nil => simp [takeRegex, takeFlags_text hf hrest, Cut.cons]
  | escaped _ ih => simp [takeRegex, ih, Cut.cons]
  | opened _ ih => simp [takeRegex, classAfter, ih, Cut.cons]
  | closed _ ih => simp [takeRegex, classAfter, ih, Cut.cons]
  | slash _ ih => simp [takeRegex, classAfter, ih, Cut.cons]
  | @plain inClass c text hc _ ih =>
    simp only [List.mem_cons, List.not_mem_nil, or_false, not_or] at hc
    obtain ⟨hb, ho, hcl, hs, hn⟩ := hc
    rw [List.cons_append, takeRegex]
    · simp [classAfter, ho, hcl, hs, hn, ih, Cut.cons]
    · exact fun heq => absurd heq hb
    · exact fun _ _ heq => absurd heq hb

/-! ### Pieces of tokens -/

/-- Pieces whose brackets are balanced. Without `commas`, no comma of code stands outside all
brackets. -/
inductive Nested : Bool → List Piece → Prop where
  | nil {commas} : Nested commas []
  | skipped {commas text ps} : Nested commas ps → Nested commas (.skipped text :: ps)
  | code {commas c ps} : isOpening c = false → isClosing c = false → (c = ',' → commas = true) →
      Nested commas ps → Nested commas (.code c :: ps)
  | group {commas ps qs} (b : Bracket) : Nested true ps → Nested commas qs →
      Nested commas (.code b.opening :: (ps ++ .code b.closing :: qs))

/-- That `rest` cannot run into `text` when it follows it: a letter would become a flag of a
regular expression at the end of `text`. -/
def Apart (text rest : List Char) : Prop :=
  (∀ c ∈ rest.head?, c.isAlpha = false) ∨ ∀ c ∈ text.getLast?, isBlank c = true

theorem Apart.of_append (text : List Char) {text' rest : List Char}
    (h : Apart (text ++ text') rest) : Apart text' rest := by
  cases text' with
  | nil => exact .inr (by simp)
  | cons c text' =>
    exact h.imp id fun h => by simpa [List.getLast?_append, List.getLast?_cons] using h

@[simp] theorem textOf_nil : textOf [] = [] := rfl

@[simp] theorem textOf_append (ps qs : List Piece) : textOf (ps ++ qs) = textOf ps ++ textOf qs :=
  List.flatMap_append

theorem lastSolid_append (before : Option Char) (a b : List Char) :
    lastSolid before (a ++ b) = lastSolid (lastSolid before a) b :=
  List.foldl_append

theorem lastSolid_concat (before : Option Char) (text : List Char) {c : Char}
    (h : isAsciiBlank c = false) : lastSolid before (text ++ [c]) = some c := by
  rw [lastSolid_append]
  simp [lastSolid, h]

theorem pieces_skip {before : Option Char} {cs taken rest : List Char}
    (h : skip? before cs = some (taken, rest)) :
    pieces before cs = .skipped taken :: pieces (lastSolid before taken) rest := by
  rw [pieces]
  split
  next taken' rest' heq =>
    obtain ⟨rfl, rfl⟩ := Prod.mk.inj (Option.some.inj (heq.symm.trans h))
    rfl
  next heq => rw [h] at heq; cases heq

theorem pieces_code {before : Option Char} {c : Char} {rest : List Char} (hq : isQuote c = false)
    (hs : c ≠ '/') : pieces before (c :: rest) = .code c :: pieces (lastSolid before [c]) rest := by
  have h : skip? before (c :: rest) = none := by simp [skip?, hq, hs]
  rw [pieces]
  split
  next heq => rw [h] at heq; cases heq
  next => rfl

theorem Bracket.pieces_opening (b : Bracket) (before : Option Char) (rest : List Char) :
    pieces before (b.opening :: rest) = .code b.opening :: pieces (some b.opening) rest := by
  cases b <;> exact pieces_code (by decide) (by decide)

theorem Bracket.pieces_closing (b : Bracket) (before : Option Char) (rest : List Char) :
    pieces before (b.closing :: rest) = .code b.closing :: pieces (some b.closing) rest := by
  cases b <;> exact pieces_code (by decide) (by decide)

theorem skip?_string (before : Option Char) {quote : Char} {body : List Char}
    (hq : isQuote quote = true) (h : StringBody quote body) (rest : List Char) :
    skip? before (quote :: (body ++ quote :: rest)) = some (quote :: (body ++ [quote]), rest) := by
  have hb : quote ≠ '\\' := by
    rintro rfl
    exact absurd hq (by decide)
  simp [skip?, hq, takeString_body h hb, Cut.cons]

theorem skip?_regex {before : Option Char} {body flags rest : List Char}
    (hb : opensRegex before = true) (h : IsRegex body flags)
    (hrest : ∀ c ∈ rest.head?, c.isAlpha = false) :
    skip? before ('/' :: (body ++ '/' :: (flags ++ rest))) =
      some ('/' :: (body ++ '/' :: flags), rest) := by
  have htake := takeRegex_body h.inside h.letters hrest
  have hafter : takeAfterSlash before (body ++ '/' :: (flags ++ rest)) =
      some (body ++ '/' :: flags, rest) := by
    rw [takeAfterSlash]
    · rw [if_pos hb, htake]
    · intro rest' heq
      obtain ⟨c, body', rfl⟩ := List.exists_cons_of_ne_nil h.nonempty
      obtain ⟨rfl, -⟩ := List.cons.inj heq
      cases h.inside with
      | plain hc _ => exact hc (by simp)
    · intro rest' heq
      obtain ⟨c, body', rfl⟩ := List.exists_cons_of_ne_nil h.nonempty
      obtain ⟨rfl, -⟩ := List.cons.inj heq
      exact h.no_comment rfl
  have hq : isQuote '/' = false := by decide
  simp [skip?, hq, hafter, Cut.cons]

/-- A comment is pieces of its own, whatever stands around it. -/
theorem exists_pieces_comment {text : List Char} (h : Comment text) (before : Option Char) :
    ∃ ps, (∀ commas, Nested commas ps) ∧ (∀ p ∈ ps, p = .code '\n' ∨ ∃ text, p = .skipped text) ∧
      ∀ rest, pieces before (text ++ rest) = ps ++ pieces (lastSolid before text) rest := by
  have hq : isQuote '/' = false := by decide
  cases h with
  | line text h =>
    refine ⟨[.skipped ('/' :: '/' :: text), .code '\n'],
      fun _ => .skipped (.code rfl rfl (by simp) .nil), by simp, fun rest => ?_⟩
    have hskip : skip? before ('/' :: '/' :: (text ++ '\n' :: rest)) =
        some ('/' :: '/' :: text, '\n' :: rest) := by
      simp [skip?, hq, takeAfterSlash, takeLine_text h, Cut.cons]
    have hcs : '/' :: '/' :: (text ++ ['\n']) ++ rest = '/' :: '/' :: (text ++ '\n' :: rest) := by
      simp
    have hlast : lastSolid before ('/' :: '/' :: (text ++ ['\n'])) =
        lastSolid (lastSolid before ('/' :: '/' :: text)) ['\n'] := lastSolid_append _ _ _
    rw [hcs, pieces_skip hskip, pieces_code rfl (by decide), hlast]
    rfl
  | block text h =>
    refine ⟨[.skipped ('/' :: '*' :: (text ++ ['*', '/']))], fun _ => .skipped .nil,
      by simp, fun rest => ?_⟩
    have hskip : skip? before ('/' :: '*' :: (text ++ '*' :: '/' :: rest)) =
        some ('/' :: '*' :: (text ++ ['*', '/']), rest) := by
      simp [skip?, hq, takeAfterSlash, takeBlock_body h, Cut.cons]
    have hcs : '/' :: '*' :: (text ++ ['*', '/']) ++ rest =
        '/' :: '*' :: (text ++ '*' :: '/' :: rest) := by simp
    rw [hcs, pieces_skip hskip]
    rfl

theorem Nested.append {commas : Bool} {ps qs : List Piece} (hp : Nested commas ps)
    (hq : Nested commas qs) : Nested commas (ps ++ qs) := by
  induction hp with
  | nil => exact hq
  | skipped _ ih => exact .skipped (ih hq)
  | code ho hc hcomma _ ih => exact .code ho hc hcomma (ih hq)
  | @group commas ps qs' b hp _ _ ih =>
    have := Nested.group b hp (ih hq)
    simpa using this

/-- A text between two characters, apart from what follows it. -/
theorem enclosed_append (first last : Char) (body rest : List Char) :
    first :: (body ++ last :: rest) = first :: (body ++ [last]) ++ rest := by simp

/-- A regular expression, apart from what follows it. -/
theorem regex_append (body flags rest : List Char) :
    '/' :: (body ++ '/' :: (flags ++ rest)) = '/' :: (body ++ '/' :: flags) ++ rest := by simp

/-- Pieces of a first token, then of the text behind it. -/
theorem pieces_trans {before : Option Char} (token : List Char) {text rest : List Char}
    {ps qs : List Piece}
    (hp : pieces before (token ++ (text ++ rest)) =
      ps ++ pieces (lastSolid before token) (text ++ rest))
    (hq : pieces (lastSolid before token) (text ++ rest) =
      qs ++ pieces (lastSolid (lastSolid before token) text) rest) :
    pieces before (token ++ text ++ rest) =
      (ps ++ qs) ++ pieces (lastSolid before (token ++ text)) rest := by
  rw [List.append_assoc, hp, hq, lastSolid_append, List.append_assoc]

theorem lastSolid_quoted (before : Option Char) {quote : Char} (h : isQuote quote = true)
    (body : List Char) : lastSolid before (quote :: (body ++ [quote])) = some quote := by
  refine lastSolid_concat before (quote :: body) ?_
  simp only [isQuote, Bool.or_eq_true, beq_iff_eq] at h
  rcases h with (rfl | rfl) | rfl <;> decide

theorem lastSolid_regex (before : Option Char) (body flags : List Char) :
    lastSolid before ('/' :: (body ++ '/' :: flags)) = lastSolid (some '/') flags := by
  rw [enclosed_append, lastSolid_append]
  exact congrArg (lastSolid · flags) (lastSolid_concat before ('/' :: body) (by decide))

theorem Bracket.lastSolid_group (b : Bracket) (before : Option Char) (inner : List Char) :
    lastSolid before (b.opening :: (inner ++ [b.closing])) = some b.closing :=
  lastSolid_concat before (b.opening :: inner) (by cases b <;> decide)

theorem Bracket.isAlpha_closing (b : Bracket) : b.closing.isAlpha = false := by cases b <;> decide

/-- Only a text that starts with no letter is apart from a regular expression. -/
theorem IsRegex.isAlpha_of_apart {body flags rest : List Char} (h : IsRegex body flags)
    (hrest : Apart ('/' :: (body ++ '/' :: flags)) rest) : ∀ c ∈ rest.head?, c.isAlpha = false := by
  refine hrest.elim id fun hblank => ?_
  rcases List.eq_nil_or_concat flags with rfl | ⟨front, flag, rfl⟩
  · exact absurd (hblank '/' (by simp [List.getLast?_cons])) (by decide)
  · have hflag : flag.isAlpha = true := h.letters flag (by simp)
    have hb : isBlank flag = true :=
      hblank flag (by simp [List.getLast?_cons, List.getLast?_append])
    rw [isAlpha_of_isBlank hb] at hflag
    cases hflag

/-- The pieces of a text of tokens, found without looking at what follows it. -/
theorem exists_pieces {commas : Bool} {before : Option Char} {text : List Char}
    (h : Tokens commas before text) :
    ∃ ps, Nested commas ps ∧ ∀ rest, Apart text rest →
      pieces before (text ++ rest) = ps ++ pieces (lastSolid before text) rest := by
  induction h with
  | nil => exact ⟨[], .nil, fun _ _ => rfl⟩
  | @plain commas before c text hc hcomma _ ih =>
    obtain ⟨ps, hn, hp⟩ := ih
    simp only [isPlain, Bool.and_eq_true, Bool.not_eq_true', bne_iff_ne] at hc
    obtain ⟨⟨⟨hq, hs⟩, ho⟩, hcl⟩ := hc
    exact ⟨[.code c] ++ ps, .code ho hcl hcomma hn, fun rest hrest =>
      pieces_trans [c] (pieces_code hq hs) (hp rest (hrest.of_append [c]))⟩
  | @string commas before quote body text hq hbody _ ih =>
    obtain ⟨ps, hn, hp⟩ := ih
    rw [enclosed_append]
    refine ⟨[.skipped (quote :: (body ++ [quote]))] ++ ps, .skipped hn, fun rest hrest =>
      pieces_trans _ ?_ (by rw [lastSolid_quoted before hq]; exact hp rest (hrest.of_append _))⟩
    simpa using pieces_skip (skip?_string before hq hbody (text ++ rest))
  | @comment commas before token text hc _ ih =>
    obtain ⟨ps, hn, hp⟩ := ih
    obtain ⟨qs, hqn, -, hqp⟩ := exists_pieces_comment hc before
    exact ⟨qs ++ ps, (hqn commas).append hn, fun rest hrest =>
      pieces_trans token (hqp (text ++ rest)) (hp rest (hrest.of_append token))⟩
  | @regex commas before body flags text hb hr hflags _ ih =>
    obtain ⟨ps, hn, hp⟩ := ih
    rw [regex_append]
    refine ⟨[.skipped ('/' :: (body ++ '/' :: flags))] ++ ps, .skipped hn, fun rest hrest =>
      pieces_trans _ ?_ (by rw [lastSolid_regex]; exact hp rest (hrest.of_append _))⟩
    have hnext : ∀ c ∈ (text ++ rest).head?, c.isAlpha = false := by
      cases text with
      | cons d text => exact hflags
      | nil => exact hr.isAlpha_of_apart (by simpa using hrest)
    simpa using pieces_skip (skip?_regex hb hr hnext)
  | @group commas before inner text b _ _ ih₁ ih₂ =>
    obtain ⟨qs, hqn, hqp⟩ := ih₁
    obtain ⟨ps, hn, hp⟩ := ih₂
    rw [enclosed_append]
    refine ⟨.code b.opening :: (qs ++ [.code b.closing]) ++ ps, ?_, fun rest hrest =>
      pieces_trans _ ?_ (by rw [b.lastSolid_group]; exact hp rest (hrest.of_append _))⟩
    · simpa using Nested.group b hqn hn
    · have := b.pieces_opening before (inner ++ b.closing :: (text ++ rest))
      rw [hqp _ (.inl (by simpa using b.isAlpha_closing)), b.pieces_closing] at this
      rw [b.lastSolid_group]
      simpa using this

theorem apart_nil (text : List Char) : Apart text [] := .inl (by simp)

theorem pieces_nil (before : Option Char) : pieces before [] = [] := by
  rw [pieces]
  rfl

/-- **The walk over a text of tokens does not look at what follows it**, and goes on behind it
as if it started there. -/
theorem pieces_append {commas : Bool} {before : Option Char} {text : List Char}
    (h : Tokens commas before text) (rest : List Char) (hrest : Apart text rest) :
    pieces before (text ++ rest) = pieces before text ++ pieces (lastSolid before text) rest := by
  obtain ⟨ps, -, hp⟩ := exists_pieces h
  have hself := hp [] (apart_nil text)
  rw [List.append_nil, pieces_nil, List.append_nil] at hself
  rw [hp rest hrest, hself]

/-- The pieces of a text of tokens are balanced. -/
theorem nested_pieces {commas : Bool} {before : Option Char} {text : List Char}
    (h : Tokens commas before text) : Nested commas (pieces before text) := by
  obtain ⟨ps, hn, hp⟩ := exists_pieces h
  have hself := hp [] (apart_nil text)
  rw [List.append_nil, pieces_nil, List.append_nil] at hself
  rwa [hself]

end RouteScaffold.Source
