import Mathlib.Data.List.TakeWhile
import RouteScaffold.Proofs.Source.Tokens

/-! Pieces of any text.

Nothing is asked of the text here: strings and comments may be left open, brackets
need not match. What is passed over at one place is one of four kinds (`Stretch`),
and a list of pieces is `Walked` if the walk over its own text finds it again. Both
ends of a walked list are walked, so what a reader cuts out of a text at the border
of two pieces is cut into the same pieces when it is read on its own. -/
namespace RouteScaffold.Source
open Text

/-! ### What is passed over -/

/-- At the start of `cs`, behind the solid character `before`, `taken` is passed over and `rest`
follows it. -/
inductive Stretch (before : Option Char) : List Char → List Char → List Char → Prop where
  | string {quote cs body rest} : isQuote quote = true → takeString quote cs = (body, rest) →
      Stretch before (quote :: cs) (quote :: body) rest
  | line {cs body rest} : takeLine cs = (body, rest) →
      Stretch before ('/' :: '/' :: cs) ('/' :: '/' :: body) rest
  | block {cs body rest} : takeBlock cs = (body, rest) →
      Stretch before ('/' :: '*' :: cs) ('/' :: '*' :: body) rest
  | regex {cs body rest} : opensRegex before = true → (∀ c ∈ cs.head?, c ≠ '/' ∧ c ≠ '*') →
      takeRegex false cs = some (body, rest) → Stretch before ('/' :: cs) ('/' :: body) rest

theorem ne_slash_of_isQuote {c : Char} (h : isQuote c = true) : c ≠ '/' := by
  rintro rfl
  exact absurd h (by decide)

theorem ne_backslash_of_isQuote {c : Char} (h : isQuote c = true) : c ≠ '\\' := by
  rintro rfl
  exact absurd h (by decide)

/-- What a slash opens where it opens no comment. -/
theorem takeAfterSlash_regex {cs : List Char} (h : ∀ c ∈ cs.head?, c ≠ '/' ∧ c ≠ '*')
    (before : Option Char) :
    takeAfterSlash before cs = if opensRegex before then takeRegex false cs else none := by
  rw [takeAfterSlash]
  · rintro rest rfl
    exact (h '/' rfl).1 rfl
  · rintro rest rfl
    exact (h '*' rfl).2 rfl

theorem skip?_slash (before : Option Char) (cs : List Char) :
    skip? before ('/' :: cs) = (takeAfterSlash before cs).map (.cons '/') := by
  simp [skip?, isQuote]

theorem stretch_of_skip? {before : Option Char} {cs taken rest : List Char}
    (h : skip? before cs = some (taken, rest)) : Stretch before cs taken rest := by
  fun_cases skip? before cs with
  | case1 => simp [skip?] at h
  | case2 c cs hq =>
    have h : Cut.cons c (takeString c cs) = (taken, rest) := by simpa [skip?, hq] using h
    obtain ⟨rfl, rfl⟩ := Prod.mk.inj h
    exact .string hq rfl
  | case3 c cs _ hc =>
    obtain rfl := beq_iff_eq.mp hc
    rw [skip?_slash] at h
    obtain ⟨⟨body, rest'⟩, hcut, hcons⟩ := Option.map_eq_some_iff.mp h
    obtain ⟨rfl, rfl⟩ := Prod.mk.inj hcons
    by_cases hhead : ∀ c ∈ cs.head?, c ≠ '/' ∧ c ≠ '*'
    · rw [takeAfterSlash_regex hhead] at hcut
      split at hcut
      next hb => exact .regex hb hhead hcut
      next => cases hcut
    · cases cs with
      | nil => exact absurd (by simp) hhead
      | cons c cs =>
        by_cases hline : c = '/'
        · subst hline
          obtain ⟨rfl, rfl⟩ := Prod.mk.inj (Option.some.inj hcut)
          exact .line rfl
        · by_cases hblock : c = '*'
          · subst hblock
            obtain ⟨rfl, rfl⟩ := Prod.mk.inj (Option.some.inj hcut)
            exact .block rfl
          · exact absurd (by simp [hline, hblock]) hhead
  | case4 c cs hq hc => simp [skip?, hq, hc] at h

theorem Stretch.skip? {before : Option Char} {cs taken rest : List Char}
    (h : Stretch before cs taken rest) : skip? before cs = some (taken, rest) := by
  cases h with
  | string hq h => simp [Source.skip?, hq, h, Cut.cons]
  | line h => rw [skip?_slash]; simp [takeAfterSlash, h, Cut.cons]
  | block h => rw [skip?_slash]; simp [takeAfterSlash, h, Cut.cons]
  | regex hb hhead h => rw [skip?_slash, takeAfterSlash_regex hhead, if_pos hb, h]; rfl

/-- What a stretch starts with: a quote or a slash. -/
def openers : List Char := ['\x22', '\x27', '\x60', '/']

theorem Stretch.exists_head {before : Option Char} {cs taken rest : List Char}
    (h : Stretch before cs taken rest) : ∃ c ∈ openers, ∃ body, taken = c :: body := by
  cases h with
  | @string quote cs body rest hq _ =>
    simp only [isQuote, Bool.or_eq_true, beq_iff_eq, or_assoc] at hq
    exact ⟨quote, by rcases hq with rfl | rfl | rfl <;> decide, body, rfl⟩
  | line _ => exact ⟨'/', by decide, _, rfl⟩
  | block _ => exact ⟨'/', by decide, _, rfl⟩
  | regex _ _ _ => exact ⟨'/', by decide, _, rfl⟩

theorem mem_signs_of_mem_openers : ∀ c ∈ openers, c ∈ signs :=
  List.all_iff_forall_prop.mp (by decide)

/-! ### In front of another text -/

theorem takeString_rest {quote : Char} (hq : quote ≠ '\\') {cs body rest rest' : List Char}
    (h : takeString quote cs = (body, rest)) (hnil : rest = [] → rest' = []) :
    takeString quote (body ++ rest') = (body, rest') := by
  fun_induction takeString quote cs generalizing body with
  | case1 =>
    obtain ⟨rfl, rfl⟩ := Prod.mk.inj h
    rw [hnil rfl]
    rfl
  | case2 c cs ih =>
    obtain ⟨rfl, hrest⟩ := Prod.mk.inj h
    show takeString quote ('\\' :: c :: ((takeString quote cs).1 ++ rest')) = _
    rw [takeString, ih (Prod.ext rfl hrest)]
    rfl
  | case3 c cs _ hc =>
    obtain ⟨rfl, rfl⟩ := Prod.mk.inj h
    rw [List.cons_append, takeString, if_pos hc]
    · rfl
    · rintro d more rfl
      exact absurd (beq_iff_eq.mp hc).symm hq
  | case4 c cs hplain hc ih =>
    obtain ⟨rfl, hrest⟩ := Prod.mk.inj h
    show takeString quote (c :: ((takeString quote cs).1 ++ rest')) = _
    rw [takeString, if_neg hc, ih (Prod.ext rfl hrest)]
    · rfl
    · rintro d more rfl heq
      -- A backslash is taken alone only at the very end.
      cases cs with
      | cons e cs => exact hplain e cs rfl rfl
      | nil =>
        rw [hnil hrest.symm] at heq
        cases heq

theorem takeLine_rest {cs body rest rest' : List Char} (h : takeLine cs = (body, rest))
    (hhead : ∀ c ∈ rest'.head?, rest.head? = some c) :
    takeLine (body ++ rest') = (body, rest') := by
  obtain ⟨rfl, rfl⟩ := Prod.mk.inj h
  have hbody : ∀ c ∈ cs.takeWhile (· != '\n'), (c != '\n') = true :=
    List.all_eq_true.mp List.all_takeWhile
  rw [takeLine, List.takeWhile_append_of_pos hbody, List.dropWhile_append_of_pos hbody]
  cases rest' with
  | nil => simp
  | cons c rest' =>
    have hc := List.head?_dropWhile_not (· != '\n') cs
    rw [hhead c rfl] at hc
    simp_all

theorem head_takeBlock (cs : List Char) : (takeBlock cs).1.head? = cs.head? := by
  fun_cases takeBlock cs with
  | case1 => rfl
  | case2 => rfl
  | case3 => rfl

theorem takeBlock_rest {cs body rest rest' : List Char} (h : takeBlock cs = (body, rest))
    (hnil : rest = [] → rest' = []) : takeBlock (body ++ rest') = (body, rest') := by
  fun_induction takeBlock cs generalizing body with
  | case1 =>
    obtain ⟨rfl, rfl⟩ := Prod.mk.inj h
    rw [hnil rfl]
    rfl
  | case2 cs =>
    obtain ⟨rfl, rfl⟩ := Prod.mk.inj h
    rfl
  | case3 c cs hopen ih =>
    obtain ⟨rfl, hrest⟩ := Prod.mk.inj h
    show takeBlock (c :: ((takeBlock cs).1 ++ rest')) = _
    rw [takeBlock, ih (Prod.ext rfl hrest)]
    · rfl
    · rintro more rfl heq
      cases cs with
      | nil =>
        rw [hnil hrest.symm] at heq
        cases heq
      | cons d cs =>
        -- What would close the comment here closes it in front of any other text, too.
        obtain ⟨body, hbody⟩ := List.head?_eq_some_iff.mp (head_takeBlock (d :: cs))
        rw [hbody] at heq
        exact hopen cs rfl (by rw [(List.cons.inj heq).1])

theorem takeFlags_rest {cs flags rest rest' : List Char} (h : takeFlags cs = (flags, rest))
    (hhead : ∀ c ∈ rest'.head?, rest.head? = some c ∨ c.isAlpha = false) :
    takeFlags (flags ++ rest') = (flags, rest') := by
  obtain ⟨rfl, rfl⟩ := Prod.mk.inj h
  refine takeFlags_text (List.all_eq_true.mp List.all_takeWhile) fun c hc => ?_
  refine (hhead c hc).elim (fun hrest => ?_) id
  have := List.head?_dropWhile_not Char.isAlpha cs
  rw [hrest] at this
  simpa using this

theorem ne_backslash {c : Char} {cs : List Char} (hnil : c = '\\' → cs = [] → False)
    (hcons : ∀ d rest, c = '\\' → cs = d :: rest → False) : c ≠ '\\' := by
  rintro rfl
  cases cs with
  | nil => exact hnil rfl rfl
  | cons d cs => exact hcons d cs rfl rfl

theorem takeRegex_plain {c : Char} (hc : c ≠ '\\') (inClass : Bool) (cs : List Char) :
    takeRegex inClass (c :: cs) =
      if c == '\n' then none
      else if c == '/' && !inClass then some (.cons c (takeFlags cs))
      else (takeRegex (classAfter inClass c) cs).map (.cons c) := by
  rw [takeRegex]
  · exact fun heq => absurd heq hc
  · exact fun _ _ heq => absurd heq hc

theorem head_of_takeRegex {inClass : Bool} {cs : List Char} {cut : Cut}
    (h : takeRegex inClass cs = some cut) : cut.1.head? = cs.head? := by
  fun_cases takeRegex inClass cs with
  | case1 => cases h
  | case2 => cases h
  | case3 c cs =>
    obtain ⟨cut, -, rfl⟩ := Option.map_eq_some_iff.mp h
    rfl
  | case4 c cs hnil hone hn =>
    rw [takeRegex_plain (ne_backslash hnil hone), if_pos hn] at h
    cases h
  | case5 c cs hnil hone hn hs =>
    rw [takeRegex_plain (ne_backslash hnil hone), if_neg hn, if_pos hs] at h
    rw [← Option.some.inj h]
    rfl
  | case6 c cs hnil hone hn hs =>
    rw [takeRegex_plain (ne_backslash hnil hone), if_neg hn, if_neg hs] at h
    obtain ⟨cut, -, rfl⟩ := Option.map_eq_some_iff.mp h
    rfl

theorem takeRegex_rest {inClass : Bool} {cs body rest rest' : List Char}
    (h : takeRegex inClass cs = some (body, rest))
    (hhead : ∀ c ∈ rest'.head?, rest.head? = some c ∨ c.isAlpha = false) :
    takeRegex inClass (body ++ rest') = some (body, rest') := by
  fun_induction takeRegex inClass cs generalizing body with
  | case1 => cases h
  | case2 => cases h
  | case3 inClass c cs ih =>
    obtain ⟨⟨body, rest⟩, hcut, hcons⟩ := Option.map_eq_some_iff.mp h
    obtain ⟨rfl, rfl⟩ := Prod.mk.inj hcons
    show takeRegex inClass ('\\' :: c :: (body ++ rest')) = _
    rw [takeRegex, ih hcut]
    rfl
  | case4 => cases h
  | case5 inClass c cs hnil hone hn hs =>
    obtain ⟨rfl, rfl⟩ := Prod.mk.inj (Option.some.inj h)
    have hb : c ≠ '\\' := ne_backslash hnil hone
    have hflags : takeFlags ((takeFlags cs).1 ++ rest') = ((takeFlags cs).1, rest') :=
      takeFlags_rest rfl hhead
    show takeRegex inClass (c :: ((takeFlags cs).1 ++ rest')) = _
    rw [takeRegex_plain hb, if_neg hn, if_pos hs, hflags]
    rfl
  | case6 inClass c cs hnil hone hn hs ih =>
    obtain ⟨⟨body, rest⟩, hcut, hcons⟩ := Option.map_eq_some_iff.mp h
    obtain ⟨rfl, rfl⟩ := Prod.mk.inj hcons
    have hb : c ≠ '\\' := ne_backslash hnil hone
    show takeRegex inClass (c :: (body ++ rest')) = _
    rw [takeRegex_plain hb, if_neg hn, if_neg hs, ih hcut]
    rfl

/-- What is not closed is not closed by leaving out its end. -/
theorem takeRegex_front {inClass : Bool} {front rest : List Char}
    (h : takeRegex inClass (front ++ rest) = none) : takeRegex inClass front = none := by
  fun_induction takeRegex inClass front with
  | case1 => rfl
  | case2 => rfl
  | case3 inClass c cs ih =>
    rw [List.cons_append, List.cons_append, takeRegex, Option.map_eq_none_iff] at h
    rw [ih h]
    rfl
  | case4 => rfl
  | case5 inClass c cs hnil hone hn hs =>
    have hb : c ≠ '\\' := ne_backslash hnil hone
    rw [List.cons_append, takeRegex_plain hb, if_neg hn, if_pos hs] at h
    cases h
  | case6 inClass c cs hnil hone hn hs ih =>
    have hb : c ≠ '\\' := ne_backslash hnil hone
    rw [List.cons_append, takeRegex_plain hb, if_neg hn, if_neg hs, Option.map_eq_none_iff] at h
    rw [ih h]
    rfl

/-- What is open to the end of a text is open to the end of less text, too. -/
theorem takeString_front {quote : Char} (hq : quote ≠ '\\') {front rest : List Char}
    (h : (takeString quote (front ++ rest)).2 = []) : (takeString quote front).2 = [] := by
  fun_induction takeString quote front with
  | case1 => rfl
  | case2 c front ih => exact ih h
  | case3 c front _ hc =>
    rw [List.cons_append, takeString, if_pos hc] at h
    · exact (List.append_eq_nil_iff.mp h).1
    · rintro d more rfl
      exact absurd (beq_iff_eq.mp hc).symm hq
  | case4 c front hplain hc ih =>
    cases front with
    | nil => rfl
    | cons d front =>
      rw [List.cons_append, takeString, if_neg hc] at h
      · exact ih h
      · exact fun e more hslash _ => hplain d front hslash rfl

theorem takeLine_front {front rest : List Char} (h : (takeLine (front ++ rest)).2 = []) :
    (takeLine front).2 = [] := by
  simp only [takeLine, List.dropWhile_eq_nil_iff, List.forall_mem_append] at h ⊢
  exact h.1

theorem takeBlock_front {front rest : List Char} (h : (takeBlock (front ++ rest)).2 = []) :
    (takeBlock front).2 = [] := by
  fun_induction takeBlock front with
  | case1 => rfl
  | case2 front => exact (List.append_eq_nil_iff.mp h).1
  | case3 c front hopen ih =>
    cases front with
    | nil => rfl
    | cons d front =>
      rw [List.cons_append, takeBlock] at h
      · exact ih h
      · exact fun more hstar heq => hopen front hstar (by rw [(List.cons.inj heq).1])

/-- Whether a stretch that is passed over is a comment. -/
def isComment (text : List Char) : Bool :=
  ['/', '/'].isPrefixOf text || ['/', '*'].isPrefixOf text

theorem isComment_append {text : List Char} (h : isComment text = true) (more : List Char) :
    isComment (text ++ more) = true := by
  simp only [isComment, Bool.or_eq_true, List.isPrefixOf_iff_prefix] at h ⊢
  exact h.imp (·.trans (List.prefix_append ..)) (·.trans (List.prefix_append ..))

theorem isComment_of_ne {c : Char} (h : c ≠ '/') (cs : List Char) :
    isComment (c :: cs) = false := by
  simp [isComment, List.isPrefixOf, h.symm]

/-- A slash starts a comment only with the character behind it. -/
theorem isComment_slash {cs : List Char} (h : ∀ c ∈ cs.head?, c ≠ '/' ∧ c ≠ '*') :
    isComment ('/' :: cs) = false := by
  cases cs with
  | nil => rfl
  | cons c cs =>
    obtain ⟨hs, hstar⟩ := h c rfl
    simp [isComment, List.isPrefixOf, hs.symm, hstar.symm]

theorem head_regex {cs body rest : List Char} (hfirst : ∀ c ∈ cs.head?, c ≠ '/' ∧ c ≠ '*')
    (h : takeRegex false cs = some (body, rest)) (more : List Char) :
    ∀ c ∈ (body ++ more).head?, c ≠ '/' ∧ c ≠ '*' := by
  have hhead : body.head? = cs.head? := head_of_takeRegex h
  cases body with
  | nil =>
    cases cs with
    | nil => cases h
    | cons c cs => cases hhead
  | cons c body => exact fun d hd => hfirst d (hhead.symm.trans hd)

/-- A stretch is passed over in front of another text as well, and behind another character:
where it was open to the end the other text must be empty, a regular expression must not get more
flags, and a line comment must end where it did. -/
theorem Stretch.rest {before seen : Option Char} {cs taken rest rest' : List Char}
    (h : Stretch before cs taken rest) (hnil : rest = [] → rest' = [])
    (hhead : ∀ c ∈ rest'.head?,
      rest.head? = some c ∨ isComment taken = false ∧ c.isAlpha = false)
    (hseen : isComment taken = false → taken.head? = some '/' → opensRegex seen = true) :
    Stretch seen (taken ++ rest') taken rest' := by
  cases h with
  | string hq h => exact .string hq (takeString_rest (ne_backslash_of_isQuote hq) h hnil)
  | line h => exact .line (takeLine_rest h fun c hc => (hhead c hc).elim id (by simp [isComment]))
  | block h => exact .block (takeBlock_rest h hnil)
  | @regex cs body rest hb hfirst h =>
    have hcomment : isComment ('/' :: body) = false :=
      isComment_slash (by simpa using head_regex hfirst h [])
    exact .regex (hseen hcomment rfl) (head_regex hfirst h rest')
      (takeRegex_rest h fun d hd => (hhead d hd).imp_right And.right)

theorem Stretch.isComment_append {before : Option Char} {cs taken rest : List Char}
    (h : Stretch before cs taken rest) (hcomment : isComment taken = false) (more : List Char) :
    isComment (taken ++ more) = false := by
  cases h with
  | string hq _ => exact isComment_of_ne (ne_slash_of_isQuote hq) _
  | line _ => simp [isComment] at hcomment
  | block _ => simp [isComment] at hcomment
  | regex _ hfirst h => exact isComment_slash (head_regex hfirst h more)

/-- A string with more behind it ends with its quote. -/
theorem takeString_closed {quote : Char} {cs body rest : List Char}
    (h : takeString quote cs = (body, rest)) (hrest : rest ≠ []) :
    ∃ inner, body = inner ++ [quote] := by
  fun_induction takeString quote cs generalizing body with
  | case1 => exact absurd (Prod.mk.inj h).2.symm hrest
  | case2 c cs ih =>
    obtain ⟨rfl, hcs⟩ := Prod.mk.inj h
    obtain ⟨inner, hinner⟩ := ih (Prod.ext rfl hcs)
    exact ⟨'\\' :: c :: inner, by simp [Cut.cons, hinner]⟩
  | case3 c cs _ hc =>
    obtain ⟨rfl, -⟩ := Prod.mk.inj h
    exact ⟨[], by rw [beq_iff_eq.mp hc]; rfl⟩
  | case4 c cs _ _ ih =>
    obtain ⟨rfl, hcs⟩ := Prod.mk.inj h
    obtain ⟨inner, hinner⟩ := ih (Prod.ext rfl hcs)
    exact ⟨c :: inner, by simp [hinner]⟩

/-- A block comment with more behind it ends with a slash. -/
theorem takeBlock_closed {cs body rest : List Char} (h : takeBlock cs = (body, rest))
    (hrest : rest ≠ []) : ∃ inner, body = inner ++ ['/'] := by
  fun_induction takeBlock cs generalizing body with
  | case1 => exact absurd (Prod.mk.inj h).2.symm hrest
  | case2 cs =>
    obtain ⟨rfl, -⟩ := Prod.mk.inj h
    exact ⟨['*'], rfl⟩
  | case3 c cs _ ih =>
    obtain ⟨rfl, hcs⟩ := Prod.mk.inj h
    obtain ⟨inner, hinner⟩ := ih (Prod.ext rfl hcs)
    exact ⟨c :: inner, by simp [hinner]⟩

/-- A regular expression ends with a slash and letters. -/
theorem takeRegex_closed {inClass : Bool} {cs body rest : List Char}
    (h : takeRegex inClass cs = some (body, rest)) :
    ∃ inner flags, body = inner ++ '/' :: flags ∧ ∀ c ∈ flags, c.isAlpha = true := by
  fun_induction takeRegex inClass cs generalizing body with
  | case1 => cases h
  | case2 => cases h
  | case3 inClass c cs ih =>
    obtain ⟨⟨body, rest⟩, hcut, hcons⟩ := Option.map_eq_some_iff.mp h
    obtain ⟨rfl, rfl⟩ := Prod.mk.inj hcons
    obtain ⟨inner, flags, rfl, hflags⟩ := ih hcut
    exact ⟨'\\' :: c :: inner, flags, rfl, hflags⟩
  | case4 => cases h
  | case5 inClass c cs _ _ _ hs =>
    obtain ⟨rfl, -⟩ := Prod.mk.inj (Option.some.inj h)
    obtain ⟨rfl, -⟩ : c = '/' ∧ inClass = false := by simpa using hs
    exact ⟨[], _, rfl, List.all_eq_true.mp List.all_takeWhile⟩
  | case6 inClass c cs _ _ _ _ ih =>
    obtain ⟨⟨body, rest⟩, hcut, hcons⟩ := Option.map_eq_some_iff.mp h
    obtain ⟨rfl, rfl⟩ := Prod.mk.inj hcons
    obtain ⟨inner, flags, rfl, hflags⟩ := ih hcut
    exact ⟨c :: inner, flags, rfl, hflags⟩

/-- Behind the letters of a regular expression none can follow. -/
theorem opensRegex_flags {flags : List Char} (h : ∀ c ∈ flags, c.isAlpha = true) :
    opensRegex (lastSolid (some '/') flags) = false := by
  rcases List.eq_nil_or_concat flags with rfl | ⟨front, flag, rfl⟩
  · rfl
  · have hflag : flag.isAlpha = true := h flag (by simp)
    have hsolid : isAsciiBlank flag = false := by
      cases hb : isAsciiBlank flag with
      | false => rfl
      | true => rw [isAlpha_of_isBlank (isBlank_of_isAsciiBlank hb)] at hflag; cases hflag
    have hsigns : ∀ c ∈ beforeRegex, c.isAlpha = false := List.all_iff_forall_prop.mp (by decide)
    rw [List.concat_eq_append, lastSolid_concat _ _ hsolid, opensRegex]
    cases hc : beforeRegex.contains flag with
    | false => rfl
    | true => rw [hsigns flag (List.contains_iff_mem.mp hc)] at hflag; cases hflag

/-- Right behind what is passed over no regular expression can stand. -/
theorem Stretch.not_opens {before : Option Char} {cs taken rest : List Char}
    (h : Stretch before cs taken rest) (hrest : rest.head? = some '/') (seen : Option Char) :
    opensRegex (lastSolid seen taken) = false := by
  have hne : rest ≠ [] := fun hnil => by rw [hnil] at hrest; cases hrest
  cases h with
  | @string quote cs body rest hq h =>
    obtain ⟨inner, rfl⟩ := takeString_closed h hne
    rw [lastSolid_quoted seen hq]
    simp only [isQuote, Bool.or_eq_true, beq_iff_eq] at hq
    rcases hq with (rfl | rfl) | rfl <;> rfl
  | @line cs body rest h =>
    -- A line comment ends in front of a line break.
    obtain ⟨rfl, rfl⟩ := Prod.mk.inj h
    have hbreak := List.head?_dropWhile_not (· != '\n') cs
    rw [hrest] at hbreak
    exact absurd hbreak (by decide)
  | block h =>
    obtain ⟨inner, rfl⟩ := takeBlock_closed h hne
    have hlast := lastSolid_concat seen ('/' :: '*' :: inner) (by decide : isAsciiBlank '/' = false)
    exact congrArg opensRegex hlast
  | regex _ _ h =>
    obtain ⟨inner, flags, rfl, hflags⟩ := takeRegex_closed h
    rw [lastSolid_regex]
    exact opensRegex_flags hflags

/-- A regular expression is passed over only where one can stand. -/
theorem Stretch.opens {before : Option Char} {cs taken rest : List Char}
    (h : Stretch before cs taken rest) (hcomment : isComment taken = false)
    (hslash : taken.head? = some '/') : opensRegex before = true := by
  cases h with
  | string hq _ => exact absurd (Option.some.inj hslash) (ne_slash_of_isQuote hq)
  | line _ => simp [isComment] at hcomment
  | block _ => simp [isComment] at hcomment
  | regex hb _ _ => exact hb

/-! ### What is not passed over -/

theorem isQuote_of_skip?_none {before : Option Char} {c : Char} {cs : List Char}
    (h : skip? before (c :: cs) = none) : isQuote c = false := by
  cases hq : isQuote c with
  | false => rfl
  | true => simp [skip?, hq] at h

theorem head_of_skip?_none {before : Option Char} {cs : List Char}
    (h : skip? before ('/' :: cs) = none) : ∀ c ∈ cs.head?, c ≠ '/' ∧ c ≠ '*' := by
  intro c hc
  obtain ⟨cs, rfl⟩ := List.head?_eq_some_iff.mp hc
  constructor <;> (rintro rfl; rw [skip?_slash] at h; cases h)

theorem skip?_plain {c : Char} (hq : isQuote c = false) (hs : c ≠ '/') (before : Option Char)
    (cs : List Char) : skip? before (c :: cs) = none := by
  simp [skip?, hq, hs]

/-- Where nothing is passed over, nothing is in front of less text either. -/
theorem skip?_front {before : Option Char} {c : Char} {front rest : List Char}
    (h : skip? before (c :: (front ++ rest)) = none) : skip? before (c :: front) = none := by
  by_cases hs : c = '/'
  · subst hs
    have hhead := head_of_skip?_none h
    rw [skip?_slash, Option.map_eq_none_iff, takeAfterSlash_regex hhead] at h
    cases front with
    | nil => simp [skip?_slash, takeAfterSlash, takeRegex]
    | cons d front =>
      have hfront : ∀ c ∈ (d :: front).head?, c ≠ '/' ∧ c ≠ '*' := hhead
      rw [skip?_slash, Option.map_eq_none_iff, takeAfterSlash_regex hfront]
      split at h
      next hb => rw [if_pos hb, takeRegex_front h]
      next hb => rw [if_neg hb]
  · exact skip?_plain (isQuote_of_skip?_none h) hs before front

/-! ### Walked pieces -/

/-- Behind the solid character `before`, the pieces are those of the text they make up. -/
def Walked (before : Option Char) (ps : List Piece) : Prop := pieces before (textOf ps) = ps

theorem walked_pieces (before : Option Char) (cs : List Char) :
    Walked before (pieces before cs) := by
  rw [Walked, textOf_pieces]

theorem pieces_none {before : Option Char} {c : Char} {cs : List Char}
    (h : skip? before (c :: cs) = none) :
    pieces before (c :: cs) = .code c :: pieces (lastSolid before [c]) cs := by
  rw [pieces]
  split
  next heq => rw [h] at heq; cases heq
  next => rfl

theorem walked_skipped {before : Option Char} {text : List Char} {ps : List Piece} :
    Walked before (.skipped text :: ps) ↔
      Stretch before (text ++ textOf ps) text (textOf ps) ∧ Walked (lastSolid before text) ps := by
  constructor
  · intro h
    cases hskip : skip? before (text ++ textOf ps) with
    | some cut =>
      obtain ⟨hpiece, hrest⟩ := List.cons.inj ((pieces_skip hskip).symm.trans h)
      obtain ⟨taken, rest⟩ := cut
      obtain rfl : taken = text := Piece.skipped.inj hpiece
      obtain rfl : rest = textOf ps := by rw [← hrest, textOf_pieces]
      exact ⟨stretch_of_skip? hskip, hrest⟩
    | none =>
      have hwalk : pieces before (text ++ textOf ps) = .skipped text :: ps := h
      cases hcs : text ++ textOf ps with
      | nil =>
        rw [hcs, pieces_nil] at hwalk
        cases hwalk
      | cons c cs =>
        rw [hcs] at hwalk hskip
        cases (pieces_none hskip).symm.trans hwalk
  · rintro ⟨hstretch, hrest⟩
    exact (pieces_skip hstretch.skip?).trans (congrArg (.skipped text :: ·) hrest)

theorem walked_code {before : Option Char} {c : Char} {ps : List Piece} :
    Walked before (.code c :: ps) ↔
      skip? before (c :: textOf ps) = none ∧ Walked (lastSolid before [c]) ps := by
  constructor
  · intro h
    cases hskip : skip? before (c :: textOf ps) with
    | some cut =>
      have hwalk := (pieces_skip hskip).symm.trans h
      cases hwalk
    | none => exact ⟨rfl, (List.cons.inj ((pieces_none hskip).symm.trans h)).2⟩
  · rintro ⟨hskip, hrest⟩
    exact (pieces_none hskip).trans (congrArg (.code c :: ·) hrest)

/-- Pieces are found in front of less text, too. -/
theorem Walked.shorten {before : Option Char} {ps qs : List Piece} (h : Walked before (ps ++ qs))
    {text : List Char} (htext : text <+: textOf qs) :
    Walked before (ps ++ pieces (lastSolid before (textOf ps)) text) := by
  obtain ⟨gone, hgone⟩ := htext
  have hmore (ps : List Piece) : textOf (ps ++ qs) = textOf ps ++ text ++ gone := by
    rw [textOf_append, ← hgone, List.append_assoc]
  induction ps generalizing before with
  | nil => exact walked_pieces before text
  | cons p ps ih =>
    rw [textOf_cons, lastSolid_append, List.cons_append]
    cases p with
    | skipped taken =>
      obtain ⟨hstretch, hrest⟩ : _ ∧ Walked _ (ps ++ qs) := walked_skipped.mp h
      rw [hmore] at hstretch
      refine walked_skipped.mpr ⟨?_, ih hrest⟩
      rw [textOf_append, textOf_pieces]
      refine hstretch.rest (fun hnil => (List.append_eq_nil_iff.mp hnil).1) ?_ hstretch.opens
      exact fun c hc => .inl (by rw [List.head?_append, Option.mem_def.mp hc, Option.some_or])
    | code c =>
      obtain ⟨hskip, hrest⟩ : skip? before (c :: textOf (ps ++ qs)) = none ∧ Walked _ (ps ++ qs) :=
        walked_code.mp h
      rw [hmore] at hskip
      refine walked_code.mpr ⟨?_, ih hrest⟩
      rw [textOf_append, textOf_pieces]
      exact skip?_front hskip

/-- The start of a walked list is walked. -/
theorem Walked.front {before : Option Char} {ps qs : List Piece} (h : Walked before (ps ++ qs)) :
    Walked before ps := by
  have hshort := h.shorten List.nil_prefix
  rwa [pieces_nil, List.append_nil] at hshort

/-- And so is its end, behind the last solid character of the start. -/
theorem Walked.back {before : Option Char} {ps qs : List Piece} (h : Walked before (ps ++ qs)) :
    Walked (lastSolid before (textOf ps)) qs := by
  induction ps generalizing before with
  | nil => exact h
  | cons p ps ih =>
    rw [textOf_cons, lastSolid_append]
    cases p with
    | skipped text => exact ih (walked_skipped.mp h).2
    | code c => exact ih (walked_code.mp h).2

/-! ### Behind another character -/

theorem opensRegex_lastSolid {a b : Option Char} (h : opensRegex a = opensRegex b)
    (text : List Char) : opensRegex (lastSolid a text) = opensRegex (lastSolid b text) := by
  induction text generalizing a b with
  | nil => exact h
  | cons c text ih =>
    show opensRegex (lastSolid (if isAsciiBlank c then a else some c) text) =
      opensRegex (lastSolid (if isAsciiBlank c then b else some c) text)
    split
    next => exact ih h
    next => rfl

theorem skip?_congr {a b : Option Char} (h : opensRegex a = opensRegex b) (cs : List Char) :
    skip? a cs = skip? b cs := by
  have hslash (cs : List Char) : takeAfterSlash a cs = takeAfterSlash b cs := by
    unfold takeAfterSlash
    rw [h]
  cases cs with
  | nil => rfl
  | cons c cs => rw [skip?, skip?, hslash]

/-- All that counts of the character in front is whether a regular expression can follow it. -/
theorem pieces_congr {a b : Option Char} (h : opensRegex a = opensRegex b) (cs : List Char) :
    pieces a cs = pieces b cs := by
  fun_induction pieces a cs generalizing b with
  | case1 a cs taken rest hskip _ ih =>
    have hskip' : skip? b cs = some (taken, rest) := skip?_congr h cs ▸ hskip
    rw [pieces_skip hskip', ih (opensRegex_lastSolid h taken)]
  | case2 => exact (pieces_nil b).symm
  | case3 a c cs hskip ih =>
    have hskip' : skip? b (c :: cs) = none := skip?_congr h (c :: cs) ▸ hskip
    rw [pieces_none hskip', ih (opensRegex_lastSolid h [c])]

theorem Walked.congr {a b : Option Char} {ps : List Piece} (hp : Walked a ps)
    (h : opensRegex a = opensRegex b) : Walked b ps := (pieces_congr h (textOf ps)).symm.trans hp

end RouteScaffold.Source
