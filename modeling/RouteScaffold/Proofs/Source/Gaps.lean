import RouteScaffold.Proofs.Source.Tokens

/-! Gaps.

In front of an entry there may be a gap: blanks and comments in any order. Leaving
out what stands in front of a text leaves out a gap as a whole (`stripComments_gap`),
and trimming leaves out blanks at either end and nothing more. -/
namespace RouteScaffold.Text

/-- A text of nothing but blanks. -/
def Blank (text : List Char) : Prop := ∀ c ∈ text, isBlank c = true

theorem trimStart_blank {text : List Char} (h : Blank text) (rest : List Char) :
    trimStart (text ++ rest) = trimStart rest := List.dropWhile_append_of_pos h

theorem trimStart_solid {cs : List Char} (h : ∀ c ∈ cs.head?, isBlank c = false) :
    trimStart cs = cs := by
  cases cs with
  | nil => rfl
  | cons c cs => simp [trimStart, h c rfl]

theorem trimStart_trimStart (cs : List Char) : trimStart (trimStart cs) = trimStart cs := by
  refine trimStart_solid fun c hc => ?_
  obtain ⟨rest, hrest⟩ := List.head?_eq_some_iff.mp hc
  exact head_trimStart hrest

theorem Blank.trimStart {text : List Char} (h : Blank text) : trimStart text = [] := by
  have := trimStart_blank h []
  rwa [List.append_nil] at this

theorem trimEnd_blank (cs : List Char) {text : List Char} (h : Blank text) :
    trimEnd (cs ++ text) = trimEnd cs := by
  rw [trimEnd, List.reverse_append, List.dropWhile_append_of_pos]
  · rfl
  · exact fun c hc => h c (List.mem_reverse.mp hc)

/-- Nothing in front of a solid character is trimmed at the end. -/
theorem trimEnd_solid (front : List Char) {c : Char} (h : isBlank c = false) (cs : List Char) :
    trimEnd (front ++ c :: cs) = front ++ c :: trimEnd cs := by
  have hdrop : (cs.reverse ++ (c :: front.reverse)).dropWhile isBlank =
      cs.reverse.dropWhile isBlank ++ (c :: front.reverse) := by
    rw [List.dropWhile_append]
    split
    next hnil =>
      rw [List.isEmpty_iff.mp hnil]
      simp [h]
    next => rfl
  rw [trimEnd, show (front ++ c :: cs).reverse = cs.reverse ++ (c :: front.reverse) by simp, hdrop]
  simp [trimEnd]

theorem Blank.trimEnd {text : List Char} (h : Blank text) : trimEnd text = [] := trimEnd_blank [] h

theorem prefix_trimEnd (cs : List Char) : trimEnd cs <+: cs := by
  rw [Text.trimEnd, ← List.reverse_suffix, List.reverse_reverse]
  exact List.dropWhile_suffix isBlank

/-- A text is blank, or has a first solid character. -/
theorem blank_or_solid (cs : List Char) :
    Blank cs ∨ ∃ front c rest, cs = front ++ c :: rest ∧ Blank front ∧ isBlank c = false := by
  induction cs with
  | nil => exact .inl (List.forall_mem_nil _)
  | cons d cs ih =>
    cases hd : isBlank d with
    | false => exact .inr ⟨[], d, cs, rfl, List.forall_mem_nil _, hd⟩
    | true =>
      rcases ih with h | ⟨front, c, rest, rfl, hfront, hc⟩
      · exact .inl (List.forall_mem_cons.mpr ⟨hd, h⟩)
      · exact .inr ⟨d :: front, c, rest, rfl, List.forall_mem_cons.mpr ⟨hd, hfront⟩, hc⟩

/-- Text that has been trimmed at its end is trimmed as if it had not. -/
theorem trim_trimEnd (cs : List Char) : trim (trimEnd cs) = trim cs := by
  rcases blank_or_solid cs with h | ⟨front, c, rest, rfl, hfront, hc⟩
  · rw [h.trimEnd, trim, trim, h.trimStart]
    rfl
  · have hsolid (rest : List Char) : trim (front ++ c :: rest) = c :: Text.trimEnd rest := by
      rw [trim, trimStart_blank hfront, trimStart_solid (by simp [hc])]
      exact trimEnd_solid [] hc rest
    have htwice : Text.trimEnd (Text.trimEnd rest) = Text.trimEnd rest := by
      rw [Text.trimEnd, Text.trimEnd, List.reverse_reverse]
      exact congrArg List.reverse (trimStart_trimStart rest.reverse)
    rw [trimEnd_solid _ hc, hsolid, hsolid, htwice]

end RouteScaffold.Text

namespace RouteScaffold.Source
open Text

/-- Blanks and comments in any order. -/
inductive Gap : List Char → Prop where
  | nil : Gap []
  | blank {c rest} : isBlank c = true → Gap rest → Gap (c :: rest)
  | comment {text rest} : Comment text → Gap rest → Gap (text ++ rest)

theorem stripComments_line {cs rest : List Char} (h : trimStart cs = '/' :: '/' :: rest) :
    stripComments cs = stripComments (takeLine rest).2 := by
  rw [stripComments]
  split
  next heq => rw [h] at heq; cases heq; rfl
  next heq => rw [h] at heq; cases heq
  next hne _ => exact absurd h (hne _)

theorem stripComments_block {cs rest : List Char} (h : trimStart cs = '/' :: '*' :: rest) :
    stripComments cs = stripComments (takeBlock rest).2 := by
  rw [stripComments]
  split
  next heq => rw [h] at heq; cases heq
  next heq => rw [h] at heq; cases heq; rfl
  next hne => exact absurd h (hne _)

theorem stripComments_solid {cs : List Char} (h : ∀ c ∈ (trimStart cs).head?, c ≠ '/') :
    stripComments cs = trimStart cs := by
  rw [stripComments]
  split
  next heq => exact absurd rfl (h '/' (by simp [heq]))
  next heq => exact absurd rfl (h '/' (by simp [heq]))
  next => rfl

/-- Only what is left without the blanks in front counts. -/
theorem stripComments_congr {a b : List Char} (h : trimStart a = trimStart b) :
    stripComments a = stripComments b := by
  fun_cases stripComments a with
  | case1 rest ha => rw [stripComments_line (h.symm.trans ha)]
  | case2 rest ha => rw [stripComments_block (h.symm.trans ha)]
  | case3 hline hblock =>
    rw [stripComments]
    split
    next heq => exact absurd (h.trans heq) (hline _)
    next heq => exact absurd (h.trans heq) (hblock _)
    next => exact h

theorem head_stripComments (cs : List Char) :
    ∀ c ∈ (stripComments cs).head?, isBlank c = false := by
  fun_induction stripComments cs with
  | case1 _ _ _ _ ih => exact ih
  | case2 _ _ _ _ ih => exact ih
  | case3 cs _ _ =>
    intro c hc
    obtain ⟨rest, hrest⟩ := List.head?_eq_some_iff.mp hc
    exact head_trimStart hrest

theorem stripComments_nil : stripComments [] = [] := by
  rw [stripComments_solid (by simp [trimStart])]
  rfl

theorem stripComments_comment {text : List Char} (h : Comment text) (rest : List Char) :
    stripComments (text ++ rest) = stripComments rest := by
  cases h with
  | line text h =>
    have hcs : trimStart ('/' :: '/' :: (text ++ ['\n']) ++ rest) =
        '/' :: '/' :: (text ++ '\n' :: rest) := by
      rw [trimStart_solid (by simp [isBlank_of_mem_signs '/' (by decide)])]
      simp
    have hbreak : Blank ['\n'] := by simp [Blank, isBlank]
    rw [stripComments_line hcs, takeLine_text h]
    exact stripComments_congr (trimStart_blank hbreak rest)
  | block text h =>
    have hcs : trimStart ('/' :: '*' :: (text ++ ['*', '/']) ++ rest) =
        '/' :: '*' :: (text ++ '*' :: '/' :: rest) := by
      rw [trimStart_solid (by simp [isBlank_of_mem_signs '/' (by decide)])]
      simp
    rw [stripComments_block hcs, takeBlock_body h]

/-- A gap is left out as a whole. -/
theorem stripComments_gap {gap : List Char} (h : Gap gap) (rest : List Char) :
    stripComments (gap ++ rest) = stripComments rest := by
  induction h with
  | nil => rfl
  | @blank c gap hc _ ih =>
    have hblank : Blank [c] := List.forall_mem_singleton.mpr hc
    rw [← ih]
    exact stripComments_congr (trimStart_blank hblank (gap ++ rest))
  | comment hc _ ih => rw [List.append_assoc, stripComments_comment hc, ih]

/-! ### Gaps and blanks are tokens -/

/-- A character that says nothing to a reader of tokens, nor to one of commas. -/
def isPlainWord (c : Char) : Bool := isPlain c && c != ','

/-- A text of such characters. -/
def PlainWord (word : List Char) : Prop := ∀ c ∈ word, isPlainWord c = true

instance (word : List Char) : Decidable (PlainWord word) :=
  decidable_of_iff (word.all isPlainWord = true) List.all_eq_true

theorem Tokens.word {commas : Bool} {before : Option Char} (word : List Char) {rest : List Char}
    (h : PlainWord word) (hrest : Tokens commas (lastSolid before word) rest) :
    Tokens commas before (word ++ rest) := by
  induction word generalizing before with
  | nil => exact hrest
  | cons c word ih =>
    have hc : isPlainWord c = true := h c (List.mem_cons_self ..)
    simp only [isPlainWord, Bool.and_eq_true, bne_iff_ne] at hc
    exact .plain hc.1 (fun h => absurd h hc.2)
      (ih (fun d hd => h d (List.mem_cons_of_mem c hd)) hrest)

theorem Tokens.of_word {commas : Bool} {before : Option Char} {word : List Char}
    (h : PlainWord word) : Tokens commas before word := by
  rw [← List.append_nil word]
  exact .word word h .nil

theorem code_of_isPlainWord {c : Char} (h : isPlainWord c = true) :
    isQuote c = false ∧ c ≠ '/' := by
  simp only [isPlainWord, isPlain, Bool.and_eq_true, Bool.not_eq_true', bne_iff_ne] at h
  exact h.1.1.1

theorem isPlainWord_of_not_mem {c : Char} (h : c ∉ signs) : isPlainWord c = true := by
  simp only [signs, List.mem_cons, List.not_mem_nil, or_false, not_or] at h
  simp [isPlainWord, isPlain, isQuote, isOpening, isClosing, h]

theorem isPlainWord_of_isBlank {c : Char} (h : isBlank c = true) : isPlainWord c = true :=
  isPlainWord_of_not_mem fun hc => by rw [isBlank_of_mem_signs c hc] at h; cases h

theorem isPlainWord_of_isIdentChar {c : Char} (h : isIdentChar c = true) : isPlainWord c = true :=
  isPlainWord_of_not_mem fun hc => by rw [isIdentChar_of_mem_signs c hc] at h; cases h

theorem plainWord_of_blank {blank : List Char} (h : Blank blank) : PlainWord blank :=
  fun c hc => isPlainWord_of_isBlank (h c hc)

theorem Tokens.gap {commas : Bool} {before : Option Char} {gap rest : List Char} (h : Gap gap)
    (hrest : ∀ before, Tokens commas before rest) : Tokens commas before (gap ++ rest) := by
  induction h generalizing before with
  | nil => exact hrest before
  | @blank c gap hc _ ih =>
    have hblank : Blank [c] := List.forall_mem_singleton.mpr hc
    exact .word [c] (plainWord_of_blank hblank) ih
  | comment hc _ ih =>
    rw [List.append_assoc]
    exact .comment hc ih

theorem Gap.tokens {commas : Bool} {gap : List Char} (h : Gap gap) (before : Option Char) :
    Tokens commas before gap := by
  rw [← List.append_nil gap]
  exact .gap h fun _ => .nil

/-- Texts of tokens follow one another, unless a letter could become a flag. -/
theorem Tokens.append {commas : Bool} {before : Option Char} {text rest : List Char}
    (h : Tokens commas before text) (hrest : Tokens commas (lastSolid before text) rest)
    (hhead : ∀ c ∈ rest.head?, c.isAlpha = false) : Tokens commas before (text ++ rest) := by
  induction h with
  | nil => exact hrest
  | plain hc hcomma _ ih => exact .plain hc hcomma (ih hrest)
  | @string commas before quote body text hq hbody _ ih =>
    have hlast : lastSolid before (quote :: (body ++ quote :: text)) =
        lastSolid (some quote) text := by
      rw [enclosed_append, lastSolid_append, lastSolid_quoted before hq]
    have htokens : Tokens commas before (quote :: (body ++ quote :: (text ++ rest))) :=
      .string hq hbody (ih (hlast ▸ hrest))
    simpa using htokens
  | comment hc _ ih =>
    rw [lastSolid_append] at hrest
    rw [List.append_assoc]
    exact .comment hc (ih hrest)
  | @regex commas before body flags text hbefore hr hflags _ ih =>
    have hlast : lastSolid before ('/' :: (body ++ '/' :: (flags ++ text))) =
        lastSolid (lastSolid (some '/') flags) text := by
      rw [regex_append, lastSolid_append, lastSolid_regex]
    have hnext : ∀ c ∈ (text ++ rest).head?, c.isAlpha = false := by
      cases text with
      | nil => exact hhead
      | cons d text => exact hflags
    have htokens : Tokens commas before ('/' :: (body ++ '/' :: (flags ++ (text ++ rest)))) :=
      .regex hbefore hr hnext (ih (hlast ▸ hrest))
    simpa using htokens
  | @group commas before inner text b hinner _ _ ih =>
    have hlast : lastSolid before (b.opening :: (inner ++ b.closing :: text)) =
        lastSolid (some b.closing) text := by
      rw [enclosed_append, lastSolid_append, b.lastSolid_group]
    have htokens : Tokens commas before (b.opening :: (inner ++ b.closing :: (text ++ rest))) :=
      .group b hinner (ih (hlast ▸ hrest))
    simpa using htokens

/-- Blanks may follow any text of tokens. -/
theorem Tokens.append_blank {commas : Bool} {before : Option Char} {text blank : List Char}
    (h : Tokens commas before text) (hb : Blank blank) : Tokens commas before (text ++ blank) :=
  h.append (.of_word (plainWord_of_blank hb)) fun c hc =>
    isAlpha_of_isBlank (hb c (List.mem_of_head? hc))

/-- Where commas may stand, texts without them are texts still. -/
theorem Tokens.mono {commas : Bool} {before : Option Char} {text : List Char}
    (h : Tokens commas before text) : Tokens true before text := by
  induction h with
  | nil => exact .nil
  | plain hc _ _ ih => exact .plain hc (fun _ => rfl) ih
  | string hq hbody _ ih => exact .string hq hbody ih
  | comment hc _ ih => exact .comment hc ih
  | regex hbefore hr hflags _ ih => exact .regex hbefore hr hflags ih
  | group b hinner _ _ ih => exact .group b hinner ih

/-- Texts of tokens with commas between them. -/
theorem Tokens.intercalate {parts : List (List Char)}
    (h : ∀ part ∈ parts, ∀ before, Tokens false before part) (before : Option Char) :
    Tokens true before (List.intercalate [','] parts) := by
  induction parts generalizing before with
  | nil => exact .nil
  | cons part parts ih =>
    have hpart := (h part (List.mem_cons_self ..) before).mono
    cases parts with
    | nil => rwa [List.intercalate_singleton]
    | cons next parts =>
      rw [List.intercalate_cons_cons, List.append_assoc]
      exact hpart.append (.plain (by decide) (fun _ => rfl)
        (ih (fun p hp => h p (List.mem_cons_of_mem _ hp)) _)) (by simp)

end RouteScaffold.Source
