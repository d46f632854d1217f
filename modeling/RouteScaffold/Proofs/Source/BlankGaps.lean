import RouteScaffold.Proofs.Source.Filled
import RouteScaffold.Proofs.Source.Literals

/-! Gaps for blanks alone.

In an entry there are places where a reader leaves out blanks, and not comments: behind
its key, behind the colon, within the head of its value and around the name of a chained
call. Where no comment stands there, a key (`key?_cleared`), a type
(`baseType?_cleared`), a chain (`chain_cleared`) and so a field (`field_cleared`) are
read alike in a text and in that text without its comments. -/
namespace RouteScaffold.Source
open Text Route

/-! ### Where they are

Each gap is given by the text that starts with it. -/

/-- In front of a dot, and behind it. -/
def dotGaps (cs : List Char) : List (List Char) := cs :: (nextChar? '.' cs).toList

/-- Behind `z`, around its dot and around the dot of `coerce`. -/
def headGaps : List Char → List (List Char)
  | 'z' :: rest =>
    dotGaps rest ++ (nextChar? '.' rest).toList.flatMap fun member =>
      let member := trimStart member
      if "coerce".toList.isPrefixOf member then dotGaps (member.drop 6) else []
  | _ => []

theorem length_pastArguments_le (tail : List Char) :
    (pastArguments [] id id tail).length ≤ tail.length := by
  rw [pastArguments.eq_def]
  split
  next args =>
    cases hclose : enclosed? '(' args with
    | none => exact Nat.zero_le _
    | some cut => exact Nat.le_succ_of_le (Nat.le_of_lt (length_of_enclosed? hclose))
  next => exact Nat.le_refl _

/-- In a chain, behind a dot and behind a name. -/
def chainGaps (cs : List Char) : List (List Char) :=
  match hdot : stripComments cs with
  | '.' :: rest =>
    rest :: match hname : identifier? (trimStart rest) with
    | none => []
    | some (_, behind) =>
      have := Nat.lt_of_le_of_lt (length_pastArguments_le _) (length_behind_lt hdot hname)
      behind :: chainGaps (pastArguments [] id id (trimStart behind))
  | _ => []
termination_by cs.length

/-- In the value of a schema's entry. -/
def valueGaps (value : List Char) : List (List Char) :=
  headGaps value ++ match baseType? value with
  | none => []
  | some (_, behind) => behind :: pastArguments [] chainGaps (fun _ => []) (trimStart behind)

/-- In an entry: behind a modifier, behind the key, behind its colon, and those of its value. -/
def partGaps (ofValue : List Char → List (List Char)) (part : List Char) : List (List Char) :=
  (modifiers.filterMap fun word =>
    if word.toList.isPrefixOf part then some (part.drop word.length) else none) ++
  match key? part with
  | none => []
  | some (_, behind) =>
    behind :: match trimStart behind with
    | ':' :: value => value :: ofValue (trim value)
    | _ => []

/-! ### Words and types -/

/-- Both readers take the same, and leave cleared texts. -/
def Matched (c d : Cut) : Prop := d.1 = c.1 ∧ Cleared c.2 d.2

section
variable {x y : List Char}

theorem identifier?_cleared (h : Cleared x y) :
    Option.Rel Matched (identifier? x) (identifier? y) := by
  obtain ⟨hword, hrest⟩ := h.run (fun _ => isBlank_of_isIdentChar) isIdentChar_of_mem_signs
  rw [identifier?_eq, identifier?_eq, hword]
  split
  next => exact .some ⟨rfl, hrest⟩
  next => exact .none

theorem nextChar?_cleared (h : Cleared x y) (hbare : Bare x) :
    Option.Rel Cleared (nextChar? '.' x) (nextChar? '.' y) := by
  have hnone {cs : List Char} (h : (trimStart cs).head? ≠ some '.') : nextChar? '.' cs = none := by
    rw [nextChar?]
    split
    next => rfl
    next d rest heq => exact if_neg fun hd => h (by rw [heq, beq_iff_eq.mp hd]; rfl)
  rcases (h.led_trim hbare).head (c := '.') (by decide) with ⟨a, b, u, v, hx, hy, hrest⟩ | ⟨hx, hy⟩
  · rw [nextChar?, nextChar?, hx, hy]
    exact .some ⟨_, _, hrest⟩
  · rw [hnone hx, hnone hy]
    exact .none

theorem typeToken?_cleared (h : Cleared x y) (hbare : Bare x) :
    Option.Rel Matched (typeToken? x) (typeToken? y) := by
  have hled := h.led_trim hbare
  rw [typeToken?, typeToken?]
  generalize trimStart x = s at *
  generalize trimStart y = t at *
  cases hled with
  | nil => exact .none
  | @code a b c s t _ _ hrest =>
    have hcleared : Cleared s t := ⟨_, _, hrest⟩
    obtain ⟨hword, hbehind⟩ :=
      hcleared.run (fun _ => isBlank_of_isTokenChar) isTokenChar_of_mem_signs
    simp only
    split
    next => exact .some ⟨congrArg (c :: ·) hword, hbehind⟩
    next => exact .none
  | skipped hstretch _ _ =>
    obtain ⟨c, hc, body, rfl⟩ := hstretch.exists_head
    have hstart : ∀ d ∈ openers, (d.isAlpha || d == '_' || d == '$') = false :=
      List.all_iff_forall_prop.mp (by decide)
    simp only [List.cons_append, hstart c hc]
    exact .none

theorem coerced?_cleared (h : Cleared x y) (hbare : Bare x)
    (hdot : "coerce".toList.isPrefixOf (trimStart x) = true → Bare ((trimStart x).drop 6)) :
    Option.Rel Cleared (coerced? x) (coerced? y) := by
  have hword : ∀ c ∈ "coerce".toList, isBlank c = false ∧ c ∉ openers :=
    List.all_iff_forall_prop.mp (by decide)
  rw [coerced?, coerced?]
  rcases (h.trim hbare).word _ hword with ⟨hself, hover⟩ | ⟨s, t, hs, ht, hrest⟩
  · simp only [hself, hover]
    exact .none
  · rw [hs] at hdot ⊢
    rw [ht]
    simp only [isPrefixOf_append, if_true]
    exact nextChar?_cleared hrest (hdot (isPrefixOf_append ..))

theorem rel_orElse {α β : Type} {R : α → β → Prop} {u u' : Option α} {v v' : Option β}
    (h : Option.Rel R u v) (h' : Option.Rel R u' v') : Option.Rel R (u <|> u') (v <|> v') := by
  cases h with
  | none => exact h'
  | some h => exact .some h

theorem baseType?_cleared (h : Cleared x y) (hgaps : ∀ gap ∈ headGaps x, Bare gap) :
    Option.Rel Matched (baseType? x) (baseType? y) := by
  by_cases hz : x.head? = some 'z'
  · obtain ⟨x, rfl⟩ := List.head?_eq_some_iff.mp hz
    obtain ⟨y, rfl, hrest⟩ := h.next (by decide) (by decide)
    rw [headGaps, List.forall_mem_append, dotGaps, List.forall_mem_cons] at hgaps
    obtain ⟨⟨hbare, hdot⟩, hmember⟩ := hgaps
    refine rel_bind (nextChar?_cleared hrest hbare) fun s t hs hst => ?_
    have hs' : Bare s := hdot s (Option.mem_toList.mpr hs)
    have hcoerce : "coerce".toList.isPrefixOf (trimStart s) = true →
        ∀ gap ∈ dotGaps ((trimStart s).drop 6), Bare gap := by
      intro hstarts gap hgap
      refine hmember gap (List.mem_flatMap.mpr ⟨s, Option.mem_toList.mpr hs, ?_⟩)
      simpa only [hstarts, if_true] using hgap
    have hcoerced := coerced?_cleared hst hs' fun hstarts =>
      hcoerce hstarts _ (List.mem_cons_self ..)
    refine rel_orElse (rel_bind hcoerced fun u v hu huv => ?_) (typeToken?_cleared hst hs')
    refine typeToken?_cleared huv ?_
    simp only [coerced?] at hu
    split at hu
    next hstarts => exact hcoerce hstarts u (List.mem_cons_of_mem _ (Option.mem_toList.mpr hu))
    next => cases hu
  · have hz' : y.head? ≠ some 'z' := by
      intro hy
      rcases h.head 'z' hy with hself | hblank
      · exact hz hself
      · exact absurd hblank (by decide)
    have hne {cs : List Char} (hcs : cs.head? ≠ some 'z') : baseType? cs = none :=
      baseType?_of_ne fun rest heq => hcs (by rw [heq]; rfl)
    rw [hne hz, hne hz']
    exact .none

/-! ### Chained calls -/

/-- What is read behind arguments is related, if it is behind each closing bracket, and where no
arguments start. -/
theorem pastArguments_led {α β : Type} {R : α → β → Prop} {r : α} {r' : β}
    {call plain : List Char → α} {call' plain' : List Char → β} (h : Led x y) (hr : R r r')
    (hcall : ∀ args cut after, x = '(' :: args → enclosed? '(' args = some cut →
      Cleared cut.2 after → R (call cut.2) (call' after)) (hplain : R (plain x) (plain' y)) :
    R (pastArguments r call plain x) (pastArguments r' call' plain' y) := by
  rcases h.head (c := '(') (by decide) with ⟨a, b, u, v, rfl, rfl, hrest⟩ | ⟨hx, hy⟩
  · have hclose := hrest.enclosed? .round
    have hcall := hcall u
    change Option.Rel _ (enclosed? '(' u) (enclosed? '(' v) at hclose
    simp only [pastArguments]
    generalize enclosed? '(' u = found at *
    generalize enclosed? '(' v = found' at *
    cases hclose with
    | none => exact hr
    | some hcut => exact hcall _ _ rfl rfl hcut.2
  · rwa [pastArguments_of_ne _ _ _ (ne_cons_of_head hx),
      pastArguments_of_ne _ _ _ (ne_cons_of_head hy)]

/-- Behind a gap, what follows the arguments, or all that stands there if none start. -/
theorem pastArguments_cleared (h : Cleared x y) (hbare : Bare x) :
    Cleared (pastArguments [] id id (trimStart x)) (pastArguments [] id id (trimStart y)) :=
  pastArguments_led (h.led_trim hbare) over_nil.cleared (fun _ _ _ _ _ hcut => hcut)
    (h.trim hbare)

theorem chain_past {cs rest : List Char} (h : stripComments cs = '.' :: rest) :
    chain cs = ((identifier? (trimStart rest)).map fun cut =>
      cut.1 :: chain (pastArguments [] id id (trimStart cut.2))).getD [] := by
  have hchain (tail : List Char) :
      pastArguments [] chain chain tail = chain (pastArguments [] id id tail) := by
    rw [pastArguments.eq_def, pastArguments.eq_def]
    split
    next args =>
      cases enclosed? '(' args with
      | none => exact chain_nil.symm
      | some cut => rfl
    next => rfl
  simp only [chain_of_dot h, hchain]

theorem chainGaps_of_dot {cs rest : List Char} (h : stripComments cs = '.' :: rest) :
    chainGaps cs = rest :: ((identifier? (trimStart rest)).map fun cut =>
      cut.2 :: chainGaps (pastArguments [] id id (trimStart cut.2))).getD [] := by
  rw [chainGaps]
  split
  next rest' hdot =>
    obtain rfl := (List.cons.inj (hdot.symm.trans h)).2
    split
    next hname => simp only [hname, Option.map_none, Option.getD_none]
    next hname => simp only [hname, Option.map_some, Option.getD_some]
  next hne => exact absurd h (hne _)

/-- The names in a chain are the same in both texts. -/
theorem chain_cleared (h : Cleared x y) (hgaps : ∀ gap ∈ chainGaps x, Bare gap) :
    chain y = chain x := by
  induction hn : x.length using Nat.strongRecOn generalizing x y with
  | ind n ih =>
  subst hn
  rcases h.led_strip.head (c := '.') (by decide) with ⟨a, b, u, v, hx, hy, hrest⟩ | ⟨hx, hy⟩
  · have hcleared : Cleared u v := ⟨_, _, hrest⟩
    rw [chainGaps_of_dot hx, List.forall_mem_cons] at hgaps
    obtain ⟨hbare, hgaps⟩ := hgaps
    have hname := identifier?_cleared (hcleared.trim hbare)
    rw [chain_past hx, chain_past hy]
    have hshort (cut : Cut) (hcut : identifier? (trimStart u) = some cut) :=
      length_behind_lt hx hcut
    generalize identifier? (trimStart u) = found at *
    generalize identifier? (trimStart v) = found' at *
    cases hname with
    | none => rfl
    | @some cut cut' hcut =>
      obtain ⟨hword, hbehind⟩ := hcut
      obtain ⟨hcut, hgaps⟩ := List.forall_mem_cons.mp hgaps
      have hlength := Nat.lt_of_le_of_lt (length_pastArguments_le _) (hshort cut rfl)
      have hrest := ih _ hlength (pastArguments_cleared hbehind hcut) hgaps rfl
      simp only [Option.map_some, Option.getD_some, hword, hrest]
  · rw [chain_of_ne (ne_cons_of_head hx), chain_of_ne (ne_cons_of_head hy)]

/-! ### Fields -/

theorem optionalBehind_cleared (h : Cleared x y) (hbare : Bare x)
    (hgaps : ∀ gap ∈ pastArguments [] chainGaps (fun _ => []) (trimStart x), Bare gap) :
    optionalBehind (trimStart y) = optionalBehind (trimStart x) := by
  refine pastArguments_led (R := fun b b' => b' = b) (h.led_trim hbare) rfl
    (fun args cut after hargs hclose hafter => ?_) rfl
  rw [hargs] at hgaps
  simp only [pastArguments, hclose] at hgaps
  rw [chain_cleared hafter hgaps]

/-- The field that an entry declares. -/
theorem field_cleared (key : List Char) (h : Cleared x y) (hgaps : ∀ gap ∈ valueGaps x, Bare gap) :
    Entry.field ⟨key, y⟩ = Entry.field ⟨key, x⟩ := by
  rw [valueGaps, List.forall_mem_append] at hgaps
  obtain ⟨hhead, hgaps⟩ := hgaps
  have hbase := baseType?_cleared h hhead
  rw [field_eq, field_eq]
  simp only
  generalize baseType? x = found at *
  generalize baseType? y = found' at *
  cases hbase with
  | none => rfl
  | @some cut cut' hcut =>
    obtain ⟨hbare, hgaps⟩ := List.forall_mem_cons.mp hgaps
    simp only [Option.map_some, Option.getD_some, hcut.1, optionalBehind_cleared hcut.2 hbare hgaps]

/-! ### Keys -/

theorem length_trimStart_lt_iff (cs : List Char) :
    (trimStart cs).length < cs.length ↔ ∃ c ∈ cs.head?, isBlank c = true := by
  cases cs with
  | nil => simp [trimStart]
  | cons c cs =>
    cases hc : isBlank c with
    | true =>
      have hlength := length_trimStart_le cs
      simp only [trimStart] at hlength
      simp [trimStart, hc]
      omega
    | false => simp [trimStart, hc]

theorem methodName?_cleared (h : Cleared x y) (hbare : Bare x) :
    Option.Rel Cleared (methodName? x) (methodName? y) := by
  have hled := h.led_trim hbare
  have htrim := h.trim hbare
  rw [methodName?, methodName?]
  have hx := length_trimStart_lt_iff x
  have hy := length_trimStart_lt_iff y
  have hhead : trimStart y ≠ [] → y.head? = x.head? := fun hne =>
    h.head_eq hbare fun hnil => hne (by rw [hnil]; rfl)
  generalize trimStart x = s at *
  generalize trimStart y = t at *
  cases hled with
  | nil => exact .none
  | code _ _ _ =>
    rw [hhead (by simp), ← hx] at hy
    simp only [hy]
    split
    next => exact .some htrim
    next => exact .none
  | skipped hstretch _ _ =>
    obtain ⟨c, body, rfl, -, hc⟩ := hstretch.head
    simp only [List.cons_append, hc, Bool.and_false, Bool.false_eq_true, if_false]
    exact .none

theorem findSome?_cleared {words : List String} {f g : String → Option (List Char)}
    (h : ∀ word ∈ words, Option.Rel Cleared (f word) (g word)) :
    Option.Rel Cleared (words.findSome? f) (words.findSome? g) := by
  induction words with
  | nil => exact .none
  | cons word words ih =>
    obtain ⟨hword, hwords⟩ := List.forall_mem_cons.mp h
    rw [List.findSome?_cons, List.findSome?_cons]
    generalize f word = found at *
    generalize g word = found' at *
    cases hword with
    | none => exact ih hwords
    | some hname => exact .some hname

/-- Without its modifier, if there is one, the part is cleared. -/
theorem stripModifier_cleared (h : Cleared x y)
    (hgaps : ∀ word ∈ modifiers, word.toList.isPrefixOf x = true → Bare (x.drop word.length)) :
    Cleared (stripModifier x) (stripModifier y) := by
  have hword (word : String) (hmem : word ∈ modifiers) : Option.Rel Cleared
      (if word.toList.isPrefixOf x then methodName? (x.drop word.length) else none)
      (if word.toList.isPrefixOf y then methodName? (y.drop word.length) else none) := by
    have hgap := hgaps word hmem
    have hsolid : ∀ c ∈ word.toList, isBlank c = false ∧ c ∉ openers := fun c hc =>
      solid_of_isIdentChar (isIdentChar_of_mem_modifier word hmem c hc)
    rcases h.word _ hsolid with ⟨hself, hover⟩ | ⟨u, v, rfl, rfl, huv⟩
    · simp only [hself, hover]
      exact .none
    · have hdrop (rest : List Char) : (word.toList ++ rest).drop word.length = rest :=
        List.drop_left' String.length_toList
      rw [hdrop] at hgap
      simp only [isPrefixOf_append, hdrop, if_true]
      exact methodName?_cleared huv (hgap (isPrefixOf_append ..))
  have hfound := findSome?_cleared hword
  rw [stripModifier, stripModifier]
  generalize List.findSome? _ modifiers = found at *
  generalize List.findSome? _ modifiers = found' at *
  cases hfound with
  | none => exact h
  | some hname => exact hname

/-- A quoted key without a backslash ends where its string does. -/
theorem quotedKey_cleared {quote : Char} (hq : quote = '\x22' ∨ quote = '\x27')
    {body : List Char} (hbody : takeString quote (body ++ x) = (body, x)) (h : Cleared x y)
    (hplain : ∀ cut ∈ key? (quote :: (body ++ x)), '\\' ∉ cut.1) :
    Option.Rel Matched (key? (quote :: (body ++ x))) (key? (quote :: (body ++ y))) := by
  have hquote : isQuote quote = true := by rcases hq with rfl | rfl <;> rfl
  by_cases hmem : quote ∈ body
  · obtain ⟨name, after, rfl, hname⟩ := List.eq_append_cons_of_mem hmem
    have hkey (rest : List Char) : key? (quote :: (name ++ quote :: after ++ rest)) =
        some (name, after ++ rest) := by
      rw [List.append_assoc]
      exact key?_quoted hq hname (after ++ rest)
    rw [hkey] at hplain
    have hstring : StringBody quote name := .of_plain hname (hplain _ rfl)
    have hclosed := takeString_body hstring (ne_backslash_of_isQuote hquote) (after ++ x)
    rw [List.append_assoc, List.cons_append, hclosed] at hbody
    obtain rfl : after = [] := by simpa using (congrArg Prod.snd hbody).symm
    rw [hkey, hkey]
    exact .some ⟨rfl, h⟩
  · obtain rfl : x = [] := by
      have hopen : quote ∉ (takeString quote (body ++ x)).1 := by rwa [hbody]
      have hrest := takeString_open hopen
      rwa [hbody] at hrest
    obtain rfl := h.eq_nil
    have hdrop : (body ++ []).dropWhile (· != quote) = [] := by
      rw [List.append_nil, List.dropWhile_eq_nil_iff]
      exact fun c hc => by simpa using fun (heq : c = quote) => hmem (heq ▸ hc)
    have hcond : (quote == '\x22' || quote == '\x27') = true := by simpa using hq
    have hnone : key? (quote :: (body ++ [])) = none := by
      rw [key?]
      simp only [hcond, if_true, hdrop]
    rw [hnone]
    exact .none

theorem key?_of_head {cs : List Char} (h : ∀ c ∈ cs.head?, c ≠ '\x22' ∧ c ≠ '\x27') :
    key? cs = identifier? (stripModifier cs) := by
  cases cs with
  | nil => rfl
  | cons c cs =>
    rw [key?]
    exact if_neg (by simpa using h c rfl)

/-- The key that a part starts with. -/
theorem key?_cleared (hled : Led x y) (h : Cleared x y) (hplain : ∀ cut ∈ key? x, '\\' ∉ cut.1)
    (hgaps : ∀ word ∈ modifiers, word.toList.isPrefixOf x = true → Bare (x.drop word.length)) :
    Option.Rel Matched (key? x) (key? y) := by
  by_cases hx : ∀ c ∈ x.head?, c ≠ '\x22' ∧ c ≠ '\x27'
  · have hy : ∀ c ∈ y.head?, c ≠ '\x22' ∧ c ≠ '\x27' := by
      intro c hc
      rcases h.head c hc with hself | hblank
      · exact hx c hself
      · constructor <;> (rintro rfl; exact absurd hblank (by decide))
    rw [key?_of_head hx, key?_of_head hy]
    exact identifier?_cleared (stripModifier_cleared h hgaps)
  · have hquote : ∃ c ∈ x.head?, c = '\x22' ∨ c = '\x27' := by
      by_contra hnone
      exact hx fun c hc => not_or.mp fun hq => hnone ⟨c, hc, hq⟩
    obtain ⟨c, hc, hq⟩ := hquote
    cases hled with
    | nil => cases hc
    | code _ hcode _ =>
      obtain rfl := Option.some.inj hc
      rcases hq with rfl | rfl <;> cases hcode
    | @skipped a text x y hstretch _ hrest =>
      generalize hcs : text ++ x = cs at hstretch
      cases hstretch with
      | @string quote cs body _ _ hbody =>
        obtain rfl := (List.cons.inj hcs).2
        obtain rfl := Option.some.inj hc
        exact quotedKey_cleared hq hbody hrest hplain
      | line _ | block _ | regex _ _ _ =>
        obtain rfl := Option.some.inj hc
        rcases hq with hq | hq <;> cases hq

end

end RouteScaffold.Source
