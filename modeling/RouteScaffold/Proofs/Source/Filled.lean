import RouteScaffold.Proofs.Source.Slots

/-! Reading a text with a slot in it.

The readers of an object literal stop in front of a slot or pass over what stands in it as a
whole. So wherever the slot lies behind the key of its entry, the entry has the same key
(`Slot.ofPart?`) and declares the same field (`field_uniform`), whatever stands in the slot. The
key must hold no backslash, since a quoted key ends at the first quote. -/
namespace RouteScaffold.Source
open Text Route

/-- What stands in the slot does not count. -/
def Uniform (operands : Piece → Prop) {α : Type} (f : List Char → α) : Prop :=
  ∃ r, ∀ p, operands p → f p.text = r

section
variable {operands : Piece → Prop} {before : Option Char} {front back : List Char}

theorem Uniform.of_eq {α : Type} {f : List Char → α} (r : α)
    (h : ∀ p, operands p → f p.text = r) : Uniform operands f := ⟨r, h⟩

theorem Uniform.map {α β : Type} {f : List Char → α} (h : Uniform operands f) (g : α → β) :
    Uniform operands fun text => g (f text) := by
  obtain ⟨r, hr⟩ := h
  exact ⟨g r, fun p hp => congrArg g (hr p hp)⟩

theorem Uniform.congr {α : Type} {f f' : List Char → α} (h : Uniform operands f)
    (heq : ∀ p, operands p → f' p.text = f p.text) : Uniform operands f' := by
  obtain ⟨r, hr⟩ := h
  exact ⟨r, fun p hp => (heq p hp).trans (hr p hp)⟩

theorem Operand.head_ne {p : Piece} (hp : Operand p) {c : Char} (hc : c ∈ ['.', ':', '(', 'z'])
    (rest more : List Char) : p.text ++ rest ≠ c :: more := by
  obtain ⟨d, text, htext, -, hd⟩ := hp.first
  rw [htext]
  exact fun heq => hd ((List.cons.inj heq).1 ▸ hc)

/-! ### Chained calls -/

/-- What is read behind the arguments of a call, `r` if they do not end, or where none start. -/
def pastArguments {α : Type} (r : α) (call plain : List Char → α) : List Char → α
  | '(' :: args => ((enclosed? '(' args).map fun cut => call cut.2).getD r
  | tail => plain tail

theorem pastArguments_of_ne {α : Type} (r : α) (call plain : List Char → α) {tail : List Char}
    (h : ∀ args, tail ≠ '(' :: args) : pastArguments r call plain tail = plain tail := by
  rw [pastArguments]
  exact h

theorem chain_of_ne {cs : List Char} (h : ∀ rest, stripComments cs ≠ '.' :: rest) :
    chain cs = [] := by
  rw [chain]
  split
  next hdot => exact absurd hdot (h _)
  next => rfl

theorem chain_of_dot {cs rest : List Char} (h : stripComments cs = '.' :: rest) :
    chain cs = ((identifier? (trimStart rest)).map fun cut =>
      cut.1 :: pastArguments [] chain chain (trimStart cut.2)).getD [] := by
  rw [chain]
  split
  next rest' hdot =>
    obtain rfl := (List.cons.inj (hdot.symm.trans h)).2
    split
    next hnone => rw [hnone]; rfl
    next name behind hname =>
      simp only [hname, Option.map_some, Option.getD_some]
      split
      next args hargs =>
        simp only [hargs, pastArguments]
        split
        next hclose => simp [hclose]
        next hclose => simp [hclose]
      next hne => rw [pastArguments_of_ne _ _ _ hne]
  next hne => exact absurd h (hne _)

/-- What is read behind arguments does not depend on what stands in the slot, if what is read
behind each closing bracket does not. -/
theorem pastArguments_uniform {α : Type} (r : α) {call plain : List Char → α} {tail : List Char}
    (h : Slot operands before tail back)
    (hcall : ∀ after seen, after.length ≤ tail.length → Slot operands seen after back →
      Uniform operands fun text => call (after ++ (text ++ back)))
    (hplain : Uniform operands fun text => plain (tail ++ (text ++ back))) :
    Uniform operands fun text => pastArguments r call plain (tail ++ (text ++ back)) := by
  have hother (hne : ∀ p, operands p → ∀ args, tail ++ (p.text ++ back) ≠ '(' :: args) :
      Uniform operands fun text => pastArguments r call plain (tail ++ (text ++ back)) :=
    hplain.congr fun p hp => pastArguments_of_ne _ _ _ (hne p hp)
  cases tail with
  | nil => exact hother fun p hp => (h.operand p hp).head_ne (by decide) back
  | cons c args =>
    by_cases hc : c = '('
    · subst hc
      have hargs : Slot operands (some '(') args back := .inside .round h
      obtain ⟨inside, after, seen, hslot, hself, hclose⟩ | ⟨-, found, -, hclose⟩ :=
        hargs.enclosed?
      · have hlength := Nat.le_succ_of_le (Nat.le_of_lt (length_of_enclosed? hself))
        refine (hcall after seen hlength hslot).congr fun p hp => ?_
        show ((enclosed? '(' (args ++ (p.text ++ back))).map _).getD r = _
        rw [hclose p hp]
        rfl
      · refine .of_eq ((found.map fun cut => call cut.2).getD r) fun p hp => ?_
        show ((enclosed? '(' (args ++ (p.text ++ back))).map _).getD r = _
        rw [hclose p hp, Option.map_map]
        rfl
    · exact hother fun p _ args heq => hc (List.cons.inj heq).1

theorem Behind.length_le {cs rest : List Char} (h : Behind cs rest) : rest.length ≤ cs.length := by
  obtain ⟨code, -, rfl⟩ := h
  simp

/-- The names in a chain do not depend on what stands in a slot of it. -/
theorem chain_uniform (h : Slot operands before front back) :
    Uniform operands fun text => chain (front ++ (text ++ back)) := by
  induction hn : front.length using Nat.strongRecOn generalizing before front with
  | ind n ih =>
  subst hn
  obtain ⟨⟨seen, hcore⟩, hstrip⟩ := h.strip
  have hlength := length_stripComments_le front
  have hnone (hne : ∀ p, operands p → ∀ rest,
      stripComments front ++ (p.text ++ back) ≠ '.' :: rest) :
      Uniform operands fun text => chain (front ++ (text ++ back)) :=
    .of_eq [] fun p hp => chain_of_ne fun rest => by rw [hstrip p hp]; exact hne p hp rest
  cases hfront : stripComments front with
  | nil =>
    rw [hfront] at hnone
    exact hnone fun p hp => (h.operand p hp).head_ne (by decide) back
  | cons c core =>
    by_cases hc : c = '.'
    · subst hc
      rw [hfront] at hcore hstrip hlength
      have hinner : Slot operands (some '.') core back :=
        hcore.tail (pieces_code rfl (by decide))
      have hword (sign : Char) (hends : Ends sign) := (stops_identifier hends).trim hends
      obtain hname | ⟨name, rest, hrest, hname⟩ := hinner.read hword (.inr (.inl rfl))
      · refine .of_eq [] fun p hp => ?_
        rw [chain_of_dot (hstrip p hp)]
        exact congrArg (fun cut : Option Cut => (cut.map _).getD []) (hname p hp)
      · obtain ⟨seen, htail⟩ := hinner.behind (hrest.trans (behind_trimStart rest))
        have hshort : (trimStart rest).length < front.length :=
          Nat.lt_of_lt_of_le (Nat.lt_succ_of_le
            (Nat.le_trans (length_trimStart_le rest) hrest.length_le)) hlength
        have hchain (after : List Char) (seen : Option Char)
            (hlong : after.length ≤ (trimStart rest).length)
            (hafter : Slot operands seen after back) :
            Uniform operands fun text => chain (after ++ (text ++ back)) :=
          ih _ (Nat.lt_of_le_of_lt hlong hshort) hafter rfl
        have hpast := pastArguments_uniform [] htail hchain (hchain _ _ (Nat.le_refl _) htail)
        refine (hpast.map (name :: ·)).congr fun p hp => ?_
        rw [chain_of_dot (hstrip p hp), ← (h.operand p hp).trimStart]
        exact congrArg (fun cut : Option Cut => (cut.map _).getD []) (hname p hp)
    · exact hnone fun p hp rest heq => hc (List.cons.inj (hfront ▸ heq)).1

/-! ### Fields -/

/-- Whether the calls behind the arguments make a field optional. -/
def optionalBehind : List Char → Bool :=
  pastArguments false (fun after => (chain after).any makesOptional) fun _ => false

theorem field_eq (entry : Entry) : entry.field =
    ((baseType? entry.value).map fun cut =>
      (⟨String.ofList entry.key, .ofToken (String.ofList cut.1),
        optionalBehind (trimStart cut.2)⟩ : Field)).getD
      ⟨String.ofList entry.key, .other "unknown", false⟩ := by
  rw [Entry.field]
  cases baseType? entry.value with
  | none => rfl
  | some cut =>
    simp only [Option.map_some, Option.getD_some]
    split
    next args hargs =>
      rw [hargs, optionalBehind, pastArguments]
      cases enclosed? '(' args <;> rfl
    next hne => rw [optionalBehind, pastArguments_of_ne _ _ _ hne]

theorem optionalBehind_uniform {tail : List Char} (h : Slot operands before tail back) :
    Uniform operands fun text => optionalBehind (tail ++ (text ++ back)) :=
  pastArguments_uniform false h
    (fun _ _ _ hafter => (chain_uniform hafter).map (·.any makesOptional))
    (.of_eq false fun _ _ => rfl)

theorem baseType?_of_ne {cs : List Char} (h : ∀ rest, cs ≠ 'z' :: rest) : baseType? cs = none := by
  rw [baseType?]
  exact h

/-- The field that an entry declares does not depend on what stands in a slot of its value. -/
theorem field_uniform (key : List Char) (h : Slot operands before front back) :
    Uniform operands fun text => Entry.field ⟨key, front ++ (text ++ back)⟩ := by
  have hunknown (hnone : ∀ p, operands p → baseType? (front ++ (p.text ++ back)) = none) :
      Uniform operands fun text => Entry.field ⟨key, front ++ (text ++ back)⟩ :=
    .of_eq ⟨String.ofList key, .other "unknown", false⟩ fun p hp => by
      rw [field_eq, hnone p hp]
      rfl
  cases front with
  | nil =>
    exact hunknown fun p hp =>
      baseType?_of_ne ((h.operand p hp).head_ne (by decide) back)
  | cons c cs =>
    by_cases hc : c = 'z'
    · have hsolid : ∃ d ∈ c :: cs, isBlank d = false := ⟨c, List.mem_cons_self .., by
        rw [hc]
        exact isBlank_of_isIdentChar (by decide)⟩
      obtain hnone | ⟨token, rest, hrest, hbase⟩ :=
        h.read (fun _ => stops_baseType) (.inr (.inr hsolid))
      · exact hunknown hnone
      · obtain ⟨seen, htail⟩ := h.behind (hrest.trans (behind_trimStart rest))
        refine ((optionalBehind_uniform htail).map fun optional =>
          (⟨String.ofList key, .ofToken (String.ofList token), optional⟩ : Field)).congr
            fun p hp => ?_
        rw [field_eq, hbase p hp, ← (h.operand p hp).trimStart]
        rfl
    · exact hunknown fun p _ => baseType?_of_ne fun rest heq => hc (List.cons.inj heq).1

/-! ### Entries -/

/-- Behind a key, either no value is read, whatever stands in the slot, or one that has the slot in
it. -/
theorem Slot.value? (h : Slot operands before front back) (key : List Char) :
    (∀ p, operands p → Source.value? key (front ++ (p.text ++ back)) = none) ∨
    ∃ value more seen, Slot operands seen value more ∧ ∀ p, operands p →
      Source.value? key (front ++ (p.text ++ back)) = some (value ++ (p.text ++ more)) := by
  obtain ⟨seen, hslot⟩ := h.behind (behind_trimStart front)
  have htrim (p : Piece) (hp : operands p) := (h.operand p hp).trimStart front back
  have hnone (hcolon : ∀ p, operands p → ∀ rest,
        trimStart front ++ (p.text ++ back) ≠ ':' :: rest)
      (hround : ∀ p, operands p → ∀ rest, trimStart front ++ (p.text ++ back) ≠ '(' :: rest)
      (p : Piece) (hp : operands p) : Source.value? key (front ++ (p.text ++ back)) = none := by
    rw [Source.value?, htrim p hp]
    split
    next hnil =>
      obtain ⟨c, rest, htext, -⟩ := (h.operand p hp).first
      simp [htext] at hnil
    next heq => exact absurd heq (hcolon p hp _)
    next heq => exact absurd heq (hround p hp _)
    next => rfl
  cases hstart : trimStart front with
  | nil =>
    rw [hstart] at hnone
    exact .inl (hnone (fun p hp => (h.operand p hp).head_ne (by decide) back)
      fun p hp => (h.operand p hp).head_ne (by decide) back)
  | cons c value =>
    rw [hstart] at hslot htrim hnone
    by_cases hcolon : c = ':'
    · subst hcolon
      have hvalue : Behind (':' :: value) (trimStart value) :=
        .cons rfl (by decide) (behind_trimStart value)
      obtain ⟨seen, hfront⟩ := hslot.behind hvalue
      refine .inr ⟨trimStart value, trimEnd back, seen, hfront.cut (prefix_trimEnd back),
        fun p hp => ?_⟩
      rw [Source.value?, htrim p hp]
      show some (trim (value ++ (p.text ++ back))) = _
      rw [trim, (h.operand p hp).trimStart, (h.operand p hp).trimEnd]
    · by_cases hround : c = '('
      · subst hround
        exact .inr ⟨_, back, _, hslot, fun p hp => by rw [Source.value?, htrim p hp]; rfl⟩
      · exact .inl (hnone (fun _ _ _ heq => hcolon (List.cons.inj heq).1)
          fun _ _ _ heq => hround (List.cons.inj heq).1)

/-- A string without its quote is open to the end. -/
theorem takeString_open {quote : Char} {cs : List Char} (h : quote ∉ (takeString quote cs).1) :
    (takeString quote cs).2 = [] := by
  fun_induction takeString quote cs with
  | case1 => rfl
  | case2 c rest ih => exact ih fun hmem => h (by simp [Cut.cons, hmem])
  | case3 c rest _ hc => exact absurd (by simpa using (beq_iff_eq.mp hc).symm) h
  | case4 c rest _ _ ih => exact ih fun hmem => h (by simp [Cut.cons, hmem])

/-- A string that stands in front of the slot is closed there. -/
theorem Slot.closed {c : Char} {cs : List Char} (h : Slot operands before (c :: cs) back)
    (hc : isQuote c = true) {p : Piece} (hp : operands p) : c ∈ cs := by
  by_contra hmem
  have hskip (rest : List Char) :
      skip? before (c :: rest) = some (.cons c (takeString c rest)) := by
    simp [skip?, hc]
  have htaken : (takeString c (cs ++ (p.text ++ back))).1 = (takeString c cs).1 := by
    have hpieces := h.pieces hp
    rw [List.cons_append, pieces_skip (hskip _), pieces_skip (hskip cs)] at hpieces
    exact (List.cons.inj (Piece.skipped.inj (List.cons.inj hpieces).1)).2
  have htext : (takeString c cs).1 ++ (takeString c cs).2 = cs := text_takeString c cs
  have hnot : c ∉ (takeString c cs).1 := fun hin => hmem (htext ▸ List.mem_append_left _ hin)
  have hself : (takeString c cs).2 = [] := takeString_open hnot
  have hmore : (takeString c (cs ++ (p.text ++ back))).2 = [] := takeString_open (htaken ▸ hnot)
  have hlong : (takeString c (cs ++ (p.text ++ back))).text = cs ++ (p.text ++ back) :=
    text_takeString ..
  obtain ⟨d, text, hfirst, -⟩ := (h.operand p hp).first
  rw [Cut.text, hmore, htaken, List.append_nil] at hlong
  rw [hself, List.append_nil, hlong, hfirst] at htext
  simp at htext

/-- The key in front of the slot, if it holds no backslash, is read in front of it. -/
theorem Slot.key? (h : Slot operands before front back) (hne : front ≠ [])
    (hsolid : ∀ c ∈ front.head?, isBlank c = false) (hkey : ∀ cut ∈ key? front, '\\' ∉ cut.1) :
    (∀ p, operands p → Source.key? (front ++ (p.text ++ back)) = none) ∨
    ∃ key rest seen, Slot operands seen rest back ∧ ∀ p, operands p →
      Source.key? (front ++ (p.text ++ back)) = some (key, rest ++ (p.text ++ back)) := by
  obtain ⟨c, cs, rfl⟩ := List.exists_cons_of_ne_nil hne
  by_cases hc : c = '\x22' ∨ c = '\x27'
  · have hcq : isQuote c = true := by rcases hc with rfl | rfl <;> rfl
    by_cases hany : ∃ p, operands p
    · obtain ⟨p, hp⟩ := hany
      obtain ⟨name, after, rfl, hname⟩ := List.eq_append_cons_of_mem (h.closed hcq hp)
      have hbody : StringBody c name :=
        .of_plain hname (hkey _ (key?_quoted hc hname after))
      have hafter := h.tail (pieces_skip (skip?_string before hcq hbody after))
      refine .inr ⟨name, after, _, hafter, fun p _ => ?_⟩
      have hcs : c :: (name ++ c :: after) ++ (p.text ++ back) =
          c :: (name ++ c :: (after ++ (p.text ++ back))) := by simp
      rw [hcs, key?_quoted hc hname]
    · exact .inl fun p hp => absurd ⟨p, hp⟩ hany
  · have hread (cs : List Char) :
        Source.key? (c :: cs) = identifier? (stripModifier (c :: cs)) := by
      rw [Source.key?]
      exact if_neg (by simpa using hc)
    have hbarred : Barred operands before (c :: cs) :=
      .inr (.inr ⟨c, List.mem_cons_self .., hsolid c rfl⟩)
    obtain hnone | ⟨name, rest, hrest, hname⟩ := h.read (fun _ => stops_modified) hbarred
    · exact .inl fun p hp => (hread _).trans (hnone p hp)
    · obtain ⟨seen, hslot⟩ := h.behind hrest
      exact .inr ⟨name, rest, seen, hslot, fun p hp => (hread _).trans (hname p hp)⟩

/-- What stands behind `front`, in one part of an object literal, is not the first token there, and
if the part starts with a key the key holds no backslash. -/
structure BehindKey (front : List Char) : Prop where
  started : stripComments front ≠ []
  plain : ∀ cut ∈ key? (stripComments front), '\\' ∉ cut.1

instance (front : List Char) : Decidable (BehindKey front) :=
  decidable_of_iff (stripComments front ≠ [] ∧ ∀ cut ∈ key? (stripComments front), '\\' ∉ cut.1)
    ⟨fun ⟨hstarted, hplain⟩ => ⟨hstarted, hplain⟩, fun h => ⟨h.started, h.plain⟩⟩

/-- With a slot behind its key, an entry has the same key and the slot in its value, whatever stands
there, or there is no entry. -/
theorem Slot.ofPart? (h : Slot operands before front back) (hkey : BehindKey front) :
    (∀ p, operands p → Entry.ofPart? (front ++ (p.text ++ back)) = none) ∨
    ∃ key value more seen, Slot operands seen value more ∧ ∀ p, operands p →
      Entry.ofPart? (front ++ (p.text ++ back)) = some ⟨key, value ++ (p.text ++ more)⟩ := by
  obtain ⟨⟨seen, hcore⟩, hstrip⟩ := h.strip
  have hsolid := head_stripComments front
  have hbarred : Barred operands seen (stripComments front) := by
    obtain ⟨c, cs, hcs⟩ := List.exists_cons_of_ne_nil hkey.started
    exact .inr (.inr ⟨c, by simp [hcs], hsolid c (by simp [hcs])⟩)
  obtain ⟨spread, hspread⟩ : ∃ spread, ∀ p, operands p →
      "...".toList.isPrefixOf (stripComments front ++ (p.text ++ trimEnd back)) = spread := by
    obtain ⟨start, sign, gap, hfront, hends, hmore⟩ := hcore.exists_sign hbarred
    have hdots : sign ∉ "...".toList := fun hmem => hends.dot (by simpa using hmem)
    refine ⟨"...".toList.isPrefixOf start, fun p hp => ?_⟩
    obtain ⟨more, hmore⟩ := hmore p hp
    rw [hfront, List.append_assoc, ← List.append_assoc gap, hmore, List.cons_append,
      isPrefixOf_stop hdots]
  have hpart (p : Piece) (hp : operands p) : Entry.ofPart? (front ++ (p.text ++ back)) =
      if spread then none
      else (Source.key? (stripComments front ++ (p.text ++ trimEnd back))).bind fun cut =>
        (Source.value? cut.1 cut.2).map (Entry.mk cut.1) := by
    rw [Entry.ofPart?, hstrip p hp, (h.operand p hp).trimEnd, hspread p hp]
    simp only [Option.map_eq_bind]
    rfl
  have hcut := hcore.cut (prefix_trimEnd back)
  cases spread with
  | true => exact .inl fun p hp => (hpart p hp).trans (if_pos rfl)
  | false =>
    obtain hnone | ⟨key, rest, seen, hrest, hsome⟩ := hcut.key? hkey.started hsolid hkey.plain
    · exact .inl fun p hp => by rw [hpart p hp, hnone p hp]; rfl
    · obtain hnone | ⟨value, more, seen, hvalue, hvalued⟩ := hrest.value? key
      · exact .inl fun p hp => by
          rw [hpart p hp, hsome p hp]
          exact congrArg (Option.map (Entry.mk key)) (hnone p hp)
      · exact .inr ⟨key, value, more, seen, hvalue, fun p hp => by
          rw [hpart p hp, hsome p hp]
          exact congrArg (Option.map (Entry.mk key)) (hvalued p hp)⟩

/-- What is read from each entry of a literal does not depend on what stands in a slot behind a
key, if it does not in a slot of the entry's value. -/
theorem entries_uniform {α : Type} {read : Entry → α}
    (hread : ∀ key front back seen, Slot operands seen front back →
      Uniform operands fun text => read ⟨key, front ++ (text ++ back)⟩)
    (h : Slot operands none front back) (hkey : BehindKey ((commaParts front).getLastD [])) :
    Uniform operands fun text => (entries (front ++ (text ++ back))).map read := by
  obtain ⟨parts, last, seen, more, parts', hlast, hself, hparts⟩ := h.commaParts
  rw [hself, List.getLastD_concat] at hkey
  have hone : Uniform operands fun text =>
      (Entry.ofPart? (last ++ (text ++ more))).map read := by
    obtain hnone | ⟨key, value, rest, seen, hvalue, hsome⟩ := hlast.ofPart? hkey
    · exact .of_eq none fun p hp => by rw [hnone p hp]; rfl
    · exact ((hread key value rest seen hvalue).map some).congr fun p hp => by
        rw [hsome p hp]
        rfl
  obtain ⟨entry, hentry⟩ := hone
  let readAll := fun parts => List.filterMap (fun part => (Entry.ofPart? part).map read) parts
  refine ⟨readAll parts ++ entry.toList ++ readAll parts', fun p hp => ?_⟩
  have hpart : readAll [last ++ (p.text ++ more)] = entry.toList := by
    simp only [readAll, List.filterMap_cons, hentry p hp, List.filterMap_nil]
    cases entry <;> rfl
  show (entries (front ++ (p.text ++ back))).map read = _
  rw [entries, hparts p hp, List.map_filterMap, ← hpart, ← List.filterMap_append,
    ← List.filterMap_append, List.append_assoc, List.singleton_append]

end

end RouteScaffold.Source
