import Mathlib.Data.List.Induction
import RouteScaffold.Proofs.Offset.Bytes

/-! Passing over by offsets.

What starts with a quote or a slash is passed over byte by byte. In a string and in a
regular expression a backslash takes one byte with it, whatever stands there: that may be
the first byte of a longer character, or no byte at all. All the same the walk goes on
(`skipAt_bounds`), and on a text it comes out where the character walk does
(`skipAt_bytesOf`), so between two characters (`boundary_skipAt`). -/
namespace RouteScaffold.Offset
open Source Text

/-! ### The loops -/

/-- The offset of the first sign from `i` on of which `p` holds, or the end. -/
def findFrom (bytes : List UInt8) (p : Char → Bool) (i : Nat) : Nat :=
  if h : i < bytes.length then
    if p (sign bytes[i]) then i else findFrom bytes p (i + 1)
  else bytes.length
termination_by bytes.length - i

/-- The offset behind a string that `quote` closes. -/
def stringEnd (bytes : List UInt8) (quote : Char) (i : Nat) : Nat :=
  if h : i < bytes.length then
    if sign bytes[i] == '\\' then stringEnd bytes quote (i + 2)
    else if sign bytes[i] == quote then i + 1
    else stringEnd bytes quote (i + 1)
  else bytes.length
termination_by bytes.length - i

/-- The sign at an offset. -/
def signAt? (bytes : List UInt8) (i : Nat) : Option Char := bytes[i]?.map sign

/-- The offset behind a block comment. -/
def blockEnd (bytes : List UInt8) (i : Nat) : Nat :=
  if h : i < bytes.length then
    if sign bytes[i] == '*' && signAt? bytes (i + 1) == some '/' then i + 2
    else blockEnd bytes (i + 1)
  else bytes.length
termination_by bytes.length - i

/-- The offset behind a regular expression and its flags, if it is closed on its line. -/
def regexEnd? (bytes : List UInt8) (inClass : Bool) (i : Nat) : Option Nat :=
  if h : i < bytes.length then
    if sign bytes[i] == '\\' then regexEnd? bytes inClass (i + 2)
    else if sign bytes[i] == '\n' then none
    else if sign bytes[i] == '/' && !inClass then some (findFrom bytes (!·.isAlpha) (i + 1))
    else regexEnd? bytes (classAfter inClass (sign bytes[i])) (i + 1)
  else none
termination_by bytes.length - i

/-- The last solid sign in front of an offset. -/
def solidBefore? (bytes : List UInt8) (i : Nat) : Option Char :=
  ((bytes.take i).reverse.map sign).find? (!isAsciiBlank ·)

/-- The offset behind what the slash at `i` opens. -/
def slashEnd? (bytes : List UInt8) (i : Nat) : Option Nat :=
  if signAt? bytes (i + 1) == some '/' then some (findFrom bytes (· == '\n') i)
  else if signAt? bytes (i + 1) == some '*' then some (blockEnd bytes (i + 2))
  else if opensRegex (solidBefore? bytes i) then regexEnd? bytes false (i + 1)
  else none

/-- The offset behind the string, the comment or the regular expression that starts at `i`. -/
def skipAt (bytes : List UInt8) (i : Nat) (h : i < bytes.length) : Option Nat :=
  if isQuote (sign bytes[i]) then some (stringEnd bytes (sign bytes[i]) (i + 1))
  else if sign bytes[i] == '/' then slashEnd? bytes i
  else none

/-! ### Going on -/

section
variable {bytes : List UInt8} {i j : Nat}

theorem findFrom_bounds (p : Char → Bool) (h : j ≤ bytes.length) :
    j ≤ findFrom bytes p j ∧ findFrom bytes p j ≤ bytes.length := by
  fun_induction findFrom bytes p j <;> grind

theorem stringEnd_bounds (quote : Char) (hi : i < bytes.length) (hij : i < j) :
    i < stringEnd bytes quote j ∧ stringEnd bytes quote j ≤ bytes.length := by
  fun_induction stringEnd bytes quote j <;> grind

theorem blockEnd_bounds (hi : i < bytes.length) (hij : i < j) :
    i < blockEnd bytes j ∧ blockEnd bytes j ≤ bytes.length := by
  fun_induction blockEnd bytes j <;> grind [signAt?]

theorem regexEnd?_bounds {inClass : Bool} {next : Nat} (hij : i < j)
    (h : regexEnd? bytes inClass j = some next) : i < next ∧ next ≤ bytes.length := by
  fun_induction regexEnd? bytes inClass j with
  | case1 _ j _ _ ih => exact ih (by omega) h
  | case2 => cases h
  | case3 _ j hj =>
    obtain rfl := Option.some.inj h
    have hbounds := findFrom_bounds (j := j + 1) (!·.isAlpha) hj
    exact ⟨by omega, hbounds.2⟩
  | case4 _ j _ _ _ _ ih => exact ih (by omega) h
  | case5 => cases h

theorem slashEnd?_bounds {next : Nat} (h : i < bytes.length) (hslash : sign bytes[i] = '/')
    (hnext : slashEnd? bytes i = some next) : i < next ∧ next ≤ bytes.length := by
  unfold slashEnd? at hnext
  split at hnext
  · obtain rfl := Option.some.inj hnext
    -- The slash itself is no line break, so the search for one leaves it behind.
    have hfirst : findFrom bytes (· == '\n') i = findFrom bytes (· == '\n') (i + 1) := by
      rw [findFrom, dif_pos h, hslash]
      rfl
    rw [hfirst]
    exact findFrom_bounds _ (Nat.succ_le_of_lt h)
  split at hnext
  · obtain rfl := Option.some.inj hnext
    exact blockEnd_bounds h (Nat.lt_add_of_pos_right (by decide))
  split at hnext
  · exact regexEnd?_bounds (Nat.lt_succ_self i) hnext
  · cases hnext

/-- Passing over moves on, and never past the end. -/
theorem skipAt_bounds {next : Nat} (h : i < bytes.length) (hskip : skipAt bytes i h = some next) :
    i < next ∧ next ≤ bytes.length := by
  unfold skipAt at hskip
  split at hskip
  · obtain rfl := Option.some.inj hskip
    exact stringEnd_bounds _ h (Nat.lt_succ_self i)
  split at hskip
  next hslash => exact slashEnd?_bounds h (beq_iff_eq.mp hslash) hskip
  next => cases hskip

end

/-! ### Above ASCII -/

theorem beq_of_large {c d : Char} (hc : 128 ≤ c.toNat) (hd : d.toNat < 128) : (c == d) = false :=
  beq_false_of_ne fun h => absurd (h ▸ hc) (Nat.not_le_of_lt hd)

theorem coarse_beq {d : Char} (hd : d.toNat < 128) : Coarse (· == d) :=
  ⟨false, fun _ hc => beq_of_large hc hd⟩

theorem coarse_isQuote : Coarse isQuote :=
  ⟨false, fun _ hc => by simp [isQuote, beq_of_large hc]⟩

theorem coarse_isAlpha : Coarse (!·.isAlpha) :=
  ⟨true, fun _ hc => (Bool.not_eq_true' _).mpr <| Bool.eq_false_iff.mpr fun h =>
    absurd (toNat_lt_of_isAlpha h) (Nat.not_lt_of_le hc)⟩

theorem coarse_opensRegex : Coarse fun c => opensRegex (some c) :=
  ⟨false, fun c hc => by
    have hascii : ∀ d ∈ beforeRegex, d.toNat < 128 := List.all_iff_forall_prop.mp (by decide)
    exact Bool.eq_false_iff.mpr fun hopens =>
      absurd (hascii c (List.contains_iff_mem.mp hopens)) (Nat.not_lt_of_le hc)⟩

theorem coarse_isAsciiBlank : Coarse isAsciiBlank :=
  ⟨false, fun _ hc => by simp [isAsciiBlank, beq_of_large hc]⟩

theorem classAfter_of_large {c : Char} (hc : 128 ≤ c.toNat) (inClass : Bool) :
    classAfter inClass c = inClass := by
  simp [classAfter, beq_of_large hc]

theorem coarse_classAfter (inClass : Bool) : Coarse (classAfter inClass) :=
  ⟨inClass, fun _ hc => classAfter_of_large hc inClass⟩

section
variable {bytes : List UInt8} {i : Nat} (h : i < bytes.length)
  (hlarge : 128 ≤ (sign bytes[i]).toNat)
include hlarge

theorem stringEnd_large {quote : Char} (hquote : quote.toNat < 128) :
    stringEnd bytes quote i = stringEnd bytes quote (i + 1) := by
  rw [stringEnd, dif_pos h, beq_of_large hlarge (by decide), beq_of_large hlarge hquote]
  rfl

theorem blockEnd_large : blockEnd bytes i = blockEnd bytes (i + 1) := by
  rw [blockEnd, dif_pos h, beq_of_large hlarge (by decide)]
  rfl

theorem regexEnd?_large (inClass : Bool) :
    regexEnd? bytes inClass i = regexEnd? bytes inClass (i + 1) := by
  rw [regexEnd?, dif_pos h, beq_of_large hlarge (by decide), beq_of_large hlarge (by decide),
    beq_of_large hlarge (by decide), classAfter_of_large hlarge]
  rfl

/-- No byte above ASCII starts anything that is passed over. -/
theorem skipAt_large : skipAt bytes i h = none := by
  rw [skipAt, beq_of_large hlarge (by decide)]
  simp [isQuote, beq_of_large hlarge]

end

/-! ### On a text

Each loop, started at the offset of a character, comes out where the walk over the
characters does. -/

theorem PassesFor.beq {b : UInt8} {c d : Char} (h : PassesFor b c) (hd : d.toNat < 128) :
    (sign b == d) = (c == d) := h.congr (coarse_beq hd)

theorem byteLength_concat_of_ascii {c : Char} (h : c.toNat < 128) (front : List Char) :
    byteLength (front ++ [c]) = byteLength front + 1 := by
  rw [byteLength_append, byteLength_cons, utf8Size_of_ascii h]
  rfl

theorem findFrom_bytesOf {p : Char → Bool} (hp : Coarse p) (front rest : List Char) :
    findFrom (bytesOf (front ++ rest)) p (byteLength front) =
      byteLength (front ++ rest.takeWhile (!p ·)) := by
  induction rest generalizing front with
  | nil =>
    rw [findFrom, dif_neg (by simp)]
    simp
  | cons c rest ih =>
    rw [findFrom, dif_pos (lt_length_bytesOf ..), (passesFor_first (lt_length_bytesOf ..)).congr hp]
    split
    next hc => simp [hc]
    next hc =>
      have hacross := across front rest c (f := findFrom (bytesOf (front ++ c :: rest)) p)
        fun k h _ hpasses => by rw [findFrom, dif_pos h, hpasses.congr hp, if_neg hc]
      have hih := ih (front ++ [c])
      simp only [List.append_assoc, List.singleton_append] at hih hacross
      rw [hacross, hih]
      simp [hc]

theorem ascii_of_isQuote {quote : Char} (h : isQuote quote = true) : quote.toNat < 128 :=
  coarse_isQuote.ascii rfl h

/-- One character of a string: only a backslash leads into the character behind it. -/
theorem stringEnd_cons {quote : Char} (hquote : isQuote quote = true) (front rest : List Char)
    (c : Char) :
    let bytes := bytesOf (front ++ c :: rest)
    stringEnd bytes quote (byteLength front) =
      if c == '\\' then stringEnd bytes quote (byteLength (front ++ [c]) + 1)
      else if c == quote then byteLength (front ++ [c])
      else stringEnd bytes quote (byteLength (front ++ [c])) := by
  intro bytes
  have hpasses := passesFor_first (lt_length_bytesOf front rest c)
  rw [stringEnd, dif_pos (lt_length_bytesOf ..), hpasses.beq (by decide),
    hpasses.beq (ascii_of_isQuote hquote)]
  split_ifs with hescape hc
  · obtain rfl := beq_iff_eq.mp hescape
    rw [byteLength_concat_of_ascii (by decide)]
  · obtain rfl := beq_iff_eq.mp hc
    rw [byteLength_concat_of_ascii (ascii_of_isQuote hquote)]
  · exact across _ _ _ (f := stringEnd bytes quote) fun k h hlarge _ =>
      stringEnd_large h hlarge (ascii_of_isQuote hquote)

theorem stringEnd_bytesOf {quote : Char} (hquote : isQuote quote = true) (front rest : List Char) :
    stringEnd (bytesOf (front ++ rest)) quote (byteLength front) =
      byteLength (front ++ (takeString quote rest).1) := by
  have hescape : quote ≠ '\\' := by rintro rfl; cases hquote
  fun_induction takeString quote rest generalizing front with
  | case1 =>
    rw [stringEnd, dif_neg (by simp)]
    simp
  | case2 c rest ih =>
    have hnext := across (front ++ ['\\']) rest c
      (f := stringEnd (bytesOf (front ++ ['\\'] ++ c :: rest)) quote) fun k h hlarge _ =>
        stringEnd_large h hlarge (ascii_of_isQuote hquote)
    have hih := ih (front ++ ['\\', c])
    simp only [List.append_assoc, List.cons_append, List.nil_append] at hnext hih
    rw [stringEnd_cons hquote, if_pos (beq_self_eq_true _), hnext, hih]
    rfl
  | case3 c rest _ hc =>
    obtain rfl := beq_iff_eq.mp hc
    rw [stringEnd_cons hquote, if_neg (by simpa using hescape), if_pos hc]
  | case4 c rest hne hc ih =>
    rw [stringEnd_cons hquote]
    split
    next hbackslash =>
      -- A backslash that ends the text takes nothing with it.
      obtain rfl := beq_iff_eq.mp hbackslash
      cases rest with
      | nil =>
        rw [stringEnd, dif_neg (by simp)]
        simp [Cut.cons, takeString]
      | cons d rest => exact absurd rfl (hne d rest rfl)
    next =>
      have hih := ih (front ++ [c])
      simp only [List.append_assoc, List.singleton_append] at hih
      rw [hih]
      rfl

theorem signAt?_beq {d : Char} (hd : d.toNat < 128) (front rest : List Char) :
    (signAt? (bytesOf (front ++ rest)) (byteLength front) == some d) =
      (rest.head? == some d) := by
  cases rest with
  | nil =>
    rw [signAt?, List.getElem?_eq_none (by simp)]
    rfl
  | cons c rest =>
    rw [signAt?, List.getElem?_eq_getElem (lt_length_bytesOf ..)]
    exact (passesFor_first (lt_length_bytesOf ..)).beq hd

theorem blockEnd_bytesOf (front rest : List Char) :
    blockEnd (bytesOf (front ++ rest)) (byteLength front) =
      byteLength (front ++ (takeBlock rest).1) := by
  have hopened (front rest : List Char) :
      (signAt? (bytesOf (front ++ '*' :: rest)) (byteLength front + 1) == some '/') =
        (rest.head? == some '/') := by
    rw [← byteLength_concat_of_ascii (c := '*') (by decide), List.append_cons]
    exact signAt?_beq (by decide) (front ++ ['*']) rest
  fun_induction takeBlock rest generalizing front with
  | case1 =>
    rw [blockEnd, dif_neg (by simp)]
    simp
  | case2 rest =>
    rw [blockEnd, dif_pos (lt_length_bytesOf ..), hopened,
      (passesFor_first (lt_length_bytesOf ..)).beq (by decide)]
    simp [utf8Size_of_ascii]
  | case3 c rest hne ih =>
    have hacross := across front rest c
      (f := blockEnd (bytesOf (front ++ c :: rest))) fun k h hlarge _ => blockEnd_large h hlarge
    have hih := ih (front ++ [c])
    simp only [List.append_assoc, List.singleton_append] at hih
    rw [blockEnd, dif_pos (lt_length_bytesOf ..),
      (passesFor_first (lt_length_bytesOf ..)).beq (by decide), if_neg, hacross, hih]
    · rfl
    · intro h
      obtain ⟨hstar, hslash⟩ := (Bool.and_eq_true _ _).mp h
      obtain rfl := beq_iff_eq.mp hstar
      rw [hopened, beq_iff_eq, List.head?_eq_some_iff] at hslash
      obtain ⟨behind, rfl⟩ := hslash
      exact hne behind rfl rfl

/-- One character of a regular expression: only a backslash leads into the character behind it. -/
theorem regexEnd?_cons (inClass : Bool) (front rest : List Char) (c : Char) :
    let bytes := bytesOf (front ++ c :: rest)
    regexEnd? bytes inClass (byteLength front) =
      if c == '\\' then regexEnd? bytes inClass (byteLength (front ++ [c]) + 1)
      else if c == '\n' then none
      else if c == '/' && !inClass then some (byteLength (front ++ c :: (takeFlags rest).1))
      else regexEnd? bytes (classAfter inClass c) (byteLength (front ++ [c])) := by
  intro bytes
  have hpasses := passesFor_first (lt_length_bytesOf front rest c)
  rw [regexEnd?, dif_pos (lt_length_bytesOf ..), hpasses.beq (by decide), hpasses.beq (by decide),
    hpasses.beq (by decide)]
  split_ifs with hescape _ hslash
  · obtain rfl := beq_iff_eq.mp hescape
    rw [byteLength_concat_of_ascii (by decide)]
  · rfl
  · obtain ⟨hc, -⟩ := (Bool.and_eq_true _ _).mp hslash
    obtain rfl := beq_iff_eq.mp hc
    have hflags := findFrom_bytesOf coarse_isAlpha (front ++ ['/']) rest
    rw [byteLength_concat_of_ascii (by decide)] at hflags
    simpa [takeFlags] using hflags
  · rw [hpasses.congr (coarse_classAfter inClass)]
    exact across _ _ _ (f := regexEnd? bytes (classAfter inClass c)) fun k h hlarge _ =>
      regexEnd?_large h hlarge _

theorem regexEnd?_bytesOf (inClass : Bool) (front rest : List Char) :
    regexEnd? (bytesOf (front ++ rest)) inClass (byteLength front) =
      (takeRegex inClass rest).map fun cut => byteLength (front ++ cut.1) := by
  have hplain {c : Char} {rest : List Char} (hlast : c = '\\' → rest = [] → False)
      (hnext : ∀ d behind, c = '\\' → rest = d :: behind → False) : ¬(c == '\\') = true := by
    intro hc
    cases rest with
    | nil => exact hlast (beq_iff_eq.mp hc) rfl
    | cons d behind => exact hnext d behind (beq_iff_eq.mp hc) rfl
  fun_induction takeRegex inClass rest generalizing front with
  | case1 =>
    rw [regexEnd?, dif_neg (by simp)]
    rfl
  | case2 =>
    rw [regexEnd?_cons, if_pos (beq_self_eq_true _), regexEnd?, dif_neg (by simp)]
    rfl
  | case3 inClass c rest ih =>
    have hnext := across (front ++ ['\\']) rest c
      (f := regexEnd? (bytesOf (front ++ ['\\'] ++ c :: rest)) inClass) fun k h hlarge _ =>
        regexEnd?_large h hlarge inClass
    have hih := ih (front ++ ['\\', c])
    simp only [List.append_assoc, List.cons_append, List.nil_append] at hnext hih
    rw [regexEnd?_cons, if_pos (beq_self_eq_true _), hnext, hih, Option.map_map]
    rfl
  | case4 inClass c rest hlast hnext hbreak =>
    rw [regexEnd?_cons, if_neg (hplain hlast hnext), if_pos hbreak]
    rfl
  | case5 inClass c rest hlast hnext hbreak hslash =>
    rw [regexEnd?_cons, if_neg (hplain hlast hnext), if_neg hbreak, if_pos hslash]
    rfl
  | case6 inClass c rest hlast hnext hbreak hslash ih =>
    have hih := ih (front ++ [c])
    simp only [List.append_assoc, List.singleton_append] at hih
    rw [regexEnd?_cons, if_neg (hplain hlast hnext), if_neg hbreak, if_neg hslash, hih,
      Option.map_map]
    rfl

/-- For the choice between a regular expression and a division the look back over the bytes is
the look back over the characters. -/
theorem opensRegex_solidBefore (front rest : List Char) :
    opensRegex (solidBefore? (bytesOf (front ++ rest)) (byteLength front)) =
      opensRegex (lastSolid none front) := by
  rw [solidBefore?, bytesOf_append, ← length_bytesOf, List.take_left]
  induction front using List.reverseRecOn with
  | nil => rfl
  | append_singleton front c ih =>
    have hlast : bytesOf [c] = String.utf8EncodeChar c := List.append_nil _
    obtain ⟨b, tail, hencode, hpasses, -⟩ := exists_first c
    rw [bytesOf_append, hlast, List.reverse_append, List.map_append, List.find?_append, hencode]
    cases hc : isAsciiBlank c with
    | true =>
      have hnone : ((b :: tail).reverse.map sign).find? (!isAsciiBlank ·) = none := by
        rw [List.find?_eq_none]
        intro d hd
        obtain ⟨e, he, rfl⟩ := List.mem_map.mp hd
        simp [(hpasses e (List.mem_reverse.mp he)).congr coarse_isAsciiBlank, hc]
      have hskip : lastSolid none (front ++ [c]) = lastSolid none front := by
        rw [lastSolid_append]
        simp [lastSolid, hc]
      rw [hnone, Option.none_or, hskip, ih]
    | false =>
      obtain ⟨d, more, hreverse⟩ :=
        List.exists_cons_of_ne_nil (mt List.reverse_eq_nil_iff.mp (List.cons_ne_nil b tail))
      have hd : PassesFor d c :=
        hpasses d (List.mem_reverse.mp (hreverse ▸ List.mem_cons_self ..))
      have hsolid : (!isAsciiBlank (sign d)) = true := by
        simp [hd.congr coarse_isAsciiBlank, hc]
      rw [hreverse, List.map_cons, List.find?_cons_of_pos (p := (!isAsciiBlank ·)) hsolid,
        lastSolid_concat none front hc]
      exact hd.congr coarse_opensRegex

theorem head?_beq_eq_false {text : List Char} {c : Char} (h : ∀ rest, text = c :: rest → False) :
    (text.head? == some c) = false := by
  refine beq_false_of_ne fun hhead => ?_
  obtain ⟨rest, hrest⟩ := List.head?_eq_some_iff.mp hhead
  exact h rest hrest

theorem slashEnd?_bytesOf (front rest : List Char) :
    slashEnd? (bytesOf (front ++ '/' :: rest)) (byteLength front) =
      (takeAfterSlash (lastSolid none front) rest).map fun cut =>
        byteLength (front ++ '/' :: cut.1) := by
  have hnext := byteLength_concat_of_ascii (c := '/') (by decide) front
  have hhead {d : Char} (hd : d.toNat < 128) :
      (signAt? (bytesOf (front ++ '/' :: rest)) (byteLength front + 1) == some d) =
        (rest.head? == some d) := by
    rw [← hnext, List.append_cons]
    exact signAt?_beq hd (front ++ ['/']) rest
  rw [slashEnd?, hhead (by decide), hhead (by decide), opensRegex_solidBefore]
  fun_cases takeAfterSlash (lastSolid none front) rest with
  | case1 rest =>
    rw [List.head?_cons, if_pos (beq_self_eq_true _), findFrom_bytesOf (coarse_beq (by decide))]
    rfl
  | case2 rest =>
    have hblock := blockEnd_bytesOf (front ++ ['/', '*']) rest
    have hopening : byteLength (front ++ ['/', '*']) = byteLength front + 2 := by
      simp [utf8Size_of_ascii]
    simp only [hopening, List.append_assoc, List.cons_append, List.nil_append] at hblock
    rw [List.head?_cons, if_neg (by decide), if_pos (beq_self_eq_true _), hblock]
    rfl
  | case3 rest hline hblock hregex =>
    have hend := regexEnd?_bytesOf false (front ++ ['/']) rest
    simp only [hnext, List.append_assoc, List.singleton_append] at hend
    rw [head?_beq_eq_false hline, head?_beq_eq_false hblock, if_pos hregex, hend]
    rfl
  | case4 rest hline hblock hregex =>
    rw [head?_beq_eq_false hline, head?_beq_eq_false hblock, if_neg hregex]
    rfl

/-- What is passed over on a text is what the walk over its characters passes over. -/
theorem skipAt_bytesOf {front rest : List Char}
    (h : byteLength front < (bytesOf (front ++ rest)).length) :
    skipAt (bytesOf (front ++ rest)) (byteLength front) h =
      (skip? (lastSolid none front) rest).map fun cut => byteLength (front ++ cut.1) := by
  cases rest with
  | nil => exact absurd h (by simp)
  | cons c rest =>
    have hpasses := passesFor_first h
    rw [skipAt, skip?, hpasses.congr coarse_isQuote, hpasses.beq (by decide)]
    split_ifs with hquote hslash
    · have hc := beq_iff_eq.mp ((hpasses.beq (ascii_of_isQuote hquote)).trans (beq_self_eq_true c))
      have hend := stringEnd_bytesOf hquote (front ++ [c]) rest
      rw [byteLength_concat_of_ascii (ascii_of_isQuote hquote)] at hend
      simp only [List.append_assoc, List.singleton_append] at hend
      rw [hc, hend]
      rfl
    · obtain rfl := beq_iff_eq.mp hslash
      rw [slashEnd?_bytesOf, Option.map_map]
      rfl
    · rfl

theorem skipAt_of_skip? {front cs taken rest : List Char}
    (hskip : skip? (lastSolid none front) cs = some (taken, rest)) :
    ∃ h, skipAt (bytesOf (front ++ cs)) (byteLength front) h =
      some (byteLength (front ++ taken)) := by
  cases cs with
  | nil => cases hskip
  | cons c cs =>
    refine ⟨lt_length_bytesOf .., ?_⟩
    rw [skipAt_bytesOf, hskip]
    rfl

theorem skipAt_of_none {front rest : List Char} {c : Char}
    (hskip : skip? (lastSolid none front) (c :: rest) = none) :
    skipAt (bytesOf (front ++ c :: rest)) (byteLength front) (lt_length_bytesOf ..) = none := by
  rw [skipAt_bytesOf, hskip]
  rfl

/-- From between two characters passing over leads between two characters. -/
theorem boundary_skipAt {text : List Char} {i next : Nat} (hi : Boundary text i)
    (h : i < (bytesOf text).length) (hskip : skipAt (bytesOf text) i h = some next) :
    Boundary text next := by
  obtain ⟨front, rest, rfl, rfl⟩ := boundary_iff.mp hi
  rw [skipAt_bytesOf] at hskip
  obtain ⟨cut, hcut, rfl⟩ := Option.map_eq_some_iff.mp hskip
  refine boundary_iff.mpr ⟨front ++ cut.1, cut.2, ?_, rfl⟩
  rw [List.append_assoc]
  exact congrArg (front ++ ·) (text_of_skip? hcut).1.symm

end RouteScaffold.Offset
