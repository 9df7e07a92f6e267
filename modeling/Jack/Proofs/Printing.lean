import Jack.Proofs.Layout

/-!
# Written forms of tokens

A token has a written form if it is a keyword or a symbol, a name that is no keyword, an
integer in range or a string that stays on a line.  The token at the front of a text is
read exactly if its written form stands there, with layout before it and with nothing
behind it that would be read as a part of it.
-/

namespace Jack

open Text
open Reading

/-!
# Written forms
-/

/-- Letters, digits and underscores that do not begin with a digit and are no keyword. -/
structure IsName (name : String) : Prop where
  begins : name.toList.head?.any (fun c => !isDigit c) = true
  word : forall c, c ∈ name.toList -> isWordChar c = true
  notKeyword : Keyword.ofWord? name = none

/-- Decimal digits whose value is in range. -/
structure IsNumeral (digits : String) : Prop where
  nonempty : digits.toList ≠ []
  decimal : forall c, c ∈ digits.toList -> isDecimal c = true
  length_le : digits.toList.length ≤ numeralLimit
  value_le : Token.integerValue digits ≤ largestInteger

instance (name : String) : Decidable (IsName name) :=
  decidable_of_iff (_ ∧ name.toList.all isWordChar = true ∧ _)
    ⟨fun h => ⟨h.1, List.all_eq_true.mp h.2.1, h.2.2⟩,
      fun h => ⟨h.begins, List.all_eq_true.mpr h.word, h.notKeyword⟩⟩

instance (digits : String) : Decidable (IsNumeral digits) :=
  decidable_of_iff (_ ∧ digits.toList.all isDecimal = true ∧ _ ∧ _)
    ⟨fun h => ⟨h.1, List.all_eq_true.mp h.2.1, h.2.2.1, h.2.2.2⟩,
      fun h => ⟨h.nonempty, List.all_eq_true.mpr h.decimal, h.length_le, h.value_le⟩⟩

theorem IsName.exists_eq_cons {name : String} (h : IsName name) :
    exists c rest, name.toList = c :: rest ∧ isDigit c = false := by
  have hbegins := h.begins
  cases hname : name.toList with
  | nil => simp [hname] at hbegins
  | cons c rest => exact ⟨c, rest, rfl, by simpa [hname] using hbegins⟩

namespace Token

/-- The token has a written form. -/
def IsLexeme : Token -> Prop
  | .keyword _ => True
  | .symbol _ => True
  | .identifier name => IsName name
  | .integer digits => IsNumeral digits
  | .string text => forall c, c ∈ text.toList -> inString c = true ∧ c ≠ '\r'

instance (token : Token) : Decidable token.IsLexeme :=
  match token with
  | .keyword _ => inferInstanceAs (Decidable True)
  | .symbol _ => inferInstanceAs (Decidable True)
  | .identifier name => inferInstanceAs (Decidable (IsName name))
  | .integer digits => inferInstanceAs (Decidable (IsNumeral digits))
  | .string text =>
      decidable_of_iff (text.toList.all (fun c => inString c && c != '\r') = true)
        (by simp [IsLexeme])

/-- The characters a token is written with. -/
def spelling : Token -> List Char
  | .keyword k => k.word.toList
  | .symbol s => [s.char]
  | .identifier name => name.toList
  | .integer digits => digits.toList
  | .string text => doubleQuote :: (text.toList ++ [doubleQuote])

/-- The character would not be left behind the token: it goes on with it, or a comment opens
there. -/
def goesOnWith : Token -> Char -> Bool
  | .keyword _, c => isWordChar c
  | .symbol s, c => s == .slash && (c == '/' || c == '*')
  | .identifier _, c => isWordChar c
  | .integer _, c => isDigit c
  | .string _, _ => false

/-- Nothing behind the token is read as a part of it. -/
def EndsBefore (token : Token) (rest : List Char) : Prop :=
  forall c, rest.head? = some c -> token.goesOnWith c = false

end Token

/-!
# Characters of words
-/

theorem isWordChar_symbol (s : Symbol) : isWordChar s.char = false := by
  cases s <;> decide +kernel

theorem ofChar?_of_isWordChar {c : Char} (h : isWordChar c = true) : Symbol.ofChar? c = none := by
  cases hsymbol : Symbol.ofChar? c with
  | none => rfl
  | some s =>
      have hchar : s.char = c := by simpa using List.find?_some hsymbol
      rw [← hchar, isWordChar_symbol] at h
      cases h

theorem ne_of_isWordChar {c d : Char} (h : isWordChar c = true) (hd : isWordChar d = false) :
    c ≠ d := by
  intro hcd
  rw [hcd, hd] at h
  cases h

theorem isBlank_of_isWordChar {c : Char} (h : isWordChar c = true) : isBlank c = false := by
  have hspace := ne_of_isWordChar h (d := ' ') (by decide +kernel)
  have hreturn := ne_of_isWordChar h (d := '\r') (by decide +kernel)
  have hfeed := ne_of_isWordChar h (d := '\n') (by decide +kernel)
  have htab := ne_of_isWordChar h (d := '\t') (by decide +kernel)
  simp [isBlank, hspace, hreturn, hfeed, htab]

theorem exists_mem_of_inRanges {ranges : List (Nat × Nat)} {n : Nat}
    (h : inRanges ranges n = true) : exists range, range ∈ ranges ∧ range.1 ≤ n ∧ n ≤ range.2 := by
  induction ranges with
  | nil => cases h
  | cons range rest ih =>
      rcases range with ⟨low, high⟩
      unfold inRanges at h
      split at h
      · cases h
      · next hlow =>
          rw [Bool.or_eq_true, decide_eq_true_eq] at h
          rcases h with hhigh | hrest
          · exact ⟨(low, high), List.mem_cons_self, Nat.not_lt.mp hlow, hhigh⟩
          · rcases ih hrest with ⟨range, hmem, hrange⟩
            exact ⟨range, List.mem_cons_of_mem _ hmem, hrange⟩

/-- No range of letters meets a run of decimal digits or a range of other digits. -/
theorem letterRanges_apart :
    (letterRanges.all fun range =>
      decimalZeros.all (fun start => Nat.blt range.2 start || Nat.ble (start + 10) range.1) &&
        otherDigitRanges.all fun other =>
          Nat.blt range.2 other.1 || Nat.blt other.2 range.1) = true := by
  decide +kernel

theorem isDigit_of_isLetter {c : Char} (h : isLetter c = true) : isDigit c = false := by
  rcases exists_mem_of_inRanges h with ⟨range, hmem, hrange⟩
  have hapart := List.all_eq_true.mp letterRanges_apart range hmem
  rw [Bool.and_eq_true, List.all_eq_true, List.all_eq_true] at hapart
  rw [isDigit, Bool.or_eq_false_iff]
  constructor
  · rw [isDecimal, decimalValue?, Option.isSome_map, Option.isSome_eq_false_iff,
      Option.isNone_iff_eq_none, List.find?_eq_none]
    intro start hstart
    have hstart := hapart.1 start hstart
    simp only [Bool.or_eq_true, Bool.and_eq_true, decide_eq_true_eq, Nat.blt_eq,
      Nat.ble_eq] at hstart ⊢
    omega
  · rw [← Bool.not_eq_true]
    intro hother
    rcases exists_mem_of_inRanges hother with ⟨other, hmem, hother⟩
    have hother := hapart.2 other hmem
    simp only [Bool.or_eq_true, Nat.blt_eq] at hother
    omega

theorem isWordChar_of_isDecimal {c : Char} (h : isDecimal c = true) : isWordChar c = true := by
  simp [isWordChar, isDigit, h]

/-- A name begins with a letter or an underscore and goes on with letters, digits and
underscores. -/
theorem isName_iff {name : String} :
    IsName name ↔
      name.toList.head?.any (fun c => isLetter c || c == '_') = true ∧
        (forall c, c ∈ name.toList -> isWordChar c = true) ∧ Keyword.ofWord? name = none := by
  constructor
  · intro h
    refine ⟨?_, h.word, h.notKeyword⟩
    rcases h.exists_eq_cons with ⟨c, rest, hname, hdigit⟩
    have hc := h.word c (by simp [hname])
    rw [isWordChar, hdigit, Bool.false_or] at hc
    simpa [hname] using hc
  · rintro ⟨hbegins, hword, hkeyword⟩
    refine ⟨?_, hword, hkeyword⟩
    cases hname : name.toList with
    | nil => simp [hname] at hbegins
    | cons c rest =>
        have hunderscore : isDigit '_' = false := by decide +kernel
        simp only [hname, List.head?_cons, Option.any_some, Bool.or_eq_true, beq_iff_eq] at hbegins
        rcases hbegins with hletter | rfl
        · simp [isDigit_of_isLetter hletter]
        · simp [hunderscore]

/-!
# Reading a token that was written
-/

theorem span_of_all {p : Char -> Bool} {front rest : List Char}
    (h : forall c, c ∈ front -> p c = true) (hstop : forall c, rest.head? = some c -> p c = false) :
    (front ++ rest).takeWhile p = front ∧ (front ++ rest).dropWhile p = rest := by
  rw [List.takeWhile_append_of_pos h, List.dropWhile_append_of_pos h]
  cases rest with
  | nil => simp
  | cons c rest =>
      have hc := hstop c rfl
      simp [hc]

theorem eq_append_of_span (p : Char -> Bool) (text : List Char) :
    text = text.takeWhile p ++ text.dropWhile p ∧
      (forall c, c ∈ text.takeWhile p -> p c = true) ∧
        forall c, (text.dropWhile p).head? = some c -> p c = false := by
  refine ⟨List.takeWhile_append_dropWhile.symm, ?_, ?_⟩
  · intro c hc
    exact List.all_eq_true.mp List.all_takeWhile c hc
  · intro c hc
    have hhead := List.head?_dropWhile_not p text
    rw [hc] at hhead
    simpa using hhead

/-- A word that begins with no digit is read as a keyword or as a name. -/
theorem readLexeme_of_word {word : String} {c : Char} {others rest : List Char}
    (hword : word.toList = c :: others) (hdigit : isDigit c = false)
    (hall : forall c, c ∈ word.toList -> isWordChar c = true)
    (hstop : forall c, rest.head? = some c -> isWordChar c = false) :
    readLexeme (word.toList ++ rest) = .ok (some (tokenOfWord word)) rest := by
  have hread : readWord (word.toList ++ rest) = .ok word rest := by
    rcases span_of_all hall hstop with ⟨htake, hdrop⟩
    unfold readWord
    rw [htake, hdrop, String.ofList_toList]
  have hc : isWordChar c = true := hall c (by simp [hword])
  have hquote := ne_of_isWordChar hc (d := doubleQuote) (by decide +kernel)
  have hletter : (isLetter c || c == '_') = true := by
    simpa [isWordChar, hdigit] using hc
  rw [hword, List.cons_append] at hread ⊢
  unfold readLexeme
  simp only [hquote, if_false, ofChar?_of_isWordChar hc, hdigit, Bool.false_eq_true, hletter,
    if_true, hread]

theorem valueOfDigits_eq_ok_iff {digits : List Char} {value : Nat} :
    valueOfDigits digits = .ok value ↔
      digits ≠ [] ∧ (forall c, c ∈ digits -> isDecimal c = true) ∧ digits.length ≤ numeralLimit ∧
        numeralValue digits = value := by
  have htake : (forall c, c ∈ digits -> isDecimal c = true) ->
      digits.takeWhile isDecimal = digits := by
    intro h
    have hspan : (digits ++ []).takeWhile isDecimal = digits ++ [].takeWhile isDecimal :=
      List.takeWhile_append_of_pos h
    simpa using hspan
  unfold valueOfDigits
  simp only
  constructor
  · intro h
    split at h
    · cases h
    · next hlimit =>
        split at h
        · cases h
        · next hform =>
            cases h
            rw [not_or, Nat.not_lt] at hform
            have hfront : digits.takeWhile isDecimal <+: digits := List.takeWhile_prefix _
            have hwhole := hfront.eq_of_length_le hform.2
            rw [hwhole, Nat.not_lt] at hlimit
            refine ⟨hform.1, ?_, hlimit, rfl⟩
            rw [← hwhole]
            exact (eq_append_of_span isDecimal digits).2.1
  · rintro ⟨hnil, hdecimal, hlimit, hvalue⟩
    rw [htake hdecimal, if_neg (Nat.not_lt.mpr hlimit), if_neg (by simp [hnil]), hvalue]

theorem readInteger_eq_ok_iff {text rest : List Char} {digits : String} :
    readInteger text = .ok digits rest ↔
      text = digits.toList ++ rest ∧ IsNumeral digits ∧
        forall c, rest.head? = some c -> isDigit c = false := by
  constructor
  · intro h
    rcases eq_append_of_span isDigit text with ⟨htext, _, hstop⟩
    unfold readInteger at h
    simp only at h
    split at h
    · cases h
    · next value hvalue =>
        split at h
        · cases h
        · next hrange =>
            cases h
            rcases valueOfDigits_eq_ok_iff.mp hvalue with ⟨hnil, hdecimal, hlimit, rfl⟩
            rw [String.toList_ofList]
            refine ⟨htext, ?_, hstop⟩
            constructor
            · rwa [String.toList_ofList]
            · rwa [String.toList_ofList]
            · rwa [String.toList_ofList]
            · rw [Token.integerValue, String.toList_ofList]
              exact Nat.not_lt.mp hrange
  · rintro ⟨rfl, h, hstop⟩
    have hdigit : forall c, c ∈ digits.toList -> isDigit c = true := by
      intro c hc
      simp [isDigit, h.decimal c hc]
    rcases span_of_all hdigit hstop with ⟨htake, hdrop⟩
    have hvalue := valueOfDigits_eq_ok_iff.mpr ⟨h.nonempty, h.decimal, h.length_le, rfl⟩
    have hrange : ¬ largestInteger < numeralValue digits.toList := Nat.not_lt.mpr h.value_le
    unfold readInteger
    simp only [htake, hdrop, hvalue, hrange, if_false, String.ofList_toList]

theorem readLexeme_of_numeral {digits : String} {rest : List Char} (h : IsNumeral digits)
    (hstop : forall c, rest.head? = some c -> isDigit c = false) :
    readLexeme (digits.toList ++ rest) = .ok (some (.integer digits)) rest := by
  have hread := readInteger_eq_ok_iff.mpr ⟨rfl, h, hstop⟩
  cases hdigits : digits.toList with
  | nil => exact absurd hdigits h.nonempty
  | cons c others =>
      have hdecimal : isDecimal c = true := h.decimal c (by simp [hdigits])
      have hc := isWordChar_of_isDecimal hdecimal
      have hdigit : isDigit c = true := by simp [isDigit, hdecimal]
      have hquote := ne_of_isWordChar hc (d := doubleQuote) (by decide +kernel)
      rw [hdigits, List.cons_append] at hread
      rw [List.cons_append]
      unfold readLexeme
      simp only [hquote, if_false, ofChar?_of_isWordChar hc, hdigit, if_true, hread]

theorem readString_eq_ok_iff {body rest : List Char} {text : String} :
    readString (doubleQuote :: body) = .ok text rest ↔
      body = text.toList ++ doubleQuote :: rest ∧
        forall c, c ∈ text.toList -> inString c = true := by
  unfold readString
  simp only [List.drop_succ_cons, List.drop_zero]
  constructor
  · intro h
    rcases eq_append_of_span inString body with ⟨hbody, hall, hstop⟩
    split at h
    · cases h
    · next c after hdrop =>
        split at h
        · cases h
        · next hfeed =>
            cases h
            have hquote : c = doubleQuote := by
              simpa [inString, hfeed] using hstop c (by rw [hdrop]; rfl)
            rw [hdrop, hquote] at hbody
            rw [String.toList_ofList]
            exact ⟨hbody, hall⟩
  · rintro ⟨rfl, hall⟩
    have hstop : forall c, (doubleQuote :: rest).head? = some c -> inString c = false := by
      intro c hc
      cases hc
      decide
    rcases span_of_all hall hstop with ⟨htake, hdrop⟩
    simp only [htake, hdrop]
    rw [if_neg (by decide), String.ofList_toList]

theorem word_keyword (k : Keyword) :
    (exists c rest, k.word.toList = c :: rest ∧ isDigit c = false) ∧
      forall c, c ∈ k.word.toList -> isWordChar c = true := by
  have hall : k.word.toList.all isWordChar = true := by cases k <;> decide +kernel
  refine ⟨?_, List.all_eq_true.mp hall⟩
  cases k <;> exact ⟨_, _, rfl, by decide +kernel⟩

namespace Token

theorem readLexeme_spelling {token : Token} {rest : List Char} (h : token.IsLexeme)
    (hends : token.EndsBefore rest) :
    readLexeme (token.spelling ++ rest) = .ok (some token) rest := by
  cases token with
  | keyword k =>
      rcases word_keyword k with ⟨⟨c, others, hword, hdigit⟩, hall⟩
      have hread := readLexeme_of_word hword hdigit hall hends
      rwa [tokenOfWord, Keyword.ofWord?_word] at hread
  | symbol s =>
      have hquote : s.char ≠ doubleQuote := by cases s <;> decide
      unfold spelling readLexeme
      simp only [List.cons_append, List.nil_append, hquote, if_false, Symbol.ofChar?_char]
  | identifier name =>
      rcases h.exists_eq_cons with ⟨c, others, hword, hdigit⟩
      have hread := readLexeme_of_word hword hdigit h.word hends
      rwa [tokenOfWord, h.notKeyword] at hread
  | integer digits => exact readLexeme_of_numeral h hends
  | string text =>
      have hread : readString (doubleQuote :: (text.toList ++ doubleQuote :: rest)) =
          .ok text rest := readString_eq_ok_iff.mpr ⟨rfl, fun c hc => (h c hc).1⟩
      unfold readLexeme
      simp only [spelling, List.cons_append, List.append_assoc, List.nil_append, if_true, hread]

/-- A token begins with no blank, and a symbol is a token by itself. -/
theorem exists_spelling_eq_cons {token : Token} (h : token.IsLexeme) :
    exists c others, token.spelling = c :: others ∧ isBlank c = false ∧
      forall s : Symbol, c = s.char -> token = .symbol s := by
  have hword : forall {c : Char}, isWordChar c = true -> forall s : Symbol, c = s.char ->
      token = .symbol s := fun hc s hchar =>
    absurd hchar (ne_of_isWordChar hc (isWordChar_symbol s))
  cases token with
  | keyword k =>
      rcases word_keyword k with ⟨⟨c, others, hspelling, _⟩, hall⟩
      have hc := hall c (by simp [hspelling])
      exact ⟨c, others, hspelling, isBlank_of_isWordChar hc, hword hc⟩
  | symbol s =>
      refine ⟨s.char, [], rfl, ?_, ?_⟩
      · cases s <;> decide
      · intro t hchar
        rw [Symbol.char_injective hchar]
  | identifier name =>
      rcases h.exists_eq_cons with ⟨c, others, hspelling, _⟩
      have hc := h.word c (by simp [hspelling])
      exact ⟨c, others, hspelling, isBlank_of_isWordChar hc, hword hc⟩
  | integer digits =>
      cases hspelling : digits.toList with
      | nil => exact absurd hspelling h.nonempty
      | cons c others =>
          have hc := isWordChar_of_isDecimal (h.decimal c (by simp [hspelling]))
          exact ⟨c, others, hspelling, isBlank_of_isWordChar hc, hword hc⟩
  | string text =>
      refine ⟨doubleQuote, _, rfl, by decide, ?_⟩
      intro s hchar
      cases s <;> exact absurd hchar (by decide)

theorem ne_return_of_mem_spelling {token : Token} (h : token.IsLexeme) {c : Char}
    (hc : c ∈ token.spelling) : c ≠ '\r' := by
  have hreturn : isWordChar '\r' = false := by decide +kernel
  cases token with
  | keyword k => exact ne_of_isWordChar ((word_keyword k).2 c hc) hreturn
  | symbol s =>
      rw [List.mem_singleton.mp hc]
      cases s <;> decide
  | identifier name => exact ne_of_isWordChar (h.word c hc) hreturn
  | integer digits => exact ne_of_isWordChar (isWordChar_of_isDecimal (h.decimal c hc)) hreturn
  | string text =>
      simp only [spelling, List.mem_cons, List.mem_append, List.not_mem_nil, or_false] at hc
      rcases hc with hc | hc | hc
      · rw [hc]
        decide
      · exact (h c hc).2
      · rw [hc]
        decide

theorem endsBefore_slash_iff {rest : List Char} :
    (symbol .slash).EndsBefore rest ↔ opensComment rest = false := by
  cases rest with
  | nil => simp [EndsBefore, opensComment]
  | cons c rest => simp [EndsBefore, goesOnWith, opensComment]

/-- No layout begins with a token. -/
theorem skipLayout_spelling {token : Token} {rest : List Char} (h : token.IsLexeme)
    (hends : token.EndsBefore rest) :
    skipLayout (token.spelling ++ rest) = .ok () (token.spelling ++ rest) := by
  rcases exists_spelling_eq_cons h with ⟨c, others, hspelling, hblank, hslash⟩
  have hcomment : ¬ (c = '/' ∧ opensComment (others ++ rest) = true) := by
    rintro ⟨rfl, hopens⟩
    have htoken := hslash .slash rfl
    subst htoken
    cases hspelling
    rw [List.nil_append, endsBefore_slash_iff.mp hends] at hopens
    cases hopens
  rw [hspelling, List.cons_append, skipLayout]
  simp only [hblank, Bool.false_eq_true, if_false, hcomment]

/-!
# The form of a token that was read
-/

/-- A word was read as a keyword or as a name. -/
theorem exists_of_readWord {c : Char} (behind : List Char) (hdigit : isDigit c = false)
    (hletter : (isLetter c || c == '_') = true) :
    exists word rest, readWord (c :: behind) = .ok word rest ∧
      c :: behind = (tokenOfWord word).spelling ++ rest ∧ (tokenOfWord word).IsLexeme ∧
        (tokenOfWord word).EndsBefore rest := by
  rcases eq_append_of_span isWordChar (c :: behind) with ⟨htext, hall, hstop⟩
  refine ⟨_, _, rfl, ?_⟩
  unfold tokenOfWord
  split
  · next k hword =>
      have hk := List.find?_some hword
      rw [beq_iff_eq] at hk
      refine ⟨?_, trivial, hstop⟩
      rw [spelling, hk, String.toList_ofList]
      exact htext
  · next hword =>
      have hc : isWordChar c = true := by
        rw [isWordChar, Bool.or_assoc, hletter, Bool.or_true]
      refine ⟨by rw [spelling, String.toList_ofList]; exact htext, ?_, hstop⟩
      constructor
      · simp [List.takeWhile_cons_of_pos hc, hdigit]
      · rwa [String.toList_ofList]
      · exact hword

theorem exists_of_readLexeme {text rest : List Char} {token : Token} (hreturn : '\r' ∉ text)
    (hskip : skipLayout text = .ok () text) (h : readLexeme text = .ok (some token) rest) :
    text = token.spelling ++ rest ∧ token.IsLexeme ∧ token.EndsBefore rest := by
  unfold readLexeme at h
  split at h
  · cases h
  · next c behind =>
      split at h
      · next hquote =>
          subst hquote
          split at h
          · next string after hread =>
              cases h
              rcases readString_eq_ok_iff.mp hread with ⟨rfl, hall⟩
              refine ⟨by simp [spelling], ?_, fun _ _ => rfl⟩
              intro c hc
              refine ⟨hall c hc, ?_⟩
              rintro rfl
              exact hreturn (by simp [hc])
          · cases h
      · split at h
        · next sign hsign =>
            cases h
            have hchar : sign.char = c := by simpa using List.find?_some hsign
            subst hchar
            refine ⟨rfl, trivial, ?_⟩
            by_cases hslash : sign = .slash
            · subst hslash
              exact endsBefore_slash_iff.mpr (opensComment_of_skipLayout hskip)
            · intro c _
              simp [goesOnWith, hslash]
        · next hsign =>
            split at h
            · next hdigit =>
                split at h
                · next digits after hread =>
                    cases h
                    exact readInteger_eq_ok_iff.mp hread
                · cases h
            · next hdigit =>
                split at h
                · next hletter =>
                    rcases exists_of_readWord behind (by simpa using hdigit) hletter with
                      ⟨word, after, hread, hform⟩
                    simp only [hread] at h
                    cases h
                    exact hform
                · cases h

/-- A token is read exactly if it stands behind layout in its written form, with nothing
behind it that would be read as a part of it. -/
theorem readToken_eq_some_iff {text rest : List Char} {token : Token} (hreturn : '\r' ∉ text) :
    readToken text = .ok (some token) rest ↔
      exists gap, IsLayout gap ∧ text = gap ++ (token.spelling ++ rest) ∧ token.IsLexeme ∧
        token.EndsBefore rest := by
  unfold readToken
  constructor
  · intro h
    rcases exists_of_skipLayout hreturn with ⟨gap, after, rfl, hgap, hskip, hafter | herror⟩
    · rw [hskip, hafter] at h
      have hbehind : '\r' ∉ after := fun hmem => hreturn (List.mem_append_right _ hmem)
      rcases exists_of_readLexeme hbehind hafter h with ⟨rfl, hform⟩
      exact ⟨gap, hgap, rfl, hform⟩
    · rcases herror with ⟨_, _, _, _, _, herror⟩
      rw [hskip, herror] at h
      cases h
  · rintro ⟨gap, hgap, rfl, hlexeme, hends⟩
    have hfront : '\r' ∉ gap := fun hmem => hreturn (List.mem_append_left _ hmem)
    rw [hgap.skip hfront, skipLayout_spelling hlexeme hends]
    exact readLexeme_spelling hlexeme hends

end Token

theorem readLexeme_eq_none_iff {text rest : List Char} :
    readLexeme text = .ok none rest ↔ text = [] ∧ rest = [] := by
  constructor
  · intro h
    unfold readLexeme at h
    split at h
    · cases h
      exact ⟨rfl, rfl⟩
    · repeat' split at h
      all_goals cases h
  · rintro ⟨rfl, rfl⟩
    rfl

/-- No token is read exactly if all of the text is layout. -/
theorem readToken_eq_none_iff {text rest : List Char} (hreturn : '\r' ∉ text) :
    readToken text = .ok none rest ↔ IsLayout text ∧ rest = [] := by
  unfold readToken
  constructor
  · intro h
    rcases exists_of_skipLayout hreturn with ⟨gap, after, rfl, hgap, hskip, hafter | herror⟩
    · rw [hskip, hafter] at h
      rcases readLexeme_eq_none_iff.mp h with ⟨rfl, rfl⟩
      exact ⟨by rwa [List.append_nil], rfl⟩
    · rcases herror with ⟨_, _, _, _, _, herror⟩
      rw [hskip, herror] at h
      cases h
  · rintro ⟨hlayout, rfl⟩
    have hskip := hlayout.skip hreturn []
    rw [List.append_nil] at hskip
    rw [hskip, skipLayout]
    rfl

theorem not_mem_of_readToken {text rest : List Char} {token : Option Token}
    (hreturn : '\r' ∉ text) (h : readToken text = .ok token rest) : '\r' ∉ rest := by
  cases token with
  | none =>
      rw [((readToken_eq_none_iff hreturn).mp h).2]
      exact List.not_mem_nil
  | some token =>
      rcases (Token.readToken_eq_some_iff hreturn).mp h with ⟨gap, _, rfl, _⟩
      simp only [List.mem_append, not_or] at hreturn
      exact hreturn.2.2

end Jack
