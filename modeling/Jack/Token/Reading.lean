import Jack.Fault
import Jack.Text.Letter

/-!
# Reading tokens

Readers take characters from the front of a text.  A reader that fails leaves
the characters it has not taken yet, and reading can go on from there.

Blanks and comments form the layout of a text.  They are skipped before every
token.  The main statements say that a token takes at least one character, so
that reading a whole text comes to an end.
-/

namespace Jack

abbrev Reading := EStateM Fault (List Char)

namespace Reading

open Text

/-!
# Single characters
-/

def isBlank (c : Char) : Bool :=
  c == ' ' || c == '\r' || c == '\n' || c == '\t'

/-- The characters a word goes on with. -/
def isWordChar (c : Char) : Bool :=
  isDigit c || isLetter c || c == '_'

/-- Take the next character, if there is one. -/
def readChar : Reading (Option Char)
  | [] => .ok none []
  | c :: rest => .ok (some c) rest

/-- Look at the next character and take nothing. -/
def peekChar : Reading (Option Char) :=
  fun text => .ok text.head? text

def skipBlanks : Reading Unit :=
  fun text => .ok () (text.dropWhile isBlank)

/-!
# Comments
-/

/-- What follows the first line end. -/
def afterLine : List Char -> Option (List Char)
  | [] => none
  | c :: rest => if c = '\n' then some rest else afterLine rest

/-- What follows the first star with a slash behind it. -/
def afterBlock : List Char -> Option (List Char)
  | [] => none
  | [_] => none
  | c :: d :: rest =>
      if c = '*' ∧ d = '/' then some rest else afterBlock (d :: rest)

/-- Take a comment whose first slash has been taken.  A line comment with no
line end after it is never done. -/
def readComment : Reading Unit
  | [] => .error .noComment []
  | c :: rest =>
      if c = '/' then
        match afterLine rest with
        | some after => .ok () after
        | none => .error .endless []
      else if c = '*' then
        match afterBlock rest with
        | some after => .ok () after
        | none => .error .unclosedComment []
      else .error .noComment rest

theorem length_lt_of_afterLine {text after : List Char}
    (h : afterLine text = some after) : after.length < text.length := by
  induction text with
  | nil => simp [afterLine] at h
  | cons c rest ih =>
      unfold afterLine at h
      split at h
      · cases h
        simp
      · have := ih h
        simp only [List.length_cons]
        omega

theorem length_lt_of_afterBlock {text after : List Char}
    (h : afterBlock text = some after) : after.length < text.length := by
  fun_induction afterBlock text with
  | case1 => cases h
  | case2 => cases h
  | case3 c d rest hclose =>
      cases h
      simp only [List.length_cons]
      omega
  | case4 c d rest hclose ih =>
      have := ih h
      simp only [List.length_cons] at this ⊢
      omega

theorem length_lt_of_readComment {text after : List Char}
    (h : readComment text = .ok () after) : after.length < text.length := by
  unfold readComment at h
  split at h
  · cases h
  · split at h
    · split at h
      · next hline =>
          cases h
          have := length_lt_of_afterLine hline
          simp only [List.length_cons]
          omega
      · cases h
    · split at h
      · split at h
        · next hblock =>
            cases h
            have := length_lt_of_afterBlock hblock
            simp only [List.length_cons]
            omega
        · cases h
      · cases h

/-!
# Layout
-/

/-- A slash opens a comment if one of these stands behind it. -/
def opensComment (rest : List Char) : Bool :=
  rest.head? == some '/' || rest.head? == some '*'

/-- Take blanks and comments up to the first character of a token. -/
def skipLayout (text : List Char) : EStateM.Result Fault (List Char) Unit :=
  match text with
  | [] => .ok () []
  | c :: rest =>
      if isBlank c then skipLayout rest
      else if c = '/' ∧ opensComment rest then
        match _h : readComment rest with
        | .ok () after => skipLayout after
        | .error fault after => .error fault after
      else .ok () (c :: rest)
termination_by text.length
decreasing_by
  · simp
  · have := length_lt_of_readComment _h
    simp only [List.length_cons]
    omega

theorem length_le_of_skipLayout {text after : List Char}
    (h : skipLayout text = .ok () after) : after.length ≤ text.length := by
  fun_induction skipLayout text with
  | case1 =>
      cases h
      simp
  | case2 c rest hblank ih =>
      have := ih h
      simp only [List.length_cons]
      omega
  | case3 c rest hblank hcomment behind hread ih =>
      have := ih h
      have := length_lt_of_readComment hread
      simp only [List.length_cons]
      omega
  | case4 => cases h
  | case5 =>
      cases h
      simp

/-!
# Words and constants
-/

/-- Take a word: letters, digits and underscores. -/
def readWord : Reading String :=
  fun text =>
    .ok (String.ofList (text.takeWhile isWordChar)) (text.dropWhile isWordChar)

def inString (c : Char) : Bool :=
  !(c == doubleQuote || c == '\n')

/-- Take a string constant.  The first character is passed over whatever it is;
the constant ends at a double quote.  With neither a quote nor a line end ahead
it is never done. -/
def readString : Reading String :=
  fun text =>
    let body := text.drop 1
    match body.dropWhile inString with
    | [] => .error .endless []
    | c :: rest =>
        if c = '\n' then .error .brokenString rest
        else .ok (String.ofList (body.takeWhile inString)) rest

/-- The value of a run of digits.  The length of its decimal part is looked at
before its form. -/
def valueOfDigits (digits : List Char) : Except Fault Nat :=
  let decimals := digits.takeWhile isDecimal
  if numeralLimit < decimals.length then .error (.longNumeral decimals.length)
  else if digits = [] ∨ decimals.length < digits.length then
    .error (.noNumeral (String.ofList digits))
  else .ok (numeralValue digits)

/-- The largest integer constant. -/
def largestInteger : Nat := 32767

/-- Take an integer constant. -/
def readInteger : Reading String :=
  fun text =>
    let digits := text.takeWhile isDigit
    let rest := text.dropWhile isDigit
    match valueOfDigits digits with
    | .error fault => .error fault rest
    | .ok value =>
        if largestInteger < value then .error (.largeInteger value) rest
        else .ok (String.ofList digits) rest

/-!
# Tokens
-/

/-- A word is a keyword or else an identifier. -/
def tokenOfWord (word : String) : Token :=
  match Keyword.ofWord? word with
  | some k => .keyword k
  | none => .identifier word

/-- Take the token that stands at the front of a text. -/
def readLexeme : Reading (Option Token)
  | [] => .ok none []
  | c :: rest =>
      if c = doubleQuote then
        match readString (c :: rest) with
        | .ok text after => .ok (some (.string text)) after
        | .error fault after => .error fault after
      else
        match Symbol.ofChar? c with
        | some sign => .ok (some (.symbol sign)) rest
        | none =>
            if isDigit c then
              match readInteger (c :: rest) with
              | .ok digits after => .ok (some (.integer digits)) after
              | .error fault after => .error fault after
            else if isLetter c || c == '_' then
              match readWord (c :: rest) with
              | .ok word after => .ok (some (tokenOfWord word)) after
              | .error fault after => .error fault after
            else .error (.badCharacter c) (c :: rest)

/-- Take the next token, or nothing at the end of the text. -/
def readToken : Reading (Option Token) :=
  fun text =>
    match skipLayout text with
    | .ok () after => readLexeme after
    | .error fault after => .error fault after

theorem length_dropWhile_lt {p : Char -> Bool} {c : Char} {rest : List Char}
    (hc : p c = true) : ((c :: rest).dropWhile p).length < (c :: rest).length := by
  rw [List.dropWhile_cons_of_pos hc, List.length_cons]
  have := (List.dropWhile_suffix (l := rest) p).length_le
  omega

theorem length_lt_of_readString {c : Char} {rest after : List Char} {text : String}
    (h : readString (c :: rest) = .ok text after) :
    after.length < (c :: rest).length := by
  have hle := (List.dropWhile_suffix (l := rest) inString).length_le
  unfold readString at h
  simp only [List.drop_succ_cons, List.drop_zero] at h
  split at h
  · cases h
  · next hdrop =>
      split at h
      · cases h
      · cases h
        rw [hdrop] at hle
        simp only [List.length_cons] at hle ⊢
        omega

theorem after_of_readInteger {text after : List Char} {digits : String}
    (h : readInteger text = .ok digits after) : after = text.dropWhile isDigit := by
  unfold readInteger at h
  simp only at h
  split at h
  · cases h
  · split at h
    · cases h
    · cases h
      rfl

theorem length_lt_of_readLexeme {text after : List Char} {token : Token}
    (h : readLexeme text = .ok (some token) after) :
    after.length < text.length := by
  unfold readLexeme at h
  split at h
  · cases h
  · next c rest =>
      split at h
      · split at h
        · next hstring =>
            cases h
            exact length_lt_of_readString hstring
        · cases h
      · split at h
        · cases h
          simp
        · split at h
          · next hdigit =>
              split at h
              · next hinteger =>
                  cases h
                  rw [after_of_readInteger hinteger]
                  exact length_dropWhile_lt hdigit
              · cases h
          · split at h
            · next hword =>
                have hchar : isWordChar c = true := by
                  unfold isWordChar
                  cases hdigit : isDigit c with
                  | true => rfl
                  | false => simpa using hword
                unfold readWord at h
                cases h
                exact length_dropWhile_lt hchar
            · cases h

theorem length_lt_of_readToken {text after : List Char} {token : Token}
    (h : readToken text = .ok (some token) after) :
    after.length < text.length := by
  unfold readToken at h
  split at h
  · next hskip =>
      have := length_le_of_skipLayout hskip
      have := length_lt_of_readLexeme h
      omega
  · cases h

end Reading

end Jack
