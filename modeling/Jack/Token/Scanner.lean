import Jack.Text.Lines
import Jack.Token.Reading

/-!
# Scanners

A scanner stands on one token of a text and has read the next one already.  It
closes its source when it meets the end.  When reading ahead fails, the scanner
has moved on, and the token ahead stays as it was.
-/

namespace Jack

structure Scanner where
  /-- The characters not yet read. -/
  rest : List Char
  isOpen : Bool := true
  current : Option Token := none
  next : Option Token := none

abbrev ScanM := EStateM Fault Scanner

namespace Scanner

/-!
# Moving
-/

/-- Run a reader on the unread characters of an open source. -/
def reading (reader : Reading α) : ScanM α :=
  fun s =>
    if s.isOpen then
      match reader s.rest with
      | .ok a rest => .ok a { s with rest := rest }
      | .error fault rest => .error fault { s with rest := rest }
    else .error .closedSource s

/-- Read the token ahead.  At the end of the text there is none, and the source
is closed. -/
def lookAhead : ScanM Unit :=
  fun s =>
    match reading Reading.readToken s with
    | .ok token s => .ok () { s with next := token, isOpen := token.isSome }
    | .error fault s => .error fault s

/-- Make the token ahead the current one, then read the one behind it. -/
def advance : ScanM Unit :=
  fun s =>
    match s.next with
    | none => .error .noMoreTokens s
    | some token => lookAhead { s with current := some token }

def hasNext (s : Scanner) : Bool :=
  s.next.isSome

/-- A scanner before the first token of a text. -/
def ofText (text : String) : Except Fault Scanner :=
  match lookAhead { rest := Text.foldLineEnds text.toList } with
  | .ok () s => .ok s
  | .error fault _ => .error fault

/-!
# The current token
-/

def kind? (s : Scanner) : Option Token.Kind :=
  s.current.map Token.kind

def keyword (s : Scanner) : Except Fault Keyword :=
  match s.current with
  | some (.keyword k) => .ok k
  | _ => .error (.otherKind .keyword)

def symbol (s : Scanner) : Except Fault Symbol :=
  match s.current with
  | some (.symbol sign) => .ok sign
  | _ => .error (.otherKind .symbol)

def identifier (s : Scanner) : Except Fault String :=
  match s.current with
  | some (.identifier name) => .ok name
  | _ => .error (.otherKind .identifier)

def integer (s : Scanner) : Except Fault Nat :=
  match s.current with
  | some (.integer digits) => .ok (Token.integerValue digits)
  | _ => .error (.otherKind .integer)

/-- The text of a string constant as it stands in markup. -/
def string (s : Scanner) : Except Fault String :=
  match s.current with
  | some (.string text) => .ok (Text.escape text)
  | _ => .error (.otherKind .string)

/-!
# All tokens

Every move shortens what is left, so the tokens of a text can be listed.
-/

/-- The unread characters, and one more for the token ahead. -/
def left (s : Scanner) : Nat :=
  s.rest.length + (if s.next.isSome then 1 else 0)

theorem left_le_of_lookAhead {s s' : Scanner} (h : lookAhead s = .ok () s') :
    s'.left ≤ s.rest.length := by
  unfold lookAhead reading at h
  split at h
  · next token s1 hread =>
      cases h
      split at hread
      · split at hread
        · next hok =>
            cases hread
            cases token with
            | none =>
                unfold Reading.readToken at hok
                split at hok
                · next hskip =>
                    have hrest := Reading.length_le_of_skipLayout hskip
                    unfold Reading.readLexeme at hok
                    split at hok
                    · cases hok
                      simp [left]
                    · repeat' split at hok
                      all_goals cases hok
                · cases hok
            | some token =>
                have := Reading.length_lt_of_readToken hok
                simp only [left, Option.isSome_some, if_true]
                omega
        · cases hread
      · cases hread
  · cases h

/-- The tokens ahead, and the fault that ends them, if one does.  A token counts
once the one behind it could be read. -/
def tokens (s : Scanner) : List Token × Option Fault :=
  match _hnext : s.next with
  | none => ([], none)
  | some token =>
      match _hlook : lookAhead { s with current := some token } with
      | .error fault _ => ([], some fault)
      | .ok () s' =>
          let following := s'.tokens
          (token :: following.1, following.2)
termination_by s.left
decreasing_by
  have := left_le_of_lookAhead _hlook
  simp only [left, _hnext, Option.isSome_some, if_true] at this ⊢
  omega

end Scanner

/-- The tokens of a text, and the fault that ends them, if one does. -/
def tokenize (text : String) : List Token × Option Fault :=
  match Scanner.ofText text with
  | .ok s => s.tokens
  | .error fault => ([], some fault)

end Jack
