import Jack.Proofs.Replacement
import Jack.Text.Markup

/-!
# Escaping and back

Text is escaped character by character.  The same comes of three replacements in a row, of
ampersands first and of angle brackets then, although each of them goes over what the one before
has written.  Three replacements the other way round, with the ampersand as the last one, give
the text back.
-/

namespace Jack
namespace Text

/-!
# Escaping some of the characters
-/

/-- The characters that are written as entities. -/
def markupChars : List Char := ['&', '<', '>']

def escapeOnly (chosen : List Char) (c : Char) : List Char :=
  if c ∈ chosen then escapeChar c else [c]

/-- Escape only some of the characters of markup. -/
def escapeSome (chosen : List Char) (text : String) : String :=
  String.ofList (text.toList.flatMap (escapeOnly chosen))

theorem escapeSome_nil (text : String) : escapeSome [] text = text := by
  have hsingle : text.toList.flatMap (escapeOnly []) = text.toList := List.flatMap_singleton' _
  rw [escapeSome, hsingle, String.ofList_toList]

theorem escapeChar_of_not_mem {c : Char} (h : c ∉ markupChars) : escapeChar c = [c] := by
  simp only [markupChars, List.mem_cons, List.not_mem_nil, or_false, not_or] at h
  rw [escapeChar, if_neg h.1, if_neg h.2.1, if_neg h.2.2]

theorem escapeSome_markupChars (text : String) : escapeSome markupChars text = escape text := by
  have hsame : escapeOnly markupChars = escapeChar := by
    funext c
    by_cases h : c ∈ markupChars
    · rw [escapeOnly, if_pos h]
    · rw [escapeOnly, if_neg h, escapeChar_of_not_mem h]
  rw [escapeSome, hsame, escape]

/-!
# One replacement
-/

/-- What a replacement has to do on a character, escaped or not.  The whole of it is an
occurrence of the pattern and becomes the replacement, or the pattern does not begin in it. -/
def Turns (pattern replacement : List Char) (before after : List Char) (c : Char) : Prop :=
  escapeOnly before c = pattern ∧ escapeOnly after c = replacement ∨
    escapeOnly before c = escapeOnly after c ∧ Apart pattern (escapeOnly before c)

instance (pattern replacement before after : List Char) (c : Char) :
    Decidable (Turns pattern replacement before after c) :=
  inferInstanceAs (Decidable (_ ∨ _))

theorem Turns.becomes {pattern replacement before after : List Char} {c : Char}
    (h : Turns pattern replacement before after c) (hpattern : pattern ≠ []) :
    Becomes pattern replacement (escapeOnly before c) (escapeOnly after c) := by
  rcases h with ⟨hbefore, hafter⟩ | ⟨hsame, hapart⟩
  · rw [hbefore, hafter]
    exact Becomes.occurrence hpattern
  · rw [← hsame]
    exact Becomes.unchanged hapart

/-- A pattern that begins with a character of markup does not touch other characters. -/
theorem turns_of_not_mem {first : Char} {tail replacement before after : List Char} {c : Char}
    (hfirst : first ∈ markupChars) (hbefore : before ⊆ markupChars) (hafter : after ⊆ markupChars)
    (hc : c ∉ markupChars) : Turns (first :: tail) replacement before after c := by
  have hne : first ≠ c := fun heq => hc (heq ▸ hfirst)
  rw [Turns, escapeOnly, if_neg (fun hmem => hc (hbefore hmem)), escapeOnly,
    if_neg (fun hmem => hc (hafter hmem)), Apart, List.tails_cons, List.forall_mem_cons,
    List.cons_prefix_cons, List.cons_prefix_cons]
  exact Or.inr ⟨rfl, Or.inr ⟨fun hpre => hne hpre.1, fun hpre => hne hpre.1.symm⟩, by simp⟩

/-- A replacement that leads from escaping some characters of markup to escaping others.  Only
these characters have to be looked at. -/
def leads (pattern replacement : String) (before after : List Char) : Bool :=
  pattern.toList.head?.any (markupChars.contains ·) && before.all (markupChars.contains ·) &&
    after.all (markupChars.contains ·) &&
    markupChars.all fun c => decide (Turns pattern.toList replacement.toList before after c)

theorem replaceAll_escapeSome {pattern replacement : String} {before after : List Char}
    (h : leads pattern replacement before after = true) (text : String) :
    replaceAll pattern replacement (escapeSome before text) = escapeSome after text := by
  simp only [leads, Bool.and_eq_true, List.all_eq_true, List.contains_iff_mem,
    Option.any_eq_true, decide_eq_true_eq] at h
  rcases h with ⟨⟨⟨⟨first, hhead, hfirst⟩, hbefore⟩, hafter⟩, hturns⟩
  rcases List.head?_eq_some_iff.mp hhead with ⟨tail, htail⟩
  rw [htail] at hturns
  have hall : forall c, Turns (first :: tail) replacement.toList before after c := by
    intro c
    by_cases hc : c ∈ markupChars
    · exact hturns c hc
    · exact turns_of_not_mem hfirst hbefore hafter hc
  rw [replaceAll, escapeSome, String.toList_ofList, htail,
    Becomes.flatMap fun c => (hall c).becomes (List.cons_ne_nil _ _), escapeSome]

/-!
# Replacements in a row
-/

theorem escape_eq_replaceAll (text : String) :
    escape text =
      replaceAll ">" "&gt;" (replaceAll "<" "&lt;" (replaceAll "&" "&amp;" text)) := by
  have hamp : replaceAll "&" "&amp;" (escapeSome [] text) = escapeSome ['&'] text :=
    replaceAll_escapeSome (by decide) text
  have hless : replaceAll "<" "&lt;" (escapeSome ['&'] text) = escapeSome ['&', '<'] text :=
    replaceAll_escapeSome (by decide) text
  have hgreater : replaceAll ">" "&gt;" (escapeSome ['&', '<'] text) =
      escapeSome markupChars text := replaceAll_escapeSome (by decide) text
  rw [escapeSome_nil] at hamp
  rw [hamp, hless, hgreater, escapeSome_markupChars]

theorem replaceAll_escape (text : String) :
    replaceAll "&amp;" "&" (replaceAll "&gt;" ">" (replaceAll "&lt;" "<" (escape text))) =
      text := by
  have hless : replaceAll "&lt;" "<" (escapeSome markupChars text) =
      escapeSome ['&', '>'] text := replaceAll_escapeSome (by decide) text
  have hgreater : replaceAll "&gt;" ">" (escapeSome ['&', '>'] text) = escapeSome ['&'] text :=
    replaceAll_escapeSome (by decide) text
  have hamp : replaceAll "&amp;" "&" (escapeSome ['&'] text) = escapeSome [] text :=
    replaceAll_escapeSome (by decide) text
  rw [escapeSome_markupChars] at hless
  rw [hless, hgreater, hamp, escapeSome_nil]

theorem escape_append (text other : String) :
    escape (text ++ other) = escape text ++ escape other := by
  rw [escape, String.toList_append, List.flatMap_append, String.ofList_append, escape, escape]

/-!
# Characters of escaped text
-/

/-- The entities, as they stand in a text. -/
def entities : List String := ["&amp;", "&lt;", "&gt;"]

theorem not_mem_escapeChar {bracket : Char} (h : bracket = '<' ∨ bracket = '>') (c : Char) :
    bracket ∉ escapeChar c := by
  by_cases hc : c ∈ markupChars
  · simp only [markupChars, List.mem_cons, List.not_mem_nil, or_false] at hc
    rcases hc with rfl | rfl | rfl <;> rcases h with rfl | rfl <;> decide
  · rw [escapeChar_of_not_mem hc, List.mem_singleton]
    rintro rfl
    exact hc (by rcases h with rfl | rfl <;> decide)

theorem not_mem_escape {bracket : Char} (h : bracket = '<' ∨ bracket = '>') (text : String) :
    bracket ∉ (escape text).toList := by
  rw [escape, String.toList_ofList, List.mem_flatMap]
  rintro ⟨c, _, hc⟩
  exact not_mem_escapeChar h c hc

theorem exists_entity_of_mem {c : Char} (hc : c ∈ markupChars) :
    exists entity tail, entity ∈ entities ∧ escapeChar c = entity.toList ∧
      entity.toList = '&' :: tail ∧ '&' ∉ tail := by
  simp only [markupChars, List.mem_cons, List.not_mem_nil, or_false] at hc
  rcases hc with rfl | rfl | rfl
  · exact ⟨"&amp;", ['a', 'm', 'p', ';'], by decide⟩
  · exact ⟨"&lt;", ['l', 't', ';'], by decide⟩
  · exact ⟨"&gt;", ['g', 't', ';'], by decide⟩

theorem suffix_of_suffix_append {c : Char} {behind front back : List Char} (hc : c ∉ front)
    (h : c :: behind <:+ front ++ back) : c :: behind <:+ back := by
  induction front with
  | nil => exact h
  | cons d front ih =>
      rw [List.mem_cons, not_or] at hc
      rw [List.cons_append, List.suffix_cons_iff] at h
      rcases h with heq | hsuffix
      · exact absurd (List.cons.inj heq).1 hc.1
      · exact ih hc.2 hsuffix

/-- The induction is on the text.  An ampersand is the first character of what one character
was escaped to, or it stands in the rest. -/
theorem exists_entity_of_suffix {chars behind : List Char}
    (h : '&' :: behind <:+ chars.flatMap escapeChar) :
    exists entity, entity ∈ entities ∧ entity.toList <+: '&' :: behind := by
  induction chars with
  | nil => cases List.suffix_nil.mp h
  | cons c rest ih =>
      rw [List.flatMap_cons] at h
      by_cases hc : c ∈ markupChars
      · rcases exists_entity_of_mem hc with ⟨entity, tail, hmem, hescaped, hentity, htail⟩
        rw [hescaped, hentity, List.cons_append, List.suffix_cons_iff] at h
        rcases h with heq | hsuffix
        · refine ⟨entity, hmem, ?_⟩
          rw [heq, hentity, ← List.cons_append]
          exact List.prefix_append _ _
        · exact ih (suffix_of_suffix_append htail hsuffix)
      · rw [escapeChar_of_not_mem hc] at h
        apply ih
        apply suffix_of_suffix_append _ h
        rw [List.mem_singleton]
        rintro rfl
        exact hc (by decide)

/-- Escaping is three replacements in a row.  Escaped text has no angle brackets, and each of
its ampersands begins an entity.  Three replacements give the text back, so different texts are
escaped differently; and a text is escaped part by part. -/
theorem escape_faithful (text other : String) :
    escape text =
        replaceAll ">" "&gt;" (replaceAll "<" "&lt;" (replaceAll "&" "&amp;" text)) ∧
      '<' ∉ (escape text).toList ∧ '>' ∉ (escape text).toList ∧
      (forall behind, '&' :: behind <:+ (escape text).toList ->
        exists entity, entity ∈ entities ∧ entity.toList <+: '&' :: behind) ∧
      replaceAll "&amp;" "&" (replaceAll "&gt;" ">" (replaceAll "&lt;" "<" (escape text))) =
        text ∧
      (escape text = escape other ↔ text = other) ∧
      escape (text ++ other) = escape text ++ escape other := by
  refine ⟨escape_eq_replaceAll text, not_mem_escape (Or.inl rfl) text,
    not_mem_escape (Or.inr rfl) text, ?_, replaceAll_escape text, ?_, escape_append text other⟩
  · intro behind h
    rw [escape, String.toList_ofList] at h
    exact exists_entity_of_suffix h
  · constructor
    · intro heq
      rw [← replaceAll_escape text, heq, replaceAll_escape other]
    · intro heq
      rw [heq]

/-- A text that looks like an entity survives: its ampersand is escaped and comes back. -/
theorem escape_faithful_of_entity :
    escape "&lt;<" = "&amp;lt;&lt;" ∧
      (exists entity, entity ∈ entities ∧ entity.toList <+: "&lt;".toList) ∧
      replaceAll "&amp;" "&" (replaceAll "&gt;" ">" (replaceAll "&lt;" "<" "&amp;lt;&lt;")) =
        "&lt;<" := by
  have hescaped : escape "&lt;<" = "&amp;lt;&lt;" := by decide
  rcases escape_faithful "&lt;<" "" with ⟨_, _, _, hentity, hback, _⟩
  rw [hescaped] at hentity hback
  exact ⟨hescaped, hentity ['l', 't', ';'] (by decide), hback⟩

end Text
end Jack
