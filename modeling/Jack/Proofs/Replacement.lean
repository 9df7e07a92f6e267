import Mathlib.Data.List.Infix

/-!
# Replacing a pattern in a text

A text is read from left to right, and every occurrence of a pattern is replaced.  What
belongs to an occurrence is not read again, and neither is what stands for it then.
-/

namespace Jack
namespace Text

/-- Replace a pattern, which is not empty, behind some characters that are dropped. -/
def replaceFrom (pattern replacement : List Char) : Nat -> List Char -> List Char
  | _, [] => []
  | dropped + 1, _ :: rest => replaceFrom pattern replacement dropped rest
  | 0, c :: rest =>
      if pattern <+: c :: rest then
        replacement ++ replaceFrom pattern replacement (pattern.length - 1) rest
      else c :: replaceFrom pattern replacement 0 rest

def replaceChars (pattern replacement chars : List Char) : List Char :=
  replaceFrom pattern replacement 0 chars

def replaceAll (pattern replacement text : String) : String :=
  String.ofList (replaceChars pattern.toList replacement.toList text.toList)

section

variable {pattern replacement : List Char}

theorem replaceFrom_eq (dropped : Nat) (chars : List Char) :
    replaceFrom pattern replacement dropped chars =
      replaceChars pattern replacement (chars.drop dropped) := by
  induction chars generalizing dropped with
  | nil =>
      rw [List.drop_nil]
      cases dropped <;> rfl
  | cons c rest ih =>
      cases dropped with
      | zero => rfl
      | succ dropped => exact ih dropped

@[simp] theorem replaceChars_nil : replaceChars pattern replacement [] = [] := rfl

theorem replaceChars_pattern (hpattern : pattern ≠ []) (rest : List Char) :
    replaceChars pattern replacement (pattern ++ rest) =
      replacement ++ replaceChars pattern replacement rest := by
  cases pattern with
  | nil => exact absurd rfl hpattern
  | cons first tail =>
      have hoccurs : first :: tail <+: first :: (tail ++ rest) := List.prefix_append _ _
      rw [replaceChars, List.cons_append, replaceFrom, if_pos hoccurs, replaceFrom_eq]
      simp

theorem replaceChars_cons {c : Char} {rest : List Char} (h : ¬ pattern <+: c :: rest) :
    replaceChars pattern replacement (c :: rest) =
      c :: replaceChars pattern replacement rest := by
  rw [replaceChars, replaceFrom, if_neg h]
  rfl

/-- A property of texts holds if it goes on along the occurrences of the pattern and along the
characters where none begins. -/
theorem along_replacement (Holds : List Char -> Prop) (hpattern : pattern ≠ [])
    (hnil : Holds []) (hoccurs : forall rest, Holds rest -> Holds (pattern ++ rest))
    (hcons : forall c rest, ¬ pattern <+: c :: rest -> Holds rest -> Holds (c :: rest)) :
    forall chars, Holds chars := by
  intro chars
  induction hlength : chars.length using Nat.strongRecOn generalizing chars with
  | ind n ih =>
      cases chars with
      | nil => exact hnil
      | cons c rest =>
          rw [List.length_cons] at hlength
          by_cases h : pattern <+: c :: rest
          · rcases h with ⟨behind, hbehind⟩
            have hpos := List.length_pos_iff.mpr hpattern
            have hsum := congrArg List.length hbehind
            rw [List.length_append, List.length_cons] at hsum
            rw [← hbehind]
            exact hoccurs behind (ih behind.length (by omega) behind rfl)
          · exact hcons c rest h (ih rest.length (by omega) rest rfl)

/-!
# Texts in which the pattern occurs

A pattern is replaced by something shorter in the two lemmas, so every occurrence shows in the
length.
-/

theorem length_replaceChars_le (hpattern : pattern ≠ [])
    (hshorter : replacement.length < pattern.length) (chars : List Char) :
    (replaceChars pattern replacement chars).length ≤ chars.length := by
  refine along_replacement
    (fun chars => (replaceChars pattern replacement chars).length ≤ chars.length)
    hpattern (Nat.le_refl _) ?_ ?_ chars
  · intro rest ih
    rw [replaceChars_pattern hpattern, List.length_append, List.length_append]
    omega
  · intro c rest h ih
    rw [replaceChars_cons h, List.length_cons, List.length_cons]
    omega

theorem replaceChars_eq_self_iff (hpattern : pattern ≠ [])
    (hshorter : replacement.length < pattern.length) (chars : List Char) :
    replaceChars pattern replacement chars = chars ↔ ¬ pattern <:+: chars := by
  refine along_replacement
    (fun chars => replaceChars pattern replacement chars = chars ↔ ¬ pattern <:+: chars)
    hpattern ?_ ?_ ?_ chars
  · rw [List.infix_nil]
    exact ⟨fun _ => hpattern, fun _ => rfl⟩
  · intro rest _
    have hrest := length_replaceChars_le hpattern hshorter rest
    constructor
    · intro heq
      have hlength := congrArg List.length heq
      rw [replaceChars_pattern hpattern, List.length_append, List.length_append] at hlength
      omega
    · intro hnot
      exact absurd (List.prefix_append pattern rest).isInfix hnot
  · intro c rest h ih
    rw [replaceChars_cons h, List.infix_cons_iff, List.cons_inj_right, ih]
    constructor
    · intro hnot hor
      exact hor.elim h hnot
    · intro hnot hinfix
      exact hnot (Or.inr hinfix)

/-!
# Parts that are replaced one by one
-/

/-- Some characters become others, whatever stands behind them. -/
def Becomes (pattern replacement chars result : List Char) : Prop :=
  forall rest, replaceChars pattern replacement (chars ++ rest) =
    result ++ replaceChars pattern replacement rest

/-- A pattern does not begin in some characters, neither to end there nor behind them. -/
def Apart (pattern chars : List Char) : Prop :=
  forall behind, behind ∈ chars.tails ->
    behind = [] ∨ ¬ pattern <+: behind ∧ ¬ behind <+: pattern

instance (pattern chars : List Char) : Decidable (Apart pattern chars) :=
  inferInstanceAs (Decidable (forall behind, behind ∈ chars.tails -> _))

namespace Becomes

theorem occurrence (hpattern : pattern ≠ []) : Becomes pattern replacement pattern replacement :=
  replaceChars_pattern hpattern

theorem unchanged {chars : List Char} (h : Apart pattern chars) :
    Becomes pattern replacement chars chars := by
  induction chars with
  | nil => intro rest; rfl
  | cons c chars ih =>
      intro rest
      rw [Apart, List.tails_cons, List.forall_mem_cons] at h
      have hnot : ¬ pattern <+: c :: (chars ++ rest) := by
        intro hoccurs
        have hself : c :: chars <+: c :: (chars ++ rest) := List.prefix_append _ _
        rcases h.1 with hnil | ⟨hinside, hacross⟩
        · cases hnil
        · exact (List.prefix_or_prefix_of_prefix hoccurs hself).elim hinside hacross
      rw [List.cons_append, replaceChars_cons hnot, ih h.2 rest, List.cons_append]

theorem flatMap {f g : Char -> List Char} {chars : List Char}
    (h : forall c, Becomes pattern replacement (f c) (g c)) :
    replaceChars pattern replacement (chars.flatMap f) = chars.flatMap g := by
  induction chars with
  | nil => rfl
  | cons c rest ih =>
      rw [List.flatMap_cons, h c (rest.flatMap f), ih, List.flatMap_cons]

end Becomes

end

/-- A pattern that begins with a character it does not have again cannot lie across the place
where it begins once more. -/
theorem replaceChars_append_pattern {first : Char} {tail replacement : List Char}
    (hfirst : first ∉ tail) (chars : List Char) :
    replaceChars (first :: tail) replacement (chars ++ first :: tail) =
      replaceChars (first :: tail) replacement chars ++ replacement := by
  have hpattern : first :: tail ≠ [] := List.cons_ne_nil _ _
  refine along_replacement
    (fun chars => replaceChars (first :: tail) replacement (chars ++ first :: tail) =
      replaceChars (first :: tail) replacement chars ++ replacement) hpattern ?_ ?_ ?_ chars
  · have hwhole : replaceChars (first :: tail) replacement (first :: tail ++ []) =
        replacement ++ [] := replaceChars_pattern hpattern []
    rw [List.append_nil, List.append_nil] at hwhole
    rw [List.nil_append, replaceChars_nil, List.nil_append, hwhole]
  · intro rest ih
    rw [List.append_assoc, replaceChars_pattern hpattern, replaceChars_pattern hpattern, ih,
      List.append_assoc]
  · intro c rest h ih
    have hacross : ¬ first :: tail <+: c :: (rest ++ first :: tail) := by
      intro hoccurs
      have hself : c :: rest <+: c :: (rest ++ first :: tail) := List.prefix_append _ _
      rcases List.prefix_or_prefix_of_prefix hoccurs hself with hinside | ⟨behind, hbehind⟩
      · exact h hinside
      · -- what lies across begins as the pattern does
        have hbegins : behind <+: first :: tail := by
          apply (List.prefix_append_right_inj (c :: rest)).mp
          rw [hbehind]
          exact hoccurs
        rw [List.cons_append, List.cons.injEq] at hbehind
        cases behind with
        | nil =>
            rw [← hbehind.1, ← hbehind.2, List.append_nil] at h
            exact h (List.prefix_refl _)
        | cons d behind =>
            apply hfirst
            rw [← (List.cons_prefix_cons.mp hbegins).1, ← hbehind.2]
            exact List.mem_append_right _ List.mem_cons_self
    rw [List.cons_append, replaceChars_cons hacross, replaceChars_cons h, ih, List.cons_append]

end Text
end Jack
