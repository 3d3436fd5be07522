import Mathlib.Data.List.Infix
import Mathlib.Tactic.Ring

/-!
# Replacing a pattern in a text

Every occurrence of a pattern gives way to another text, from the front on and without
overlaps. What is left of each letter is a matter of counting: the replacement trades so many
copies of the letters of the pattern for as many copies of those of the other text.
-/

namespace Replacement

variable {α : Type} [DecidableEq α]

/-- `pattern` replaced in a text, of which the next letters up to `skip` belong to an
occurrence already. -/
def replaceFrom (pattern other : List α) : ℕ → List α → List α
  | _, [] => []
  | skip + 1, _ :: text => replaceFrom pattern other skip text
  | 0, c :: text =>
    if pattern.isPrefixOf (c :: text) then
      other ++ replaceFrom pattern other (pattern.length - 1) text
    else c :: replaceFrom pattern other 0 text

/-- Every occurrence of `pattern` replaced. The pattern is not empty. -/
def replaceAll (pattern other text : List α) : List α := replaceFrom pattern other 0 text

variable {pattern other text : List α}

theorem replaceFrom_eq_drop (skip : ℕ) (text : List α) :
    replaceFrom pattern other skip text = replaceAll pattern other (text.drop skip) := by
  induction skip generalizing text with
  | zero => rfl
  | succ skip ih =>
    cases text with
    | nil => rfl
    | cons c text => rw [replaceFrom, ih, List.drop_succ_cons]

/-- An occurrence at the front is replaced, and the rest on its own. -/
theorem replaceAll_append (hne : pattern ≠ []) (text : List α) :
    replaceAll pattern other (pattern ++ text) = other ++ replaceAll pattern other text := by
  obtain ⟨c, rest, rfl⟩ := List.exists_cons_of_ne_nil hne
  have hfront : (c :: rest).isPrefixOf (c :: (rest ++ text)) = true :=
    List.isPrefixOf_iff_prefix.mpr (List.prefix_append _ _)
  rw [replaceAll, List.cons_append, replaceFrom, if_pos hfront, replaceFrom_eq_drop]
  simp

theorem replaceAll_cons {c : α} (h : ¬pattern <+: c :: text) :
    replaceAll pattern other (c :: text) = c :: replaceAll pattern other text := by
  rw [replaceAll, replaceFrom, if_neg (mt List.isPrefixOf_iff_prefix.mp h)]
  rfl

/-- A text is empty, or the pattern stands at its front, or a letter that begins no
occurrence. -/
theorem pattern_induction (hne : pattern ≠ []) {motive : List α → Prop} (nil : motive [])
    (cons : ∀ c text, ¬pattern <+: c :: text → motive text → motive (c :: text))
    (append : ∀ text, motive text → motive (pattern ++ text)) (text : List α) : motive text := by
  induction hlength : text.length using Nat.strong_induction_on generalizing text with
  | _ n ih =>
    cases text with
    | nil => exact nil
    | cons c text =>
      by_cases hfront : pattern <+: c :: text
      · obtain ⟨rest, hrest⟩ := hfront
        have hpos := List.length_pos_iff.mpr hne
        have hlt : rest.length < n := by
          rw [← hlength, ← hrest, List.length_append]
          omega
        rw [← hrest]
        exact append rest (ih _ hlt rest rfl)
      · have hlt : text.length < n := hlength ▸ Nat.lt_succ_self _
        exact cons c text hfront (ih _ hlt text rfl)

/-- Without an occurrence nothing changes. -/
theorem replaceAll_of_absent (h : ¬pattern <:+: text) :
    replaceAll pattern other text = text := by
  induction text with
  | nil => rfl
  | cons c text ih =>
    have hnot := mt List.infix_cons_iff.mpr h
    rw [not_or] at hnot
    rw [replaceAll_cons hnot.1, ih hnot.2]

/-- Replaced by itself the pattern stays. -/
theorem replaceAll_self (hne : pattern ≠ []) (text : List α) :
    replaceAll pattern pattern text = text := by
  induction text using pattern_induction hne with
  | nil => rfl
  | cons c text hnot ih => rw [replaceAll_cons hnot, ih]
  | append text ih => rw [replaceAll_append hne, ih]

/-- The letters after the replacement: for as many copies of the pattern as were replaced, as
many of the other text. At least one was if the pattern occurs. -/
theorem exists_countP_replaceAll (hne : pattern ≠ []) (text : List α) :
    ∃ k, (k = 0 → ¬pattern <:+: text) ∧
      ∀ p, (replaceAll pattern other text).countP p + k * pattern.countP p =
        text.countP p + k * other.countP p := by
  induction text using pattern_induction hne with
  | nil =>
    have hnil : replaceAll pattern other [] = [] := rfl
    refine ⟨0, fun _ h => hne (List.eq_nil_of_infix_nil h), fun p => ?_⟩
    rw [hnil, Nat.zero_mul, Nat.zero_mul]
  | cons c text hnot ih =>
    obtain ⟨k, hk, hcount⟩ := ih
    refine ⟨k, fun hzero hoccurs => ?_, fun p => ?_⟩
    · exact (List.infix_cons_iff.mp hoccurs).elim hnot (hk hzero)
    · have hcount := hcount p
      rw [replaceAll_cons hnot, List.countP_cons, List.countP_cons]
      omega
  | append text ih =>
    obtain ⟨k, -, hcount⟩ := ih
    refine ⟨k + 1, fun hzero => absurd hzero (Nat.succ_ne_zero k), fun p => ?_⟩
    have hcount := hcount p
    rw [replaceAll_append hne, List.countP_append, List.countP_append, Nat.add_mul, Nat.add_mul]
    omega

/-- A replacement that leaves a text with an occurrence as it is replaces the pattern by itself. -/
theorem eq_of_replaceAll_eq_self (hne : pattern ≠ []) (hoccurs : pattern <:+: text)
    (h : replaceAll pattern other text = text) : other = pattern := by
  induction text using pattern_induction hne with
  | nil => exact absurd (List.eq_nil_of_infix_nil hoccurs) hne
  | cons c text hnot ih =>
    rw [replaceAll_cons hnot] at h
    exact ih ((List.infix_cons_iff.mp hoccurs).resolve_left hnot) (List.cons.inj h).2
  | append text _ =>
    obtain ⟨k, -, hcount⟩ := @exists_countP_replaceAll _ _ _ other hne text
    have hcount := hcount fun _ => true
    simp only [List.countP_true] at hcount
    rw [replaceAll_append hne] at h
    have hlength := congrArg List.length h
    rw [List.length_append, List.length_append] at hlength
    -- the lengths of the two differ by as much as `k` copies of both do the other way
    have hmul : (k + 1) * other.length = (k + 1) * pattern.length := by
      rw [Nat.add_mul, Nat.add_mul]
      omega
    exact (List.append_inj h (Nat.eq_of_mul_eq_mul_left (Nat.succ_pos k) hmul)).1

/-- A replacement changes nothing exactly when nothing is found, or the pattern replaced by
itself. -/
theorem replaceAll_eq_self_iff (hne : pattern ≠ []) :
    replaceAll pattern other text = text ↔ ¬pattern <:+: text ∨ other = pattern := by
  constructor
  · intro h
    by_cases hoccurs : pattern <:+: text
    · exact .inr (eq_of_replaceAll_eq_self hne hoccurs h)
    · exact .inl hoccurs
  · rintro (h | rfl)
    · exact replaceAll_of_absent h
    · exact replaceAll_self hne text

end Replacement
