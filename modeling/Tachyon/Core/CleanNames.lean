import Tachyon.Core.FileName

/-!
# Clean names

`sanitize_filename` answers with words that have single spaces between them, and a name that
is made so it leaves as it is.
-/

namespace Tachyon

/-- A word of a clean name: no white space and no dangerous character in it, and not dots
alone. -/
structure CleanWord (word : List Char) : Prop where
  visible : ∀ c ∈ word, isWhitespace c = false
  harmless : ∀ c ∈ word, isDangerous c = false
  not_dots : word.all (· == '.') = false

/-- A token between white space: not empty, and no white space in it. -/
structure Token (word : List Char) : Prop where
  ne_nil : word ≠ []
  visible : ∀ c ∈ word, isWhitespace c = false

/-- Clean words, and single spaces between them. -/
def CleanName (name : String) : Prop :=
  ∃ words : List (List Char), words ≠ [] ∧ (∀ word ∈ words, CleanWord word) ∧
    name.toList = [' '].intercalate words

/-- A single component of a path, and one that names something. -/
structure SafeFileName (name : String) : Prop where
  nonempty : name ≠ ""
  no_slash : '/' ∉ name.toList
  no_backslash : '\\' ∉ name.toList
  not_dot : name ≠ "."
  not_dot_dot : name ≠ ".."

/-- A safe name without a dangerous character and without a word of dots alone, which
sanitizing leaves as it is. -/
structure Sanitized (name : String) : Prop extends SafeFileName name where
  harmless : ∀ c ∈ name.toList, isDangerous c = false
  not_dots : ∀ token ∈ splitWhitespace name.toList, token.all (· == '.') = false
  stable : sanitizeFilename name = name

section

variable {word : List Char} {words : List (List Char)}

theorem CleanWord.ne_nil (h : CleanWord word) : word ≠ [] := by
  rintro rfl
  simpa using h.not_dots

theorem CleanWord.token (h : CleanWord word) : Token word := ⟨h.ne_nil, h.visible⟩

theorem CleanWord.ne_of_isWhitespace (h : CleanWord word) {c d : Char} (hc : c ∈ word)
    (hd : isWhitespace d = true) : c ≠ d := by
  rintro rfl
  simp [h.visible c hc] at hd

theorem CleanWord.ne_of_isDangerous (h : CleanWord word) {c d : Char} (hc : c ∈ word)
    (hd : isDangerous d = true) : c ≠ d := by
  rintro rfl
  simp [h.harmless c hc] at hd

/-- A character is written down unless it begins two dots that stand alone. -/
theorem replaceSeparators_cons {last : Option Char} {c : Char} {rest : List Char}
    (hslash : ¬(c = '/' ∨ c = '\\'))
    (hdots : ∀ after, c = '.' → rest = '.' :: after → ¬((last.all (· == ' ') &&
      after.head?.all fun d => d == ' ' || d == '/' || d == '\\') = true)) :
    replaceSeparators last (c :: rest) = c :: replaceSeparators (some c) rest := by
  rw [replaceSeparators.eq_def]
  simp only
  rw [if_neg hslash]
  split
  · next after => rw [if_neg (hdots after rfl rfl)]
  · rfl

/-- After a character that is no space nothing is removed. -/
theorem replaceSeparators_append_of_ne_space {rest out : List Char} {last : Char}
    (hlast : last ≠ ' ') (hspace : ∀ c ∈ word, isWhitespace c = false)
    (hsafe : ∀ c ∈ word, isDangerous c = false)
    (hrest : ∀ last, replaceSeparators last rest = out) :
    replaceSeparators (some last) (word ++ rest) = word ++ out := by
  induction word generalizing last with
  | nil => exact hrest (some last)
  | cons c word ih =>
    have hc : c ≠ ' ' := by
      rintro rfl
      exact absurd (hspace ' ' List.mem_cons_self) (by decide)
    have hslash : ¬(c = '/' ∨ c = '\\') := by
      rintro (rfl | rfl)
      · exact absurd (hsafe '/' List.mem_cons_self) (by decide)
      · exact absurd (hsafe '\\' List.mem_cons_self) (by decide)
    have ih := ih hc (fun d hd => hspace d (List.mem_cons_of_mem c hd)) fun d hd =>
      hsafe d (List.mem_cons_of_mem c hd)
    rw [List.cons_append, replaceSeparators_cons hslash (by simp [hlast]), ih, List.cons_append]

/-- A clean word stays. -/
theorem replaceSeparators_cleanWord {rest out : List Char} (last : Option Char)
    (h : CleanWord word) (hrest : ∀ last, replaceSeparators last rest = out) :
    replaceSeparators last (word ++ rest) = word ++ out := by
  match word, h with
  | [], h => exact absurd rfl h.ne_nil
  | c :: word, h =>
    have hc : c ≠ ' ' := h.ne_of_isWhitespace List.mem_cons_self (by decide)
    have hslash : ¬(c = '/' ∨ c = '\\') := not_or.mpr
      ⟨h.ne_of_isDangerous List.mem_cons_self (by decide),
        h.ne_of_isDangerous List.mem_cons_self (by decide)⟩
    have hinner : replaceSeparators (some c) (word ++ rest) = word ++ out :=
      replaceSeparators_append_of_ne_space hc
        (fun d hd => h.visible d (List.mem_cons_of_mem c hd))
        (fun d hd => h.harmless d (List.mem_cons_of_mem c hd)) hrest
    rw [List.cons_append, replaceSeparators_cons hslash, hinner, List.cons_append]
    rintro after rfl heq
    -- two dots begin the word, which has another character after them
    match word, h with
    | [], h => exact absurd h.not_dots (by decide)
    | [d], h =>
      rw [List.cons_append, List.cons.injEq] at heq
      exact absurd h.not_dots (by simp [heq.1])
    | d :: e :: word, h =>
      rw [List.cons_append, List.cons.injEq, List.cons_append] at heq
      have he : e ∈ '.' :: d :: e :: word := by simp
      have hspace : e ≠ ' ' := h.ne_of_isWhitespace he (by decide)
      have hslash : e ≠ '/' := h.ne_of_isDangerous he (by decide)
      have hback : e ≠ '\\' := h.ne_of_isDangerous he (by decide)
      simp [← heq.2, hspace, hslash, hback]

/-- A space is written down, whatever stands before it. -/
theorem replaceSeparators_space (last : Option Char) (rest : List Char) :
    replaceSeparators last (' ' :: rest) = ' ' :: replaceSeparators (some ' ') rest :=
  replaceSeparators_cons (by decide) fun _ hdot => absurd hdot (by decide)

theorem replaceSeparators_intercalate (h : ∀ word ∈ words, CleanWord word)
    (last : Option Char) :
    replaceSeparators last ([' '].intercalate words) = [' '].intercalate words := by
  induction words generalizing last with
  | nil => rfl
  | cons word words ih =>
    have hword := h word List.mem_cons_self
    have ih := ih fun word' hmem => h word' (List.mem_cons_of_mem word hmem)
    match words with
    | [] =>
      have hend := replaceSeparators_cleanWord last hword fun last => replaceSeparators.eq_1 last
      simpa using hend
    | next :: words =>
      rw [List.intercalate_cons_cons, List.append_assoc, List.singleton_append]
      exact replaceSeparators_cleanWord last hword fun last' => by
        rw [replaceSeparators_space, ih]

theorem splitWhitespace_intercalate (hne : words ≠ [])
    (h : ∀ word ∈ words, Token word) :
    ([' '].intercalate words).splitOnP isWhitespace = words := by
  induction words with
  | nil => exact absurd rfl hne
  | cons word words ih =>
    have hword := (h word List.mem_cons_self).visible
    match words with
    | [] => rw [List.intercalate_singleton, List.splitOnP_eq_singleton hword]
    | next :: words =>
      rw [List.intercalate_cons_cons, List.append_assoc, List.singleton_append,
        List.splitOnP_append_cons_of_forall_mem hword ' ' (by decide),
        ih (by simp) fun word' hmem => h word' (List.mem_cons_of_mem word hmem)]

/-- The characters between the first and the last are those of the words, and spaces. -/
theorem mem_intercalate {c : Char} (hc : c ∈ [' '].intercalate words) :
    c = ' ' ∨ ∃ word ∈ words, c ∈ word := by
  induction words with
  | nil => simp at hc
  | cons word words ih =>
    match words with
    | [] => exact Or.inr ⟨word, List.mem_cons_self, by simpa using hc⟩
    | next :: words =>
      rw [List.intercalate_cons_cons, List.mem_append, List.mem_append,
        List.mem_singleton] at hc
      obtain (hc | hc) | hc := hc
      · exact Or.inr ⟨word, List.mem_cons_self, hc⟩
      · exact Or.inl hc
      · obtain hspace | ⟨word', hmem, hc⟩ := ih hc
        · exact Or.inl hspace
        · exact Or.inr ⟨word', List.mem_cons_of_mem word hmem, hc⟩

/-- The first character is one of the first word. -/
theorem dropWhile_intercalate (h : ∀ word ∈ words, Token word) :
    ([' '].intercalate words).dropWhile isWhitespace = [' '].intercalate words := by
  match words with
  | [] => rfl
  | word :: words =>
    have hword := h word List.mem_cons_self
    obtain ⟨c, rest, rfl⟩ := List.exists_cons_of_ne_nil hword.ne_nil
    have hc := hword.visible c List.mem_cons_self
    match words with
    | [] => simp [hc]
    | next :: words => simp [List.intercalate_cons_cons, hc]

/-- The last character is one of the last word. -/
theorem rdropWhile_intercalate (h : ∀ word ∈ words, Token word) :
    ([' '].intercalate words).rdropWhile isWhitespace = [' '].intercalate words := by
  rw [List.rdropWhile_eq_self_iff]
  intro hne
  induction words with
  | nil => exact absurd rfl hne
  | cons word words ih =>
    match words with
    | [] =>
      have hword := h word List.mem_cons_self
      simp [hword.visible]
    | next :: words =>
      have hlater : ∀ word' ∈ next :: words, Token word' := fun word' hmem =>
        h word' (List.mem_cons_of_mem word hmem)
      have hnext : [' '].intercalate (next :: words) ≠ [] := by
        intro hnil
        have hnone := splitWhitespace_intercalate (by simp) hlater
        rw [hnil, List.splitOnP_nil, List.cons.injEq] at hnone
        exact (hlater next List.mem_cons_self).ne_nil hnone.1.symm
      have hlast := ih hlater hnext
      simpa [List.intercalate_cons_cons, List.getLast_append_of_ne_nil, hnext] using hlast

end

/-- A clean name is left as it is. -/
theorem CleanName.sanitizeFilename_eq {name : String} (h : CleanName name) :
    sanitizeFilename name = name := by
  obtain ⟨words, hne, hwords, hname⟩ := h
  have htokens : ∀ word ∈ words, Token word := fun word hmem => (hwords word hmem).token
  have hsplit := splitWhitespace_intercalate hne htokens
  have hsome : [' '].intercalate words ≠ [] := by
    intro hnil
    rw [hnil, List.splitOnP_nil] at hsplit
    have hempty : [] ∈ words := hsplit ▸ List.mem_singleton_self []
    exact (hwords [] hempty).ne_nil rfl
  have hharmless : ([' '].intercalate words).filter (fun c => !isDangerous c) =
      [' '].intercalate words := by
    rw [List.filter_eq_self]
    intro c hc
    obtain rfl | ⟨word, hmem, hc⟩ := mem_intercalate hc
    · decide
    · rw [(hwords word hmem).harmless c hc]
      rfl
  have hkept : (splitWhitespace ([' '].intercalate words)).filter
      (fun token => !token.all (· == '.')) = words := by
    have hnonempty : words.filter (fun token => !token.isEmpty) = words := by
      rw [List.filter_eq_self]
      intro word hmem
      simp [(hwords word hmem).ne_nil]
    rw [splitWhitespace, hsplit, hnonempty, List.filter_eq_self]
    intro word hmem
    rw [(hwords word hmem).not_dots]
    rfl
  rw [sanitizeFilename, hname, replaceSeparators_intercalate hwords,
    dropWhile_intercalate htokens, rdropWhile_intercalate htokens]
  simp only [hharmless, hkept]
  rw [if_neg (by simpa using hsome), if_neg (by simpa using hsome), ← hname, String.ofList_toList]

/-- No piece has a separator in it. -/
theorem not_of_mem_splitOnP {α : Type} {p : α → Bool} {xs piece : List α}
    (h : piece ∈ xs.splitOnP p) : ∀ x ∈ piece, x ∈ xs ∧ p x = false := by
  induction xs generalizing piece with
  | nil =>
    rw [List.splitOnP_nil, List.mem_singleton] at h
    simp [h]
  | cons x xs ih =>
    rw [List.splitOnP_cons_eq_if_modifyHead] at h
    by_cases hx : p x = true
    · rw [if_pos hx, List.mem_cons] at h
      obtain rfl | h := h
      · simp
      · exact fun y hy => ⟨List.mem_cons_of_mem x (ih h y hy).1, (ih h y hy).2⟩
    · rw [if_neg hx] at h
      obtain ⟨first, pieces, heq⟩ := List.exists_cons_of_ne_nil (List.splitOnP_ne_nil p xs)
      rw [heq, List.modifyHead_cons, List.mem_cons] at h
      obtain rfl | h := h
      · intro y hy
        obtain rfl | hy := List.mem_cons.mp hy
        · exact ⟨List.mem_cons_self, by simpa using hx⟩
        · have hy := ih (heq ▸ List.mem_cons_self) y hy
          exact ⟨List.mem_cons_of_mem x hy.1, hy.2⟩
      · intro y hy
        have hy := ih (heq ▸ List.mem_cons_of_mem first h) y hy
        exact ⟨List.mem_cons_of_mem x hy.1, hy.2⟩

/-- The answer is a clean name. -/
theorem sanitizeFilename_clean (name : String) : CleanName (sanitizeFilename name) := by
  have hword : CleanWord "unknown".toList := by
    refine ⟨fun c hc => ?_, fun c hc => ?_, by decide⟩
    · exact Bool.eq_false_iff.mpr (List.any_eq_false.mp (by decide) c hc)
    · exact Bool.eq_false_iff.mpr (List.any_eq_false.mp (by decide) c hc)
  have hunknown : CleanName "unknown" :=
    ⟨["unknown".toList], by simp, by simpa using hword, by simp⟩
  unfold sanitizeFilename
  extract_lets buf trimmed
  split
  · exact hunknown
  rename_i filtered tokens result htrimmed
  split
  · exact hunknown
  · next hsome =>
    have hclean : ∀ token ∈ tokens, CleanWord token := by
      intro token hmem
      rw [List.mem_filter, splitWhitespace, List.mem_filter] at hmem
      obtain ⟨⟨hpiece, -⟩, hdots⟩ := hmem
      have hchars := not_of_mem_splitOnP hpiece
      refine ⟨fun c hc => (hchars c hc).2, fun c hc => ?_, by simpa using hdots⟩
      simpa using (List.mem_filter.mp (hchars c hc).1).2
    have hne : tokens ≠ [] := by
      rintro hnil
      exact hsome (by simp [result, hnil])
    exact ⟨tokens, hne, hclean, String.toList_ofList⟩

/-- `sanitize_filename` leaves a name as it is exactly when it is clean. -/
theorem sanitizeFilename_eq_self_iff (name : String) :
    sanitizeFilename name = name ↔ CleanName name :=
  ⟨fun h => h ▸ sanitizeFilename_clean name, CleanName.sanitizeFilename_eq⟩

/-- Sanitizing once is enough. -/
theorem sanitizeFilename_sanitizeFilename (name : String) :
    sanitizeFilename (sanitizeFilename name) = sanitizeFilename name :=
  (sanitizeFilename_clean name).sanitizeFilename_eq

/-- No character of a clean name is dangerous. -/
theorem CleanName.harmless {name : String} (h : CleanName name) {c : Char}
    (hc : c ∈ name.toList) : isDangerous c = false := by
  obtain ⟨words, -, hwords, hname⟩ := h
  rw [hname] at hc
  obtain rfl | ⟨word, hword, hc⟩ := mem_intercalate hc
  · decide
  · exact (hwords word hword).harmless c hc

/-- A clean name is a component of a path. -/
theorem CleanName.safe {name : String} (h : CleanName name) : SafeFileName name := by
  have hnot : ∀ c, isDangerous c = true → c ∉ name.toList := fun c hc hmem =>
    Bool.false_ne_true ((h.harmless hmem).symm.trans hc)
  obtain ⟨words, hne, hwords, hname⟩ := h
  -- the first word has a character other than a dot
  have hdots : ∃ c ∈ name.toList, c ≠ '.' := by
    obtain ⟨word, rest, rfl⟩ := List.exists_cons_of_ne_nil hne
    have hword := (hwords word List.mem_cons_self).not_dots
    rw [List.all_eq_false] at hword
    obtain ⟨c, hc, hdot⟩ := hword
    refine ⟨c, ?_, by simpa using hdot⟩
    rw [hname]
    match rest with
    | [] => simpa using hc
    | next :: rest => simp [List.intercalate_cons_cons, hc]
  obtain ⟨c, hc, hdot⟩ := hdots
  refine ⟨?_, hnot '/' (by decide), hnot '\\' (by decide), ?_, ?_⟩
  · rintro rfl
    simp at hc
  · rintro rfl
    exact hdot (by simpa using hc)
  · rintro rfl
    exact hdot (by simpa using hc)

/-- The tokens of a clean name are its words. -/
theorem CleanName.sanitized {name : String} (h : CleanName name) : Sanitized name := by
  refine ⟨h.safe, fun c hc => h.harmless hc, fun token htoken => ?_, h.sanitizeFilename_eq⟩
  obtain ⟨words, hne, hwords, hname⟩ := h
  rw [hname, splitWhitespace, splitWhitespace_intercalate hne
    fun word hmem => (hwords word hmem).token] at htoken
  exact (hwords token (List.mem_filter.mp htoken).1).not_dots

end Tachyon
