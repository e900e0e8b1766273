import Iapx86.Text.Blank

/-!
# Words of a text

A separator takes a text apart: the words of the whole are those before it and then those behind it
(`words_append_cons`). A text without separators is one word. So the words of a line that is put
together from words and blanks are the words that it was put together from.

From the same two facts it follows what the words are (`mem_words_iff`): the parts of a text that
hold no separators and cannot be made longer.
-/

namespace Iapx86

namespace Text

variable {separates : Char → Bool}

theorem wordsFrom_append_cons {s : Char} (hs : separates s = true)
    (word before behind : List Char) :
    wordsFrom separates word (before ++ s :: behind) =
      wordsFrom separates word before ++ words separates behind := by
  induction before generalizing word with
  | nil =>
      rw [List.nil_append, wordsFrom, wordsFrom, if_pos hs]
      split <;> rfl
  | cons c before ih =>
      rw [List.cons_append, wordsFrom, wordsFrom]
      split
      · split
        · exact ih []
        · exact congrArg (word :: ·) (ih [])
      · exact ih (word ++ [c])

/-- The words of a text are those before a separator and those behind it. -/
theorem words_append_cons {s : Char} (hs : separates s = true) (before behind : List Char) :
    words separates (before ++ s :: behind) =
      words separates before ++ words separates behind :=
  wordsFrom_append_cons hs [] before behind

theorem words_cons_of_separates {s : Char} (hs : separates s = true) (cs : List Char) :
    words separates (s :: cs) = words separates cs :=
  words_append_cons hs [] cs

theorem wordsFrom_of_forall_not {word cs : List Char} (hne : word ++ cs ≠ [])
    (h : ∀ c ∈ cs, separates c = false) : wordsFrom separates word cs = [word ++ cs] := by
  induction cs generalizing word with
  | nil =>
      rw [List.append_nil] at hne
      rw [wordsFrom, if_neg hne, List.append_nil]
  | cons c cs ih =>
      have hc : ¬ separates c = true := Bool.not_eq_true _ ▸ h c List.mem_cons_self
      have happend : word ++ [c] ++ cs = word ++ c :: cs := List.append_cons _ _ _ |>.symm
      rw [wordsFrom, if_neg hc, ih (happend ▸ hne) fun d hd => h d (List.mem_cons_of_mem _ hd),
        happend]

/-- A text without separators is a word. -/
theorem words_of_forall_not {cs : List Char} (hne : cs ≠ [])
    (h : ∀ c ∈ cs, separates c = false) : words separates cs = [cs] :=
  wordsFrom_of_forall_not hne h

theorem head?_wordsFrom {word : List Char} (hne : word ≠ []) (cs : List Char) :
    (wordsFrom separates word cs).head? = some (word ++ cs.takeWhile (!separates ·)) := by
  induction cs generalizing word with
  | nil => rw [wordsFrom, if_neg hne, List.takeWhile_nil, List.append_nil, List.head?_cons]
  | cons c cs ih =>
      rw [wordsFrom]
      cases hc : separates c with
      | true => simp [hne, hc]
      | false =>
          rw [if_neg Bool.false_ne_true, ih (List.append_ne_nil_of_right_ne_nil _ (by simp)),
            List.takeWhile_cons_of_pos (by simp [hc]), List.append_assoc, List.singleton_append]

/-- A text that does not begin with a separator begins with its first word. -/
theorem head?_words_cons {c : Char} (hc : separates c = false) (cs : List Char) :
    (words separates (c :: cs)).head? = some (c :: cs.takeWhile (!separates ·)) := by
  have hne : ([] : List Char) ++ [c] ≠ [] := List.cons_ne_nil c []
  rw [words, wordsFrom, hc, if_neg Bool.false_ne_true, head?_wordsFrom hne]
  rfl

/-- A word ends where the text does, or at a separator. -/
theorem words_append_of_head? {w cs : List Char} (hne : w ≠ [])
    (hw : ∀ c ∈ w, separates c = false) (hcs : ∀ c ∈ cs.head?, separates c = true) :
    words separates (w ++ cs) = w :: words separates cs := by
  cases cs with
  | nil => rw [List.append_nil, words_of_forall_not hne hw, words_nil]
  | cons s cs =>
      have hs := hcs s rfl
      rw [words_append_cons hs, words_of_forall_not hne hw, words_cons_of_separates hs]
      rfl

/-- Words that are written one after the other, with a separator behind each, are read again. -/
theorem words_flatMap_append {s : Char} (hs : separates s = true) {ws : List (List Char)}
    (hws : ∀ w ∈ ws, w ≠ [] ∧ ∀ c ∈ w, separates c = false) (cs : List Char) :
    words separates (ws.flatMap (· ++ [s]) ++ cs) = ws ++ words separates cs := by
  have hhead (ds : List Char) : ∀ c ∈ (s :: ds).head?, separates c = true := by
    rintro c ⟨⟩
    exact hs
  induction ws with
  | nil => rfl
  | cons w ws ih =>
      obtain ⟨hne, hw⟩ := hws w List.mem_cons_self
      rw [List.flatMap_cons, List.append_assoc, List.append_assoc, List.singleton_append,
        words_append_of_head? hne hw (hhead _), words_cons_of_separates hs,
        ih fun v hv => hws v (List.mem_cons_of_mem _ hv)]
      rfl

/-- Separators in front of a text are in none of its words. -/
theorem words_append_of_forall {gap : List Char} (h : ∀ c ∈ gap, separates c = true)
    (cs : List Char) : words separates (gap ++ cs) = words separates cs := by
  induction gap with
  | nil => rfl
  | cons s gap ih =>
      obtain ⟨hs, hgap⟩ := List.forall_mem_cons.mp h
      rw [List.cons_append, words_cons_of_separates hs, ih hgap]

/-! ### What the words are -/

/-- Whether a text is a word of another: not empty, without separators, and between separators or
the ends of the other text. -/
structure IsWordOf (separates : Char → Bool) (w cs : List Char) : Prop where
  ne_nil : w ≠ []
  separates_eq : ∀ c ∈ w, separates c = false
  bounded : ∃ before behind, cs = before ++ (w ++ behind) ∧
    (∀ c ∈ before.getLast?, separates c = true) ∧ ∀ c ∈ behind.head?, separates c = true

namespace IsWordOf

variable {w cs : List Char}

theorem append_cons (h : IsWordOf separates w cs) {s : Char} (hs : separates s = true)
    (more : List Char) : IsWordOf separates w (cs ++ s :: more) where
  ne_nil := h.ne_nil
  separates_eq := h.separates_eq
  bounded := by
    obtain ⟨before, behind, rfl, hbefore, hbehind⟩ := h.bounded
    refine ⟨before, behind ++ s :: more, by simp, hbefore, ?_⟩
    cases behind with
    | nil =>
        rintro c ⟨⟩
        exact hs
    | cons c behind => exact hbehind

theorem cons_append (h : IsWordOf separates w cs) {s : Char} (hs : separates s = true)
    (front : List Char) : IsWordOf separates w (front ++ s :: cs) where
  ne_nil := h.ne_nil
  separates_eq := h.separates_eq
  bounded := by
    obtain ⟨before, behind, rfl, hbefore, hbehind⟩ := h.bounded
    refine ⟨front ++ s :: before, behind, by simp, ?_, hbehind⟩
    obtain rfl | ⟨before, c, rfl⟩ := List.eq_nil_or_concat before
    · rw [List.getLast?_concat]
      rintro c ⟨⟩
      exact hs
    · rw [List.concat_eq_append] at hbefore ⊢
      rw [← List.cons_append, ← List.append_assoc, List.getLast?_concat]
      rwa [List.getLast?_concat] at hbefore

theorem mem_words (h : IsWordOf separates w cs) : w ∈ words separates cs := by
  obtain ⟨before, behind, rfl, hbefore, hbehind⟩ := h.bounded
  have hmem : w ∈ words separates (w ++ behind) := by
    rw [words_append_of_head? h.ne_nil h.separates_eq hbehind]
    exact List.mem_cons_self
  obtain rfl | ⟨front, s, rfl⟩ := List.eq_nil_or_concat before
  · exact hmem
  · rw [List.concat_eq_append] at hbefore ⊢
    have hs : separates s = true := hbefore s List.getLast?_concat
    rw [List.append_assoc, List.singleton_append, words_append_cons hs]
    exact List.mem_append_right _ hmem

theorem of_mem_words {w cs : List Char} (h : w ∈ words separates cs) : IsWordOf separates w cs := by
  by_cases hseparator : ∃ s ∈ cs, separates s = true
  · -- Any separator will do: each of the two parts is shorter.
    obtain ⟨s, hmem, hs⟩ := hseparator
    obtain ⟨before, behind, rfl⟩ := List.append_of_mem hmem
    rw [words_append_cons hs] at h
    obtain h | h := List.mem_append.mp h
    · exact (of_mem_words h).append_cons hs behind
    · exact (of_mem_words h).cons_append hs before
  · have hnone : ∀ c ∈ cs, separates c = false := fun c hc =>
      Bool.eq_false_iff.mpr fun hs => hseparator ⟨c, hc, hs⟩
    cases cs with
    | nil => cases h
    | cons c cs =>
        rw [words_of_forall_not (List.cons_ne_nil c cs) hnone, List.mem_singleton] at h
        subst h
        exact ⟨List.cons_ne_nil c cs, hnone, [], [], by simp, nofun, nofun⟩
termination_by cs.length
decreasing_by
  all_goals
    subst_vars
    simp only [List.length_append, List.length_cons]
    omega

theorem subset (h : IsWordOf separates w cs) : w ⊆ cs := by
  obtain ⟨before, behind, rfl, -, -⟩ := h.bounded
  exact fun c hc => List.mem_append_right _ (List.mem_append_left _ hc)

end IsWordOf

theorem mem_words_iff {w cs : List Char} :
    w ∈ words separates cs ↔ IsWordOf separates w cs :=
  ⟨IsWordOf.of_mem_words, IsWordOf.mem_words⟩

theorem lower_append (cs ds : List Char) : lower (cs ++ ds) = lower cs ++ lower ds :=
  List.map_append

theorem lower_cons (c : Char) (cs : List Char) : lower (c :: cs) = c.toLower :: lower cs := rfl

end Text

end Iapx86
