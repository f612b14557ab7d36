/-
  Cdht/Tokens.lean
  ================
  **Splitting a text at delimiters.**

  `runs` are the maximal runs of characters that are no delimiters: what is left of
  the pieces between delimiters when the empty ones are thrown away.  `strtok` finds
  them one at a time: it skips delimiters, takes the run that begins there, and goes
  on behind the delimiter that ends it.  Nothing in this file is about a particular
  program or character set.
-/
import Mathlib.Data.List.TakeWhile

namespace Cdht.Tokens

variable {α : Type} (delimiter : α → Bool)

def runs (text : List α) : List (List α) :=
  (text.splitOnP delimiter).filter fun run => !run.isEmpty

/-- One call of `strtok` on the text that is left: the token and the text behind it, or
    `none` for NULL. -/
def strtok (text : List α) : Option (List α × List α) :=
  match text.dropWhile delimiter with
  | [] => none
  | char :: chars =>
      some ((char :: chars).takeWhile (fun char => !delimiter char),
        ((char :: chars).dropWhile (fun char => !delimiter char)).drop 1)

variable {delimiter}

/-! ### Maximal runs -/

@[simp] theorem runs_nil : runs delimiter [] = [] := rfl

theorem runs_append_cons {separator : α} (h : delimiter separator = true) (left right : List α) :
    runs delimiter (left ++ separator :: right) = runs delimiter left ++ runs delimiter right := by
  rw [runs, List.splitOnP_append_cons left right h, List.filter_append]
  rfl

theorem runs_cons_of_delimiter {separator : α} (h : delimiter separator = true) (text : List α) :
    runs delimiter (separator :: text) = runs delimiter text := runs_append_cons h [] text

theorem runs_of_forall_not {run : List α} (hrun : run ≠ [])
    (h : ∀ char ∈ run, delimiter char = false) : runs delimiter run = [run] := by
  rw [runs, List.splitOnP_eq_singleton h]
  have hkept : (!run.isEmpty) = true := by
    rw [Bool.not_eq_true', List.isEmpty_eq_false_iff]
    exact hrun
  rw [List.filter_cons, if_pos hkept, List.filter_nil]

theorem runs_dropWhile (text : List α) :
    runs delimiter (text.dropWhile delimiter) = runs delimiter text := by
  induction text with
  | nil => rfl
  | cons char text ih =>
    by_cases h : delimiter char = true
    · rw [List.dropWhile_cons_of_pos h, runs_cons_of_delimiter h, ih]
    · rw [List.dropWhile_cons_of_neg h]

/-- **One run more than there are delimiters, at most.** -/
theorem length_runs_le (text : List α) :
    (runs delimiter text).length ≤ 1 + text.countP delimiter := by
  have hpieces : (text.splitOnP delimiter).length = 1 + text.countP delimiter := by
    induction text with
    | nil => rfl
    | cons char text ih =>
      rw [List.splitOnP_cons_eq_if_modifyHead]
      by_cases h : delimiter char = true
      · rw [if_pos h, List.length_cons, ih, List.countP_cons_of_pos h]
        omega
      · rw [if_neg h, List.length_modifyHead, ih, List.countP_cons_of_neg h]
  rw [← hpieces]
  exact List.length_filter_le _ _

/-- **Joined tokens are the runs of the text they make.** -/
theorem runs_intercalate {separator : α} (h : delimiter separator = true) {tokens : List (List α)}
    (htokens : ∀ token ∈ tokens, token ≠ [] ∧ ∀ char ∈ token, delimiter char = false) :
    runs delimiter ([separator].intercalate tokens) = tokens := by
  induction tokens with
  | nil => rfl
  | cons token tokens ih =>
    obtain ⟨hne, hchars⟩ := htokens token List.mem_cons_self
    have hrest := ih fun other hother => htokens other (List.mem_cons_of_mem token hother)
    cases tokens with
    | nil => rw [List.intercalate_singleton, runs_of_forall_not hne hchars]
    | cons next tokens =>
      rw [List.intercalate_cons_cons, List.append_assoc, List.singleton_append,
        runs_append_cons h, runs_of_forall_not hne hchars, hrest, List.singleton_append]

/-! ### Tokens are runs -/

theorem runs_of_strtok_eq_none {text : List α} (h : strtok delimiter text = none) :
    runs delimiter text = [] := by
  unfold strtok at h
  rw [← runs_dropWhile]
  rcases hskipped : text.dropWhile delimiter with _ | ⟨char, chars⟩
  · rfl
  · rw [hskipped] at h
    cases h

theorem not_delimiter_of_dropWhile {text chars : List α} {char : α}
    (h : text.dropWhile delimiter = char :: chars) : delimiter char = false := by
  have hhead := List.head?_dropWhile_not delimiter text
  rwa [h] at hhead

/-- What `strtok` cuts a text into: the delimiters it skips, the token, and the text
    behind the delimiter that ends the token, if there is one. -/
theorem text_of_strtok_eq_some {text token rest : List α}
    (h : strtok delimiter text = some (token, rest)) :
    token ≠ [] ∧ (∀ char ∈ token, delimiter char = false) ∧
      ((text.dropWhile delimiter = token ∧ rest = []) ∨
        ∃ separator, delimiter separator = true ∧
          text.dropWhile delimiter = token ++ separator :: rest) := by
  unfold strtok at h
  rcases hskipped : text.dropWhile delimiter with _ | ⟨char, chars⟩
  · rw [hskipped] at h
    cases h
  simp only [hskipped, Option.some.injEq, Prod.mk.injEq] at h
  obtain ⟨rfl, rfl⟩ := h
  have hfirst : (!delimiter char) = true := by
    rw [not_delimiter_of_dropWhile hskipped]
    rfl
  have hsplit : (char :: chars).takeWhile (fun char => !delimiter char) ++
      (char :: chars).dropWhile (fun char => !delimiter char) = char :: chars :=
    List.takeWhile_append_dropWhile
  refine ⟨?_, ?_, ?_⟩
  · simp only [List.takeWhile_cons, hfirst, if_true, ne_eq, reduceCtorEq, not_false_iff]
  · intro other hother
    simpa using List.mem_takeWhile_imp hother
  · rcases hrest : (char :: chars).dropWhile (fun char => !delimiter char) with
      _ | ⟨separator, rest⟩
    · rw [hrest, List.append_nil] at hsplit
      exact Or.inl ⟨hsplit.symm, rfl⟩
    · have hseparator : delimiter separator = true := by
        simpa using not_delimiter_of_dropWhile hrest
      rw [hrest] at hsplit
      exact Or.inr ⟨separator, hseparator, hsplit.symm⟩

/-- **A token is the next run**, and the rest of the runs are those of the rest. -/
theorem runs_of_strtok_eq_some {text token rest : List α}
    (h : strtok delimiter text = some (token, rest)) :
    runs delimiter text = token :: runs delimiter rest := by
  obtain ⟨htoken, hchars, ⟨htext, rfl⟩ | ⟨separator, hseparator, htext⟩⟩ :=
    text_of_strtok_eq_some h
  · rw [← runs_dropWhile, htext, runs_of_forall_not htoken hchars, runs_nil]
  · rw [← runs_dropWhile, htext, runs_append_cons hseparator, runs_of_forall_not htoken hchars,
      List.singleton_append]

theorem length_rest_lt {text token rest : List α}
    (h : strtok delimiter text = some (token, rest)) : rest.length < text.length := by
  have hskipped := List.length_dropWhile_le delimiter text
  obtain ⟨htoken, -, ⟨htext, rfl⟩ | ⟨separator, -, htext⟩⟩ := text_of_strtok_eq_some h
  · have hpositive := List.length_pos_iff.mpr htoken
    rw [htext] at hskipped
    exact Nat.lt_of_lt_of_le hpositive hskipped
  · rw [htext, List.length_append, List.length_cons] at hskipped
    omega

/-- **The runs hold exactly the characters that are no delimiters.** -/
theorem mem_flatten_runs_iff {text : List α} {char : α} :
    char ∈ (runs delimiter text).flatten ↔ char ∈ text ∧ delimiter char = false := by
  rw [runs, List.flatten_filter_not_isEmpty]
  induction text with
  | nil => simp only [List.splitOnP_nil, List.flatten_singleton, List.not_mem_nil, false_and]
  | cons first text ih =>
    obtain ⟨piece, pieces, hpieces⟩ :=
      List.exists_cons_of_ne_nil (List.splitOnP_ne_nil delimiter text)
    rw [hpieces, List.flatten_cons] at ih
    rw [List.splitOnP_cons_eq_if_modifyHead, hpieces, List.modifyHead_cons, List.mem_cons]
    by_cases hfirst : delimiter first = true
    · rw [if_pos hfirst, List.flatten_cons, List.flatten_cons, List.nil_append, ih]
      constructor
      · rintro ⟨hmem, hchar⟩
        exact ⟨Or.inr hmem, hchar⟩
      · rintro ⟨rfl | hmem, hchar⟩
        · rw [hchar] at hfirst
          cases hfirst
        · exact ⟨hmem, hchar⟩
    · rw [if_neg hfirst, List.flatten_cons, List.cons_append, List.mem_cons, ih]
      constructor
      · rintro (rfl | ⟨hmem, hchar⟩)
        · exact ⟨Or.inl rfl, eq_false_of_ne_true hfirst⟩
        · exact ⟨Or.inr hmem, hchar⟩
      · rintro ⟨rfl | hmem, hchar⟩
        · exact Or.inl rfl
        · exact Or.inr ⟨hmem, hchar⟩

theorem length_flatten_runs (text : List α) :
    (runs delimiter text).flatten.length + text.countP delimiter = text.length := by
  rw [runs, List.flatten_filter_not_isEmpty]
  induction text with
  | nil => simp only [List.splitOnP_nil, List.flatten_singleton, List.length_nil, List.countP_nil]
  | cons first text ih =>
    obtain ⟨piece, pieces, hpieces⟩ :=
      List.exists_cons_of_ne_nil (List.splitOnP_ne_nil delimiter text)
    rw [hpieces, List.flatten_cons] at ih
    rw [List.splitOnP_cons_eq_if_modifyHead, hpieces, List.modifyHead_cons, List.length_cons]
    by_cases hfirst : delimiter first = true
    · rw [if_pos hfirst, List.flatten_cons, List.flatten_cons, List.nil_append,
        List.countP_cons_of_pos hfirst]
      omega
    · rw [if_neg hfirst, List.flatten_cons, List.cons_append, List.length_cons,
        List.countP_cons_of_neg hfirst]
      omega

/-- Every run takes a character, and every run but one a delimiter. -/
theorem two_mul_length_runs_le (text : List α) :
    2 * (runs delimiter text).length ≤ text.length + 1 := by
  have hchars := @length_flatten_runs α delimiter text
  have hdelimiters := @length_runs_le α delimiter text
  have hruns : (runs delimiter text).length ≤ (runs delimiter text).flatten.length := by
    have hpositive : ∀ run ∈ runs delimiter text, 0 < run.length := by
      intro run hrun
      have hkept := (List.mem_filter.mp hrun).2
      rw [Bool.not_eq_true', List.isEmpty_eq_false_iff] at hkept
      exact List.length_pos_iff.mpr hkept
    generalize runs delimiter text = tokens at hpositive
    induction tokens with
    | nil => exact Nat.le_refl 0
    | cons token tokens ih =>
      have htoken := hpositive token List.mem_cons_self
      have hrest := ih fun other hother => hpositive other (List.mem_cons_of_mem token hother)
      rw [List.flatten_cons, List.length_append, List.length_cons]
      omega
  omega

end Cdht.Tokens
