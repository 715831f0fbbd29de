import Mathlib.Data.List.Forall2
import RowAccess.Text.Blank

/-!
# Words and the blanks between them

A text is cut into its words at the blanks.  Read the other way, a text is written from words: each
behind the one before it, with at least one blank between two, and as many blanks around them as one
likes.  Cutting undoes writing, and it is the only way to undo it, so what is said of the words of a
text does not depend on how the words are spaced.

A blank inside a word makes two words of it.  The characters that are not blank stay the same.

Main results:

- `wordsOf_eq_iff`: the words of a text are the words that it is written from.
- `flatten_wordsOf`: the words hold every character that is not blank, in order.
- `spaced_intercalate`: words may be written with a single space between any two.
- `Split.length_wordsOf`: a word that is split by blanks counts twice.
-/

namespace RowAccess.Text

/-! ## Texts written from words -/

/-- A run of blanks, perhaps an empty one. -/
def Gap (cs : List Char) : Prop := ∀ c ∈ cs, isBlank c = true

/-- At least one character, and no blank. -/
structure IsWord (w : List Char) : Prop where
  ne_nil : w ≠ []
  solid : ∀ c ∈ w, isBlank c = false

/-- The text is written from the words, with blanks around them and between any two. -/
inductive Spaced : List (List Char) → List Char → Prop
  | gap {gap : List Char} (blank : Gap gap) : Spaced [] gap
  | last {gap w : List Char} (blank : Gap gap) (word : IsWord w) : Spaced [w] (gap ++ w)
  | next {gap w : List Char} {c : Char} {ws : List (List Char)} {cs : List Char}
      (blank : Gap gap) (word : IsWord w) (hc : isBlank c = true) (rest : Spaced ws cs) :
      Spaced (w :: ws) (gap ++ (w ++ c :: cs))

theorem Gap.nil : Gap [] := fun _ hc => absurd hc List.not_mem_nil

theorem Gap.cons {c : Char} {gap : List Char} (hc : isBlank c = true) (blank : Gap gap) :
    Gap (c :: gap) := List.forall_mem_cons.2 ⟨hc, blank⟩

theorem IsWord.singleton {c : Char} (hc : isBlank c = false) : IsWord [c] :=
  ⟨List.cons_ne_nil c [], by simpa using hc⟩

theorem IsWord.cons {c : Char} {w : List Char} (hc : isBlank c = false) (word : IsWord w) :
    IsWord (c :: w) :=
  ⟨List.cons_ne_nil c w, List.forall_mem_cons.2 ⟨hc, word.solid⟩⟩

/-! ## Cutting -/

@[simp] theorem wordsOf_nil : wordsOf [] = [] := rfl

/-- A blank in front is no part of a word. -/
theorem wordsOf_cons_of_blank {c : Char} (hc : isBlank c = true) (cs : List Char) :
    wordsOf (c :: cs) = wordsOf cs :=
  wordsOf_append_blank hc [] cs

/-- Nor are several. -/
theorem Gap.wordsOf_append {gap : List Char} (blank : Gap gap) (cs : List Char) :
    wordsOf (gap ++ cs) = wordsOf cs := by
  induction gap with
  | nil => rfl
  | cons c gap ih =>
    obtain ⟨hc, blank⟩ := List.forall_mem_cons.1 blank
    rw [List.cons_append, wordsOf_cons_of_blank hc, ih blank]

/-- A word is its only word. -/
theorem IsWord.wordsOf_eq {w : List Char} (word : IsWord w) : wordsOf w = [w] := by
  rw [wordsOf, List.splitOnP_eq_singleton word.solid]
  simp [word.ne_nil]

/-- Cutting a text finds the words that it is written from. -/
theorem Spaced.wordsOf_eq {ws : List (List Char)} {cs : List Char} (h : Spaced ws cs) :
    wordsOf cs = ws := by
  induction h with
  | @gap gap blank =>
    have none := blank.wordsOf_append []
    rwa [List.append_nil, wordsOf_nil] at none
  | last blank word => rw [blank.wordsOf_append, word.wordsOf_eq]
  | next blank word hc rest ih =>
    rw [blank.wordsOf_append, wordsOf_append_blank hc, word.wordsOf_eq, ih, List.singleton_append]

/-- A blank in front leaves the words as they are. -/
theorem Spaced.blank {c : Char} {ws : List (List Char)} {cs : List Char}
    (hc : isBlank c = true) (h : Spaced ws cs) : Spaced ws (c :: cs) := by
  cases h with
  | gap blank => exact .gap (blank.cons hc)
  | @last gap w blank word =>
    have longer : Spaced [w] (c :: gap ++ w) := .last (blank.cons hc) word
    exact longer
  | @next gap w d ws cs blank word hd rest =>
    have longer : Spaced (w :: ws) (c :: gap ++ (w ++ d :: cs)) :=
      .next (blank.cons hc) word hd rest
    exact longer

/-- Any other character in front makes the first word longer, or it is a word of its own. -/
theorem Spaced.exists_cons {c : Char} {ws : List (List Char)} {cs : List Char}
    (hc : isBlank c = false) (h : Spaced ws cs) : ∃ ws', Spaced ws' (c :: cs) := by
  have single := IsWord.singleton hc
  cases h with
  | gap blank =>
    cases cs with
    | nil => exact ⟨_, .last .nil single⟩
    | cons d cs =>
      obtain ⟨hd, blank⟩ := List.forall_mem_cons.1 blank
      exact ⟨_, .next .nil single hd (.gap blank)⟩
  | @last gap w blank word =>
    cases gap with
    | nil => exact ⟨_, .last .nil (word.cons hc)⟩
    | cons d gap =>
      obtain ⟨hd, blank⟩ := List.forall_mem_cons.1 blank
      exact ⟨_, .next .nil single hd (.last blank word)⟩
  | @next gap w e ws cs blank word he rest =>
    cases gap with
    | nil => exact ⟨_, .next .nil (word.cons hc) he rest⟩
    | cons d gap =>
      obtain ⟨hd, blank⟩ := List.forall_mem_cons.1 blank
      exact ⟨_, .next .nil single hd (.next blank word he rest)⟩

/-- Every text is written from some words. -/
theorem exists_spaced (cs : List Char) : ∃ ws, Spaced ws cs := by
  induction cs with
  | nil => exact ⟨[], .gap .nil⟩
  | cons c cs ih =>
    obtain ⟨ws, spaced⟩ := ih
    cases hc : isBlank c with
    | true => exact ⟨ws, spaced.blank hc⟩
    | false => exact spaced.exists_cons hc

/-- The words of a text are the words that it is written from. -/
theorem wordsOf_eq_iff {cs : List Char} {ws : List (List Char)} :
    wordsOf cs = ws ↔ Spaced ws cs := by
  constructor
  · rintro rfl
    obtain ⟨ws, spaced⟩ := exists_spaced cs
    rwa [spaced.wordsOf_eq]
  · exact Spaced.wordsOf_eq

/-! ## Characters of words -/

theorem Gap.filter_eq_nil {gap : List Char} (blank : Gap gap) :
    gap.filter (fun c => !isBlank c) = [] := by
  rw [List.filter_eq_nil_iff]
  intro c hc
  simp [blank c hc]

theorem IsWord.filter_eq_self {w : List Char} (word : IsWord w) :
    w.filter (fun c => !isBlank c) = w := by
  rw [List.filter_eq_self]
  intro c hc
  simp [word.solid c hc]

/-- The words that a text is written from hold the characters that are not blank, in order. -/
theorem Spaced.flatten_eq {ws : List (List Char)} {cs : List Char} (h : Spaced ws cs) :
    ws.flatten = cs.filter fun c => !isBlank c := by
  induction h with
  | gap blank => rw [blank.filter_eq_nil, List.flatten_nil]
  | last blank word =>
    rw [List.filter_append, blank.filter_eq_nil, word.filter_eq_self]
    simp
  | next blank word hc rest ih =>
    rw [List.flatten_cons, ih, List.filter_append, List.filter_append, blank.filter_eq_nil,
      word.filter_eq_self]
    simp [hc]

/-- So do the words that are found in it. -/
theorem flatten_wordsOf (cs : List Char) :
    (wordsOf cs).flatten = cs.filter fun c => !isBlank c :=
  (wordsOf_eq_iff.1 rfl).flatten_eq

/-! ## Words on a line -/

/-- What is found between blanks is a word. -/
theorem isWord_of_mem_wordsOf {w cs : List Char} (h : w ∈ wordsOf cs) : IsWord w where
  ne_nil := ne_nil_of_mem_wordsOf h
  solid := by
    intro c hc
    have kept : c ∈ (wordsOf cs).flatten := List.mem_flatten.2 ⟨w, h, hc⟩
    rw [flatten_wordsOf] at kept
    simpa using (List.mem_filter.1 kept).2

/-- Words may be written with a single space between any two. -/
theorem spaced_intercalate : (ws : List (List Char)) → (∀ w ∈ ws, IsWord w) →
    Spaced ws ([' '].intercalate ws)
  | [], _ => .gap .nil
  | [w], words => by
    rw [List.intercalate_singleton]
    exact .last .nil (words w List.mem_cons_self)
  | w :: w' :: ws, words => by
    obtain ⟨word, others⟩ := List.forall_mem_cons.1 words
    have line : Spaced (w :: w' :: ws) ([] ++ (w ++ ' ' :: [' '].intercalate (w' :: ws))) :=
      .next .nil word rfl (spaced_intercalate (w' :: ws) others)
    rwa [List.intercalate_cons_cons, List.append_assoc]

/-- The case of words may be changed before they are written or afterwards. -/
theorem map_toUpper_intercalate : (ws : List (List Char)) →
    ([' '].intercalate ws).map Char.toUpper = [' '].intercalate (ws.map (List.map Char.toUpper))
  | [] => rfl
  | [w] => by rw [List.intercalate_singleton, List.map_singleton, List.intercalate_singleton]
  | w :: w' :: ws => by
    rw [List.intercalate_cons_cons, List.map_append, map_toUpper_intercalate (w' :: ws)]
    simp [List.intercalate_cons_cons]

/-! ## Splitting a word -/

/-- The second text is the first with blanks put into one of its words. -/
inductive Split : List Char → List Char → Prop
  | intro (front back : List Char) {c d : Char} {gap : List Char} (hc : isBlank c = false)
      (hd : isBlank d = false) (blank : Gap gap) (hgap : gap ≠ []) :
      Split (front ++ c :: d :: back) (front ++ c :: (gap ++ d :: back))

/-- A character that is not blank begins one word more if no word goes on behind it. -/
theorem length_wordsOf_cons {c : Char} (hc : isBlank c = false) (cs : List Char) :
    (wordsOf (c :: cs)).length =
      (wordsOf cs).length + if cs.head?.all isBlank then 1 else 0 := by
  simp only [wordsOf, List.splitOnP_cons_eq_if_modifyHead, hc, Bool.false_eq_true, if_false]
  cases cs with
  | nil => rfl
  | cons d cs =>
    rw [List.splitOnP_cons_eq_if_modifyHead]
    cases hd : isBlank d with
    | true => simp [hd]
    | false =>
      obtain ⟨w, ws, split⟩ := List.exists_cons_of_ne_nil (List.splitOnP_ne_nil isBlank cs)
      simp [hd, split]

/-- If a word is split, there is one word more. -/
theorem Split.length_wordsOf {cs ds : List Char} (h : Split cs ds) :
    (wordsOf ds).length = (wordsOf cs).length + 1 := by
  obtain @⟨front, back, c, d, gap, hc, hd, blank, hgap⟩ := h
  induction front with
  | nil =>
    have broken : (gap ++ d :: back).head?.all isBlank = true := by
      obtain ⟨b, gap, rfl⟩ := List.exists_cons_of_ne_nil hgap
      simpa using blank b List.mem_cons_self
    rw [List.nil_append, List.nil_append, length_wordsOf_cons hc, length_wordsOf_cons hc,
      if_pos broken, blank.wordsOf_append]
    simp [hd]
  | cons e front ih =>
    rw [List.cons_append, List.cons_append]
    cases he : isBlank e with
    | true => rw [wordsOf_cons_of_blank he, wordsOf_cons_of_blank he, ih]
    | false =>
      have same : (front ++ c :: (gap ++ d :: back)).head? = (front ++ c :: d :: back).head? := by
        cases front <;> rfl
      rw [length_wordsOf_cons he, length_wordsOf_cons he, ih, same]
      omega

/-- Splitting a word leaves the characters that are not blank as they are. -/
theorem Split.flatten_wordsOf {cs ds : List Char} (h : Split cs ds) :
    (wordsOf ds).flatten = (wordsOf cs).flatten := by
  obtain ⟨front, back, hc, hd, blank, hgap⟩ := h
  simp [Text.flatten_wordsOf, blank.filter_eq_nil, hc]

/-! ## Letters and their case -/

/-- The same character, up to the case of the letters of ASCII. -/
def SameLetter (c d : Char) : Prop := c.toUpper = d.toUpper

instance (c d : Char) : Decidable (SameLetter c d) := inferInstanceAs (Decidable (_ = _))

theorem forall₂_sameLetter_iff {cs ds : List Char} :
    List.Forall₂ SameLetter cs ds ↔ cs.map Char.toUpper = ds.map Char.toUpper := by
  rw [← List.forall₂_eq_eq_eq, List.forall₂_map_left_iff, List.forall₂_map_right_iff]
  rfl

theorem forall₂_sameWord_iff {ws ks : List (List Char)} :
    List.Forall₂ (List.Forall₂ SameLetter) ws ks ↔
      ws.map (List.map Char.toUpper) = ks.map (List.map Char.toUpper) := by
  have word : List.Forall₂ SameLetter = fun w k => w.map Char.toUpper = k.map Char.toUpper := by
    funext w k
    exact propext forall₂_sameLetter_iff
  rw [← List.forall₂_eq_eq_eq, List.forall₂_map_left_iff, List.forall₂_map_right_iff, word]

/-- A letter is not blank, whatever its case. -/
theorem isBlank_toUpper (c : Char) : isBlank c.toUpper = isBlank c := by
  by_cases h : 'a'.val ≤ c.val ∧ c.val ≤ 'z'.val
  · have letters : ∀ n : Fin 26,
        isBlank (Char.ofNat (97 + n)).toUpper = isBlank (Char.ofNat (97 + n)) := by decide
    have low : 97 ≤ c.toNat := h.1
    have high : c.toNat ≤ 122 := h.2
    have number := letters ⟨c.toNat - 97, by omega⟩
    rwa [Nat.add_sub_cancel' low, Char.ofNat_toNat] at number
  · have kept : c.toUpper = c := dif_neg h
    rw [kept]

/-- The words of a text in upper case are its words in upper case. -/
theorem Spaced.map_toUpper {ws : List (List Char)} {cs : List Char} (h : Spaced ws cs) :
    Spaced (ws.map (List.map Char.toUpper)) (cs.map Char.toUpper) := by
  have gaps {gap : List Char} (blank : Gap gap) : Gap (gap.map Char.toUpper) := by
    refine List.forall_mem_map.2 fun c hc => ?_
    rw [isBlank_toUpper, blank c hc]
  have words {w : List Char} (word : IsWord w) : IsWord (w.map Char.toUpper) := by
    refine ⟨by simpa using word.ne_nil, List.forall_mem_map.2 fun c hc => ?_⟩
    rw [isBlank_toUpper, word.solid c hc]
  induction h with
  | gap blank => exact .gap (gaps blank)
  | last blank word =>
    rw [List.map_append]
    exact .last (gaps blank) (words word)
  | @next gap w c ws cs blank word hc rest ih =>
    rw [List.map_append, List.map_append, List.map_cons]
    exact .next (gaps blank) (words word) (by rw [isBlank_toUpper, hc]) ih

end RowAccess.Text
