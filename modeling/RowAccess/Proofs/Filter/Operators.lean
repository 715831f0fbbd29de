import Mathlib.Data.List.Find
import RowAccess.Filter.Predicate
import RowAccess.Proofs.Text.Words

/-!
# Texts that name operators

A text names an operator if it is written from the words of the operator's keyword, with any blanks
between them and in either case.  Reading finds the operator that a text names, and it refuses every
other text.

A keyword is known by its letters alone: no two keywords have the same letters in the same order.  So
a text that has the letters of a keyword but not its words names nothing, and blanks inside a word
are never read over.

Main results:

- `Comparison.parse_eq_ok_iff`: a text is read as the operator that it names.
- `Comparison.parse_eq_error_iff`: it is refused if it names none.
- `Comparison.ofText?_eq_find?`: the keyword is the text with its blanks collapsed, up to case.
- `Comparison.not_names_of_split`: nor does it name any with blanks inside a word.
- `Comparison.parse_language`: all that is known of the reading of a text.
-/

namespace RowAccess

open Text

namespace Comparison

/-! ## Naming -/

/-- The text is written from the words of the operator's keyword, up to the case of letters. -/
def Names (text : String) (op : Comparison) : Prop :=
  ∃ ws ks, Spaced ws text.toList ∧ Spaced ks op.keyword.toList ∧
    List.Forall₂ (List.Forall₂ SameLetter) ws ks

theorem names_iff {text : String} {op : Comparison} :
    Names text op ↔ folded op.keyword.toList = folded text.toList := by
  constructor
  · rintro ⟨ws, ks, spaced, keyword, same⟩
    rw [folded, folded, spaced.wordsOf_eq, keyword.wordsOf_eq]
    exact (forall₂_sameWord_iff.1 same).symm
  · intro h
    exact ⟨_, _, wordsOf_eq_iff.1 rfl, wordsOf_eq_iff.1 rfl, forall₂_sameWord_iff.2 h.symm⟩

/-- Texts with the same words up to their case are read alike. -/
theorem ofText?_congr {text text' : String} (h : folded text.toList = folded text'.toList) :
    ofText? text = ofText? text' := by
  rw [ofText?, ofText?, h]

theorem ofText?_keyword (op : Comparison) : ofText? op.keyword = some op := by
  cases op <;> rfl

/-- A text is found to be the operator that it names. -/
theorem ofText?_eq_some_iff {text : String} {op : Comparison} :
    ofText? text = some op ↔ Names text op := by
  rw [names_iff]
  constructor
  · intro h
    have found := List.find?_some h
    exact of_decide_eq_true found
  · intro h
    rw [← ofText?_congr h, ofText?_keyword]

/-- A text is read as the operator that it names. -/
theorem parse_eq_ok_iff {text : String} {op : Comparison} :
    parse text = .ok op ↔ Names text op := by
  rw [← ofText?_eq_some_iff, parse]
  cases ofText? text with
  | none => simp
  | some op' => simp

/-- A text that names no operator is refused, and nothing else is. -/
theorem parse_eq_error_iff {text : String} {e : FilterError} :
    parse text = .error e ↔ e = .invalidOperator text ∧ ∀ op, ¬ Names text op := by
  simp only [← ofText?_eq_some_iff, parse]
  cases ofText? text with
  | none => simp [eq_comm]
  | some op => simp

/-- A text names one operator at most. -/
theorem Names.unique {text : String} {op op' : Comparison} (h : Names text op)
    (h' : Names text op') : op = op' := by
  rw [← ofText?_eq_some_iff] at h h'
  exact Option.some.inj (h.symm.trans h')

/-! ## Other spellings -/

/-- The same words with other blanks between them, or the same text in another case. -/
inductive Respelled : List Char → List Char → Prop
  | blanks {ws : List (List Char)} {cs ds : List Char} (h : Spaced ws cs) (h' : Spaced ws ds) :
      Respelled cs ds
  | letters {cs ds : List Char} (h : List.Forall₂ SameLetter cs ds) : Respelled cs ds

/-- The words of a text in upper case are those of the text in upper case. -/
theorem folded_eq (cs : List Char) : folded cs = wordsOf (cs.map Char.toUpper) := by
  have spaced : Spaced (wordsOf cs) cs := wordsOf_eq_iff.1 rfl
  exact spaced.map_toUpper.wordsOf_eq.symm

theorem Respelled.folded_eq {cs ds : List Char} (h : Respelled cs ds) : folded cs = folded ds := by
  cases h with
  | blanks h h' => rw [folded, folded, h.wordsOf_eq, h'.wordsOf_eq]
  | letters h => rw [Comparison.folded_eq, Comparison.folded_eq, forall₂_sameLetter_iff.1 h]

/-- However it is spelled, a text names the same operator. -/
theorem names_respelled_iff {text text' : String} (h : Respelled text.toList text'.toList)
    {op : Comparison} : Names text' op ↔ Names text op := by
  rw [names_iff, names_iff, h.folded_eq]

/-! ## Keywords as they are written -/

/-- The words of a text with a single space between any two. -/
def collapsed (text : String) : String := " ".intercalate (words text)

theorem toList_collapsed (text : String) :
    (collapsed text).toList = [' '].intercalate (wordsOf text.toList) := by
  have texts : (String.toList ∘ String.ofList) = id := funext fun cs => String.toList_ofList
  rw [collapsed, words, String.toList_intercalate, List.map_map, texts, List.map_id]
  rfl

theorem toList_toUpper_collapsed (text : String) :
    (collapsed text).toUpper.toList = [' '].intercalate (folded text.toList) := by
  rw [String.toUpper, String.toList_map, toList_collapsed, map_toUpper_intercalate, folded]

/-- A keyword has no other blanks. -/
theorem collapsed_keyword (op : Comparison) : collapsed op.keyword = op.keyword := by
  cases op <;> rfl

/-- Texts have the same words up to their case exactly if they are the same up to case once their
blanks are collapsed. -/
theorem folded_eq_iff {text text' : String} :
    folded text.toList = folded text'.toList ↔
      (collapsed text).toUpper = (collapsed text').toUpper := by
  rw [← String.toList_inj, toList_toUpper_collapsed, toList_toUpper_collapsed]
  refine ⟨congrArg _, fun same => ?_⟩
  have read (cs : List Char) : wordsOf ([' '].intercalate (folded cs)) = folded cs := by
    rw [folded_eq]
    exact (spaced_intercalate _ fun w hw => isWord_of_mem_wordsOf hw).wordsOf_eq
  rw [← read text.toList, same, read]

/-- The operator that a text names is the one whose keyword is the text, once its blanks are
collapsed, up to the case of letters. -/
theorem ofText?_eq_find? (text : String) :
    ofText? text = all.find? fun op => op.keyword.toUpper = (collapsed text).toUpper := by
  refine List.find?_congr fun op _ => ?_
  rw [decide_eq_decide, folded_eq_iff, collapsed_keyword]

/-! ## Blanks inside a word -/

/-- Without the blanks between its words, a keyword is still known. -/
theorem eq_of_flatten_folded_eq {op op' : Comparison}
    (h : (folded op.keyword.toList).flatten = (folded op'.keyword.toList).flatten) : op = op' := by
  have known (op : Comparison) :
      all.find? (fun other => (folded other.keyword.toList).flatten =
        (folded op.keyword.toList).flatten) = some op := by
    cases op <;> rfl
  have found := known op
  rw [h, known op'] at found
  exact (Option.some.inj found).symm

/-- If blanks are put into a word of a text that names an operator, it names none any more. -/
theorem not_names_of_split {text broken : String} (h : Split text.toList broken.toList)
    {op : Comparison} (named : Names text op) (op' : Comparison) : ¬ Names broken op' := by
  intro named'
  rw [names_iff] at named named'
  -- The letters are those of the same keyword, but there is one word too many.
  have letters : (folded broken.toList).flatten = (folded text.toList).flatten := by
    rw [folded, folded, ← List.map_flatten, ← List.map_flatten, h.flatten_wordsOf]
  obtain rfl : op' = op := by
    apply eq_of_flatten_folded_eq
    rw [named', letters, named]
  have lengths := congrArg List.length (named'.symm.trans named)
  rw [folded, folded, List.length_map, List.length_map, h.length_wordsOf] at lengths
  omega

/-! ## The language of operators -/

/-- A text is read as an operator if and only if it is written from the words of the operator's
keyword, and there is one such operator at most.  Any other text is refused as it is.  The blanks
between the words and the case of the letters make no difference, but a blank inside a word does.  A
predicate that is made with the text is made with the operator, of which a null check takes no
operand. -/
theorem parse_language (text : String) :
    (∀ op, parse text = .ok op ↔ Names text op) ∧
      (∀ op op', Names text op → Names text op' → op = op') ∧
      (∀ e, parse text = .error e ↔ e = .invalidOperator text ∧ ∀ op, ¬ Names text op) ∧
      (∀ text', Respelled text.toList text'.toList →
        ∀ op, parse text' = .ok op ↔ parse text = .ok op) ∧
      (∀ broken, Split text.toList broken.toList → ∀ op, parse text = .ok op →
        parse broken = .error (.invalidOperator broken)) ∧
      ∀ field value,
        Predicate.parse field value (some text) =
            (parse text).map (fun op => Predicate.make field op value) ∧
          ∀ op, (Predicate.make field op value).field = field ∧
            (Predicate.make field op value).op = op ∧
            (Predicate.make field op value).value = if op.isNullCheck then .null else value := by
  refine ⟨fun op => parse_eq_ok_iff, fun op op' => Names.unique, fun e => parse_eq_error_iff,
    ?_, ?_, ?_⟩
  · intro text' respelled op
    rw [parse_eq_ok_iff, parse_eq_ok_iff, names_respelled_iff respelled]
  · intro broken split op read
    rw [parse_eq_error_iff]
    exact ⟨rfl, not_names_of_split split (parse_eq_ok_iff.1 read)⟩
  · intro field value
    refine ⟨rfl, fun op => ⟨Predicate.make_field field op value, Predicate.make_op field op value, ?_⟩⟩
    cases h : op.isNullCheck with
    | true => rw [Predicate.make_of_isNullCheck h, if_pos rfl]
    | false => rw [Predicate.make_of_not_isNullCheck h, if_neg Bool.false_ne_true]

/-- With a tabulator, wide blanks and small letters a null check is read, and it takes no operand.
With a blank in its last word it is refused. -/
theorem parse_language_spacedNullCheck :
    parse "\u2003is\tNot  null " = .ok .isNotNull ∧
      Predicate.parse "tags" (.int 1) (some "\u2003is\tNot  null ") =
        .ok (Predicate.isNotNull "tags") ∧
      parse "\u2003is\tNot  nu ll " = .error (.invalidOperator "\u2003is\tNot  nu ll ") := by
  obtain ⟨reads, -, -, respelled, split, made⟩ := parse_language "\u2003is\tNot  null "
  have read : parse "\u2003is\tNot  null " = .ok .isNotNull := rfl
  refine ⟨read, ?_, ?_⟩
  · rw [(made "tags" (.int 1)).1, read]
    rfl
  · have broken : Text.Split ("\u2003is\tNot  n".toList ++ 'u' :: 'l' :: "l ".toList)
        ("\u2003is\tNot  n".toList ++ 'u' :: ([' '] ++ 'l' :: "l ".toList)) :=
      .intro _ _ rfl rfl (.cons rfl .nil) (by simp)
    exact split _ broken _ read

end Comparison

end RowAccess
