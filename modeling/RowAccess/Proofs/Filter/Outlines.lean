import Mathlib.Data.List.Basic
import RowAccess.Filter.Outline
import RowAccess.Proofs.Filter.Shape

/-!
# Taking an outline apart

The outline of a tree with several children is indented text inside indented text.  Cut at
the separator of its outermost group it falls into the outlines of the children all the same,
because the lines of a group are indented by two columns and its conjunction by four: what
stands in a child can only look like the separator after a line that is a bare keyword, or a
keyword indented by two columns, and no outline has such a line in such a place.

Main results:

- `Outline.cut_intercalate`: a text that was put together from clear segments is cut into
  these segments.
- `Outline.Apart.clear`: an indented outline holds no separator, not even in part at its end.
- `FilterTree.apart_display`: no line of an outline is mistaken for a keyword.
- `FilterTree.segments_display`: an outline falls into the outlines of the children.
-/

namespace RowAccess

namespace Outline

/-! ## Cutting a text -/

/-- The parts of a text between the occurrences of a separator, which are looked for from the
left and do not overlap. -/
def cut (sep : List Char) : List Char → List (List Char)
  | [] => [[]]
  | c :: cs =>
    if sep <+: c :: cs then [] :: cut sep (cs.drop (sep.length - 1))
    else (cut sep cs).modifyHead (c :: ·)
termination_by cs => cs.length

/-- The segments of a text between the occurrences of a separator. -/
def segments (sep text : String) : List String :=
  (cut sep.toList text.toList).map String.ofList

/-- Removes two columns after every line break. -/
def unindentChars : List Char → List Char
  | '\n' :: ' ' :: ' ' :: cs => '\n' :: unindentChars cs
  | c :: cs => c :: unindentChars cs
  | [] => []

/-- Removes the indentation of every line of a text but the first. -/
def unindent (s : String) : String := .ofList (unindentChars s.toList)

/-- No occurrence of the separator starts inside the segment, not even one that runs into a
separator after the segment. -/
def Clear (sep seg : List Char) : Prop :=
  ∀ ys rest, ys ≠ [] → ys <:+ seg → ¬ sep <+: ys ++ (sep ++ rest)

variable {sep seg : List Char}

theorem Clear.tail {c : Char} (h : Clear sep (c :: seg)) : Clear sep seg :=
  fun ys rest hne hys => h ys rest hne (hys.trans (List.suffix_cons c seg))

/-- A clear segment ends at the first separator after it. -/
theorem cut_append (hsep : sep ≠ []) (h : Clear sep seg) (rest : List Char) :
    cut sep (seg ++ (sep ++ rest)) = seg :: cut sep rest := by
  induction seg with
  | nil =>
    obtain ⟨s, sep, rfl⟩ := List.exists_cons_of_ne_nil hsep
    have found : s :: sep <+: s :: (sep ++ rest) := List.prefix_append (s :: sep) rest
    rw [List.nil_append, List.cons_append, cut, if_pos found, List.length_cons,
      Nat.add_sub_cancel, List.drop_left]
  | cons c seg ih =>
    have none : ¬ sep <+: c :: (seg ++ (sep ++ rest)) :=
      h (c :: seg) rest (List.cons_ne_nil c seg) List.suffix_rfl
    rw [List.cons_append, cut, if_neg none, ih h.tail, List.modifyHead_cons]

/-- A clear segment with nothing after it is not cut. -/
theorem cut_of_clear (h : Clear sep seg) : cut sep seg = [seg] := by
  induction seg with
  | nil => rw [cut]
  | cons c seg ih =>
    have none : ¬ sep <+: c :: seg := fun found =>
      h (c :: seg) [] (List.cons_ne_nil c seg) List.suffix_rfl
        (found.trans (List.prefix_append _ _))
    rw [cut, if_neg none, ih h.tail, List.modifyHead_cons]

/-- A text that was put together from clear segments is cut into these segments. -/
theorem cut_intercalate (hsep : sep ≠ []) {segs : List (List Char)} (hne : segs ≠ [])
    (h : ∀ seg ∈ segs, Clear sep seg) : cut sep (sep.intercalate segs) = segs := by
  induction segs with
  | nil => exact absurd rfl hne
  | cons seg segs ih =>
    have first : Clear sep seg := h seg List.mem_cons_self
    have others : ∀ seg ∈ segs, Clear sep seg := fun s hs => h s (List.mem_cons_of_mem seg hs)
    cases segs with
    | nil => rw [List.intercalate_singleton, cut_of_clear first]
    | cons seg' segs =>
      rw [List.intercalate_cons_cons, List.append_assoc, cut_append hsep first,
        ih (List.cons_ne_nil seg' segs) others]

/-- The two columns by which a group is indented. -/
def margin : List Char := [' ', ' ']

theorem indentChars_newline (cs : List Char) :
    indentChars ('\n' :: cs) = '\n' :: (margin ++ indentChars cs) := rfl

theorem indentChars_of_ne {c : Char} (h : c ≠ '\n') (cs : List Char) :
    indentChars (c :: cs) = c :: indentChars cs := by
  simp [indentChars, h]

/-- What was indented is as before without the indentation. -/
theorem unindentChars_indentChars (cs : List Char) : unindentChars (indentChars cs) = cs := by
  induction cs with
  | nil => rfl
  | cons c cs ih =>
    by_cases h : c = '\n'
    · subst h
      exact congrArg ('\n' :: ·) ih
    · rw [indentChars_of_ne h, unindentChars, ih]
      intro _ hc _
      exact h hc

@[simp] theorem unindent_indent (s : String) : unindent (indent s) = s := by
  rw [unindent, indent, String.toList_ofList, unindentChars_indentChars, String.ofList_toList]

/-! ## The lines of indented text -/

/-- The line of a conjunction between two children. -/
def rule (c : Conjunction) : List Char := margin ++ (margin ++ c.keyword.toList)

theorem toList_separator (c : Conjunction) :
    (separator c).toList = '\n' :: (rule c ++ '\n' :: margin) := by
  simp [separator, rule, margin]

theorem newline_not_mem_rule (c : Conjunction) : '\n' ∉ rule c := by
  cases c <;> decide

/-- Indentation puts the margin before every line, the first one aside; with a margin before
the first one, every line has it. -/
theorem splitOn_margin_indentChars (cs : List Char) :
    (margin ++ indentChars cs).splitOn '\n' = (cs.splitOn '\n').map (margin ++ ·) := by
  -- `begun` is what stands before `cs` on its line
  suffices lines : ∀ begun : List Char, '\n' ∉ begun →
      (margin ++ (begun ++ indentChars cs)).splitOn '\n' =
        ((begun ++ cs).splitOn '\n').map (margin ++ ·) from
    lines [] List.not_mem_nil
  induction cs with
  | nil =>
    intro begun hbegun
    have whole : '\n' ∉ margin ++ begun := by simpa [margin] using hbegun
    rw [indentChars, List.flatMap_nil, List.append_nil, List.splitOn_eq_singleton hbegun,
      List.splitOn_eq_singleton whole, List.map_singleton]
  | cons c cs ih =>
    intro begun hbegun
    by_cases h : c = '\n'
    · subst h
      have whole : '\n' ∉ margin ++ begun := by simpa [margin] using hbegun
      rw [indentChars_newline, ← List.append_assoc,
        List.splitOn_append_cons_self_of_not_mem whole,
        List.splitOn_append_cons_self_of_not_mem hbegun, List.map_cons]
      exact congrArg ((margin ++ begun) :: ·) (ih [] List.not_mem_nil)
    · have longer : '\n' ∉ begun ++ [c] := by
        simpa using ⟨hbegun, Ne.symm h⟩
      have moved (rest : List Char) : begun ++ c :: rest = (begun ++ [c]) ++ rest := by simp
      rw [indentChars_of_ne h, moved (indentChars cs), moved cs, ih _ longer]

/-- The lines after the first are those of the text, with the margin before them. -/
theorem tail_splitOn_indentChars (cs : List Char) :
    ((indentChars cs).splitOn '\n').tail = (cs.splitOn '\n').tail.map (margin ++ ·) := by
  have lines := congrArg List.tail (splitOn_margin_indentChars cs)
  rw [← List.map_tail] at lines
  rw [← lines, margin]
  simp [List.splitOn_cons_eq_if_modifyHead]

/-- The lines of a text are lines of any text that it ends, and not the first one. -/
theorem mem_tail_splitOn {xs ys l : List Char} (h : l ∈ ys.splitOn '\n') :
    l ∈ ((xs ++ '\n' :: ys).splitOn '\n').tail := by
  rw [List.splitOn_append_cons_self, List.tail_append_of_ne_nil (List.splitOn_ne_nil '\n' xs)]
  exact List.mem_append_right _ h

/-! ## Lines that are no keywords -/

/-- No line of the text is a keyword, and no line after the first is one behind a margin. -/
structure Apart (cs : List Char) : Prop where
  bare : ∀ c : Conjunction, c.keyword.toList ∉ cs.splitOn '\n'
  indented : ∀ c : Conjunction, margin ++ c.keyword.toList ∉ (cs.splitOn '\n').tail

/-- A line with a blank in it is no keyword. -/
theorem Apart.of_oneLine {cs : List Char} (oneLine : '\n' ∉ cs) (blank : ' ' ∈ cs) :
    Apart cs where
  bare c := by
    rw [List.splitOn_eq_singleton oneLine, List.mem_singleton]
    rintro rfl
    cases c <;> revert blank <;> decide
  indented c := by
    rw [List.splitOn_eq_singleton oneLine]
    exact List.not_mem_nil

/-- Indented once, such a text holds no separator. -/
theorem Apart.clear {cs : List Char} (h : Apart cs) (c : Conjunction) :
    Clear (separator c).toList (indentChars cs) := by
  intro ys rest hne hys found
  obtain ⟨y, ys, rfl⟩ := List.exists_cons_of_ne_nil hne
  obtain ⟨more, found⟩ := found
  rw [toList_separator] at found
  simp only [List.cons_append, List.cons.injEq, List.append_assoc] at found
  obtain ⟨rfl, found⟩ := found
  -- the line after the line break is the rule
  have line : rule c ∈ ys.splitOn '\n' := by
    have heads := congrArg (fun cs => (cs.splitOn '\n').head?) found
    rw [List.splitOn_append_cons_self_of_not_mem (newline_not_mem_rule c),
      List.splitOn_append_cons_self, List.head?_cons,
      List.head?_append_of_ne_nil _ (List.splitOn_ne_nil '\n' ys)] at heads
    exact List.mem_of_mem_head? heads.symm
  obtain ⟨xs, hxs⟩ := hys
  have later : rule c ∈ ((indentChars cs).splitOn '\n').tail := hxs ▸ mem_tail_splitOn line
  rw [tail_splitOn_indentChars, rule, List.mem_map] at later
  obtain ⟨l, hl, e⟩ := later
  exact h.indented c (List.append_cancel_left e ▸ hl)

/-! ## Groups -/

/-- The text between the parentheses of a group. -/
def body (c : Conjunction) (texts : List String) : String :=
  (separator c).intercalate (texts.map indent)

theorem enclose_of_several (c : Conjunction) {texts : List String} (several : 2 ≤ texts.length) :
    enclose c texts = "(\n  " ++ body c texts ++ "\n)" := by
  match texts, several with
  | _ :: _ :: _, _ => rfl

/-- What was put together from clear segments falls into these segments. -/
theorem segments_intercalate {sep : String} (hsep : sep.toList ≠ []) {texts : List String}
    (hne : texts ≠ []) (h : ∀ s ∈ texts, Clear sep.toList s.toList) :
    segments sep (sep.intercalate texts) = texts := by
  have hne' : texts.map String.toList ≠ [] := by simpa using hne
  rw [segments, String.toList_intercalate,
    cut_intercalate hsep hne' (List.forall_mem_map.2 h), List.map_map]
  simp [Function.comp_def]

/-- What stands between the parentheses falls into the members, each of them indented. -/
theorem segments_body (c : Conjunction) {texts : List String} (hne : texts ≠ [])
    (h : ∀ s ∈ texts, Apart s.toList) :
    (segments (separator c) (body c texts)).map unindent = texts := by
  have hsep : (separator c).toList ≠ [] := by
    rw [toList_separator]
    exact List.cons_ne_nil _ _
  have hne' : texts.map indent ≠ [] := by simpa using hne
  have clear : ∀ s ∈ texts.map indent, Clear (separator c).toList s.toList := by
    simp only [List.forall_mem_map, indent, String.toList_ofList]
    intro s hs
    exact (h s hs).clear c
  rw [body, segments_intercalate hsep hne' clear, List.map_map]
  simp [Function.comp_def]

/-- A line between the parentheses is a conjunction's or an indented line of a member. -/
theorem mem_splitOn_body {c : Conjunction} {texts : List String} {l : List Char}
    (hne : texts ≠ []) (h : l ∈ (margin ++ (body c texts).toList).splitOn '\n') :
    l = rule c ∨ ∃ s ∈ texts, ∃ l' ∈ s.toList.splitOn '\n', l = margin ++ l' := by
  induction texts with
  | nil => exact absurd rfl hne
  | cons s texts ih =>
    have first : l ∈ (margin ++ indentChars s.toList).splitOn '\n' →
        ∃ l' ∈ s.toList.splitOn '\n', l = margin ++ l' := by
      intro h
      rw [splitOn_margin_indentChars, List.mem_map] at h
      obtain ⟨l', hl', e⟩ := h
      exact ⟨l', hl', e.symm⟩
    cases texts with
    | nil =>
      rw [body, List.map_singleton, String.intercalate_singleton, indent,
        String.toList_ofList] at h
      exact .inr ⟨s, List.mem_cons_self, first h⟩
    | cons s' texts =>
      have split : margin ++ (body c (s :: s' :: texts)).toList =
          (margin ++ indentChars s.toList) ++
            '\n' :: (rule c ++ '\n' :: (margin ++ (body c (s' :: texts)).toList)) := by
        simp [body, indent, toList_separator]
      rw [split, List.splitOn_append_cons_self,
        List.splitOn_append_cons_self_of_not_mem (newline_not_mem_rule c)] at h
      rcases List.mem_append.1 h with h | h
      · exact .inr ⟨s, List.mem_cons_self, first h⟩
      · rcases List.mem_cons.1 h with rfl | h
        · exact .inl rfl
        · rcases ih (List.cons_ne_nil s' texts) h with e | ⟨t, ht, line⟩
          · exact .inl e
          · exact .inr ⟨t, List.mem_cons_of_mem s ht, line⟩

/-- The lines of a group: the opening parenthesis, and then the lines after it. -/
theorem splitOn_enclose (c : Conjunction) {texts : List String} (several : 2 ≤ texts.length) :
    (enclose c texts).toList.splitOn '\n' =
      ['('] :: ((margin ++ (body c texts).toList).splitOn '\n' ++ [[')']]) := by
  have whole : (enclose c texts).toList =
      ['('] ++ '\n' :: ((margin ++ (body c texts).toList) ++ '\n' :: [')']) := by
    simp [enclose_of_several c several, margin]
  rw [whole, List.splitOn_append_cons_self, List.splitOn_append_cons_self]
  rfl

/-- A line after the first is the closing parenthesis, a conjunction's, or an indented line of
a member. -/
theorem mem_tail_splitOn_enclose {c : Conjunction} {texts : List String} {l : List Char}
    (several : 2 ≤ texts.length) (h : l ∈ ((enclose c texts).toList.splitOn '\n').tail) :
    l = [')'] ∨ l = rule c ∨ ∃ s ∈ texts, ∃ l' ∈ s.toList.splitOn '\n', l = margin ++ l' := by
  rw [splitOn_enclose c several, List.tail_cons] at h
  rcases List.mem_append.1 h with h | h
  · have hne : texts ≠ [] := by
      rintro rfl
      simp at several
    exact .inr (mem_splitOn_body hne h)
  · exact .inl (List.mem_singleton.1 h)

/-- The lines of a group are no keywords: those of its members stand behind a margin. -/
theorem Apart.group (c : Conjunction) {texts : List String} (several : 2 ≤ texts.length)
    (h : ∀ s ∈ texts, Apart s.toList) : Apart (enclose c texts).toList where
  bare k hk := by
    have opening : k.keyword.toList ≠ ['('] := by cases k <;> decide
    have later : k.keyword.toList ∈ ((enclose c texts).toList.splitOn '\n').tail := by
      rw [splitOn_enclose c several] at hk ⊢
      exact (List.mem_cons.1 hk).resolve_left opening
    rcases mem_tail_splitOn_enclose several later with e | e | ⟨s, -, l, -, e⟩
    · cases k <;> revert e <;> decide
    · cases k <;> cases c <;> revert e <;> decide
    · cases k <;> simp [Conjunction.keyword, margin] at e
  indented k hk := by
    rcases mem_tail_splitOn_enclose several hk with e | e | ⟨s, hs, l, hl, e⟩
    · cases k <;> revert e <;> decide
    · cases k <;> cases c <;> revert e <;> decide
    · exact (h s hs).bare k (List.append_cancel_left e ▸ hl)

/-- So it is for however many texts. -/
theorem Apart.enclose (c : Conjunction) {texts : List String}
    (h : ∀ s ∈ texts, Apart s.toList) : Apart (enclose c texts).toList := by
  match texts with
  | [] =>
    constructor
    · intro k
      have lines : (Outline.enclose c []).toList.splitOn '\n' = [[]] := rfl
      rw [lines, List.mem_singleton]
      cases k <;> decide
    · intro k
      exact List.not_mem_nil
  | [only] => exact h only List.mem_cons_self
  | s :: s' :: texts => exact .group c (Nat.le_add_left 2 texts.length) h

end Outline

/-! ## Predicates on one line -/

/-- A text without a line break. -/
def Outline.OneLine (s : String) : Prop := '\n' ∉ s.toList

open Outline

namespace Outline.OneLine

instance (s : String) : Decidable (OneLine s) := inferInstanceAs (Decidable (_ ∉ _))

theorem append {s t : String} (hs : OneLine s) (ht : OneLine t) : OneLine (s ++ t) := by
  rw [OneLine, String.toList_append, List.mem_append, not_or]
  exact ⟨hs, ht⟩

theorem intercalate {sep : String} (hsep : OneLine sep) {texts : List String}
    (h : ∀ s ∈ texts, OneLine s) : OneLine (sep.intercalate texts) := by
  induction texts with
  | nil => exact List.not_mem_nil
  | cons s texts ih =>
    have first : OneLine s := h s List.mem_cons_self
    have others := ih fun t ht => h t (List.mem_cons_of_mem s ht)
    cases texts with
    | nil => rwa [String.intercalate_singleton]
    | cons t texts =>
      rw [String.intercalate_cons_cons]
      exact (first.append hsep).append others

/-- Numbers are written by digits and perhaps a sign. -/
theorem number (n : Int) : OneLine (toString n) := by
  have digits (m : Nat) : OneLine m.repr := by
    rw [OneLine, Nat.toList_repr]
    intro mem
    have digit := Nat.isDigit_of_mem_toDigits (by decide) (by decide) mem
    exact absurd digit (by decide)
  rw [Int.toString_eq_repr, Int.repr_eq_if]
  split
  · exact digits n.toNat
  · exact append (by decide) (digits (-n).toNat)

end Outline.OneLine

namespace Value

mutual

/-- The texts in a value, at any depth. -/
def texts : Value → List String
  | text s => [s]
  | list items => textsAll items
  | null | bool _ | int _ | uint _ => []

/-- The texts in several values. -/
def textsAll : List Value → List String
  | [] => []
  | v :: vs => texts v ++ textsAll vs

end

mutual

/-- A value whose texts have no line break is written on one line. -/
theorem oneLine_display : (v : Value) → (∀ s ∈ v.texts, OneLine s) → OneLine v.display
  | null, _ => by decide
  | bool b, _ => by cases b <;> decide
  | int n, _ => .number n.toInt
  | uint n, _ => .number n.toNat
  | text s, h => h s List.mem_cons_self
  | list items, h => by
    rw [display, displayAll_eq_map]
    exact .intercalate (by decide) (List.forall_mem_map.2 (oneLine_displayAll items h))

/-- So it is for several values. -/
theorem oneLine_displayAll : (vs : List Value) → (∀ s ∈ textsAll vs, OneLine s) →
    ∀ v ∈ vs, OneLine v.display
  | [], _, _, hv => absurd hv List.not_mem_nil
  | v :: vs, h, u, hu => by
    rcases List.mem_cons.1 hu with e | hu
    · rw [e]
      exact oneLine_display v fun t ht => h t (List.mem_append_left _ ht)
    · exact oneLine_displayAll vs (fun t ht => h t (List.mem_append_right _ ht)) u hu

end

end Value

namespace Predicate

/-- Neither the field nor a text of the operand has a line break. -/
def OneLine (p : Predicate) : Prop :=
  Outline.OneLine p.field ∧ ∀ s ∈ p.value.texts, Outline.OneLine s

instance (p : Predicate) : Decidable p.OneLine := inferInstanceAs (Decidable (_ ∧ _))

theorem oneLine_quoted {v : Value} (h : Outline.OneLine v.display) :
    Outline.OneLine (quoted v) :=
  (OneLine.append (by decide) h).append (by decide)

/-- Such a predicate is written on one line. -/
theorem OneLine.display {p : Predicate} (h : p.OneLine) : Outline.OneLine p.display := by
  obtain ⟨field, operand⟩ := h
  have keyword : Outline.OneLine p.op.keyword := by cases p.op <;> decide
  have subject : Outline.OneLine (p.field ++ " " ++ p.op.keyword) :=
    (field.append (by decide)).append keyword
  unfold Predicate.display
  dsimp only
  split
  · exact subject
  · split
    next items e =>
      have each : ∀ s ∈ items.map quoted, Outline.OneLine s := by
        rw [e] at operand
        exact List.forall_mem_map.2 fun v hv =>
          oneLine_quoted (Value.oneLine_displayAll items operand v hv)
      have list : Outline.OneLine (",".intercalate (items.map quoted)) :=
        .intercalate (by decide) each
      exact ((subject.append (by decide)).append list).append (by decide)
    next =>
      exact (subject.append (by decide)).append (oneLine_quoted (p.value.oneLine_display operand))

/-- The operator is set off from the field by a blank. -/
theorem blank_mem_display (p : Predicate) : ' ' ∈ p.display.toList := by
  unfold display
  dsimp only
  split
  · simp
  · split <;> simp

end Predicate

/-! ## Outlines of trees -/

mutual

/-- No line of a tree's outline is mistaken for a keyword. -/
theorem FilterTree.apart_display : (t : FilterTree) → (∀ p ∈ t.livePredicates, p.OneLine) →
    Apart t.display.toList
  | ⟨_, _, true, _⟩, _ => by
    rw [FilterTree.display, if_pos rfl]
    exact .of_oneLine (by decide) (by decide)
  | ⟨conjunction, children, false, _⟩, h => by
    rw [FilterTree.display, if_neg Bool.false_ne_true, FilterNode.displayAll_eq_map]
    exact .enclose conjunction
      (List.forall_mem_map.2 (FilterNode.apart_displayAll children h))

/-- So it is for a child. -/
theorem FilterNode.apart_display : (n : FilterNode) → (∀ p ∈ n.livePredicates, p.OneLine) →
    Apart n.display.toList
  | .leaf p, h => .of_oneLine (h p List.mem_cons_self).display p.blank_mem_display
  | .tree t, h => t.apart_display h

/-- So it is for several children. -/
theorem FilterNode.apart_displayAll : (ns : List FilterNode) →
    (∀ p ∈ FilterNode.livePredicatesAll ns, p.OneLine) → ∀ n ∈ ns, Apart n.display.toList
  | [], _, _, hn => absurd hn List.not_mem_nil
  | n :: ns, h, m, hm => by
    rcases List.mem_cons.1 hm with e | hm
    · rw [e]
      exact n.apart_display fun p hp => h p (List.mem_append_left _ hp)
    · exact FilterNode.apart_displayAll ns (fun p hp => h p (List.mem_append_right _ hp)) m hm

end

theorem FilterTree.display_of_not_alwaysFalse {t : FilterTree} (h : t.alwaysFalse = false) :
    t.display = enclose t.conjunction (t.children.map FilterNode.display) := by
  rcases t with ⟨conjunction, children, never, cache⟩
  obtain rfl : never = false := h
  rw [display, if_neg Bool.false_ne_true, FilterNode.displayAll_eq_map]

/-- The outline of a tree with several children stands in parentheses.  Between them, cut at
the tree's own separator, there is one segment for each child in order, and without its
indentation a segment is the outline of the child.  The separators of the groups below the
tree are never mistaken for it, whatever their conjunction. -/
theorem FilterTree.segments_display {t : FilterTree} (possible : t.alwaysFalse = false)
    (several : 2 ≤ t.children.length) (oneLine : ∀ p ∈ t.livePredicates, p.OneLine) :
    ∃ body : String, t.display = "(\n  " ++ body ++ "\n)" ∧
      (segments (separator t.conjunction) body).map unindent =
        t.children.map FilterNode.display := by
  have apart : ∀ text ∈ t.children.map FilterNode.display, Apart text.toList := by
    rw [FilterTree.livePredicates_of_not_alwaysFalse possible] at oneLine
    exact List.forall_mem_map.2 (FilterNode.apart_displayAll t.children oneLine)
  have texts : 2 ≤ (t.children.map FilterNode.display).length := by
    rwa [List.length_map]
  refine ⟨body t.conjunction (t.children.map FilterNode.display), ?_, ?_⟩
  · rw [t.display_of_not_alwaysFalse possible, enclose_of_several t.conjunction texts]
  · have hne := List.length_pos_iff.1 (Nat.zero_lt_of_lt texts)
    exact segments_body t.conjunction hne apart

/-- A group of the same conjunction and one of the other, each in the other. -/
def nestedGroups : FilterTree :=
  (FilterTree.any.addTree
    ((FilterTree.any.addPredicate (.equals "uid" (.uint 7))).addTree
      ((FilterTree.all.addPredicate (.equals "type" (.ofTexts ["page", "note"]))).addPredicate
        (.isNull "name")))).addPredicate
    (.equals "status" (.bool true))

theorem FilterTree.segments_display_nestedGroups :
    nestedGroups.alwaysFalse = false ∧ 2 ≤ nestedGroups.children.length ∧
      (∀ p ∈ nestedGroups.livePredicates, p.OneLine) ∧
      ∃ body : String, nestedGroups.display = "(\n  " ++ body ++ "\n)" ∧
        (segments (separator nestedGroups.conjunction) body).map unindent =
          nestedGroups.children.map FilterNode.display :=
  have possible : nestedGroups.alwaysFalse = false := rfl
  have several : 2 ≤ nestedGroups.children.length := by decide
  have oneLine : ∀ p ∈ nestedGroups.livePredicates, p.OneLine := by decide
  ⟨possible, several, oneLine, FilterTree.segments_display possible several oneLine⟩

end RowAccess
