import RowAccess.Proofs.Sql.Reading.Tokens
import RowAccess.Proofs.Sql.Valuation

/-!
# Precedence of AND and OR

A condition is read as alternatives between its ORs, and each alternative as factors between
its ANDs.  Only what stands outside brackets and outside CASE and END counts, and the AND of
a BETWEEN belongs to its comparison.

Going through the tokens one keeps the nesting, the parts that are finished and the part
that is being read.  At a separator the nesting is that of the beginning, so a part by itself
is read as it is read inside the condition.

Main results:

- `nest_current`: the part that is being read is nested as the whole is.
- `cut_append_separator`, `cut_append_uncut`: the parts of two texts with a separator between
  them, and of a text that goes on without one.
- `value_append_false`: a false condition added by AND silences the last alternative only.
-/

namespace RowAccess.Sql.Reading

/-! ## Nesting -/

namespace Token

/-- Whether a token is a keyword, in letters of either case. -/
def isKeyword (keyword : String) : Token → Bool
  | run chars => chars.map Char.toUpper = keyword.toList
  | _ => false

/-- A token is one keyword at most. -/
theorem isKeyword_unique {t : Token} {a b : String} (ha : t.isKeyword a = true)
    (hb : t.isKeyword b = true) : a = b := by
  cases t with
  | quoted quote chars => cases ha
  | mark c => cases ha
  | run chars =>
    have lettersA : chars.map Char.toUpper = a.toList := of_decide_eq_true ha
    have lettersB : chars.map Char.toUpper = b.toList := of_decide_eq_true hb
    exact String.toList_inj.1 (lettersA.symm.trans lettersB)

/-- Whether a token opens a bracket of some kind. -/
def opens (t : Token) : Bool := t = mark '(' || t.isKeyword "CASE"

/-- Whether a token closes a bracket of some kind. -/
def closes (t : Token) : Bool := t = mark ')' || t.isKeyword "END"

end Token

/-- Where in a condition a token stands. -/
structure Nesting where
  /-- The number of brackets around it. -/
  depth : Nat
  /-- The number of BETWEENs outside brackets whose AND is still to come. -/
  waiting : Nat
  deriving DecidableEq

namespace Nesting

/-- Outside everything. -/
def top : Nesting := ⟨0, 0⟩

/-- The nesting behind a token. -/
def next (n : Nesting) (t : Token) : Nesting :=
  if t.opens then { n with depth := n.depth + 1 }
  else if t.closes then { n with depth := n.depth - 1 }
  else if n.depth ≠ 0 then n
  else if t.isKeyword "BETWEEN" then { n with waiting := n.waiting + 1 }
  else if t.isKeyword "AND" then { n with waiting := n.waiting - 1 }
  else n

/-- Whether a token separates what a conjunction joins. -/
def separates (conjunction : Conjunction) (n : Nesting) (t : Token) : Bool :=
  n = top && t.isKeyword conjunction.keyword

/-- The nesting behind several tokens. -/
def after (n : Nesting) (ts : List Token) : Nesting := ts.foldl next n

theorem after_append (n : Nesting) (xs ys : List Token) :
    n.after (xs ++ ys) = (n.after xs).after ys :=
  List.foldl_append

/-- Behind a separator one is outside everything again. -/
theorem next_of_separates {conjunction : Conjunction} {n : Nesting} {t : Token}
    (h : n.separates conjunction t = true) : n = top ∧ n.next t = top := by
  rw [separates, Bool.and_eq_true, decide_eq_true_eq] at h
  rcases h with ⟨rfl, hword⟩
  refine ⟨rfl, ?_⟩
  cases t with
  | quoted quote chars => cases hword
  | mark c => cases hword
  | run chars =>
    have letters : chars.map Char.toUpper = conjunction.keyword.toList := by
      simpa [Token.isKeyword] using hword
    cases conjunction with
    | and => simp [next, Token.opens, Token.closes, Token.isKeyword, letters, top,
        Conjunction.keyword]
    | or => simp [next, Token.opens, Token.closes, Token.isKeyword, letters, top,
        Conjunction.keyword]

/-- Whether no bracket is closed that was not opened. -/
def matched (n : Nesting) : List Token → Bool
  | [] => true
  | t :: ts => (!t.closes || n.depth ≠ 0) && (n.next t).matched ts

/-- Whether none of several tokens is a separator. -/
def uncut (conjunction : Conjunction) (n : Nesting) : List Token → Bool
  | [] => true
  | t :: ts => !n.separates conjunction t && (n.next t).uncut conjunction ts

theorem matched_append (n : Nesting) (xs ys : List Token) :
    n.matched (xs ++ ys) = (n.matched xs && (n.after xs).matched ys) := by
  induction xs generalizing n with
  | nil => rfl
  | cons x xs ih =>
    rw [List.cons_append, matched, ih, matched, Bool.and_assoc]
    rfl

theorem uncut_append (conjunction : Conjunction) (n : Nesting) (xs ys : List Token) :
    n.uncut conjunction (xs ++ ys) =
      (n.uncut conjunction xs && (n.after xs).uncut conjunction ys) := by
  induction xs generalizing n with
  | nil => rfl
  | cons x xs ih =>
    rw [List.cons_append, uncut, ih, uncut, Bool.and_assoc]
    rfl

/-- One bracket further in, a token changes the number of brackets alike and nothing else. -/
theorem next_inside {n : Nesting} {t : Token} (h : (!t.closes || n.depth ≠ 0) = true)
    (waiting : Nat) :
    (⟨n.depth + 1, waiting⟩ : Nesting).next t = ⟨(n.next t).depth + 1, waiting⟩ := by
  unfold next
  by_cases hopens : t.opens = true
  · rw [if_pos hopens, if_pos hopens]
  · rw [if_neg hopens, if_neg hopens]
    by_cases hcloses : t.closes = true
    · have inside : n.depth ≠ 0 := by simpa [hcloses] using h
      rw [if_pos hcloses, if_pos hcloses]
      simp only [mk.injEq, and_true]
      omega
    · rw [if_neg hcloses, if_neg hcloses, if_pos (Nat.succ_ne_zero n.depth)]
      split
      · rfl
      · split
        · rfl
        · split <;> rfl

/-- Tokens with matching brackets stay inside a bracket around them, where nothing separates. -/
theorem inside_of_matched {n : Nesting} {ts : List Token} (h : n.matched ts = true)
    (waiting : Nat) (conjunction : Conjunction) :
    (⟨n.depth + 1, waiting⟩ : Nesting).after ts = ⟨(n.after ts).depth + 1, waiting⟩ ∧
      (⟨n.depth + 1, waiting⟩ : Nesting).matched ts = true ∧
      (⟨n.depth + 1, waiting⟩ : Nesting).uncut conjunction ts = true := by
  induction ts generalizing n with
  | nil => exact ⟨rfl, rfl, rfl⟩
  | cons t ts ih =>
    rw [matched, Bool.and_eq_true] at h
    rcases ih h.2 with ⟨hafter, hmatched, huncut⟩
    have step := next_inside h.1 waiting
    refine ⟨?_, ?_, ?_⟩
    · rw [after, List.foldl_cons, step]
      exact hafter
    · rw [matched, step, hmatched]
      simp
    · rw [uncut, step, huncut]
      simp [separates, top]

end Nesting

/-! ## Cutting at separators -/

/-- The parts of a condition while it is being read. -/
structure Cutting where
  nesting : Nesting
  /-- The parts that are finished. -/
  done : List (List Token)
  /-- The part that is being read. -/
  current : List Token

namespace Cutting

/-- Reads one more token. -/
def step (conjunction : Conjunction) (c : Cutting) (t : Token) : Cutting :=
  if c.nesting.separates conjunction t then ⟨c.nesting.next t, c.done ++ [c.current], []⟩
  else ⟨c.nesting.next t, c.done, c.current ++ [t]⟩

/-- Reads several more tokens. -/
def run (conjunction : Conjunction) (c : Cutting) (ts : List Token) : Cutting :=
  ts.foldl (step conjunction) c

theorem run_append (conjunction : Conjunction) (c : Cutting) (xs ys : List Token) :
    c.run conjunction (xs ++ ys) = (c.run conjunction xs).run conjunction ys :=
  List.foldl_append

theorem nesting_step (conjunction : Conjunction) (c : Cutting) (t : Token) :
    (c.step conjunction t).nesting = c.nesting.next t := by
  rw [step]
  split
  · rfl
  · rfl

theorem nesting_run (conjunction : Conjunction) (c : Cutting) (ts : List Token) :
    (c.run conjunction ts).nesting = c.nesting.after ts := by
  induction ts generalizing c with
  | nil => rfl
  | cons t ts ih =>
    rw [run, List.foldl_cons]
    exact (ih _).trans (congrArg (fun n => Nesting.after n ts) (nesting_step conjunction c t))

/-- The part that is being read is nested as the whole is. -/
def Coherent (c : Cutting) : Prop := Nesting.top.after c.current = c.nesting

/-- One more token keeps the part that is being read nested as the whole is. -/
theorem Coherent.step {c : Cutting} (h : c.Coherent) (conjunction : Conjunction) (t : Token) :
    (c.step conjunction t).Coherent := by
  rw [Cutting.step]
  split
  next separator => exact (Nesting.next_of_separates separator).2.symm
  next =>
    rw [Coherent, Nesting.after_append, h]
    rfl

/-- So do several tokens. -/
theorem Coherent.run {c : Cutting} (h : c.Coherent) (conjunction : Conjunction)
    (ts : List Token) : (c.run conjunction ts).Coherent := by
  induction ts generalizing c with
  | nil => exact h
  | cons t ts ih => exact ih (h.step conjunction t)

/-- Without a separator the part that is being read goes on. -/
theorem run_of_uncut {conjunction : Conjunction} {c : Cutting} {ts : List Token}
    (h : c.nesting.uncut conjunction ts = true) :
    c.run conjunction ts = ⟨c.nesting.after ts, c.done, c.current ++ ts⟩ := by
  induction ts generalizing c with
  | nil =>
    rw [List.append_nil]
    rfl
  | cons t ts ih =>
    rw [Nesting.uncut, Bool.and_eq_true, Bool.not_eq_true'] at h
    have first : c.step conjunction t = ⟨c.nesting.next t, c.done, c.current ++ [t]⟩ := by
      rw [step, h.1]
      rfl
    have rest := ih (c := c.step conjunction t) (by rw [nesting_step]; exact h.2)
    rw [run, List.foldl_cons]
    refine rest.trans ?_
    rw [first, List.append_assoc]
    rfl

/-- What is finished already stays in front. -/
theorem run_done (conjunction : Conjunction) (n : Nesting) (done : List (List Token))
    (current : List Token) (ts : List Token) :
    (⟨n, done, current⟩ : Cutting).run conjunction ts =
      ⟨((⟨n, [], current⟩ : Cutting).run conjunction ts).nesting,
        done ++ ((⟨n, [], current⟩ : Cutting).run conjunction ts).done,
        ((⟨n, [], current⟩ : Cutting).run conjunction ts).current⟩ := by
  induction ts generalizing n done current with
  | nil =>
    simp only [run, List.foldl_nil, List.append_nil]
  | cons t ts ih =>
    simp only [run, List.foldl_cons, step, List.nil_append] at ih ⊢
    by_cases separator : n.separates conjunction t = true
    · rw [if_pos separator, if_pos separator, ih, ih _ [current], List.append_assoc]
    · rw [if_neg separator, if_neg separator, ih]

end Cutting

/-- Reading a condition for the separators of a conjunction. -/
def cutting (conjunction : Conjunction) (ts : List Token) : Cutting :=
  Cutting.run conjunction ⟨.top, [], []⟩ ts

/-- The parts of a condition between the separators of a conjunction. -/
def cut (conjunction : Conjunction) (ts : List Token) : List (List Token) :=
  (cutting conjunction ts).done ++ [(cutting conjunction ts).current]

theorem nesting_cutting (conjunction : Conjunction) (ts : List Token) :
    (cutting conjunction ts).nesting = Nesting.top.after ts :=
  Cutting.nesting_run conjunction _ ts

/-- The last part is nested as the whole is. -/
theorem nest_current (conjunction : Conjunction) (ts : List Token) :
    Nesting.top.after (cutting conjunction ts).current = Nesting.top.after ts := by
  have start : (⟨.top, [], []⟩ : Cutting).Coherent := rfl
  exact (start.run conjunction ts).trans (nesting_cutting conjunction ts)

theorem dropLast_cut (conjunction : Conjunction) (ts : List Token) :
    (cut conjunction ts).dropLast = (cutting conjunction ts).done :=
  List.dropLast_concat

/-- A text without separators is one part. -/
theorem cut_of_uncut {conjunction : Conjunction} {ts : List Token}
    (h : Nesting.top.uncut conjunction ts = true) : cut conjunction ts = [ts] := by
  rw [cut, cutting, Cutting.run_of_uncut h]
  rfl

/-- A text that goes on without a separator goes on with its last part. -/
theorem cut_append_uncut {conjunction : Conjunction} {xs ys : List Token}
    (h : (Nesting.top.after xs).uncut conjunction ys = true) :
    cut conjunction (xs ++ ys) =
      (cut conjunction xs).dropLast ++ [(cutting conjunction xs).current ++ ys] := by
  rw [← nesting_cutting conjunction xs] at h
  rw [dropLast_cut, cut, cutting, Cutting.run_append, ← cutting, Cutting.run_of_uncut h]

/-- The parts of two texts with a separator between them. -/
theorem cut_append_separator {conjunction : Conjunction} {xs : List Token} {t : Token}
    (h : (Nesting.top.after xs).separates conjunction t = true) (ys : List Token) :
    cut conjunction (xs ++ t :: ys) = cut conjunction xs ++ cut conjunction ys := by
  have separator := h
  rw [← nesting_cutting conjunction xs] at separator
  have first : (cutting conjunction xs).step conjunction t = ⟨.top, cut conjunction xs, []⟩ := by
    rw [Cutting.step, if_pos separator, (Nesting.next_of_separates separator).2]
    rfl
  have whole : cutting conjunction (xs ++ t :: ys) =
      Cutting.run conjunction ⟨.top, cut conjunction xs, []⟩ ys := by
    rw [← first, cutting, Cutting.run_append]
    rfl
  rw [cut, whole, Cutting.run_done, List.append_assoc]
  rfl

/-! ## The worth of a condition -/

section Value

variable {α : Type*} [Lattice α] [BoundedOrder α] (worth : List Token → α)

/-- What an alternative is worth, if `worth` says what each factor is worth. -/
def alternativeValue (ts : List Token) : α := Conjunction.and.fold ((cut .and ts).map worth)

/-- What a condition is worth: one of its alternatives must hold. -/
def value (ts : List Token) : α :=
  Conjunction.or.fold ((cut .or ts).map (alternativeValue worth))

variable {worth}

/-- A false condition added by AND silences the last alternative and no other. -/
theorem value_append_false {xs ys : List Token} {t : Token}
    (hxs : Nesting.top.after xs = .top) (hword : t.isKeyword "AND" = true)
    (hor : Nesting.top.uncut .or ys = true) (hand : Nesting.top.uncut .and ys = true)
    (hys : worth ys = ⊥) :
    value worth (xs ++ t :: ys) =
      Conjunction.or.fold ((cut .or xs).dropLast.map (alternativeValue worth)) := by
  have separator : Nesting.top.separates .and t = true := by
    rw [Nesting.separates, Bool.and_eq_true]
    exact ⟨rfl, hword⟩
  have joined : Nesting.top.uncut .or (t :: ys) = true := by
    have other : t.isKeyword "OR" ≠ true := by
      intro hor
      exact absurd (Token.isKeyword_unique hword hor) (by decide)
    rw [Nesting.uncut, (Nesting.next_of_separates separator).2, hor, Nesting.separates]
    simpa [Conjunction.keyword] using other
  have last : alternativeValue worth ((cutting .or xs).current ++ t :: ys) = ⊥ := by
    rw [← nest_current .or xs] at hxs
    rw [alternativeValue, cut_append_separator (by rw [hxs]; exact separator), cut_of_uncut hand,
      List.map_append, Conjunction.fold_and_append, List.map_singleton,
      Conjunction.fold_singleton, hys, inf_bot_eq]
  rw [value, cut_append_uncut (by rw [hxs]; exact joined), List.map_append,
    Conjunction.fold_or_append, List.map_singleton, last, Conjunction.fold_singleton,
    sup_bot_eq]

end Value

end RowAccess.Sql.Reading
