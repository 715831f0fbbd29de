import RowAccess.Lowering.Options
import RowAccess.Proofs.Sql.Reading.Statements

/-!
# Reading a condition

A condition is read from the outside in: alternatives between its ORs, factors between the
ANDs of an alternative, and what is inside the brackets around a factor again in the same
way.  A factor that does not stand in brackets is an atom.  The result is a tree, and a text
that is put together from factors by one conjunction is read as these factors, each read as
it is by itself.

Main results:

- `parse_eq`: one round of the reading.
- `parse_conjoin`: factors with a conjunction between them are read one by one.
- `parse_brackets`: brackets around a text do not change what it is read as.
- `Clause.parse_text`: a clause is an atom.
-/

namespace RowAccess.Sql

namespace Reading

/-! ## Brackets around everything -/

/-- What is inside the brackets, if one pair of brackets stands around everything. -/
def enclosed? : List Token → Option (List Token)
  | .mark '(' :: rest =>
    if rest.getLast? = some (.mark ')') ∧ Nesting.top.matched rest.dropLast = true ∧
        (Nesting.top.after rest.dropLast).depth = 0 then
      some rest.dropLast
    else none
  | _ => none

/-- There is less inside the brackets. -/
theorem length_enclosed? {ts inner : List Token} (h : enclosed? ts = some inner) :
    inner.length < ts.length := by
  unfold enclosed? at h
  split at h
  next rest =>
    split at h
    next =>
      obtain rfl := Option.some.inj h
      rw [List.length_cons, List.length_dropLast]
      omega
    next => cases h
  next => cases h

/-! ## Parts -/

namespace Cutting

/-- Whether the parts read so far have a number of tokens at most. -/
def Within (c : Cutting) (n : Nat) : Prop :=
  (∀ part ∈ c.done, part.length ≤ n) ∧ c.current.length ≤ n

/-- One more token lengthens a part by one at most. -/
theorem Within.step {c : Cutting} {n : Nat} (h : c.Within n) (conjunction : Conjunction)
    (t : Token) : (c.step conjunction t).Within (n + 1) := by
  rcases h with ⟨hdone, hcurrent⟩
  rw [Cutting.step]
  split
  next =>
    refine ⟨fun part hpart => ?_, Nat.zero_le _⟩
    rcases List.mem_append.1 hpart with hpart | hpart
    · exact Nat.le_succ_of_le (hdone part hpart)
    · rw [List.mem_singleton.1 hpart]
      exact Nat.le_succ_of_le hcurrent
  next =>
    refine ⟨fun part hpart => Nat.le_succ_of_le (hdone part hpart), ?_⟩
    rw [List.length_append, List.length_singleton]
    exact Nat.succ_le_succ hcurrent

/-- Several tokens lengthen a part by their number at most. -/
theorem Within.run {c : Cutting} {n : Nat} (h : c.Within n) (conjunction : Conjunction)
    (ts : List Token) : (c.run conjunction ts).Within (n + ts.length) := by
  induction ts generalizing c n with
  | nil => exact h
  | cons t ts ih =>
    have more := ih (h.step conjunction t)
    rw [List.length_cons, Nat.add_comm ts.length 1, ← Nat.add_assoc]
    exact more

end Cutting

/-- A part of a condition is not longer than the condition. -/
theorem length_of_mem_cut {conjunction : Conjunction} {ts part : List Token}
    (h : part ∈ cut conjunction ts) : part.length ≤ ts.length := by
  have start : (⟨.top, [], []⟩ : Cutting).Within 0 :=
    ⟨fun part hpart => absurd hpart List.not_mem_nil, Nat.le_refl 0⟩
  rcases start.run conjunction ts with ⟨hdone, hcurrent⟩
  rw [Nat.zero_add] at hdone hcurrent
  rcases List.mem_append.1 h with hpart | hpart
  · exact hdone part hpart
  · rw [List.mem_singleton.1 hpart]
    exact hcurrent

/-! ## Reading -/

/-- What a condition is read as. -/
inductive Parsed where
  | atom (ts : List Token)
  | joined (conjunction : Conjunction) (parts : List Parsed)

/-- Parts with a conjunction between them; one part stands alone. -/
def Parsed.join (conjunction : Conjunction) : List Parsed → Parsed
  | [only] => only
  | parts => joined conjunction parts

/-- Reads a condition. -/
def parse (ts : List Token) : Parsed :=
  .join .or <| (cut .or ts).attach.map fun alternative =>
    .join .and <| (cut .and alternative.1).attach.map fun factor =>
      match _ : enclosed? factor.1 with
      | some inner => parse inner
      | none => .atom factor.1
termination_by ts.length
decreasing_by
  have shorter := length_enclosed? ‹enclosed? factor.1 = some inner›
  have ofAlternative := length_of_mem_cut factor.2
  have ofWhole := length_of_mem_cut alternative.2
  omega

/-- Reads a factor. -/
def parseFactor (ts : List Token) : Parsed :=
  match enclosed? ts with
  | some inner => parse inner
  | none => .atom ts

/-- One round of the reading. -/
theorem parse_eq (ts : List Token) :
    parse ts = .join .or ((cut .or ts).map fun alternative =>
      .join .and ((cut .and alternative).map parseFactor)) := by
  have factor (ts : List Token) :
      (match _ : enclosed? ts with
        | some inner => parse inner
        | none => .atom ts) = parseFactor ts := by
    rw [parseFactor]
    split
    next inside => rw [inside]
    next inside => rw [inside]
  have alternative (ts : List Token) :
      (cut .and ts).attach.map (fun f => parseFactor f.1) = (cut .and ts).map parseFactor :=
    List.attach_map_val
  have condition (read : List Token → Parsed) :
      (cut .or ts).attach.map (fun a => read a.1) = (cut .or ts).map read :=
    List.attach_map_val
  rw [parse, ← condition]
  simp only [factor, alternative]

/-- A condition without separators at the top is a factor. -/
theorem parse_of_uncut {ts : List Token}
    (h : ∀ conjunction, Nesting.top.uncut conjunction ts = true) : parse ts = parseFactor ts := by
  rw [parse_eq, cut_of_uncut (h .or), List.map_singleton, cut_of_uncut (h .and),
    List.map_singleton]
  rfl

/-- Tokens in front of which everything is closed are not inside brackets around everything. -/
theorem enclosed?_eq_none {xs ys : List Token} {t : Token} (hxs : Nesting.top.after xs = .top)
    (ht : t ≠ .mark '(') : enclosed? (xs ++ t :: ys) = none := by
  cases xs with
  | nil =>
    rw [List.nil_append, enclosed?]
    rintro rest ⟨⟩
    exact ht rfl
  | cons x xs =>
    by_cases hx : x = .mark '('
    · subst hx
      have opened : Nesting.top.next (.mark '(') = ⟨Nesting.top.depth + 1, 0⟩ := rfl
      have dropped : (xs ++ t :: ys).dropLast = xs ++ (t :: ys).dropLast :=
        List.dropLast_append_of_ne_nil (List.cons_ne_nil t ys)
      rw [List.cons_append, enclosed?, if_neg]
      rintro ⟨-, hmatched, -⟩
      rw [dropped, Nesting.matched_append, Bool.and_eq_true] at hmatched
      have inside := (Nesting.inside_of_matched hmatched.1 0 .or).1
      rw [Nesting.after, List.foldl_cons, opened, ← Nesting.after, inside] at hxs
      exact absurd (congrArg Nesting.depth hxs) (Nat.succ_ne_zero _)
    · rw [List.cons_append, enclosed?]
      rintro rest ⟨⟩
      exact hx rfl

/-! ## Values -/

section Value

variable {α : Type*} [Lattice α] [BoundedOrder α] (worth : List Token → α)

mutual

/-- What a condition that was read is worth, if `worth` says what each atom is worth. -/
def Parsed.value : Parsed → α
  | .atom ts => worth ts
  | .joined conjunction parts => conjunction.fold (Parsed.valueAll parts)

/-- What several parts are worth. -/
def Parsed.valueAll : List Parsed → List α
  | [] => []
  | p :: ps => p.value :: Parsed.valueAll ps

end

theorem Parsed.valueAll_eq_map (ps : List Parsed) :
    Parsed.valueAll worth ps = ps.map (Parsed.value worth) := by
  induction ps with
  | nil => rfl
  | cons p ps ih => rw [Parsed.valueAll, ih, List.map_cons]

/-- Joining parts joins their values. -/
theorem Parsed.value_join (conjunction : Conjunction) (ps : List Parsed) :
    (Parsed.join conjunction ps).value worth = conjunction.fold (ps.map (Parsed.value worth)) := by
  match ps with
  | [] => rfl
  | [only] => rw [join, List.map_singleton, Conjunction.fold_singleton]
  | first :: second :: rest =>
    have several : join conjunction (first :: second :: rest) =
      joined conjunction (first :: second :: rest) := rfl
    rw [several, value, valueAll_eq_map]

end Value

/-! ## Factors -/

/-- A complete text without separators at the top.  Every atom of SQL is such a text. -/
structure Factor (text : String) : Prop extends Complete text where
  uncut : ∀ conjunction, Nesting.top.uncut conjunction (tokens text) = true

theorem factor_iff (text : String) :
    Factor text ↔ Complete text ∧ Nesting.top.uncut .and (tokens text) = true ∧
      Nesting.top.uncut .or (tokens text) = true := by
  constructor
  · intro h
    exact ⟨h.toComplete, h.uncut .and, h.uncut .or⟩
  · rintro ⟨complete, hand, hor⟩
    refine ⟨complete, fun conjunction => ?_⟩
    cases conjunction with
    | and => exact hand
    | or => exact hor

instance (text : String) : Decidable (Factor text) := decidable_of_iff' _ (factor_iff text)

/-- Factors with a blank between them. -/
theorem Factor.append_blank {x y : String} (hx : Factor x) (hy : Factor y) :
    Factor (x ++ " " ++ y) where
  toComplete := hx.toComplete.append_blank hy.toComplete
  uncut := by
    intro conjunction
    rw [tokens_append_blank hx.quotes, Nesting.uncut_append, hx.uncut, hx.nesting, hy.uncut]
    rfl

/-- A complete text in brackets is a factor, whatever it is inside. -/
theorem Complete.brackets_factor {x : String} (hx : Complete x) : Factor ("(" ++ x ++ ")") :=
  ⟨hx.brackets_complete, hx.uncut_brackets⟩

/-- A factor is one alternative. -/
theorem Factor.joint {x : String} (hx : Factor x) : Joint x := ⟨hx.toComplete, hx.uncut .or⟩

/-- Brackets around a text do not change what it is read as. -/
theorem parse_brackets {x : String} (hx : Complete x) :
    parse (tokens ("(" ++ x ++ ")")) = parse (tokens x) := by
  have inside : enclosed? (.mark '(' :: tokens x ++ [.mark ')']) = some (tokens x) := by
    have closing : (tokens x ++ [Token.mark ')']).getLast? = some (.mark ')') :=
      List.getLast?_concat
    have within : (tokens x ++ [Token.mark ')']).dropLast = tokens x := List.dropLast_concat
    rw [List.cons_append, enclosed?, within, if_pos ⟨closing, hx.brackets, by rw [hx.nesting]; rfl⟩]
  rw [parse_of_uncut hx.uncut_brackets, tokens_brackets hx.quotes, parseFactor, inside]

/-! ## Conjunctions -/

/-- The tokens of texts with a conjunction between them. -/
theorem tokens_conjoin {x : String} (hx : QuotesClosed x) (conjunction : Conjunction) (y : String)
    (rest : List String) :
    tokens (WhereExpr.conjoin conjunction (x :: y :: rest)) =
      tokens x ++ .run conjunction.keyword.toList ::
        tokens (WhereExpr.conjoin conjunction (y :: rest)) := by
  have keyword : QuotesClosed conjunction.keyword := (complete_keyword conjunction).quotes
  have read : tokens conjunction.keyword = [.run conjunction.keyword.toList] := by
    cases conjunction with
    | and => decide
    | or => decide
  rw [conjoin_cons_cons, tokens_append_blank hx, tokens_append_blank keyword, read]
  rfl

/-- Outside everything a conjunction separates what it joins. -/
theorem separates_keyword (conjunction : Conjunction) :
    Nesting.top.separates conjunction (.run conjunction.keyword.toList) = true := by
  cases conjunction with
  | and => decide
  | or => decide

/-- Texts with a conjunction between them are cut into these texts. -/
theorem cut_conjoin {conjunction : Conjunction} {texts : List String} (nonempty : texts ≠ [])
    (h : ∀ x ∈ texts, Factor x) :
    cut conjunction (tokens (WhereExpr.conjoin conjunction texts)) = texts.map tokens := by
  induction texts with
  | nil => exact absurd rfl nonempty
  | cons x rest ih =>
    have hx := h x List.mem_cons_self
    cases rest with
    | nil =>
      rw [WhereExpr.conjoin, String.intercalate_singleton, List.map_singleton]
      exact cut_of_uncut (hx.uncut conjunction)
    | cons y rest =>
      have later := ih (List.cons_ne_nil y rest) fun z hz => h z (List.mem_cons_of_mem _ hz)
      have separator : (Nesting.top.after (tokens x)).separates conjunction
          (.run conjunction.keyword.toList) = true := by
        rw [hx.nesting]
        exact separates_keyword conjunction
      rw [tokens_conjoin hx.quotes, cut_append_separator separator, cut_of_uncut (hx.uncut _),
        later]
      rfl

/-- Factors with a conjunction between them are read one by one. -/
theorem parse_conjoin {conjunction : Conjunction} {texts : List String} (nonempty : texts ≠ [])
    (h : ∀ x ∈ texts, Factor x) :
    parse (tokens (WhereExpr.conjoin conjunction texts)) =
      .join conjunction (texts.map fun x => parse (tokens x)) := by
  have each (x : String) (hx : x ∈ texts) : parse (tokens x) = parseFactor (tokens x) :=
    parse_of_uncut (h x hx).uncut
  rw [parse_eq]
  cases conjunction with
  | and =>
    have joint := Joint.conjoin_and fun x hx => (h x hx).joint
    rw [cut_of_uncut joint.uncut, List.map_singleton, cut_conjoin nonempty h, List.map_map]
    exact congrArg (Parsed.join .and) (List.map_congr_left fun x hx => (each x hx).symm)
  | or =>
    rw [cut_conjoin nonempty h, List.map_map]
    refine congrArg (Parsed.join .or) (List.map_congr_left fun x hx => ?_)
    rw [each x hx, Function.comp_apply, cut_of_uncut ((h x hx).uncut .and)]
    rfl

end Reading

open Reading

/-! ## Clauses -/

/-- A clause whose column is a factor, with an escape character that may be chosen. -/
structure Clause.Atomic (c : Clause) : Prop where
  column : Factor c.column
  escape : ∀ e, c.op.escape? = some e → e ∉ CompileOptions.reservedEscapes

/-- A clause is a factor. -/
theorem Clause.Atomic.factor_text {c : Clause} (h : c.Atomic) : Factor c.text := by
  have phrases : ∀ text ∈ Clause.phrases, Factor text := by decide
  refine Clause.text_induction (fun _ _ => Factor.append_blank) phrases
    (fun n => (complete_placeholders n).brackets_factor) h.column fun e he => ?_
  have free : e ≠ '\'' := fun heq => h.escape e he (CompileOptions.mem_reservedEscapes.2 (.inl heq))
  refine ⟨(joint_quoted free).toComplete, fun conjunction => ?_⟩
  rw [tokens_quoted free]
  cases conjunction with
  | and => rfl
  | or => rfl

/-- The text of a clause begins with its column and its keyword, unless it says that a value is
or is not among none. -/
theorem Clause.text_eq (c : Clause) :
    c.text = alwaysFalse ∨ c.text = alwaysTrue ∨ c.text = c.column ++ " " ++ c.op.keyword ∨
      ∃ rest, c.text = c.column ++ " " ++ (c.op.keyword ++ " " ++ rest) := by
  rcases c with ⟨column, op, v⟩
  have behind (keyword rest : String) :
      column ++ " " ++ keyword ++ (" " ++ rest) = column ++ " " ++ (keyword ++ " " ++ rest) := by
    simp only [String.append_assoc]
  cases op with
  | like e => exact .inr (.inr (.inr ⟨_, pattern_eq column "LIKE" e⟩))
  | notLike e => exact .inr (.inr (.inr ⟨_, pattern_eq column "NOT LIKE" e⟩))
  | compare op =>
    cases op with
    | inList =>
      rcases membership_eq column "IN" (items v).length alwaysFalse with h | h
      · exact .inl h
      · exact .inr (.inr (.inr ⟨_, h⟩))
    | notInList =>
      rcases membership_eq column "NOT IN" (items v).length alwaysTrue with h | h
      · exact .inr (.inl h)
      · exact .inr (.inr (.inr ⟨_, h⟩))
    | isNull => exact .inr (.inr (.inl rfl))
    | isNotNull => exact .inr (.inr (.inl rfl))
    | between => exact .inr (.inr (.inr ⟨"? AND ?", behind "BETWEEN" "? AND ?"⟩))
    | notBetween => exact .inr (.inr (.inr ⟨"? AND ?", behind "NOT BETWEEN" "? AND ?"⟩))
    | eq => exact .inr (.inr (.inr ⟨"?", behind "=" "?"⟩))
    | ne => exact .inr (.inr (.inr ⟨"?", behind "<>" "?"⟩))
    | lt => exact .inr (.inr (.inr ⟨"?", behind "<" "?"⟩))
    | lte => exact .inr (.inr (.inr ⟨"?", behind "<=" "?"⟩))
    | gt => exact .inr (.inr (.inr ⟨"?", behind ">" "?"⟩))
    | gte => exact .inr (.inr (.inr ⟨"?", behind ">=" "?"⟩))

/-- The keyword of a comparison is a token or two, none of which is a bracket. -/
theorem ClauseOp.tokens_keyword (op : ClauseOp) :
    QuotesClosed op.keyword ∧ ∃ t ts, tokens op.keyword = t :: ts ∧ t ≠ .mark '(' := by
  have plain (keyword : String) (h : QuotesClosed keyword ∧ tokens keyword ≠ [] ∧
      (tokens keyword).head? ≠ some (.mark '(')) :
      QuotesClosed keyword ∧ ∃ t ts, tokens keyword = t :: ts ∧ t ≠ .mark '(' := by
    rcases h with ⟨closed, nonempty, first⟩
    obtain ⟨t, ts, read⟩ := List.exists_cons_of_ne_nil nonempty
    rw [read, List.head?_cons] at first
    exact ⟨closed, t, ts, read, fun ht => first (congrArg some ht)⟩
  cases op with
  | like e => exact plain "LIKE" (by decide)
  | notLike e => exact plain "NOT LIKE" (by decide)
  | compare op =>
    have known : QuotesClosed op.keyword ∧ tokens op.keyword ≠ [] ∧
        (tokens op.keyword).head? ≠ some (.mark '(') := by
      cases op <;> decide
    exact plain op.keyword known

/-- A clause does not stand in brackets. -/
theorem Clause.enclosed?_text {c : Clause} (h : Complete c.column) :
    enclosed? (tokens c.text) = none := by
  rcases c.op.tokens_keyword with ⟨closed, t, ts, read, ht⟩
  rcases c.text_eq with htext | htext | htext | ⟨rest, htext⟩
  · rw [htext]
    rfl
  · rw [htext]
    rfl
  · rw [htext, tokens_append_blank h.quotes, read]
    exact enclosed?_eq_none h.nesting ht
  · rw [htext, tokens_append_blank h.quotes, tokens_append_blank closed, read]
    exact enclosed?_eq_none h.nesting ht

/-- A clause is read as an atom. -/
theorem Clause.Atomic.parse_text {c : Clause} (h : c.Atomic) :
    parse (tokens c.text) = .atom (tokens c.text) := by
  rw [parse_of_uncut h.factor_text.uncut, parseFactor, enclosed?_text h.column.toComplete]

end RowAccess.Sql
