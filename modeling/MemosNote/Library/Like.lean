import Mathlib.Data.List.Forall2
import Mathlib.Data.List.Infix
import MemosNote.Library.Pieces

/-!
# Wildcard patterns

A pattern is a word over an alphabet with two wildcards and, possibly, an escape symbol that takes
the special meaning from the symbol behind it.  Literal symbols are compared by a relation, so that
matching can ignore case.

Main results:

- Theorem {lit}`tokens_escaped`: an escaped word reads back as its own symbols.
- Theorem {lit}`like_escaped_prefix`, Theorem {lit}`like_escaped_suffix` and Theorem
  {lit}`like_escaped_infix`: an escaped word with wildcards around it matches the texts in which
  the word occurs.
- Theorem {lit}`like_plain_infix`: the same for a word without special symbols, which needs no
  escaping.
- Theorem {lit}`alike_infix_iff`, Theorem {lit}`alike_cons_infix_iff`, Theorem
  {lit}`alike_concat_infix_iff` and Theorem {lit}`alike_enclosed_infix_iff`: where a word occurs in
  the pieces of a text.
- Theorem {lit}`escaped_flatMap`: a rewriting of symbols that leaves the special ones alone
  commutes with escaping.
-/

namespace MemosNote
namespace Library
namespace Like

variable {α : Type}

/-- The special symbols of a pattern language. -/
structure Wildcards (α : Type) where
  /-- Any sequence of symbols. -/
  many : α
  /-- Any one symbol. -/
  one : α
  escape : Option α
  one_ne_many : one ≠ many
  escape_ne_many : escape ≠ some many
  escape_ne_one : escape ≠ some one

/-- The parts of a pattern. -/
inductive Token (α : Type) where
  | literal (a : α)
  | one
  | many
deriving DecidableEq

namespace Wildcards

variable [DecidableEq α] (w : Wildcards α)

/-- What a symbol means that is not quoted. -/
def token (a : α) : Token α :=
  if a = w.many then .many else if a = w.one then .one else .literal a

/-- The parts of a pattern; a pattern that ends in the escape symbol is malformed. -/
def tokens : List α → Option (List (Token α))
  | [] => some []
  | a :: rest =>
      if w.escape = some a then
        match rest with
        | [] => none
        | b :: rest => (tokens rest).map (.literal b :: ·)
      else (tokens rest).map (w.token a :: ·)

/-- A symbol that means something else than itself. -/
def Special (a : α) : Prop :=
  a = w.many ∨ a = w.one ∨ w.escape = some a

instance : DecidablePred w.Special :=
  fun a => inferInstanceAs (Decidable (a = w.many ∨ a = w.one ∨ w.escape = some a))

/-- A word with an escape symbol in front of every special one. -/
def escaped (quote : α) (word : List α) : List α :=
  word.flatMap fun a => if w.Special a then [quote, a] else [a]

end Wildcards

variable (same : α → α → Bool)

/-- A text matches the parts of a pattern. -/
def matchTokens : List (Token α) → List α → Bool
  | [], text => text.isEmpty
  | .literal a :: parts, text =>
      match text with
      | [] => false
      | b :: text => same b a && matchTokens parts text
  | .one :: parts, text =>
      match text with
      | [] => false
      | _ :: text => matchTokens parts text
  | .many :: parts, text => text.tails.any fun rest => matchTokens parts rest

/-- A text matches a pattern; nothing matches a malformed one. -/
def like [DecidableEq α] (w : Wildcards α) (text pattern : List α) : Bool :=
  (w.tokens pattern).any fun parts => matchTokens same parts text

/-- Two words of the same length whose symbols correspond. -/
abbrev Alike : List α → List α → Prop :=
  List.Forall₂ fun a b => same a b = true

/-! ## Matching -/

@[simp]
theorem matchTokens_nil (text : List α) : matchTokens same [] text = true ↔ text = [] := by
  simp [matchTokens]

/-- A wildcard for sequences takes any beginning of the text. -/
theorem matchTokens_many (parts : List (Token α)) (text : List α) :
    matchTokens same (.many :: parts) text = true ↔
      ∃ taken rest, text = taken ++ rest ∧ matchTokens same parts rest = true := by
  simp only [matchTokens, List.any_eq_true, List.mem_tails]
  constructor
  · rintro ⟨rest, ⟨taken, rfl⟩, hrest⟩
    exact ⟨taken, rest, rfl, hrest⟩
  · rintro ⟨taken, rest, rfl, hrest⟩
    exact ⟨rest, List.suffix_append taken rest, hrest⟩

/-- A last wildcard for sequences takes everything. -/
@[simp]
theorem matchTokens_many_last (text : List α) : matchTokens same [.many] text = true := by
  rw [matchTokens_many]
  exact ⟨text, [], by simp, by simp⟩

/-- Literal parts take a word that is alike. -/
theorem matchTokens_literals (word : List α) (parts : List (Token α)) (text : List α) :
    matchTokens same (word.map .literal ++ parts) text = true ↔
      ∃ taken rest, text = taken ++ rest ∧ Alike same taken word ∧
        matchTokens same parts rest = true := by
  induction word generalizing text with
  | nil => simp
  | cons a word ih =>
      cases text with
      | nil =>
          simp only [List.map_cons, List.cons_append, matchTokens, Bool.false_eq_true, false_iff]
          rintro ⟨taken, rest, htext, halike, -⟩
          rcases List.append_eq_nil_iff.mp htext.symm with ⟨rfl, rfl⟩
          cases halike
      | cons b text =>
          simp only [List.map_cons, List.cons_append, matchTokens, Bool.and_eq_true, ih]
          constructor
          · rintro ⟨hab, taken, rest, rfl, halike, hrest⟩
            exact ⟨b :: taken, rest, rfl, .cons hab halike, hrest⟩
          · rintro ⟨taken, rest, htext, halike, hrest⟩
            cases halike with
            | cons hab halike =>
                rcases List.cons_eq_cons.mp htext with ⟨rfl, rfl⟩
                exact ⟨hab, _, rest, rfl, halike, hrest⟩

/-! ## Escaped words -/

section Escaped

variable [DecidableEq α] {w : Wildcards α} {quote : α}

/-- A symbol that is not special stands for itself. -/
theorem token_of_not_special {a : α} (h : ¬w.Special a) : w.token a = .literal a := by
  have hmany : a ≠ w.many := fun he => h (.inl he)
  have hone : a ≠ w.one := fun he => h (.inr (.inl he))
  rw [Wildcards.token, if_neg hmany, if_neg hone]

/-- An unquoted symbol that is not the escape symbol is read on its own. -/
theorem tokens_cons {a : α} (h : w.escape ≠ some a) (rest : List α) :
    w.tokens (a :: rest) = (w.tokens rest).map (w.token a :: ·) := by
  rw [Wildcards.tokens.eq_def]
  simp only [if_neg h]

/-- The escape symbol quotes the next one. -/
theorem tokens_quoted (hquote : w.escape = some quote) (a : α) (rest : List α) :
    w.tokens (quote :: a :: rest) = (w.tokens rest).map (.literal a :: ·) := by
  rw [Wildcards.tokens.eq_def]
  simp only [if_pos hquote]

@[simp]
theorem tokens_many (rest : List α) :
    w.tokens (w.many :: rest) = (w.tokens rest).map (.many :: ·) := by
  rw [tokens_cons w.escape_ne_many, Wildcards.token, if_pos rfl]

/-- An escaped word reads back as its own symbols. -/
theorem tokens_escaped (hquote : w.escape = some quote) (word rest : List α) :
    w.tokens (w.escaped quote word ++ rest) =
      (w.tokens rest).map (word.map .literal ++ ·) := by
  induction word with
  | nil => simp [Wildcards.escaped]
  | cons a word ih =>
      have hcons : w.escaped quote (a :: word) =
          (if w.Special a then [quote, a] else [a]) ++ w.escaped quote word := by
        simp [Wildcards.escaped]
      rw [hcons, List.append_assoc]
      by_cases ha : w.Special a
      · rw [if_pos ha, List.cons_append, List.cons_append, List.nil_append,
          tokens_quoted hquote, ih, Option.map_map]
        rfl
      · have hescape : w.escape ≠ some a := fun he => ha (.inr (.inr he))
        rw [if_neg ha, List.cons_append, List.nil_append, tokens_cons hescape,
          token_of_not_special ha, ih, Option.map_map]
        rfl

/-- An escaped word in front of a wildcard matches the texts that start with the word. -/
theorem like_escaped_prefix (hquote : w.escape = some quote) (text word : List α) :
    like same w text (w.escaped quote word ++ [w.many]) = true ↔
      ∃ part, part <+: text ∧ Alike same part word := by
  have hrest : w.tokens [w.many] = some [.many] := by
    rw [tokens_many]
    rfl
  rw [like, tokens_escaped hquote, hrest]
  simp only [Option.map_some, Option.any_some, matchTokens_literals, matchTokens_many_last,
    and_true]
  constructor
  · rintro ⟨part, rest, rfl, halike⟩
    exact ⟨part, List.prefix_append part rest, halike⟩
  · rintro ⟨part, ⟨rest, rfl⟩, halike⟩
    exact ⟨part, rest, rfl, halike⟩

/-- An escaped word behind a wildcard matches the texts that end with the word. -/
theorem like_escaped_suffix (hquote : w.escape = some quote) (text word : List α) :
    like same w text (w.many :: w.escaped quote word) = true ↔
      ∃ part, part <:+ text ∧ Alike same part word := by
  have hword := tokens_escaped hquote word []
  rw [List.append_nil] at hword
  rw [like, tokens_many, hword]
  simp only [Wildcards.tokens, Option.map_some, Option.any_some, matchTokens_many,
    matchTokens_literals, matchTokens_nil]
  constructor
  · rintro ⟨taken, rest, rfl, part, last, rfl, halike, rfl⟩
    exact ⟨part, ⟨taken, by simp⟩, halike⟩
  · rintro ⟨part, ⟨taken, rfl⟩, halike⟩
    exact ⟨taken, part, rfl, part, [], by simp, halike, rfl⟩

/-- An escaped word between wildcards matches the texts that contain the word. -/
theorem like_escaped_infix (hquote : w.escape = some quote) (text word : List α) :
    like same w text (w.many :: (w.escaped quote word ++ [w.many])) = true ↔
      ∃ part, part <:+: text ∧ Alike same part word := by
  have hrest : w.tokens [w.many] = some [.many] := by
    rw [tokens_many]
    rfl
  rw [like, tokens_many, tokens_escaped hquote, hrest]
  simp only [Option.map_some, Option.any_some, matchTokens_many, matchTokens_literals,
    matchTokens_many_last, and_true]
  constructor
  · rintro ⟨taken, rest, rfl, part, last, rfl, halike⟩
    exact ⟨part, ⟨taken, last, by simp⟩, halike⟩
  · rintro ⟨part, ⟨taken, last, rfl⟩, halike⟩
    exact ⟨taken, part ++ last, by simp, part, last, rfl, halike⟩

/-- A word without special symbols between wildcards matches the texts that contain the word. -/
theorem like_plain_infix {word : List α} (hword : ∀ a ∈ word, ¬w.Special a) (text : List α) :
    like same w text (w.many :: (word ++ [w.many])) = true ↔
      ∃ part, part <:+: text ∧ Alike same part word := by
  have htokens : ∀ word : List α, (∀ a ∈ word, ¬w.Special a) →
      w.tokens (word ++ [w.many]) = some (word.map .literal ++ [.many]) := by
    intro word hword
    induction word with
    | nil =>
        rw [List.nil_append, tokens_many]
        rfl
    | cons a word ih =>
        have ha := hword a List.mem_cons_self
        have hrest := ih fun b hb => hword b (List.mem_cons_of_mem a hb)
        rw [List.cons_append, tokens_cons fun he => ha (.inr (.inr he)), token_of_not_special ha,
          hrest]
        rfl
  rw [like, tokens_many, htokens word hword]
  simp only [Option.map_some, Option.any_some, matchTokens_many, matchTokens_literals,
    matchTokens_many_last, and_true]
  constructor
  · rintro ⟨taken, rest, rfl, part, last, rfl, halike⟩
    exact ⟨part, ⟨taken, last, by simp⟩, halike⟩
  · rintro ⟨part, ⟨taken, last, rfl⟩, halike⟩
    exact ⟨taken, part ++ last, by simp, part, last, rfl, halike⟩

/-- A rewriting that keeps the special symbols and makes no new ones commutes with escaping. -/
theorem escaped_flatMap {fold : α → List α} (hquote : w.escape = some quote)
    (hspecial : ∀ a, w.Special a → fold a = [a])
    (hplain : ∀ a, ¬w.Special a → ∀ b ∈ fold a, ¬w.Special b) (word : List α) :
    (w.escaped quote word).flatMap fold = w.escaped quote (word.flatMap fold) := by
  have hfold_quote : fold quote = [quote] := hspecial quote (.inr (.inr hquote))
  have hkeep : ∀ l : List α, (∀ b ∈ l, ¬w.Special b) → w.escaped quote l = l := by
    intro l hl
    induction l with
    | nil => rfl
    | cons b l ih =>
        have htail := ih fun c hc => hl c (List.mem_cons_of_mem b hc)
        rw [Wildcards.escaped, List.flatMap_cons, if_neg (hl b List.mem_cons_self)]
        exact congrArg (b :: ·) htail
  induction word with
  | nil => rfl
  | cons a word ih =>
      have hsplit : w.escaped quote ((a :: word).flatMap fold) =
          w.escaped quote (fold a) ++ w.escaped quote (word.flatMap fold) := by
        simp [Wildcards.escaped]
      have hcons : w.escaped quote (a :: word) =
          (if w.Special a then [quote, a] else [a]) ++ w.escaped quote word := by
        simp [Wildcards.escaped]
      rw [hsplit, hcons, List.flatMap_append, ih]
      congr 1
      by_cases ha : w.Special a
      · simp [Wildcards.escaped, ha, hspecial a ha, hfold_quote]
      · rw [if_neg ha, hkeep (fold a) (hplain a ha)]
        simp

end Escaped

/-! ## Words in the pieces of a text -/

section Cut

variable {same} {q : α} {word : List α}

/-- A word that is alike a word without the symbol has no symbol either. -/
private theorem not_mem_of_alike (hq : ∀ a b, same a b = true → (a = q ↔ b = q))
    (hword : q ∉ word) {part : List α} (h : Alike same part word) : q ∉ part := by
  induction h with
  | nil => simp
  | cons hab _ ih =>
      rw [List.mem_cons, not_or] at hword ⊢
      exact ⟨fun ha => hword.1 ((hq _ _ hab).mp ha.symm).symm, ih hword.2⟩

/-- What is alike a word and the symbol ends in the symbol. -/
private theorem alike_concat (hq : ∀ a b, same a b = true → (a = q ↔ b = q)) {part : List α}
    (h : Alike same part (word ++ [q])) : ∃ init, part = init ++ [q] ∧ Alike same init word := by
  refine ⟨part.take word.length, ?_, ?_⟩
  · have hlast := List.forall₂_drop_append part word [q] h
    rcases List.forall₂_cons_right_iff.mp hlast with ⟨a, rest, ha, hrest, hdrop⟩
    cases hrest
    cases (hq a q ha).mpr rfl
    rw [← hdrop, List.take_append_drop]
  · exact List.forall₂_take_append part word [q] h

variable [DecidableEq α]

/-- A word occurs in the pieces. -/
theorem alike_infix_iff (hq : ∀ a b, same a b = true → (a = q ↔ b = q)) (hword : q ∉ word)
    (text : List α) :
    (∃ part, part <:+: text ∧ Alike same part word) ↔
      ∃ s ∈ text.splitOn q, ∃ part, part <:+: s ∧ Alike same part word := by
  constructor
  · rintro ⟨part, hpart, halike⟩
    rcases (Pieces.infix_iff (not_mem_of_alike hq hword halike)).mp hpart with ⟨s, hs, hin⟩
    exact ⟨s, hs, part, hin, halike⟩
  · rintro ⟨s, hs, part, hin, halike⟩
    exact ⟨part, (Pieces.infix_iff (not_mem_of_alike hq hword halike)).mpr ⟨s, hs, hin⟩, halike⟩

/-- A word behind the symbol starts a piece. -/
theorem alike_cons_infix_iff (hq : ∀ a b, same a b = true → (a = q ↔ b = q))
    (hself : same q q = true) (hword : q ∉ word) (text : List α) :
    (∃ part, part <:+: text ∧ Alike same part (q :: word)) ↔
      ∃ s ∈ (text.splitOn q).tail, ∃ part, part <+: s ∧ Alike same part word := by
  constructor
  · rintro ⟨part, hpart, halike⟩
    rcases List.forall₂_cons_right_iff.mp halike with ⟨a, rest, ha, hrest, rfl⟩
    cases (hq a q ha).mpr rfl
    rcases (Pieces.cons_infix_iff (not_mem_of_alike hq hword hrest)).mp hpart with ⟨s, hs, hin⟩
    exact ⟨s, hs, rest, hin, hrest⟩
  · rintro ⟨s, hs, part, hin, halike⟩
    exact ⟨q :: part, (Pieces.cons_infix_iff (not_mem_of_alike hq hword halike)).mpr ⟨s, hs, hin⟩,
      .cons hself halike⟩

/-- A word in front of the symbol ends a piece. -/
theorem alike_concat_infix_iff (hq : ∀ a b, same a b = true → (a = q ↔ b = q))
    (hself : same q q = true) (hword : q ∉ word) (text : List α) :
    (∃ part, part <:+: text ∧ Alike same part (word ++ [q])) ↔
      ∃ s ∈ (text.splitOn q).dropLast, ∃ part, part <:+ s ∧ Alike same part word := by
  constructor
  · rintro ⟨part, hpart, halike⟩
    rcases alike_concat hq halike with ⟨init, rfl, hinit⟩
    rcases (Pieces.concat_infix_iff (not_mem_of_alike hq hword hinit)).mp hpart with ⟨s, hs, hin⟩
    exact ⟨s, hs, init, hin, hinit⟩
  · rintro ⟨s, hs, part, hin, halike⟩
    exact ⟨part ++ [q],
      (Pieces.concat_infix_iff (not_mem_of_alike hq hword halike)).mpr ⟨s, hs, hin⟩,
      List.rel_append halike (.cons hself .nil)⟩

/-- A word between two symbols is a piece. -/
theorem alike_enclosed_infix_iff (hq : ∀ a b, same a b = true → (a = q ↔ b = q))
    (hself : same q q = true) (hword : q ∉ word) (text : List α) :
    (∃ part, part <:+: text ∧ Alike same part (q :: (word ++ [q]))) ↔
      ∃ s ∈ (text.splitOn q).tail.dropLast, Alike same s word := by
  constructor
  · rintro ⟨part, hpart, halike⟩
    rcases List.forall₂_cons_right_iff.mp halike with ⟨a, rest, ha, hrest, rfl⟩
    cases (hq a q ha).mpr rfl
    rcases alike_concat hq hrest with ⟨init, rfl, hinit⟩
    exact ⟨init, (Pieces.enclosed_infix_iff (not_mem_of_alike hq hword hinit)).mp hpart, hinit⟩
  · rintro ⟨s, hs, halike⟩
    exact ⟨q :: (s ++ [q]),
      (Pieces.enclosed_infix_iff (not_mem_of_alike hq hword halike)).mpr hs,
      .cons hself (List.rel_append halike (.cons hself .nil))⟩

end Cut

end Like
end Library
end MemosNote
