import MemosNote.Filter.Render
import MemosNote.Library.Like

/-!
# Text matches

The text matches of a filter are rendered as {lit}`LIKE` with the value escaped.  Every dialect
matches up to its own case folding: it rewrites both sides character by character and then compares
characters by a relation of its own.  No dialect folds a special character of {lit}`LIKE`, or folds
anything to one.

Main results:

- Theorem {lit}`toList_escapeLikeLiteral`: the value is escaped character by character.
- Theorem {lit}`likePattern_literal`: a text matches the pattern of a value if and only if the
  value starts it, ends it or occurs in it.
-/

namespace MemosNote
namespace Filter

open Library

/-- The special characters of {lit}`LIKE` with the escape character that all dialects use. -/
def likeWildcards : Like.Wildcards Char where
  many := '%'
  one := '_'
  escape := some '\\'
  one_ne_many := by decide
  escape_ne_many := by decide
  escape_ne_one := by decide

/-- The case folding of a dialect. -/
structure CaseFolding where
  /-- What {lit}`memos_unicode_lower`, {lit}`ILIKE` or a collation makes of a character. -/
  fold : Char → List Char
  /-- How {lit}`LIKE` compares two characters after that. -/
  same : Char → Char → Bool
  fold_special : ∀ c, likeWildcards.Special c → fold c = [c]
  fold_plain : ∀ c, ¬likeWildcards.Special c → ∀ d ∈ fold c, ¬likeWildcards.Special d

namespace CaseFolding

/-- No folding at all. -/
def exact : CaseFolding where
  fold c := [c]
  same c d := c == d
  fold_special _ _ := rfl
  fold_plain c hc d hd := by
    rw [List.mem_singleton.mp hd]
    exact hc

variable (f : CaseFolding)

def foldText (text : String) : List Char :=
  text.toList.flatMap f.fold

/-- A text matches a pattern, both folded. -/
def foldedLike (text pattern : String) : Bool :=
  Like.like f.same likeWildcards (f.foldText text) (f.foldText pattern)

/-- Up to folding, a value occurs in a text where the mode wants it. -/
def Occurs (mode : TextMatchMode) (value text : String) : Prop :=
  match mode with
  | .matchPrefix => ∃ part, part <+: f.foldText text ∧ Like.Alike f.same part (f.foldText value)
  | .matchSuffix => ∃ part, part <:+ f.foldText text ∧ Like.Alike f.same part (f.foldText value)
  | .matchContains => ∃ part, part <:+: f.foldText text ∧ Like.Alike f.same part (f.foldText value)

end CaseFolding

/-- Without folding a value occurs in a text exactly as it is written. -/
theorem CaseFolding.occurs_exact (mode : TextMatchMode) (value text : String) :
    CaseFolding.exact.Occurs mode value text ↔
      match mode with
      | .matchPrefix => value.toList <+: text.toList
      | .matchSuffix => value.toList <:+ text.toList
      | .matchContains => value.toList <:+: text.toList := by
  have hfold : ∀ s : String, CaseFolding.exact.foldText s = s.toList := by
    intro s
    simp [foldText, exact]
  have halike : ∀ u v : List Char, Like.Alike CaseFolding.exact.same u v ↔ u = v := by
    intro u v
    have hsame : (fun a b => CaseFolding.exact.same a b = true) = (Eq : Char → Char → Prop) := by
      funext a b
      simp [exact]
    rw [Like.Alike, hsame, List.forall₂_eq_eq_eq]
  cases mode <;> simp [Occurs, hfold, halike]

/-! ## Escaping -/

/-- A value is escaped character by character. -/
theorem toList_escapeLikeLiteral (s : String) :
    (escapeLikeLiteral s).toList = likeWildcards.escaped '\\' s.toList := by
  have hspecial : ∀ c : Char, likeWildcards.Special c ↔ c = '\\' ∨ c = '%' ∨ c = '_' := by
    intro c
    simp only [Like.Wildcards.Special, likeWildcards, Option.some.injEq]
    tauto
  rw [escapeLikeLiteral, String.toList_join, List.flatMap_map, Like.Wildcards.escaped]
  congr 1
  funext c
  by_cases hc : c = '\\' ∨ c = '%' ∨ c = '_'
  · rw [if_pos hc, if_pos ((hspecial c).mpr hc)]
    simp
  · rw [if_neg hc, if_neg (mt (hspecial c).mp hc)]
    simp

namespace CaseFolding

variable (f : CaseFolding)

/-- Folding leaves the wildcard in its place. -/
private theorem fold_many : f.fold '%' = [likeWildcards.many] :=
  f.fold_special '%' (.inl rfl)

/-- Folding an escaped value is escaping the folded value. -/
theorem foldText_escapeLikeLiteral (s : String) :
    f.foldText (escapeLikeLiteral s) = likeWildcards.escaped '\\' (f.foldText s) := by
  rw [foldText, toList_escapeLikeLiteral]
  exact Like.escaped_flatMap rfl f.fold_special f.fold_plain s.toList

/-- The folded pattern of a text match. -/
theorem foldText_likePattern (mode : TextMatchMode) (value : String) :
    f.foldText (likePattern mode value) =
      match mode with
      | .matchPrefix => likeWildcards.escaped '\\' (f.foldText value) ++ [likeWildcards.many]
      | .matchSuffix => likeWildcards.many :: likeWildcards.escaped '\\' (f.foldText value)
      | .matchContains =>
          likeWildcards.many :: (likeWildcards.escaped '\\' (f.foldText value) ++
            [likeWildcards.many]) := by
  have happend : ∀ s t : String, f.foldText (s ++ t) = f.foldText s ++ f.foldText t := by
    intro s t
    simp [foldText]
  have hmany : f.foldText "%" = [likeWildcards.many] := by
    simp [foldText, f.fold_many]
  cases mode <;> simp only [likePattern, happend, hmany, foldText_escapeLikeLiteral] <;> simp

/-- A text matches the pattern of a value where the value occurs in it. -/
theorem foldedLike_likePattern (mode : TextMatchMode) (value text : String) :
    f.foldedLike text (likePattern mode value) = true ↔ f.Occurs mode value text := by
  rw [foldedLike, foldText_likePattern]
  cases mode with
  | matchPrefix => exact Like.like_escaped_prefix _ rfl _ _
  | matchSuffix => exact Like.like_escaped_suffix _ rfl _ _
  | matchContains => exact Like.like_escaped_infix _ rfl _ _

end CaseFolding

/-- A text matches the pattern of a value if and only if the value starts it, ends it or occurs in
it, up to the case folding of the dialect. -/
theorem likePattern_literal (folding : DialectName → CaseFolding) (dialect : DialectName)
    (mode : TextMatchMode) (value text : String) :
    (folding dialect).foldedLike text (likePattern mode value) = true ↔
      (folding dialect).Occurs mode value text :=
  (folding dialect).foldedLike_likePattern mode value text

end Filter
end MemosNote
