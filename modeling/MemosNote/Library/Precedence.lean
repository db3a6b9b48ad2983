import Mathlib.Data.List.Forall2
import MemosNote.Library.Kleene

/-!
# Reading boolean text with operator precedence

A condition reaches a database as flat text: leaves, parentheses and the words
{lit}`NOT`, {lit}`AND`, {lit}`OR`, of which {lit}`NOT` binds tightest and
{lit}`OR` loosest.  This module reads such a token list in one pass with an
explicit stack, one frame for each open parenthesis.

The reading of a text is compositional: a text that reads as one operand does so
in front of every continuation ({lit}`Reads`), and a text that fills a pair of
parentheses does so whatever encloses it ({lit}`Fills`).

Main results:

- Theorems {lit}`Reads.not`, {lit}`Fills.conj`, {lit}`Fills.disj` and
  {lit}`Fills.paren`: how the connectives build operands and bodies.
- Theorem {lit}`Fills.chain`: a list of operands joined by {lit}`AND` fills a
  body with their conjunction.
- Theorem {lit}`Fills.parse`: a body read on its own is a complete parse.
-/

namespace MemosNote
namespace Library

/-- One token of a boolean text over leaves of type {lit}`α`. -/
inductive Token (α : Type) where
  | openParen
  | closeParen
  | andWord
  | orWord
  | notWord
  | leaf (a : α)
deriving DecidableEq, Repr

/-- The syntax tree a boolean text denotes. -/
inductive BoolExpr (α : Type) where
  | leaf (a : α)
  | neg (e : BoolExpr α)
  | conj (e f : BoolExpr α)
  | disj (e f : BoolExpr α)
deriving DecidableEq, Repr

variable {α β : Type}

namespace BoolExpr

/-- Strong Kleene value of a tree. -/
def eval (value : α → Truth) : BoolExpr α → Truth
  | leaf a => value a
  | neg e => (e.eval value).neg
  | conj e f => (e.eval value).conj (f.eval value)
  | disj e f => (e.eval value).disj (f.eval value)

/-- The leaves of a tree, from left to right. -/
def leaves : BoolExpr α → List α
  | leaf a => [a]
  | neg e => e.leaves
  | conj e f => e.leaves ++ f.leaves
  | disj e f => e.leaves ++ f.leaves

/-- Replace every leaf. -/
def map (g : α → β) : BoolExpr α → BoolExpr β
  | leaf a => leaf (g a)
  | neg e => neg (e.map g)
  | conj e f => conj (e.map g) (f.map g)
  | disj e f => disj (e.map g) (f.map g)

@[simp]
theorem eval_leaf (value : α → Truth) (a : α) : (leaf a).eval value = value a :=
  rfl

@[simp]
theorem eval_neg (value : α → Truth) (e : BoolExpr α) :
    (neg e).eval value = (e.eval value).neg :=
  rfl

@[simp]
theorem eval_conj (value : α → Truth) (e f : BoolExpr α) :
    (conj e f).eval value = (e.eval value).conj (f.eval value) :=
  rfl

@[simp]
theorem eval_disj (value : α → Truth) (e f : BoolExpr α) :
    (disj e f).eval value = (e.eval value).disj (f.eval value) :=
  rfl

/-- The conjunction of a nonempty list, associated to the left. -/
def conjList (e : BoolExpr α) (es : List (BoolExpr α)) : BoolExpr α :=
  es.foldl conj e

end BoolExpr

/-! ## The one-pass reader -/

/-- What has been read inside one pair of parentheses: the disjuncts already
closed, the conjuncts of the current disjunct, the pending negations, and
whether an operand must come next. -/
structure Frame (α : Type) where
  disjuncts : Option (BoolExpr α)
  conjuncts : Option (BoolExpr α)
  negations : ℕ
  wantsOperand : Bool

namespace Frame

/-- The frame of a parenthesis that was just opened. -/
def fresh : Frame α where
  disjuncts := none
  conjuncts := none
  negations := 0
  wantsOperand := true

/-- Wrap the pending negations around an operand. -/
def negate : ℕ → BoolExpr α → BoolExpr α
  | 0, e => e
  | n + 1, e => negate n (.neg e)

/-- Attach an operand to what stands before it. -/
def attach (combine : BoolExpr α → BoolExpr α → BoolExpr α) :
    Option (BoolExpr α) → BoolExpr α → BoolExpr α
  | none, e => e
  | some before, e => combine before e

/-- Accept an operand; there must be room for one. -/
def operand (f : Frame α) (e : BoolExpr α) : Option (Frame α) :=
  if f.wantsOperand then
    some { f with
      conjuncts := some (attach .conj f.conjuncts (negate f.negations e))
      negations := 0
      wantsOperand := false }
  else none

/-- The tree read so far, when no operand is missing. -/
def result (f : Frame α) : Option (BoolExpr α) :=
  if f.wantsOperand then none else f.conjuncts.map (attach .disj f.disjuncts)

end Frame

/-- Read one token. -/
def shift : List (Frame α) → Token α → Option (List (Frame α))
  | f :: fs, .leaf a => (f.operand (.leaf a)).map (· :: fs)
  | f :: fs, .notWord =>
      if f.wantsOperand then some ({ f with negations := f.negations + 1 } :: fs) else none
  | f :: fs, .andWord =>
      if f.wantsOperand then none else some ({ f with wantsOperand := true } :: fs)
  | f :: fs, .orWord =>
      f.result.map fun e =>
        { disjuncts := some e, conjuncts := none, negations := 0, wantsOperand := true } :: fs
  | f :: fs, .openParen => if f.wantsOperand then some (.fresh :: f :: fs) else none
  | f :: g :: fs, .closeParen => f.result.bind fun e => (g.operand e).map (· :: fs)
  | [_], .closeParen => none
  | [], _ => none

/-- Read a token list onto a stack. -/
def shiftAll (stack : List (Frame α)) (tokens : List (Token α)) : Option (List (Frame α)) :=
  tokens.foldlM shift stack

/-- Read a complete text. -/
def parse (tokens : List (Token α)) : Option (BoolExpr α) :=
  match shiftAll [.fresh] tokens with
  | some [f] => f.result
  | _ => none

@[simp]
theorem shiftAll_nil (stack : List (Frame α)) : shiftAll stack [] = some stack :=
  rfl

@[simp]
theorem shiftAll_cons (stack : List (Frame α)) (t : Token α) (ts : List (Token α)) :
    shiftAll stack (t :: ts) = (shift stack t).bind (shiftAll · ts) :=
  rfl

theorem shiftAll_append (stack : List (Frame α)) (ts us : List (Token α)) :
    shiftAll stack (ts ++ us) = (shiftAll stack ts).bind (shiftAll · us) := by
  simp [shiftAll, List.foldlM_append]

/-- A text reads as one operand wherever an operand is wanted. -/
def Reads (ts : List (Token α)) (e : BoolExpr α) : Prop :=
  ∀ (f : Frame α) (fs : List (Frame α)), f.wantsOperand = true →
    shiftAll (f :: fs) ts = (f.operand e).map (· :: fs)

/-- A text fills a fresh pair of parentheses. -/
def Fills (ts : List (Token α)) (e : BoolExpr α) : Prop :=
  ∀ fs : List (Frame α), ∃ f : Frame α,
    shiftAll (.fresh :: fs) ts = some (f :: fs) ∧ f.result = some e

/-- A leaf is an operand. -/
theorem Reads.leaf (a : α) : Reads [.leaf a] (.leaf a) := by
  intro f fs _
  simp only [shiftAll_cons, shift]
  cases f.operand (.leaf a) <;> simp

/-- The empty text is no operand. -/
theorem Reads.ne_nil {ts : List (Token α)} {e : BoolExpr α} (h : Reads ts e) : ts ≠ [] := by
  rintro rfl
  have hread := h .fresh [] rfl
  simp [Frame.operand, Frame.fresh] at hread

/-- {lit}`NOT` turns an operand into an operand. -/
theorem Reads.not {ts : List (Token α)} {e : BoolExpr α} (h : Reads ts e) :
    Reads (.notWord :: ts) (.neg e) := by
  rintro ⟨disjuncts, conjuncts, negations, _⟩ fs rfl
  rw [shiftAll_cons]
  simp only [shift, if_true, Option.bind_some]
  rw [h _ fs rfl]
  rfl

/-- The frame that has read exactly one tree and wants an operator next. -/
private def holding (e : BoolExpr α) : Frame α where
  disjuncts := none
  conjuncts := some e
  negations := 0
  wantsOperand := false

private theorem operand_fresh (e : BoolExpr α) :
    (Frame.fresh : Frame α).operand e = some (holding e) :=
  rfl

private theorem result_holding (e : BoolExpr α) : (holding e).result = some e :=
  rfl

/-- An operand fills a body. -/
theorem Reads.fills {ts : List (Token α)} {e : BoolExpr α} (h : Reads ts e) : Fills ts e := by
  intro fs
  refine ⟨holding e, ?_, result_holding e⟩
  rw [h .fresh fs rfl, operand_fresh, Option.map_some]

/-- A body between parentheses is an operand. -/
theorem Fills.paren {ts : List (Token α)} {e : BoolExpr α} (h : Fills ts e) :
    Reads (.openParen :: ts ++ [.closeParen]) e := by
  intro f fs hf
  obtain ⟨g, hread, hresult⟩ := h (f :: fs)
  have hopen : shift (f :: fs) (.openParen : Token α) = some (.fresh :: f :: fs) := by
    simp [shift, hf]
  rw [List.cons_append, shiftAll_cons, hopen, Option.bind_some, shiftAll_append, hread,
    Option.bind_some, shiftAll_cons]
  simp only [shift, hresult, Option.bind_some]
  cases f.operand e <;> simp

/-- Two operands joined by {lit}`OR` fill a body. -/
theorem Fills.disj {ts us : List (Token α)} {e f : BoolExpr α}
    (hts : Reads ts e) (hus : Reads us f) : Fills (ts ++ .orWord :: us) (.disj e f) := by
  intro fs
  refine ⟨⟨some e, some f, 0, false⟩, ?_, rfl⟩
  rw [shiftAll_append, hts .fresh fs rfl, operand_fresh, Option.map_some, Option.bind_some,
    shiftAll_cons]
  simp only [shift, result_holding, Option.map_some, Option.bind_some]
  rw [hus _ fs rfl]
  rfl

/-- Appending {lit}`AND` and an operand to a chain of conjuncts extends the chain. -/
private theorem chain_step {us : List (Token α)} {e f : BoolExpr α} (hus : Reads us f)
    (fs : List (Frame α)) :
    shiftAll (holding e :: fs) (.andWord :: us) = some (holding (.conj e f) :: fs) := by
  rw [shiftAll_cons]
  simp only [shift, holding, Bool.false_eq_true, if_false, Option.bind_some]
  rw [hus _ fs rfl]
  rfl

/-- Join texts with the word {lit}`AND`. -/
def joinAnd : List (List (Token α)) → List (Token α)
  | [] => []
  | [ts] => ts
  | ts :: us :: rest => ts ++ .andWord :: joinAnd (us :: rest)

theorem joinAnd_cons_cons (ts us : List (Token α)) (rest : List (List (Token α))) :
    joinAnd (ts :: us :: rest) = ts ++ .andWord :: joinAnd (us :: rest) :=
  rfl

private theorem chain_reads {e : BoolExpr α} {texts : List (List (Token α))}
    {es : List (BoolExpr α)} (h : List.Forall₂ Reads texts es) (hne : texts ≠ [])
    (fs : List (Frame α)) :
    shiftAll (holding e :: fs) (.andWord :: joinAnd texts) =
      some (holding (BoolExpr.conjList e es) :: fs) := by
  induction h generalizing e with
  | nil => contradiction
  | @cons ts f rest es hts hrest ih =>
      cases rest with
      | nil =>
          cases hrest
          exact chain_step hts fs
      | cons us rest =>
          rw [joinAnd_cons_cons, ← List.cons_append, shiftAll_append, chain_step hts,
            Option.bind_some, ih (by simp)]
          rfl

/-- A chain of operands joined by {lit}`AND` fills a body with their conjunction. -/
theorem Fills.chain {ts : List (Token α)} {e : BoolExpr α} {texts : List (List (Token α))}
    {es : List (BoolExpr α)} (hts : Reads ts e) (h : List.Forall₂ Reads texts es) :
    Fills (joinAnd (ts :: texts)) (BoolExpr.conjList e es) := by
  intro fs
  cases texts with
  | nil =>
      cases h
      exact hts.fills fs
  | cons us rest =>
      refine ⟨holding (BoolExpr.conjList e es), ?_, result_holding _⟩
      rw [joinAnd_cons_cons, shiftAll_append, hts .fresh fs rfl, operand_fresh,
        Option.map_some, Option.bind_some, chain_reads h (by simp)]

/-- Two operands joined by {lit}`AND` fill a body. -/
theorem Fills.conj {ts us : List (Token α)} {e f : BoolExpr α}
    (hts : Reads ts e) (hus : Reads us f) : Fills (ts ++ .andWord :: us) (.conj e f) :=
  Fills.chain hts (.cons hus .nil)

/-- A body read on its own is a complete parse. -/
theorem Fills.parse {ts : List (Token α)} {e : BoolExpr α} (h : Fills ts e) :
    parse ts = some e := by
  obtain ⟨f, hread, hresult⟩ := h []
  simp [Library.parse, hread, hresult]

/-- {lit}`NOT` binds tighter than {lit}`AND`, and {lit}`AND` tighter than {lit}`OR`. -/
example :
    parse [.leaf 0, .orWord, .notWord, .leaf 1, .andWord, .leaf 2] =
      some (.disj (.leaf 0) (.conj (.neg (.leaf 1)) (.leaf 2))) := by
  decide

end Library
end MemosNote
