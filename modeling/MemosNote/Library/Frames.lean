import Mathlib.Data.List.Basic

/-!
# Frames behind a separator of two symbols

A text is cut at every occurrence of two symbols, from the left.  A reader that gets the text in
chunks keeps what stands behind the last separator and cuts again with the next chunk.

Main results:

- Theorem {lit}`split_append`: the pieces of a longer text, from what was kept.
- Theorem {lit}`Reader.feedAll_pieces`: chunks do not matter.
- Theorem {lit}`split_frames`: the pieces of frames are their bodies.
-/

namespace MemosNote
namespace Library
namespace Frames

variable {α : Type} [DecidableEq α] {a b : α}

/-- The pieces of a text between separators. -/
def split (a b : α) : List α → List (List α)
  | [] => [[]]
  | [x] => [[x]]
  | x :: y :: rest =>
      if x = a ∧ y = b then [] :: split a b rest
      else (split a b (y :: rest)).modifyHead (x :: ·)

theorem split_cons_of_not {x y : α} {rest : List α} (h : ¬(x = a ∧ y = b)) :
    split a b (x :: y :: rest) = (split a b (y :: rest)).modifyHead (x :: ·) := by
  rw [split, if_neg h]

theorem split_ne_nil (l : List α) : split a b l ≠ [] := by
  induction l using split.induct a b with
  | case1 => simp [split]
  | case2 x => simp [split]
  | case3 x y rest hsep _ => simp [split, hsep]
  | case4 x y rest hsep ih =>
      rw [split_cons_of_not hsep]
      intro h
      exact ih (by simpa using h)

/-- Without separator the only piece is the text. -/
theorem eq_of_split_eq_singleton {l piece : List α} (h : split a b l = [piece]) : piece = l := by
  induction l using split.induct a b generalizing piece with
  | case1 => simpa [split] using h.symm
  | case2 x => simpa [split] using h.symm
  | case3 x y rest hsep _ =>
      rw [split, if_pos hsep] at h
      exact absurd (List.cons.inj h).2 (split_ne_nil rest)
  | case4 x y rest hsep ih =>
      rw [split_cons_of_not hsep] at h
      cases hpieces : split a b (y :: rest) with
      | nil => exact absurd hpieces (split_ne_nil _)
      | cons first others =>
          rw [hpieces] at h
          rcases List.cons.inj h with ⟨rfl, rfl⟩
          rw [ih hpieces]

/-- What stands behind the last separator. -/
def remainder (a b : α) (l : List α) : List α :=
  (split a b l).getLast (split_ne_nil l)

/-- The pieces that a separator ends. -/
def complete (a b : α) (l : List α) : List (List α) :=
  (split a b l).dropLast

/-- The pieces of a longer text. -/
theorem split_append (l more : List α) :
    split a b (l ++ more) = complete a b l ++ split a b (remainder a b l ++ more) := by
  induction l using split.induct a b with
  | case1 => rfl
  | case2 x => rfl
  | case3 x y rest hsep ih =>
      have hpieces : split a b (x :: y :: rest) = [] :: split a b rest := by
        rw [split, if_pos hsep]
      have hcomplete : complete a b (x :: y :: rest) = [] :: complete a b rest := by
        rw [complete, hpieces, List.dropLast_cons_of_ne_nil (split_ne_nil rest)]
        rfl
      have hremainder : remainder a b (x :: y :: rest) = remainder a b rest := by
        simp only [remainder, hpieces, List.getLast_cons (split_ne_nil rest)]
      rw [hcomplete, hremainder, List.cons_append, List.cons_append, split, if_pos hsep, ih]
      rfl
  | case4 x y rest hsep ih =>
      rw [List.cons_append, List.cons_append, split_cons_of_not hsep, ← List.cons_append, ih]
      have hpieces := @split_cons_of_not α _ a b x y rest hsep
      cases hrest : split a b (y :: rest) with
      | nil => exact absurd hrest (split_ne_nil _)
      | cons first others =>
          rw [hrest, List.modifyHead_cons] at hpieces
          cases others with
          | nil =>
              have hfirst := eq_of_split_eq_singleton hrest
              simp only [complete, remainder, hpieces, hrest, List.dropLast_singleton,
                List.getLast_singleton, List.nil_append, hfirst, List.cons_append,
                split_cons_of_not hsep]
          | cons second others =>
              simp [complete, remainder, hpieces, hrest]

theorem complete_append (l more : List α) :
    complete a b (l ++ more) = complete a b l ++ complete a b (remainder a b l ++ more) := by
  rw [complete, split_append, List.dropLast_append_of_ne_nil (split_ne_nil _)]
  rfl

theorem remainder_append (l more : List α) :
    remainder a b (l ++ more) = remainder a b (remainder a b l ++ more) := by
  simp only [remainder, split_append l more, List.getLast_append_of_ne_nil _ (split_ne_nil _)]

/-! ## Reading in chunks -/

/-- The complete pieces so far, and what is kept. -/
structure Reader (α : Type) where
  pieces : List (List α) := []
  buffer : List α := []

namespace Reader

/-- Read a chunk. -/
def feed (a b : α) (r : Reader α) (chunk : List α) : Reader α where
  pieces := r.pieces ++ complete a b (r.buffer ++ chunk)
  buffer := remainder a b (r.buffer ++ chunk)

/-- Read some chunks. -/
def feedAll (a b : α) (r : Reader α) : List (List α) → Reader α
  | [] => r
  | chunk :: chunks => feedAll a b (r.feed a b chunk) chunks

/-- A reader that has read a text. -/
structure HasRead (a b : α) (text : List α) (r : Reader α) : Prop where
  pieces : r.pieces = complete a b text
  buffer : r.buffer = remainder a b text

theorem HasRead.feed {text : List α} {r : Reader α} (h : HasRead a b text r) (chunk : List α) :
    HasRead a b (text ++ chunk) (r.feed a b chunk) := by
  constructor
  · rw [Reader.feed, h.pieces, h.buffer, complete_append text chunk]
  · rw [Reader.feed, h.buffer, remainder_append text chunk]

theorem HasRead.feedAll {text : List α} {r : Reader α} (h : HasRead a b text r)
    (chunks : List (List α)) : HasRead a b (text ++ chunks.flatten) (r.feedAll a b chunks) := by
  induction chunks generalizing text r with
  | nil =>
      rw [List.flatten_nil, List.append_nil]
      exact h
  | cons chunk chunks ih =>
      have hchunks := ih (h.feed chunk)
      rw [List.append_assoc] at hchunks
      exact hchunks

/-- Chunks do not matter. -/
theorem feedAll_pieces (chunks : List (List α)) :
    (({} : Reader α).feedAll a b chunks).pieces = complete a b chunks.flatten := by
  have hstart : HasRead a b [] ({} : Reader α) := ⟨rfl, rfl⟩
  exact (hstart.feedAll chunks).pieces

end Reader

/-! ## Frames -/

/-- A frame without the separator's first symbol is a piece. -/
theorem split_frame {body : List α} (h : a ∉ body) (rest : List α) :
    split a b (body ++ a :: b :: rest) = body :: split a b rest := by
  induction body with
  | nil => rw [List.nil_append, split, if_pos ⟨rfl, rfl⟩]
  | cons x body ih =>
      have hx : ¬x = a := fun hxa => h (hxa ▸ List.mem_cons_self)
      have hbody := ih fun hmem => h (List.mem_cons_of_mem x hmem)
      cases body with
      | nil =>
          rw [List.cons_append, List.nil_append, split_cons_of_not (by simp [hx])]
          rw [List.nil_append] at hbody
          rw [hbody]
          rfl
      | cons y body =>
          rw [List.cons_append, List.cons_append, split_cons_of_not (by simp [hx]),
            ← List.cons_append, hbody]
          rfl

/-- The pieces of frames are their bodies. -/
theorem split_frames {bodies : List (List α)} (h : ∀ body ∈ bodies, a ∉ body) :
    split a b (bodies.flatMap (· ++ [a, b])) = bodies ++ [[]] := by
  induction bodies with
  | nil => rfl
  | cons body bodies ih =>
      have htext : (body :: bodies).flatMap (· ++ [a, b]) =
          body ++ a :: b :: bodies.flatMap (· ++ [a, b]) := by simp
      rw [htext, split_frame (h body List.mem_cons_self),
        ih fun other hother => h other (List.mem_cons_of_mem body hother)]
      rfl

theorem complete_frames {bodies : List (List α)} (h : ∀ body ∈ bodies, a ∉ body) :
    complete a b (bodies.flatMap (· ++ [a, b])) = bodies := by
  rw [complete, split_frames h, List.dropLast_concat]

end Frames
end Library
end MemosNote
