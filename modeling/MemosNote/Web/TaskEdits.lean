import MemosNote.Library.TextMarks
import MemosNote.Web.LiveMemoRefresh

/-!
# Editing tasks

A task of a memo is toggled by replacing its marker in the text.  The tasks are those of a markdown
parser, which gives the line a task starts in, and the marker is looked for in that line by its
text.  All tasks are set with a second pattern, which knows numbered lists.

Main results:

- Theorem {lit}`toggleTaskAtIndex_iff`: when toggling does what is asked and nothing else.
- Theorem {lit}`setAllTaskMarkers_iff`: when setting all tasks does.
- Theorem {lit}`task_edits_iff`: both, for every text.
-/

namespace MemosNote
namespace Web

open Library TextMarks

/-! ## Tasks -/

/-- A task of the parser: the line it starts in, counted from zero, its state, and where its marker
is. -/
structure TaskItem where
  lineNumber : ℕ
  checked : Bool
  marker : ℕ
deriving DecidableEq

/-- What stands in a box. -/
def mark (checked : Bool) : Char :=
  if checked then 'x' else ' '

/-- What may stand in a box. -/
def isMark (c : Char) : Bool :=
  c == ' ' || c == 'x' || c == 'X'

/-- The task in the state, if its marker is at the position. -/
def TaskItem.mark (position : ℕ) (checked : Bool) (task : TaskItem) : TaskItem :=
  if task.marker = position then { task with checked := checked } else task

/-- What the parser is relied on for: tasks in document order, and a marker that decides on the
state of its task and on nothing else. -/
structure IsTaskParser (parse : List Char → List TaskItem) : Prop where
  lineNumber_mono : ∀ text, (parse text).Pairwise fun a b => a.lineNumber ≤ b.lineNumber
  marker_mono : ∀ text, (parse text).Pairwise fun a b => a.marker < b.marker
  parse_set : ∀ text, ∀ task ∈ parse text, text[task.marker]?.any isMark = true →
    ∀ checked, parse (text.set task.marker (mark checked)) =
      (parse text).map (TaskItem.mark task.marker checked)

/-! ## Patterns -/

/-- The mark of an item in a bullet list, and what follows it. -/
def bulletMark : List Char → Option (List Char × List Char)
  | [] => none
  | c :: rest => if c == '-' || c == '*' || c == '+' then some ([c], rest) else none

/-- The mark of an item in a numbered list, and what follows it. -/
def orderedMark (text : List Char) : Option (List Char × List Char) :=
  if text.takeWhile Char.isDigit = [] then none
  else
    match text.dropWhile Char.isDigit with
    | [] => none
    | c :: rest =>
        if c == '.' || c == ')' then some (text.takeWhile Char.isDigit ++ [c], rest) else none

/-- A line with a checkbox: what is in front of the bracket, the mark in it and what is behind. -/
structure Checkbox where
  before : List Char
  mark : Char
  after : List Char

/-- The space of a regular expression. -/
def space (c : Char) : Bool :=
  IsSpace c

/-- An item mark, space, and a box. -/
def matchCheckbox (itemMark : List Char → Option (List Char × List Char)) (line : List Char) :
    Option Checkbox :=
  (itemMark (line.dropWhile space)).bind fun item =>
    if item.2.takeWhile space = [] then none
    else
      match item.2.dropWhile space with
      | '[' :: c :: ']' :: after =>
          if isMark c then
            some ⟨line.takeWhile space ++ item.1 ++ item.2.takeWhile space, c, after⟩
          else none
      | _ => none

/-- The characters that a dot in a pattern does not match. -/
def isLineTerminator (c : Char) : Bool :=
  c == '\n' || c == '\r' || c == Char.ofNat 0x2028 || c == Char.ofNat 0x2029

/-- The pattern for toggling: a bullet, and behind the checkbox white space and the rest of the
line. -/
def taskPattern (line : List Char) : Option Checkbox :=
  (matchCheckbox bulletMark line).filter fun box =>
    box.after.head?.any space && !(box.after.dropWhile space).any isLineTerminator

/-- The pattern for setting all tasks: a bullet or a number. -/
def TASK_LINE_REGEXP (line : List Char) : Option Checkbox :=
  matchCheckbox (fun text => (bulletMark text).or (orderedMark text)) line

/-! ## Toggling a task -/

/-- The box in a line is set. -/
def toggleTaskAtLine (markdown : List Char) (lineNumber : ℕ) (checked : Bool) : List Char :=
  match (markdown.splitOn '\n')[lineNumber]? with
  | none => markdown
  | some line =>
      match taskPattern line with
      | none => markdown
      | some box =>
          ['\n'].intercalate ((markdown.splitOn '\n').set lineNumber
            (box.before ++ '[' :: mark checked :: ']' :: box.after))

/-- The box of a task is set, found by its number. -/
def toggleTaskAtIndex (parse : List Char → List TaskItem) (markdown : List Char) (taskIndex : ℤ)
    (checked : Bool) : List Char :=
  if taskIndex < 0 then markdown
  else
    match (parse markdown)[taskIndex.toNat]? with
    | none => markdown
    | some task => toggleTaskAtLine markdown task.lineNumber checked

/-! ## Setting all tasks -/

/-- A replacement between two positions. -/
structure MarkdownEdit where
  start : ℕ
  stop : ℕ
  replacement : List Char

/-- A line and where it lies. -/
structure LineInfo where
  text : List Char
  startOffset : ℕ
  endOffset : ℕ

/-- The positions behind the line feeds of a text that starts at the index. -/
def lineStartsFrom (index : ℕ) : List Char → List ℕ
  | [] => []
  | c :: rest =>
      if c = '\n' then (index + 1) :: lineStartsFrom (index + 1) rest
      else lineStartsFrom (index + 1) rest

/-- Where the lines start. -/
def getLineStarts (markdown : List Char) : List ℕ :=
  0 :: lineStartsFrom 0 markdown

/-- The part of a text between two places. -/
def slice (text : List Char) (start stop : ℕ) : List Char :=
  (text.drop start).take (stop - start)

/-- A line by its number. -/
def getLineInfo (markdown : List Char) (lineStarts : List ℕ) (lineNumber : ℕ) : Option LineInfo :=
  lineStarts[lineNumber]?.map fun startOffset =>
    let endOffset := lineStarts[lineNumber + 1]?.elim markdown.length (· - 1)
    ⟨slice markdown startOffset endOffset, startOffset, endOffset⟩

/-- Where the marker of a task that starts in the line is taken to be. -/
def markerStart (markdown : List Char) (lineNumber : ℕ) : Option ℕ :=
  (getLineInfo markdown (getLineStarts markdown) lineNumber).bind fun lineInfo =>
    (TASK_LINE_REGEXP lineInfo.text).map fun box => lineInfo.startOffset + box.before.length + 1

/-- A task and the place in its box. -/
structure ParsedTaskItem where
  checked : Bool
  markerStart : ℕ

/-- The tasks whose box is found in the text. -/
def parseTaskItems (parse : List Char → List TaskItem) (markdown : List Char) :
    List ParsedTaskItem :=
  (parse markdown).filterMap fun task =>
    (markerStart markdown task.lineNumber).map fun start => ⟨task.checked, start⟩

/-- The edits are within the text and do not overlap. -/
def inOrder (length : ℕ) : ℕ → List MarkdownEdit → Bool
  | _, [] => true
  | previousEnd, edit :: edits =>
      if edit.stop < edit.start ∨ length < edit.stop ∨ edit.start < previousEnd then false
      else inOrder length edit.stop edits

/-- The edits in their order; none is made if two overlap. -/
def applyMarkdownEdits (markdown : List Char) (edits : List MarkdownEdit) : List Char :=
  if edits = [] then markdown
  else
    let sortedEdits := edits.mergeSort fun a b => a.start ≤ b.start
    if inOrder markdown.length 0 sortedEdits then
      sortedEdits.foldr
        (fun edit text => text.take edit.start ++ edit.replacement ++ text.drop edit.stop) markdown
    else markdown

/-- Every box that differs is set. -/
def setAllTaskMarkers (parse : List Char → List TaskItem) (markdown : List Char)
    (checked : Bool) : List Char :=
  applyMarkdownEdits markdown
    (((parseTaskItems parse markdown).filter (·.checked != checked)).map fun task =>
      ⟨task.markerStart, task.markerStart + 1, [mark checked]⟩)

/-- Every box is cleared. -/
def uncheckAllTasks (parse : List Char → List TaskItem) (markdown : List Char) : List Char :=
  setAllTaskMarkers parse markdown false

/-- Every box is checked. -/
def checkAllTasks (parse : List Char → List TaskItem) (markdown : List Char) : List Char :=
  setAllTaskMarkers parse markdown true

/-! ## Matches -/

/-- A checkbox is what the line is made of. -/
theorem matchCheckbox_spec {itemMark : List Char → Option (List Char × List Char)}
    (hitem : ∀ text item, itemMark text = some item → text = item.1 ++ item.2) {line : List Char}
    {box : Checkbox} (h : matchCheckbox itemMark line = some box) :
    line = box.before ++ '[' :: box.mark :: ']' :: box.after ∧ isMark box.mark = true := by
  rcases Option.bind_eq_some_iff.mp h with ⟨item, hmark, hbox⟩
  split_ifs at hbox
  split at hbox
  · rename_i c after hbracket
    split_ifs at hbox with hc
    cases hbox
    refine ⟨?_, hc⟩
    calc
      line = line.takeWhile space ++ line.dropWhile space := List.takeWhile_append_dropWhile.symm
      _ = line.takeWhile space ++ (item.1 ++ item.2) := by rw [← hitem _ item hmark]
      _ = line.takeWhile space ++ (item.1 ++ (item.2.takeWhile space ++
          item.2.dropWhile space)) := by rw [List.takeWhile_append_dropWhile]
      _ = _ := by
        rw [hbracket]
        simp
  · cases hbox

theorem bulletMark_spec (text : List Char) (item : List Char × List Char)
    (h : bulletMark text = some item) : text = item.1 ++ item.2 := by
  cases text with
  | nil => cases h
  | cons c rest =>
      rw [bulletMark] at h
      split_ifs at h
      cases h
      rfl

private theorem orderedMark_spec (text : List Char) (item : List Char × List Char)
    (h : orderedMark text = some item) : text = item.1 ++ item.2 := by
  rw [orderedMark] at h
  split_ifs at h
  split at h
  · cases h
  · rename_i c rest hrest
    split_ifs at h
    cases h
    rw [List.append_assoc, List.singleton_append, ← hrest, List.takeWhile_append_dropWhile]

private theorem taskPattern_spec {line : List Char} {box : Checkbox}
    (h : taskPattern line = some box) :
    line = box.before ++ '[' :: box.mark :: ']' :: box.after ∧ isMark box.mark = true :=
  matchCheckbox_spec bulletMark_spec (Option.filter_eq_some_iff.mp h).1

private theorem TASK_LINE_REGEXP_spec {line : List Char} {box : Checkbox}
    (h : TASK_LINE_REGEXP line = some box) :
    line = box.before ++ '[' :: box.mark :: ']' :: box.after ∧ isMark box.mark = true := by
  apply matchCheckbox_spec _ h
  intro text item hitem
  rcases Option.or_eq_some_iff.mp hitem with hitem | ⟨-, hitem⟩
  · exact bulletMark_spec text item hitem
  · exact orderedMark_spec text item hitem

/-- The mark of a line that is a checkbox, and its replacement. -/
theorem mark_of_checkbox {row : List Char} {box : Checkbox}
    (h : row = box.before ++ '[' :: box.mark :: ']' :: box.after) (c : Char) :
    row[box.before.length + 1]? = some box.mark ∧
      row.set (box.before.length + 1) c = box.before ++ '[' :: c :: ']' :: box.after := by
  constructor
  · rw [h, List.getElem?_append_right (Nat.le_add_right _ _), Nat.add_sub_cancel_left]
    rfl
  · rw [h, List.set_append_right _ _ (Nat.le_add_right _ _), Nat.add_sub_cancel_left]
    rfl

/-! ## Toggling -/

/-- The position of the mark that is replaced when a task in the line is toggled. -/
def toggledPosition (markdown : List Char) (lineNumber : ℕ) : Option ℕ :=
  (markdown.splitOn '\n')[lineNumber]?.bind fun line =>
    (taskPattern line).map fun box =>
      lineOffset (markdown.splitOn '\n') lineNumber + (box.before.length + 1)

private theorem toggleTaskAtLine_of_none {markdown : List Char} {lineNumber : ℕ}
    (h : toggledPosition markdown lineNumber = none) (checked : Bool) :
    toggleTaskAtLine markdown lineNumber checked = markdown := by
  unfold toggleTaskAtLine
  cases hline : (markdown.splitOn '\n')[lineNumber]? with
  | none => rfl
  | some line =>
      rw [toggledPosition, hline, Option.bind_some, Option.map_eq_none_iff] at h
      dsimp only
      rw [h]

/-- Toggling replaces one mark of the text. -/
theorem toggleTaskAtLine_of_some {markdown : List Char} {lineNumber position : ℕ}
    (h : toggledPosition markdown lineNumber = some position) (checked : Bool) :
    toggleTaskAtLine markdown lineNumber checked = markdown.set position (mark checked) ∧
      markdown[position]?.any isMark = true := by
  rcases Option.bind_eq_some_iff.mp h with ⟨line, hline, hbox⟩
  rcases Option.map_eq_some_iff.mp hbox with ⟨box, hpattern, rfl⟩
  rcases taskPattern_spec hpattern with ⟨hshape, hmark⟩
  rcases mark_of_checkbox hshape (mark checked) with ⟨hget, hset⟩
  rcases List.getElem?_eq_some_iff.mp hget with ⟨hlt, -⟩
  have htext : ['\n'].intercalate (markdown.splitOn '\n') = markdown :=
    List.intercalate_splitOn '\n'
  constructor
  · rw [toggleTaskAtLine, hline]
    dsimp only
    rw [hpattern]
    dsimp only
    rw [← hset, join_set_line '\n' hline hlt, htext]
  · have hposition := getElem?_join_line '\n' hline hlt
    rw [htext, hget] at hposition
    rw [hposition]
    exact hmark

/-- What toggling a task is to do: nothing but its marker changes, and the task has the state. -/
def TogglesTask (parse : List Char → List TaskItem) (markdown : List Char) (taskIndex : ℕ)
    (checked : Bool) (result : List Char) : Prop :=
  ∃ task, (parse markdown)[taskIndex]? = some task ∧ ChangesOnly markdown result [task.marker] ∧
    (parse result)[taskIndex]?.map (·.checked) = some checked

/-- The pattern finds the marker of the task, or nothing has to change and nothing does. -/
def FindsTask (parse : List Char → List TaskItem) (markdown : List Char) (taskIndex : ℕ)
    (checked : Bool) : Prop :=
  ∃ task, (parse markdown)[taskIndex]? = some task ∧
    (toggledPosition markdown task.lineNumber = some task.marker ∨
      task.checked = checked ∧ ∀ position, toggledPosition markdown task.lineNumber =
        some position → markdown[position]? = some (mark checked))

theorem togglesTask_self_iff {parse : List Char → List TaskItem} {markdown : List Char}
    {taskIndex : ℕ} {task : TaskItem} (htask : (parse markdown)[taskIndex]? = some task)
    (checked : Bool) :
    TogglesTask parse markdown taskIndex checked markdown ↔ task.checked = checked := by
  constructor
  · rintro ⟨_, _, _, hstate⟩
    rw [htask] at hstate
    exact Option.some_inj.mp hstate
  · intro hchecked
    refine ⟨task, htask, changesOnly_refl markdown _, ?_⟩
    rw [htask, Option.map_some, hchecked]

/-- Toggling does what is asked and nothing else exactly when the pattern finds the marker of the
task, or there is nothing to change. -/
theorem toggleTaskAtIndex_iff {parse : List Char → List TaskItem} (hparse : IsTaskParser parse)
    (markdown : List Char) {taskIndex : ℕ}
    (hindex : taskIndex < (parse markdown).length) (checked : Bool) :
    TogglesTask parse markdown taskIndex checked
        (toggleTaskAtIndex parse markdown taskIndex checked) ↔
      FindsTask parse markdown taskIndex checked := by
  have htask : (parse markdown)[taskIndex]? = some (parse markdown)[taskIndex] :=
    List.getElem?_eq_getElem hindex
  generalize (parse markdown)[taskIndex] = task at htask
  have hfinds : FindsTask parse markdown taskIndex checked ↔
      toggledPosition markdown task.lineNumber = some task.marker ∨
        task.checked = checked ∧ ∀ position, toggledPosition markdown task.lineNumber =
          some position → markdown[position]? = some (mark checked) := by
    rw [FindsTask, htask]
    simp
  have hresult : toggleTaskAtIndex parse markdown taskIndex checked =
      toggleTaskAtLine markdown task.lineNumber checked := by
    rw [toggleTaskAtIndex, if_neg (by omega), Int.toNat_natCast, htask]
  rw [hfinds, hresult]
  cases hposition : toggledPosition markdown task.lineNumber with
  | none =>
      rw [toggleTaskAtLine_of_none hposition, togglesTask_self_iff htask]
      simp
  | some position =>
      rcases toggleTaskAtLine_of_some hposition checked with ⟨hset, hmark⟩
      rw [hset]
      by_cases hmarker : position = task.marker
      · subst hmarker
        apply iff_of_true _ (Or.inl rfl)
        refine ⟨task, htask, ?_, ?_⟩
        · exact changesOnly_setAll markdown [task.marker] (mark checked)
        · rw [hparse.parse_set markdown task (List.mem_of_getElem? htask) hmark checked,
            List.getElem?_map, htask]
          simp [TaskItem.mark]
      · by_cases hsame : markdown[position]? = some (mark checked)
        · rw [set_eq_self hsame, togglesTask_self_iff htask]
          simp [hmarker, hsame]
        · apply iff_of_false
          · rintro ⟨task', htask', ⟨-, honly⟩, -⟩
            rw [htask] at htask'
            cases htask'
            have hkeep := honly position (by simpa using hmarker)
            rcases (Option.any_eq_true _ _).mp hmark with ⟨c, hc, -⟩
            rcases List.getElem?_eq_some_iff.mp hc with ⟨hlt, -⟩
            rw [List.getElem?_set_self hlt] at hkeep
            exact hsame hkeep.symm
          · simp [hmarker, hsame]

/-! ## Lines of a text -/

theorem mem_lineStartsFrom {index : ℕ} {text : List Char} {p : ℕ}
    (h : p ∈ lineStartsFrom index text) : index < p := by
  induction text generalizing index with
  | nil => cases h
  | cons c text ih =>
      rw [lineStartsFrom] at h
      split_ifs at h with hc
      · rcases List.mem_cons.mp h with rfl | h
        · exact Nat.lt_succ_self index
        · exact Nat.lt_of_succ_lt (ih h)
      · exact Nat.lt_of_succ_lt (ih h)

private theorem pairwise_lineStartsFrom (index : ℕ) (text : List Char) :
    (lineStartsFrom index text).Pairwise (· < ·) := by
  induction text generalizing index with
  | nil => exact .nil
  | cons c text ih =>
      rw [lineStartsFrom]
      split_ifs
      · exact (ih (index + 1)).cons fun p hp => mem_lineStartsFrom hp
      · exact ih (index + 1)

/-- Later lines start at later positions. -/
theorem pairwise_getLineStarts (markdown : List Char) :
    (getLineStarts markdown).Pairwise (· < ·) :=
  (pairwise_lineStartsFrom 0 markdown).cons fun _ hp => mem_lineStartsFrom hp

private theorem getElem?_slice {text : List Char} {start stop i : ℕ} {c : Char}
    (h : (slice text start stop)[i]? = some c) : start + i < stop ∧ text[start + i]? = some c := by
  rw [slice, List.getElem?_take] at h
  split_ifs at h with hi
  rw [List.getElem?_drop] at h
  exact ⟨by omega, h⟩

/-- The marker found in a line is a mark in that line. -/
theorem markerStart_spec {markdown : List Char} {n p : ℕ} (h : markerStart markdown n = some p) :
    markdown[p]?.any isMark = true ∧ ∃ start, (getLineStarts markdown)[n]? = some start ∧
      start ≤ p ∧ ∀ next, (getLineStarts markdown)[n + 1]? = some next → p < next := by
  rcases Option.bind_eq_some_iff.mp h with ⟨info, hinfo, hbox⟩
  rcases Option.map_eq_some_iff.mp hbox with ⟨box, hpattern, rfl⟩
  rcases Option.map_eq_some_iff.mp hinfo with ⟨start, hstart, rfl⟩
  rcases TASK_LINE_REGEXP_spec hpattern with ⟨hshape, hmark⟩
  rcases getElem?_slice (mark_of_checkbox hshape ' ').1 with ⟨hlt, hget⟩
  rw [← Nat.add_assoc] at hlt hget
  refine ⟨?_, start, hstart, by dsimp only; omega, ?_⟩
  · rw [hget]
    exact hmark
  · intro next hnext
    rw [hnext] at hlt
    simp only [Option.elim_some] at hlt
    dsimp only
    omega

/-- Markers are found at later positions in later lines. -/
theorem markerStart_lt {markdown : List Char} {m n p q : ℕ} (hmn : m < n)
    (hp : markerStart markdown m = some p) (hq : markerStart markdown n = some q) : p < q := by
  rcases markerStart_spec hp with ⟨-, _, _, -, hnext⟩
  rcases markerStart_spec hq with ⟨-, start, hstart, hle, -⟩
  rcases List.getElem?_eq_some_iff.mp hstart with ⟨hn, hget⟩
  have hsucc : (getLineStarts markdown)[m + 1]? = some ((getLineStarts markdown)[m + 1]) :=
    List.getElem?_eq_getElem (by omega)
  have hlt := hnext _ hsucc
  rcases Nat.lt_or_eq_of_le (Nat.succ_le_of_lt hmn) with hbefore | hsame
  · have hlines := List.pairwise_iff_getElem.mp (pairwise_getLineStarts markdown) (m + 1) n
      (by omega) hn hbefore
    omega
  · have hline : (getLineStarts markdown)[m + 1] = start := by
      rw [← hget]
      congr
    omega

/-! ## Edits of single marks -/

/-- The edit that replaces the mark at a position. -/
def markEdit (checked : Bool) (position : ℕ) : MarkdownEdit :=
  ⟨position, position + 1, [mark checked]⟩

private theorem inOrder_iff {length : ℕ} {checked : Bool} {positions : List ℕ}
    (hlength : ∀ p ∈ positions, p < length) (previousEnd : ℕ) :
    inOrder length previousEnd (positions.map (markEdit checked)) = true ↔
      positions.Pairwise (· < ·) ∧ ∀ p ∈ positions, previousEnd ≤ p := by
  induction positions generalizing previousEnd with
  | nil => simp [inOrder]
  | cons p positions ih =>
      have hp := hlength p List.mem_cons_self
      have hrest := ih (fun q hq => hlength q (List.mem_cons_of_mem p hq)) (p + 1)
      rw [List.map_cons, inOrder]
      by_cases hprevious : previousEnd ≤ p
      · rw [if_neg (by simp only [markEdit]; omega)]
        change inOrder length (p + 1) _ = true ↔ _
        rw [hrest, List.pairwise_cons]
        constructor
        · rintro ⟨hsorted, hafter⟩
          refine ⟨⟨hafter, hsorted⟩, ?_⟩
          intro q hq
          rcases List.mem_cons.mp hq with rfl | hq
          · exact hprevious
          · have := hafter q hq
            omega
        · rintro ⟨⟨hafter, hsorted⟩, -⟩
          exact ⟨hsorted, hafter⟩
      · rw [if_pos (by simp only [markEdit]; omega)]
        apply iff_of_false Bool.false_ne_true
        rintro ⟨-, hall⟩
        exact hprevious (hall p List.mem_cons_self)

private theorem foldr_markEdit {checked : Bool} {markdown : List Char} {positions : List ℕ}
    (h : ∀ p ∈ positions, p < markdown.length) :
    (positions.map (markEdit checked)).foldr
        (fun edit text => text.take edit.start ++ edit.replacement ++ text.drop edit.stop)
        markdown = setAll markdown positions (mark checked) := by
  induction positions with
  | nil => rfl
  | cons p positions ih =>
      have hp : p < (setAll markdown positions (mark checked)).length := by
        rw [length_setAll]
        exact h p List.mem_cons_self
      rw [List.map_cons, List.foldr_cons, ih fun q hq => h q (List.mem_cons_of_mem p hq)]
      change _ = (setAll markdown positions (mark checked)).set p (mark checked)
      rw [List.set_eq_take_append_cons_drop, if_pos hp, List.append_assoc]
      rfl

/-- Marks at different positions are all replaced; if two edits have the same position, nothing
is. -/
theorem applyMarkdownEdits_markEdit {markdown : List Char} (checked : Bool) {positions : List ℕ}
    (h : ∀ p ∈ positions, p < markdown.length) :
    applyMarkdownEdits markdown (positions.map (markEdit checked)) =
      if positions.Nodup then setAll markdown positions (mark checked) else markdown := by
  have hperm := List.mergeSort_perm positions fun a b => decide (a ≤ b)
  generalize hsorted : positions.mergeSort (fun a b => decide (a ≤ b)) = sorted at hperm
  have hle : sorted.Pairwise (· ≤ ·) := by
    rw [← hsorted]
    simpa using @List.pairwise_mergeSort ℕ (fun a b => decide (a ≤ b))
      (fun a b c => by simpa using Nat.le_trans) (fun a b => by simpa using Nat.le_total a b)
      positions
  have hedits : (positions.map (markEdit checked)).mergeSort (fun a b => a.start ≤ b.start) =
      sorted.map (markEdit checked) := by
    rw [← hsorted]
    exact (List.map_mergeSort (r := fun a b => decide (a ≤ b))
      (s := fun a b => decide (a.start ≤ b.start)) (f := markEdit checked)
      fun _ _ _ _ => rfl).symm
  have hlength : ∀ p ∈ sorted, p < markdown.length := fun p hp => h p (hperm.mem_iff.mp hp)
  have horder : inOrder markdown.length 0 (sorted.map (markEdit checked)) = true ↔
      positions.Nodup := by
    rw [inOrder_iff hlength, ← hperm.nodup_iff]
    constructor
    · exact fun hlt => hlt.1.imp Nat.ne_of_lt
    · intro hnodup
      refine ⟨?_, fun p _ => Nat.zero_le p⟩
      exact (hle.and hnodup).imp fun hab => Nat.lt_of_le_of_ne hab.1 hab.2
  have hset : setAll markdown sorted (mark checked) = setAll markdown positions (mark checked) :=
    setAll_congr (fun _ => hperm.mem_iff) markdown (mark checked)
  rw [applyMarkdownEdits]
  by_cases hnil : positions = []
  · subst hnil
    simp [setAll]
  · rw [if_neg (by simpa using hnil)]
    dsimp only
    rw [hedits]
    by_cases hnodup : positions.Nodup
    · rw [if_pos (horder.mpr hnodup), if_pos hnodup, foldr_markEdit hlength, hset]
    · rw [if_neg (fun hin => hnodup (horder.mp hin)), if_neg hnodup]

/-! ## Setting all tasks -/

/-- The tasks whose box is to change. -/
def differing (parse : List Char → List TaskItem) (markdown : List Char) (checked : Bool) :
    List TaskItem :=
  (parse markdown).filter (·.checked != checked)

theorem mem_differing {parse : List Char → List TaskItem} {markdown : List Char} {checked : Bool}
    {task : TaskItem} : task ∈ differing parse markdown checked ↔
      task ∈ parse markdown ∧ task.checked ≠ checked := by
  simp [differing]

/-- Where marks are replaced to set all tasks. -/
def replacedPositions (parse : List Char → List TaskItem) (markdown : List Char) (checked : Bool) :
    List ℕ :=
  (differing parse markdown checked).filterMap fun task => markerStart markdown task.lineNumber

theorem isMark_replaced {parse : List Char → List TaskItem} {markdown : List Char} {checked : Bool}
    {p : ℕ} (h : p ∈ replacedPositions parse markdown checked) :
    markdown[p]?.any isMark = true := by
  rcases List.mem_filterMap.mp h with ⟨task, -, hstart⟩
  exact (markerStart_spec hstart).1

theorem lt_length_of_isMark {markdown : List Char} {p : ℕ}
    (h : markdown[p]?.any isMark = true) : p < markdown.length := by
  rcases (Option.any_eq_true _ _).mp h with ⟨c, hc, -⟩
  exact (List.getElem?_eq_some_iff.mp hc).1

theorem setAllTaskMarkers_eq (parse : List Char → List TaskItem) (markdown : List Char)
    (checked : Bool) : setAllTaskMarkers parse markdown checked =
      if (replacedPositions parse markdown checked).Nodup then
        setAll markdown (replacedPositions parse markdown checked) (mark checked)
      else markdown := by
  have hpositions : ((parseTaskItems parse markdown).filter (·.checked != checked)).map
      (fun task => (⟨task.markerStart, task.markerStart + 1, [mark checked]⟩ : MarkdownEdit)) =
        (replacedPositions parse markdown checked).map (markEdit checked) := by
    rw [parseTaskItems, replacedPositions, differing]
    generalize parse markdown = tasks
    induction tasks with
    | nil => rfl
    | cons task tasks ih =>
        cases hstart : markerStart markdown task.lineNumber with
        | none =>
            by_cases hchecked : (task.checked != checked) = true
            · simp [hstart, hchecked, ih]
            · simp [hstart, hchecked, ih]
        | some p =>
            by_cases hchecked : (task.checked != checked) = true
            · simp [hstart, hchecked, ih, markEdit]
            · simp [hstart, hchecked, ih]
  rw [setAllTaskMarkers, hpositions, applyMarkdownEdits_markEdit checked]
  exact fun p hp => lt_length_of_isMark (isMark_replaced hp)

/-- What setting all tasks is to do: nothing but the markers of tasks in the other state changes,
and no task is left in the other state. -/
def SetsTasks (parse : List Char → List TaskItem) (markdown : List Char) (checked : Bool)
    (result : List Char) : Prop :=
  ChangesOnly markdown result ((differing parse markdown checked).map (·.marker)) ∧
    ∀ task ∈ parse result, task.checked = checked

/-- The pattern finds the marker of every task in the other state. -/
def FindsTasks (parse : List Char → List TaskItem) (markdown : List Char) (checked : Bool) : Prop :=
  ∀ task ∈ parse markdown, task.checked ≠ checked →
    markerStart markdown task.lineNumber = some task.marker

section Parser

variable {parse : List Char → List TaskItem} (hparse : IsTaskParser parse)
include hparse

/-- Replacing the markers of tasks sets these tasks. -/
theorem parse_setAll {markdown : List Char} {checked : Bool} {positions : List ℕ}
    (h : ∀ p ∈ positions, markdown[p]?.any isMark = true ∧ ∃ task ∈ parse markdown,
      task.marker = p) :
    parse (setAll markdown positions (mark checked)) = (parse markdown).map fun task =>
      if task.marker ∈ positions then { task with checked := checked } else task := by
  induction positions with
  | nil => simp [setAll]
  | cons p positions ih =>
      have hrest := ih fun q hq => h q (List.mem_cons_of_mem p hq)
      rcases h p List.mem_cons_self with ⟨hmark, task, htask, rfl⟩
      have hcons : setAll markdown (task.marker :: positions) (mark checked) =
          (setAll markdown positions (mark checked)).set task.marker (mark checked) := rfl
      have hmark' : (setAll markdown positions (mark checked))[task.marker]?.any isMark = true := by
        rw [getElem?_setAll]
        split
        · rcases (Option.any_eq_true _ _).mp hmark with ⟨c, hc, -⟩
          rw [hc]
          cases checked <;> rfl
        · exact hmark
      -- The task is still there, perhaps in the other state.
      have htask' := List.mem_map_of_mem (f := fun task : TaskItem =>
        if task.marker ∈ positions then { task with checked := checked } else task) htask
      rw [← hrest] at htask'
      have hmarker : ∀ t : TaskItem, (if t.marker ∈ positions then { t with checked := checked }
          else t : TaskItem).marker = t.marker := by
        intro t
        split <;> rfl
      have hset := hparse.parse_set _ _ htask' (by rw [hmarker]; exact hmark') checked
      rw [hmarker] at hset
      rw [hcons, hset, hrest, List.map_map]
      apply List.map_congr_left
      intro t _
      rw [Function.comp_apply, TaskItem.mark, hmarker]
      by_cases hsame : t.marker = task.marker
      · have hmem : t.marker ∈ task.marker :: positions := hsame ▸ List.mem_cons_self
        rw [if_pos hsame, if_pos hmem]
        split <;> rfl
      · have hmem : t.marker ∈ task.marker :: positions ↔ t.marker ∈ positions := by
          rw [List.mem_cons]
          exact or_iff_right hsame
        simp only [if_neg hsame, hmem]

/-- The marks are replaced in the order of the tasks. -/
theorem pairwise_replacedPositions (markdown : List Char) (checked : Bool) :
    (replacedPositions parse markdown checked).Pairwise (· ≤ ·) := by
  rw [replacedPositions, List.pairwise_filterMap]
  apply ((hparse.lineNumber_mono markdown).sublist List.filter_sublist).imp
  intro a b hab p hp q hq
  rcases Nat.lt_or_eq_of_le hab with hlt | hsame
  · exact Nat.le_of_lt (markerStart_lt hlt hp hq)
  · rw [hsame, hq] at hp
    cases hp
    exact Nat.le_refl _

theorem pairwise_markers (markdown : List Char) (checked : Bool) :
    ((differing parse markdown checked).map (·.marker)).Pairwise (· < ·) := by
  rw [List.pairwise_map]
  exact (hparse.marker_mono markdown).sublist List.filter_sublist

private theorem setsTasks_of_findsTasks {markdown : List Char} {checked : Bool}
    (h : FindsTasks parse markdown checked) :
    SetsTasks parse markdown checked (setAllTaskMarkers parse markdown checked) := by
  have hpositions : replacedPositions parse markdown checked =
      (differing parse markdown checked).map (·.marker) := by
    rw [replacedPositions, ← List.filterMap_eq_map]
    apply List.filterMap_congr
    intro task htask
    rcases mem_differing.mp htask with ⟨hmem, hchecked⟩
    exact h task hmem hchecked
  have hnodup : (replacedPositions parse markdown checked).Nodup := by
    rw [hpositions]
    exact (pairwise_markers hparse markdown checked).imp Nat.ne_of_lt
  rw [setAllTaskMarkers_eq, if_pos hnodup]
  constructor
  · rw [← hpositions]
    exact changesOnly_setAll markdown _ (mark checked)
  · rw [parse_setAll hparse]
    · intro task htask
      rcases List.mem_map.mp htask with ⟨t, ht, rfl⟩
      split_ifs with hmem
      · rfl
      · by_contra hchecked
        apply hmem
        rw [hpositions]
        exact List.mem_map_of_mem (mem_differing.mpr ⟨ht, hchecked⟩)
    · intro p hp
      refine ⟨isMark_replaced hp, ?_⟩
      rw [hpositions] at hp
      rcases List.mem_map.mp hp with ⟨task, htask, rfl⟩
      exact ⟨task, (mem_differing.mp htask).1, rfl⟩

/-- If replacing marks set all tasks and changed no other symbol, the markers of the tasks in the
other state were replaced. -/
theorem markers_subset_of_setAll {markdown : List Char} {checked : Bool}
    (honly : ChangesOnly markdown
      (setAll markdown (replacedPositions parse markdown checked) (mark checked))
      ((differing parse markdown checked).map (·.marker)))
    (hall : ∀ task ∈ parse (setAll markdown (replacedPositions parse markdown checked)
      (mark checked)), task.checked = checked) :
    (differing parse markdown checked).map (·.marker) ⊆
      replacedPositions parse markdown checked := by
  -- Marks that were there before do not count.
  have hchanged : ∀ p, p ∈ (replacedPositions parse markdown checked).filter
      (fun p => markdown[p]? != some (mark checked)) ↔
        p ∈ replacedPositions parse markdown checked ∧ markdown[p]? ≠ some (mark checked) := by
    intro p
    rw [List.mem_filter, bne_iff_ne]
  generalize (replacedPositions parse markdown checked).filter
    (fun p => markdown[p]? != some (mark checked)) = changed at hchanged
  have hsame : setAll markdown (replacedPositions parse markdown checked) (mark checked) =
      setAll markdown changed (mark checked) := by
    apply List.ext_getElem?
    intro p
    rw [getElem?_setAll, getElem?_setAll]
    by_cases hp : p ∈ changed
    · rw [if_pos hp, if_pos ((hchanged p).mp hp).1]
    · rw [if_neg hp]
      split_ifs with hreplaced
      · have hmark : markdown[p]? = some (mark checked) := by
          by_contra hmark
          exact hp ((hchanged p).mpr ⟨hreplaced, hmark⟩)
        rw [hmark]
        rfl
      · rfl
  have hmarker : ∀ p ∈ changed, p ∈ (differing parse markdown checked).map (·.marker) := by
    intro p hp
    rcases (hchanged p).mp hp with ⟨hreplaced, hmark⟩
    by_contra hother
    have hkeep := honly.2 p hother
    have hlt := lt_length_of_isMark (isMark_replaced hreplaced)
    rw [getElem?_setAll, if_pos hreplaced, List.getElem?_eq_getElem hlt, Option.map_some] at hkeep
    apply hmark
    rw [List.getElem?_eq_getElem hlt]
    exact hkeep.symm
  rw [hsame, parse_setAll hparse] at hall
  · intro p hp
    rcases List.mem_map.mp hp with ⟨task, htask, rfl⟩
    rcases mem_differing.mp htask with ⟨hmem, hchecked⟩
    have hset := hall _ (List.mem_map_of_mem hmem)
    split_ifs at hset with hin
    · exact ((hchanged _).mp hin).1
    · exact absurd hset hchecked
  · intro p hp
    rcases List.mem_map.mp (hmarker p hp) with ⟨task, htask, rfl⟩
    exact ⟨isMark_replaced ((hchanged _).mp hp).1, task, (mem_differing.mp htask).1, rfl⟩

/-- If all tasks were set, the replaced marks are the markers of the tasks in the other state. -/
theorem replacedPositions_of_setsTasks {markdown : List Char} {checked : Bool}
    (h : SetsTasks parse markdown checked (setAllTaskMarkers parse markdown checked)) :
    replacedPositions parse markdown checked =
      (differing parse markdown checked).map (·.marker) := by
  rcases h with ⟨honly, hall⟩
  rw [setAllTaskMarkers_eq] at honly hall
  have hmarkers := pairwise_markers hparse markdown checked
  by_cases hnodup : (replacedPositions parse markdown checked).Nodup
  · rw [if_pos hnodup] at honly hall
    have hsub : (differing parse markdown checked).map (·.marker) ⊆
        replacedPositions parse markdown checked :=
      markers_subset_of_setAll hparse honly hall
    have hlength : (replacedPositions parse markdown checked).length ≤
        ((differing parse markdown checked).map (·.marker)).length := by
      rw [List.length_map]
      exact List.length_filterMap_le _ _
    have hperm := (List.subperm_of_subset (hmarkers.imp Nat.ne_of_lt) hsub).perm_of_length_le
      hlength
    apply (hperm.eq_of_pairwise _ (hmarkers.imp Nat.le_of_lt)
      (pairwise_replacedPositions hparse markdown checked)).symm
    exact fun a b _ _ hab hba => Nat.le_antisymm hab hba
  · -- Nothing was replaced, so no task was in the other state.
    rw [if_neg hnodup] at hall
    have hnone : differing parse markdown checked = [] := by
      apply List.eq_nil_iff_forall_not_mem.mpr
      intro task htask
      rcases mem_differing.mp htask with ⟨hmem, hchecked⟩
      exact hchecked (hall task hmem)
    rw [replacedPositions, hnone]
    rfl

end Parser

/-- Setting all tasks does what is asked and nothing else exactly when the pattern finds the marker
of every task in the other state. -/
theorem setAllTaskMarkers_iff {parse : List Char → List TaskItem} (hparse : IsTaskParser parse)
    (markdown : List Char) (checked : Bool) :
    SetsTasks parse markdown checked (setAllTaskMarkers parse markdown checked) ↔
      FindsTasks parse markdown checked := by
  constructor
  · intro h task htask hchecked
    have hpositions := replacedPositions_of_setsTasks hparse h
    exact eq_of_filterMap_eq_map hpositions task (mem_differing.mpr ⟨htask, hchecked⟩)
  · exact setsTasks_of_findsTasks hparse

/-- Editing tasks does what is asked and nothing else exactly when the patterns find the markers
that have to change, and no mark is replaced that is not one. -/
theorem task_edits_iff {parse : List Char → List TaskItem} (hparse : IsTaskParser parse)
    (markdown : List Char) :
    (∀ taskIndex, taskIndex < (parse markdown).length → ∀ checked,
      (TogglesTask parse markdown taskIndex checked
          (toggleTaskAtIndex parse markdown taskIndex checked) ↔
        FindsTask parse markdown taskIndex checked)) ∧
      (SetsTasks parse markdown true (checkAllTasks parse markdown) ↔
        FindsTasks parse markdown true) ∧
      (SetsTasks parse markdown false (uncheckAllTasks parse markdown) ↔
        FindsTasks parse markdown false) :=
  ⟨fun _ hindex checked => toggleTaskAtIndex_iff hparse markdown hindex checked,
    setAllTaskMarkers_iff hparse markdown true, setAllTaskMarkers_iff hparse markdown false⟩

/-! ## A parser for one task -/

/-- A parser that knows a task behind an item mark and nothing else. -/
def oneTask (itemMark text : List Char) : List TaskItem :=
  if text = itemMark ++ "[ ] a".toList then [⟨0, false, itemMark.length + 1⟩]
  else if text = itemMark ++ "[x] a".toList then [⟨0, true, itemMark.length + 1⟩]
  else []

theorem oneTask_mark (itemMark : List Char) (checked : Bool) :
    oneTask itemMark (itemMark ++ ['[', mark checked, ']', ' ', 'a']) =
      [⟨0, checked, itemMark.length + 1⟩] := by
  unfold oneTask
  cases checked with
  | false => exact if_pos rfl
  | true =>
      have hne : itemMark ++ ['[', mark true, ']', ' ', 'a'] ≠ itemMark ++ "[ ] a".toList :=
        fun h => absurd (List.append_cancel_left h) (by decide)
      rw [if_neg hne]
      exact if_pos rfl

private theorem oneTask_cases {itemMark text : List Char} {task : TaskItem}
    (h : task ∈ oneTask itemMark text) : task = ⟨0, task.checked, itemMark.length + 1⟩ ∧
      text = itemMark ++ ['[', mark task.checked, ']', ' ', 'a'] := by
  unfold oneTask at h
  split_ifs at h with hunchecked hchecked
  · cases List.mem_singleton.mp h
    exact ⟨rfl, hunchecked⟩
  · cases List.mem_singleton.mp h
    exact ⟨rfl, hchecked⟩
  · cases h

theorem isTaskParser_oneTask (itemMark : List Char) : IsTaskParser (oneTask itemMark) where
  lineNumber_mono text := by
    unfold oneTask
    split_ifs <;> simp
  marker_mono text := by
    unfold oneTask
    split_ifs <;> simp
  parse_set text task htask _ checked := by
    rcases oneTask_cases htask with ⟨hshape, rfl⟩
    rw [hshape, oneTask_mark, List.set_append_right _ _ (Nat.le_add_right _ _),
      Nat.add_sub_cancel_left]
    change oneTask itemMark (itemMark ++ ['[', mark checked, ']', ' ', 'a']) = _
    rw [oneTask_mark]
    simp [TaskItem.mark]

/-- A task of a numbered list is not toggled. -/
theorem toggle_ordered_fails :
    IsTaskParser (oneTask "1. ".toList) ∧
      0 < (oneTask "1. ".toList "1. [ ] a".toList).length ∧
      ¬TogglesTask (oneTask "1. ".toList) "1. [ ] a".toList 0 true
        (toggleTaskAtIndex (oneTask "1. ".toList) "1. [ ] a".toList 0 true) := by
  refine ⟨isTaskParser_oneTask _, by decide, ?_⟩
  have hsame : toggleTaskAtIndex (oneTask "1. ".toList) "1. [ ] a".toList 0 true =
      "1. [ ] a".toList := by decide
  have htask : (oneTask "1. ".toList "1. [ ] a".toList)[0]? = some ⟨0, false, 4⟩ := by decide
  rw [hsame, togglesTask_self_iff htask]
  exact Bool.false_ne_true

theorem task_edits_bullet :
    FindsTask (oneTask "- ".toList) "- [ ] a".toList 0 true ∧
      TogglesTask (oneTask "- ".toList) "- [ ] a".toList 0 true
        (toggleTaskAtIndex (oneTask "- ".toList) "- [ ] a".toList (0 : ℕ) true) := by
  have hfinds : FindsTask (oneTask "- ".toList) "- [ ] a".toList 0 true :=
    ⟨⟨0, false, 3⟩, by decide, Or.inl (by decide)⟩
  have hedits := (task_edits_iff (isTaskParser_oneTask "- ".toList) "- [ ] a".toList).1
  exact ⟨hfinds, (hedits 0 (by decide) true).mpr hfinds⟩

end Web
end MemosNote
