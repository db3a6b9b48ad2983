import Mathlib.Logic.Function.Basic
import Mathlib.Data.Nat.Notation
import MemosNote.Library.Run

/-!
# Drafts of the memo editor

The content of an editor is saved as a draft: by a timer after each change, and at once when the
page is hidden or the editor goes away.  A discard takes the draft away and marks the content that
is not to be saved.  A draft that reads as an entry of an older format is loaded as what it holds.

Main results:

- Theorem {lit}`drafting_step`: what every careful step keeps.
- Theorem {lit}`drafts_kept`: in a careful run a flush saves the latest content, and after a discard
  there is no draft until the next edit.
-/

namespace MemosNote
namespace Web

open Library

/-! ## The draft cache -/

/-- A text of a script, as its code units. -/
abbrev Content :=
  List ℕ

/-- The white space and line ends of a script. -/
def isSpaceUnit (u : ℕ) : Bool :=
  (0x9 ≤ u && u ≤ 0xd) || (0x2000 ≤ u && u ≤ 0x200a) ||
    u ∈ [0x20, 0xa0, 0x1680, 0x2028, 0x2029, 0x202f, 0x205f, 0x3000, 0xfeff]

/-- Nothing is left when white space is trimmed. -/
def blank (content : Content) : Bool :=
  content.all isSpaceUnit

/-- A value in a parsed text. -/
inductive ParsedValue where
  | string (s : Content)
  | number (n : ℕ)
  | other
deriving DecidableEq

/-- The members of a parsed text that are looked at. -/
structure ParsedEntry where
  kind : ParsedValue
  version : ParsedValue
  content : ParsedValue

/-- How a text is parsed; there is no result if that fails or the members cannot be read. -/
abbrev Parse :=
  Content → Option ParsedEntry

/-- The mark of the older entries. -/
def STRUCTURED_CACHE_ENTRY_KIND : Content :=
  "memos.editor-cache".toList.map Char.toNat

/-- The version of the older entries. -/
def STRUCTURED_CACHE_ENTRY_VERSION : ℕ :=
  1

/-- The content of an entry, of the older form or as it is. -/
def deserializeContent (parse : Parse) (raw : Content) : Content :=
  match parse raw with
  | some parsed =>
      if parsed.kind = .string STRUCTURED_CACHE_ENTRY_KIND ∧
          parsed.version = .number STRUCTURED_CACHE_ENTRY_VERSION then
        match parsed.content with
        | .string content => content
        | _ => raw
      else raw
  | none => raw

/-- The text is an entry of the older format. -/
def Structured (parse : Parse) (raw : Content) : Prop :=
  ∃ content, parse raw = some ⟨.string STRUCTURED_CACHE_ENTRY_KIND,
    .number STRUCTURED_CACHE_ENTRY_VERSION, .string content⟩

/-- The stored drafts, and the content that the timer of each key will write. -/
structure DraftCache where
  localStorage : String → Option Content
  pendingSaves : String → Option Content

namespace DraftCache

/-- The key of a draft. -/
def key (username : String) (cacheKey : Option String) : String :=
  username ++ "-" ++ cacheKey.getD ""

/-- Store a draft; a blank one is removed. -/
def writeEntry (key : String) (content : Content) (cache : DraftCache) : DraftCache :=
  { cache with
    localStorage :=
      Function.update cache.localStorage key (if blank content then none else some content) }

/-- A draft is to be stored after a while. -/
def save (key : String) (content : Content) (cache : DraftCache) : DraftCache :=
  { cache with pendingSaves := Function.update cache.pendingSaves key (some content) }

/-- The timer of a key fires. -/
def fire (key : String) (cache : DraftCache) : DraftCache :=
  match cache.pendingSaves key with
  | some content =>
      writeEntry key content
        { cache with pendingSaves := Function.update cache.pendingSaves key none }
  | none => cache

/-- A draft is stored at once. -/
def saveNow (key : String) (content : Content) (cache : DraftCache) : DraftCache :=
  writeEntry key content { cache with pendingSaves := Function.update cache.pendingSaves key none }

/-- The stored draft. -/
def load (parse : Parse) (key : String) (cache : DraftCache) : Content :=
  match cache.localStorage key with
  | some raw => if raw = [] then [] else deserializeContent parse raw
  | none => []

/-- The draft is removed, stored or not. -/
def clear (key : String) (cache : DraftCache) : DraftCache :=
  ⟨Function.update cache.localStorage key none, Function.update cache.pendingSaves key none⟩

/-- No draft is stored, and no timer will store one. -/
def Cleared (key : String) (cache : DraftCache) : Prop :=
  cache.localStorage key = none ∧
    ∀ content, cache.pendingSaves key = some content → blank content = true

end DraftCache

/-! ## Saving the drafts of an editor -/

/-- An editor with the drafts of all keys.  The last discard is remembered by its key while no edit
has followed it. -/
structure DraftEditor where
  content : Content
  latestContentRef : Content
  discardedContentRef : Option Content
  key : String
  /-- The effects have run and were not cleaned up since. -/
  active : Bool
  cache : DraftCache
  discarded : Option String

namespace DraftEditor

variable (editor : DraftEditor)

/-- The editor has a new content. -/
def persist (content : Content) : DraftEditor :=
  { editor with
    latestContentRef := content
    discardedContentRef :=
      if editor.discardedContentRef ≠ none ∧ editor.discardedContentRef ≠ some content then none
      else editor.discardedContentRef
    cache := editor.cache.save editor.key content }

/-- The draft is stored, unless it was discarded. -/
def flushDraft : DraftEditor :=
  if editor.discardedContentRef = some editor.latestContentRef then editor
  else { editor with cache := editor.cache.saveNow editor.key editor.latestContentRef }

/-- The content changes; a listener persists it. -/
def edit (content : Content) : DraftEditor :=
  let changed : DraftEditor :=
    { editor with
      content := content
      discarded := if content = editor.content then editor.discarded else none }
  if editor.active ∧ content ≠ editor.latestContentRef then changed.persist content else changed

/-- The effects are cleaned up. -/
def cleanup : DraftEditor :=
  if editor.active then { editor.flushDraft with active := false } else editor

/-- The effects run again, after what they depend on has changed. -/
def rerun (username : String) (cacheKey : Option String) (enabled : Bool) : DraftEditor :=
  let cleaned : DraftEditor :=
    { editor.cleanup with key := DraftCache.key username cacheKey, active := enabled }
  if enabled then cleaned.persist editor.content else cleaned

/-- The draft is discarded. -/
def discardDraft : DraftEditor :=
  { editor with
    discardedContentRef := some editor.latestContentRef
    cache := editor.cache.clear editor.key
    discarded := some editor.key }

end DraftEditor

/-- What can happen to a draft. -/
inductive DraftEvent where
  | edit (content : Content)
  | timer (key : String)
  | flush
  | discard
  | rerun (username : String) (cacheKey : Option String) (enabled : Bool)
  | unmount

/-- One event; a flush is only heard while the effects are active. -/
def draftStep (editor : DraftEditor) : DraftEvent → Option DraftEditor
  | .edit content => some (editor.edit content)
  | .timer key => some { editor with cache := editor.cache.fire key }
  | .flush => some (if editor.active then editor.flushDraft else editor)
  | .discard => some editor.discardDraft
  | .rerun username cacheKey enabled => some (editor.rerun username cacheKey enabled)
  | .unmount => some editor.cleanup

/-- The step neither brings a content that reads as an older entry, nor lets the effects run while a
discarded content stands in the editor. -/
def Careful (parse : Parse) (editor : DraftEditor) : DraftEvent → Prop
  | .edit content => ¬Structured parse content
  | .rerun _ _ true =>
      if editor.discarded.isSome then blank editor.content = true
      else editor.discardedContentRef ≠ some editor.content
  | _ => True

/-- A new editor, with any drafts. -/
def NewEditor (parse : Parse) (editor : DraftEditor) : Prop :=
  editor.discardedContentRef = none ∧ editor.active = false ∧ editor.discarded = none ∧
    ¬Structured parse editor.content

/-- A flush saves the latest content if an edit came after the last discard, and else there is no
draft under the key of that discard. -/
structure DraftsKept (parse : Parse) (editor : DraftEditor) : Prop where
  saved : editor.discarded = none → editor.active = true →
    editor.flushDraft.cache.load parse editor.key =
      if blank editor.content then [] else editor.content
  none : ∀ key, editor.discarded = some key → editor.cache.localStorage key = none

/-! ## What is kept -/

/-- What is kept in a careful run. -/
structure Drafting (parse : Parse) (editor : DraftEditor) : Prop where
  plain : ¬Structured parse editor.content
  latest : editor.active = true → editor.latestContentRef = editor.content
  marked : editor.active = true → ∀ content, editor.discardedContentRef = some content →
    content = editor.content ∧ editor.discarded.isSome
  quiet : editor.active = true → editor.discarded.isSome →
    editor.discardedContentRef = some editor.content ∨ blank editor.content = true
  cleared : ∀ key, editor.discarded = some key → editor.cache.Cleared key

variable {parse : Parse} {editor : DraftEditor}

private theorem deserialize_plain {raw : Content} (h : ¬Structured parse raw) :
    deserializeContent parse raw = raw := by
  rw [deserializeContent]
  cases hparsed : parse raw with
  | none => rfl
  | some parsed =>
      rcases parsed with ⟨kind, version, content⟩
      by_cases hentry : kind = .string STRUCTURED_CACHE_ENTRY_KIND ∧
          version = .number STRUCTURED_CACHE_ENTRY_VERSION
      · cases content with
        | string content =>
            rcases hentry with ⟨rfl, rfl⟩
            exact absurd ⟨content, hparsed⟩ h
        | number n => simp
        | other => simp
      · simp [hentry]

namespace DraftCache

variable {key key' : String} {content : Content} {cache : DraftCache}

/-- A blank draft is not stored. -/
theorem localStorage_writeEntry :
    (cache.writeEntry key content).localStorage key' =
      if key' = key then (if blank content then none else some content)
      else cache.localStorage key' := by
  exact Function.update_apply _ _ _ _

private theorem load_saveNow (h : ¬Structured parse content) :
    (cache.saveNow key content).load parse key = if blank content then [] else content := by
  rw [load, saveNow, localStorage_writeEntry, if_pos rfl]
  by_cases hblank : blank content = true
  · simp [hblank]
  · have hne : content ≠ [] := by
      rintro rfl
      exact hblank rfl
    simp [hblank, hne, deserialize_plain h]

private theorem cleared_clear : (cache.clear key).Cleared key := by
  constructor
  · exact Function.update_self _ _ _
  · intro content hpending
    have hnone : (cache.clear key).pendingSaves key = none := Function.update_self _ _ _
    rw [hnone] at hpending
    cases hpending

theorem Cleared.fire (h : cache.Cleared key) : (cache.fire key').Cleared key := by
  rcases h with ⟨hstored, hpending⟩
  rw [DraftCache.fire]
  cases htimer : cache.pendingSaves key' with
  | none => exact ⟨hstored, hpending⟩
  | some content =>
      constructor
      · rw [localStorage_writeEntry]
        by_cases hkey : key = key'
        · rw [if_pos hkey, if_pos (hpending content (hkey ▸ htimer))]
        · rw [if_neg hkey, hstored]
      · intro next hnext
        simp only [writeEntry, Function.update_apply] at hnext
        split at hnext
        · cases hnext
        · exact hpending next hnext

theorem Cleared.saveNow (h : cache.Cleared key) (hblank : blank content = true) :
    (cache.saveNow key' content).Cleared key := by
  rcases h with ⟨hstored, hpending⟩
  constructor
  · rw [DraftCache.saveNow, localStorage_writeEntry, hblank]
    split
    · rfl
    · exact hstored
  · intro next hnext
    simp only [DraftCache.saveNow, writeEntry, Function.update_apply] at hnext
    split at hnext
    · cases hnext
    · exact hpending next hnext

theorem Cleared.save (h : cache.Cleared key) (hblank : blank content = true) :
    (cache.save key' content).Cleared key := by
  rcases h with ⟨hstored, hpending⟩
  refine ⟨hstored, fun next hnext => ?_⟩
  simp only [DraftCache.save, Function.update_apply] at hnext
  split at hnext
  · exact Option.some_inj.mp hnext ▸ hblank
  · exact hpending next hnext

end DraftCache

/-! ## What every step keeps -/

namespace DraftEditor

theorem flushDraft_eq :
    editor.flushDraft =
      { editor with
        cache :=
          if editor.discardedContentRef = some editor.latestContentRef then editor.cache
          else editor.cache.saveNow editor.key editor.latestContentRef } := by
  rw [flushDraft]
  split
  · rfl
  · rfl

end DraftEditor

/-- A flush saves the latest content, as there is no discarded one. -/
theorem Drafting.kept (h : Drafting parse editor) : DraftsKept parse editor := by
  constructor
  · intro hdiscarded hactive
    have hnone : editor.discardedContentRef ≠ some editor.latestContentRef := by
      intro hsome
      have hlast := (h.marked hactive _ hsome).2
      rw [hdiscarded] at hlast
      cases hlast
    rw [DraftEditor.flushDraft, if_neg hnone, h.latest hactive]
    exact DraftCache.load_saveNow h.plain
  · exact fun key hkey => (h.cleared key hkey).1

theorem Drafting.flushDraft (h : Drafting parse editor) (hactive : editor.active = true) :
    Drafting parse editor.flushDraft := by
  rw [DraftEditor.flushDraft_eq]
  refine ⟨h.plain, h.latest, h.marked, h.quiet, fun key hkey => ?_⟩
  have hcleared := h.cleared key hkey
  have hsome : editor.discarded.isSome := by
    rw [hkey]
    rfl
  dsimp only
  rw [h.latest hactive]
  split
  · exact hcleared
  · rename_i hne
    rcases h.quiet hactive hsome with hmark | hblank
    · exact absurd hmark hne
    · exact hcleared.saveNow hblank

theorem Drafting.cleanup (h : Drafting parse editor) : Drafting parse editor.cleanup := by
  rw [DraftEditor.cleanup]
  split
  · rename_i hactive
    rcases h.flushDraft hactive with ⟨hplain, -, -, -, hcleared⟩
    exact ⟨hplain, nofun, nofun, nofun, hcleared⟩
  · exact h

/-- Persisting the content of an editor, when no text that is discarded stands in it. -/
theorem Drafting.persist (hplain : ¬Structured parse editor.content)
    (hcleared : ∀ key, editor.discarded = some key → editor.cache.Cleared key)
    (hnew : editor.discarded = none → editor.discardedContentRef ≠ some editor.content)
    (hold : editor.discarded.isSome → blank editor.content = true) :
    Drafting parse (editor.persist editor.content) := by
  constructor
  · exact hplain
  · exact fun _ => rfl
  · intro _ content hcontent
    rw [DraftEditor.persist] at hcontent
    dsimp only at hcontent
    split at hcontent
    · cases hcontent
    · rename_i hsame
      rw [hcontent] at hsame hnew
      have heq : content = editor.content := by
        by_contra hne
        exact hsame ⟨nofun, fun h => hne (Option.some_inj.mp h)⟩
      refine ⟨heq, ?_⟩
      cases hdiscarded : editor.discarded with
      | none => exact absurd (congrArg some heq) (hnew hdiscarded)
      | some key => exact congrArg Option.isSome hdiscarded
  · exact fun _ hsome => Or.inr (hold hsome)
  · intro key hkey
    have hsome : editor.discarded.isSome := by
      have hkey : editor.discarded = some key := hkey
      rw [hkey]
      rfl
    exact (hcleared key hkey).save (hold hsome)

theorem Drafting.edit {content : Content} (h : Drafting parse editor)
    (hcareful : Careful parse editor (.edit content)) : Drafting parse (editor.edit content) := by
  by_cases hsame : content = editor.content
  · subst hsame
    have hidle : ¬(editor.active = true ∧ editor.content ≠ editor.latestContentRef) :=
      fun hboth => hboth.2 (h.latest hboth.1).symm
    rw [DraftEditor.edit, if_neg hidle, if_pos rfl]
    exact h
  · rw [DraftEditor.edit, if_neg hsame]
    by_cases hactive : editor.active = true
    · have hnew : content ≠ editor.latestContentRef := by
        rw [h.latest hactive]
        exact hsame
      rw [if_pos ⟨hactive, hnew⟩]
      refine Drafting.persist hcareful nofun (fun _ hmark => ?_) nofun
      exact hsame (h.marked hactive content hmark).1
    · rw [if_neg fun hboth => hactive hboth.1]
      exact ⟨hcareful, fun hon => absurd hon hactive, fun hon => absurd hon hactive,
        fun hon => absurd hon hactive, nofun⟩

theorem Drafting.rerun {username : String} {cacheKey : Option String} {enabled : Bool}
    (h : Drafting parse editor) (hcareful : Careful parse editor (.rerun username cacheKey enabled)) :
    Drafting parse (editor.rerun username cacheKey enabled) := by
  have hcleaned := h.cleanup
  cases enabled with
  | false => exact ⟨hcleaned.plain, nofun, nofun, nofun, hcleaned.cleared⟩
  | true =>
      have hcontent : editor.cleanup.content = editor.content := by
        rw [DraftEditor.cleanup]
        split
        · rw [DraftEditor.flushDraft_eq]
        · rfl
      have hdiscarded : editor.cleanup.discarded = editor.discarded := by
        rw [DraftEditor.cleanup]
        split
        · rw [DraftEditor.flushDraft_eq]
        · rfl
      have hmark : editor.cleanup.discardedContentRef = editor.discardedContentRef := by
        rw [DraftEditor.cleanup]
        split
        · rw [DraftEditor.flushDraft_eq]
        · rfl
      rw [Careful] at hcareful
      rw [DraftEditor.rerun, if_pos rfl, ← hcontent]
      apply Drafting.persist
      · exact hcleaned.plain
      · exact hcleaned.cleared
      · intro hnone
        rw [hdiscarded] at hnone
        rw [hnone] at hcareful
        dsimp only
        rw [hmark, hcontent]
        exact hcareful
      · intro hsome
        rw [hdiscarded] at hsome
        rw [if_pos hsome] at hcareful
        dsimp only
        rw [hcontent]
        exact hcareful

/-- Every careful step keeps what is kept. -/
theorem drafting_step {editor' : DraftEditor} {event : DraftEvent} (h : Drafting parse editor)
    (hcareful : Careful parse editor event) (hstep : draftStep editor event = some editor') :
    Drafting parse editor' := by
  cases event with
  | edit content =>
      cases hstep
      exact h.edit hcareful
  | timer key =>
      cases hstep
      exact ⟨h.plain, h.latest, h.marked, h.quiet, fun key hkey => (h.cleared key hkey).fire⟩
  | flush =>
      cases hstep
      split
      · rename_i hactive
        exact h.flushDraft hactive
      · exact h
  | discard =>
      cases hstep
      refine ⟨h.plain, h.latest, fun hactive content hcontent => ?_, fun hactive _ => ?_, ?_⟩
      · have hlatest := h.latest hactive
        have hsame := Option.some_inj.mp hcontent
        exact ⟨hsame ▸ hlatest, rfl⟩
      · exact Or.inl (congrArg some (h.latest hactive))
      · intro key hkey
        cases Option.some_inj.mp hkey
        exact DraftCache.cleared_clear
  | rerun username cacheKey enabled =>
      cases hstep
      exact h.rerun hcareful
  | unmount =>
      cases hstep
      exact h.cleanup

/-- In a careful run a flush saves the latest content if an edit came after the last discard, and
else there is no draft under the key of that discard. -/
theorem drafts_kept {events : List DraftEvent} {editor' : DraftEditor}
    (hnew : NewEditor parse editor) (hrun : Run draftStep (Careful parse) editor events editor') :
    DraftsKept parse editor' := by
  rcases hnew with ⟨hmark, hidle, hdiscarded, hplain⟩
  have hstart : Drafting parse editor := by
    refine ⟨hplain, fun hon => ?_, fun hon => ?_, fun hon => ?_, fun key hkey => ?_⟩
    · exact absurd hon (by simp [hidle])
    · exact absurd hon (by simp [hidle])
    · exact absurd hon (by simp [hidle])
    · rw [hdiscarded] at hkey
      cases hkey
  have hend := hrun.invariant (fun _ _ _ h hguard hstep => drafting_step h hguard hstep) hstart
  exact hend.kept

/-- An editor of a key without drafts. -/
def emptyEditor : DraftEditor :=
  ⟨[], [], none, "", false, ⟨fun _ => none, fun _ => none⟩, none⟩

theorem drafts_kept_discard :
    ∃ editor, Run draftStep (Careful fun _ => none) emptyEditor
        [.rerun "u" none true, .edit [97], .discard, .timer "u-", .edit [98], .unmount] editor ∧
      DraftsKept (fun _ => none) editor := by
  have hplain : ∀ content : Content, ¬Structured (fun _ => none) content := by
    rintro content ⟨entry, hentry⟩
    cases hentry
  have hrun : ∃ editor, Run draftStep (Careful fun _ => none) emptyEditor
      [.rerun "u" none true, .edit [97], .discard, .timer "u-", .edit [98], .unmount] editor := by
    refine ⟨_, .cons ?_ rfl (.cons (hplain _) rfl (.cons trivial rfl (.cons trivial rfl
      (.cons (hplain _) rfl (.cons trivial rfl (.nil _))))))⟩
    exact nofun
  rcases hrun with ⟨editor, hrun⟩
  exact ⟨editor, hrun, drafts_kept ⟨rfl, rfl, rfl, hplain _⟩ hrun⟩

/-- Effects that run again after a discard bring the draft back. -/
theorem draft_comes_back :
    ¬∀ (parse : Parse) (editor editor' : DraftEditor) (events : List DraftEvent),
      NewEditor parse editor → FreeRun draftStep editor events editor' →
        DraftsKept parse editor' := by
  intro h
  have hplain : ¬Structured (fun _ => none) emptyEditor.content := by
    rintro ⟨entry, hentry⟩
    cases hentry
  have hkept := h (fun _ => none) emptyEditor _
    [.rerun "u" none true, .edit [97], .discard, .rerun "u" none true, .timer "u-"]
    ⟨rfl, rfl, rfl, hplain⟩
    (.cons trivial rfl (.cons trivial rfl (.cons trivial rfl (.cons trivial rfl
      (.cons trivial rfl (.nil _))))))
  have hnone := hkept.none "u-" (by decide)
  revert hnone
  decide

/-- The text of an entry of the older format with the content {lit}`x`. -/
def olderEntry : Content :=
  "\x7b\"kind\":\"memos.editor-cache\",\"version\":1,\"content\":\"x\"\x7d".toList.map
    Char.toNat

/-- The parser on the texts of a run that writes that entry. -/
def parseOlder (raw : Content) : Option ParsedEntry :=
  if raw = olderEntry then
    some ⟨.string STRUCTURED_CACHE_ENTRY_KIND, .number STRUCTURED_CACHE_ENTRY_VERSION,
      .string [120]⟩
  else none

/-- A draft that reads as an entry of the older format is loaded as another text, though nothing was
discarded. -/
theorem older_entry_changes :
    ¬∀ (parse : Parse) (editor editor' : DraftEditor) (events : List DraftEvent),
      NewEditor parse editor → (∀ event ∈ events, event ≠ .discard) →
        FreeRun draftStep editor events editor' → DraftsKept parse editor' := by
  intro h
  have hplain : ¬Structured parseOlder emptyEditor.content := by
    rintro ⟨entry, hentry⟩
    cases hentry
  have hkept := h parseOlder emptyEditor _ [.rerun "u" none true, .edit olderEntry]
    ⟨rfl, rfl, rfl, hplain⟩ (by simp) (.cons trivial rfl (.cons trivial rfl (.nil _)))
  have hsaved := hkept.saved rfl rfl
  revert hsaved
  decide

end Web
end MemosNote
