import Mathlib.Data.List.Sort
import Mathlib.Data.Prod.Lex
import Mathlib.Data.String.Basic
import Mathlib.Order.Bounds.Basic
import MemosNote.Library.Program

/-!
# Migration files

A migration file is named by the minor version it belongs to and by a zero-padded patch
number.  Its schema version is read off its path, the files to be applied are selected by
that version, and they are applied in the order of their paths.

Main results:

- Theorem {lit}`getSchemaVersionOfMigrateScript_path`: the version read off a path.
- Theorem {lit}`getCurrentSchemaVersion_eq`: the version computed from a set of files.
- Theorem {lit}`shouldApply_iff`: the selection of one file.
-/

namespace MemosNote
namespace Store

open Library

/-! ## Schema versions -/

/-- A schema version. -/
structure Version where
  major : ℕ
  minor : ℕ
  patch : ℕ
deriving DecidableEq, Repr

namespace Version

/-- The text of a version. -/
def text (v : Version) : String :=
  toString v.major ++ "." ++ toString v.minor ++ "." ++ toString v.patch

/-- The components of a version, most significant first. -/
def key (v : Version) : ℕ ×ₗ ℕ ×ₗ ℕ :=
  toLex (v.major, toLex (v.minor, v.patch))

private theorem key_injective : Function.Injective key := by
  rintro ⟨major, minor, patch⟩ ⟨major', minor', patch'⟩ h
  have h' : (major, toLex (minor, patch)) = (major', toLex (minor', patch')) := toLex.injective h
  simp only [Prod.mk.injEq, EmbeddingLike.apply_eq_iff_eq] at h'
  obtain ⟨rfl, rfl, rfl⟩ := h'
  rfl

instance : LinearOrder Version :=
  LinearOrder.lift' key key_injective

theorem lt_iff (v w : Version) :
    v < w ↔ v.major < w.major ∨ v.major = w.major ∧
      (v.minor < w.minor ∨ v.minor = w.minor ∧ v.patch < w.patch) := by
  have hkey : v < w ↔ v.key < w.key := Iff.rfl
  rw [hkey, key, key, Prod.Lex.toLex_lt_toLex, Prod.Lex.toLex_lt_toLex]

end Version

/-- The comparison of the semantic-version library, on texts with a leading {lit}`v`.  It
orders canonical versions by their components, and puts a text of two numbers and a negative
patch number, which is no version, before every version. -/
structure Semver where
  compare : String → String → ℤ
  compare_pos_iff : ∀ v w : Version, 0 < compare ("v" ++ v.text) ("v" ++ w.text) ↔ w < v
  compare_gt_iff : ∀ v w : Version, -1 < compare ("v" ++ v.text) ("v" ++ w.text) ↔ w ≤ v
  compare_negative : ∀ (major minor n : ℕ) (w : Version),
    compare ("v" ++ (toString major ++ "." ++ toString minor ++ "." ++ ("-" ++ toString n)))
      ("v" ++ w.text) ≤ 0

section

variable (semver : Semver)

def IsVersionGreaterOrEqualThan (version target : String) : Bool :=
  -1 < semver.compare ("v" ++ version) ("v" ++ target)

def IsVersionGreaterThan (version target : String) : Bool :=
  0 < semver.compare ("v" ++ version) ("v" ++ target)

end

/-- The version of a database without version tracking. -/
def defaultSchemaVersion : String :=
  "0.0.0"

def getSchemaVersionOrDefault (schemaVersion : String) : String :=
  if schemaVersion = "" then defaultSchemaVersion else schemaVersion

def isVersionEmpty (schemaVersion : String) : Bool :=
  schemaVersion = "" || schemaVersion = defaultSchemaVersion

/-- A migration file is applied when its version lies between the version of the database
and the target version. -/
def shouldApplyMigration (semver : Semver) (fileVersion currentDBVersion targetVersion : String) :
    Bool :=
  IsVersionGreaterThan semver fileVersion (getSchemaVersionOrDefault currentDBVersion) &&
    IsVersionGreaterOrEqualThan semver targetVersion fileVersion

/-! ## Reading a version off a path -/

/-- The 64-bit range of a Go integer. -/
def maxInt : ℕ :=
  9223372036854775807

/-- Two's-complement wrap-around of a 64-bit integer. -/
def wrapInt (n : ℤ) : ℤ :=
  (n + 9223372036854775808) % 18446744073709551616 - 9223372036854775808

/-- The sign and the digits of a decimal text. -/
def splitSign : List Char → Bool × List Char
  | '-' :: cs => (true, cs)
  | '+' :: cs => (false, cs)
  | cs => (false, cs)

/-- The decimal value of a text. -/
def atoi (text : List Char) : Except String ℤ :=
  let (negative, digits) := splitSign text
  let context := "strconv.Atoi: parsing \"" ++ String.ofList text ++ "\": "
  if digits = [] ∨ ¬ digits.all Char.isDigit then throw (context ++ "invalid syntax")
  else
    let magnitude := Nat.ofDigitChars 10 digits 0
    if negative then
      if magnitude ≤ maxInt + 1 then pure (-magnitude)
      else throw (context ++ "value out of range")
    else if magnitude ≤ maxInt then pure magnitude
    else throw (context ++ "value out of range")

/-- Split a text at every separator. -/
def splitAll (separator : Char) : List Char → List (List Char)
  | [] => [[]]
  | c :: cs =>
      if c = separator then [] :: splitAll separator cs
      else match splitAll separator cs with
        | part :: parts => (c :: part) :: parts
        | [] => [[c]]

/-- The text before the first {lit}`__`. -/
def beforeSplit : List Char → List Char
  | '_' :: '_' :: _ => []
  | c :: cs => c :: beforeSplit cs
  | [] => []

/-- The name of the file that holds the latest schema. -/
def LatestSchemaFileName : String :=
  "LATEST.sql"

/-- The schema version of a path, given the current schema version for the latest schema
file. -/
def schemaVersionOfPath (currentSchemaVersion : Except String String) (filePath : String) :
    Except String String :=
  if LatestSchemaFileName.toList <:+ filePath.toList then currentSchemaVersion
  else
    match (splitAll '/' filePath.toList).reverse with
    | filename :: minorVersion :: _ => do
        match atoi (beforeSplit filename) with
        | .ok patchVersion =>
            pure (String.ofList minorVersion ++ "." ++ toString (wrapInt (patchVersion + 1)))
        | .error e =>
            throw ("failed to convert patch version to int: " ++
              String.ofList (beforeSplit filename) ++ ": " ++ e)
    | _ => throw ("invalid file path: " ++ filePath)

/-- The greatest of the versions of the paths and of a version found before. -/
def greatestSchemaVersion (semver : Semver) (versionOf : String → Except String String) :
    String → List String → Except String String
  | greatest, [] => pure greatest
  | greatest, filePath :: filePaths => do
      let fileSchemaVersion ← (versionOf filePath).mapError
        ("failed to get schema version of migrate script: " ++ ·)
      greatestSchemaVersion semver versionOf
        (if IsVersionGreaterThan semver fileSchemaVersion greatest then fileSchemaVersion
          else greatest) filePaths

/-- The latest schema version available.  The call stack allows {lit}`depth` nested calls:
reading the version of a file that ends in the name of the latest schema calls the function
again. -/
def GetCurrentSchemaVersion (semver : Semver) (filePaths : List String) :
    ℕ → Except String String
  | 0 => throw "stack overflow"
  | depth + 1 =>
      greatestSchemaVersion semver
        (fun filePath =>
          schemaVersionOfPath (GetCurrentSchemaVersion semver filePaths depth) filePath)
        defaultSchemaVersion filePaths

/-- The schema version of a migration script. -/
def getSchemaVersionOfMigrateScript (semver : Semver) (filePaths : List String) (depth : ℕ)
    (filePath : String) : Except String String :=
  schemaVersionOfPath (GetCurrentSchemaVersion semver filePaths depth) filePath

/-! ## Well-named files -/

/-- A migration file {lit}`<major.minor>/<NN>__<description>.sql`, where {lit}`NN` is a
zero-padded number. -/
structure MigrationFile where
  major : ℕ
  minor : ℕ
  digits : List Char
  description : String
  digits_ne : digits ≠ []
  digits_numeric : ∀ c ∈ digits, c.isDigit = true
  description_flat : '/' ∉ description.toList
deriving DecidableEq

namespace MigrationFile

/-- The patch number in the name. -/
def patch (f : MigrationFile) : ℕ :=
  Nat.ofDigitChars 10 f.digits 0

/-- The schema version that the file leads to. -/
def version (f : MigrationFile) : Version :=
  ⟨f.major, f.minor, f.patch + 1⟩

/-- The directory of the file. -/
def minorVersion (f : MigrationFile) : String :=
  toString f.major ++ "." ++ toString f.minor

/-- The name of the file. -/
def filename (f : MigrationFile) : List Char :=
  f.digits ++ '_' :: '_' :: f.description.toList ++ ".sql".toList

/-- The path of the file below the directory of a driver. -/
def path (driver : String) (f : MigrationFile) : String :=
  "migration/" ++ driver ++ "/" ++ f.minorVersion ++ "/" ++ String.ofList f.filename

/-- The path ends in the name of the latest schema file. -/
def NamesLatest (f : MigrationFile) : Prop :=
  "LATEST".toList <:+ f.description.toList

/-- The patch number is the greatest integer, so that the patch version overflows. -/
def Overflows (f : MigrationFile) : Prop :=
  f.patch = maxInt

instance (f : MigrationFile) : Decidable f.NamesLatest :=
  inferInstanceAs (Decidable ("LATEST".toList <:+ f.description.toList))

instance (f : MigrationFile) : Decidable f.Overflows :=
  inferInstanceAs (Decidable (f.patch = maxInt))

/-- The version text that the code computes. -/
def versionText (f : MigrationFile) : String :=
  if f.Overflows then f.minorVersion ++ "." ++ ("-" ++ toString (maxInt + 1)) else f.version.text

end MigrationFile

/-! ## The version read off a path -/

theorem splitAll_ne_nil (separator : Char) (cs : List Char) :
    splitAll separator cs ≠ [] := by
  cases cs with
  | nil => simp [splitAll]
  | cons c cs =>
      unfold splitAll
      split
      · simp
      · split <;> simp

/-- A text without the separator is one part. -/
theorem splitAll_flat {separator : Char} {cs : List Char} (h : separator ∉ cs) :
    splitAll separator cs = [cs] := by
  induction cs with
  | nil => rfl
  | cons c cs ih =>
      rw [List.mem_cons, not_or] at h
      rw [splitAll, if_neg (Ne.symm h.1), ih h.2]

/-- The part after the last separator is the last one. -/
private theorem splitAll_append (separator : Char) (before : List Char) {last : List Char}
    (h : separator ∉ last) :
    splitAll separator (before ++ separator :: last) = splitAll separator before ++ [last] := by
  induction before with
  | nil =>
      have hrest := splitAll_flat h
      simp [splitAll, hrest]
  | cons c cs ih =>
      rw [List.cons_append, splitAll, splitAll, ih]
      by_cases hc : c = separator
      · simp [hc]
      · rw [if_neg hc, if_neg hc]
        cases hparts : splitAll separator cs with
        | nil => exact absurd hparts (splitAll_ne_nil separator cs)
        | cons part parts => rfl

private theorem beforeSplit_append {digits : List Char} (h : ∀ c ∈ digits, c.isDigit = true)
    (rest : List Char) : beforeSplit (digits ++ '_' :: '_' :: rest) = digits := by
  induction digits with
  | nil => rfl
  | cons c cs ih =>
      have hc : c ≠ '_' := by
        rintro rfl
        exact absurd (h '_' (by simp)) (by decide)
      have hrest := ih fun d hd => h d (by simp [hd])
      rw [List.cons_append]
      cases hcs : cs ++ '_' :: '_' :: rest with
      | nil => simp at hcs
      | cons d ds =>
          rw [hcs] at hrest
          rw [beforeSplit, hrest]
          intro tail hunderscore
          exact absurd hunderscore hc

private theorem atoi_digits {digits : List Char} (hne : digits ≠ [])
    (h : ∀ c ∈ digits, c.isDigit = true) :
    atoi digits = if Nat.ofDigitChars 10 digits 0 ≤ maxInt
      then .ok (Nat.ofDigitChars 10 digits 0 : ℤ)
      else .error ("strconv.Atoi: parsing \"" ++ String.ofList digits ++
        "\": value out of range") := by
  have hsign : splitSign digits = (false, digits) := by
    cases digits with
    | nil => rfl
    | cons c cs =>
        have hc := h c (by simp)
        unfold splitSign
        split
        · next heq => cases heq; exact absurd hc (by decide)
        · next heq => cases heq; exact absurd hc (by decide)
        · rfl
  have hall : digits.all Char.isDigit = true := by simpa [List.all_eq_true] using h
  have htext : "strconv.Atoi: parsing \"" ++ String.ofList digits ++ "\": value out of range" =
      "strconv.Atoi: parsing \"" ++ String.ofList digits ++ "\": " ++ "value out of range" := by
    have hjoin : ("\": value out of range" : String) = "\": " ++ "value out of range" := by decide
    rw [hjoin, String.append_assoc, String.append_assoc, String.append_assoc]
  simp only [atoi, hsign, hne, hall, not_true_eq_false, or_self, if_false, Bool.false_eq_true,
    htext]
  rfl

private theorem slash_not_mem_toString (n : ℕ) : '/' ∉ (toString n).toList := by
  intro hmem
  rw [Nat.toString_eq_repr, Nat.toList_repr] at hmem
  have hdigit := Nat.isDigit_of_mem_toDigits (by decide) (by decide) hmem
  exact absurd hdigit (by decide)

namespace MigrationFile

private theorem slash_not_mem_minorVersion (f : MigrationFile) :
    '/' ∉ f.minorVersion.toList := by
  have hmajor := slash_not_mem_toString f.major
  have hminor := slash_not_mem_toString f.minor
  have hdot : '/' ∉ ".".toList := by decide
  simp only [minorVersion, String.toList_append, List.mem_append, not_or]
  exact ⟨⟨hmajor, hdot⟩, hminor⟩

private theorem slash_not_mem_filename (f : MigrationFile) : '/' ∉ f.filename := by
  have hdigits : '/' ∉ f.digits := fun hmem => absurd (f.digits_numeric _ hmem) (by decide)
  simp [filename, hdigits, f.description_flat]

private theorem toList_path (driver : String) (f : MigrationFile) :
    (f.path driver).toList = ("migration/" ++ driver).toList ++
      '/' :: f.minorVersion.toList ++ '/' :: f.filename := by
  have hslash : "/".toList = ['/'] := rfl
  simp [path, String.toList_append, hslash]

private theorem splitAll_path (driver : String) (f : MigrationFile) :
    (splitAll '/' (f.path driver).toList).reverse = f.filename :: f.minorVersion.toList ::
      (splitAll '/' ("migration/" ++ driver).toList).reverse := by
  rw [toList_path, splitAll_append _ _ f.slash_not_mem_filename,
    splitAll_append _ _ f.slash_not_mem_minorVersion]
  simp

/-- A suffix that lacks a character lies behind it. -/
private theorem suffix_behind {p before after : List Char} {c : Char} (hc : c ∉ p) :
    p <:+ before ++ c :: after ↔ p <:+ after := by
  constructor
  · intro h
    have hafter : c :: after <:+ before ++ c :: after := List.suffix_append _ _
    rcases List.suffix_or_suffix_of_suffix h hafter with hp | hp
    · rcases List.suffix_cons_iff.mp hp with rfl | hp
      · exact absurd List.mem_cons_self hc
      · exact hp
    · exact absurd (hp.subset List.mem_cons_self) hc
  · intro h
    exact (h.trans (List.suffix_cons c after)).trans (List.suffix_append _ _)

/-- Only the description decides whether a path ends in the name of the latest schema. -/
private theorem latest_suffix_iff (driver : String) (f : MigrationFile) :
    LatestSchemaFileName.toList <:+ (f.path driver).toList ↔ f.NamesLatest := by
  have hname : LatestSchemaFileName.toList = "LATEST".toList ++ ".sql".toList := by decide
  have hpath : (f.path driver).toList = (("migration/" ++ driver).toList ++
      '/' :: f.minorVersion.toList ++ '/' :: (f.digits ++ ['_'])) ++
        '_' :: f.description.toList ++ ".sql".toList := by
    rw [toList_path]
    simp [filename]
  rw [hname, hpath, List.suffix_append_self_iff, suffix_behind (by decide)]
  rfl

private theorem wrapInt_succ (n : ℕ) (h : n < maxInt) :
    wrapInt ((n : ℤ) + 1) = ((n + 1 : ℕ) : ℤ) := by
  unfold maxInt at h
  unfold wrapInt
  rw [Int.emod_eq_of_lt (by omega) (by omega)]
  omega

private theorem text_wrapInt (f : MigrationFile) (h : f.patch ≤ maxInt) :
    f.minorVersion ++ "." ++ toString (wrapInt ((f.patch : ℤ) + 1)) = f.versionText := by
  unfold versionText
  by_cases hoverflow : f.Overflows
  · have hpatch : f.patch = maxInt := hoverflow
    have htext : toString (wrapInt ((maxInt : ℤ) + 1)) = "-" ++ toString (maxInt + 1) := by decide
    rw [if_pos hoverflow, hpatch, htext]
  · have hlt : f.patch < maxInt := lt_of_le_of_ne h hoverflow
    rw [if_neg hoverflow, wrapInt_succ f.patch hlt]
    rfl

/-- The error for a patch number out of range. -/
def rangeError (f : MigrationFile) : String :=
  "failed to convert patch version to int: " ++ String.ofList f.digits ++ ": " ++
    ("strconv.Atoi: parsing \"" ++ String.ofList f.digits ++ "\": value out of range")

/-- The version read off the path of a well-named file. -/
theorem schemaVersionOfPath_path (currentSchemaVersion : Except String String) (driver : String)
    (f : MigrationFile) :
    schemaVersionOfPath currentSchemaVersion (f.path driver) =
      if f.NamesLatest then currentSchemaVersion
      else if f.patch ≤ maxInt then .ok f.versionText
      else .error f.rangeError := by
  unfold schemaVersionOfPath
  simp only [latest_suffix_iff, splitAll_path]
  by_cases hlatest : f.NamesLatest
  · rw [if_pos hlatest, if_pos hlatest]
  · rw [if_neg hlatest, if_neg hlatest]
    have hdigits : beforeSplit f.filename = f.digits := by
      have hname : f.filename = f.digits ++ '_' :: '_' :: (f.description.toList ++ ".sql".toList) := by
        simp [filename]
      rw [hname, beforeSplit_append f.digits_numeric]
    rw [hdigits, atoi_digits f.digits_ne f.digits_numeric]
    by_cases hpatch : f.patch ≤ maxInt
    · have hvalue : Nat.ofDigitChars 10 f.digits 0 ≤ maxInt := hpatch
      rw [if_pos hvalue, if_pos hpatch]
      have htext := text_wrapInt f hpatch
      rw [← htext]
      simp [patch]
      rfl
    · have hvalue : ¬ Nat.ofDigitChars 10 f.digits 0 ≤ maxInt := hpatch
      rw [if_neg hvalue, if_neg hpatch]
      rfl

end MigrationFile

/-! ## A comparison by components -/

/-- The number of a version component. -/
def parseComponent (cs : List Char) : Option ℕ :=
  if cs ≠ [] ∧ cs.all Char.isDigit then some (Nat.ofDigitChars 10 cs 0) else none

/-- The version of a text with a leading {lit}`v`. -/
def parseVersion (text : String) : Option Version :=
  match text.toList with
  | 'v' :: cs =>
      match splitAll '.' cs with
      | [major, minor, patch] => do
          return ⟨← parseComponent major, ← parseComponent minor, ← parseComponent patch⟩
      | _ => none
  | _ => none

/-- Compare two texts as versions; a text that is no version comes first. -/
def compareVersions (s t : String) : ℤ :=
  match parseVersion s, parseVersion t with
  | some v, some w => if v < w then -1 else if w < v then 1 else 0
  | none, some _ => -1
  | some _, none => 1
  | none, none => 0

private theorem parseComponent_toString (n : ℕ) : parseComponent (toString n).toList = some n := by
  rw [Nat.toString_eq_repr, Nat.toList_repr]
  have hne : Nat.toDigits 10 n ≠ [] := Nat.toDigits_ne_nil
  have hall : (Nat.toDigits 10 n).all Char.isDigit = true := by
    rw [List.all_eq_true]
    exact fun c hc => Nat.isDigit_of_mem_toDigits (by decide) (by decide) hc
  rw [parseComponent, if_pos ⟨hne, hall⟩, Nat.ofDigitChars_ten_toDigits]

private theorem dot_not_mem_toString (n : ℕ) : '.' ∉ (toString n).toList := by
  intro hmem
  rw [Nat.toString_eq_repr, Nat.toList_repr] at hmem
  have hdigit := Nat.isDigit_of_mem_toDigits (by decide) (by decide) hmem
  exact absurd hdigit (by decide)

private theorem parseVersion_text (v : Version) : parseVersion ("v" ++ v.text) = some v := by
  have hdot : ".".toList = ['.'] := rfl
  have htext : ("v" ++ v.text).toList = 'v' :: (((toString v.major).toList ++
      '.' :: (toString v.minor).toList) ++ '.' :: (toString v.patch).toList) := by
    have hv : "v".toList = ['v'] := rfl
    simp [Version.text, String.toList_append, hdot, hv]
  have hparts : splitAll '.' (((toString v.major).toList ++ '.' :: (toString v.minor).toList) ++
      '.' :: (toString v.patch).toList) =
        [(toString v.major).toList, (toString v.minor).toList, (toString v.patch).toList] := by
    rw [splitAll_append _ _ (dot_not_mem_toString _), splitAll_append _ _ (dot_not_mem_toString _),
      splitAll_flat (dot_not_mem_toString _)]
    rfl
  unfold parseVersion
  rw [htext]
  simp only [hparts, parseComponent_toString]
  rfl

private theorem parseVersion_negative (minorVersion : String) (n : ℕ) :
    parseVersion ("v" ++ (minorVersion ++ "." ++ ("-" ++ toString n))) = none := by
  have hdot : ".".toList = ['.'] := rfl
  have hminus : "-".toList = ['-'] := rfl
  have htext : ("v" ++ (minorVersion ++ "." ++ ("-" ++ toString n))).toList =
      'v' :: (minorVersion.toList ++ '.' :: '-' :: (toString n).toList) := by
    have hv : "v".toList = ['v'] := rfl
    simp [String.toList_append, hdot, hminus, hv]
  have hlast : '.' ∉ '-' :: (toString n).toList := by
    rw [List.mem_cons, not_or]
    exact ⟨by decide, dot_not_mem_toString n⟩
  have hcomponent : parseComponent ('-' :: (toString n).toList) = none := by
    have hdigit : ¬ ('-' :: (toString n).toList).all Char.isDigit = true := by
      rw [List.all_cons, Bool.and_eq_true]
      exact fun h => absurd h.1 (by decide)
    exact if_neg fun h => hdigit h.2
  unfold parseVersion
  rw [htext]
  simp only [splitAll_append '.' minorVersion.toList hlast]
  split
  · next major minor patch heq =>
      have hpatch : patch = '-' :: (toString n).toList := by
        have hends := congrArg List.getLast? heq
        simpa using hends.symm
      rw [hpatch, hcomponent]
      cases parseComponent major <;> cases parseComponent minor <;> rfl
  · rfl

/-- The comparison by components orders versions as the library does. -/
def Semver.byComponents : Semver where
  compare := compareVersions
  compare_pos_iff v w := by
    rw [compareVersions, parseVersion_text, parseVersion_text]
    dsimp only
    split_ifs with hlt hgt
    · exact iff_of_false (by decide) (not_lt.mpr hlt.le)
    · exact iff_of_true (by decide) hgt
    · exact iff_of_false (by decide) hgt
  compare_gt_iff v w := by
    rw [compareVersions, parseVersion_text, parseVersion_text]
    dsimp only
    split_ifs with hlt hgt
    · exact iff_of_false (by decide) (not_le.mpr hlt)
    · exact iff_of_true (by decide) hgt.le
    · exact iff_of_true (by decide) (not_lt.mp hlt)
  compare_negative major minor n w := by
    rw [compareVersions, parseVersion_negative, parseVersion_text]
    exact (by decide : (-1 : ℤ) ≤ 0)

/-! ## The selection of one file -/

theorem Version.text_ne_empty (v : Version) : v.text ≠ "" := by
  intro h
  have hmem : '.' ∈ v.text.toList := by
    have hdot : ".".toList = ['.'] := rfl
    simp [text, String.toList_append, hdot]
  rw [h] at hmem
  exact absurd hmem (by decide)

/-- The version of a database that does not record one. -/
def Version.zero : Version :=
  ⟨0, 0, 0⟩

/-- The text a database records for its version, if any. -/
def schemaText : Option Version → String
  | none => ""
  | some v => v.text

/-- The version a database counts from. -/
def schemaFloor (current : Option Version) : Version :=
  current.getD .zero

private theorem getSchemaVersionOrDefault_schemaText (current : Option Version) :
    getSchemaVersionOrDefault (schemaText current) = (schemaFloor current).text := by
  cases current with
  | none => rfl
  | some v => exact if_neg v.text_ne_empty

theorem isVersionGreaterThan_iff (semver : Semver) (v w : Version) :
    IsVersionGreaterThan semver v.text w.text = true ↔ w < v := by
  simp [IsVersionGreaterThan, semver.compare_pos_iff]

theorem isVersionGreaterOrEqualThan_iff (semver : Semver) (v w : Version) :
    IsVersionGreaterOrEqualThan semver v.text w.text = true ↔ w ≤ v := by
  simp [IsVersionGreaterOrEqualThan, semver.compare_gt_iff]

/-- A version that cannot be told from another one by the library is the same. -/
theorem Version.eq_of_text_eq (semver : Semver) {v w : Version} (h : v.text = w.text) : v = w := by
  have hvw := semver.compare_gt_iff v w
  have hwv := semver.compare_gt_iff w v
  have hvv := semver.compare_gt_iff v v
  rw [h] at hvw hwv hvv
  exact le_antisymm (hwv.mp (hvv.mpr le_rfl)) (hvw.mp (hvv.mpr le_rfl))

namespace MigrationFile

/-- The versions between that of the database and the target. -/
def Selected (current : Option Version) (target : Version) (f : MigrationFile) : Prop :=
  schemaFloor current < f.version ∧ f.version ≤ target

instance (current : Option Version) (target : Version) (f : MigrationFile) :
    Decidable (f.Selected current target) :=
  inferInstanceAs (Decidable (_ ∧ _))

theorem versionText_of_not_overflows {f : MigrationFile} (h : ¬ f.Overflows) :
    f.versionText = f.version.text :=
  if_neg h

theorem not_greater_of_overflows (semver : Semver) {f : MigrationFile} (h : f.Overflows)
    (w : Version) : IsVersionGreaterThan semver f.versionText w.text = false := by
  have hle := semver.compare_negative f.major f.minor (maxInt + 1) w
  rw [versionText, if_pos h, minorVersion, IsVersionGreaterThan, decide_eq_false_iff_not]
  exact not_lt.mpr hle

/-- A file is applied exactly when its version is a selected one that does not overflow. -/
theorem shouldApply_iff (semver : Semver) (current : Option Version) (target : Version)
    (f : MigrationFile) :
    shouldApplyMigration semver f.versionText (schemaText current) target.text = true ↔
      ¬ f.Overflows ∧ f.Selected current target := by
  unfold shouldApplyMigration
  rw [getSchemaVersionOrDefault_schemaText]
  by_cases hoverflow : f.Overflows
  · simp [not_greater_of_overflows semver hoverflow, hoverflow]
  · rw [versionText_of_not_overflows hoverflow, Bool.and_eq_true, isVersionGreaterThan_iff,
      isVersionGreaterOrEqualThan_iff]
    simp [hoverflow, Selected]

end MigrationFile

/-! ## The version of a set of files -/

/-- The version of every path can be read. -/
def Readable (files : List MigrationFile) : Prop :=
  ∀ f ∈ files, ¬ f.NamesLatest ∧ f.patch ≤ maxInt

instance (files : List MigrationFile) : Decidable (Readable files) :=
  inferInstanceAs (Decidable (∀ f ∈ files, ¬ f.NamesLatest ∧ f.patch ≤ maxInt))

/-- The greatest of the versions that do not overflow, and of a version found before. -/
def greatestVersion (greatest : Version) (files : List MigrationFile) : Version :=
  files.foldl (fun v f => if ¬ f.Overflows ∧ v < f.version then f.version else v) greatest

theorem le_greatestVersion (greatest : Version) (files : List MigrationFile) :
    greatest ≤ greatestVersion greatest files ∧
      ∀ f ∈ files, ¬ f.Overflows → f.version ≤ greatestVersion greatest files := by
  induction files generalizing greatest with
  | nil => exact ⟨le_rfl, by simp⟩
  | cons f files ih =>
      obtain ⟨hle, hfiles⟩ :=
        ih (if ¬ f.Overflows ∧ greatest < f.version then f.version else greatest)
      have hstep : greatestVersion greatest (f :: files) = greatestVersion
          (if ¬ f.Overflows ∧ greatest < f.version then f.version else greatest) files := rfl
      rw [hstep]
      by_cases hgreater : ¬ f.Overflows ∧ greatest < f.version
      · rw [if_pos hgreater] at hle hfiles ⊢
        refine ⟨hgreater.2.le.trans hle, ?_⟩
        rintro g (_ | ⟨_, hg⟩) hoverflow
        · exact hle
        · exact hfiles g hg hoverflow
      · rw [if_neg hgreater] at hle hfiles ⊢
        refine ⟨hle, ?_⟩
        rintro g (_ | ⟨_, hg⟩) hoverflow
        · have hnot : ¬ greatest < f.version := fun hlt => hgreater ⟨hoverflow, hlt⟩
          exact (not_lt.mp hnot).trans hle
        · exact hfiles g hg hoverflow

theorem greatestVersion_mem (greatest : Version) (files : List MigrationFile) :
    greatestVersion greatest files = greatest ∨
      ∃ f ∈ files, ¬ f.Overflows ∧ greatestVersion greatest files = f.version := by
  induction files generalizing greatest with
  | nil => exact .inl rfl
  | cons f files ih =>
      have hstep : greatestVersion greatest (f :: files) = greatestVersion
          (if ¬ f.Overflows ∧ greatest < f.version then f.version else greatest) files := rfl
      rw [hstep]
      rcases ih (if ¬ f.Overflows ∧ greatest < f.version then f.version else greatest) with
        heq | ⟨g, hg, hoverflow, heq⟩
      · by_cases hgreater : ¬ f.Overflows ∧ greatest < f.version
        · rw [if_pos hgreater] at heq ⊢
          exact .inr ⟨f, List.mem_cons_self, hgreater.1, heq⟩
        · rw [if_neg hgreater] at heq ⊢
          exact .inl heq
      · exact .inr ⟨g, List.mem_cons_of_mem f hg, hoverflow, heq⟩

section

variable (semver : Semver) (driver : String)

/-- The paths of a set of files. -/
def filePaths (files : List MigrationFile) : List String :=
  files.map (MigrationFile.path driver)

private theorem greatestSchemaVersion_eq {versionOf : String → Except String String}
    {files : List MigrationFile}
    (h : ∀ f ∈ files, versionOf (f.path driver) = .ok f.versionText) (greatest : Version) :
    greatestSchemaVersion semver versionOf greatest.text (filePaths driver files) =
      .ok (greatestVersion greatest files).text := by
  induction files generalizing greatest with
  | nil => rfl
  | cons f files ih =>
      have hfile := h f (by simp)
      have hrest := ih fun g hg => h g (by simp [hg])
      have hnext : (if IsVersionGreaterThan semver f.versionText greatest.text then f.versionText
          else greatest.text) =
            (if ¬ f.Overflows ∧ greatest < f.version then f.version else greatest).text := by
        by_cases hoverflow : f.Overflows
        · simp [MigrationFile.not_greater_of_overflows semver hoverflow, hoverflow]
        · rw [MigrationFile.versionText_of_not_overflows hoverflow]
          simp only [isVersionGreaterThan_iff, hoverflow, not_false_eq_true, true_and]
          exact (apply_ite Version.text _ _ _).symm
      have hstep : greatestSchemaVersion semver versionOf greatest.text
          (filePaths driver (f :: files)) = ((versionOf (f.path driver)).mapError
            ("failed to get schema version of migrate script: " ++ ·)).bind fun fileVersion =>
            greatestSchemaVersion semver versionOf
              (if IsVersionGreaterThan semver fileVersion greatest.text then fileVersion
                else greatest.text) (filePaths driver files) := rfl
      rw [hstep, hfile]
      simp only [Except.mapError, Except.bind, hnext, hrest]
      rfl

private theorem greatestSchemaVersion_error {versionOf : String → Except String String}
    {paths : List String} {filePath : String} (hmem : filePath ∈ paths)
    (h : ∀ t, versionOf filePath ≠ .ok t) (greatest : String) (t : String) :
    greatestSchemaVersion semver versionOf greatest paths ≠ .ok t := by
  induction paths generalizing greatest with
  | nil => simp at hmem
  | cons path paths ih =>
      have hstep : greatestSchemaVersion semver versionOf greatest (path :: paths) =
          ((versionOf path).mapError
            ("failed to get schema version of migrate script: " ++ ·)).bind fun fileVersion =>
            greatestSchemaVersion semver versionOf
              (if IsVersionGreaterThan semver fileVersion greatest then fileVersion
                else greatest) paths := rfl
      rw [hstep]
      cases hpath : versionOf path with
      | error e => simp [Except.mapError, Except.bind]
      | ok fileVersion =>
          rcases List.mem_cons.mp hmem with rfl | hrest
          · exact absurd hpath (h fileVersion)
          · exact ih hrest _

/-- The version computed from readable files is the greatest of their versions. -/
theorem GetCurrentSchemaVersion_eq {files : List MigrationFile} (h : Readable files)
    (depth : ℕ) :
    GetCurrentSchemaVersion semver (filePaths driver files) (depth + 1) =
      .ok (greatestVersion .zero files).text := by
  have hzero : defaultSchemaVersion = Version.zero.text := by decide
  rw [GetCurrentSchemaVersion, hzero]
  refine greatestSchemaVersion_eq semver driver (fun f hf => ?_) .zero
  rw [MigrationFile.schemaVersionOfPath_path, if_neg (h f hf).1, if_pos (h f hf).2]

/-- One unreadable path leaves the files without a version: the conversion fails, or the
function calls itself until the stack is used up. -/
theorem GetCurrentSchemaVersion_ne_ok {files : List MigrationFile} (h : ¬ Readable files)
    (depth : ℕ) (t : String) :
    GetCurrentSchemaVersion semver (filePaths driver files) depth ≠ .ok t := by
  induction depth generalizing t with
  | zero => simp [GetCurrentSchemaVersion, throw, throwThe, MonadExceptOf.throw]
  | succ depth ih =>
      simp only [Readable, not_forall] at h
      obtain ⟨f, hf, hunreadable⟩ := h
      rw [GetCurrentSchemaVersion]
      refine greatestSchemaVersion_error semver (List.mem_map_of_mem hf) (fun u => ?_) _ t
      rw [MigrationFile.schemaVersionOfPath_path]
      by_cases hlatest : f.NamesLatest
      · rw [if_pos hlatest]
        exact ih u
      · have hpatch : ¬ f.patch ≤ maxInt := fun hle => hunreadable ⟨hlatest, hle⟩
        rw [if_neg hlatest, if_neg hpatch]
        simp

end

end Store
end MemosNote
