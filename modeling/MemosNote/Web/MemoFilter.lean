import MemosNote.Library.Pieces
import MemosNote.Library.SearchParams

/-!
# Memo filters in the URL

The active filters are kept in the URL: each as its factor and its percent-encoded value, joined by
commas.  A tag click sets this text as a search parameter, which encodes it once more.  Date
navigation appends it as it is.

Main results:

- Theorem {lit}`parse_stringifyFilters`: the filters are parsed back.
- Theorem {lit}`parse_tagClickURL`: also from a parameter that was set.
- Theorem {lit}`parse_dateURL_iff`: when they are parsed back after date navigation.
-/

namespace MemosNote
namespace Web

open Library

inductive FilterFactor where
  | tagSearch
  | visibility
  | contentSearch
  | displayTime
  | pinned
  | hasLink
  | hasTaskList
  | hasCode
deriving DecidableEq, Repr

def FilterFactor.text : FilterFactor → String
  | tagSearch => "tagSearch"
  | visibility => "visibility"
  | contentSearch => "contentSearch"
  | displayTime => "displayTime"
  | pinned => "pinned"
  | hasLink => "property.hasLink"
  | hasTaskList => "property.hasTaskList"
  | hasCode => "property.hasCode"

/-- A filter; its value has no lone surrogates. -/
structure MemoFilter where
  factor : FilterFactor
  value : String
deriving DecidableEq, Repr

/-- A filter that was parsed: any text is taken for a factor. -/
structure ParsedFilter where
  factor : String
  value : String
deriving DecidableEq, Repr

def MemoFilter.parsed (f : MemoFilter) : ParsedFilter :=
  ⟨f.factor.text, f.value⟩

/-! ## The codec -/

/-- The characters that {lit}`encodeURIComponent` keeps. -/
def keptComponent (c : Char) : Bool :=
  c.isAlphanum || "-_.!~*'()".toList.contains c

def encodeURIComponent (s : String) : List Char :=
  PercentEncoding.encode keptComponent s.toList

/-- The decoded text, unless it is malformed. -/
def decodeURIComponent (text : List Char) : Option (List Char) :=
  PercentEncoding.decode text

/-- A factor and its value behind a colon; what follows a second colon is dropped. -/
def parseFilter (filterStr : List Char) : Option ParsedFilter :=
  let parts := filterStr.splitOn ':'
  (decodeURIComponent (parts[1]?.getD [])).map fun value =>
    ⟨String.ofList (parts[0]?.getD []), String.ofList value⟩

/-- All filters, unless a value is malformed. -/
def parseFilters : List (List Char) → Option (List ParsedFilter)
  | [] => some []
  | filterStr :: rest =>
      (parseFilter filterStr).bind fun f => (parseFilters rest).map (f :: ·)

def parseFilterQuery (query : Option (List Char)) : List ParsedFilter :=
  query.elim [] fun text => if text = [] then [] else (parseFilters (text.splitOn ',')).getD []

def stringifyFilter (f : MemoFilter) : List Char :=
  f.factor.text.toList ++ ':' :: encodeURIComponent f.value

def stringifyFilters (filters : List MemoFilter) : List Char :=
  [','].intercalate (filters.map stringifyFilter)

/-! ## The URL -/

def filterName : List Char := "filter".toList

/-- The query string with the filters set among other parameters. -/
def tagClickURL (params : List (List Char × List Char)) (filters : List MemoFilter) : List Char :=
  SearchParams.serialize (SearchParams.set filterName (stringifyFilters filters) params)

/-- The query string of date navigation. -/
def dateURL (filters : List MemoFilter) : List Char :=
  filterName ++ '=' :: stringifyFilters filters

/-- What the provider reads from a query string. -/
def providerFilters (url : List Char) : List ParsedFilter :=
  parseFilterQuery (SearchParams.get filterName (SearchParams.parse url))

/-! ## Joined filters -/

/-- A filter whose value is written as some text. -/
def joined (write : String → List Char) (filters : List MemoFilter) : List Char :=
  [','].intercalate (filters.map fun f => f.factor.text.toList ++ ':' :: write f.value)

theorem factor_plain (f : FilterFactor) :
    ',' ∉ f.text.toList ∧ ':' ∉ f.text.toList ∧ '%' ∉ f.text.toList ∧ f.text.toList ≠ [] := by
  cases f <;> decide

/-- A value without a colon is read as it is written. -/
theorem parseFilter_written (f : FilterFactor) (value : List Char) :
    parseFilter (f.text.toList ++ ':' :: value) =
      (decodeURIComponent ((value.splitOn ':')[0]?.getD [])).map fun v =>
        ⟨f.text, String.ofList v⟩ := by
  rw [parseFilter, List.splitOn_append_cons_self_of_not_mem (factor_plain f).2.1]
  simp

theorem parseFilters_map {write : String → List Char} {filters : List MemoFilter}
    (h : ∀ f ∈ filters, parseFilter (f.factor.text.toList ++ ':' :: write f.value) =
      some f.parsed) :
    parseFilters (filters.map fun f => f.factor.text.toList ++ ':' :: write f.value) =
      some (filters.map MemoFilter.parsed) := by
  induction filters with
  | nil => rfl
  | cons f filters ih =>
      have hrest := ih fun g hg => h g (List.mem_cons_of_mem f hg)
      rw [List.map_cons, parseFilters, h f List.mem_cons_self, Option.bind_some, hrest]
      rfl

private theorem length_parseFilters {texts : List (List Char)} {filters : List ParsedFilter}
    (h : parseFilters texts = some filters) : filters.length = texts.length := by
  induction texts generalizing filters with
  | nil =>
      cases h
      rfl
  | cons text texts ih =>
      rw [parseFilters] at h
      rcases Option.bind_eq_some_iff.mp h with ⟨f, -, hmap⟩
      rcases Option.map_eq_some_iff.mp hmap with ⟨rest, hrest, rfl⟩
      rw [List.length_cons, List.length_cons, ih hrest]

theorem joined_ne_nil {write : String → List Char} {f : MemoFilter} {filters : List MemoFilter} :
    joined write (f :: filters) ≠ [] := by
  intro h
  have hfactor := (factor_plain f.factor).2.2.2
  cases filters with
  | nil => simp [joined] at h
  | cons g filters => simp [joined] at h

/-- Filters whose written values have neither commas nor colons, and are decoded to the values. -/
theorem parseFilterQuery_joined {write : String → List Char} {filters : List MemoFilter}
    (hplain : ∀ f ∈ filters, ',' ∉ write f.value ∧ ':' ∉ write f.value)
    (hdecode : ∀ f ∈ filters, decodeURIComponent (write f.value) = some f.value.toList) :
    parseFilterQuery (some (joined write filters)) = filters.map MemoFilter.parsed := by
  cases filters with
  | nil => rfl
  | cons first rest =>
      have hcomma : ∀ text ∈ (first :: rest).map
          fun f => f.factor.text.toList ++ ':' :: write f.value, ',' ∉ text := by
        intro text htext
        rcases List.mem_map.mp htext with ⟨f, hf, rfl⟩
        have hfactor := (factor_plain f.factor).1
        simp [hfactor, (hplain f hf).1]
      have hparse : ∀ f ∈ first :: rest,
          parseFilter (f.factor.text.toList ++ ':' :: write f.value) = some f.parsed := by
        intro f hf
        have hsplit : (write f.value).splitOn ':' = [write f.value] :=
          List.splitOn_eq_singleton (hplain f hf).2
        have hvalue := hdecode f hf
        rw [parseFilter_written, hsplit]
        simp [hvalue, MemoFilter.parsed]
      change (if joined write (first :: rest) = [] then [] else _) = _
      rw [if_neg joined_ne_nil, joined, List.splitOn_intercalate ',' hcomma (by simp),
        parseFilters_map hparse]
      rfl

/-! ## The codec, and parameters that are set -/

private theorem encodeURIComponent_plain (s : String) :
    ',' ∉ encodeURIComponent s ∧ ':' ∉ encodeURIComponent s := by
  constructor
  · intro h
    rcases List.mem_flatMap.mp h with ⟨c, -, hc⟩
    exact SearchParams.notMem_encodeChar (by decide) (by decide) (by decide) c hc
  · intro h
    rcases List.mem_flatMap.mp h with ⟨c, -, hc⟩
    exact SearchParams.notMem_encodeChar (by decide) (by decide) (by decide) c hc

/-- The filters are parsed back. -/
theorem parse_stringifyFilters (filters : List MemoFilter) :
    parseFilterQuery (some (stringifyFilters filters)) = filters.map MemoFilter.parsed :=
  parseFilterQuery_joined (fun f _ => encodeURIComponent_plain f.value)
    fun _ _ => PercentEncoding.decode_encode (by decide) _

/-- The filters are parsed back from a parameter that was set among others. -/
theorem parse_tagClickURL (params : List (List Char × List Char)) (filters : List MemoFilter) :
    providerFilters (tagClickURL params filters) = filters.map MemoFilter.parsed := by
  rw [providerFilters, tagClickURL, SearchParams.parse_serialize, SearchParams.get_set,
    parse_stringifyFilters]

/-! ## Date navigation -/

theorem joined_cons_cons {write : String → List Char} (f g : MemoFilter)
    (filters : List MemoFilter) :
    joined write (f :: g :: filters) =
      (f.factor.text.toList ++ ':' :: write f.value) ++ ',' :: joined write (g :: filters) := by
  simp [joined, List.intercalate_cons_cons]

/-- A symbol that is neither written by the codec nor kept by it does not occur. -/
theorem notMem_stringifyFilters {symbol : Char} (hkeep : keptComponent symbol = false)
    (hother : symbol ∉ "%,:0123456789ABCDEF".toList)
    (hfactor : ∀ f : FilterFactor, symbol ∉ f.text.toList) (filters : List MemoFilter) :
    symbol ∉ stringifyFilters filters := by
  have hpercent : symbol ≠ '%' := fun he => hother (by rw [he]; decide)
  have hcomma : symbol ≠ ',' := fun he => hother (by rw [he]; decide)
  have hcolon : symbol ≠ ':' := fun he => hother (by rw [he]; decide)
  have hdigit : symbol ∉ "0123456789ABCDEF".toList :=
    fun he => hother (List.mem_append_right ['%', ',', ':'] he)
  have hone : ∀ f : MemoFilter, symbol ∉ stringifyFilter f := by
    intro f h
    rcases List.mem_append.mp h with h | h
    · exact hfactor f.factor h
    · rcases List.mem_cons.mp h with h | h
      · exact hcolon h
      · rcases List.mem_flatMap.mp h with ⟨c, -, hc⟩
        exact SearchParams.notMem_encodeChar hkeep hpercent hdigit c hc
  induction filters with
  | nil => exact List.not_mem_nil
  | cons f filters ih =>
      cases filters with
      | nil => simpa [stringifyFilters] using hone f
      | cons g filters =>
          have hcons : stringifyFilters (f :: g :: filters) =
              stringifyFilter f ++ ',' :: stringifyFilters (g :: filters) :=
            joined_cons_cons f g filters
          rw [hcons]
          intro h
          rcases List.mem_append.mp h with h | h
          · exact hone f h
          · rcases List.mem_cons.mp h with h | h
            · exact hcomma h
            · exact ih h

/-- The bytes of the filters, decoded once. -/
theorem bytes_stringifyFilters (filters : List MemoFilter) :
    PercentEncoding.bytes (stringifyFilters filters) =
      Utf8.encode (joined String.toList filters) := by
  have hone : ∀ (f : MemoFilter) (rest : List Char),
      PercentEncoding.bytes (stringifyFilter f ++ rest) =
        Utf8.encode (f.factor.text.toList ++ ':' :: f.value.toList) ++
          PercentEncoding.bytes rest := by
    intro f rest
    have hplain : '%' ∉ f.factor.text.toList ++ [':'] := by
      simp [(factor_plain f.factor).2.2.1]
    have htext : stringifyFilter f ++ rest =
        (f.factor.text.toList ++ [':']) ++ (encodeURIComponent f.value ++ rest) := by
      simp [stringifyFilter]
    have hvalue : f.factor.text.toList ++ ':' :: f.value.toList =
        (f.factor.text.toList ++ [':']) ++ f.value.toList := by simp
    rw [htext, PercentEncoding.bytes_plain_append hplain, encodeURIComponent,
      PercentEncoding.bytes_encode_append (by decide), hvalue,
      Utf8.encode_append (f.factor.text.toList ++ [':']), List.append_assoc]
  induction filters with
  | nil => rfl
  | cons f filters ih =>
      cases filters with
      | nil =>
          have hsingle := hone f []
          rw [List.append_nil] at hsingle
          simp only [stringifyFilters, joined, List.map_cons, List.map_nil,
            List.intercalate_singleton]
          exact hsingle.trans (List.append_nil _)
      | cons g filters =>
          have hcons : stringifyFilters (f :: g :: filters) =
              stringifyFilter f ++ ',' :: stringifyFilters (g :: filters) :=
            joined_cons_cons f g filters
          rw [hcons, hone, PercentEncoding.bytes_cons (by decide), ih, joined_cons_cons,
            Utf8.encode_append (f.factor.text.toList ++ ':' :: f.value.toList)]
          rfl

/-- Date navigation decodes the filters once before they are parsed. -/
theorem providerFilters_dateURL (filters : List MemoFilter) :
    providerFilters (dateURL filters) =
      parseFilterQuery (some (joined String.toList filters)) := by
  have hampersand := @notMem_stringifyFilters '&' (by decide) (by decide)
    (by intro f; cases f <;> decide) filters
  have hplus := @notMem_stringifyFilters '+' (by decide) (by decide)
    (by intro f; cases f <;> decide) filters
  have hsplit : (dateURL filters).splitOn '&' = [dateURL filters] := by
    apply List.splitOn_eq_singleton
    rw [dateURL, List.mem_append]
    rintro (h | h)
    · exact absurd h (by decide)
    · rcases List.mem_cons.mp h with h | h
      · exact absurd h (by decide)
      · exact hampersand h
  have hpair : SearchParams.parsePair (dateURL filters) =
      (filterName, joined String.toList filters) := by
    rw [dateURL, SearchParams.parsePair_append (by decide),
      SearchParams.decodeComponent_plain (by decide) (by decide), SearchParams.decodeComponent,
      SearchParams.spaced_of_notMem hplus, bytes_stringifyFilters, Utf8.decode_encode]
  have hne : dateURL filters ≠ [] := by
    intro h
    cases h
  rw [providerFilters, SearchParams.parse, hsplit]
  simp [hne, hpair, SearchParams.get]

/-- A value that is decoded to itself in front of its first colon. -/
theorem value_plain {f : MemoFilter}
    (h : parseFilter (f.factor.text.toList ++ ':' :: f.value.toList) = some f.parsed) :
    ':' ∉ f.value.toList ∧ '%' ∉ f.value.toList := by
  rw [parseFilter_written] at h
  rcases Option.map_eq_some_iff.mp h with ⟨v, hv, hparsed⟩
  have hvalue : v = f.value.toList := by
    have hsame : String.ofList v = f.value := congrArg ParsedFilter.value hparsed
    rw [← hsame, String.toList_ofList]
  subst hvalue
  cases hsplit : f.value.toList.splitOn ':' with
  | nil => exact absurd hsplit (List.splitOn_ne_nil _ _)
  | cons first rest =>
      rw [hsplit] at hv
      change decodeURIComponent first = some f.value.toList at hv
      have hlength := PercentEncoding.length_decodeFrom hv
      rcases Pieces.head_splitOn_of_length hsplit (by omega) with ⟨hfirst, hcolon⟩
      rw [hfirst] at hv
      exact ⟨hcolon, PercentEncoding.decode_eq_self_iff.mp hv⟩

private theorem parseFilters_map_iff {filters : List MemoFilter} :
    parseFilters (filters.map fun f => f.factor.text.toList ++ ':' :: f.value.toList) =
        some (filters.map MemoFilter.parsed) ↔
      ∀ f ∈ filters, parseFilter (f.factor.text.toList ++ ':' :: f.value.toList) =
        some f.parsed := by
  constructor
  · intro h
    induction filters with
    | nil =>
        intro f hf
        cases hf
    | cons g filters ih =>
        rw [List.map_cons, parseFilters] at h
        rcases Option.bind_eq_some_iff.mp h with ⟨first, hfirst, hmap⟩
        rcases Option.map_eq_some_iff.mp hmap with ⟨rest, hrest, hcons⟩
        rcases List.cons.inj hcons with ⟨rfl, rfl⟩
        intro f hf
        rcases List.mem_cons.mp hf with rfl | hf
        · exact hfirst
        · exact ih hrest f hf
  · exact parseFilters_map

/-- The filters are parsed back after date navigation exactly when no value has a comma, a colon or
a percent sign. -/
theorem parse_dateURL_iff (filters : List MemoFilter) :
    providerFilters (dateURL filters) = filters.map MemoFilter.parsed ↔
      ∀ f ∈ filters, ',' ∉ f.value.toList ∧ ':' ∉ f.value.toList ∧ '%' ∉ f.value.toList := by
  rw [providerFilters_dateURL]
  constructor
  · intro h
    cases hfilters : filters with
    | nil =>
        intro f hf
        cases hf
    | cons first rest =>
        rw [← hfilters]
        have hne : joined String.toList filters ≠ [] := hfilters ▸ joined_ne_nil
        have hwords : (filters.map fun f => f.factor.text.toList ++ ':' :: f.value.toList) ≠ [] := by
          rw [hfilters]
          simp
        change (if joined String.toList filters = [] then [] else _) = _ at h
        rw [if_neg hne] at h
        cases hparse : parseFilters ((joined String.toList filters).splitOn ',') with
        | none =>
            rw [hparse, hfilters] at h
            cases h
        | some parsed =>
            rw [hparse] at h
            change parsed = _ at h
            subst h
            have hlength := length_parseFilters hparse
            rw [List.length_map] at hlength
            have hcomma := Pieces.notMem_of_length_splitOn_intercalate hwords
              (by rw [List.length_map]; exact hlength.symm)
            have hsplit := List.splitOn_intercalate ',' hcomma hwords
            rw [joined, hsplit, parseFilters_map_iff] at hparse
            intro f hf
            have hword := hcomma _ (List.mem_map_of_mem hf)
            refine ⟨fun hmem => hword ?_, value_plain (hparse f hf)⟩
            exact List.mem_append_right _ (List.mem_cons_of_mem _ hmem)
  · intro h
    apply parseFilterQuery_joined
    · exact fun f hf => ⟨(h f hf).1, (h f hf).2.1⟩
    · exact fun f hf => PercentEncoding.decode_eq_self_iff.mpr (h f hf).2.2

/-- The filters are parsed back by the codec and from either URL exactly when no value has a comma,
a colon or a percent sign. -/
theorem filter_url_iff (filters : List MemoFilter) :
    (parseFilterQuery (some (stringifyFilters filters)) = filters.map MemoFilter.parsed ∧
        (∀ params, providerFilters (tagClickURL params filters) =
          filters.map MemoFilter.parsed) ∧
        providerFilters (dateURL filters) = filters.map MemoFilter.parsed) ↔
      ∀ f ∈ filters, ',' ∉ f.value.toList ∧ ':' ∉ f.value.toList ∧ '%' ∉ f.value.toList := by
  rw [← parse_dateURL_iff]
  constructor
  · exact fun h => h.2.2
  · exact fun h => ⟨parse_stringifyFilters filters, fun params => parse_tagClickURL params filters, h⟩

/-- A comma in a value ends the filter, and starts another one without a value. -/
theorem dateURL_comma :
    providerFilters (dateURL [⟨.contentSearch, "a,b"⟩]) = [⟨"contentSearch", "a"⟩, ⟨"b", ""⟩] ∧
      providerFilters (dateURL [⟨.contentSearch, "a,b"⟩]) ≠
        [⟨.contentSearch, "a,b"⟩].map MemoFilter.parsed := by
  rw [providerFilters_dateURL]
  decide

end Web
end MemosNote
