import MemosNote.Library.RelativeUrl

/-!
# Redirects after sign-in

A redirect target is checked as a text before it is followed: it must start with one slash and must
not be a page of the sign-in flow.  A browser resolves it after taking characters off, with
backslashes as slashes, and after resolving dot segments.

Main results:

- Theorem {lit}`redirect_inside_iff`: an accepted target stays on the origin and outside the sign-in
  flow exactly when its text as browsers see it does.
-/

namespace MemosNote
namespace Web

open Library RelativeUrl

/-- The route of the sign-in page. -/
def ROUTES_AUTH : List Char :=
  "/auth".toList

def getSafeRedirectPath (path : Option (List Char)) : Option (List Char) :=
  match path with
  | none => none
  | some path =>
      if path = [] then none
      else if !"/".toList.isPrefixOf path || "//".toList.isPrefixOf path then none
      else if path = ROUTES_AUTH || (ROUTES_AUTH ++ ['/']).isPrefixOf path ||
          (ROUTES_AUTH ++ ['?']).isPrefixOf path then none
      else some path

/-- The segment that the sign-in routes start with. -/
def authSegment : List Char :=
  "auth".toList

/-- Whatever the origin is, a target leads to a page of it outside the sign-in flow. -/
def StaysInside (parseAuthority : List Char → Option (String × Option ℕ)) (path : List Char) :
    Prop :=
  ∀ base, ∃ url, resolve parseAuthority base path = some url ∧ url.origin = base ∧
    ¬Below authSegment url.pathname

/-- The text as a browser sees it has no second slash behind the first and no piece of the sign-in
routes that all earlier dot segments leave first and no later one takes away. -/
def InsideText (path : List Char) : Prop :=
  (clean path).tail.head?.any isSlash = false ∧ ¬Stands authSegment 0 (pieces (clean path).tail)

instance (path : List Char) : Decidable (InsideText path) :=
  inferInstanceAs (Decidable (_ ∧ _))

private theorem plain_authSegment : PlainSegment authSegment :=
  ⟨by decide, by decide, List.all_eq_true.mp (by decide), by decide, by decide⟩

/-- An accepted target starts with a slash, and nothing in front of it is taken off. -/
theorem clean_accepted {input : Option (List Char)} {path : List Char}
    (h : getSafeRedirectPath input = some path) : ∃ rest, clean path = '/' :: rest := by
  have hslash : ∃ t, path = '/' :: t := by
    cases input with
    | none => cases h
    | some text =>
        rw [getSafeRedirectPath] at h
        by_cases hnil : text = []
        · rw [if_pos hnil] at h
          cases h
        rw [if_neg hnil] at h
        split at h
        · cases h
        · rename_i hstart
          split at h
          · cases h
          · cases Option.some_inj.mp h
            rw [Bool.or_eq_true, not_or, Bool.not_eq_true', Bool.not_eq_false] at hstart
            rcases List.isPrefixOf_iff_prefix.mp hstart.1 with ⟨t, ht⟩
            exact ⟨t, ht.symm⟩
  rcases hslash with ⟨t, rfl⟩
  have hkeep : isControlOrSpace '/' = false := rfl
  have hend : ∃ u, ('/' :: t).rdropWhile isControlOrSpace = '/' :: u := by
    rw [List.rdropWhile, List.reverse_cons, List.dropWhile_append]
    split
    · exact ⟨[], by simp [hkeep]⟩
    · exact ⟨(t.reverse.dropWhile isControlOrSpace).reverse, by simp⟩
  rcases hend with ⟨u, hu⟩
  refine ⟨u.filter (!isTabOrNewline ·), ?_⟩
  rw [clean, List.dropWhile_cons, hkeep, if_neg Bool.false_ne_true, hu]
  rfl

private theorem pathState_start (text : List Char) :
    pathState [] [] text = closeAll [] (pieces text) := by
  have hstart := pathState_eq [] [] text
  cases hpieces : pieces text with
  | nil => exact absurd hpieces (pieces_ne_nil text)
  | cons piece rest =>
      rw [hpieces] at hstart
      exact hstart

private theorem slash_notMem_pieces (text : List Char) : ∀ piece ∈ pieces text, '/' ∉ piece := by
  intro piece hpiece hslash
  have hno := isSlash_of_mem_splitOnP hpiece hslash
  cases hno

/-- An accepted target stays on the origin and outside the sign-in flow exactly when its text as
browsers see it does. -/
theorem redirect_inside_iff (parseAuthority : List Char → Option (String × Option ℕ))
    {input : Option (List Char)} {path : List Char} (h : getSafeRedirectPath input = some path) :
    StaysInside parseAuthority path ↔ InsideText path := by
  rcases clean_accepted h with ⟨rest, hclean⟩
  rw [InsideText, hclean, List.tail_cons]
  by_cases hslash : rest.head?.any isSlash = true
  · apply iff_of_false
    · intro hinside
      -- The host that the target names is not the host of every origin.
      cases hparsed : parseAuthority
          ((rest.dropWhile isSlash).takeWhile fun c => !isSlash c && !endsPath c) with
      | none =>
          rcases hinside ⟨"https", "", none⟩ with ⟨url, hurl, -⟩
          simp [resolve, hclean, hslash, hparsed] at hurl
      | some parsed =>
          rcases hinside ⟨"https", if parsed.1 = "a" then "b" else "a", none⟩ with
            ⟨url, hurl, horigin, -⟩
          simp only [resolve, hclean, hslash, hparsed] at hurl
          have hhost := congrArg Origin.host horigin
          cases hurl
          have hhost : parsed.1 = if parsed.1 = "a" then "b" else "a" := hhost
          split at hhost
          · rename_i ha
            rw [ha] at hhost
            exact absurd hhost (by decide)
          · rename_i ha
            exact ha hhost
    · rintro ⟨hno, -⟩
      rw [hslash] at hno
      cases hno
  · have hresolve : ∀ base, resolve parseAuthority base path =
        some ⟨base, pathname (closeAll [] (pieces rest))⟩ := by
      intro base
      simp [resolve, hclean, hslash, pathState_start]
    have hbelow : Below authSegment (pathname (closeAll [] (pieces rest))) ↔
        Stands authSegment 0 (pieces rest) := by
      rw [below_pathname_iff (by decide)
        (slash_notMem_closeAll (slash_notMem_pieces rest) (by simp)),
        head_closeAll_iff plain_authSegment (pieces_ne_nil rest)]
      simp
    constructor
    · intro hinside
      refine ⟨Bool.eq_false_iff.mpr hslash, fun hstands => ?_⟩
      rcases hinside ⟨"https", "", none⟩ with ⟨url, hurl, -, hname⟩
      rw [hresolve] at hurl
      cases hurl
      exact hname (hbelow.mpr hstands)
    · rintro ⟨-, hnot⟩ base
      exact ⟨_, hresolve base, rfl, mt hbelow.mp hnot⟩

theorem redirect_inside_iff_dots :
    StaysInside (fun authority => some (String.ofList authority, none))
        "/explore\\..\\./%2E./auth/%2e%2e/home?tab=/auth".toList ∧
      ¬StaysInside (fun authority => some (String.ofList authority, none))
        "/explore/../%2E./auth/callback".toList :=
  ⟨(@redirect_inside_iff _ (some "/explore\\..\\./%2E./auth/%2e%2e/home?tab=/auth".toList) _
      (by decide)).mpr (by decide),
    mt (@redirect_inside_iff _ (some "/explore/../%2E./auth/callback".toList) _ (by decide)).mp
      (by decide)⟩

/-- A slash and a backslash lead to another host. -/
theorem redirect_leaves :
    ¬∀ (input : Option (List Char)) (path : List Char), getSafeRedirectPath input = some path →
      StaysInside (fun authority => some (String.ofList authority, none)) path := by
  intro h
  rcases h (some "/\\evil.com".toList) "/\\evil.com".toList (by decide)
    ⟨"https", "app.example", none⟩ with ⟨url, hurl, horigin, -⟩
  cases hurl
  revert horigin
  decide

end Web
end MemosNote
