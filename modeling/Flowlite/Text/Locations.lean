import Mathlib.Data.List.DropRight

/-!
# Where a browser takes a location

A location is resolved against the URL of the page it came from. A browser reads it after
it has tidied it: control characters and spaces at its ends are gone, and so is every tab
and line break, wherever it is; a backslash is a slash. Only then does it look for a
scheme, and for the two slashes that an authority follows.

* `resolve` is the scheme and the authority a location leads to;
* `resolve_path`: a location that starts with a slash stays, unless what follows starts
  with another once it is tidied;
* `tidied_eq_slash_cons` says what that looks like before it is.
-/

namespace Flowlite.Text

/-- The server a URL is on. -/
structure Origin where
  scheme : List Char
  authority : List Char
  deriving DecidableEq

def isControlOrSpace (c : Char) : Bool := c.toNat ≤ 0x20

def isTabOrNewline (c : Char) : Bool := c = '\t' || c = '\n' || c = '\r'

/-- A backslash is read as a slash. -/
def slashed (c : Char) : Char := if c = '\\' then '/' else c

/-- What a browser reads of the rest of a location. -/
def tidied (s : List Char) : List Char :=
  ((s.rdropWhile isControlOrSpace).filter fun c => !isTabOrNewline c).map slashed

def isSchemeChar (c : Char) : Bool := c.isAlphanum || c = '+' || c = '-' || c = '.'

/-- The scheme in front of a colon, if the location has one, and what follows. -/
def splitScheme : List Char → Option (List Char × List Char)
  | [] => none
  | c :: s =>
      if c.isAlpha then
        match s.dropWhile isSchemeChar with
        | ':' :: rest => some ((c :: s.takeWhile isSchemeChar).map Char.toLower, rest)
        | _ => none
      else none

/-- What is named after the slashes, up to the path, the query or the fragment. -/
def authorityOf (s : List Char) : List Char :=
  (s.dropWhile (· = '/')).takeWhile fun c => c ≠ '/' && c ≠ '?' && c ≠ '#'

/-- Where a location without a scheme leads to. -/
def relativeTo (base : Origin) : List Char → Origin
  | '/' :: '/' :: rest => { base with authority := authorityOf rest }
  | _ => base

/-- Where a location leads to from a page of the server `base`. -/
def resolve (base : Origin) (location : List Char) : Origin :=
  let input := tidied (location.dropWhile isControlOrSpace)
  match splitScheme input with
  | none => relativeTo base input
  | some (scheme, rest) =>
      if scheme = base.scheme then relativeTo base rest
      else { scheme, authority := authorityOf rest }

example : resolve { scheme := "http".toList, authority := "here".toList }
    " /\t\\there/x ".toList = { scheme := "http".toList, authority := "there".toList } := by
  decide +kernel

/-! ## Tidying -/

theorem isControlOrSpace_of_isTabOrNewline {c : Char} (h : isTabOrNewline c = true) :
    isControlOrSpace c = true := by
  simp only [isTabOrNewline, Bool.or_eq_true, decide_eq_true_eq] at h
  rcases h with (rfl | rfl) | rfl <;> decide

theorem slashed_of_isControlOrSpace {c : Char} (h : isControlOrSpace c = true) :
    slashed c = c := by
  unfold slashed
  refine if_neg ?_
  rintro rfl
  exact absurd h (by decide)

theorem rdropWhile_cons {α : Type} {p : α → Bool} (c : α) (s : List α) :
    (c :: s).rdropWhile p =
      if (s.rdropWhile p).isEmpty then (if p c then [] else [c]) else c :: s.rdropWhile p := by
  unfold List.rdropWhile
  rw [List.reverse_cons, List.dropWhile_append, List.isEmpty_reverse]
  by_cases hrest : (s.reverse.dropWhile p).isEmpty = true
  · rw [if_pos hrest, if_pos hrest, List.dropWhile_cons]
    by_cases hc : p c = true
    · rw [if_pos hc, if_pos hc]
      rfl
    · rw [if_neg hc, if_neg hc]
      rfl
  · rw [if_neg hrest, if_neg hrest, List.reverse_append]
    rfl

@[simp] theorem tidied_nil : tidied [] = [] := rfl

theorem tidied_cons {c : Char} (h : isControlOrSpace c = false) (s : List Char) :
    tidied (c :: s) = slashed c :: tidied s := by
  have hkept : isTabOrNewline c = false := by
    cases htab : isTabOrNewline c with
    | false => rfl
    | true => rw [isControlOrSpace_of_isTabOrNewline htab] at h; cases h
  have hcons : (c :: s).rdropWhile isControlOrSpace = c :: s.rdropWhile isControlOrSpace := by
    rw [rdropWhile_cons, h]
    cases s.rdropWhile isControlOrSpace <;> rfl
  unfold tidied
  rw [hcons, List.filter_cons, hkept]
  rfl

theorem tidied_tab {c : Char} (h : isTabOrNewline c = true) (s : List Char) :
    tidied (c :: s) = tidied s := by
  unfold tidied
  rw [rdropWhile_cons, isControlOrSpace_of_isTabOrNewline h]
  cases s.rdropWhile isControlOrSpace with
  | nil => rfl
  | cons d rest =>
      show ((c :: d :: rest).filter fun c => !isTabOrNewline c).map slashed = _
      rw [List.filter_cons, h]
      rfl

/-- Any other control character, or a space, is read as itself unless nothing follows. -/
theorem tidied_control {c : Char} (h : isControlOrSpace c = true)
    (htab : isTabOrNewline c = false) (s : List Char) :
    tidied (c :: s) = [] ∨ ∃ rest, tidied (c :: s) = c :: rest := by
  unfold tidied
  rw [rdropWhile_cons, h]
  cases s.rdropWhile isControlOrSpace with
  | nil => exact .inl rfl
  | cons d rest =>
      refine .inr ⟨((d :: rest).filter fun c => !isTabOrNewline c).map slashed, ?_⟩
      show ((c :: d :: rest).filter fun c => !isTabOrNewline c).map slashed = _
      rw [List.filter_cons, htab]
      show slashed c :: _ = _
      rw [slashed_of_isControlOrSpace h]

/-- What is read as a slash first: a slash or a backslash, after tabs and line breaks
only. -/
theorem tidied_eq_slash_cons {s rest : List Char} : tidied s = '/' :: rest ↔
    ∃ (gap : List Char) (c : Char) (after : List Char), s = gap ++ c :: after ∧
      (∀ g ∈ gap, isTabOrNewline g = true) ∧ (c = '/' ∨ c = '\\') ∧ rest = tidied after := by
  constructor
  · intro h
    induction s with
    | nil => cases h
    | cons d s ih =>
        by_cases htab : isTabOrNewline d = true
        · rw [tidied_tab htab] at h
          obtain ⟨gap, c, after, hs, hgap, hc, hrest⟩ := ih h
          refine ⟨d :: gap, c, after, by rw [hs]; rfl, ?_, hc, hrest⟩
          intro g hg
          rcases List.mem_cons.mp hg with rfl | hg
          · exact htab
          · exact hgap g hg
        · have hnot : isTabOrNewline d = false := Bool.eq_false_iff.mpr htab
          by_cases hctl : isControlOrSpace d = true
          · rcases tidied_control hctl hnot s with hnil | ⟨more, hmore⟩
            · rw [hnil] at h
              cases h
            · rw [hmore] at h
              cases h
              exact absurd hctl (by decide)
          · rw [tidied_cons (Bool.eq_false_iff.mpr hctl)] at h
            injection h with hhead htail
            refine ⟨[], d, s, rfl, fun g hg => (List.not_mem_nil hg).elim, ?_, htail.symm⟩
            unfold slashed at hhead
            by_cases hback : d = '\\'
            · exact .inr hback
            · rw [if_neg hback] at hhead
              exact .inl hhead
  · rintro ⟨gap, c, after, rfl, hgap, hc, rfl⟩
    induction gap with
    | nil =>
        rcases hc with rfl | rfl
        · exact tidied_cons (by decide) after
        · exact tidied_cons (by decide) after
    | cons g gap ih =>
        show tidied (g :: (gap ++ c :: after)) = _
        rw [tidied_tab (hgap g List.mem_cons_self)]
        exact ih fun d hd => hgap d (List.mem_cons_of_mem _ hd)

/-! ## Locations that start with a slash -/

theorem resolve_path (base : Origin) (s : List Char) :
    resolve base ('/' :: s) = relativeTo base ('/' :: tidied s) := by
  unfold resolve
  rw [List.dropWhile_cons_of_neg (by decide), tidied_cons (by decide)]
  rfl

theorem relativeTo_slash (base : Origin) (s : List Char) :
    relativeTo base ('/' :: s) = base ↔
      ∀ rest, s = '/' :: rest → authorityOf rest = base.authority := by
  constructor
  · rintro h rest rfl
    exact congrArg Origin.authority h
  · intro h
    unfold relativeTo
    split
    · rename_i rest hs
      injection hs with _ hs
      rw [h rest hs]
    · rfl

/-- A path with nothing to tidy is on the same server. -/
theorem resolve_of_plain (base : Origin) {c : Char} {s : List Char}
    (hctl : isControlOrSpace c = false) (hslash : c ≠ '/') (hback : c ≠ '\\') :
    resolve base ('/' :: c :: s) = base := by
  rw [resolve_path, relativeTo_slash, tidied_cons hctl]
  intro rest h
  injection h with hhead _
  unfold slashed at hhead
  rw [if_neg hback] at hhead
  exact absurd hhead hslash

end Flowlite.Text
