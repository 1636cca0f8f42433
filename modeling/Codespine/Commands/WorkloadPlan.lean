import Codespine.Host
import Codespine.Lib.Steps

open steps

namespace codespine.commands

namespace WorkloadPlan

/-- `path.split('\\').join('/')`. -/
def toPosix (path : String) : String := String.ofList (List.intercalate ['/'] (path.toList.splitOn '\\'))

variable (relative : String → String → String)

/-- The path in the mount of a path of the host, with `relative` of the path
module. -/
def inContainerPath (project hostPath : String) : Except String String :=
  let rel := relative project hostPath
  if rel = "" then .ok "/work" else
  if startsWith rel ".." = true then .error s!"path {hostPath} is outside the mounted project {project}" else
  .ok s!"/work/{toPosix rel}"

def driverRelative (project driver : String) : Except String String :=
  let rel := relative project driver
  if startsWith rel ".." = true then .error s!"driver {driver} must be inside the mounted project {project}" else
  .ok (toPosix rel)

/-- A name that a normalised path can hold. -/
structure IsName (name : String) : Prop where
  nonempty : name ≠ ""
  no_slash : '/' ∉ name.toList
  ne_dot : name ≠ "."
  ne_dots : name ≠ ".."

/-- A normalised absolute path. -/
@[ext]
structure PosixPath where
  names : List String
  isName : ∀ name ∈ names, IsName name

def PosixPath.text (path : PosixPath) : String := "/" ++ "/".intercalate path.names

def stepText : Step String → String
  | .up => ".."
  | .name name => name

def relativeText (path : List (Step String)) : String := "/".intercalate (path.map stepText)

/-- `relative` gives a shortest relative path. -/
def ReturnsShortest : Prop := ∀ start goal : PosixPath, ∃ path, IsShortest start.names goal.names path ∧
  relative start.text goal.text = relativeText path

/-- What the mount should do: take in the project and what lies below it, and
keep the path below. -/
structure MountsExactly (project path : PosixPath) : Prop where
  inContainerPath_isOk : (∃ text, inContainerPath relative project.text path.text = .ok text) ↔ project.names <+: path.names
  driverRelative_isOk : (∃ text, driverRelative relative project.text path.text = .ok text) ↔ project.names <+: path.names
  inContainerPath_eq : ∀ below, path.names = project.names ++ below →
    inContainerPath relative project.text path.text = .ok ("/" ++ "/".intercalate ("work" :: below))
  driverRelative_eq : ∀ below, path.names = project.names ++ below →
    driverRelative relative project.text path.text = .ok ("/".intercalate below)

/-- The names of a path below the project that the program keeps: the first does
not begin with two dots, and none has a backslash. -/
structure IsKept (below : List String) : Prop where
  head : ∀ name ∈ below.head?, startsWith name ".." = false
  no_backslash : ∀ name ∈ below, '\\' ∉ name.toList

section Text

theorem intercalate_splitOn_eq_map (text : List Char) :
    List.intercalate ['/'] (text.splitOn '\\') = text.map fun c => if c = '\\' then '/' else c := by
  induction text with
  | nil => rfl
  | cons c text ih =>
    have hne := List.splitOn_ne_nil '\\' text
    rw [List.splitOn_cons_eq_if_modifyHead, List.map_cons, ← ih]
    by_cases h : c = '\\'
    · rw [if_pos (by simpa using h), if_pos h, List.intercalate_cons_of_ne_nil hne]
      rfl
    · rw [if_neg (by simpa using h), if_neg h]
      obtain ⟨first, rest, heq⟩ := List.exists_cons_of_ne_nil hne
      rw [heq, List.modifyHead_cons]
      cases rest with
      | nil => rfl
      | cons second rest => rw [List.intercalate_cons_cons, List.intercalate_cons_cons]; rfl

theorem toPosix_eq_self_iff {path : String} : toPosix path = path ↔ '\\' ∉ path.toList := by
  rw [toPosix, intercalate_splitOn_eq_map]
  constructor
  · intro heq hmem
    have hchars : (path.toList.map fun c => if c = '\\' then '/' else c) = path.toList := by
      simpa using congrArg String.toList heq
    rw [← hchars, List.mem_map] at hmem
    obtain ⟨c, _, hc⟩ := hmem
    split at hc
    · cases hc
    · next hne => exact hne hc
  · intro hnot
    have hsame : (path.toList.map fun c => if c = '\\' then '/' else c) = path.toList := by
      refine (List.map_congr_left fun c hc => ?_).trans (List.map_id _)
      exact if_neg fun heq : c = '\\' => hnot (heq ▸ hc)
    rw [hsame, String.ofList_toList]

theorem mem_intercalate {c : Char} (hc : c ≠ '/') {names : List String} :
    c ∈ ("/".intercalate names).toList ↔ ∃ name ∈ names, c ∈ name.toList := by
  induction names with
  | nil => simp
  | cons name rest ih =>
    by_cases hrest : rest = []
    · simp [hrest]
    · rw [String.intercalate_cons_of_ne_nil hrest, String.toList_append, String.toList_append, List.mem_append, List.mem_append, ih]
      simp [hc]

/-- Two dots at the beginning of a path are at that of its first name. -/
theorem startsWith_intercalate (name : String) (rest : List String) :
    startsWith ("/".intercalate (name :: rest)) ".." = startsWith name ".." := by
  have hslash : ∀ first tail : List Char, ['.', '.'].isPrefixOf (first ++ '/' :: tail) = ['.', '.'].isPrefixOf first := by
    intro first tail
    match first with
    | [] => rfl
    | [c] => simp [List.isPrefixOf]
    | c :: d :: first => rfl
  cases rest with
  | nil => rw [String.intercalate_singleton]
  | cons second rest =>
    have hshape : ("/".intercalate (name :: second :: rest)).toList =
        name.toList ++ '/' :: ("/".intercalate (second :: rest)).toList := by
      rw [String.intercalate_cons_cons]
      simp [String.toList_append]
    rw [startsWith, startsWith, hshape]
    exact hslash _ _

theorem intercalate_ne_empty {name : String} (hname : name ≠ "") (rest : List String) : "/".intercalate (name :: rest) ≠ "" := by
  cases rest with
  | nil => rwa [String.intercalate_singleton]
  | cons second rest =>
    rw [String.intercalate_cons_cons]
    intro hempty
    have hchars := congrArg String.toList hempty
    simp at hchars

theorem relativeText_name (below : List String) : relativeText (below.map .name) = "/".intercalate below := by
  rw [relativeText, List.map_map]
  exact congrArg _ (List.map_id _)

theorem startsWith_relativeText_up (rest : List (Step String)) : startsWith (relativeText (.up :: rest)) ".." = true := by
  rw [relativeText, List.map_cons, startsWith_intercalate]
  rfl

end Text

section Mount

variable {relative} {project path : PosixPath} {below : List String}

theorem relative_below (h : ReturnsShortest relative) (hbelow : path.names = project.names ++ below) :
    relative project.text path.text = "/".intercalate below := by
  obtain ⟨steps, hshortest, htext⟩ := h project path
  rw [htext, isShortest_iff.mp hshortest, hbelow, route_append, relativeText_name]

theorem relative_outside (h : ReturnsShortest relative) (hnot : ¬ project.names <+: path.names) :
    startsWith (relative project.text path.text) ".." = true := by
  obtain ⟨steps, hshortest, htext⟩ := h project path
  obtain ⟨rest, hroute⟩ := route_of_not_prefix hnot
  rw [htext, isShortest_iff.mp hshortest, hroute, startsWith_relativeText_up]

/-- A path whose relative form begins with two dots is not taken in. -/
theorem inContainerPath_of_dots {project hostPath : String} (h : startsWith (relative project hostPath) ".." = true) :
    ∀ text, inContainerPath relative project hostPath ≠ .ok text := by
  intro text heq
  rw [inContainerPath] at heq
  split at heq
  · next hempty =>
    rw [hempty] at h
    exact absurd h (by decide)
  · cases heq

theorem driverRelative_of_dots {project driver : String} (h : startsWith (relative project driver) ".." = true) :
    ∀ text, driverRelative relative project driver ≠ .ok text := by
  intro text heq
  rw [driverRelative] at heq
  rw [if_pos h] at heq
  cases heq

theorem driverRelative_of_not_dots {project driver : String} (h : startsWith (relative project driver) ".." = false) :
    driverRelative relative project driver = .ok (toPosix (relative project driver)) := by
  rw [driverRelative]
  rw [if_neg (by rw [h]; decide)]

theorem inContainerPath_of_not_dots {project hostPath : String} (hne : relative project hostPath ≠ "")
    (h : startsWith (relative project hostPath) ".." = false) :
    inContainerPath relative project hostPath = .ok ("/work/" ++ toPosix (relative project hostPath)) := by
  rw [inContainerPath, if_neg hne, if_neg (by rw [h]; decide)]
  rfl

/-- Names that are kept are the path in the mount. -/
theorem mountsExactly_of_isKept (h : ReturnsShortest relative) (hbelow : path.names = project.names ++ below)
    (hkept : IsKept below) : MountsExactly relative project path := by
  have hprefix : project.names <+: path.names := ⟨below, hbelow.symm⟩
  have hrel := relative_below h hbelow
  have hposix : toPosix ("/".intercalate below) = "/".intercalate below := by
    refine toPosix_eq_self_iff.mpr fun hmem => ?_
    obtain ⟨name, hname, hc⟩ := (mem_intercalate (by decide)).mp hmem
    exact hkept.no_backslash name hname hc
  have hdots : startsWith ("/".intercalate below) ".." = false := by
    cases below with
    | nil => decide
    | cons name rest =>
      rw [startsWith_intercalate]
      exact hkept.head name rfl
  have hdriver : driverRelative relative project.text path.text = .ok ("/".intercalate below) := by
    rw [driverRelative_of_not_dots (by rw [hrel]; exact hdots), hrel, hposix]
  have hcontainer : inContainerPath relative project.text path.text = .ok ("/" ++ "/".intercalate ("work" :: below)) := by
    cases below with
    | nil =>
      rw [inContainerPath, hrel, String.intercalate_nil, if_pos rfl]
      rfl
    | cons name rest =>
      have hname : name ≠ "" := (path.isName name (hbelow ▸ List.mem_append_right _ List.mem_cons_self)).nonempty
      rw [inContainerPath_of_not_dots (by rw [hrel]; exact intercalate_ne_empty hname rest) (by rw [hrel]; exact hdots),
        hrel, hposix, String.intercalate_cons_cons]
      exact congrArg Except.ok (String.toList_injective (by simp [String.toList_append]))
  have hsame : ∀ below', path.names = project.names ++ below' → below' = below := by
    intro below' h'
    exact List.append_cancel_left (h'.symm.trans hbelow)
  refine ⟨iff_of_true ⟨_, hcontainer⟩ hprefix, iff_of_true ⟨_, hdriver⟩ hprefix, fun below' h' => ?_, fun below' h' => ?_⟩
  · rw [hsame below' h']
    exact hcontainer
  · rw [hsame below' h']
    exact hdriver

theorem mountsExactly_of_outside (h : ReturnsShortest relative) (hnot : ¬ project.names <+: path.names) :
    MountsExactly relative project path := by
  have hdots := relative_outside h hnot
  refine ⟨iff_of_false ?_ hnot, iff_of_false ?_ hnot, fun below hbelow => ?_, fun below hbelow => ?_⟩
  · rintro ⟨text, htext⟩
    exact inContainerPath_of_dots hdots text htext
  · rintro ⟨text, htext⟩
    exact driverRelative_of_dots hdots text htext
  · exact absurd ⟨below, hbelow.symm⟩ hnot
  · exact absurd ⟨below, hbelow.symm⟩ hnot

/-- What lies below the project and is mounted is kept. -/
theorem isKept_of_mountsExactly (h : ReturnsShortest relative) (hmounts : MountsExactly relative project path)
    (hbelow : path.names = project.names ++ below) : IsKept below := by
  have hrel := relative_below h hbelow
  have hdriver := hmounts.driverRelative_eq below hbelow
  have hdots : startsWith (relative project.text path.text) ".." = false := by
    by_contra hdots
    exact driverRelative_of_dots (by simpa using hdots) _ hdriver
  refine ⟨fun name hname => ?_, fun name hname hmem => ?_⟩
  · obtain ⟨rest, rfl⟩ := List.head?_eq_some_iff.mp hname
    rw [hrel, startsWith_intercalate] at hdots
    exact hdots
  · rw [driverRelative_of_not_dots hdots, hrel] at hdriver
    have hsame := toPosix_eq_self_iff.mp (Except.ok.inj hdriver)
    exact hsame ((mem_intercalate (by decide)).mpr ⟨name, hname, hmem⟩)

end Mount

/-- The mount maps the project as it should, except for what lies below it by a
path whose first name begins with two dots, which counts as outside, or with a
backslash in a name, which is taken for a separator. -/
theorem mountsExactly_iff {relative : String → String → String} (h : ReturnsShortest relative) (project path : PosixPath) :
    MountsExactly relative project path ↔ ∀ below, path.names = project.names ++ below → IsKept below := by
  constructor
  · exact fun hmounts below hbelow => isKept_of_mountsExactly h hmounts hbelow
  · intro hkept
    by_cases hprefix : project.names <+: path.names
    · obtain ⟨below, hbelow⟩ := hprefix
      exact mountsExactly_of_isKept h hbelow.symm (hkept below hbelow.symm)
    · exact mountsExactly_of_outside h hprefix

/-- The names of the text of a path. -/
def namesOf (text : String) : List String := ((text.toList.splitOn '/').filter fun name => name ≠ []).map String.ofList

def posixRelative (start goal : String) : String := relativeText (route (namesOf start) (namesOf goal))

theorem namesOf_text (path : PosixPath) : namesOf path.text = path.names := by
  have hkept : (path.names.map String.toList).filter (fun name => name ≠ []) = path.names.map String.toList := by
    rw [List.filter_eq_self]
    intro chars hchars
    obtain ⟨name, hname, rfl⟩ := List.mem_map.mp hchars
    exact decide_eq_true (mt String.toList_eq_nil_iff.mp (path.isName name hname).nonempty)
  have hslash : ∀ chars ∈ path.names.map String.toList, '/' ∉ chars := by
    intro chars hchars
    obtain ⟨name, hname, rfl⟩ := List.mem_map.mp hchars
    exact (path.isName name hname).no_slash
  have hback : (path.names.map String.toList).map String.ofList = path.names := by
    rw [List.map_map]
    exact (List.map_congr_left fun _ _ => String.ofList_toList).trans (List.map_id _)
  have hchars : path.text.toList = [] ++ '/' :: List.intercalate ['/'] (path.names.map String.toList) := by
    rw [PosixPath.text, String.toList_append, String.toList_intercalate]
    rfl
  rw [namesOf, hchars, List.splitOn_append_cons_self, List.filter_append]
  by_cases hnames : path.names = []
  · rw [hnames]
    rfl
  · rw [List.splitOn_intercalate '/' hslash (by simpa using hnames), hkept, List.map_append, hback]
    rfl

theorem returnsShortest_posixRelative : ReturnsShortest posixRelative := by
  intro start goal
  refine ⟨route start.names goal.names, isShortest_iff.mpr rfl, ?_⟩
  rw [posixRelative, namesOf_text, namesOf_text]

def proj : PosixPath where
  names := ["proj"]
  isName := by
    simp only [List.mem_singleton, forall_eq]
    exact ⟨by decide, by decide, by decide, by decide⟩

/-- The path of one name below another. -/
def PosixPath.child (path : PosixPath) (name : String) (h : IsName name) : PosixPath where
  names := path.names ++ [name]
  isName other hother := by
    rcases List.mem_append.mp hother with hmem | hmem
    · exact path.isName other hmem
    · rw [List.mem_singleton.mp hmem]
      exact h

def projSrc : PosixPath := proj.child "src" ⟨by decide, by decide, by decide, by decide⟩

def projDotted : PosixPath := proj.child "..cache" ⟨by decide, by decide, by decide, by decide⟩

def projBackslash : PosixPath := proj.child "a\\b" ⟨by decide, by decide, by decide, by decide⟩

theorem mountsExactly_iff_projSrc : inContainerPath posixRelative "/proj" "/proj/src" = .ok "/work/src" := by
  have hiff := mountsExactly_iff returnsShortest_posixRelative proj projSrc
  have hmounts := hiff.mpr fun below hbelow => by
    obtain rfl : below = ["src"] := List.append_cancel_left hbelow.symm
    exact ⟨by decide, by decide⟩
  exact hmounts.inContainerPath_eq ["src"] rfl

/-- A directory of the project whose name begins with two dots counts as outside,
and a backslash in a name becomes a separator. -/
theorem inContainerPath_projDotted : ReturnsShortest posixRelative ∧
    (proj.names <+: projDotted.names ∧ inContainerPath posixRelative proj.text projDotted.text =
      .error "path /proj/..cache is outside the mounted project /proj") ∧
    proj.names <+: projBackslash.names ∧ inContainerPath posixRelative proj.text projBackslash.text = .ok "/work/a/b" := by
  refine ⟨returnsShortest_posixRelative, ⟨⟨["..cache"], rfl⟩, ?_⟩, ⟨["a\\b"], rfl⟩, ?_⟩
  · rfl
  · rfl

end WorkloadPlan

end codespine.commands
