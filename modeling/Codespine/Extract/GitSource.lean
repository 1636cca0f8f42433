import Codespine.Extract.StructuralExtractor

open codespine.extract.StructuralExtractor (isSpace trim trimEnd)

namespace codespine.extract

/-- What the program uses of `new URL`: the host that a `https:` URL has for the
host in its text, and the host and pathname of a text that is a URL. -/
structure UrlParser where
  hostParser : String → Option String
  parse : String → Option (String × String)

namespace GitSource

def isLineTerminator (c : Char) : Bool := c.toNat ∈ [0xa, 0xd, 0x2028, 0x2029]

/-- `text.match(/^[^@]+@([^:]+):(.+)$/)`: neither of the first two parts can end
before, or go past, the character that follows it. -/
def scpMatch (text : List Char) : Option (List Char × List Char) :=
  let user := text.takeWhile (· ≠ '@')
  let afterUser := text.drop (user.length + 1)
  let host := afterUser.takeWhile (· ≠ ':')
  let path := afterUser.drop (host.length + 1)
  if user = [] ∨ host = [] ∨ path = [] ∨ path.any isLineTerminator then none else some (host, path)

/-- `path.replace(/\.git$/, '')`. -/
def stripGit (path : List Char) : List Char := if ".git".toList <:+ path then path.take (path.length - 4) else path

/-- `path.split('/').filter((segment) => segment.length > 0)`. -/
def segmentsOf (path : List Char) : List (List Char) := (path.splitOn '/').filter fun segment => segment.length > 0

/-- Of the letters of `github` only the ASCII ones are a lower case. -/
def isGithub (host : String) : Bool := includes host.toLower "github"

/-- The host and path of a text, as of a URL or of the SCP-like form. -/
def hostAndPath (url : UrlParser) (trimmed : List Char) : Option (String × String) :=
  if "://".toList <:+: trimmed then url.parse (String.ofList trimmed) else
    (scpMatch trimmed).map fun scp => (String.ofList scp.1, String.ofList scp.2)

def githubBaseUrl (url : UrlParser) (remoteUrl : String) : Option String :=
  match hostAndPath url (trim remoteUrl.toList) with
  | none => none
  | some (host, path) =>
    if isGithub host = false then none else
    match segmentsOf (stripGit path.toList) with
    | owner :: repo :: _ => some ("https://" ++ host ++ "/" ++ String.ofList owner ++ "/" ++ String.ofList repo)
    | _ => none

/-- A character of a host name in lower case. -/
def isHostChar (c : Char) : Bool := c.isLower ∨ c.isDigit ∨ c = '-' ∨ c = '.'

/-- A character of the name of an owner or a repository. -/
def isNameChar (c : Char) : Bool := c.isAlphanum ∨ c = '-' ∨ c = '_' ∨ c = '.'

/-- A segment of a path that a URL keeps as it is. -/
structure IsSegment (name : String) : Prop where
  chars : ∀ c ∈ name.toList, isNameChar c = true
  ne_dot : name ≠ "."
  ne_dots : name ≠ ".."

/-- A repository of a host that is one of GitHub's. -/
structure Repository where
  host : String
  owner : String
  repo : String
  host_chars : ∀ c ∈ host.toList, isHostChar c = true
  host_github : includes host "github" = true
  owner_segment : IsSegment owner
  owner_nonempty : owner ≠ ""
  repo_segment : IsSegment repo
  repo_nonempty : repo ≠ ""
  repo_git : endsWith repo ".git" = false

/-- A user name before the host. -/
structure UserName where
  text : String
  nonempty : text ≠ ""
  chars : ∀ c ∈ text.toList, c ≠ '@' ∧ c ≠ ':' ∧ isSpace c = false

inductive Form where
  | scp (user : UserName)
  | https
  | ssh
  | git

/-- What stands before the owner. -/
def Form.lead (form : Form) (host : String) : String :=
  match form with
  | .scp user => user.text ++ "@" ++ host ++ ":"
  | .https => "https://" ++ host ++ "/"
  | .ssh => "ssh://git@" ++ host ++ "/"
  | .git => "git://" ++ host ++ "/"

def suffixIf (flag : Bool) (suffix : String) : String := if flag then suffix else ""

/-- The name of the repository and what follows it. -/
def Repository.tail (r : Repository) (git slash : Bool) : String := r.repo ++ suffixIf git ".git" ++ suffixIf slash "/"

def remote (form : Form) (r : Repository) (git slash : Bool) : String :=
  form.lead r.host ++ r.owner ++ "/" ++ r.tail git slash

def Repository.baseUrl (r : Repository) : String := "https://" ++ r.host ++ "/" ++ r.owner ++ "/" ++ r.repo

def pathname (segments : List String) : String := "/" ++ "/".intercalate segments

/-- A host, and the segments of a path that a URL keeps. -/
structure IsPlain (host : String) (segments : List String) : Prop where
  host_chars : ∀ c ∈ host.toList, isHostChar c = true
  host_nonempty : host ≠ ""
  segments_nonempty : segments ≠ []
  isSegment : ∀ segment ∈ segments, IsSegment segment

/-- What the URL standard says of such texts: the host of a `https:` URL goes
through the host parser, that of a scheme without rules of its own is kept, and
so is the path. -/
structure FollowsStandard (url : UrlParser) : Prop where
  https : ∀ {host segments}, IsPlain host segments → url.parse ("https://" ++ host ++ pathname segments) =
    (url.hostParser host).map fun host => (host, pathname segments)
  others : ∀ lead ∈ ["ssh://git@", "git://"], ∀ {host segments}, IsPlain host segments →
    url.parse (lead ++ host ++ pathname segments) = some (host, pathname segments)

section Trim

theorem trim_surround {left text right : List Char} (hleft : ∀ c ∈ left, isSpace c = true)
    (hright : ∀ c ∈ right, isSpace c = true) (htext : ∀ c ∈ text, isSpace c = false) (hne : text ≠ []) :
    trim (left ++ text ++ right) = text := by
  have hstart : (left ++ text ++ right).dropWhile isSpace = text ++ right := by
    rw [List.append_assoc, List.dropWhile_append_of_pos hleft]
    obtain ⟨c, rest, rfl⟩ := List.exists_cons_of_ne_nil hne
    rw [List.cons_append, List.dropWhile_cons_of_neg (by simp [htext c List.mem_cons_self])]
  have hright' : ∀ c ∈ right.reverse, isSpace c = true := fun c hc => hright c (List.mem_reverse.mp hc)
  have hend : text.reverse.dropWhile isSpace = text.reverse := by
    obtain ⟨c, rest, heq⟩ := List.exists_cons_of_ne_nil (mt List.reverse_eq_nil_iff.mp hne)
    have hc : c ∈ text := List.mem_reverse.mp (heq ▸ List.mem_cons_self)
    rw [heq, List.dropWhile_cons_of_neg (by simp [htext c hc])]
  rw [trim, trimEnd, hstart, List.reverse_append, List.dropWhile_append_of_pos hright', hend, List.reverse_reverse]

end Trim

section Segments

theorem segmentsOf_append_slash (before after : List Char) :
    segmentsOf (before ++ '/' :: after) = segmentsOf before ++ segmentsOf after := by
  rw [segmentsOf, List.splitOn_append_cons_self, List.filter_append]
  rfl

theorem segmentsOf_nil : segmentsOf [] = [] := by decide

theorem segmentsOf_name {name : List Char} (hslash : '/' ∉ name) (hne : name ≠ []) : segmentsOf name = [name] := by
  rw [segmentsOf, List.splitOn_eq_singleton hslash, List.filter_cons_of_pos (by simpa using List.length_pos_iff.mpr hne)]
  rfl

/-- What ends in a slash has no `.git` at its end. -/
theorem stripGit_append_slash (path : List Char) : stripGit (path ++ ['/']) = path ++ ['/'] := by
  refine if_neg fun hsuffix => ?_
  obtain ⟨before, heq⟩ := hsuffix
  have hlast := congrArg List.getLast? heq
  simp at hlast

theorem stripGit_append_git (path : List Char) : stripGit (path ++ ".git".toList) = path := by
  rw [stripGit, if_pos (List.suffix_append _ _), List.length_append]
  exact List.take_left' (by simp)

/-- `.git` is at the end of a path when it is at the end of its last name. -/
theorem git_suffix_iff (before : List Char) {name : List Char} :
    ".git".toList <:+ before ++ '/' :: name ↔ ".git".toList <:+ name := by
  constructor
  · intro hsuffix
    rcases List.suffix_or_suffix_of_suffix hsuffix (List.suffix_append before ('/' :: name)) with h | h
    · rcases List.suffix_cons_iff.mp h with heq | hname
      · have hhead := congrArg List.head? heq
        simp at hhead
      · exact hname
    · have hmem : '/' ∈ ".git".toList := h.subset List.mem_cons_self
      simp at hmem
  · exact fun h => h.trans ((List.suffix_cons _ _).trans (List.suffix_append _ _))

end Segments

section Chars

variable {c : Char}

theorem isNameChar_of_isHostChar (h : isHostChar c = true) : isNameChar c = true := by
  simp only [isHostChar, isNameChar, Char.isAlphanum, Char.isAlpha, decide_eq_true_eq, Bool.or_eq_true] at *
  tauto

theorem toNat_of_isNameChar (h : isNameChar c = true) : c.toNat = 45 ∨ c.toNat = 46 ∨ (48 ≤ c.toNat ∧ c.toNat ≤ 57) ∨
    (65 ≤ c.toNat ∧ c.toNat ≤ 90) ∨ c.toNat = 95 ∨ (97 ≤ c.toNat ∧ c.toNat ≤ 122) := by
  simp only [isNameChar, Char.isAlphanum, Char.isAlpha, Char.isUpper, Char.isLower, Char.isDigit, decide_eq_true_eq,
    Bool.or_eq_true, Bool.and_eq_true, UInt32.le_iff_toNat_le, ge_iff_le] at h
  change ((((65 ≤ c.toNat ∧ c.toNat ≤ 90) ∨ (97 ≤ c.toNat ∧ c.toNat ≤ 122)) ∨
    (48 ≤ c.toNat ∧ c.toNat ≤ 57)) ∨ c = '-' ∨ c = '_' ∨ c = '.') at h
  rcases h with ((h | h) | h) | rfl | rfl | rfl
  · omega
  · omega
  · omega
  · decide
  · decide
  · decide

theorem isSpace_of_isNameChar (h : isNameChar c = true) : isSpace c = false := by
  have hrange := toNat_of_isNameChar h
  simp only [isSpace, List.mem_cons, List.not_mem_nil, or_false, decide_eq_false_iff_not]
  omega

theorem isLineTerminator_of_isNameChar (h : isNameChar c = true) : isLineTerminator c = false := by
  have hrange := toNat_of_isNameChar h
  simp only [isLineTerminator, List.mem_cons, List.not_mem_nil, or_false, decide_eq_false_iff_not]
  omega

theorem toLower_of_isHostChar (h : isHostChar c = true) : c.toLower = c := by
  simp only [isHostChar, Char.isLower, Char.isDigit, decide_eq_true_eq, Bool.and_eq_true, UInt32.le_iff_toNat_le, ge_iff_le] at h
  change (97 ≤ c.toNat ∧ c.toNat ≤ 122) ∨ (48 ≤ c.toNat ∧ c.toNat ≤ 57) ∨ c = '-' ∨ c = '.' at h
  refine dif_neg fun hupper => ?_
  simp only [UInt32.le_iff_toNat_le, ge_iff_le] at hupper
  change 65 ≤ c.toNat ∧ c.toNat ≤ 90 at hupper
  rcases h with h | h | rfl | rfl
  · omega
  · omega
  · exact absurd hupper (by decide)
  · exact absurd hupper (by decide)

end Chars

/-- What stands before a character is what is read up to it. -/
theorem takeWhile_append_cons {c : Char} {before : List Char} (h : c ∉ before) (after : List Char) :
    (before ++ c :: after).takeWhile (· ≠ c) = before := by
  have hbefore : ∀ d ∈ before, decide (d ≠ c) = true := fun d hd => decide_eq_true fun heq => h (heq ▸ hd)
  rw [List.takeWhile_append_of_pos hbefore, List.takeWhile_cons_of_neg (by simp), List.append_nil]

/-- The SCP-like form is read as its host and its path. -/
theorem scpMatch_remote {user host path : List Char} (huser : user ≠ []) (hat : '@' ∉ user) (hhost : host ≠ [])
    (hcolon : ':' ∉ host) (hpath : path ≠ []) (hlines : ∀ c ∈ path, isLineTerminator c = false) :
    scpMatch (user ++ '@' :: (host ++ ':' :: path)) = some (host, path) := by
  have hdrop : ∀ (before : List Char) (c : Char) (after : List Char), (before ++ c :: after).drop (before.length + 1) = after := by
    intro before c after
    simp [List.drop_append]
  have hany : ¬ path.any isLineTerminator = true := by
    rw [List.any_eq_true]
    rintro ⟨c, hc, hterminator⟩
    rw [hlines c hc] at hterminator
    cases hterminator
  unfold scpMatch
  dsimp only
  rw [takeWhile_append_cons hat, hdrop, takeWhile_append_cons hcolon, hdrop, if_neg]
  rintro (h | h | h | h)
  · exact huser h
  · exact hhost h
  · exact hpath h
  · exact hany h

section Remote

variable (r : Repository) (git slash : Bool)

theorem suffixIf_and {git slash : Bool} (h : ¬ (git = true ∧ slash = true)) (suffix : String) : suffixIf (git && slash) suffix = "" :=
  if_neg (by simpa using h)

theorem isSegment_git : IsSegment (r.repo ++ suffixIf git ".git") := by
  cases git with
  | false => simpa [suffixIf] using r.repo_segment
  | true =>
    have hchars : ∀ c ∈ ".git".toList, isNameChar c = true := by simp [isNameChar]
    have hlength : 2 < (r.repo ++ ".git").length := by
      rw [String.length_append]
      have : ".git".length = 4 := rfl
      omega
    refine ⟨fun c hc => ?_, fun heq => ?_, fun heq => ?_⟩
    · rcases List.mem_append.mp (String.toList_append ▸ hc) with h | h
      · exact r.repo_segment.chars c h
      · exact hchars c h
    · rw [suffixIf, if_pos rfl] at heq
      rw [heq] at hlength
      exact absurd hlength (by decide)
    · rw [suffixIf, if_pos rfl] at heq
      rw [heq] at hlength
      exact absurd hlength (by decide)

/-- `.git` is not at the end of a path that ends with the name of the repository. -/
theorem not_git_suffix (before : List Char) : ¬ ".git".toList <:+ before ++ '/' :: r.repo.toList := by
  intro hsuffix
  have hgit := r.repo_git
  rw [endsWith, List.isSuffixOf_iff_suffix.mpr ((git_suffix_iff before).mp hsuffix)] at hgit
  cases hgit

theorem slash_notMem {name : String} (h : IsSegment name) : '/' ∉ name.toList := by
  intro hmem
  exact absurd (h.chars _ hmem) (by decide)

/-- The names in the path of a remote. The suffix is taken off only when nothing
follows it. -/
theorem segmentsOf_stripGit {before : List Char} (hbefore : segmentsOf before = [r.owner.toList]) :
    segmentsOf (stripGit (before ++ '/' :: (r.tail git slash).toList)) =
      [r.owner.toList, (r.repo ++ suffixIf (git && slash) ".git").toList] := by
  have hrepo : r.repo.toList ≠ [] := mt String.toList_eq_nil_iff.mp r.repo_nonempty
  have hnames : ∀ {name : String}, IsSegment name → name.toList ≠ [] →
      segmentsOf (before ++ '/' :: name.toList) = [r.owner.toList, name.toList] := by
    intro name hname hne
    rw [segmentsOf_append_slash, hbefore, segmentsOf_name (slash_notMem hname) hne]
    rfl
  cases slash with
  | true =>
    have hname : (r.repo ++ suffixIf git ".git").toList ≠ [] := by simp [hrepo]
    have hshape : before ++ '/' :: (r.tail git true).toList = before ++ '/' :: (r.repo ++ suffixIf git ".git").toList ++ ['/'] := by
      simp [Repository.tail, suffixIf, String.toList_append]
    rw [hshape, stripGit_append_slash, segmentsOf_append_slash, segmentsOf_nil, List.append_nil, hnames (isSegment_git r git) hname,
      Bool.and_true]
  | false =>
    have hstrip : stripGit (before ++ '/' :: (r.tail git false).toList) = before ++ '/' :: r.repo.toList := by
      cases git with
      | true =>
        have hshape : before ++ '/' :: (r.tail true false).toList = (before ++ '/' :: r.repo.toList) ++ ".git".toList := by
          simp [Repository.tail, suffixIf, String.toList_append]
        rw [hshape, stripGit_append_git]
      | false =>
        have hshape : before ++ '/' :: (r.tail false false).toList = before ++ '/' :: r.repo.toList := by
          simp [Repository.tail, suffixIf]
        rw [hshape]
        exact if_neg (not_git_suffix r before)
    rw [hstrip, hnames r.repo_segment hrepo, Bool.and_false, suffixIf, if_neg (by decide), String.append_empty]

/-- The names that a URL splits the path of a remote into. -/
def urlSegments : List String := [r.owner, r.repo ++ suffixIf git ".git"] ++ if slash then [""] else []

theorem intercalate_urlSegments : "/".intercalate (urlSegments r git slash) = r.owner ++ "/" ++ r.tail git slash := by
  cases slash <;> simp [urlSegments, Repository.tail, suffixIf, String.append_assoc]

theorem isSegment_urlSegments : ∀ segment ∈ urlSegments r git slash, IsSegment segment := by
  have hempty : IsSegment "" := ⟨by simp, by decide, by decide⟩
  intro segment hsegment
  rcases List.mem_append.mp hsegment with h | h
  · rcases List.mem_pair.mp h with rfl | rfl
    · exact r.owner_segment
    · exact isSegment_git r git
  · cases slash with
    | false => cases h
    | true =>
      rw [if_pos rfl, List.mem_singleton] at h
      exact h ▸ hempty

/-- The host that is read from a remote. -/
def hostOf (url : UrlParser) (form : Form) (host : String) : Option String :=
  match form with
  | .https => url.hostParser host
  | .scp _ | .ssh | .git => some host

theorem host_nonempty : r.host ≠ "" := by
  intro hempty
  have hgithub := r.host_github
  rw [hempty] at hgithub
  exact absurd hgithub (by decide)

theorem isPlain_urlSegments : IsPlain r.host (urlSegments r git slash) where
  host_chars := r.host_chars
  host_nonempty := host_nonempty r
  segments_nonempty := by simp [urlSegments]
  isSegment := isSegment_urlSegments r git slash

variable {r git slash}

theorem isNameChar_of_mem_host {c : Char} (hc : c ∈ r.host.toList) : isNameChar c = true :=
  isNameChar_of_isHostChar (r.host_chars c hc)

/-- The path of a remote has the characters of names and slashes. -/
theorem mem_path {c : Char} (hc : c ∈ (r.owner ++ "/" ++ r.tail git slash).toList) : isNameChar c = true ∨ c = '/' := by
  have hpath : r.owner ++ "/" ++ r.tail git slash = r.owner ++ "/" ++ (r.repo ++ suffixIf git ".git") ++ suffixIf slash "/" := by
    simp [Repository.tail, String.append_assoc]
  rw [hpath, String.toList_append, String.toList_append, String.toList_append, List.mem_append, List.mem_append, List.mem_append] at hc
  rcases hc with ((h | h) | h) | h
  · exact Or.inl (r.owner_segment.chars c h)
  · exact Or.inr (by simpa using h)
  · exact Or.inl ((isSegment_git r git).chars c h)
  · cases slash with
    | false => simp [suffixIf] at h
    | true => exact Or.inr (by simpa [suffixIf] using h)

/-- What the path of a remote begins with. -/
def Form.root (form : Form) : String :=
  match form with
  | .scp _ => ""
  | .https | .ssh | .git => "/"

theorem toList_remote_scp (user : UserName) : (remote (.scp user) r git slash).toList =
    user.text.toList ++ '@' :: (r.host.toList ++ ':' :: (r.owner ++ "/" ++ r.tail git slash).toList) := by
  simp [remote, Form.lead, String.toList_append]

theorem colon_notMem_host : ':' ∉ r.host.toList := by
  intro hmem
  exact absurd (isNameChar_of_mem_host hmem) (by decide)

/-- The one colon of the SCP-like form is followed by the owner. -/
theorem not_url_scp (user : UserName) : ¬ "://".toList <:+: (remote (.scp user) r git slash).toList := by
  rintro ⟨before, after, heq⟩
  have hpathColon : ':' ∉ (r.owner ++ "/" ++ r.tail git slash).toList := by
    intro hmem
    exact absurd (mem_path hmem) (by decide)
  have hbefore : ':' ∉ user.text.toList ++ '@' :: r.host.toList := by
    rw [List.mem_append, List.mem_cons]
    rintro (h | h | h)
    · exact (user.chars _ h).2.1 rfl
    · exact absurd h (by decide)
    · exact colon_notMem_host h
  have hsplit : before ++ ':' :: ('/' :: '/' :: after) =
      (user.text.toList ++ '@' :: r.host.toList) ++ ':' :: (r.owner ++ "/" ++ r.tail git slash).toList := by
    rw [toList_remote_scp] at heq
    simpa using heq
  obtain ⟨_, _, hpath⟩ := (List.append_cons_inj_of_notMem hbefore hpathColon).mp hsplit.symm
  obtain ⟨c, rest, hc⟩ := List.exists_cons_of_ne_nil (mt String.toList_eq_nil_iff.mp r.owner_nonempty)
  rw [String.toList_append, String.toList_append, hc, List.cons_append, List.cons_append] at hpath
  have hslash : c = '/' := (List.cons.inj hpath).1
  exact absurd (r.owner_segment.chars c (hc ▸ List.mem_cons_self)) (by rw [hslash]; decide)

theorem hostAndPath_scp (url : UrlParser) (user : UserName) : hostAndPath url (remote (.scp user) r git slash).toList =
    some (r.host, r.owner ++ "/" ++ r.tail git slash) := by
  have hat : '@' ∉ user.text.toList := fun hmem => (user.chars _ hmem).1 rfl
  have huser : user.text.toList ≠ [] := mt String.toList_eq_nil_iff.mp user.nonempty
  have hhost : r.host.toList ≠ [] := mt String.toList_eq_nil_iff.mp (host_nonempty r)
  have hpath : (r.owner ++ "/" ++ r.tail git slash).toList ≠ [] := by simp
  have hlines : ∀ c ∈ (r.owner ++ "/" ++ r.tail git slash).toList, isLineTerminator c = false := by
    intro c hc
    rcases mem_path hc with h | rfl
    · exact isLineTerminator_of_isNameChar h
    · decide
  rw [hostAndPath, if_neg (not_url_scp user), toList_remote_scp, scpMatch_remote huser hat hhost colon_notMem_host hpath hlines]
  simp [String.append_assoc]

theorem hostAndPath_url (url : UrlParser) {lead : String} (hlead : "://".toList <:+: lead.toList) (host path : String) :
    hostAndPath url (lead ++ host ++ path).toList = url.parse (lead ++ host ++ path) := by
  have hin : "://".toList <:+: (lead ++ host ++ path).toList := by
    rw [String.toList_append, String.toList_append, List.append_assoc]
    exact hlead.trans (List.infix_append' [] lead.toList _)
  rw [hostAndPath, if_pos hin, String.ofList_toList]

/-- The form decides what the host goes through, and whether the path begins with
a slash. -/
theorem hostAndPath_remote {url : UrlParser} (hurl : FollowsStandard url) (form : Form) :
    hostAndPath url (remote form r git slash).toList =
      (hostOf url form r.host).map fun host => (host, form.root ++ (r.owner ++ "/" ++ r.tail git slash)) := by
  have hplain := isPlain_urlSegments r git slash
  have hpath : pathname (urlSegments r git slash) = "/" ++ (r.owner ++ "/" ++ r.tail git slash) :=
    congrArg _ (intercalate_urlSegments r git slash)
  have hshape : ∀ lead : String, lead ++ r.host ++ "/" ++ r.owner ++ "/" ++ r.tail git slash =
      lead ++ r.host ++ pathname (urlSegments r git slash) := by
    intro lead
    rw [hpath]
    simp [String.append_assoc]
  cases form with
  | scp user =>
    rw [hostAndPath_scp]
    simp [hostOf, Form.root]
  | https =>
    rw [remote, Form.lead, hshape, hostAndPath_url url (by decide), hurl.https hplain, hpath]
    rfl
  | ssh =>
    rw [remote, Form.lead, hshape, hostAndPath_url url (by decide), hurl.others _ (by simp) hplain, hpath]
    rfl
  | git =>
    rw [remote, Form.lead, hshape, hostAndPath_url url (by decide), hurl.others _ (by simp) hplain, hpath]
    rfl

theorem isSpace_lead (form : Form) : ∀ c ∈ (form.lead r.host).toList, isSpace c = false := by
  have hhost : ∀ c ∈ r.host.toList, isSpace c = false := fun c hc => isSpace_of_isNameChar (isNameChar_of_mem_host hc)
  have hplain : ∀ lead after : String, (∀ c ∈ lead.toList, isSpace c = false) → (∀ c ∈ after.toList, isSpace c = false) →
      ∀ c ∈ (lead ++ r.host ++ after).toList, isSpace c = false := by
    intro lead after hlead hafter c hc
    rw [String.toList_append, String.toList_append, List.mem_append, List.mem_append] at hc
    rcases hc with (h | h) | h
    · exact hlead c h
    · exact hhost c h
    · exact hafter c h
  cases form with
  | scp user =>
    refine hplain (user.text ++ "@") ":" (fun c hc => ?_) (by simp [isSpace])
    rcases List.mem_append.mp (String.toList_append ▸ hc) with h | h
    · exact (user.chars c h).2.2
    · have hat : c = '@' := by simpa using h
      rw [hat]
      simp [isSpace]
  | https => exact hplain "https://" "/" (by simp [isSpace]) (by simp [isSpace])
  | ssh => exact hplain "ssh://git@" "/" (by simp [isSpace]) (by simp [isSpace])
  | git => exact hplain "git://" "/" (by simp [isSpace]) (by simp [isSpace])

theorem isSpace_remote (form : Form) : ∀ c ∈ (remote form r git slash).toList, isSpace c = false := by
  intro c hc
  have hshape : remote form r git slash = form.lead r.host ++ (r.owner ++ "/" ++ r.tail git slash) := by
    simp [remote, String.append_assoc]
  rw [hshape, String.toList_append, List.mem_append] at hc
  rcases hc with h | h
  · exact isSpace_lead form c h
  · rcases mem_path h with hname | rfl
    · exact isSpace_of_isNameChar hname
    · decide

theorem segmentsOf_path (form : Form) : segmentsOf (stripGit (form.root ++ (r.owner ++ "/" ++ r.tail git slash)).toList) =
    [r.owner.toList, (r.repo ++ suffixIf (git && slash) ".git").toList] := by
  have howner := segmentsOf_name (slash_notMem r.owner_segment) (mt String.toList_eq_nil_iff.mp r.owner_nonempty)
  have hbefore : segmentsOf (form.root ++ r.owner).toList = [r.owner.toList] := by
    cases form with
    | scp user => simpa [Form.root] using howner
    | https => simpa [Form.root, segmentsOf_nil, howner] using segmentsOf_append_slash [] r.owner.toList
    | ssh => simpa [Form.root, segmentsOf_nil, howner] using segmentsOf_append_slash [] r.owner.toList
    | git => simpa [Form.root, segmentsOf_nil, howner] using segmentsOf_append_slash [] r.owner.toList
  have hshape : (form.root ++ (r.owner ++ "/" ++ r.tail git slash)).toList =
      (form.root ++ r.owner).toList ++ '/' :: (r.tail git slash).toList := by simp [String.toList_append]
  rw [hshape, segmentsOf_stripGit r git slash hbefore]

/-- What is read from a remote: with both a `.git` and a slash after it, the
suffix stays in the name. -/
theorem githubBaseUrl_remote {url : UrlParser} (hurl : FollowsStandard url) (form : Form) {left right : String}
    (hleft : ∀ c ∈ left.toList, isSpace c = true) (hright : ∀ c ∈ right.toList, isSpace c = true) :
    githubBaseUrl url (left ++ remote form r git slash ++ right) = (hostOf url form r.host).bind fun host =>
      if isGithub host = false then none
      else some ("https://" ++ host ++ "/" ++ r.owner ++ "/" ++ (r.repo ++ suffixIf (git && slash) ".git")) := by
  have hne : (remote form r git slash).toList ≠ [] := by
    simp [remote, String.toList_append]
  have htrim : trim (left ++ remote form r git slash ++ right).toList = (remote form r git slash).toList := by
    rw [String.toList_append, String.toList_append]
    exact trim_surround hleft hright (isSpace_remote form) hne
  rw [githubBaseUrl, htrim, hostAndPath_remote hurl]
  cases hostOf url form r.host with
  | none => rfl
  | some host =>
    simp only [Option.map_some, Option.bind_some, segmentsOf_path, String.ofList_toList]

theorem isGithub_host : isGithub r.host = true := by
  have hlower : r.host.toLower = r.host := by
    refine String.toList_injective ?_
    rw [String.toLower, String.toList_map]
    exact (List.map_congr_left fun c hc => toLower_of_isHostChar (r.host_chars c hc)).trans (List.map_id _)
  rw [isGithub, hlower]
  exact r.host_github

end Remote

/-- The base of a remote is that of its repository, in every form and with any
spaces around it, unless a slash follows the `.git`, which is then not at the
end; and in the `https:` form the host has to be one that the host parser of URLs
keeps. -/
theorem githubBaseUrl_eq_iff {url : UrlParser} (hurl : FollowsStandard url) (form : Form) (r : Repository) (git slash : Bool)
    {left right : String} (hleft : ∀ c ∈ left.toList, isSpace c = true) (hright : ∀ c ∈ right.toList, isSpace c = true) :
    githubBaseUrl url (left ++ remote form r git slash ++ right) = some r.baseUrl ↔
      ¬ (git = true ∧ slash = true) ∧ (form = .https → url.hostParser r.host = some r.host) := by
  rw [githubBaseUrl_remote hurl form hleft hright, Repository.baseUrl]
  constructor
  · intro hbase
    obtain ⟨host, hhost, hbase⟩ := Option.bind_eq_some_iff.mp hbase
    split at hbase
    · cases hbase
    · have htext := congrArg String.toList (Option.some.inj hbase)
      have hflags : ¬ (git = true ∧ slash = true) := by
        rintro ⟨rfl, rfl⟩
        have hsuffix : ".git".toList <:+ ("https://" ++ r.host ++ "/" ++ r.owner).toList ++ '/' :: r.repo.toList := by
          refine ⟨("https://" ++ host ++ "/" ++ r.owner ++ "/" ++ r.repo).toList, ?_⟩
          simpa [suffixIf, String.toList_append] using htext
        exact not_git_suffix r _ hsuffix
      have hsuffix := suffixIf_and hflags ".git"
      refine ⟨hflags, fun hform => ?_⟩
      have hsame : host = r.host := by
        refine String.toList_injective ?_
        rw [hsuffix] at htext
        simpa [String.toList_append] using htext
      rw [hform, hsame] at hhost
      exact hhost
  · rintro ⟨hflags, hhttps⟩
    have hhost : hostOf url form r.host = some r.host := by
      cases form with
      | https => exact hhttps rfl
      | scp user => rfl
      | ssh => rfl
      | git => rfl
    have hsuffix := suffixIf_and hflags ".git"
    rw [hhost, hsuffix, Option.bind_some, isGithub_host, String.append_empty]
    rfl

/-- The host of an authority, after its user. -/
def authorityHost (authority : List Char) : List Char :=
  if '@' ∈ authority then (authority.dropWhile (· ≠ '@')).drop 1 else authority

/-- A parser of URLs with a host and a plain path. It keeps every host. -/
def plainUrl : UrlParser where
  hostParser host := some host
  parse text :=
    let rest := (text.toList.dropWhile (· ≠ ':')).drop 3
    let authority := rest.takeWhile (· ≠ '/')
    some (String.ofList (authorityHost authority), String.ofList (rest.drop authority.length))

theorem parse_plainUrl {lead user host path : String} (hlead : ∀ text, ((lead.toList ++ text).dropWhile (· ≠ ':')).drop 3 = text)
    (huser : '/' ∉ user.toList) (hslash : '/' ∉ host.toList) (hhost : authorityHost (user.toList ++ host.toList) = host.toList) :
    plainUrl.parse (lead ++ user ++ host ++ ("/" ++ path)) = some (host, "/" ++ path) := by
  have hauthority : '/' ∉ user.toList ++ host.toList := List.mem_append.not.mpr (not_or.mpr ⟨huser, hslash⟩)
  have hshape : (lead ++ user ++ host ++ ("/" ++ path)).toList = lead.toList ++ (user.toList ++ host.toList ++ '/' :: path.toList) := by
    simp [String.toList_append]
  have hpath : String.ofList ('/' :: path.toList) = "/" ++ path := String.toList_injective (by simp [String.toList_append])
  unfold plainUrl
  dsimp only
  rw [hshape, hlead, takeWhile_append_cons hauthority, List.drop_left, hhost, String.ofList_toList, hpath]

theorem followsStandard_plainUrl : FollowsStandard plainUrl := by
  have hhost : ∀ {host segments}, IsPlain host segments → '@' ∉ host.toList ∧ '/' ∉ host.toList := by
    intro host segments hplain
    exact ⟨fun hmem => absurd (hplain.host_chars _ hmem) (by decide), fun hmem => absurd (hplain.host_chars _ hmem) (by decide)⟩
  refine ⟨fun {host segments} hplain => ?_, fun lead hlead {host segments} hplain => ?_⟩
  · obtain ⟨hat, hslash⟩ := hhost hplain
    exact @parse_plainUrl "https://" "" host _ (fun text => rfl) (by simp) hslash (if_neg hat)
  · obtain ⟨hat, hslash⟩ := hhost hplain
    rcases List.mem_pair.mp hlead with rfl | rfl
    · exact @parse_plainUrl "ssh://" "git@" host _ (fun text => rfl) (by simp) hslash rfl
    · exact @parse_plainUrl "git://" "" host _ (fun text => rfl) (by simp) hslash (if_neg hat)

/-- A repository on the public host. -/
def ownerRepo : Repository where
  host := "github.com"
  owner := "owner"
  repo := "repo"
  host_chars := by simp [isHostChar]
  host_github := by decide
  owner_segment := ⟨by simp [isNameChar], by decide, by decide⟩
  owner_nonempty := by decide
  repo_segment := ⟨by simp [isNameChar], by decide, by decide⟩
  repo_nonempty := by decide
  repo_git := by decide

def gitUser : UserName where
  text := "git"
  nonempty := by decide
  chars := by simp [isSpace]

theorem githubBaseUrl_eq_iff_ownerRepo :
    githubBaseUrl plainUrl "  https://github.com/owner/repo.git " = some "https://github.com/owner/repo" := by
  have hiff := @githubBaseUrl_eq_iff plainUrl followsStandard_plainUrl .https ownerRepo true false "  " " "
    (by simp [isSpace]) (by simp [isSpace])
  exact hiff.mpr ⟨by decide, fun _ => rfl⟩

/-- A slash after the suffix is no part of a name, and leaves the suffix in it. -/
theorem githubBaseUrl_gitSlash : FollowsStandard plainUrl ∧
    githubBaseUrl plainUrl "git@github.com:owner/repo.git/" = some "https://github.com/owner/repo.git" := by
  have hbase := @githubBaseUrl_remote ownerRepo true true plainUrl followsStandard_plainUrl (.scp gitUser) "" ""
    (by simp) (by simp)
  rw [hostOf, Option.bind_some, isGithub_host] at hbase
  exact ⟨followsStandard_plainUrl, hbase⟩

end GitSource

end codespine.extract
