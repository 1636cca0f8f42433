import Mathlib

namespace codespine.query

def SCRIPT_EXTENSIONS : List String := ["js", "jsx", "mjs", "cjs", "ts", "tsx", "mts", "cts"]

/-- Stems of the files that are entry points below a route directory. -/
def NEXTJS_APP_ROUTER_STEMS : List String :=
  ["page", "layout", "loading", "error", "not-found", "global-error", "template", "default", "route", "sitemap",
    "robots", "manifest", "opengraph-image", "twitter-image", "icon", "apple-icon"]

def NEXTJS_ROUTE_DIRECTORIES : List String := ["app", "pages"]

/-- The nonempty parts of a path, with either slash between them. -/
def pathSegments (filePath : String) : List String :=
  ((filePath.toList.splitOnP fun c => c = '/' ∨ c = '\\').map String.ofList).filter fun segment => segment ≠ ""

def basenameOf (filePath : String) : String := (pathSegments filePath).getLast?.getD ""

/-- The text before the last dot and the text after it, when there is one. -/
def splitAtLastDot (basename : String) : Option (String × String) :=
  let tail := basename.toList.reverse.takeWhile fun c => c ≠ '.'
  if tail.length = basename.length then none
  else some (String.ofList (basename.toList.take (basename.length - tail.length - 1)), String.ofList tail.reverse)

def isScript (basename : String) : Bool :=
  match splitAtLastDot basename with
  | some (_, extension) => extension ∈ SCRIPT_EXTENSIONS
  | none => false

/-- The basename without its final extension. -/
def stemOf (basename : String) : String :=
  match splitAtLastDot basename with
  | some (stem, _) => stem
  | none => basename

def isConfigFor (basename framework : String) : Bool := isScript basename && stemOf basename = framework ++ ".config"

/-- The file is at the project root or directly below `src`. -/
def isRootOrSrc (filePath : String) : Bool :=
  match pathSegments filePath with
  | [_] => true
  | [directory, _] => directory = "src"
  | _ => false

def hasDirectory (filePath : String) (directories : List String) : Bool :=
  (pathSegments filePath).dropLast.any fun segment => segment ∈ directories

namespace DeadExportsAllowlist

def isNextjsEntryPoint (filePath : String) : Bool :=
  let basename := basenameOf filePath
  if isConfigFor basename "next" then true
  else if !isScript basename then false
  else
    let stem := stemOf basename
    if stem = "middleware" ∨ stem = "instrumentation" then isRootOrSrc filePath
    else if stem ∈ NEXTJS_APP_ROUTER_STEMS then hasDirectory filePath NEXTJS_ROUTE_DIRECTORIES
    else false

def isTailwindEntryPoint (filePath : String) : Bool := isConfigFor (basenameOf filePath) "tailwind"

def isPlaywrightEntryPoint (filePath : String) : Bool :=
  let basename := basenameOf filePath
  if isConfigFor basename "playwright" then true
  else if !isScript basename then false
  else stemOf basename = "global-setup" ∨ stemOf basename = "global-teardown"

/-- Every export of the file is consumed by a framework. -/
def isFrameworkEntryPoint (filePath : String) : Bool :=
  isNextjsEntryPoint filePath || isTailwindEntryPoint filePath || isPlaywrightEntryPoint filePath

example : isFrameworkEntryPoint "web\\app/blog/page.tsx" = true := by decide +kernel

example : isFrameworkEntryPoint "app/page.test.tsx" = false := by decide +kernel

end DeadExportsAllowlist

end codespine.query
