import Codespine.Schema

open codespine.schema

namespace codespine

/-- What makes a run throw. -/
inductive HostError where
  | malformedJson
  | schemaViolation
  | invalidUrl (url : String)
deriving DecidableEq

/-- The functions of the runtime that the program calls: `JSON.parse`,
`fileURLToPath`, `relative`, `isAbsolute` and `sep` of the path module, the
text a number is shown as, and `new URL(text).host`, where that does not
throw. -/
structure Host where
  parseJson : String → Except HostError Json
  fileURLToPath : String → Except HostError String
  relative : String → String → String
  isAbsolute : String → Bool
  sep : String
  showNumber : ℚ → String
  urlHost : String → Option String

/-- `text.startsWith(start)`. -/
def startsWith (text start : String) : Bool := start.toList.isPrefixOf text.toList

/-- `text.endsWith(ending)`. -/
def endsWith (text ending : String) : Bool := ending.toList.isSuffixOf text.toList

/-- A POSIX host whose `JSON.parse` knows the given documents. A `file:` url
with an escape in it counts as malformed. -/
def posixHost (documents : List (String × Json)) : Host where
  parseJson text :=
    match OrderedMap.lookup text documents with
    | some json => .ok json
    | none => .error .malformedJson
  fileURLToPath url :=
    if '%' ∈ url.toList then .error (.invalidUrl url) else .ok (String.ofList (url.toList.drop 7))
  relative root path :=
    if startsWith path (root ++ "/") then String.ofList (path.toList.drop (root.length + 1)) else ".." ++ path
  isAbsolute path := startsWith path "/"
  sep := "/"
  showNumber value := toString value.num
  urlHost _ := none

end codespine
