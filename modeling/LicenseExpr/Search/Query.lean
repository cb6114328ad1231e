import LicenseExpr.Level
import LicenseExpr.Search.ContentId
import LicenseExpr.Text.Utf8

/-!
# Search queries

A query collects the terms that tell a component from others: its namespace and name and the words
they are made of. Common and short terms are left out, and no term is taken twice. The terms end
up in the address of a bug search.
-/

namespace LicenseExpr.Search

structure QueryConfig where
  baseUrl : String
  /-- Left out in any letter case. -/
  commonTerms : List String
  /-- In bytes. -/
  minimumTermLength : Nat

namespace QueryConfig

def standard : QueryConfig where
  baseUrl := "https://dev.eclipse.org/ipzilla/buglist.cgi"
  commonTerms :=
    ["apache", "eclipse", "source", "platform", "plugin", "parent", "client", "server"]
  minimumTermLength := 5

/-- Whether a term is long enough and not common. -/
def admits (config : QueryConfig) (term : String) : Bool :=
  !(config.commonTerms.any fun common => Text.sameWord common term) &&
    config.minimumTermLength ≤ Text.byteLength term.toList

end QueryConfig

/-- The characters of words: ASCII letters, digits and the underscore. -/
def isTermChar (c : Char) : Bool := c.isAlphanum || c == '_'

/-- The parts of a text between its other characters; two in a row have an empty part between
them. -/
def segments (text : String) : List String :=
  (text.toList.splitOnP fun c => !isTermChar c).map String.ofList

/-- What an id offers as terms, in order; an invalid id offers nothing. -/
def ContentId.candidates (id : ContentId) : List String :=
  if id.valid then
    id.nameSpace.toList ++ [id.name] ++ segments id.name ++ id.nameSpace.toList.flatMap segments
  else []

def ContentId.records (id : ContentId) : List LogRecord :=
  if id.valid then []
  else [⟨.debug, "spdx_expr::search", "skipping search terms for invalid content id"⟩]

structure Query where
  config : QueryConfig
  /-- The accepted terms, in the order in which they came. -/
  terms : List String

namespace Query

def empty (config : QueryConfig) : Query := ⟨config, []⟩

def add (q : Query) (term : String) : Query :=
  if q.config.admits term && !q.terms.contains term then { q with terms := q.terms ++ [term] }
  else q

def addContentId (q : Query) (id : ContentId) : Query := id.candidates.foldl add q

/-- A query without terms has no address. Terms stand in it as they are. -/
def url? (q : Query) : Option String :=
  if q.terms = [] then none
  else some (q.config.baseUrl ++ "?short_desc_type=anywords&short_desc=" ++
    "+".intercalate q.terms ++ "&long_desc_type=substring")

def urlFor? (id : ContentId) : Option String := ((empty .standard).addContentId id).url?

/-! ## Terms -/

theorem config_add (q : Query) (term : String) : (q.add term).config = q.config := by
  unfold add; split <;> rfl

theorem addContentId_of_not_valid (q : Query) {id : ContentId} (h : id.valid = false) :
    q.addContentId id = q := by
  simp [addContentId, ContentId.candidates, h]

end Query

end LicenseExpr.Search
