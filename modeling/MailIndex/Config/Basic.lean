import MailIndex.Search.SortOrder

/-!
# Configuration

Where the store and the messages are, and the limits of indexing and searching.
-/

namespace MailIndex

structure SourceConfig where
  root : Text
  includeGlobs : List Text
  excludeGlobs : List Text
  deriving DecidableEq, Repr

def SourceConfig.defaultIncludes : List Text := ["**/*.json".toList]

structure IndexConfig where
  /-- After how many documents a reindex commits. -/
  commitInterval : Nat
  /-- How many characters of a body the snippet keeps. -/
  snippetChars : Nat
  deriving DecidableEq, Repr

def IndexConfig.standard : IndexConfig := ⟨50, 200⟩

structure SearchConfig where
  defaultLimit : Int
  maxLimit : Int
  defaultSort : SortOrder
  /-- Whether documents without a date are shown. -/
  includeUndated : Bool
  deriving DecidableEq, Repr

def SearchConfig.standard : SearchConfig := ⟨50, 500, .relevance, true⟩

structure Config where
  dbPath : Text
  source : Option SourceConfig
  index : IndexConfig
  search : SearchConfig
  deriving DecidableEq, Repr

def Config.forStore (path : Text) : Config := ⟨path, none, .standard, .standard⟩

/-- What is said when messages are needed and no section says where they are. -/
def Config.missingSource : Text :=
  "No [source] section in config; set source.root to the message directory".toList

end MailIndex
