/-!
# Diagnostics

What the library has to say about its own work besides its results. Every entry has a level, the part
of the library it comes from and a message. Operations that report come with a function that gives
their entries, in order; the results do not depend on them.
-/
namespace SchemaAtlas

inductive LogLevel
  | debug | info | warning | error
  deriving DecidableEq

namespace LogLevel

def name : LogLevel → String
  | debug => "DEBUG"
  | info => "INFO"
  | warning => "WARNING"
  | error => "ERROR"

def rank : LogLevel → Nat
  | debug => 0
  | info => 1
  | warning => 2
  | error => 3

def all : List LogLevel := [debug, info, warning, error]

end LogLevel

/-- The part of the library that an entry comes from. -/
inductive LogSource
  | paths | groups | filters | store | handles
  deriving DecidableEq

def LogSource.name : LogSource → String
  | paths => "docstore_schema.path_resolution.path_resolver"
  | groups => "docstore_schema.path_resolution.collection_group_matcher"
  | filters => "docstore_schema.query_narrowing.schema_filter"
  | store => "docstore_schema.typed_store.typed_document_store"
  | handles => "docstore_schema.typed_store.typed_handles"

structure LogEntry where
  level : LogLevel
  source : LogSource
  message : String
  deriving DecidableEq

namespace LogEntry

/-- The line that an entry is written as. -/
def line (e : LogEntry) : String := e.level.name ++ " " ++ e.source.name ++ ": " ++ e.message

/-- The entries that are not below a level. -/
def atLeast (level : LogLevel) (entries : List LogEntry) : List LogEntry :=
  entries.filter fun e => level.rank ≤ e.level.rank

end LogEntry
end SchemaAtlas
