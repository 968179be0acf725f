/-!
# The log

Everything the analyses have to say beside their results: names they could not resolve, searches
they gave up, checkers that failed.  An entry says which part of the library it comes from and how
serious it is.
-/

namespace Recast

/-- The part of the library an entry comes from. -/
inductive Log.Channel where
  | resolving
  | flow
  | checking
  deriving Repr, DecidableEq

/-- How serious an entry is. -/
inductive Log.Level where
  | debug
  | error
  deriving Repr, DecidableEq

/-- One entry of the log. -/
structure Log.Entry where
  channel : Log.Channel
  level : Log.Level := .debug
  text : String
  deriving Repr, DecidableEq

/-- Entries in the order in which they were made. -/
abbrev Log := List Log.Entry

end Recast
