/-!
# Indices

Tree nodes, scopes, types and planned units are each kept in one table and named
by their index in it.  The four kinds of index are four types, so that a lookup
in the wrong table does not elaborate.

An index says nothing about the table it belongs to.  Every table therefore has
a checked lookup, which answers `none` beyond its end, and a total one that the
rest of the library uses.
-/

namespace Unnest

/-- A node of a syntax tree that analysis can write about. -/
structure NodeId where
  index : Nat
  deriving DecidableEq, Repr, Inhabited

/-- A lexical scope. -/
structure ScopeId where
  index : Nat
  deriving DecidableEq, Repr, Inhabited

/-- A type. -/
structure TypeId where
  index : Nat
  deriving DecidableEq, Repr, Inhabited

/-- A planned output unit. -/
structure UnitId where
  index : Nat
  deriving DecidableEq, Repr, Inhabited

/-- Nodes are listed as `node_7`. -/
def NodeId.describe (id : NodeId) : String := s!"node_{id.index}"

/-- Scopes are listed as `scope_7`. -/
def ScopeId.describe (id : ScopeId) : String := s!"scope_{id.index}"

/-- Types are listed as `type_7`. -/
def TypeId.describe (id : TypeId) : String := s!"type_{id.index}"

/-- Units are listed as `unit_7`. -/
def UnitId.describe (id : UnitId) : String := s!"unit_{id.index}"

end Unnest
