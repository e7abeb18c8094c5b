import ValueCoverage.Member
import ValueCoverage.Observation.Codec
import ValueCoverage.Ordered.DistinctList
import ValueCoverage.Ordered.OrderedMap

/-!
# Stores of coverage

A store keeps, for each class and each of its members, the distinct observations. Classes, members
and observations stand in the order in which they first came; a member may be declared and have no
observations yet. Two stores agree if they hold the same, in whatever order.
-/

namespace ValueCoverage

/-- The distinct observations of one member, first come first. -/
abbrev Observations := DistinctList Observation

/-- The members of one class. -/
abbrev MemberTable := OrderedMap String Observations

/-- Observations by class and member. -/
structure Store where
  owners : OrderedMap String MemberTable
deriving Repr, DecidableEq

/-- What a store says of one member. -/
structure StoreEntry where
  key : MemberKey
  observations : Observations
deriving Repr, DecidableEq

namespace Store

/-- Nothing declared and nothing observed. -/
def empty : Store := ⟨.empty⟩

instance : Inhabited Store := ⟨empty⟩

/-- The observations of a member, if it was ever declared. -/
def lookup (s : Store) (key : MemberKey) : Option Observations :=
  (s.owners.get? key.owner).bind (·.get? key.member)

/-- Whether the member was ever declared. -/
def contains (s : Store) (key : MemberKey) : Bool := (s.lookup key).isSome

/-- Changes the observations of a member; a new member starts without any. -/
def update (s : Store) (key : MemberKey) (f : Observations → Observations) : Store :=
  ⟨s.owners.alter key.owner fun members =>
    (members.getD .empty).alter key.member fun list => f (list.getD .empty)⟩

/-- Makes sure that the member is there. -/
def declare (s : Store) (key : MemberKey) : Store := s.update key id

/-- Adds an observation of a member unless it is there already. -/
def add (s : Store) (key : MemberKey) (o : Observation) : Store := s.update key (·.insert o)

/-- Whether the member has the observation. -/
def holds (s : Store) (key : MemberKey) (o : Observation) : Bool :=
  (s.lookup key).any (·.contains o)

/-- Adds members to a class; a class without members is taken over, too. -/
def mergeMembers (into members : MemberTable) : MemberTable :=
  members.entries.foldl
    (fun into e => into.alter e.1 fun list => (list.getD .empty).insertAll e.2.items) into

/-- Puts what `other` holds behind what `s` holds; what both hold stays where it was. -/
def merge (s other : Store) : Store :=
  ⟨other.owners.entries.foldl
    (fun owners e => owners.alter e.1 fun members => mergeMembers (members.getD .empty) e.2)
    s.owners⟩

/-- The store with `f` of every observation; observations that become equal are one. -/
def mapObservations (f : Observation → Observation) (s : Store) : Store :=
  ⟨s.owners.entries.foldl
    (fun owners e => owners.alter e.1 fun members =>
      e.2.entries.foldl
        (fun into m => into.alter m.1 fun list => (list.getD .empty).insertAll (m.2.items.map f))
        (members.getD .empty)) .empty⟩

/-- The store with every observation in the form in which the codec reads it back. -/
def canonicalize (s : Store) (codec : Codec) : Store := s.mapObservations codec.canonical

/-- The classes, first come first. -/
def ownerNames (s : Store) : List String := s.owners.keys

/-- The members of a class, first come first. -/
def membersOf (s : Store) (owner : String) : List (String × Observations) :=
  ((s.owners.get? owner).getD .empty).entries

/-- All members, class by class. -/
def entries (s : Store) : List StoreEntry :=
  s.owners.entries.flatMap fun o => o.2.entries.map fun m => ⟨⟨o.1, m.1⟩, m.2⟩

/-- Whether there are no classes. -/
def isEmpty (s : Store) : Bool := s.owners.isEmpty

/-- How many members there are. -/
def memberCount (s : Store) : Nat := s.owners.values.foldr (fun members n => members.size + n) 0

/-- How many observations there are, over all members. -/
def observationCount (s : Store) : Nat :=
  s.entries.foldr (fun e n => e.observations.items.length + n) 0

/-- Whether both hold the same, in any order. -/
def agrees (a b : Store) : Bool :=
  a.owners.sameEntries (·.sameEntries DistinctList.sameElements ·) b.owners

end Store

end ValueCoverage
