/-
  Path attributes of routes.

  Attributes are kept in order and opaque, apart from EXTENDED_COMMUNITIES,
  which holds the route targets.  `Attributes.insert` replaces the attributes of
  one type, `Attributes.addTargets` appends route targets to the communities,
  and `Attributes.targets` finds them.
-/
import RouteExchange.RouteTarget

namespace RouteExchange

/-- A path attribute: flags, type code and an opaque value. -/
structure Attribute where
  flags : UInt8
  code : UInt8
  value : Octets
deriving DecidableEq, Repr

namespace Attribute

/-- The type code of EXTENDED_COMMUNITIES. -/
def communitiesCode : UInt8 := 16

/-- The flags of an optional transitive attribute. -/
def optionalTransitive : UInt8 := 0xC0

def communities (value : Octets) : Attribute := ⟨optionalTransitive, communitiesCode, value⟩

end Attribute

/-- The path attributes of a route, in order. -/
structure Attributes where
  list : List Attribute
deriving DecidableEq, Repr

namespace Attributes

def empty : Attributes := ⟨[]⟩

instance : EmptyCollection Attributes := ⟨empty⟩

instance : Inhabited Attributes := ⟨empty⟩

def get? (as : Attributes) (code : UInt8) : Option Attribute :=
  as.list.find? fun a => a.code == code

/-- The attributes with every one of the new attribute's type replaced by it, at the end. -/
def insert (as : Attributes) (a : Attribute) : Attributes :=
  ⟨as.list.filter (fun b => b.code != a.code) ++ [a]⟩

/-- The octets of the communities: the value of the first such attribute. -/
def communityOctets (as : Attributes) : Octets :=
  ((as.get? Attribute.communitiesCode).map Attribute.value).getD []

/-- The attributes with route targets appended to their communities. -/
def addTargets (as : Attributes) (ts : List RouteTarget) : Attributes :=
  as.insert (.communities (as.communityOctets ++ ts.flatMap fun t => t.toCommunity.octets))

/-- The route targets among the communities, in order. -/
def targets (as : Attributes) : List RouteTarget :=
  (Community.ofOctets as.communityOctets).filterMap RouteTarget.ofCommunity?

end Attributes

end RouteExchange
