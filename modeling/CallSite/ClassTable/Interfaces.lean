import CallSite.ClassTable.Standard

/-!
# Implemented interfaces

The interfaces of a class are searched depth first along its superclasses. Only interfaces are
remembered, so a circle of plain classes in the `interfaces` lists is never left; the search then
has no result.
-/

namespace CallSite

namespace ClassTable

/-- Add to `found` the interfaces met from `c` on, in the order of discovery. There is no result
when the search is still going after `depth` links. -/
def visitInterfaces (t : ClassTable) : Nat → List ClassId → ClassId → Option (List ClassId)
  | 0, _, _ => none
  | depth + 1, found, c =>
    let found := if (t.info c).isInterface && !found.contains c then found ++ [c] else found
    (t.info c).interfaces.foldlM
      (fun found i => if found.contains i then some found else visitInterfaces t depth found i)
      found

/-- More links than a search that ends can follow: between two newly found interfaces it meets no
class twice. -/
def interfaceDepth (t : ClassTable) : Nat := (t.size + 1) * (t.size + 1)

/-- Every interface that `c` implements, in the order of discovery; none when the search does not
end. -/
def interfaceSearch (t : ClassTable) (c : ClassId) : Option (List ClassId) :=
  (t.superclasses c).foldlM (fun found k => t.visitInterfaces t.interfaceDepth found k) []

/-- Every interface that `c` implements, directly, through superclasses or through other
interfaces. An interface implements itself. -/
def allInterfaces (t : ClassTable) (c : ClassId) : List ClassId := (t.interfaceSearch c).getD []

def implements (t : ClassTable) (c interface : ClassId) : Bool :=
  (t.allInterfaces c).contains interface

/-- The type is of class `c`, or of a class that derives from or implements `c`. -/
def hasCapability (t : ClassTable) (ty : Ty) (c : ClassId) : Bool :=
  match ty.class? with
  | some k => t.derivesFrom k c || t.implements k c
  | none => false

end ClassTable

end CallSite
