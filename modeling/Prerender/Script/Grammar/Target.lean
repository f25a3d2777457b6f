import Prerender.Script.Tree

set_option autoImplicit false

namespace Prerender.Script.Target

def isSimple : Node → Bool
  | .mk (.reference _) _ _ => true
  | .mk .member _ _ => true
  | .mk .parenthesized _ [e] => isSimple e
  | .mk .ascription _ (e :: _) => isSimple e
  | .mk .nonNull _ [e] => isSimple e
  | .mk .assertion _ [_, e] => isSimple e
  | _ => false

mutual
def isTarget : Node → Bool
| .mk (.array comma) _ items => areItems comma items
| .mk (.object comma) _ properties => areItems comma properties
| .mk kind span parts => isSimple (.mk kind span parts)
-- A spread stands last and without a comma behind it. What has a value of its own was a target when
-- that was read.
def areItems (comma : Bool) : List Node → Bool
| [] => true
| .mk .absent _ _ :: items => areItems comma items
| .mk .spread _ [e] :: items => items.isEmpty && !comma && isTarget e
| .mk (.assignment "=") _ _ :: items => areItems comma items
| .mk .property _ [_, .mk (.assignment "=") _ _] :: items => areItems comma items
| .mk .property _ [_, value] :: items => isTarget value && areItems comma items
| item :: items => isTarget item && areItems comma items
end

mutual
def propertyStarts : Node → List Nat
| .mk (.array _) _ items => itemStarts items
| .mk (.object _) _ properties => itemStarts properties
| _ => []
def itemStarts : List Node → List Nat
| [] => []
| .mk .property span [_, value] :: items => span.start :: propertyStarts value ++ itemStarts items
| .mk .spread _ [e] :: items => propertyStarts e ++ itemStarts items
| item :: items => propertyStarts item ++ itemStarts items
end

end Prerender.Script.Target
