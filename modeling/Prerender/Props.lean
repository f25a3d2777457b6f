import Prerender.Style.Basic

set_option autoImplicit false

namespace Prerender

-- `values` are attribute candidates in source order. Of the children only a string is kept.
structure Props where
  values : List (String × Value)
  style : Option Style
  children : Option String

namespace Props

def empty : Props := ⟨[], none, none⟩

def add (props : Props) (key : String) (value : Value) : Props :=
  if key = "style" then { props with style := Style.ofValue? value }
  else if key = "children" then
    match value with
    | .string text => { props with children := some text }
    | _ => props
  else { props with values := props.values ++ [(key, value)] }

def ofValues (values : List (String × Value)) (children : Option String) : Props :=
  values.foldl (fun props (key, value) => props.add key value) ⟨[], none, children⟩

def get? (props : Props) (key : String) : Option Value := props.values.lookup key

end Props
end Prerender
