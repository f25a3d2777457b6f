import Prerender.Element.Html

set_option autoImplicit false

namespace Prerender.Element

theorem html_eq (tag : Tag) (attrs : List Attr) (children : List Child) :
    (⟨tag, attrs, children⟩ : Element).html =
      "<" ++ tag.name ++ String.join (attrs.map Attr.html) ++ ">" ++
        (innerHtml? attrs).getD (Child.htmlAll children) ++ "</" ++ tag.name ++ ">" := by
  rw [html, toChild, Child.html]

theorem Child.htmlAll_append (xs ys : List Child) : htmlAll (xs ++ ys) = htmlAll xs ++ htmlAll ys := by
  induction xs with
  | nil => rw [List.nil_append, htmlAll, String.empty_append]
  | cons x xs ih => rw [List.cons_append, htmlAll, htmlAll, ih, String.append_assoc]

def Attr.isNamed : Attr → Bool
  | .named .. => true
  | .spread _ => false

mutual
-- What is left of a child and all below it without spreads and without expressions as children.
def Child.settled : Child → List Child
  | .element tag attrs children => [.element tag (attrs.filter Attr.isNamed) (Child.settledAll children)]
  | .expression _ => []
  | .text s => [.text s]
def Child.settledAll : List Child → List Child
  | [] => []
  | child :: children => child.settled ++ Child.settledAll children
end

theorem Child.settledAll_append (xs ys : List Child) :
    settledAll (xs ++ ys) = settledAll xs ++ settledAll ys := by
  induction xs with
  | nil => rfl
  | cons x xs ih => rw [List.cons_append, settledAll, settledAll, ih, List.append_assoc]

theorem join_named (attrs : List Attr) :
    String.join ((attrs.filter Attr.isNamed).map Attr.html) = String.join (attrs.map Attr.html) := by
  induction attrs with
  | nil => rfl
  | cons a attrs ih =>
      cases a with
      | named name value =>
          rw [List.filter_cons_of_pos rfl, List.map_cons, List.map_cons, String.join_cons, String.join_cons, ih]
      | spread source =>
          have unwritten : (Attr.spread source).html = "" := rfl
          rw [List.filter_cons_of_neg Bool.false_ne_true, List.map_cons, String.join_cons, unwritten, String.empty_append, ih]

theorem innerHtml?_named (attrs : List Attr) : innerHtml? (attrs.filter Attr.isNamed) = innerHtml? attrs := by
  unfold innerHtml?
  generalize (none : Option String) = found
  induction attrs generalizing found with
  | nil => rfl
  | cons a attrs ih =>
      cases a with
      | named name value => exact ih _
      | spread source => exact ih found

mutual
theorem Child.htmlAll_settled : ∀ child : Child, htmlAll child.settled = child.html
  | .element tag attrs children => by
      rw [settled, htmlAll, htmlAll, Child.html, Child.html, join_named, innerHtml?_named,
        Child.htmlAll_settledAll children, String.append_empty]
  | .expression _ => rfl
  | .text s => String.append_empty
theorem Child.htmlAll_settledAll : ∀ children : List Child, htmlAll (settledAll children) = htmlAll children
  | [] => rfl
  | child :: children => by
      rw [settledAll, htmlAll_append, Child.htmlAll_settled child, Child.htmlAll_settledAll children, htmlAll]
end

theorem html_of_settled {e f : Element} (same : e.toChild.settled = f.toChild.settled) : e.html = f.html := by
  rw [html, html, ← Child.htmlAll_settled, same, Child.htmlAll_settled]

end Prerender.Element
