import Mathlib.Data.List.Basic
import Mathlib.Tactic.Common

/-! Trees of elements, as `xml.etree.ElementTree` has them. -/
namespace KenkuiServer.Data

/-- The tag of an element and its attributes: a `dict`, in its order. -/
structure Tagged where
  tag : String
  attrib : List (String × String)
  deriving DecidableEq, Repr

/-- `element.get(name)`. -/
def Tagged.get (e : Tagged) (name : String) : Option String := e.attrib.lookup name

/-- `element.set(name, value)` of an attribute that is there. -/
def Tagged.set (e : Tagged) (name value : String) : Tagged :=
  { e with attrib := e.attrib.map fun entry => if entry.1 = name then (name, value) else entry }

/-- `tag.rsplit("}", 1)[-1]`. -/
def Tagged.localName (e : Tagged) : String := .ofList (e.tag.toList.reverse.takeWhile (· ≠ '}')).reverse

inductive Element
  | node (head : Tagged) (text tail : Option String) (children : List Element)

namespace Element

def head : Element → Tagged
  | node head _ _ _ => head

def children : Element → List Element
  | node _ _ _ children => children

def withHead (f : Tagged → Tagged) : Element → Element
  | node head text tail children => node (f head) text tail children

def withChildren (f : List Element → List Element) : Element → Element
  | node head text tail children => node head text tail (f children)

mutual

/-- `element.iter()`: the elements in the order of the document. -/
def iter : Element → List Tagged
  | node head _ _ children => head :: iterAll children

def iterAll : List Element → List Tagged
  | [] => []
  | e :: rest => iter e ++ iterAll rest

end

/-- The first child with the tag. -/
def find (tag : String) (e : Element) : Option Element := e.children.find? (·.head.tag = tag)

/-- A change of the first child with the tag, in its place. -/
def updateFirst (tag : String) (f : Element → Element) : List Element → List Element
  | [] => []
  | e :: rest => if e.head.tag = tag then f e :: rest else e :: updateFirst tag f rest

def update (tag : String) (f : Element → Element) (e : Element) :
    Element := e.withChildren (updateFirst tag f)

/-- The children up to the first with the tag, which is the last of them. -/
def through (tag : String) : List Element → List Element
  | [] => []
  | e :: rest => if e.head.tag = tag then [e] else e :: through tag rest

/-- The elements of a document from its start to the end of the first child with the tag. -/
def iterThrough (tag : String) (e : Element) : List Tagged := e.head :: iterAll (through tag e.children)

/-- `SubElement(parent, tag, attrib)`. -/
def subElement (child : Tagged) : Element → Element := withChildren (· ++ [node child none none []])

section
variable {tag : String} {f : Element → Element}

theorem iterAll_append (xs ys : List Element) : iterAll (xs ++ ys) = iterAll xs ++ iterAll ys := by
  induction xs with
  | nil => rfl
  | cons e xs ih => simp only [List.cons_append, iterAll, ih, List.append_assoc]

theorem iter_subElement (child : Tagged) (e : Element) : iter (subElement child e) = iter e ++ [child] := by
  obtain ⟨head, text, tail, children⟩ := e
  simp only [subElement, withChildren, iter, iterAll_append, iterAll, List.append_nil, List.cons_append]

theorem updateFirst_split {children : List Element} {found : Element}
    (h : children.find? (·.head.tag = tag) = some found) :
    ∃ before rest, children = before ++ found :: rest ∧
      ∀ g, updateFirst tag g children = before ++ g found :: rest := by
  induction children with
  | nil => cases h
  | cons e children ih =>
    rw [List.find?_cons] at h
    split at h
    · rename_i htag
      cases h
      refine ⟨[], children, rfl, fun g => ?_⟩
      exact if_pos (by simpa using htag)
    · rename_i htag
      obtain ⟨before, rest, rfl, hupdate⟩ := ih h
      refine ⟨e :: before, rest, rfl, fun g => ?_⟩
      have hne : e.head.tag ≠ tag := by simpa using htag
      simp only [updateFirst, if_neg hne, hupdate g, List.cons_append]

theorem updateFirst_set {children : List Element} {found : Element}
    (h : children.find? (·.head.tag = tag) = some found) :
    ∃ i, children[i]? = some found ∧ ∀ g, updateFirst tag g children = children.set i (g found) := by
  obtain ⟨before, rest, rfl, hupdate⟩ := updateFirst_split h
  refine ⟨before.length, by simp, fun g => ?_⟩
  rw [hupdate g]
  simp

theorem find?_updateFirst {other : String} (hne : other ≠ tag) (hf : ∀ e, (f e).head.tag = e.head.tag)
    (children : List Element) :
    (updateFirst tag f children).find? (·.head.tag = other) = children.find? (·.head.tag = other) := by
  induction children with
  | nil => rfl
  | cons e children ih =>
    unfold updateFirst
    split_ifs with htag
    · have hother : e.head.tag ≠ other := by
        rw [htag]
        exact hne.symm
      have hchanged : (f e).head.tag ≠ other := by
        rw [hf e]
        exact hother
      rw [List.find?_cons_of_neg (by simpa using hchanged), List.find?_cons_of_neg (by simpa using hother)]
    · rw [List.find?_cons, List.find?_cons, ih]

theorem find?_iter_unseen {p : Tagged → Bool} {child : Tagged} (hchild : p child = false) (e : Element) :
    (iter (update tag (subElement child) e)).find? p = (iter e).find? p := by
  obtain ⟨head, text, tail, children⟩ := e
  have hchildren : (iterAll (updateFirst tag (subElement child) children)).find? p =
      (iterAll children).find? p := by
    induction children with
    | nil => rfl
    | cons e children ih =>
      unfold updateFirst
      split_ifs with htag
      · simp only [iterAll, iter_subElement, List.find?_append, List.find?_cons, hchild, List.find?_nil,
          Option.or_none]
      · simp only [iterAll, List.find?_append, ih]
  simp only [update, withChildren, iter, List.find?_cons, hchildren]

theorem find?_iter_seen {p : Tagged → Bool} {child : Tagged} (hchild : p child = true) {e found : Element}
    (hfound : e.find tag = some found) :
    (iter (update tag (subElement child) e)).find? p = some (((iterThrough tag e).find? p).getD child) := by
  obtain ⟨head, text, tail, children⟩ := e
  have hchildren : ∀ children : List Element, children.find? (·.head.tag = tag) = some found →
      (iterAll (updateFirst tag (subElement child) children)).find? p =
        some (((iterAll (through tag children)).find? p).getD child) := by
    intro children
    induction children with
    | nil =>
      intro h
      cases h
    | cons e children ih =>
      intro h
      unfold updateFirst through
      by_cases htag : e.head.tag = tag
      · rw [if_pos htag, if_pos htag]
        simp only [iterAll, iter_subElement, List.find?_append, List.find?_cons, hchild, List.append_nil]
        cases (iter e).find? p with
        | none => rfl
        | some x => rfl
      · rw [List.find?_cons_of_neg (by simpa using htag)] at h
        rw [if_neg htag, if_neg htag]
        simp only [iterAll, List.find?_append, ih h]
        cases (iter e).find? p with
        | none => rfl
        | some x => rfl
  simp only [update, withChildren, iter, iterThrough, Element.head, Element.children, List.find?_cons,
    hchildren children hfound]
  split
  · rfl
  · rfl

theorem mem_iter_appended {child x : Tagged} {e found : Element} (hfound : e.find tag = some found) :
    x ∈ iter (update tag (subElement child) e) ↔ x ∈ iter e ∨ x = child := by
  obtain ⟨head, text, tail, children⟩ := e
  have hchildren : ∀ children : List Element, children.find? (·.head.tag = tag) = some found →
      (x ∈ iterAll (updateFirst tag (subElement child) children) ↔ x ∈ iterAll children ∨ x = child) := by
    intro children
    induction children with
    | nil =>
      intro h
      cases h
    | cons e children ih =>
      intro h
      unfold updateFirst
      by_cases htag : e.head.tag = tag
      · rw [if_pos htag]
        simp only [iterAll, iter_subElement, List.mem_append, List.mem_singleton]
        tauto
      · rw [List.find?_cons_of_neg (by simpa using htag)] at h
        rw [if_neg htag]
        simp only [iterAll, List.mem_append, ih h]
        tauto
  simp only [update, withChildren, iter, List.mem_cons, hchildren children hfound]
  tauto

theorem iterThrough_subset {x : Tagged} {e : Element} (h : x ∈ iterThrough tag e) : x ∈ iter e := by
  obtain ⟨head, text, tail, children⟩ := e
  have hchildren : ∀ children : List Element, x ∈ iterAll (through tag children) → x ∈ iterAll children := by
    intro children
    induction children with
    | nil => exact id
    | cons e children ih =>
      unfold through
      split_ifs with htag
      · intro hx
        simp only [iterAll, List.append_nil, List.mem_append] at hx ⊢
        exact .inl hx
      · intro hx
        simp only [iterAll, List.mem_append] at hx ⊢
        exact hx.imp id ih
  simp only [iterThrough, Element.head, Element.children, iter, List.mem_cons] at h ⊢
  exact h.imp id (hchildren children)

theorem update_comp {g : Element → Element} (hg : ∀ e, (g e).head.tag = e.head.tag) (e : Element) :
    update tag f (update tag g e) = update tag (fun e => f (g e)) e := by
  obtain ⟨head, text, tail, children⟩ := e
  have hchildren : updateFirst tag f (updateFirst tag g children) =
      updateFirst tag (fun e => f (g e)) children := by
    induction children with
    | nil => rfl
    | cons e children ih =>
      by_cases htag : e.head.tag = tag
      · have hkept : (g e).head.tag = tag := (hg e).trans htag
        simp only [updateFirst, if_pos htag, if_pos hkept]
      · simp only [updateFirst, if_neg htag, ih]
  simp only [update, withChildren, hchildren]

theorem update_comm {other : String} {g : Element → Element} (hne : other ≠ tag)
    (hf : ∀ e, (f e).head.tag = e.head.tag) (hg : ∀ e, (g e).head.tag = e.head.tag) (e : Element) :
    update tag f (update other g e) = update other g (update tag f e) := by
  obtain ⟨head, text, tail, children⟩ := e
  have hchildren : updateFirst tag f (updateFirst other g children) = updateFirst other g
      (updateFirst tag f children) := by
    induction children with
    | nil => rfl
    | cons e children ih =>
      by_cases htag : e.head.tag = tag
      · have hother : e.head.tag ≠ other := fun h => hne (h.symm.trans htag)
        have hkept : (f e).head.tag ≠ other := by
          rw [hf e]
          exact hother
        simp only [updateFirst, if_pos htag, if_neg hother, if_neg hkept]
      · by_cases hother : e.head.tag = other
        · have hkept : (g e).head.tag ≠ tag := by
            rw [hg e]
            exact htag
          simp only [updateFirst, if_neg htag, if_pos hother, if_neg hkept]
        · simp only [updateFirst, if_neg htag, if_neg hother, ih]
  simp only [update, withChildren, hchildren]

theorem find_update {e found : Element} (hf : ∀ e, (f e).head.tag = e.head.tag)
    (h : e.find tag = some found) :
    (update tag f e).find tag = some (f found) := by
  obtain ⟨head, text, tail, children⟩ := e
  have hchildren : ∀ children : List Element, children.find? (·.head.tag = tag) = some found →
      (updateFirst tag f children).find? (·.head.tag = tag) = some (f found) := by
    intro children
    induction children with
    | nil =>
      intro h
      cases h
    | cons e children ih =>
      intro h
      unfold updateFirst
      by_cases htag : e.head.tag = tag
      · rw [List.find?_cons_of_pos (by simpa using htag)] at h
        have hkept : (f e).head.tag = tag := (hf e).trans htag
        rw [if_pos htag, List.find?_cons_of_pos (by simpa using hkept), Option.some.inj h]
      · rw [List.find?_cons_of_neg (by simpa using htag)] at h
        rw [if_neg htag, List.find?_cons_of_neg (by simpa using htag), ih h]
  exact hchildren children h

theorem find_update_of_ne {other : String} (hne : other ≠ tag) (hf : ∀ e, (f e).head.tag = e.head.tag)
    (e : Element) :
    (update tag f e).find other = e.find other := by
  obtain ⟨head, text, tail, children⟩ := e
  exact find?_updateFirst hne hf children

theorem mem_iter_update {R : Tagged → Tagged → Prop} (hrefl : ∀ x, R x x)
    (hf : ∀ e x, x ∈ iter (f e) → ∃ y ∈ iter e, R x y) {e : Element} {x : Tagged}
    (h : x ∈ iter (update tag f e)) :
    ∃ y ∈ iter e, R x y := by
  obtain ⟨head, text, tail, children⟩ := e
  have hchildren : ∀ children : List Element, x ∈ iterAll (updateFirst tag f children) →
      ∃ y ∈ iterAll children, R x y := by
    intro children
    induction children with
    | nil =>
      intro hx
      cases hx
    | cons e children ih =>
      unfold updateFirst
      split_ifs with htag
      · simp only [iterAll, List.mem_append]
        rintro (hx | hx)
        · obtain ⟨y, hy, hrelated⟩ := hf e x hx
          exact ⟨y, .inl hy, hrelated⟩
        · exact ⟨x, .inr hx, hrefl x⟩
      · simp only [iterAll, List.mem_append]
        rintro (hx | hx)
        · exact ⟨x, .inl hx, hrefl x⟩
        · obtain ⟨y, hy, hrelated⟩ := ih hx
          exact ⟨y, .inr hy, hrelated⟩
  simp only [update, withChildren, iter, List.mem_cons] at h ⊢
  rcases h with rfl | hx
  · exact ⟨x, .inl rfl, hrefl x⟩
  · obtain ⟨y, hy, hrelated⟩ := hchildren children hx
    exact ⟨y, .inr hy, hrelated⟩

theorem mem_iterAll {x : Tagged} {children : List Element} : x ∈ iterAll children ↔
    ∃ e ∈ children, x ∈ iter e := by
  induction children with
  | nil => simp [iterAll]
  | cons e children ih => simp [iterAll, ih]

end

end Element

end KenkuiServer.Data
