/-!
URI templates. A template is split into literals and named placeholders in braces; a placeholder that
is never closed spoils the whole template. Matching runs from left to right without going back: a
placeholder takes all up to the first occurrence of the literal after it, up to the next slash if
another placeholder follows, and the whole rest at the end. Nothing is never bound.
-/

namespace ContextServer

/-- One piece of a template. -/
inductive Segment where
  | literal (text : List Char)
  | placeholder (name : List Char)
  deriving DecidableEq

/-- Names with the text bound to each, in the order of binding. -/
abbrev Bindings := List (String × String)

namespace Segment

/-- The pieces of a template. Every placeholder takes a character, so the length of the template is
fuel enough. -/
def split : Nat → List Char → Option (List Segment)
  | _, [] => some []
  | 0, _ => none
  | fuel + 1, cs =>
    let lead := cs.takeWhile (· ≠ '{')
    match cs.dropWhile (· ≠ '{') with
    | [] => some [literal lead]
    | _ :: rest =>
      let name := rest.takeWhile (· ≠ '}')
      match rest.dropWhile (· ≠ '}') with
      | [] => none
      | _ :: rest =>
        (split fuel rest).map fun segments =>
          (if lead.isEmpty then [] else [literal lead]) ++ placeholder name :: segments

/-- The pieces of a template's text; `none` if a placeholder is not closed. -/
def ofTemplate? (template : String) : Option (List Segment) :=
  split (template.toList.length + 1) template.toList

/-- The placeholder names, in order. -/
def names (segments : List Segment) : List String :=
  segments.filterMap fun
    | placeholder name => some (String.ofList name)
    | literal _ => none

end Segment

/-- What is left after a literal, if the text starts with it. -/
def afterLiteral? : List Char → List Char → Option (List Char)
  | [], cs => some cs
  | _ :: _, [] => none
  | l :: literal, c :: cs => if l = c then afterLiteral? literal cs else none

/-- How many characters come before the first occurrence of a literal. -/
def positionOf? (literal : List Char) : List Char → Option Nat
  | [] => if literal.isEmpty then some 0 else none
  | c :: cs =>
    if literal.isPrefixOf (c :: cs) then some 0 else (positionOf? literal cs).map (· + 1)

/-- Binds a name; a name that is bound already keeps its place and takes the new text. -/
def bindName (name value : String) : Bindings → Bindings
  | [] => [(name, value)]
  | binding :: rest =>
    if binding.1 = name then (name, value) :: rest else binding :: bindName name value rest

/-- How many characters a placeholder takes before the given pieces. -/
def boundLength? (next : List Segment) (cs : List Char) : Option Nat :=
  match next with
  | [] => some cs.length
  -- the first occurrence decides, also where only a later one would match
  | .literal text :: _ => positionOf? text cs
  | .placeholder _ :: _ => some (cs.takeWhile (· ≠ '/')).length

/-- Matches a text against pieces, adding to what is bound already. -/
def matchSegments (bound : Bindings) : List Segment → List Char → Option Bindings
  | [], [] => some bound
  | [], _ :: _ => none
  | .literal text :: rest, cs =>
    match afterLiteral? text cs with
    | some cs => matchSegments bound rest cs
    | none => none
  | .placeholder name :: rest, cs =>
    match boundLength? rest cs with
    | none | some 0 => none
    | some n =>
      matchSegments (bindName (String.ofList name) (String.ofList (cs.take n)) bound) rest (cs.drop n)

structure UriTemplate where
  text : String
  deriving DecidableEq

namespace UriTemplate

/-- The names of a template's placeholders; a spoilt template has none. -/
def placeholderNames (t : UriTemplate) : List String :=
  ((Segment.ofTemplate? t.text).map Segment.names).getD []

/-- The bindings under which a URI is an instance of the template. -/
def matchUri? (t : UriTemplate) (uri : String) : Option Bindings :=
  (Segment.ofTemplate? t.text).bind fun segments => matchSegments [] segments uri.toList

end UriTemplate

end ContextServer
