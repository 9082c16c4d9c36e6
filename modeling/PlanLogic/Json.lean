import PlanLogic.Fact

/-!
# PlanLogic.Json

Formulas, facts, objects and tasks as JSON objects. A formula is its word under `word` and its
children under `args`, which is left out when there are none; a fact is written as its formula, an
object under `name` and `type`, a task under `name` and `parameters`.

Reading ignores other members and takes a missing `args` for an empty one. Any other missing member,
`null`, or a value of another kind is refused.

* `Json`: the values. Numbers are decimals `mantissa / 10 ^ exponent`; the members of an object keep
  their order, and a look-up finds the first of a name.
* `Formula.toJson`, `Formula.ofJson?` and their companions: writing and reading.
-/

namespace PlanLogic

inductive Json where
  | null
  | bool (b : Bool)
  | num (mantissa : Int) (exponent : Nat)
  | str (s : String)
  | arr (items : List Json)
  | obj (members : List (String × Json))
  deriving Repr, Inhabited

namespace Json

def member? (key : String) : List (String × Json) → Option Json
  | [] => none
  | (k, v) :: rest => if k = key then some v else member? key rest

def str? : Json → Option String
  | str s => some s
  | _ => none

def strs? : Json → Option (List String)
  | arr items => items.mapM str?
  | _ => none

end Json

/-! ## Formulas -/

namespace Formula

mutual

def toJson : Formula → Json
  | ⟨w, []⟩ => .obj [("word", .str w)]
  | ⟨w, a :: as⟩ => .obj [("word", .str w), ("args", .arr (toJson a :: toJsonAll as))]

def toJsonAll : List Formula → List Json
  | [] => []
  | a :: as => toJson a :: toJsonAll as

end

mutual

def ofJson? : Json → Option Formula
  | .obj members =>
    match (Json.member? "word" members).bind Json.str?, argsOfMembers? members with
    | some w, some args => some ⟨w, args⟩
    | _, _ => none
  | _ => none

/-- The children, from the first member of their name. -/
def argsOfMembers? : List (String × Json) → Option (List Formula)
  | [] => some []
  | (k, v) :: rest => if k = "args" then argsOfJson? v else argsOfMembers? rest

def argsOfJson? : Json → Option (List Formula)
  | .arr items => ofJsonAll? items
  | _ => none

def ofJsonAll? : List Json → Option (List Formula)
  | [] => some []
  | j :: js =>
    match ofJson? j, ofJsonAll? js with
    | some f, some fs => some (f :: fs)
    | _, _ => none

end

end Formula

/-! ## Facts, objects and tasks -/

namespace Fact

def toJson (fact : Fact) : Json := fact.formula.toJson

def ofJson? (j : Json) : Option Fact := (Formula.ofJson? j).map Fact.mk

end Fact

namespace Object

def toJson (o : Object) : Json := .obj [("name", .str o.name), ("type", .str o.type)]

def ofJson? : Json → Option Object
  | .obj members =>
    match (Json.member? "name" members).bind Json.str?,
      (Json.member? "type" members).bind Json.str? with
    | some name, some type => some ⟨name, type⟩
    | _, _ => none
  | _ => none

end Object

namespace Task

def toJson (task : Task) : Json :=
  .obj [("name", .str task.name), ("parameters", .arr (task.parameters.map Json.str))]

def ofJson? : Json → Option Task
  | .obj members =>
    match (Json.member? "name" members).bind Json.str?,
      (Json.member? "parameters" members).bind Json.strs? with
    | some name, some parameters => some ⟨name, parameters⟩
    | _, _ => none
  | _ => none

end Task

end PlanLogic
