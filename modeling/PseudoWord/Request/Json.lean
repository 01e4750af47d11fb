import PseudoWord.Json.Basic
import PseudoWord.Request.Basic

namespace PseudoWord

def StopBias.name : StopBias → String
  | .origin => "origin"
  | .current => "current"

def StopBias.ofName? (name : String) : Option StopBias :=
  if name = "origin" then some .origin else if name = "current" then some .current else none

/-- A bias is its name, or an object with the name as its only key and null under it. -/
def StopBias.ofJson? : Json → Option StopBias
  | .text (some name) => ofName? name
  | .object [(some name, .null)] => ofName? name
  | _ => none

/-- A 64-bit number written as plain digits. -/
def Json.word? : Json → Option UInt64
  | .natural value => if value < UInt64.size then some value.toUInt64 else none
  | _ => none

/-- Requests in which fields may still be missing. -/
structure PartialRequest where
  count : Option UInt64
  minLength : Option UInt64
  maxLength : Option UInt64
  maxTries : Option UInt64
  maxSteps : Option UInt64
  stopBias : Option StopBias

namespace PartialRequest

def empty : PartialRequest := ⟨none, none, none, none, none, none⟩

/-- The request, when the fields that have no default are there. -/
def complete? (p : PartialRequest) : Option Request := do
  return ⟨← p.count, ← p.minLength, ← p.maxLength, p.maxTries.getD Request.defaultTries,
    p.maxSteps.getD Request.defaultSteps, p.stopBias.getD .origin⟩

/-- The value of a field, unless the field is there already or the value does not fit it. -/
def fresh? {α : Type} (field : Option α) (value : Option α) : Option (Option α) :=
  if field.isSome then none else value.map some

/-- Takes in one field of an object. Unknown fields say nothing, but their names have to be texts. -/
def addField (p : PartialRequest) (field : Option String × Json) : Option PartialRequest := do
  let value := field.2
  match ← field.1 with
  | "count" => return { p with count := ← fresh? p.count value.word? }
  | "min_length" => return { p with minLength := ← fresh? p.minLength value.word? }
  | "max_length" => return { p with maxLength := ← fresh? p.maxLength value.word? }
  | "max_tries" => return { p with maxTries := ← fresh? p.maxTries value.word? }
  | "max_steps" => return { p with maxSteps := ← fresh? p.maxSteps value.word? }
  | "stop_bias" => return { p with stopBias := ← fresh? p.stopBias (StopBias.ofJson? value) }
  | _ => return p

/-- Takes the fields in their order; those at the end may be left out. -/
def ofItems? : List Json → Option PartialRequest
  | items =>
    if items.length ≤ 6 then do
      let word? (i : Nat) : Option (Option UInt64) :=
        match items[i]? with
        | some item => item.word?.map some
        | none => some none
      let bias ← match items[5]? with
        | some item => (StopBias.ofJson? item).map some
        | none => some none
      return ⟨← word? 0, ← word? 1, ← word? 2, ← word? 3, ← word? 4, bias⟩
    else none

end PartialRequest

namespace Request

/-- Reads a request from an object, or from an array that holds its fields in their order. -/
def ofJson? (text : String) : Option Request := do
  match ← Json.parse? text.toList with
  | .object fields => (← fields.foldlM PartialRequest.addField .empty).complete?
  | .array items => (← PartialRequest.ofItems? items).complete?
  | _ => none

/-- The request as a JSON object without spaces, all fields in their order. -/
def toJson (r : Request) : String :=
  s!"\x7b\"count\":{r.count},\"min_length\":{r.minLength},\"max_length\":{r.maxLength}," ++
    s!"\"max_tries\":{r.maxTries},\"max_steps\":{r.maxSteps}," ++
    s!"\"stop_bias\":\"{r.stopBias.name}\"\x7d"

end Request

end PseudoWord
