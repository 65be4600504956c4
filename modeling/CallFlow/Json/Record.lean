import CallFlow.Json.Document

/-! # Records

A record is written as an object or as a list of its members in declared order. By name,
unknown members are skipped and a member that may be absent counts as absent when it is
missing or null. By position, only members with a default may be left out, and only at the end.
-/
namespace CallFlow

structure Record where
  positional : Bool
  found : List (String × Document)

def Document.known? (d : Document) (names : List String) : Option Record :=
  match d.members?, d.items? with
  | some members, _ =>
    let found := members.filter fun m => names.contains m.1
    if (found.map (·.1)).Nodup then some ⟨false, found⟩ else none
  | _, some items => if items.length ≤ names.length then some ⟨true, names.zip items⟩ else none
  | none, none => none

namespace Record

def find? (r : Record) (name : String) : Option Document :=
  (r.found.find? (·.1 = name)).map (·.2)

variable {α : Type} (r : Record) (name : String) (read : Document → Option α)

def required : Option α := (r.find? name).bind read

def optional : Option (Option α) :=
  match r.find? name with
  | none => if r.positional then none else some none
  | some (.settled .null) => some none
  | some d => (read d).map some

def orElse (fallback : α) : Option α :=
  match r.find? name with
  | none => some fallback
  | some d => read d

def optionalOrMissing : Option (Option α) :=
  match r.find? name with
  | none => some none
  | some (.settled .null) => some none
  | some d => (read d).map some

end Record

namespace Document

def listOf? {α : Type} (read : Document → Option α) (d : Document) : Option (List α) :=
  d.items?.bind (·.mapM read)

/-- How a value is read: straight off its text, or as a part of a choice, which is held as a
whole until its tag has been found. Parts of what is held may have more forms. -/
inductive Reading
  | direct
  | held
deriving DecidableEq

/-- Whether nothing is said: null, or among held parts also an object with no members. -/
def isVoid (reading : Reading) : Document → Bool
  | .settled .null => true
  | d => reading = .held && d.members?.any List.isEmpty

/-- The name of a constant: a text, or an object with that one member, which is void. -/
def constant? (reading : Reading) (d : Document) : Option String :=
  match d.text?, d.members? with
  | some name, _ => some name
  | none, some [(name, contents)] => if contents.isVoid reading then some name else none
  | _, _ => none

/-- One of the given names, written as a text, or among held parts as its place in the list. -/
def label? (names : List String) (reading : Reading) (d : Document) : Option String :=
  match reading, d with
  | .held, .settled (.num (.int (.ofNat n))) => names[n]?
  | _, d => d.text?

/-- A choice whose tag is one of its own members, or the first item of a list. The whole must
be readable, skipped members included. -/
def tagged? (d : Document) (tag : String) : Option (String × Document) :=
  if d.json?.isNone then none
  else match d.members?, d.items? with
    | some members, _ =>
      match members.filter (·.1 = tag) with
      | [(_, name)] => name.text?.map (·, .record (members.filter (·.1 ≠ tag)))
      | _ => none
    | none, some (name :: items) => name.text?.map (·, .list items)
    | _, _ => none

end Document
end CallFlow
