import CallFlow.Json.Token

/-! # Documents

A document is JSON on its way from text to a typed record. Lists and objects keep every
member as written, duplicates included, because what is an error depends on the type that
reads them: a record refuses a repeated member that it knows and skips the members that it
does not know, a free value keeps the last of equal keys. A part that no reader may use is
`unreadable`; it does no harm where it is skipped.
-/
namespace CallFlow

inductive Document
  | settled (v : Json)
  | unreadable
  | list (items : List Document)
  | record (members : List (String × Document))
deriving Inhabited

namespace Document

/-- Lists and objects nest at most this deep. -/
def maxDepth : Nat := 127

/-- A list or an object that is still open, newest member first. An object whose key has no
value is not sound. -/
inductive Frame
  | list (items : List Document)
  | record (members : List (String × Document)) (sound : Bool) (key : Option String)

inductive Expected
  | value
  | valueOrClose
  | key
  | keyOrClose
  | colon
  | separator
  | nothing
deriving DecidableEq

structure Reader where
  frames : List Frame
  expected : Expected
  result : Document

def Reader.put (d : Document) : List Frame → Reader
  | [] => ⟨[], .nothing, d⟩
  | .list items :: rest => ⟨.list (d :: items) :: rest, .separator, .unreadable⟩
  | .record members sound (some key) :: rest =>
    ⟨.record ((key, d) :: members) sound none :: rest, .separator, .unreadable⟩
  | .record members _ none :: rest => ⟨.record members false none :: rest, .separator, .unreadable⟩

def Frame.close (depth : Nat) : Frame → Document
  | .list items => if depth ≤ maxDepth then .list items.reverse else .unreadable
  | .record members sound _ =>
    if depth ≤ maxDepth && sound then .record members.reverse else .unreadable

def ofOption : Option Json → Document
  | some v => .settled v
  | none => .unreadable

/-- Reads one token; nothing when no document goes on so. -/
def Reader.step (r : Reader) (t : Token) : Option Reader :=
  let wantsValue := r.expected = .value || r.expected = .valueOrClose
  match t, r.frames with
  | .listOpen, frames =>
    if wantsValue then some ⟨.list [] :: frames, .valueOrClose, .unreadable⟩ else none
  | .recordOpen, frames =>
    if wantsValue then some ⟨.record [] true none :: frames, .keyOrClose, .unreadable⟩ else none
  | .scalar v, frames => if wantsValue then some (put (ofOption v) frames) else none
  | .text s, frames =>
    if wantsValue then some (put (ofOption (s.map .str)) frames)
    else if r.expected = .key || r.expected = .keyOrClose then
      match frames with
      | .record members sound _ :: rest =>
        some ⟨.record members (sound && s.isSome) s :: rest, .colon, .unreadable⟩
      | _ => none
    else none
  | .colon, frames => if r.expected = .colon then some ⟨frames, .value, .unreadable⟩ else none
  | .comma, .list items :: rest =>
    if r.expected = .separator then some ⟨.list items :: rest, .value, .unreadable⟩ else none
  | .comma, .record members sound key :: rest =>
    if r.expected = .separator then some ⟨.record members sound key :: rest, .key, .unreadable⟩
    else none
  | .listClose, .list items :: rest =>
    if r.expected = .separator || r.expected = .valueOrClose then
      some (put (Frame.close (rest.length + 1) (.list items)) rest)
    else none
  | .recordClose, .record members sound key :: rest =>
    if r.expected = .separator || r.expected = .keyOrClose then
      some (put (Frame.close (rest.length + 1) (.record members sound key)) rest)
    else none
  | _, [] => none
  | .listClose, .record .. :: _ => none
  | .recordClose, .list .. :: _ => none

/-- Reads a whole text: one value, with white space around it at most. -/
def read? (text : String) : Option Document := do
  let tokens ← Token.scan text.toList
  let r ← tokens.foldlM Reader.step ⟨[], .value, .unreadable⟩
  if r.expected = .nothing then some r.result else none

mutual

/-- The free value of a document: members in key order, the last of equal keys. -/
def json? : Document → Option Json
  | .settled v => some v
  | .unreadable => none
  | .list items => (jsonItems? items).map .arr
  | .record members => (jsonMembers? members).map fun ms => .obj (Table.ofList ms).entries

def jsonItems? : List Document → Option (List Json)
  | [] => some []
  | d :: rest => do
    let v ← json? d
    let vs ← jsonItems? rest
    return v :: vs

def jsonMembers? : List (String × Document) → Option (List (String × Json))
  | [] => some []
  | (key, d) :: rest => do
    let v ← json? d
    let vs ← jsonMembers? rest
    return (key, v) :: vs

end

def members? : Document → Option (List (String × Document))
  | .record members => some members
  | .settled (.obj members) => some (members.map fun m => (m.1, .settled m.2))
  | _ => none

def items? : Document → Option (List Document)
  | .list items => some items
  | .settled (.arr items) => some (items.map .settled)
  | _ => none

def text? : Document → Option String
  | .settled (.str s) => some s
  | _ => none

def bool? : Document → Option Bool
  | .settled (.bool b) => some b
  | _ => none

def int64? : Document → Option Int
  | .settled (.num (.int n)) => if Text.fitsInt64 n then some n else none
  | _ => none

def uint32? : Document → Option UInt32
  | .settled (.num (.int n)) =>
    if 0 ≤ n && n < Int.pow 2 32 then some (UInt32.ofNat n.toNat) else none
  | _ => none

def fields? (d : Document) : Option Fields :=
  match json? d with
  | some (.obj members) => some (Table.ofList members)
  | _ => none

end Document

def Json.read? (text : String) : Option Json := (Document.read? text).bind Document.json?

end CallFlow
