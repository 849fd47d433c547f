import MisuseSlice.Text.Basic
import MisuseSlice.Text.Held

/-!
What a document says, before it is written: scalars, lists and records. A record keeps the order of its
entries.
-/
namespace MisuseSlice.Document

/-- What is to be written. -/
inductive Content where
  | null
  | truth (b : Bool)
  | integer (n : Int)
  | text (s : String)
  /-- A text that is no UTF-8. -/
  | binary (bs : Text.Bytes)
  | list (items : List Content)
  | record (entries : List (String × Content))
  deriving Inhabited

namespace Content

/-- A text that is given by its bytes. -/
def ofBytes (bs : Text.Bytes) : Content :=
  match Text.ofBytes? bs with
  | some s => .text s
  | none => .binary bs

/-- A text that is given by the text that holds its bytes. -/
def ofHeld (s : String) : Content := ofBytes (Text.bytesHeld s)

/-- An entry that is left out where its text is empty. -/
def optionalText (key value : String) : List (String × Content) :=
  if value == "" then [] else [(key, .text value)]

/-- An entry that is left out where it is false. -/
def optionalTruth (key : String) (value : Bool) : List (String × Content) :=
  if value then [(key, .truth true)] else []

/-- An entry that is left out where it is zero. -/
def optionalInteger (key : String) (value : Int) : List (String × Content) :=
  if value == 0 then [] else [(key, .integer value)]

/-- An entry that is left out where the list is empty. -/
def optionalList (key : String) (items : List Content) : List (String × Content) :=
  if items.isEmpty then [] else [(key, .list items)]

end Content

end MisuseSlice.Document
