import ModuleDocs.Text.Basic

/-!
# Text as bytes

Files hold bytes; a file is text when its bytes are well-formed UTF-8. A reader
that goes line by line (`decodedLines`) gets the lines before the first one that
is not.
-/

namespace ModuleDocs

namespace Text

/-- The UTF-8 encoding. -/
def encode (s : Text) : ByteArray := (String.ofList s).toUTF8

/-- The text that well-formed bytes encode. -/
def decode? (b : ByteArray) : Option Text := b.utf8Decode?.map Array.toList

/-- Decoding undoes encoding. -/
@[simp] theorem decode?_encode (s : Text) : decode? (encode s) = some s := by
  simp [decode?, encode, String.toByteArray_ofList]

/-- The pieces of a list between separators. -/
def piecesBetween (sep : UInt8) : List UInt8 → List (List UInt8)
  | [] => [[]]
  | b :: r =>
    if b = sep then [] :: piecesBetween sep r
    else match piecesBetween sep r with
      | p :: ps => (b :: p) :: ps
      | [] => [[b]]

/-- The longest run of decodable pieces at the front. -/
def decodePrefix : List (List UInt8) → List Text
  | [] => []
  | p :: ps =>
    match decode? ⟨p.toArray⟩ with
    | some t => t :: decodePrefix ps
    | none => []

/-- The lines of a file up to the first that is not text. A line's end is `\n`
or `\r\n`; what follows the last line end is a line unless it is empty. -/
def decodedLines (b : ByteArray) : List Text :=
  let pieces := piecesBetween 10 b.toList
  let ended := pieces.dropLast.map fun p => if p.getLast? = some 13 then p.dropLast else p
  match pieces.getLast? with
  | some (x :: r) => decodePrefix (ended ++ [x :: r])
  | _ => decodePrefix ended

end Text

end ModuleDocs
