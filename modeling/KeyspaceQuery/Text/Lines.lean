/-! Byte streams cut into lines, the text of a line, and lines put together. -/

namespace KeyspaceQuery.Text

/-- The lines of a stream, each with the line feed that ends it. What follows the last line feed is
a line too if there is anything. -/
def lines : List UInt8 → List (List UInt8)
  | [] => []
  | b :: rest =>
    if b = 10 then [b] :: lines rest
    else match lines rest with
      | [] => [[b]]
      | line :: more => (b :: line) :: more

/-- The text that the bytes encode in UTF-8, if they do. -/
def decode? (bytes : List UInt8) : Option String := String.fromUTF8? ⟨bytes.toArray⟩

/-- What is said of bytes that are no text. -/
def notUtf8 : String := "stream did not contain valid UTF-8"

/-- The lines one after the other, each with a line feed behind it. -/
def unlines : List String → String
  | [] => ""
  | line :: rest => line ++ "\n" ++ unlines rest

end KeyspaceQuery.Text
