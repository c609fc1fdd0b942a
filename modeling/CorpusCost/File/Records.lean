import CorpusCost.Text.Bytes

/-!
# Delimited records

Lines of fields with a `;` between any two. A line ends with a carriage return, a line feed, or
both; empty lines hold no record, and neither do lines that begin with `#`. Nothing is quoted. A
record is its list of fields, as bytes; whether they are text is for the reader of the fields to
say.
-/

set_option autoImplicit false

namespace CorpusCost.Records

/-- `;` -/
def delimiter : UInt8 := 0x3B

/-- `#` -/
def commentSign : UInt8 := 0x23

/-- The line feed. -/
def lineFeed : UInt8 := 0x0A

/-- The carriage return. -/
def carriageReturn : UInt8 := 0x0D

/-- Whether a byte ends a line. -/
def endsLine (byte : UInt8) : Bool := byte == lineFeed || byte == carriageReturn

/-- The bytes after the byte order mark, if they begin with one. -/
def withoutMark : Bytes → Bytes
  | 0xEF :: 0xBB :: 0xBF :: rest => rest
  | bytes => bytes

/-- What the beginning of a record is to a scan of the lines. -/
inductive Place where
  /-- Between records. -/
  | start
  /-- In a record whose bytes so far are given last first. -/
  | record (reversed : Bytes)
  /-- In a comment, which only a line feed ends. -/
  | comment

/-- The lines that hold records, without their ends. -/
def lines (place : Place) : Bytes → List Bytes
  | [] =>
    match place with
    | .record reversed => [reversed.reverse]
    | _ => []
  | byte :: rest =>
    match place with
    | .start =>
      if endsLine byte then lines .start rest
      else if byte == commentSign then lines .comment rest
      else lines (.record [byte]) rest
    | .record reversed =>
      if endsLine byte then reversed.reverse :: lines .start rest
      else lines (.record (byte :: reversed)) rest
    | .comment => if byte == lineFeed then lines .start rest else lines .comment rest

/-- The fields of a line. -/
def fields (line : Bytes) : List Bytes := line.splitOn delimiter

/-- The records of a file. -/
def ofBytes (bytes : Bytes) : List (List Bytes) := (lines .start (withoutMark bytes)).map fields

end CorpusCost.Records
