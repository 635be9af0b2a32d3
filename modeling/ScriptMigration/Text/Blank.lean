/-! White space of texts: the characters with the Unicode property White_Space, cutting them off
both ends of a text, and cutting a text into the pieces between them or into lines. -/
namespace ScriptMigration.Text

def isBlank (c : Char) : Bool :=
  let n := c.toNat
  (9 ≤ n && n ≤ 13) || n == 0x20 || n == 0x85 || n == 0xA0 || n == 0x1680
    || (0x2000 ≤ n && n ≤ 0x200A) || n == 0x2028 || n == 0x2029 || n == 0x202F
    || n == 0x205F || n == 0x3000

def trimChars (text : List Char) : List Char :=
  ((text.dropWhile isBlank).reverse.dropWhile isBlank).reverse

def trim (text : String) : String := String.ofList (trimChars text.toList)

/-- The pieces of a text between the characters that satisfy `cut`, empty ones included. -/
def splitChars (cut : Char → Bool) : List Char → List (List Char)
  | [] => [[]]
  | c :: rest =>
    match splitChars cut rest with
    | [] => [[c]]
    | piece :: pieces => if cut c then [] :: piece :: pieces else (c :: piece) :: pieces

def splitAt (mark : Char) (text : String) : List String :=
  (splitChars (· == mark) text.toList).map String.ofList

def words (text : String) : List String :=
  ((splitChars isBlank text.toList).filter (!·.isEmpty)).map String.ofList

def dropReturn (line : List Char) : List Char :=
  if line.getLast? == some '\r' then line.dropLast else line

/-- The lines of a text: each ends at a line feed, a carriage return just before it belongs to the
break, and the text after the last line feed is a line only when it is not empty. -/
def lines (text : String) : List String :=
  let pieces := splitChars (· == '\n') text.toList
  let ended := pieces.dropLast.map dropReturn
  let last := pieces.getLast?.getD []
  (if last.isEmpty then ended else ended ++ [last]).map String.ofList

end ScriptMigration.Text
