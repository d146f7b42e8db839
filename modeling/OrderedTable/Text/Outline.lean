/-!
# Outlines of values

An `Outline` is the shape of a value that is to be read by a person: words, lists, records with
named fields and calls with unnamed ones. It has two written forms, `Outline.inline` on one line
and `Outline.indented` with one item a line.
-/

namespace OrderedTable

/-- The readable shape of a value. -/
inductive Outline
  /-- A word that stands for itself. -/
  | word (text : String)
  /-- Items in brackets. -/
  | list (items : List Outline)
  /-- A name and its named fields; `isOpen` says that there are more fields than those. -/
  | record (name : String) (fields : List (String × Outline)) (isOpen : Bool)
  /-- A name and its unnamed fields. -/
  | call (name : String) (args : List Outline)

namespace Outline

def nat (n : Nat) : Outline := word (toString n)

/-- A number in decimal, with a minus sign in front of a negative one. -/
def int (n : Int) : Outline := word (toString n)

mutual
/-- The outline on one line, its items parted by a comma and a blank. -/
def inline : Outline → String
  | word text => text
  | list items => "[" ++ ", ".intercalate (inlineItems items) ++ "]"
  | record name fields isOpen =>
    let more := if isOpen then [".."] else []
    match inlineFields fields ++ more with
    | [] => name
    | parts => name ++ " \x7b " ++ ", ".intercalate parts ++ " \x7d"
  | call name [] => name
  | call name args => name ++ "(" ++ ", ".intercalate (inlineItems args) ++ ")"

def inlineItems : List Outline → List String
  | [] => []
  | item :: rest => item.inline :: inlineItems rest

def inlineFields : List (String × Outline) → List String
  | [] => []
  | (name, item) :: rest => (name ++ ": " ++ item.inline) :: inlineFields rest
end

/-- The lines with four blanks before each. -/
def indent (lines : List String) : List String := lines.map ("    " ++ ·)

/-- The lines with `text` put before the first. -/
def before (text : String) : List String → List String
  | [] => [text]
  | line :: rest => (text ++ line) :: rest

/-- The lines with `text` put after the last. -/
def after (text : String) : List String → List String
  | [] => [text]
  | [line] => [line ++ text]
  | line :: rest => line :: after text rest

mutual
/-- The lines of the indented form. An item stands on lines of its own, four blanks deeper than
what holds it and with a comma behind it; what holds nothing stays on one line. -/
def lines : Outline → List String
  | word text => [text]
  | list [] => ["[]"]
  | list items => "[" :: indent (linesOfItems items) ++ ["]"]
  | record name fields isOpen =>
    let more := if isOpen then [".."] else []
    match linesOfFields fields ++ more with
    | [] => [name]
    | parts => (name ++ " \x7b") :: indent parts ++ ["\x7d"]
  | call name [] => [name]
  | call name args => (name ++ "(") :: indent (linesOfItems args) ++ [")"]

def linesOfItems : List Outline → List String
  | [] => []
  | item :: rest => after "," item.lines ++ linesOfItems rest

def linesOfFields : List (String × Outline) → List String
  | [] => []
  | (name, item) :: rest => after "," (before (name ++ ": ") item.lines) ++ linesOfFields rest
end

def indented (o : Outline) : String := "\n".intercalate o.lines

end Outline

end OrderedTable
