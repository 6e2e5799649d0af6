import Orcm.CLibrary
import Orcm.Forest

/-!
Site files of version 2, `orcm/mca/cfgi/file20/cfgi_file20.c`, and how they are printed. A file is
read through a buffer of 512 characters, so that a longer line arrives in pieces, each without its
last character. Files have no zero characters.
-/

namespace Orcm.SiteFile

open CLibrary

/-- `fgets`: at most so many characters, up to the end of the line, which is kept. -/
def fgets : ℕ → CString → CString × CString
  | 0, text => ([], text)
  | _ + 1, [] => ([], [])
  | room + 1, char :: rest =>
    if char = '\n' then ([char], rest)
    else (char :: (fgets room rest).1, (fgets room rest).2)

/-- The spaces in front are left out, unless nothing but the last character follows them. -/
def stripSpaces (line : CString) : CString :=
  if line.dropLast.all (· = ' ') then line else line.dropWhile (· = ' ')

/-- The last character that was read is taken for the end of the line. -/
def orcmGetline (text : CString) : Option (CString × CString) :=
  if text = [] then none
  else some (stripSpaces (fgets 511 text).1.dropLast, (fgets 511 text).2)

/-- `strchr`: the text from a character on. -/
def strchr (char : Char) (text : CString) : Option CString :=
  let found := text.dropWhile (· ≠ char)
  if found = [] then none else some found

def upTo (char : Char) (text : CString) : CString := text.takeWhile (· ≠ char)

/-- A slash in front of the tag is skipped. -/
def skipSlash : CString → CString
  | '/' :: rest => rest
  | text => text

def extractTag (line : CString) : Option CString :=
  (strchr '<' line).bind fun found =>
    let start := skipSlash found.tail
    if '>' ∈ start then some (upTo '>' start) else none

def extractValue (line : CString) : Option CString :=
  (strchr '>' line).bind fun found =>
    if '<' ∈ found.tail then some (upTo '<' found.tail) else none

/-- Short lines, comments and directives. -/
def isSkipped (buff : CString) : Bool :=
  buff.length < 3 || buff[0]? ≠ some '<' || buff[1]? = some '?' || buff[1]? = some '!'

/-- The name and the values of an `orcm_cfgi_xml_parser_t`; its `subvals` are the trees inside. -/
structure Entry where
  name : CString
  value : List CString
  deriving DecidableEq

def descriptionTag : CString := ['d', 'e', 's', 'c', 'r', 'i', 'p', 't', 'i', 'o', 'n']

def valueTag : CString := ['v', 'a', 'l', 'u', 'e']

/-- What a call of `parse_config` leaves: the values of the section, the sections inside it or those
of the file, and the rest of the file. -/
structure Parsed where
  value : List CString
  items : Forest Entry
  rest : CString
  deriving DecidableEq

def Parsed.close (name : CString) (parsed : Parsed) (items : Forest Entry) : Forest Entry :=
  items.append (.cons ⟨name, parsed.value⟩ parsed.items .nil)

inductive Action where
  | skips
  | returns
  | adds (value : CString)
  | opens (tag : CString)
  deriving DecidableEq

/-- `xml_in` is the name of the section that is being read, or `none` outside of all. -/
def action (xml_in : Option CString) (line : CString) : Action :=
  if isSkipped line then .skips
  else
    match extractTag line with
    | none => .returns
    | some tag =>
      -- the same test for the tag that closes the section and for one that opens it again
      if xml_in = some tag then .returns
      else if xml_in ≠ none ∧ tag = descriptionTag then .skips
      else if xml_in ≠ none ∧ tag = valueTag then
        match extractValue line with
        | none => .returns
        | some value => .adds value
      else .opens tag

/-- The call that follows a value goes on where the loop would. The fuel bounds the lines. -/
def parseConfig : ℕ → CString → Option CString → List CString → Forest Entry → Option Parsed
  | 0, _, _, _, _ => none
  | fuel + 1, text, xml_in, value, items =>
    match orcmGetline text with
    | none => some ⟨value, items, []⟩
    | some (line, rest) =>
      match action xml_in line with
      | .skips => parseConfig fuel rest xml_in value items
      | .returns => some ⟨value, items, rest⟩
      | .adds found => parseConfig fuel rest xml_in (value ++ [found]) items
      | .opens tag =>
        (parseConfig fuel rest (some tag) [] .nil).bind fun parsed =>
          parseConfig fuel parsed.rest xml_in value (parsed.close tag items)

def readConfig (text : CString) : Option (Forest Entry) :=
  (parseConfig (text.length + 1) text none [] .nil).map Parsed.items

/-- A name that a section can have: `value` and `description` are no sections. -/
structure Name where
  text : CString
  plain : ∀ char ∈ text, char ≠ '<' ∧ char ≠ '>' ∧ char ≠ '\n'
  first : ∃ char, text.head? = some char ∧ char ≠ '/' ∧ char ≠ '?' ∧ char ≠ '!'
  section_name : text ≠ descriptionTag ∧ text ≠ valueTag

structure Text where
  text : CString
  plain : ∀ char ∈ text, char ≠ '<' ∧ char ≠ '\n'

/-- Behind the spaces there is nothing, something other than a tag, or a comment or a directive. -/
def IsComment (line : CString) : Prop :=
  line.dropWhile (· = ' ') = [] ∨ (line.dropWhile (· = ' '))[0]? ≠ some '<' ∨
    (line.dropWhile (· = ' '))[1]? = some '!' ∨ (line.dropWhile (· = ' '))[1]? = some '?'

structure Comment where
  line : CString
  plain : '\n' ∉ line
  comment : IsComment line

/-- A line that begins with the opening tag of a description, or with the closing one. -/
structure Description where
  closing : Bool
  text : CString
  plain : '\n' ∉ text

def Name.opening (name : Name) : CString := '<' :: (name.text ++ ['>'])

def Name.closing (name : Name) : CString := '<' :: '/' :: (name.text ++ ['>'])

/-- `</value>` -/
def valueEnd : CString := '<' :: '/' :: (valueTag ++ ['>'])

def Text.line (text : Text) : CString := '<' :: (valueTag ++ '>' :: (text.text ++ valueEnd))

def Description.line (description : Description) : CString :=
  if description.closing then '<' :: '/' :: (descriptionTag ++ '>' :: description.text)
  else '<' :: (descriptionTag ++ '>' :: description.text)

inductive Body where
  | nil
  | comment (comment : Comment) (others : Body)
  | description (description : Description) (others : Body)
  | value (text : Text) (others : Body)
  | tree (name : Name) (inside others : Body)

inductive Document where
  | nil
  | comment (comment : Comment) (others : Document)
  | description (description : Description) (others : Document)
  | tree (name : Name) (inside : Body) (others : Document)

def printLine (line rest : CString) : CString := line ++ '\n' :: rest

def Body.print (rest : CString) : Body → CString
  | nil => rest
  | comment remark others => printLine remark.line (others.print rest)
  | description remark others => printLine remark.line (others.print rest)
  | value text others => printLine text.line (others.print rest)
  | tree name inside others =>
    printLine name.opening (inside.print (printLine name.closing (others.print rest)))

def Document.print : Document → CString
  | nil => []
  | comment remark others => printLine remark.line others.print
  | description remark others => printLine remark.line others.print
  | tree name inside others =>
    printLine name.opening (inside.print (printLine name.closing others.print))

def Body.values : Body → List CString
  | nil => []
  | comment _ others | description _ others | tree _ _ others => others.values
  | value text others => text.text :: others.values

def Body.trees : Body → Forest Entry
  | nil => .nil
  | comment _ others | description _ others | value _ others => others.trees
  | tree name inside others => .cons ⟨name.text, inside.values⟩ inside.trees others.trees

def Document.trees : Document → Forest Entry
  | nil => .nil
  | comment _ others | description _ others => others.trees
  | tree name inside others => .cons ⟨name.text, inside.values⟩ inside.trees others.trees

/-- No section directly contains a section of its own name. -/
def Unlike (parent : Option CString) : Forest Entry → Prop
  | .nil => True
  | .cons entry inside others =>
    parent ≠ some entry.name ∧ Unlike (some entry.name) inside ∧ Unlike parent others

/-- Comments and descriptions are read at once. -/
def Body.CommentsFit : Body → Prop
  | nil => True
  | comment remark others => remark.line.length ≤ 510 ∧ others.CommentsFit
  | description remark others => remark.line.length ≤ 510 ∧ others.CommentsFit
  | value _ others => others.CommentsFit
  | tree _ inside others => inside.CommentsFit ∧ others.CommentsFit

def Document.CommentsFit : Document → Prop
  | nil => True
  | comment remark others => remark.line.length ≤ 510 ∧ others.CommentsFit
  | description remark others => remark.line.length ≤ 510 ∧ others.CommentsFit
  | tree _ inside others => inside.CommentsFit ∧ others.CommentsFit

def Entry.Fits (entry : Entry) : Prop :=
  entry.name.length ≤ 508 ∧ ∀ value ∈ entry.value, value.length ≤ 502

/-- No name has more than 508 characters, and no value more than 502. -/
def Fits (forest : Forest Entry) : Prop := ∀ tree ∈ forest.nodes, tree.1.Fits

/-- No description stands outside of all sections. -/
def Document.Undescribed : Document → Prop
  | nil => True
  | comment _ others | tree _ _ others => others.Undescribed
  | description _ _ => False

end Orcm.SiteFile
