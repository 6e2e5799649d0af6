import Orcm.DssTypes
import Orcm.ErrorCode

/-!
The items of a configuration file as the lexer of `orcm/mca/cfgi/file30/cfgi_file30.c` leaves them,
and `check_validity_of_the_inputs`, which runs before the search for sections. The lexer marks an
item by its first character; here the mark is the constructor. The sequences of items are arbitrary.
-/

namespace Orcm.ConfigItems

open CLibrary
open DssTypes (CText)

def text (literal : String) : CText :=
  CText.ofBlock (literal.toList.map fun char => UInt8.ofNat char.toNat)

def chars (string : CText) : CString := string.bytes.map fun byte => Char.ofNat byte.toNat

def toLower (byte : UInt8) : UInt8 := if 65 ≤ byte ∧ byte ≤ 90 then byte + 32 else byte

/-- Whether `strcasecmp` returns zero. -/
def strcasecmp (s1 s2 : CText) : Bool := s1.bytes.map toLower = s2.bytes.map toLower

inductive Tag where
  | aggregator
  | configuration
  | controller
  | count
  | cores
  | creation
  | envar
  | host
  | junction
  | log
  | mcaParams
  | name
  | port
  | queues
  | role
  | scheduler
  | shost
  | type
  | version
  deriving DecidableEq, Repr

def Tag.text : Tag → CText
  | .aggregator => ConfigItems.text "aggregator"
  | .configuration => ConfigItems.text "configuration"
  | .controller => ConfigItems.text "controller"
  | .count => ConfigItems.text "count"
  | .cores => ConfigItems.text "cores"
  | .creation => ConfigItems.text "creation"
  | .envar => ConfigItems.text "envar"
  | .host => ConfigItems.text "host"
  | .junction => ConfigItems.text "junction"
  | .log => ConfigItems.text "log"
  | .mcaParams => ConfigItems.text "mca-params"
  | .name => ConfigItems.text "name"
  | .port => ConfigItems.text "port"
  | .queues => ConfigItems.text "queues"
  | .role => ConfigItems.text "role"
  | .scheduler => ConfigItems.text "scheduler"
  | .shost => ConfigItems.text "shost"
  | .type => ConfigItems.text "type"
  | .version => ConfigItems.text "version"

def Tag.all : List Tag :=
  [.aggregator, .configuration, .controller, .count, .cores, .creation, .envar, .host, .junction,
    .log, .mcaParams, .name, .port, .queues, .role, .scheduler, .shost, .type, .version]

def tag (name : CText) : Option Tag := Tag.all.find? fun known => strcasecmp name known.text

def isaKnownTag (name : CText) : Bool := (tag name).isSome

def Tag.sectional : Tag → Bool
  | .controller | .configuration | .junction | .scheduler => true
  | _ => false

def isaSectionalItem (name : CText) : Bool := (tag name).any Tag.sectional

inductive Item where
  | opening (name : CText)
  | closing (name : CText)
  | data (text : CText)
  deriving DecidableEq, Repr

def fieldTexts (wanted : Tag) : List Item → List CText
  | .opening name :: .data text :: rest =>
    if tag name = some wanted then text :: fieldTexts wanted rest else fieldTexts wanted rest
  | _ :: rest => fieldTexts wanted rest
  | [] => []

def known : Item → Bool
  | .opening name | .closing name => isaKnownTag name
  | .data _ => true

/-- An opening tag that is not sectional has data and then a closing tag behind it, of whatever
name. -/
def fieldComplete : Item → List Item → Bool
  | .opening _, .data _ :: .closing _ :: _ => true
  | .opening name, _ => isaSectionalItem name
  | _, _ => true

def fieldsComplete : List Item → Bool
  | [] => true
  | item :: rest => fieldComplete item rest && fieldsComplete rest

def isOpening : Item → Bool
  | .opening _ => true
  | _ => false

def isClosing : Item → Bool
  | .closing _ => true
  | _ => false

/-- The integer a port field holds is read to the end of the text. -/
def portInRange (t : CText) : Bool :=
  let read := strtol (chars t)
  read.2 = [] && decide (0 ≤ read.1) && decide (read.1 ≤ 65535)

def checkAllPortFields (items : List Item) : Result Unit :=
  if (fieldTexts .port items).all portInRange then .ok () else Result.fail .badParam

def yesOrNo (t : CText) : Bool :=
  match t.bytes with
  | 121 :: _ | 89 :: _ | 110 :: _ | 78 :: _ => true
  | _ => false

/-- Only the first field is looked at. -/
def checkAggregatorField (items : List Item) : Result Unit :=
  match fieldTexts .aggregator items with
  | [] => .ok ()
  | first :: _ => if yesOrNo first then .ok () else Result.fail .badParam

def checkValidityOfTheInputs (items : List Item) : Result Unit :=
  let roles := fieldTexts .role items
  let types := fieldTexts .type items
  if items = [] then Result.fail .badParam
  else if !items.all known then Result.fail .badParam
  else if !fieldsComplete items then Result.fail .badParam
  else if items.countP isOpening ≠ items.countP isClosing then Result.fail .badParam
  else if !roles.all (fun role => strcasecmp role (text "RECORD") ||
    strcasecmp role (text "MOD")) then
    Result.fail .badParam
  else if roles.countP (strcasecmp · (text "RECORD")) ≠ 1 then Result.fail .badParam
  else if types.any (strcasecmp · (text "inter")) then Result.fail .badParam
  else if !types.any (strcasecmp · (text "node")) then Result.fail .badParam
  else
    -- the error of this check is overwritten by the result of the next one
    let _erri := checkAggregatorField items
    checkAllPortFields items

theorem strcasecmp_iff : strcasecmp s1 s2 = true ↔ s1.bytes.map toLower = s2.bytes.map toLower := by
  simp [strcasecmp]

theorem tag_congr (same : strcasecmp s1 s2 = true) : tag s1 = tag s2 := by
  have folded := strcasecmp_iff.mp same
  simp [tag, strcasecmp, folded]

theorem isaSectionalItem_congr (s1 s2 : CText) (same : strcasecmp s1 s2 = true) :
    isaSectionalItem s1 = isaSectionalItem s2 := by
  rw [isaSectionalItem, isaSectionalItem, tag_congr same]

end Orcm.ConfigItems
