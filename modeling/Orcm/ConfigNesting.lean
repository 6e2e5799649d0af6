import Orcm.ConfigSections

/-!
Nesting of the tags that `check_validity_of_the_inputs` and `structure_lexed_items` accept. Neither
compares the name of a closing tag with that of the tag it closes.
-/

namespace Orcm.ConfigNesting

open Brackets ConfigItems ConfigSections
open DssTypes (CText)

def tagKind : Item → Kind CText
  | .opening name => .opening name
  | .closing name => .closing name
  | .data _ => .other

def ProperlyNested (items : List Item) : Prop := Nested tagKind strcasecmp items

def oneJunction (closing : CText) : List Item :=
  [.opening (text "configuration"), .opening (text "role"), .data (text "RECORD"),
    .closing (text "role"),
    .opening (text "junction"), .opening (text "type"), .data (text "node"), .closing (text "type"),
    .opening (text "name"), .data (text "n1"), .closing closing,
    .closing (text "junction"), .closing (text "configuration")]

end Orcm.ConfigNesting
