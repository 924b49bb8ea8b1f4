namespace PapyrusBackend.Text

def occurs (needle : List Char) : List Char → Bool
  | [] => needle.isEmpty
  | c :: cs => needle.isPrefixOf (c :: cs) || occurs needle cs

def contains (needle s : String) : Bool := occurs needle.toList s.toList

def charsBefore (mark : List Char) : List Char → List Char
  | [] => []
  | c :: cs => if mark.isPrefixOf (c :: cs) then [] else c :: charsBefore mark cs

def before (mark s : String) : String := String.ofList (charsBefore mark.toList s.toList)

def afterLast (p : Char → Bool) (s : String) : String :=
  String.ofList (s.toList.reverse.takeWhile fun c => !p c).reverse

def withoutEnding? (ending s : String) : Option String :=
  if ending.toList.isSuffixOf s.toList then
    some (String.ofList (s.toList.take (s.length - ending.length)))
  else none

end PapyrusBackend.Text
