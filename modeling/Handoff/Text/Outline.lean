import Handoff.Text.Quoted

/-!
The structural text of a value: its constructors with their fields by name, on one line or spread
over one line a field.
-/

namespace Handoff.Text

/-- A value as it is to be shown. All fields of a record but the last are plain words. -/
inductive Outline
  | word (text : String)
  | quote (text : String)
  | tuple (name : String) (item : Outline)
  | record (name : String) (words : List (String × String)) (label : String) (item : Outline)
  deriving DecidableEq

namespace Outline

def flat : Outline → List Char
  | word text => text.toList
  | quote text => quoted text.toList
  | tuple name item => name.toList ++ '(' :: item.flat ++ [')']
  | record name words label item =>
    name.toList ++ " \x7b ".toList
      ++ words.flatMap (fun w => w.1.toList ++ ": ".toList ++ w.2.toList ++ ", ".toList)
      ++ label.toList ++ ": ".toList ++ item.flat ++ " \x7d".toList

def newline (depth : Nat) : List Char :=
  '\n' :: List.replicate (4 * depth) ' '

def spread (depth : Nat) : Outline → List Char
  | word text => text.toList
  | quote text => quoted text.toList
  | tuple name item =>
    name.toList ++ '(' :: newline (depth + 1) ++ item.spread (depth + 1) ++ ',' :: newline depth
      ++ [')']
  | record name words label item =>
    name.toList ++ " \x7b".toList
      ++ words.flatMap
        (fun w => newline (depth + 1) ++ w.1.toList ++ ": ".toList ++ w.2.toList ++ [','])
      ++ newline (depth + 1) ++ label.toList ++ ": ".toList ++ item.spread (depth + 1)
      ++ ',' :: newline depth ++ "\x7d".toList

def line (outline : Outline) : String :=
  String.ofList outline.flat

def block (outline : Outline) : String :=
  String.ofList (outline.spread 0)

end Outline

end Handoff.Text
