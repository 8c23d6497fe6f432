import ScanKit.Text.Quoted

/-! # Descriptions of values

An outline names the parts of a value. It is written on one line, or with each part on a line of its
own.
-/

universe u

namespace ScanKit

inductive Outline where
  /-- A value without parts. -/
  | leaf (text : String)
  /-- A part with its name. -/
  | named (label : String) (value : Outline)
  /-- A value with named parts, in braces. -/
  | record (name : String) (parts : List Outline)
  /-- A value around others, in parentheses. -/
  | wrapper (name : String) (parts : List Outline)
  /-- A sequence, in brackets. -/
  | sequence (items : List Outline)

namespace Outline

def number (n : Nat) : Outline := leaf (toString n)

def flag (b : Bool) : Outline := leaf (toString b)

def text (s : String) : Outline := leaf (Quoted.quoted s)

/-- The name that a description starts with; a value without one has none. -/
def name : Outline → String
  | record n _ | wrapper n _ => n
  | leaf _ | named _ _ | sequence _ => ""

def commaSeparated (parts : List String) : String := ", ".intercalate parts

mutual

/-- The description on one line. -/
def onOneLine : Outline → String
  | leaf s => s
  | named label value => label ++ ": " ++ onOneLine value
  | record n parts => n ++ " \x7b " ++ commaSeparated (allOnOneLine parts) ++ " \x7d"
  | wrapper n parts => n ++ "(" ++ commaSeparated (allOnOneLine parts) ++ ")"
  | sequence items => "[" ++ commaSeparated (allOnOneLine items) ++ "]"

def allOnOneLine : List Outline → List String
  | [] => []
  | o :: os => onOneLine o :: allOnOneLine os

end

/-- A line break and the blanks of a line at the given depth. -/
def newLine (depth : Nat) : String := "\n" ++ "".pushn ' ' (4 * depth)

/-- Parts on lines of their own, each ended by a comma, and the line break before what closes them.
Without parts there is nothing to break. -/
def block (depth : Nat) (parts : List String) : String :=
  if parts.isEmpty then ""
  else String.join (parts.map fun part => newLine (depth + 1) ++ part ++ ",") ++ newLine depth

mutual

/-- The description over several lines, starting at a depth. Its parts stand one level deeper. -/
def indented (depth : Nat) : Outline → String
  | leaf s => s
  | named label value => label ++ ": " ++ indented depth value
  | record n parts => n ++ " \x7b" ++ block depth (allIndented (depth + 1) parts) ++ "\x7d"
  | wrapper n parts => n ++ "(" ++ block depth (allIndented (depth + 1) parts) ++ ")"
  | sequence items => "[" ++ block depth (allIndented (depth + 1) items) ++ "]"

def allIndented (depth : Nat) : List Outline → List String
  | [] => []
  | o :: os => indented depth o :: allIndented depth os

end

/-- The description over several lines. -/
def onManyLines (o : Outline) : String := indented 0 o

end Outline

/-- Values that can be described. -/
class Outlined (α : Type u) where
  outline : α → Outline

instance : Outlined Nat := ⟨.number⟩
instance : Outlined Bool := ⟨.flag⟩
instance : Outlined String := ⟨.text⟩
instance : Outlined Unit := ⟨fun _ => .leaf "()"⟩
instance : Outlined UInt8 := ⟨fun n => .number n.toNat⟩
instance : Outlined UInt16 := ⟨fun n => .number n.toNat⟩
instance : Outlined UInt32 := ⟨fun n => .number n.toNat⟩
instance : Outlined UInt64 := ⟨fun n => .number n.toNat⟩
instance : Outlined Int64 := ⟨fun n => .leaf (toString n.toInt)⟩
instance {α : Type u} {n : Nat} [Outlined α] : Outlined (Vector α n) :=
  ⟨fun v => .sequence (v.toList.map Outlined.outline)⟩

end ScanKit
