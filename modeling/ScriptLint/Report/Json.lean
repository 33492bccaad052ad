import ScriptLint.Diagnostic

/-! The report as a JSON document, indented by two blanks a level. -/
namespace ScriptLint.Report

/-- The part of JSON that reports are made of. -/
inductive Json where
  | number (n : Nat)
  | string (s : String)
  | array (items : List Json)
  | object (members : List (String × Json))

namespace Json

/-- A digit of a hexadecimal number in lower case. -/
def hexDigit (n : Nat) : Char := (Nat.toDigits 16 n).headD '0'

/-- One character of a string. Quotes, backslashes and control characters are escaped. -/
def escapeChar (c : Char) : List Char :=
  if c == '"' then ['\\','"']
  else if c == '\\' then ['\\','\\']
  else if c == '\x08' then ['\\','b']
  else if c == '\x0c' then ['\\','f']
  else if c == '\n' then ['\\','n']
  else if c == '\r' then ['\\','r']
  else if c == '\t' then ['\\','t']
  else if c.toNat < 0x20 then ['\\','u','0','0',hexDigit (c.toNat / 16),hexDigit (c.toNat % 16)]
  else [c]

def quoted (s : String) : String :=
  "\"" ++ String.ofList (s.toList.flatMap escapeChar) ++ "\""

def indentation (depth : Nat) : String := "".pushn ' ' (2 * depth)

/-- Items between brackets, each on a line of its own; without items the brackets alone. -/
def bracketed (opening closing : String) (depth : Nat) (items : List String) : String :=
  if items.isEmpty then opening ++ closing
  else opening ++ "\n" ++
    String.intercalate ",\n" (items.map fun item => indentation (depth + 1) ++ item) ++
    "\n" ++ indentation depth ++ closing

mutual

/-- A value whose lines are indented for a given depth. -/
def render (depth : Nat) : Json → String
  | .number n => toString n
  | .string s => quoted s
  | .array items => bracketed "[" "]" depth (renderItems (depth + 1) items)
  | .object members => bracketed "\x7b" "\x7d" depth (renderMembers (depth + 1) members)

def renderItems (depth : Nat) : List Json → List String
  | [] => []
  | item :: rest => item.render depth :: renderItems depth rest

def renderMembers (depth : Nat) : List (String × Json) → List String
  | [] => []
  | (key,value) :: rest =>
    (quoted key ++ ": " ++ value.render depth) :: renderMembers depth rest

end

def ofDiagnostic (d : Diagnostic) : Json :=
  .object [("path",.string d.path),("line",.number d.location.line),
    ("column",.number d.location.column),("severity",.string d.severity.name),
    ("cop_name",.string d.copName),("message",.string d.message)]

def ofDiagnostics (ds : List Diagnostic) (files : Nat) : Json :=
  .object [("metadata",.object [("files_inspected",.number files),
      ("offense_count",.number ds.length)]),
    ("offenses",.array (ds.map ofDiagnostic))]

end Json

def json (ds : List Diagnostic) (files : Nat) : String :=
  (Json.ofDiagnostics ds files).render 0 ++ "\n"

end ScriptLint.Report
