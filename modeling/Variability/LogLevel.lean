-- Log levels: how much a log shows, by name.

namespace Variability

namespace LogLevel

/-- The names of the levels. -/
def levels : List (String × Nat) :=
  [("CRITICAL", 50), ("FATAL", 50), ("ERROR", 40), ("WARNING", 30), ("WARN", 30), ("INFO", 20),
    ("DEBUG", 10), ("NOTSET", 0)]

/-- The level where no level is named. -/
def standard : Nat := 20

/-- Names that are taken, but not by levels: by the form of a log line, and by
the styles in which such a form can be written. -/
inductive Reserved
  | form
  | styles
deriving DecidableEq, Repr

def reservedNames : List (String × Reserved) := [("BASIC_FORMAT", .form), ("_STYLES", .styles)]

/-- The fields of a log line, each between the given texts. -/
def formOf (before after : String) : String :=
  ":".intercalate (["levelname", "name", "message"].map fun field => before ++ field ++ after)

/-- A style with its mark, its name and its form of a log line. -/
def styleText (mark name form : String) : String :=
  "'" ++ mark ++ "': (<class 'logging." ++ name ++ "'>, '" ++ form ++ "')"

/-- What a reserved name is answered with. -/
def Reserved.message : Reserved → String
  | .form => "Unknown level: '" ++ formOf "%(" ")s" ++ "'"
  | .styles =>
    "Level not an integer or a valid string: \x7b" ++
      ", ".intercalate
        [styleText "%" "PercentStyle" (formOf "%(" ")s"),
          styleText "\x7b" "StrFormatStyle" (formOf "\x7b" "\x7d"),
          styleText "$" "StringTemplateStyle" (formOf "$\x7b" "\x7d")] ++
      "\x7d"

/-- The characters outside ASCII whose capital letters are in ASCII: the sharp
s, the i without a dot, the long s and the ligatures. -/
def capitals : List (Nat × String) :=
  [(0xdf, "SS"), (0x131, "I"), (0x17f, "S"), (0xfb00, "FF"), (0xfb01, "FI"), (0xfb02, "FL"),
    (0xfb03, "FFI"), (0xfb04, "FFL"), (0xfb05, "ST"), (0xfb06, "ST")]

/-- The capital letters of a character that has such in ASCII. -/
def upperChar (c : Char) : List Char :=
  match capitals.lookup c.toNat with
  | some letters => letters.toList
  | none => [c.toUpper]

/-- The level of a setting, in letters of either case. An unknown name means
the standard level; a reserved name means none. -/
def ofSetting (setting : Option String) : Except Reserved Nat :=
  match setting with
  | none => .ok standard
  | some s =>
    let name := String.ofList (s.toList.flatMap upperChar)
    match reservedNames.lookup name with
    | some reserved => .error reserved
    | none => .ok ((levels.lookup name).getD standard)

end LogLevel

end Variability
