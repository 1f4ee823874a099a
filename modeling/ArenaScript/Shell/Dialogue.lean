import ArenaScript.Shell.Natives
import ArenaScript.Shell.Outline

/-!
# Commands of a dialogue

Lines that start with a colon ask the shell itself, not the script.

Main definitions:

- `Shell.Reply`: what the shell does about a command.
- `Shell.command`: the reply to a line.
-/

namespace ArenaScript.Shell

/-- What the shell does about a command. -/
inductive Reply where
  /-- The dialogue ends. -/
  | quit
  /-- A text is shown. -/
  | text (bytes : ByteArray)
  /-- The global scope is shown as a tree. -/
  | tree (items : List OutlineItem)
  /-- There is no such command. -/
  | unknown (line : String)

/-- The commands. -/
def help : String :=
  ":help     this text\n" ++
  ":stats    arena usage\n" ++
  ":gc       collect garbage now\n" ++
  ":scope    show the global scope as a tree\n" ++
  ":dump     list every arena entity\n" ++
  ":natives  list host functions\n" ++
  ":quit     leave (or <ctrl>D)\n"

/-- A line on the resources in use. -/
def statsLine (s : Stats) : ByteArray :=
  Bytes.concat [Bytes.ofString "used ", Bytes.ofNat s.used.toNat, Bytes.ofString " of ",
    Bytes.ofNat s.capacity.toNat, Bytes.ofString " bytes, low watermark ",
    Bytes.ofNat s.low.toNat, Bytes.ofString ", max depth ", Bytes.ofNat s.depth,
    Bytes.ofString ", digest ", Bytes.hex16 s.digest]

/-- The codes of the characters that separate words. -/
def isSpace (c : Char) : Bool :=
  let code := c.toNat
  (9 ≤ code && code ≤ 13) || code = 0x20 || code = 0x85 || code = 0xa0 || code = 0x1680
    || (0x2000 ≤ code && code ≤ 0x200a) || code = 0x2028 || code = 0x2029 || code = 0x202f
    || code = 0x205f || code = 0x3000

/-- The first word of a line. -/
def firstWord (line : String) : String :=
  String.ofList ((line.toList.dropWhile isSpace).takeWhile fun c => !isSpace c)

/-- The reply to a line; its first word is the command. -/
def command (line : String) : Action Reply := do
  match firstWord line with
  | ":quit" => return .quit
  | ":q" => return .quit
  | ":help" => return .text (Bytes.ofString help)
  | ":stats" => return .text (statsLine (← Engine.stats) ++ Bytes.ofString "\n")
  | ":gc" =>
    let before := (← Engine.stats).used
    let _ ← Engine.collect
    let after := (← Engine.stats).used
    return .text (Bytes.concat [Bytes.ofString "freed ", Bytes.ofNat (before - after).toNat,
      Bytes.ofString " bytes\n"])
  | ":scope" => return .tree (← outline Engine.globalObject)
  | ":dump" => return .text (← Engine.dump)
  | ":natives" => return .text usageLines
  | _ => return .unknown line

end ArenaScript.Shell
