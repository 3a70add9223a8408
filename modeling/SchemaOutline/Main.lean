import SchemaOutline.Command.Run
import Std.Time.Zoned

namespace SchemaOutline.Main

def look (p : Path) : IO Entry := do
  let place := System.mkFilePath [p.spelling]
  try
    if (← place.metadata).type matches .dir then return .directory
    return .file (← IO.FS.readBinFile place).toList
  catch
    | .noFileOrDirectory .. => return .missing
    | .inappropriateType .. => return .blocked
    | _ => return .denied

def snapshot (paths : List Path) : IO Disk := do
  let entries ← paths.mapM fun p ↦ do return (p, ← look p)
  return fun p ↦ ((entries.find? (·.1 = p)).map Prod.snd).getD .missing

def places : IO Config.Places := do
  let home := (← IO.getEnv "HOME").getD "/"
  let here := (← IO.currentDir).toString
  return {
    user := Config.fileBelow (.ofString home)
    project := Config.fileBelow (.ofString here)
    shipped := "defaults/config.json" }

def two (n : Int) : String := if n < 10 then s!"0{n}" else toString n

def stamp : IO String := do
  let t ← Std.Time.PlainTime.now
  return ":".intercalate [two t.hour.val, two t.minute.val, two t.second.val]

def print (out : Command.Output) : IO UInt32 := do
  IO.eprint out.stderr
  IO.print out.stdout
  return out.exit.toUInt32

def start (args : List String) : IO UInt32 := do
  let places ← places
  let files := match Command.parse args with
    | .ok o => o.config.toList ++ o.files
    | .error _ => []
  let disk ← snapshot (places.user :: places.project :: files)
  match Command.run ⟨disk, places, ← stamp⟩ args with
  | .finished out => print out
  | @Command.Outcome.brokenOff out reason =>
    let exit ← print out
    IO.eprintln reason
    return exit

end SchemaOutline.Main

def main (args : List String) : IO UInt32 := SchemaOutline.Main.start args
