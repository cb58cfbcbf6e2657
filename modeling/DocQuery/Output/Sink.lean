import DocQuery.Output.FileTree
/-!
Sinks: what takes the rendered results of output clauses. There may be none, one that records what
it is given, or the devices of a session, which are a folder for files and perhaps a clipboard.
-/
namespace DocQuery

/-- A clipboard and the text that was last copied to it. -/
structure Clipboard where
  contents : Option String
  deriving Repr

/-- An output folder, a home folder, a clipboard if there is one, and the files
written so far. -/
structure Devices where
  base : String
  home : Option String
  clipboard : Option Clipboard
  tree : FileTree
  deriving Repr

/-- What takes rendered results. -/
inductive Sink where
  | none
  | recording (writes : List (Destination × String))
  | devices (devices : Devices)
  deriving Repr

/-- Delivers a text and says where it went. -/
def Devices.deliver (devices : Devices) (text : String) :
    Destination → Devices × Except SinkError String
  | .clipboard =>
      match devices.clipboard with
      | some _ =>
          ({ devices with clipboard := some ⟨some text⟩ }, .ok Destination.clipboard.label)
      | none => (devices, .error (.unavailable .noClipboard))
  | .path path =>
      match FilePath.resolve devices.base devices.home path with
      | .error fault => (devices, .error fault)
      | .ok resolved =>
          match devices.tree.write resolved text with
          | (tree, .ok ()) => ({ devices with tree }, .ok resolved)
          | (tree, .error fault) => ({ devices with tree }, .error (.file fault))

def Sink.deliver (sink : Sink) (destination : Destination) (text : String) :
    Sink × Except SinkError String :=
  match sink with
  | .none => (.none, .error (.unavailable (.noSink destination)))
  | .recording writes => (.recording (writes ++ [(destination, text)]), .ok destination.label)
  | .devices held =>
      match held.deliver text destination with
      | (changed, result) => (.devices changed, result)

end DocQuery
