import DeclGraph.Program.TextFile
import DeclGraph.Program.World
import DeclGraph.Proofs.FileSystem.Basic
import DeclGraph.Proofs.Text.Utf8

/-!
# What text files do to the files

Reading a text changes nothing and depends on the files alone (`TextFile.runIn_read`), and writing
one changes nothing but the files (`TextFile.runIn_write`), so both are matters of a file system:
`FileSystem.text` and `FileSystem.writeText`.  A text without carriage returns that was written is
read back, whatever its characters are (`FileSystem.text_of_writeText`).
-/

namespace DeclGraph

/-! ### Reading and writing -/

namespace FileSystem

/-- The text of a file. -/
def text (fs : FileSystem) (path : Path) : Except Failure String :=
  match fs.read path with
  | .ok octets => TextFile.ofOctets octets
  | .error e => .error (.file e)

/-- What writing a text comes to: the files afterwards, and whether it went well. -/
def writeText (fs : FileSystem) (path : Path) (text : String) :
    FileSystem × Except Failure Unit :=
  match fs.makeDirectories path.parent true with
  | (fs, .error e) => (fs, .error (.file e))
  | (fs, .ok ()) =>
    match fs.write path (Utf8.encode text) with
    | .error e => (fs, .error (.file e))
    | .ok fs => (fs, .ok ())

end FileSystem

namespace TextFile

variable (frontEnd : FrontEnd) (w : World) (path : Path)

theorem runIn_read : (read path).runIn frontEnd w = (w.files.text path, w) := by
  simp only [read, FileSystem.text, Program.runIn_bind, Program.runIn_request, World.perform]
  cases w.files.read path with
  | ok octets => rfl
  | error e => rfl

theorem runIn_write (text : String) :
    (write path text).runIn frontEnd w =
      ((w.files.writeText path text).2, { w with files := (w.files.writeText path text).1 }) := by
  simp only [write, FileSystem.writeText, Program.runIn_bind, Program.runIn_request,
    World.perform]
  rcases w.files.makeDirectories path.parent true with ⟨files, answer⟩
  cases answer with
  | error e => rfl
  | ok u =>
    simp only [Program.runIn_bind, Program.runIn_request, World.perform]
    cases files.write path (Utf8.encode text) with
    | error e => rfl
    | ok files' => rfl

end TextFile

/-! ### Reading what was written -/

/-- The octets of a text without carriage returns are read as that text. -/
theorem TextFile.ofOctets_encode {text : String} (h : '\r' ∉ text.toList) :
    ofOctets (Utf8.encode text) = .ok text := by
  rw [ofOctets, Utf8.decode_encode]
  simp only [universalNewlines_of_notMem h, String.ofList_toList]

namespace FileSystem

variable {fs : FileSystem} {path : Path}

/-- A text is written by making the directories above its file and then writing its octets. -/
theorem exists_of_writeText {text : String} (h : (fs.writeText path text).2 = .ok ()) : ∃ files,
    fs.makeDirectories path.parent true = (files, .ok ()) ∧
      files.write path (Utf8.encode text) = .ok (fs.writeText path text).1 := by
  unfold writeText at h ⊢
  rcases hdirectories : fs.makeDirectories path.parent true with ⟨files, answer⟩
  rw [hdirectories] at h
  cases answer with
  | error e => exact absurd h (by simp)
  | ok u =>
    refine ⟨files, rfl, ?_⟩
    dsimp only at h ⊢
    cases hwrite : files.write path (Utf8.encode text) with
    | error e =>
      rw [hwrite] at h
      exact absurd h (by simp)
    | ok files' => rfl

/-- A text that was written is read back. -/
theorem text_of_writeText {content : String} (hcontent : '\r' ∉ content.toList)
    (h : (fs.writeText path content).2 = .ok ()) :
    (fs.writeText path content).1.text path = .ok content := by
  obtain ⟨files, -, hwrite⟩ := exists_of_writeText h
  rw [text, read_of_write hwrite]
  exact TextFile.ofOctets_encode hcontent

end FileSystem

end DeclGraph
