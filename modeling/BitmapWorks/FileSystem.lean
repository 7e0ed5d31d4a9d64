import BitmapWorks.Decoding
import BitmapWorks.Text.Render
import BitmapWorks.Text.Scan
/-!
# FileSystem — bitmaps in files

Files and directories stand under one root, each under the list of names that leads to it.  A path is walked name by
name, and what stands in its way decides the error number; besides, there is one device, `/dev/full`, which is always
empty and takes no byte.

`save` opens the file, which empties it, then writes the encoding; what it tells of the length is the number of bytes
that it wrote, but of a text it asks the file.  `load` opens the file, takes no bytes for the empty bitmap, and otherwise
maps and decodes them.  A fault names the call that failed.
-/
namespace BitmapWorks

abbrev Path := List String

/-- Files with their bytes, and directories.  The root itself is not listed. -/
structure FileSystem where
  files : List (Path × Bytes)
  dirs : List Path
  deriving Repr

namespace FileSystem

def empty : FileSystem := ⟨[], []⟩

/-! ## Error numbers -/

def noSuchEntry : Int := 2
def noSuchDevice : Int := 19
def notADirectory : Int := 20
def isADirectory : Int := 21
def noSpace : Int := 28
def nameTooLong : Int := 36

/-- The number of an error that the operating system did not raise. -/
def noNumber : Int := 0

/-! ## Walking paths -/

def mostNameBytes : Nat := 255
def mostPathBytes : Nat := 4095

inductive Place where
  | file (path : Path) (bytes : Bytes)
  | dir (path : Path)
  /-- Nothing, in a directory that is there. -/
  | free (path : Path)
  | fullDevice
  deriving DecidableEq, Repr

def file? (fs : FileSystem) (p : Path) : Option Bytes := (fs.files.find? (·.1 == p)).map Prod.snd

def isDir (fs : FileSystem) (p : Path) : Bool := p.isEmpty || fs.dirs.contains p

def hasEntries (fs : FileSystem) (p : Path) : Bool :=
  (fs.files.map Prod.fst ++ fs.dirs).any fun q => q.length == p.length + 1 && p.isPrefixOf q

def walk (fs : FileSystem) (here : Path) : List String → Except Int Place
  | [] => .ok (.dir here)
  | name :: rest =>
    if mostNameBytes < name.utf8ByteSize then .error nameTooLong
    else if name = "." then walk fs here rest
    else if name = ".." then walk fs here.dropLast rest
    else
      let there := here ++ [name]
      if fs.isDir there then walk fs there rest
      else match fs.file? there with
        | some bytes => if rest.isEmpty then .ok (.file there bytes) else .error notADirectory
        | none => if rest.isEmpty then .ok (.free there) else .error noSuchEntry

/-- The device that takes no byte. -/
def fullDevicePath : String := "/dev/full"

/-- What a path leads to.  A slash at its end asks for a directory. -/
def locate (fs : FileSystem) (path : String) : Except Int Place := do
  if path.isEmpty then throw noSuchEntry
  if path.contains '\x00' then throw noNumber
  if mostPathBytes < path.utf8ByteSize then throw nameTooLong
  if path = fullDevicePath then return .fullDevice
  if path.startsWith "/" then throw noSuchEntry
  let place ← walk fs [] ((path.splitOn "/").filter (!·.isEmpty))
  match place with
  | .file _ _ => if path.endsWith "/" then throw notADirectory else return place
  | _ => return place

/-! ## Plain access -/

def put (fs : FileSystem) (p : Path) (bs : Bytes) : FileSystem :=
  { fs with files := (p, bs) :: fs.files.filter (·.1 != p) }

def read? (fs : FileSystem) (path : String) : Option Bytes :=
  match fs.locate path with
  | .ok (.file _ bytes) => some bytes
  | _ => none

def write (fs : FileSystem) (path : String) (bs : Bytes) : FileSystem :=
  match fs.locate path with
  | .ok (.file p _) | .ok (.free p) => fs.put p bs
  | _ => fs

def makeDir (fs : FileSystem) (path : String) : FileSystem :=
  match fs.locate path with
  | .ok (.free p) => { fs with dirs := p :: fs.dirs }
  | _ => fs

theorem file?_put (fs : FileSystem) (p : Path) (bs : Bytes) : (fs.put p bs).file? p = some bs := by
  simp [put, file?]

/-! ## Bitmaps -/

def encode (b : Bitmap) : FileFormat → Except Fault Bytes
  | .binary f => Window.visible <$> Encoding.serialize 0 b f
  | .words => .ok (Encoding.wordBytes b)
  | .text style => .ok (Text.bytes b style)

def decode (bs : Bytes) : FileFormat → Except Fault Content
  | .binary f => Decoding.decode 0 bs f
  | .words => .owned <$> Decoding.words bs
  | .text _ => .ok (.owned (Text.scan bs))

/-- Opens a path for writing, which empties the file: the place to write to, and the files afterwards. -/
def openToWrite (fs : FileSystem) (path : String) : Except Int Place × FileSystem :=
  match fs.locate path with
  | .error n => (.error n, fs)
  | .ok (.dir _) => (.error isADirectory, fs)
  | .ok .fullDevice => (.ok .fullDevice, fs)
  | .ok (.file p _) => (.ok (.file p []), fs.put p [])
  | .ok (.free p) => if path.endsWith "/" then (.error isADirectory, fs) else (.ok (.file p []), fs.put p [])

/-- The length that is told of a file into which bytes were written: of a text, what is in the file by then. -/
def toldLength (fs : FileSystem) (p : Path) (bs : Bytes) : FileFormat → Nat
  | .text _ => ((fs.file? p).getD []).length
  | _ => bs.length

/-- Saves a bitmap: how many bytes the file has, or why not, and the files afterwards. -/
def save (fs : FileSystem) (b : Bitmap) (path : String) (f : FileFormat) : Except Fault Nat × FileSystem :=
  match fs.openToWrite path with
  | (.error n, fs) => (.error (.system n "open" path), fs)
  | (.ok place, fs) =>
    match encode b f with
    | .error fault => (.error fault, fs)
    | .ok bs =>
      match place with
      | .file p _ =>
        let fs := fs.put p bs
        (.ok (fs.toldLength p bs f), fs)
      | _ => (if bs.isEmpty then .ok 0 else .error (.system noSpace "write" path), fs)

def load (fs : FileSystem) (path : String) (f : FileFormat) : Except Fault Content :=
  match fs.locate path with
  | .error n => .error (.system n "open" path)
  | .ok (.free _) => .error (.system noSuchEntry "open" path)
  | .ok .fullDevice => .ok (.owned .empty)
  | .ok (.dir p) => if fs.hasEntries p then .error (.system noSuchDevice "mmap" path) else .ok (.owned .empty)
  | .ok (.file _ bs) => if bs.isEmpty then .ok (.owned .empty) else decode bs f

end FileSystem
end BitmapWorks
