import TwinScript.Text.Utf8

/-!
# Files

Files are reached through a store, which gives the bytes under a name or tells why there are none.
`Folder.store` is the store of a folder held in memory: names are paths relative to it.
-/
namespace TwinScript

inductive FileFault
  | notFound
  | notDirectory
  | isDirectory
  | nameTooLong
  | nulInName
  | notUtf8
  | other (text : String)
  deriving DecidableEq, Repr

def FileFault.message : FileFault → String
  | notFound => "No such file or directory (os error 2)"
  | notDirectory => "Not a directory (os error 20)"
  | isDirectory => "Is a directory (os error 21)"
  | nameTooLong => "File name too long (os error 36)"
  | nulInName => "file name contained an unexpected NUL byte"
  | notUtf8 => "stream did not contain valid UTF-8"
  | other text => text

abbrev FileStore := String → Except FileFault (List UInt8)

def FileStore.text (store : FileStore) (name : String) : Except FileFault String :=
  match store name with
  | .error fault => .error fault
  | .ok bytes =>
    match Text.ofBytes? bytes with
    | none => .error .notUtf8
    | some text => .ok text

structure Folder where
  files : List (String × List UInt8)
  deriving DecidableEq, Repr

namespace Folder

/-- How far a path has led: into a folder, the given number of levels above where it started, or to
a file. -/
inductive Place
  | folder (above : Nat)
  | file (bytes : List UInt8)
  deriving DecidableEq, Repr

/-- Follows one component of a path. Nothing is known of the folders above this one but that they
are there. -/
def enter (f : Folder) (place : Place) (component : String) : Except FileFault Place :=
  match place with
  | .file _ => .error .notDirectory
  | .folder above =>
    if component == "" || component == "." then .ok (.folder above)
    else if component == ".." then .ok (.folder (above + 1))
    else if 255 < component.utf8ByteSize then .error .nameTooLong
    else
      match above, f.files.lookup component with
      | 0, some bytes => .ok (.file bytes)
      | _, _ => .error .notFound

def follow (f : Folder) : Place → List String → Except FileFault Place
  | place, [] => .ok place
  | place, component :: components =>
    match f.enter place component with
    | .error fault => .error fault
    | .ok next => f.follow next components

def store (f : Folder) : FileStore := fun path =>
  if path.toList.contains '\x00' then .error .nulInName
  else if path.isEmpty then .error .notFound
  else if 4095 < path.utf8ByteSize then .error .nameTooLong
  else
    let above := if path.toList.head? = some '/' then 1 else 0
    match f.follow (.folder above) (path.splitOn "/") with
    | .error fault => .error fault
    | .ok (.folder _) => .error .isDirectory
    | .ok (.file bytes) => .ok bytes

end Folder
end TwinScript
