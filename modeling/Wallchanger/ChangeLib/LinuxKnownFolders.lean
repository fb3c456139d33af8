import Wallchanger.ChangeLib.Json
import Wallchanger.Foundation.Scan

/-! `linux_known_folders.cpp`: where the folders of a user are, as `user-dirs.dirs` tells. -/

namespace Wallchanger

open Foundation

/-- `known-folders.hpp`. -/
inductive Folders where
  | home
  | documents
  | pictures
  | music
  | videos
  | desktop
  | downloads
  | pub
  | fonts
  | appMenu
  | cache
  | roamingConfiguration
  | localConfiguration
  | globalConfiguration
  | data
  | runtime
  | executableDir
deriving DecidableEq

namespace LinuxKnownFolders

/-- What the program finds on the machine: what `get_home` answers, the directory it was
started in, and the contents of the files that can be opened. -/
structure Host where
  home : Bytes
  currentPath : Bytes
  files : Bytes → Option Bytes

/-- How reading the file comes to grief: a checked access or `replace` past the end, or
the erasure of the end of a string. -/
inductive InitFault where
  | outOfRange
  | endErased
deriving DecidableEq

/-- The map `lookup`. -/
abbrev Lookup := List (Folders × Bytes)

namespace Lookup

def emplace (lookup : Lookup) (fld : Folders) (path : Bytes) : Lookup :=
  match lookup.lookup fld with
  | some _ => lookup
  | none => lookup ++ [(fld, path)]

/-- `operator[]`. -/
def subscript (lookup : Lookup) (fld : Folders) : Lookup × Bytes :=
  match lookup.lookup fld with
  | some path => (lookup, path)
  | none => (lookup ++ [(fld, [])], [])

end Lookup

/-- The variables of the file that are read, in the order of the source. -/
inductive UserDir where
  | desktop
  | download
  | publicShare
  | documents
  | music
  | pictures
  | videos
deriving DecidableEq

namespace UserDir

def all : List UserDir := [desktop, download, publicShare, documents, music, pictures, videos]

def name : UserDir → Bytes
  | desktop => ascii "XDG_DESKTOP_DIR"
  | download => ascii "XDG_DOWNLOAD_DIR"
  | publicShare => ascii "XDG_PUBLICSHARE_DIR"
  | documents => ascii "XDG_DOCUMENTS_DIR"
  | music => ascii "XDG_MUSIC_DIR"
  | pictures => ascii "XDG_PICTURES_DIR"
  | videos => ascii "XDG_VIDEOS_DIR"

def folder : UserDir → Folders
  | desktop => .desktop
  | download => .downloads
  | publicShare => .pub
  | documents => .documents
  | music => .music
  | pictures => .pictures
  | videos => .videos

end UserDir

/-- `std::vector::at`. -/
def atIndex (pair : List Bytes) (index : Nat) : Except InitFault Bytes :=
  match pair[index]? with
  | some field => .ok field
  | none => .error .outOfRange

/-- `std::string::replace` at a place that `find` answered; `npos` is past the end. -/
def replaceAt (text : Bytes) (pos : Option Nat) (count : Nat) (inserted : Bytes) : Except InitFault Bytes :=
  match pos with
  | some pos => .ok (text.take pos ++ (inserted ++ text.drop (pos + count)))
  | none => .error .outOfRange

/-- `erase` of what `std::ranges::find` answered. -/
def eraseFound (mark : UInt8) (text : Bytes) : Except InitFault Bytes :=
  if text.contains mark then .ok (text.erase mark) else .error .endErased

/-- The home directory in place of the first `$HOME`, and the first two quotes gone. -/
def substitute (home value : Bytes) : Except InitFault Bytes := do
  let second ← replaceAt value (findSub (ascii "$HOME") value) 5 home
  let second ← eraseFound 0x22 second
  eraseFound 0x22 second

/-- The comparisons of `first` with the seven names. -/
def assign (lookup : Lookup) (first second : Bytes) : Lookup :=
  UserDir.all.foldl
    (fun lookup dir => if first = dir.name then lookup.emplace dir.folder second else lookup) lookup

/-- One line of the file. -/
def readLine (lookup : Lookup) (line : Bytes) : Except InitFault Lookup :=
  if !line.contains 0x23 then do
    let pair := fields 0x3D line
    let first ← atIndex pair 0
    let value ← atIndex pair 1
    let (lookup, home) := lookup.subscript .home
    let second ← substitute home value
    return assign lookup first second
  else return lookup

/-- The folders that are known without the file. -/
def baseFolders (host : Host) : Lookup := [
  (.home, host.home),
  (.cache, host.home ++ ascii "/.cache"),
  (.localConfiguration, host.home ++ ascii "/.config"),
  (.roamingConfiguration, host.home ++ ascii "/.config"),
  (.appMenu, host.home ++ ascii "/.local/share/applications"),
  (.fonts, host.home ++ ascii "/.local/share/fonts"),
  (.data, host.home ++ ascii "/.local/share"),
  (.globalConfiguration, ascii "/etc"),
  (.runtime, ascii "/tmp"),
  (.executableDir, host.currentPath)]

def init (host : Host) (lookup : Lookup) : Except InitFault Lookup :=
  let lookup := (baseFolders host).foldl (fun lookup entry => lookup.emplace entry.1 entry.2) lookup
  let (lookup, home) := lookup.subscript .home
  match host.files (home ++ ascii "/.config/user-dirs.dirs") with
  | some content => (lines 0x0A content).foldlM readLine lookup
  | none => .ok lookup

/-- The first call initialises the map. -/
def linuxGetPath (host : Host) (lookup : Lookup) (fld : Folders) : Except InitFault (Lookup × Bytes) :=
  if lookup.isEmpty then do
    let lookup ← init host lookup
    return lookup.subscript fld
  else return lookup.subscript fld

/-- `data_directory`, of `helpers.cpp`. -/
def dataDirectory (host : Host) (lookup : Lookup) : Except InitFault (Lookup × Bytes) := do
  let (lookup, ret) ← linuxGetPath host lookup .data
  return (lookup, ret ++ ascii "/wallchanger")

end LinuxKnownFolders

end Wallchanger
