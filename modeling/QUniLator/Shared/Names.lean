import Mathlib.Data.List.Basic

namespace QUniLator.Shared

/-- A file name, byte by byte. Files are shared from the root of the directory only. -/
abbrev Name := List Char

/-- The volumes a directory can be shared with, `filesystem_type_e`. -/
inductive FilesystemType
  | xxdp | rt11
  deriving DecidableEq,Repr

/-- The streams of a file, in the order of `get_stream()`. A file of XXDP is one stream, its data. -/
inductive StreamCode
  | data | dirExt | prefixBlocks
  deriving DecidableEq,Repr

def StreamCode.all : List StreamCode := [.data,.dirExt,.prefixBlocks]

/-- `split_path` of a name: basename and extension -/
def splitPath (name : Name) : Name × Name :=
  let ext := (name.reverse.takeWhile (· ≠ '.')).reverse
  let basename := name.take (name.length-ext.length-1)
  if '.' ∉ name ∨ basename.all (· = '.') then (name,[]) else (basename,ext)

def trim (s : Name) : Name :=
  ((s.dropWhile Char.isWhitespace).reverse.dropWhile Char.isWhitespace).reverse

def volumeChar (type : FilesystemType) (c : Char) : Char :=
  if c = '_' then ' '
  else if c.isLower then c.toUpper
  else if c.isUpper ∨ c.isDigit ∨ c = '$' ∨ c = '.' then c
  else
    match type with
    | .rt11 => '$'
    | .xxdp => '%'

/-- `filename_from_host`: basename and extension on the volume -/
def filenameFromHost (type : FilesystemType) (hostfname : Name) : Name × Name :=
  let (basename,ext) := splitPath (hostfname.map (volumeChar type))
  (trim (basename.take 6),trim (ext.take 3))

def makeFilename (type : FilesystemType) (basename ext : Name) : Name :=
  let basename := trim basename
  let ext := trim ext
  let result :=
    match type with
    | .xxdp => basename ++ '.' :: ext
    | .rt11 =>
      (if basename.isEmpty then ['_'] else basename)++(if ext.isEmpty then [] else '.' :: ext)
  result.map Char.toUpper

def StreamCode.ext : StreamCode → Name
  | .data => []
  | .dirExt => "dirext".toList
  | .prefixBlocks => "prefix".toList

def streamCode (type : FilesystemType) (hostfname : Name) : Name × StreamCode :=
  let (basename,ext) := splitPath hostfname
  match type with
  | .xxdp => (hostfname,.data)
  | .rt11 =>
    if ext.map Char.toLower=StreamCode.dirExt.ext then (basename,.dirExt)
    else if ext.map Char.toLower=StreamCode.prefixBlocks.ext then (basename,.prefixBlocks)
    else (hostfname,.data)

def volumeName (type : FilesystemType) (hostfname : Name) : Name :=
  let (basename,ext) := filenameFromHost type (streamCode type hostfname).1
  makeFilename type basename ext

/-- `VOLUME.INF` comes from the volume only. -/
def isVolumeInfo (type : FilesystemType) (hostfname : Name) : Bool :=
  filenameFromHost type (streamCode type hostfname).1=("$VOLUM".toList,"INF".toList)

/-- `volume_info_host_path` -/
def volumeInfoName (type : FilesystemType) : Name :=
  makeFilename type "$VOLUM".toList "INF".toList

/-- `get_host_path` of a stream -/
def streamHostPath (path : Name) (code : StreamCode) : Name :=
  match code with
  | .data => path
  | .dirExt | .prefixBlocks => path ++ '.' :: code.ext

example : volumeName .rt11 "aaa_read_me.txt.bak".toList = "AAA RE.BAK".toList := by decide

end QUniLator.Shared
