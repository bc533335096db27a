import Methodology.FilePath
import Methodology.Text.Basic
import Methodology.Text.Quoted

/-!
# The registry of tabular file types

* `MimeType`: a type of the registry; `all`, `tag`, `contentType`, `extensions`.
* `MimeType.ofContentType`: **look-up by content type**, in any case and with any parameters.
* `MimeType.ofExtension`, `MimeType.ofPath`: look-up by the extension of a file.
-/

namespace Methodology

/-- A tabular file type. -/
inductive MimeType
  | csv
  | xls
  | xlsx
  | parquet
  | feather
  deriving DecidableEq, Repr

/-- A text that leads to no type of the registry. -/
structure UnsupportedMime where
  value : String
  deriving DecidableEq, Repr

/-- The message about such a text. -/
def UnsupportedMime.message (e : UnsupportedMime) : String :=
  "unsupported mime type: " ++ Text.quoted e.value

namespace MimeType

/-- The registry, in its order. -/
def all : List MimeType := [csv, xls, xlsx, parquet, feather]

/-- The content type. -/
def contentType : MimeType → String
  | csv => "text/csv"
  | xls => "application/vnd.ms-excel"
  | xlsx => "application/vnd.openxmlformats-officedocument.spreadsheetml.sheet"
  | parquet => "application/vnd.apache.parquet"
  | feather => "application/vnd.apache.arrow.file"

/-- The short name. -/
def tag : MimeType → String
  | csv => "CSV"
  | xls => "XLS"
  | xlsx => "XLSX"
  | parquet => "PRQ"
  | feather => "FTR"

/-- The extensions of the files of a type, small and without a dot. -/
def extensions : MimeType → List String
  | csv => ["csv"]
  | xls => ["xls"]
  | xlsx => ["xlsx"]
  | parquet => ["parquet", "prq"]
  | feather => ["feather", "ftr", "arrow"]

/-- What stands before the parameters of a content type, small and without blanks at the ends. -/
def essence (s : String) : String :=
  Text.foldCase (Text.trim (String.ofList (s.toList.takeWhile (· != ';'))))

/-- **Look-up by content type.** -/
def ofContentType (s : String) : Except UnsupportedMime MimeType :=
  match all.find? fun m => m.contentType == essence s with
  | some m => .ok m
  | none => .error ⟨s⟩

/-- An extension, small and without blanks at the ends or dots in front. -/
def bareExtension (s : String) : String :=
  Text.foldCase (String.ofList ((Text.trimBlanks s.toList).dropWhile (· == '.')))

/-- Look-up by extension, with or without dots in front. -/
def ofExtension (s : String) : Except UnsupportedMime MimeType :=
  match all.find? fun m => m.extensions.contains (bareExtension s) with
  | some m => .ok m
  | none => .error ⟨bareExtension s⟩

/-- Look-up by the extension of a path. -/
def ofPath (path : String) : Except UnsupportedMime MimeType :=
  match FilePath.extension? path with
  | some e => ofExtension e
  | none => .error ⟨path⟩

end MimeType

end Methodology
