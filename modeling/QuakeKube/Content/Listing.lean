/-
# The manifest on the wire

`GET /assets/manifest.json` answers with the listed files as JSON, and
`getManifest` (`internal/quake/content/download.go`) reads them back: the fields of
an object by their names in any case, `null` for a file that is not there. Every
manifest that is sent is read as it was, whatever characters its names have
(`unmarshal_manifestBody`).

Key definitions: `manifestBody`, `mapsBody`, `unmarshalFiles`, `getManifest`.
Key theorems: `decodeFile_json`, `unmarshal_manifestBody`.
-/
import QuakeKube.Content.Seed
import QuakeKube.Lib.Json
import QuakeKube.Lib.Unquote

namespace QuakeKube
namespace Content

open Go Json

/-! ### Writing -/

def File.json (f : File) : Value := .object [
  (txt "name", .string f.name),
  (txt "compressed", .number (.nat f.compressed)),
  (txt "checksum", .number (.nat f.checksum.toNat))]

/-- An entry of the list of maps. -/
structure Map where
  file : Text
  name : Text
deriving DecidableEq

def Map.json (m : Map) : Value := .object [(txt "file", .string m.file), (txt "name", .string m.name)]

/-- A slice that is appended to from nil: without elements it is still nil. -/
def slice {α : Type} (json : α → Value) : List α → Value
  | [] => .null
  | x :: xs => .array ((x :: xs).map json)

def pretty (spaces : ℕ) : Layout where
  indent := some (List.replicate spaces ' ')
  blank := by
    rintro i hi c hc
    obtain rfl := Option.mem_some.mp hi
    rw [List.eq_of_mem_replicate hc]
    decide

/-- `c.JSONPretty`. -/
def jsonPretty (spaces : ℕ) (v : Value) : Bytes := Bytes.encode (render (pretty spaces) 0 v ++ ['\n'])

def manifestBody (files : List File) : Bytes := jsonPretty 3 (slice File.json files)

def mapsBody (maps : List Map) : Bytes := jsonPretty 4 (slice Map.json maps)

/-! ### Reading -/

/-- The smallest character with the same folded case: of those past ASCII these two
fold into it. -/
def foldRune (c : Char) : Char :=
  if c.isLower then c.toUpper
  else if c.toNat = 0x17f then 'S'
  else if c.toNat = 0x212a then 'K'
  else c

inductive Field
  | name
  | compressed
  | checksum
deriving DecidableEq

/-- The field a name in an object stands for; of others nothing is taken. -/
def fieldOf (key : Text) : Option Field :=
  if key.map foldRune = txt "NAME" then some .name
  else if key.map foldRune = txt "COMPRESSED" then some .compressed
  else if key.map foldRune = txt "CHECKSUM" then some .checksum
  else none

def readInt64 (n : Number) : Option ℤ :=
  (parseInt n.text).filter fun z => -2 ^ 63 ≤ z ∧ z < 2 ^ 63

def readUint32 (n : Number) : Option UInt32 :=
  ((parseNat n.text).filter fun k => k < 2 ^ 32).map UInt32.ofNat

/-- A field is set. No program looks at the size of a file in a manifest; one below
zero is kept as zero. -/
def setField (f : File) : Field → Value → Option File
  | _, .null => some f
  | .name, .string s => some { f with name := s }
  | .compressed, .number n => (readInt64 n).map fun z => { f with compressed := z.toNat }
  | .checksum, .number n => (readUint32 n).map fun c => { f with checksum := c }
  | _, _ => none

/-- The fields of an object, one after the other. -/
def setFields (f : File) : List (Text × Value) → Option File
  | [] => some f
  | (key, v) :: fs =>
    match fieldOf key with
    | none => setFields f fs
    | some field => (setField f field v).bind fun f => setFields f fs

/-- A pointer to a file. -/
def decodeFile : Value → Option (Option File)
  | .null => some none
  | .object fs => (setFields ⟨[], 0, 0⟩ fs).map some
  | _ => none

/-- `json.Unmarshal` into the files, none where it returns an error. -/
def unmarshalFiles (data : Bytes) : Option (List (Option File)) :=
  match Json.parse (Bytes.toText data) with
  | some .null => some []
  | some (.array vs) => vs.mapM decodeFile
  | _ => none

variable (W : Web) (jsonError : Bytes → Text)

/-- `getManifest`, with the text of the error `json.Unmarshal` returns. -/
def getManifest (url : Text) : Except Text (List (Option File)) :=
  match W.getBody (url ++ txt "/assets/manifest.json") with
  | .error err => .error (txt "failed to download manifest: " ++ err)
  | .ok data =>
    match unmarshalFiles data with
    | none => .error (txt "cannot unmarshal " ++ url ++ txt "/assets/manifest.json: " ++ jsonError data)
    | some files => .ok files

/-! ### What is sent is read -/

/-- The size of a file is an `int64`. -/
def File.Sized (f : File) : Prop := f.compressed < 2 ^ 63

instance (f : File) : Decidable f.Sized := by unfold File.Sized; infer_instance

theorem readInt64_nat {n : ℕ} (h : n < 2 ^ 63) : readInt64 (.nat n) = some (n : ℤ) := by
  have hrange : decide (-2 ^ 63 ≤ (n : ℤ) ∧ (n : ℤ) < 2 ^ 63) = true := decide_eq_true (by omega)
  have hparse : parseInt (Number.nat n).text = some (n : ℤ) := parseInt_intText n
  rw [readInt64, hparse, Option.filter_some, if_pos hrange]

theorem readUint32_nat (c : UInt32) : readUint32 (.nat c.toNat) = some c := by
  have hrange : decide (c.toNat < 2 ^ 32) = true := decide_eq_true c.toNat_lt
  have hparse : parseNat (Number.nat c.toNat).text = some c.toNat := parseNat_natText c.toNat
  rw [readUint32, hparse, Option.filter_some, if_pos hrange, Option.map_some, UInt32.ofNat_toNat]

/-- **The entry of a file is read back.** -/
theorem decodeFile_json {f : File} (h : f.Sized) : decodeFile f.json = some (some f) := by
  have hfields : fieldOf (txt "name") = some .name ∧ fieldOf (txt "compressed") = some .compressed ∧
      fieldOf (txt "checksum") = some .checksum := by with_unfolding_all decide
  obtain ⟨hname, hcompressed, hchecksum⟩ := hfields
  simp only [File.json, decodeFile, setFields, hname, hcompressed, hchecksum, setField, readInt64_nat h,
    readUint32_nat, Option.bind_some, Option.map_some, Int.toNat_natCast]

/-- **Every manifest is read as it was sent**; one without files is `null`. -/
theorem unmarshal_manifestBody {files : List File} (h : ∀ f ∈ files, f.Sized) :
    unmarshalFiles (manifestBody files) = some (files.map some) := by
  have hblank : ∀ c ∈ ['\n'], isSpace c = true := by decide
  have hparse : Json.parse (Bytes.toText (manifestBody files)) = some (slice File.json files) := by
    rw [manifestBody, jsonPretty, Bytes.toText_encode, parse_render _ 0 _ hblank]
  have hdecode : ∀ files : List File, (∀ f ∈ files, f.Sized) →
      (files.map File.json).mapM decodeFile = some (files.map some) := by
    intro files h
    induction files with
    | nil => rfl
    | cons f files ih =>
      obtain ⟨hf, hfiles⟩ := List.forall_mem_cons.mp h
      rw [List.map_cons, List.mapM_cons, decodeFile_json hf, ih hfiles]
      rfl
  rw [unmarshalFiles, hparse]
  cases files with
  | nil => rfl
  | cons f files => exact hdecode (f :: files) h

end Content
end QuakeKube
