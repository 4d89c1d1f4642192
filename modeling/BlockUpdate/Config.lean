import BlockUpdate.Files.Tree
import BlockUpdate.Progress
import BlockUpdate.Text.Float.Shortest
import BlockUpdate.Text.Toml.Reader
import BlockUpdate.Text.Utf8

/-!
# The configuration of an update

A configuration names the directories of an update, says how it runs, and lists a job for each
partition.

- `Config.parse`, `Config.text`: between a configuration and its TOML text.
- `Config.load`: reads the configuration file; if there is none, one with the defaults is made.
- `Config.location`: where that file is.
-/

namespace BlockUpdate

/-- The update of one partition. -/
structure PartitionJob where
  name : String
  /-- The device or image file to write. -/
  device : Path
  /-- The member of the package that holds the script. -/
  transferList : String
  newData : Option String := none
  patchData : Option String := none
  /-- The share of the progress bar. -/
  proportion : Share := Share.whole
  /-- The blocks that are checked at the end, if their digest is given too. -/
  verifyRanges : Option String := none
  verifySha256 : Option String := none
  deriving Repr, DecidableEq

/-- A whole update. -/
structure Config where
  /-- The directory of stashes, retry markers and the record of finished partitions. -/
  workDir : Path := Path.ofText "/var/lib/updatekit"
  /-- The package, one file for each member. -/
  packageDir : Path := Path.ofText "/var/lib/updatekit/package"
  /-- Whether to go on with an interrupted update. -/
  retry : Bool := false
  /-- Whether an erase fills a regular file with zeros. -/
  allowFileErase : Bool := false
  /-- Whether only to check, and write no device. -/
  dryRun : Bool := false
  /-- Whether the digests of the manifest are checked at the end. -/
  verifyAfterUpdate : Bool := true
  /-- The member of the package that holds the signed manifest. -/
  manifestFile : Option String := none
  /-- The key of that signature in hexadecimal. -/
  publicKey : Option String := none
  partitions : List PartitionJob := []
  deriving Repr, DecidableEq

/-! ## Shares -/

namespace Share

/-- The bit of the sign. -/
def signBit : Nat := 2 ^ 31

/-- A share by its sign and the bits of its magnitude. -/
def ofParts (negative : Bool) (magnitude : Nat) : Share :=
  ⟨UInt32.ofNat (magnitude + if negative then signBit else 0)⟩

/-- The share nearest to a number. -/
def ofToml? : TomlValue → Option Share
  | .integer n => some (ofParts (n < 0) (FloatFormat.single.nearest n.natAbs 1))
  | .float negative magnitude =>
    some (ofParts negative (FloatFormat.single.convert .double magnitude))
  | _ => none

/-- A share with as many digits as tell its value from all others of double precision. The sign of
what is not a number is not written. -/
def tomlText (s : Share) : String :=
  let negative := signBit ≤ s.bits.toNat
  let magnitude := s.bits.toNat % signBit
  let F := FloatFormat.double
  if FloatFormat.single.infinity < magnitude then "nan"
  else
    (if negative then "-" else "") ++
      if magnitude = FloatFormat.single.infinity then "inf"
      else Shortest.text F (F.decode (F.convert .single magnitude))

end Share

/-! ## Reading -/

/-- A field that need not be there. -/
def TomlTable.getOr {α : Type} (t : TomlTable) (key : String) (decode : TomlValue → Option α)
    (fallback : α) : Option α :=
  match t.get? key with
  | some value => decode value
  | none => some fallback

/-- A text that need not be there. -/
def TomlTable.text? (t : TomlTable) (key : String) : Option (Option String) :=
  t.getOr key (fun value => value.text?.map some) none

namespace PartitionJob

/-- The fields of a job, in order. -/
def fieldNames : List String :=
  ["name", "device", "transfer_list", "new_data", "patch_data", "proportion", "verify_ranges",
    "verify_sha256"]

/-- The fields of a job by their names. A job that is written as an array has them in order. -/
def fieldsOf? : TomlValue → Option TomlTable
  | .table _ entries => some entries
  | .array items => some (fieldNames.zip items)
  | _ => none

def ofToml? (value : TomlValue) : Option PartitionJob := do
  let fields ← fieldsOf? value
  return {
    name := ← (← fields.get? "name").text?
    device := Path.ofText (← (← fields.get? "device").text?)
    transferList := ← (← fields.get? "transfer_list").text?
    newData := ← fields.text? "new_data"
    patchData := ← fields.text? "patch_data"
    proportion := ← fields.getOr "proportion" Share.ofToml? Share.whole
    verifyRanges := ← fields.text? "verify_ranges"
    verifySha256 := ← fields.text? "verify_sha256" }

end PartitionJob

namespace Config

/-- Reads the fields of a configuration. Those that are missing have their defaults, and others
are passed over. -/
def ofTable? (t : TomlTable) : Option Config := do
  let defaults : Config := {}
  let path? (value : TomlValue) : Option Path := value.text?.map Path.ofText
  return {
    workDir := ← t.getOr "work_dir" path? defaults.workDir
    packageDir := ← t.getOr "package_dir" path? defaults.packageDir
    retry := ← t.getOr "retry" TomlValue.bool? defaults.retry
    allowFileErase := ← t.getOr "allow_file_erase" TomlValue.bool? defaults.allowFileErase
    dryRun := ← t.getOr "dry_run" TomlValue.bool? defaults.dryRun
    verifyAfterUpdate := ← t.getOr "verify_after_update" TomlValue.bool? defaults.verifyAfterUpdate
    manifestFile := ← t.text? "manifest_file"
    publicKey := ← t.text? "public_key"
    partitions := ← t.getOr "partitions"
      (fun value => do (← value.items?).mapM PartitionJob.ofToml?) defaults.partitions }

/-- Reads a configuration. -/
def parse (text : String) : Option Config := do ofTable? (← TomlDocument.parse text)

/-! ## Writing -/

/-- A line of a configuration. -/
def line (key value : String) : String := key ++ " = " ++ value ++ "\n"

/-- A line with a text. -/
def textLine (key text : String) : String := line key (TomlText.encode text)

/-- A line with a text, if there is one. -/
def textLine? (key : String) (text : Option String) : String :=
  (text.map (textLine key)).getD ""

/-- A job under a header of its own. -/
def jobText (job : PartitionJob) : String :=
  "\n[[partitions]]\n" ++
    textLine "name" job.name ++
    textLine "device" job.device.text ++
    textLine "transfer_list" job.transferList ++
    textLine? "new_data" job.newData ++
    textLine? "patch_data" job.patchData ++
    line "proportion" job.proportion.tomlText ++
    textLine? "verify_ranges" job.verifyRanges ++
    textLine? "verify_sha256" job.verifySha256

/-- The text of a configuration. -/
def text (c : Config) : String :=
  textLine "work_dir" c.workDir.text ++
    textLine "package_dir" c.packageDir.text ++
    line "retry" (toString c.retry) ++
    line "allow_file_erase" (toString c.allowFileErase) ++
    line "dry_run" (toString c.dryRun) ++
    line "verify_after_update" (toString c.verifyAfterUpdate) ++
    textLine? "manifest_file" c.manifestFile ++
    textLine? "public_key" c.publicKey ++
    if c.partitions.isEmpty then line "partitions" "[]"
    else String.join (c.partitions.map jobText)

/-! ## The file -/

/-- Why there is no configuration. -/
inductive Error
  | os (error : OsError)
  /-- The file is no configuration. -/
  | malformed
  deriving Repr, DecidableEq

/-- The owner alone may read and write the file. -/
def fileMode : Nat := 0o600

/-- Writes a configuration, in a directory that is made if it is missing. -/
def save (c : Config) (p : Path) : FileM OsError Unit := do
  FileM.makeDirectories p.parent
  FileM.perform [.create p, .append p (Bytes.ofText c.text)]

/-- Reads a configuration from a file that is there. -/
def read (t : FileTree) (p : Path) : Except Error Config := do
  let data ← (t.read p).mapError .os
  match Utf8.decode data with
  | .error _ => throw (.os .notText)
  | .ok text =>
    match parse text with
    | some c => return c
    | none => throw .malformed

/-- Reads a configuration; if there is none, writes one with the defaults. -/
def load (p : Path) : FileM Error Config := do
  if ((← get).node p).isOk then
    FileM.look (read · p)
  else
    let c : Config := {}
    FileM.mapError .os (c.save p)
    return c

/-- Where the configuration is: in the file that was named, or in the home directory. -/
def location (named home : Option String) : Path :=
  match named with
  | some name => Path.ofText name
  | none =>
    [".config", "updatekit", "updater.toml"].foldl Path.join
      (Path.ofText (home.getD "/tmp"))

end Config

end BlockUpdate
