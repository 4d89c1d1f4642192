import BlockUpdate.Script.Error

/-!
# Why an update stops

An error that arose from another one is reported with its causes, the outermost first.

- `UpdateError`: why an update stops.
- `UpdateError.chain`: the messages of an error and its causes.
- `report`: how they are printed.
-/

namespace BlockUpdate

/-! ## Causes -/

/-- The messages of an error and its causes. -/
def OsError.chain (e : OsError) : List String := [e.message]

def PatchError.chain (e : PatchError) : List String :=
  e.message :: match e with
    | .os cause => cause.chain
    | _ => []

def BlockError.chain (e : BlockError) : List String :=
  e.message :: match e with
    | .os cause => cause.chain
    | .patch cause => cause.chain
    | _ => []

def StashError.chain (e : StashError) : List String :=
  e.message :: match e with
    | .os cause => cause.chain
    | .invalidId _ => []

def PackageError.chain (e : PackageError) : List String :=
  e.message :: match e with
    | .os cause => cause.chain
    | _ => []

/-- An error in the blocks of an argument stands for itself. -/
def CommandError.chain : CommandError → List String
  | .block cause => cause.chain
  | e => [e.message]

def TransferError.chain (e : TransferError) : List String :=
  e.message :: match e with
    | .os cause => cause.chain
    | .command cause => cause.chain
    | .stash cause => cause.chain
    | .package cause => cause.chain
    | _ => []

/-! ## Jobs and updates -/

/-- Why the update of a partition stops. -/
inductive JobError
  | opening (device : Path) (error : OsError)
  | session (error : TransferError)
  /-- The blocks to be checked at the end cannot be told. -/
  | ranges (error : BlockError)
  /-- The blocks checked at the end have another digest. -/
  | mismatch (partition blocks sha256 : String)
  deriving Repr, DecidableEq

def JobError.chain : JobError → List String
  | .opening device error => ("opening " ++ device.text) :: error.chain
  | .session error => error.chain
  | .ranges error => error.chain
  | .mismatch partition blocks sha256 =>
    [partition ++ " blocks " ++ blocks ++ " do not hash to " ++ sha256]

/-- Why an update stops. -/
inductive UpdateError
  | workDir (dir : Path) (error : OsError)
  /-- There is a manifest but no key to check its signature with. -/
  | noPublicKey (name : String)
  /-- The key or the manifest cannot be read, or a partition differs from the manifest. -/
  | package (error : PackageError)
  | manifest (name : String) (error : PackageError)
  | record (error : TransferError)
  | job (partition : String) (error : JobError)
  deriving Repr, DecidableEq

def UpdateError.chain : UpdateError → List String
  | .workDir dir error => ("creating " ++ dir.text) :: error.chain
  | .noPublicKey name => ["manifest " ++ name ++ " configured without a public key"]
  | .package error => error.chain
  | .manifest name error => ("checking manifest " ++ name) :: error.chain
  | .record error => error.chain
  | .job partition error => ("updating partition " ++ partition) :: error.chain

/-! ## Reports -/

/-- A message whose further lines are as far in as its first. -/
def indented (lead : String) (message : String) : String :=
  let margin := String.ofList (List.replicate lead.length ' ')
  lead ++ ("\n" ++ margin).intercalate (Blank.fields '\n' message)

/-- The causes of an error; several are numbered. -/
def causeLines : List String → List String
  | [cause] => [indented "    " cause]
  | causes => causes.zipIdx.map fun (cause, n) =>
    let number := toString n
    indented (String.ofList (List.replicate (5 - number.length) ' ') ++ number ++ ": ") cause

/-- The report of an error by its messages, the outermost first. -/
def report : List String → String
  | [] => ""
  | [message] => "Error: " ++ message ++ "\n"
  | message :: causes =>
    "Error: " ++ message ++ "\n\nCaused by:\n" ++ "\n".intercalate (causeLines causes) ++ "\n"

end BlockUpdate
