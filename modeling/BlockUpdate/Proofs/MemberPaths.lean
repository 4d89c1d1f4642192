import BlockUpdate.Package.Member
import BlockUpdate.Proofs.Descriptors
import BlockUpdate.Proofs.KeptFile
import Mathlib

/-!
# Members stay inside their package

The name of a member is checked by the components of its path, among which there is neither an empty
part nor a `.` behind another one. The file is then looked up by the whole text of the path. That
the two agree is shown here, for every name and wherever the package is.

- `Path.components`: what the parts of a path stand for. `MemberName.check` looks at these;
  **`MemberName.validate_eq_check`**: it is the same to look at the parts.
- `Path.textBelow`: a name behind the text of a directory; `Path.ofText_textBelow`: its path is the
  name looked up from the directory.
- `Path.resolve`: where a path leads by its parts alone; **`Path.resolve_join`**: a name below a
  path goes on from where the path leads.
- **`MemberName.validate_confines`**: the names that are accepted, and where their paths lead.
-/

namespace BlockUpdate

/-! ## Names below a directory, as texts -/

namespace Blank

variable {separator : Char}

theorem fieldsList_ne_nil (separator : Char) (cs : List Char) : fieldsList separator cs ≠ [] := by
  rw [fieldsList_eq_splitOn, List.splitOn]
  exact List.splitOnP_ne_nil (· == separator) cs

/-- The fields before a separator, and those behind it. -/
theorem fieldsList_append_cons (xs ys : List Char) :
    fieldsList separator (xs ++ separator :: ys) =
      fieldsList separator xs ++ fieldsList separator ys := by
  induction xs with
  | nil => exact if_pos rfl
  | cons x xs ih =>
    rw [List.cons_append, fieldsList, fieldsList, ih]
    obtain ⟨first, others, hxs⟩ := List.exists_cons_of_ne_nil (fieldsList_ne_nil separator xs)
    rw [hxs]
    split_ifs <;> rfl

theorem fields_append_append (x y : String) :
    fields separator (x ++ String.singleton separator ++ y) =
      fields separator x ++ fields separator y := by
  rw [fields, fields, fields, ← List.map_append, ← fieldsList_append_cons]
  simp

/-- The last field is empty only behind a separator. -/
theorem getLast?_fieldsList {cs : List Char} (hne : cs ≠ []) (hend : cs.getLast? ≠ some separator) :
    (fieldsList separator cs).getLast? ≠ some [] := by
  obtain ⟨front, last, rfl⟩ := List.eq_nil_or_concat cs |>.resolve_left hne
  rw [List.concat_eq_append] at hend ⊢
  have hlast : separator ∉ [last] := by simpa [eq_comm] using hend
  obtain ⟨pre, stem, hfields⟩ := fieldsList_append hlast front
  simp [hfields]

/-- The first field is empty only in front of a separator. -/
theorem head?_fieldsList_cons (c : Char) (cs : List Char) :
    (fieldsList separator (c :: cs)).head? = some [] ↔ c = separator := by
  obtain ⟨first, others, hcs⟩ := List.exists_cons_of_ne_nil (fieldsList_ne_nil separator cs)
  rw [fieldsList, hcs]
  split_ifs with hc <;> simp [hc]

end Blank

namespace Path

/-- The text of a name behind that of a directory, with one slash in between at least. -/
def textBelow (directory name : String) : String :=
  if directory = "" ∨ directory.toList.getLast? = some '/' then directory ++ name
  else directory ++ "/" ++ name

theorem parts_ofText (text : String) :
    (ofText text).parts = (Blank.fieldsList '/' text.toList).map String.ofList := rfl

theorem isEmpty_ofText {text : String} (h : text ≠ "") : (ofText text).isEmpty = false := by
  have hcs : text.toList ≠ [] := fun hnil => h (String.toList_eq_nil_iff.mp hnil)
  rw [isEmpty, parts_ofText]
  obtain ⟨c, cs, hcons⟩ := List.exists_cons_of_ne_nil hcs
  obtain ⟨first, others, hfields⟩ := List.exists_cons_of_ne_nil (Blank.fieldsList_ne_nil '/' cs)
  rw [hcons, Blank.fieldsList, hfields]
  split_ifs with hslash
  · simp
  · simp

/-- **A name behind the text of a directory** is looked up from the directory. -/
theorem ofText_textBelow (directory : String) {name : String}
    (h : (ofText name).isAbsolute = false) :
    ofText (textBelow directory name) = (ofText directory).join name := by
  rw [textBelow, join, h]
  by_cases hempty : directory = ""
  · subst hempty
    simp [show (ofText "").isEmpty = true from rfl]
  rw [isEmpty_ofText hempty]
  have hsplit : ∀ text : String,
      ofText (text ++ "/" ++ name) = ⟨(ofText text).parts ++ (ofText name).parts⟩ :=
    fun text => congrArg Path.mk (Blank.fields_append_append text name)
  by_cases hslash : directory.toList.getLast? = some '/'
  · -- the slash at the end is the one in between
    obtain ⟨front, hfront⟩ := List.getLast?_eq_some_iff.mp hslash
    obtain rfl : directory = String.ofList front ++ "/" :=
      String.toList_injective (by simp [hfront])
    have hparts : (ofText (String.ofList front ++ "/")).parts =
        (ofText (String.ofList front)).parts ++ [""] := by
      rw [← String.append_empty (s := String.ofList front ++ "/")]
      exact Blank.fields_append_append (String.ofList front) ""
    rw [if_pos (.inr hslash), hparts, List.getLast?_concat, List.dropLast_concat]
    simpa using hsplit (String.ofList front)
  · have hlast : (ofText directory).parts.getLast? ≠ some "" := by
      rw [parts_ofText, List.getLast?_map]
      have hfields := Blank.getLast?_fieldsList (mt String.toList_eq_nil_iff.mp hempty) hslash
      simpa using hfields
    rw [if_neg (by simp [hempty, hslash]), if_neg (by simp), if_neg hlast]
    simpa using hsplit directory

/-! ## Where a name below a directory leads -/

/-- Where a path leads from a place by its parts alone, whatever is there. -/
def resolve (p : Path) (base : Place) : Place :=
  p.parts.foldl step (if p.isAbsolute then [] else base)

theorem resolve_top (p : Path) : p.resolve [] = p.ends := by
  rw [resolve, ends, ite_self]

variable {p : Path} {name : String} {parts : List String}

theorem parts_join_of_relative (h : (ofText name).isAbsolute = false) :
    (p.join name).parts = p.below ++ (ofText name).parts := by
  rw [join, h, below]
  by_cases hempty : p.isEmpty = true
  · simp [hempty]
  · by_cases hlast : p.parts.getLast? = some ""
    · simp [hempty, hlast]
    · simp [hempty, hlast]

theorem isAbsolute_iff {p : Path} :
    p.isAbsolute = true ↔ p.parts.head? = some "" ∧ 2 ≤ p.parts.length := by
  rw [isAbsolute]
  split
  · next h => simp [h]
  · next h =>
    refine ⟨(fun habsolute => by cases habsolute), ?_⟩
    rintro ⟨hhead, hlength⟩
    obtain ⟨others, hparts⟩ := List.head?_eq_some_iff.mp hhead
    rw [hparts] at hlength
    obtain ⟨second, rest, rfl⟩ := List.exists_cons_of_length_pos
      (by simpa [Nat.succ_le_iff] using hlength : 0 < others.length)
    exact absurd hparts (h _ _)

/-- A name below a path starts where the path does. -/
theorem isAbsolute_join (h : (ofText name).isAbsolute = false) :
    (p.join name).isAbsolute = p.isAbsolute := by
  have hrelative := mt isAbsolute_iff.mpr (Bool.eq_false_iff.mp h)
  obtain ⟨first, others, hname⟩ : ∃ first others, (ofText name).parts = first :: others :=
    List.exists_cons_of_ne_nil (by simp [parts_ofText, Blank.fieldsList_ne_nil])
  rw [Bool.eq_iff_iff, isAbsolute_iff, isAbsolute_iff, parts_join_of_relative h, hname, below]
  rw [hname] at hrelative
  split_ifs with hempty hlast
  · have hshort : p.parts.length ≤ 1 := by
      simp only [isEmpty, Bool.and_eq_true, decide_eq_true_eq] at hempty
      exact hempty.2
    exact ⟨fun h => absurd h hrelative, fun h => by omega⟩
  · obtain ⟨pre, hpre⟩ := List.getLast?_eq_some_iff.mp hlast
    rw [hpre, List.dropLast_concat]
    cases pre with
    | nil => simp [isEmpty, hpre] at hempty
    | cons x pre =>
      simp only [List.cons_append, List.head?_cons, List.length_cons, List.length_append]
      exact and_congr_right fun _ => ⟨fun _ => by omega, fun _ => by omega⟩
  · cases hparts : p.parts with
    | nil => simp [isEmpty, hparts] at hempty
    | cons x xs =>
      cases xs with
      | nil => simp [hparts] at hlast; simp [hlast]
      | cons y ys => simp

/-- **A name below a path goes on from where the path leads.** -/
theorem resolve_join (h : (ofText name).isAbsolute = false) (base : Place) :
    (p.join name).resolve base = (ofText name).parts.foldl step (p.resolve base) := by
  rw [resolve, isAbsolute_join h, parts_join_of_relative h, List.foldl_append, foldl_below,
    resolve]

/-- Parts that do not go up lead nowhere but down. -/
theorem prefix_foldl_step (hup : ".." ∉ parts) (place : Place) :
    place <+: parts.foldl step place := by
  induction parts generalizing place with
  | nil => exact List.prefix_rfl
  | cons part rest ih =>
    rw [List.mem_cons, not_or] at hup
    obtain ⟨hpart, hrest⟩ := hup
    refine List.IsPrefix.trans ?_ (ih hrest _)
    rw [step, if_neg (Ne.symm hpart)]
    split_ifs
    · exact List.prefix_rfl
    · exact List.prefix_append ..

/-! ## Components -/

/-- What a part of a path stands for. -/
inductive Component
  /-- The slash at the front. -/
  | top
  | here
  | up
  | name (text : String)
  deriving Repr, DecidableEq

/-- What a part stands for that is not the first. -/
def component? (part : String) : Option Component :=
  if part = "" ∨ part = "." then none
  else if part = ".." then some .up
  else some (.name part)

/-- The components of a path. Repeated slashes and one at the end do not count, nor does a `.` that
is not in front. -/
def components (p : Path) : List Component :=
  let behind := p.parts.filterMap component?
  if p.isAbsolute then .top :: behind
  else if p.parts.head? = some "." then .here :: behind
  else behind

end Path

namespace MemberName

variable {name : String}

/-- Refuses a component that leads out of a package. -/
def checkComponent (name : String) : Path.Component → Except NameFault Unit
  | .up => .error (.escapes name)
  | .top => .error (.absolute name)
  | .here | .name _ => .ok ()

/-- Checks a name by the components of its path. -/
def check (name : String) : Except NameFault Unit :=
  let p := Path.ofText name
  if name.isEmpty then .error .empty
  else if p.isAbsolute then .error (.absolute name)
  else p.components.forM (checkComponent name)

theorem forM_checkComponent (name : String) (parts : List String) :
    (parts.filterMap Path.component?).forM (checkComponent name) =
      if ".." ∈ parts then .error (.escapes name) else .ok () := by
  induction parts with
  | nil => rfl
  | cons part rest ih =>
    by_cases hskip : part = "" ∨ part = "."
    · have hup : ".." ≠ part := by rintro rfl; simp at hskip
      have hnone : Path.component? part = none := if_pos hskip
      rw [List.filterMap_cons_none hnone, ih]
      simp [hup]
    by_cases hup : part = ".."
    · subst hup
      rw [if_pos List.mem_cons_self]
      rfl
    · have hname : Path.component? part = some (.name part) := by
        rw [Path.component?, if_neg hskip, if_neg hup]
      rw [List.filterMap_cons_some hname]
      exact ih.trans (by simp [Ne.symm hup])

theorem isAbsolute_iff_head? (h : name ≠ "") : (Path.ofText name).isAbsolute = true ↔
    (Path.ofText name).parts.head? = some "" := by
  rw [Path.isAbsolute_iff]
  refine and_iff_left_of_imp fun hhead => ?_
  obtain ⟨others, hparts⟩ := List.head?_eq_some_iff.mp hhead
  have hempty := Path.isEmpty_ofText h
  cases others with
  | nil => simp [Path.isEmpty, hparts] at hempty
  | cons second rest => simp [hparts]

/-- **The components tell as much as the parts.** -/
theorem validate_eq_check (name : String) : validate name = check name := by
  rw [validate, check]
  by_cases hempty : name.isEmpty = true
  · rw [if_pos hempty, if_pos hempty]
  have hne : name ≠ "" := by simpa using hempty
  rw [if_neg hempty, if_neg hempty]
  by_cases habsolute : (Path.ofText name).isAbsolute = true
  · rw [if_pos ((isAbsolute_iff_head? hne).mp habsolute), if_pos habsolute]
  rw [if_neg (mt (isAbsolute_iff_head? hne).mpr habsolute), if_neg habsolute, Path.components,
    if_neg habsolute]
  simp only [List.contains_iff_mem]
  rw [← forM_checkComponent]
  split
  · rfl
  · rfl

theorem validate_eq_ok : validate name = .ok () ↔ name ≠ "" ∧
    (Path.ofText name).parts.head? ≠ some "" ∧ ".." ∉ (Path.ofText name).parts := by
  rw [validate]
  simp only [List.contains_iff_mem]
  split_ifs with hempty habsolute hup
  · simp_all
  · simp_all
  · simp_all
  · simp_all

theorem relative_of_validate (h : validate name = .ok ()) :
    (Path.ofText name).isAbsolute = false := by
  obtain ⟨hne, hhead, -⟩ := validate_eq_ok.mp h
  exact Bool.eq_false_iff.mpr (mt (isAbsolute_iff_head? hne).mp hhead)

/-- The names that are accepted, read off their characters. -/
theorem validate_iff : validate name = .ok () ↔ name ≠ "" ∧ name.toList.head? ≠ some '/' ∧
    "..".toList ∉ name.toList.splitOn '/' := by
  rw [validate_eq_ok, ← Blank.fieldsList_eq_splitOn]
  refine and_congr_right fun hne => and_congr ?_ ?_
  · obtain ⟨c, cs, hname⟩ :=
      List.exists_cons_of_ne_nil (mt String.toList_eq_nil_iff.mp hne)
    rw [Path.parts_ofText, List.head?_map, hname, List.head?_cons, ne_eq, ne_eq, Option.some.injEq,
      ← Blank.head?_fieldsList_cons c cs, Option.map_eq_some_iff]
    simp
  · have hinjective : Function.Injective String.ofList := fun _ _ => String.ofList_injective
    rw [Path.parts_ofText, ← List.mem_map_of_injective hinjective, String.ofList_toList]

/-- **An accepted name leads nowhere but below**, from wherever the path starts. -/
theorem prefix_resolve_join (h : validate name = .ok ()) (root : Path) (base : Place) :
    root.resolve base <+: (root.join name).resolve base := by
  rw [Path.resolve_join (relative_of_validate h)]
  exact Path.prefix_foldl_step (validate_eq_ok.mp h).2.2 _

theorem validate_of_read {t : FileTree} {root : Path} {data : Bytes}
    (h : (Package.ofDirectory t root).read name = .ok data) :
    validate name = .ok () ∧ t.read (root.join name) = .ok data := by
  obtain ⟨⟨⟩, hvalid, h⟩ := except_bind_eq_ok.mp h
  refine ⟨mapError_eq_ok.mp hvalid, ?_⟩
  dsimp only at h
  split at h
  · exact mapError_eq_ok.mp h
  · cases h

/-- **Members stay inside their package.** A name is accepted, by the components of its path,
exactly when it is not empty, does not start with a slash and has no `..` between its slashes. The
path of an accepted name is the text of the directory with the name behind it, and it leads below
where the directory is, from every place; so what is read of a package is a file below its
directory. -/
theorem validate_confines :
    (∀ name : String, validate name = check name ∧ (validate name = .ok () ↔
      name ≠ "" ∧ name.toList.head? ≠ some '/' ∧ "..".toList ∉ name.toList.splitOn '/')) ∧
    (∀ root name : String, validate name = .ok () →
      (Path.ofText root).join name = Path.ofText (Path.textBelow root name) ∧
      ∀ base, (Path.ofText root).resolve base <+: ((Path.ofText root).join name).resolve base) ∧
    ∀ (t : FileTree) (root : Path) (name : String) (data : Bytes),
      (Package.ofDirectory t root).read name = .ok data →
      ∃ place, t.get? place = some (.file data) ∧ root.ends <+: place := by
  refine ⟨fun name => ⟨validate_eq_check name, validate_iff⟩, fun root name h =>
    ⟨(Path.ofText_textBelow root (relative_of_validate h)).symm, prefix_resolve_join h _⟩,
    fun t root name data h => ?_⟩
  obtain ⟨hvalid, hread⟩ := validate_of_read h
  refine ⟨_, FileTree.file?_eq_some.mp (FileTree.file?_of_read hread), ?_⟩
  have hbelow := prefix_resolve_join hvalid root []
  rwa [Path.resolve_top, Path.resolve_top] at hbelow

/-- A package in a directory, with one member. -/
def packagedTree : FileTree :=
  ⟨[(["data"], .directory), (["data", "pkg"], .directory),
    (["data", "pkg", "a..b"], .file (Bytes.ofText "new"))]⟩

/-- The name has a `.` in front, a doubled slash and dots that are no part of their own. -/
theorem validate_confines_sample :
    validate ".//a..b" = .ok () ∧
    (Path.ofText "/data/pkg/").join ".//a..b" = Path.ofText "/data/pkg/.//a..b" ∧
    (Path.ofText "/data/pkg/").resolve ["home"] <+:
      ((Path.ofText "/data/pkg/").join ".//a..b").resolve ["home"] ∧
    (Package.ofDirectory packagedTree (Path.ofText "/data/pkg/")).read ".//a..b" =
      .ok (Bytes.ofText "new") ∧
    ∃ place, packagedTree.get? place = some (.file (Bytes.ofText "new")) ∧
      (Path.ofText "/data/pkg/").ends <+: place := by
  have hvalid : validate ".//a..b" = .ok () := by decide
  have htext : Path.textBelow "/data/pkg/" ".//a..b" = "/data/pkg/.//a..b" := by decide
  have hpath : Path.ofText "/data/pkg/.//a..b" = ⟨["", "data", "pkg", ".", "", "a..b"]⟩ := by decide
  have hbelow := validate_confines.2.1 "/data/pkg/" ".//a..b" hvalid
  rw [htext] at hbelow
  have hnode : packagedTree.node (Path.ofText "/data/pkg/.//a..b") =
      .ok (.file (Bytes.ofText "new")) := by
    rw [hpath]
    cbv
  have hread : (Package.ofDirectory packagedTree (Path.ofText "/data/pkg/")).read ".//a..b" =
      .ok (Bytes.ofText "new") := by
    rw [Package.ofDirectory]
    simp only [hvalid, hbelow.1, FileTree.isFile, FileTree.read, hnode]
    rfl
  exact ⟨hvalid, hbelow.1, hbelow.2 ["home"], hread, validate_confines.2.2 _ _ _ _ hread⟩

end MemberName

end BlockUpdate
