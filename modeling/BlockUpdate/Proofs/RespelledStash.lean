import BlockUpdate.Proofs.Coupled
import BlockUpdate.Proofs.ObliviousCommands
import BlockUpdate.Proofs.StashMap
import Mathlib

/-!
# A stash under other spellings

Digests are compared without regard to the case of letters, but a stash takes its ids to the letter.
So an id may be spelled in another way only if it is spelled in that way wherever it stands, and if no
other id is. Then two stashes that are used under either spelling stay the same but for the names of
their entries.

- `Respelling R`: a relation between spellings, each of which has one counterpart at most.
- `Checksum.verify_congr`, `Stash.validId_congr`: what does not depend on the case of letters.
- `FileTree.Respelled`: two trees whose entries at a place correspond.
- **`Stash.load?_respelled`**, `contains_respelled`, `entrySize?_respelled`: they are found alike,
- **`Stash.store_respelled`**, **`free_respelled`**: and they correspond after either is changed.
- `Stash.not_found_of_store`: an entry is not found under a spelling that it was not stored under.
-/

namespace BlockUpdate

/-- A relation between spellings of digests, which differ in the case of letters only. No spelling has
two counterparts. -/
structure Respelling (R : String → String → Prop) : Prop where
  unique : Relator.BiUnique R
  sameDigest : ∀ a b, R a b → Hex.sameDigest a b = true

/-! ## The case of letters -/

namespace Hex

theorem isAlphanum_toLower (c : Char) : c.toLower.isAlphanum = c.isAlphanum := by
  by_cases hupper : c.isUpper = true
  · have halpha : c.isAlpha = true := by rw [Char.isAlpha, hupper, Bool.true_or]
    rw [Char.isAlphanum, Char.isAlphanum, Char.isAlpha_toLower_eq_isAlpha, halpha, Bool.true_or,
      Bool.true_or]
  · rw [Char.toLower_eq_of_not_isUpper hupper]

variable {a b : String}

theorem map_toLower_of_sameDigest (h : sameDigest a b = true) :
    a.toList.map Char.toLower = b.toList.map Char.toLower := by
  have hlower : lowerAscii a = lowerAscii b := beq_iff_eq.mp h
  rw [← String.toList_map, ← String.toList_map]
  exact congrArg String.toList hlower

theorem length_of_sameDigest (h : sameDigest a b = true) : b.length = a.length := by
  have hlength := congrArg List.length (map_toLower_of_sameDigest h)
  rw [List.length_map, List.length_map] at hlength
  exact hlength.symm

theorem isEmpty_of_sameDigest (h : sameDigest a b = true) : b.isEmpty = a.isEmpty := by
  rw [Bool.eq_iff_iff, String.isEmpty_iff, String.isEmpty_iff, ← String.length_eq_zero_iff,
    ← String.length_eq_zero_iff, length_of_sameDigest h]

end Hex

/-- What passes a check does not depend on the case of letters. -/
theorem Checksum.verify_congr (P : Primitives) (data : Bytes) (blocks : Nat) {a b : String}
    (h : Hex.sameDigest a b = true) : verify P data blocks b = verify P data blocks a := by
  have hlower : Hex.lowerAscii a = Hex.lowerAscii b := beq_iff_eq.mp h
  rw [verify, verify, Hex.isEmpty_of_sameDigest h, Hex.sameDigest, Hex.sameDigest, hlower]

/-- Nor does it matter to what can name an entry. -/
theorem Stash.validId_congr {a b : String} (h : Hex.sameDigest a b = true) :
    validId b = validId a := by
  have hall : ∀ cs : List Char, cs.all Char.isAlphanum = (cs.map Char.toLower).all Char.isAlphanum := by
    intro cs
    rw [List.all_map]
    exact congrArg (cs.all ·) (funext fun c => (Hex.isAlphanum_toLower c).symm)
  rw [validId, validId, Hex.isEmpty_of_sameDigest h, hall b.toList, hall a.toList,
    Hex.map_toLower_of_sameDigest h]

/-! ## Trees -/

open FileTree

variable {R : String → String → Prop} {base t t' : FileTree} {place : Place} {s : Stash}
  {a b : String}

/-- Two trees with the directories of a third one, in which there are the same entries at a place, up
to their spelling, and elsewhere files with the same paths. -/
structure FileTree.Respelled (R : String → String → Prop) (base : FileTree) (place : Place)
    (t t' : FileTree) : Prop where
  left : ∀ q, t.get? q = some .directory ↔ base.get? q = some .directory
  right : ∀ q, t'.get? q = some .directory ↔ base.get? q = some .directory
  entry : ∀ a b, R a b → Stash.validId a = true →
    t'.get? (place ++ [b]) = t.get? (place ++ [a])
  elsewhere : ∀ q, (∀ name, q ≠ place ++ [name]) → (t'.get? q = none ↔ t.get? q = none)

namespace FileTree.Respelled

/-- A tree without entries corresponds to itself. -/
theorem of_empty (h : ∀ name, t.get? (place ++ [name]) = none) : Respelled R t place t t :=
  ⟨fun _ => Iff.rfl, fun _ => Iff.rfl, fun a b _ _ => by rw [h, h], fun _ _ => Iff.rfl⟩

/-- Two trees after a change of one entry. -/
theorem changed {u u' : FileTree} (h : Respelled R base place t t')
    (hleft : ∀ q, u.get? q = some .directory ↔ t.get? q = some .directory)
    (hright : ∀ q, u'.get? q = some .directory ↔ t'.get? q = some .directory)
    (hentry : ∀ a b, R a b → Stash.validId a = true →
      t'.get? (place ++ [b]) = t.get? (place ++ [a]) →
      u'.get? (place ++ [b]) = u.get? (place ++ [a]))
    (helsewhere : ∀ q, (∀ name, q ≠ place ++ [name]) → u.get? q = t.get? q ∧ u'.get? q = t'.get? q) :
    Respelled R base place u u' where
  left q := (hleft q).trans (h.left q)
  right q := (hright q).trans (h.right q)
  entry a b hab hvalid := hentry a b hab hvalid (h.entry a b hab hvalid)
  elsewhere q hq := by
    rw [(helsewhere q hq).1, (helsewhere q hq).2]
    exact h.elsewhere q hq

end FileTree.Respelled

/-! ## Stashes -/

namespace Stash

/-- Errors of a stash that mean the same for a command. -/
def SameKind (e e' : StashError) : Prop := e'.isIo = e.isIo

section

variable (hR : Respelling R) (hbase : s.Sited base place) (hab : R a b)

include hR hbase hab

/-- What can be said of an entry is said of its counterpart. -/
theorem node_respelled (h : Respelled R base place t t') (hvalid : validId a = true) :
    t'.node (s.base.join b) = t.node (s.base.join a) := by
  have hcase := hR.sameDigest a b hab
  have hvalid' : validId b = true := (validId_congr hcase).trans hvalid
  have hsited := hbase.mono fun q => (h.left q).mpr
  have hsited' := hbase.mono fun q => (h.right q).mpr
  rw [hsited.node hvalid, hsited'.node hvalid', h.entry a b hab hvalid,
    utf8ByteSize_of_validId hvalid, utf8ByteSize_of_validId hvalid', Hex.length_of_sameDigest hcase]

/-- **What is loaded** under either spelling. -/
theorem load?_respelled (h : Respelled R base place t t') (size : Nat) :
    Alike SameKind Eq (s.load? t a size) (s.load? t' b size) := by
  have hcongr := validId_congr (hR.sameDigest a b hab)
  by_cases hvalid : validId a = true
  · rw [load?_of_entryPath (s.entryPath_of_validId hvalid),
      load?_of_entryPath (s.entryPath_of_validId (hcongr.trans hvalid)),
      node_respelled hR hbase hab h hvalid]
    exact Alike.refl (E := SameKind) (fun _ => rfl) (fun _ => rfl) _
  · rw [load?, load?, s.entryPath_of_not_validId hvalid,
      s.entryPath_of_not_validId (hcongr ▸ hvalid)]
    exact .error rfl

theorem contains_respelled (h : Respelled R base place t t') :
    s.contains t' b = s.contains t a := by
  have hcongr := validId_congr (hR.sameDigest a b hab)
  by_cases hvalid : validId a = true
  · rw [contains, contains, s.entryPath_of_validId hvalid,
      s.entryPath_of_validId (hcongr.trans hvalid)]
    show t'.isFile (s.base.join b) = t.isFile (s.base.join a)
    rw [isFile, isFile, node_respelled hR hbase hab h hvalid]
  · rw [contains, contains, s.entryPath_of_not_validId hvalid,
      s.entryPath_of_not_validId (hcongr ▸ hvalid)]

theorem entrySize?_respelled (h : Respelled R base place t t') :
    s.entrySize? t' b = s.entrySize? t a := by
  have hcongr := validId_congr (hR.sameDigest a b hab)
  by_cases hvalid : validId a = true
  · rw [entrySize?, entrySize?, s.entryPath_of_validId hvalid,
      s.entryPath_of_validId (hcongr.trans hvalid)]
    show t'.size? (s.base.join b) = t.size? (s.base.join a)
    rw [size?, size?, node_respelled hR hbase hab h hvalid]
  · rw [entrySize?, entrySize?, s.entryPath_of_not_validId hvalid,
      s.entryPath_of_not_validId (hcongr ▸ hvalid)]

end

section

variable (hR : Respelling R) (hbase : s.Sited base place)
  (hflat : ∀ name, base.get? (place ++ [name]) ≠ some .directory) (hab : R a b)

include hR hbase hflat hab

/-- **What is stored** under either spelling. -/
theorem store_respelled (data : Bytes) :
    Coupled (Respelled R base place) SameKind Eq (s.store a data) (s.store b data) := by
  intro t t' h
  have hcase := hR.sameDigest a b hab
  have hleft : ∀ name, t.get? (place ++ [name]) ≠ some .directory := fun name hdir =>
    hflat name ((h.left _).mp hdir)
  have hright : ∀ name, t'.get? (place ++ [name]) ≠ some .directory := fun name hdir =>
    hflat name ((h.right _).mp hdir)
  rw [store_eq (hbase.mono fun q => (h.left q).mpr), store_eq (hbase.mono fun q => (h.right q).mpr),
    validId_congr hcase, if_neg (hleft _), if_neg (hleft _), if_neg (hright _), if_neg (hright _)]
  by_cases hvalid : validId a = true
  · have hvalid' : validId b = true := (validId_congr hcase).trans hvalid
    -- ids of the same length have temporary names of the same length
    have hsize : maxName < (temporaryName b).utf8ByteSize ↔
        maxName < (temporaryName a).utf8ByteSize := by
      rw [← Nat.not_le, ← Nat.not_le, size_temporaryName_le_iff hvalid,
        size_temporaryName_le_iff hvalid', Hex.length_of_sameDigest hcase]
    have hnot : ¬ validId a = false := by rw [hvalid]; exact Bool.false_ne_true.symm
    rw [if_neg hnot, if_neg hnot]
    by_cases hlong : maxName < (temporaryName a).utf8ByteSize
    · rw [if_pos hlong, if_pos (hsize.mpr hlong)]
      exact ⟨.error rfl, h⟩
    · rw [if_neg hlong, if_neg fun h' => hlong (hsize.mp h')]
      have hstorable : Storable t place a := ⟨hvalid, Nat.not_lt.mp hlong, hleft _, hleft _⟩
      have hstorable' : Storable t' place b :=
        ⟨hvalid', Nat.not_lt.mp fun h' => hlong (hsize.mp h'), hright _, hright _⟩
      refine ⟨.ok rfl, h.changed (directory_stored hstorable data)
        (directory_stored hstorable' data) (fun x y hxy hx hsame => ?_) fun q hq => ?_⟩
      · -- no other id is spelled like the one that was stored, on either side
        have hy := (validId_congr (hR.sameDigest x y hxy)).trans hx
        have hnames : y = b ↔ x = a :=
          ⟨fun heq => hR.unique.1 hxy (heq ▸ hab), fun heq => hR.unique.2 hxy (heq ▸ hab)⟩
        rw [get?_stored, get?_stored]
        simp only [List.append_cancel_left_eq, List.cons.injEq, and_true, hnames,
          ne_temporaryName hx, ne_temporaryName hy, if_false, hsame]
      · rw [get?_stored, get?_stored, if_neg (hq _), if_neg (hq _), if_neg (hq _), if_neg (hq _)]
        exact ⟨rfl, rfl⟩
  · have hnot : validId a = false := Bool.eq_false_iff.mpr hvalid
    rw [if_pos hnot, if_pos hnot]
    exact ⟨.error rfl, h⟩

/-- **What is removed** under either spelling. -/
theorem free_respelled :
    Coupled (Respelled R base place) SameKind Eq (s.free a) (s.free b) := by
  intro t t' h
  have hcase := hR.sameDigest a b hab
  have hleft : t.get? (place ++ [a]) ≠ some .directory := fun hdir => hflat a ((h.left _).mp hdir)
  have hright : t'.get? (place ++ [b]) ≠ some .directory := fun hdir =>
    hflat b ((h.right _).mp hdir)
  rw [free_eq (hbase.mono fun q => (h.left q).mpr), free_eq (hbase.mono fun q => (h.right q).mpr),
    validId_congr hcase, if_neg hleft, if_neg hright]
  by_cases hvalid : validId a = true
  · have hvalid' : validId b = true := (validId_congr hcase).trans hvalid
    have hnot : ¬ validId a = false := by rw [hvalid]; exact Bool.false_ne_true.symm
    rw [if_neg hnot, if_neg hnot, utf8ByteSize_of_validId hvalid, utf8ByteSize_of_validId hvalid',
      Hex.length_of_sameDigest hcase]
    split_ifs
    · exact ⟨.error rfl, h⟩
    · have hget := get?_removed t hleft
      have hget' := get?_removed t' hright
      refine ⟨.ok rfl, h.changed (directory_iff_of_get? hget hleft (by simp))
        (directory_iff_of_get? hget' hright (by simp)) (fun x y hxy hx hsame => ?_) fun q hq => ?_⟩
      · have hnames : y = b ↔ x = a :=
          ⟨fun heq => hR.unique.1 hxy (heq ▸ hab), fun heq => hR.unique.2 hxy (heq ▸ hab)⟩
        rw [hget, hget']
        simp only [List.append_cancel_left_eq, List.cons.injEq, and_true, hnames, hsame]
      · rw [hget, hget', if_neg (hq _), if_neg (hq _)]
        exact ⟨rfl, rfl⟩
  · have hnot : validId a = false := Bool.eq_false_iff.mpr hvalid
    rw [if_pos hnot, if_pos hnot]
    exact ⟨.error rfl, h⟩

end

/-- **Under another spelling an entry is not found**: its id is taken to the letter. -/
theorem not_found_of_store (hsited : s.Sited t place)
    (hempty : ∀ name, t.get? (place ++ [name]) = none) {data : Bytes}
    (hstore : outcome (s.store a data) t = (.ok (), t')) (hne : b ≠ a) :
    s.contains t' b = false ∧ s.entrySize? t' b = none := by
  obtain ⟨hstorable, rfl⟩ := (store_eq_ok hsited data).mp hstore
  have hsited' := hsited.mono fun q => (directory_stored hstorable data q).mpr
  have hnone : (stored t place a data).get? (place ++ [b]) = none := by
    rw [get?_stored, hempty b, if_neg (by simpa using hne)]
    split_ifs <;> rfl
  refine ⟨Bool.eq_false_iff.mpr fun hfound => ?_, (entrySize?_eq_none hsited').mpr (.inr hnone)⟩
  obtain ⟨-, found, hfile⟩ := (contains_iff hsited').mp hfound
  rw [hnone] at hfile
  cases hfile

end Stash

end BlockUpdate
