import BlockUpdate.Patch.Chunk
import BlockUpdate.Proofs.Fields

/-!
# Chunk headers read back

- `Chunk.Fits`: every number of a header fits its field.
- **`Chunk.reads_encode`**: a header that fits reads back.
- `Chunk.size_encodeWords`, `Chunk.size_encodeFields`: how long the parts of a header are;
  `Chunk.read?_encodeWords`: a number of a header by its place.
-/

namespace BlockUpdate

/-- A number fits a signed field of four bytes. -/
def Word32.Fits (n : Int) : Prop := -2 ^ 31 ≤ n ∧ n < 2 ^ 31

def Window.Fits (w : Window) : Prop := w.start < 2 ^ 64 ∧ w.length < 2 ^ 64

structure MemberHeader.Fits (h : MemberHeader) : Prop where
  source : h.source.Fits
  patchOffset : h.patchOffset < 2 ^ 64
  expandedSize : h.expandedSize < 2 ^ 64
  targetSize : h.targetSize < 2 ^ 64

def DeflateParams.Fits (p : DeflateParams) : Prop := ∀ n ∈ Chunk.deflateFields p, Word32.Fits n

def Lz4Params.Fits (p : Lz4Params) : Prop := ∀ n ∈ Chunk.lz4Fields p, Word32.Fits n

/-- One step of a sequence of readings. -/
theorem except_bind_of_ok {ε α β : Type} {x : Except ε α} {a : α} {f : α → Except ε β} {b : β}
    (hx : x = .ok a) (hf : f a = .ok b) : x >>= f = .ok b :=
  except_bind_eq_ok.mpr ⟨a, hx, hf⟩

namespace Chunk

/-- Every number of a header fits its field. -/
def Fits : Chunk → Prop
  | .normal source patchOffset => source.Fits ∧ patchOffset < 2 ^ 64
  | .raw data => data.size < 2 ^ 32
  | .deflate _ header params => header.Fits ∧ params.Fits
  | .lz4 header params => header.Fits ∧ params.Fits

open Cursor (Reads)

theorem reads_word {n : Nat} (h : n < 2 ^ 64) :
    Reads (fun c => c.unsigned 8) n (LittleEndian.encode 8 n) := Cursor.reads_unsigned h

theorem reads_signed {n : Int} (h : Word32.Fits n) :
    Reads Cursor.signed32 n (Word32.encode n) := Cursor.reads_signed32 h.1 h.2

/-! ## Parts of headers -/

theorem encodeWords_cons (n : Nat) (ns : List Nat) :
    encodeWords (n :: ns) = LittleEndian.encode 8 n ++ encodeWords ns := by
  rw [encodeWords, List.map_cons, Bytes.join_cons]
  rfl

theorem encodeWords_append (ms ns : List Nat) :
    encodeWords (ms ++ ns) = encodeWords ms ++ encodeWords ns := by
  rw [encodeWords, List.map_append, Bytes.join_append]
  rfl

theorem encodeFields_cons (n : Int) (ns : List Int) :
    encodeFields (n :: ns) = Word32.encode n ++ encodeFields ns := by
  rw [encodeFields, List.map_cons, Bytes.join_cons]
  rfl

@[simp] theorem encodeWords_nil : encodeWords [] = ByteArray.empty := rfl

@[simp] theorem encodeFields_nil : encodeFields [] = ByteArray.empty := rfl

theorem reads_window {w : Window} (h : w.Fits) :
    Reads readWindow w (encodeWords [w.start, w.length]) := by
  intro c rest hc
  simp only [encodeWords_cons, encodeWords_nil, ByteArray.append_empty,
    ByteArray.append_assoc] at hc
  obtain ⟨c₁, hstart, hc₁⟩ := reads_word h.1 c _ hc
  obtain ⟨c₂, hlength, hc₂⟩ := reads_word h.2 c₁ _ hc₁
  exact ⟨c₂, except_bind_of_ok hstart (except_bind_of_ok hlength rfl), hc₂⟩

theorem reads_member {m : MemberHeader} (h : m.Fits) : Reads readMember m (encodeMember m) := by
  intro c rest hc
  have hsplit : encodeMember m = encodeWords [m.source.start, m.source.length] ++
      encodeWords [m.patchOffset, m.expandedSize, m.targetSize] := by
    simp only [encodeMember, encodeWords_cons, encodeWords_nil, ByteArray.append_empty,
      ByteArray.append_assoc]
  rw [hsplit, ByteArray.append_assoc] at hc
  obtain ⟨c₁, hsource, hc₁⟩ := reads_window h.source c _ hc
  simp only [encodeWords_cons, encodeWords_nil, ByteArray.append_empty,
    ByteArray.append_assoc] at hc₁
  obtain ⟨c₂, hoffset, hc₂⟩ := reads_word h.patchOffset c₁ _ hc₁
  obtain ⟨c₃, hexpanded, hc₃⟩ := reads_word h.expandedSize c₂ _ hc₂
  obtain ⟨c₄, htarget, hc₄⟩ := reads_word h.targetSize c₃ _ hc₃
  exact ⟨c₄, except_bind_of_ok hsource (except_bind_of_ok hoffset
    (except_bind_of_ok hexpanded (except_bind_of_ok htarget rfl))), hc₄⟩

theorem reads_deflate {p : DeflateParams} (h : p.Fits) :
    Reads readDeflate p (encodeFields (deflateFields p)) := by
  intro c rest hc
  simp only [deflateFields, encodeFields_cons, encodeFields_nil, ByteArray.append_empty,
    ByteArray.append_assoc] at hc
  obtain ⟨c₁, hlevel, hc₁⟩ := reads_signed (h _ (by simp [deflateFields])) c _ hc
  obtain ⟨c₂, hmethod, hc₂⟩ := reads_signed (h _ (by simp [deflateFields])) c₁ _ hc₁
  obtain ⟨c₃, hwindow, hc₃⟩ := reads_signed (h _ (by simp [deflateFields])) c₂ _ hc₂
  obtain ⟨c₄, hmem, hc₄⟩ := reads_signed (h _ (by simp [deflateFields])) c₃ _ hc₃
  obtain ⟨c₅, hstrategy, hc₅⟩ := reads_signed (h _ (by simp [deflateFields])) c₄ _ hc₄
  exact ⟨c₅, except_bind_of_ok hlevel (except_bind_of_ok hmethod (except_bind_of_ok hwindow
    (except_bind_of_ok hmem (except_bind_of_ok hstrategy rfl)))), hc₅⟩

theorem reads_lz4 {p : Lz4Params} (h : p.Fits) :
    Reads readLz4 p (encodeFields (lz4Fields p)) := by
  intro c rest hc
  simp only [lz4Fields, encodeFields_cons, encodeFields_nil, ByteArray.append_empty,
    ByteArray.append_assoc] at hc
  obtain ⟨c₁, hlevel, hc₁⟩ := reads_signed (h _ (by simp [lz4Fields])) c _ hc
  obtain ⟨c₂, hmethod, hc₂⟩ := reads_signed (h _ (by simp [lz4Fields])) c₁ _ hc₁
  obtain ⟨c₃, hindependence, hc₃⟩ := reads_signed (h _ (by simp [lz4Fields])) c₂ _ hc₂
  obtain ⟨c₄, hchecksum, hc₄⟩ := reads_signed (h _ (by simp [lz4Fields])) c₃ _ hc₃
  obtain ⟨c₅, hsize, hc₅⟩ := reads_signed (h _ (by simp [lz4Fields])) c₄ _ hc₄
  obtain ⟨c₆, hflush, hc₆⟩ := reads_signed (h _ (by simp [lz4Fields])) c₅ _ hc₅
  exact ⟨c₆, except_bind_of_ok hlevel (except_bind_of_ok hmethod (except_bind_of_ok hindependence
    (except_bind_of_ok hchecksum (except_bind_of_ok hsize (except_bind_of_ok hflush rfl))))), hc₆⟩

/-! ## Headers -/

theorem kindNumber_lt (chunk : Chunk) : chunk.kindNumber < 256 ^ 4 := by
  unfold kindNumber
  split <;> decide

/-- **A chunk header reads back.** -/
theorem reads_encode {chunk : Chunk} (h : chunk.Fits) : Reads read chunk chunk.encode := by
  intro c rest hc
  have hkind := Cursor.reads_unsigned chunk.kindNumber_lt
  cases chunk with
  | normal source patchOffset =>
    have hsplit : encode (.normal source patchOffset) = LittleEndian.encode 4 0 ++
        (encodeWords [source.start, source.length] ++ LittleEndian.encode 8 patchOffset) := by
      simp only [encode, kindNumber, encodeWords_cons, encodeWords_nil, ByteArray.append_empty,
        ByteArray.append_assoc]
    rw [hsplit, ByteArray.append_assoc, ByteArray.append_assoc] at hc
    obtain ⟨c₁, hnumber, hc₁⟩ := hkind c _ hc
    obtain ⟨c₂, hsource, hc₂⟩ := reads_window h.1 c₁ _ hc₁
    obtain ⟨c₃, hoffset, hc₃⟩ := reads_word h.2 c₂ _ hc₂
    exact ⟨c₃, except_bind_of_ok hnumber (except_bind_of_ok hsource
      (except_bind_of_ok hoffset rfl)), hc₃⟩
  | raw data =>
    rw [encode, ByteArray.append_assoc, ByteArray.append_assoc] at hc
    obtain ⟨c₁, hnumber, hc₁⟩ := hkind c _ hc
    obtain ⟨c₂, hlength, hc₂⟩ := Cursor.reads_unsigned h c₁ _ hc₁
    obtain ⟨c₃, hdata, hc₃⟩ := Cursor.reads_bytes data c₂ _ hc₂
    exact ⟨c₃, except_bind_of_ok hnumber (except_bind_of_ok hlength
      (except_bind_of_ok hdata rfl)), hc₃⟩
  | deflate gzip header params =>
    rw [encode, ByteArray.append_assoc, ByteArray.append_assoc] at hc
    obtain ⟨c₁, hnumber, hc₁⟩ := hkind c _ hc
    obtain ⟨c₂, hheader, hc₂⟩ := reads_member h.1 c₁ _ hc₁
    obtain ⟨c₃, hparams, hc₃⟩ := reads_deflate h.2 c₂ _ hc₂
    refine ⟨c₃, except_bind_of_ok hnumber ?_, hc₃⟩
    cases gzip <;> exact except_bind_of_ok hheader (except_bind_of_ok hparams rfl)
  | lz4 header params =>
    rw [encode, ByteArray.append_assoc, ByteArray.append_assoc] at hc
    obtain ⟨c₁, hnumber, hc₁⟩ := hkind c _ hc
    obtain ⟨c₂, hheader, hc₂⟩ := reads_member h.1 c₁ _ hc₁
    obtain ⟨c₃, hparams, hc₃⟩ := reads_lz4 h.2 c₂ _ hc₂
    exact ⟨c₃, except_bind_of_ok hnumber (except_bind_of_ok hheader
      (except_bind_of_ok hparams rfl)), hc₃⟩

/-! ## Sizes -/

theorem size_encodeWords (ns : List Nat) : (encodeWords ns).size = 8 * ns.length := by
  induction ns with
  | nil => rfl
  | cons n ns ih =>
    rw [encodeWords_cons, ByteArray.size_append, LittleEndian.size_encode, ih, List.length_cons]
    omega

theorem size_encodeFields (ns : List Int) : (encodeFields ns).size = 4 * ns.length := by
  induction ns with
  | nil => rfl
  | cons n ns ih =>
    rw [encodeFields_cons, ByteArray.size_append, Word32.encode, LittleEndian.size_encode, ih,
      List.length_cons]
    omega

/-- One of several numbers is found behind the others. -/
theorem read?_encodeWords (front : List Nat) {back : List Nat} {n start : Nat} {b x y : Bytes}
    (hb : b = x ++ (encodeWords (front ++ n :: back) ++ y))
    (hstart : x.size + 8 * front.length = start) (hn : n < 2 ^ 64) :
    LittleEndian.read? b start 8 = some n := by
  rw [encodeWords_append, encodeWords_cons] at hb
  simp only [ByteArray.append_assoc] at hb
  rw [← ByteArray.append_assoc] at hb
  refine LittleEndian.read?_append hb ?_ hn
  rw [ByteArray.size_append, size_encodeWords, hstart]

end Chunk

end BlockUpdate
