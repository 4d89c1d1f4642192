import BlockUpdate.Proofs.ByteStrings
import BlockUpdate.Codec.Stream
import Mathlib.Data.List.Basic

/-!
# Codecs by samples

A codec that compresses some data to known streams, and stores all other data byte by byte. The
streams are those of a real compressor, so that a statement about every codec can be looked at for
the data in question.

- `Sample.encode`, `Sample.decode`: the codec.
- **`Sample.decode_encode`**: decoding inverts encoding, also with bytes behind the stream.
- `Encoder.encode_ofWhole`: a compressor that gathers its input does not see how it was cut.
-/

namespace BlockUpdate

/-- Data and the stream that it is compressed to. -/
structure Sample where
  data : List UInt8
  stream : List UInt8
  deriving DecidableEq

namespace Sample

/-- Every byte behind a one, and a zero behind the last. -/
def stored (data : List UInt8) : List UInt8 := data.flatMap (fun b => [1, b]) ++ [0]

/-- What is stored at the front of a list. -/
def unstored : List UInt8 → List UInt8
  | 1 :: b :: rest => b :: unstored rest
  | _ => []

/-- The stream of a sample, or the data itself. -/
def encode (samples : List Sample) (data : Bytes) : Bytes :=
  match samples.find? fun s => s.data == data.data.toList with
  | some s => Bytes.ofList s.stream
  | none => Bytes.ofList (stored data.data.toList)

/-- The data whose stream is at the front. -/
def decode (samples : List Sample) (stream : Bytes) : Decoded :=
  match samples.find? fun s => s.stream.isPrefixOf stream.data.toList with
  | some s => ⟨Bytes.ofList s.data, false⟩
  | none => ⟨Bytes.ofList (unstored stream.data.toList), false⟩

/-- No stream is the beginning of another, or of stored data. -/
def Apart (samples : List Sample) : Prop :=
  (∀ s ∈ samples, 2 ≤ s.stream.headD 0) ∧
    ∀ s ∈ samples, ∀ t ∈ samples, s ≠ t → ¬ s.stream <+: t.stream

instance (samples : List Sample) : Decidable (Apart samples) :=
  inferInstanceAs (Decidable (_ ∧ _))

theorem unstored_stored (data rest : List UInt8) : unstored (stored data ++ rest) = data := by
  induction data with
  | nil => rfl
  | cons b data ih => exact congrArg (b :: ·) ih

theorem length_stored (data : List UInt8) : (stored data).length = 2 * data.length + 1 := by
  induction data with
  | nil => rfl
  | cons b data ih =>
    have hcons : stored (b :: data) = 1 :: b :: stored data := rfl
    rw [hcons, List.length_cons, List.length_cons, ih, List.length_cons]
    omega

variable {samples : List Sample}

/-- Only its own stream stands at the front of a stream. -/
theorem Apart.eq_of_prefix (h : Apart samples) {s t : Sample} (hs : s ∈ samples) (ht : t ∈ samples)
    {rest : List UInt8} (hbegins : t.stream <+: s.stream ++ rest) : t = s := by
  by_contra hne
  rcases List.prefix_or_prefix_of_prefix hbegins (List.prefix_append _ _) with hle | hle
  · exact h.2 t ht s hs hne hle
  · exact h.2 s hs t ht (Ne.symm hne) hle

theorem Apart.not_prefix_stored (h : Apart samples) {s : Sample} (hs : s ∈ samples)
    (data rest : List UInt8) : ¬ s.stream <+: stored data ++ rest := by
  rintro ⟨more, hmore⟩
  have hhead := h.1 s hs
  cases hstream : s.stream with
  | nil =>
    rw [hstream] at hhead
    exact absurd hhead (by decide)
  | cons b stream =>
    rw [hstream] at hhead hmore
    cases data with
    | nil =>
      obtain ⟨hb, -⟩ := List.cons.inj (hmore : b :: _ = 0 :: _)
      exact absurd (hb ▸ hhead : (2 : UInt8) ≤ 0) (by decide)
    | cons a data =>
      obtain ⟨hb, -⟩ := List.cons.inj (hmore : b :: _ = 1 :: _)
      exact absurd (hb ▸ hhead : (2 : UInt8) ≤ 1) (by decide)

theorem ofList_toList (b : Bytes) : Bytes.ofList b.data.toList = b := rfl

/-- **Decoding inverts encoding**, whatever stands behind the stream. -/
theorem decode_encode (h : Apart samples) (data rest : Bytes) :
    decode samples (encode samples data ++ rest) = ⟨data, false⟩ := by
  have hlist : ∀ stream : List UInt8,
      (Bytes.ofList stream ++ rest).data.toList = stream ++ rest.data.toList := by
    intro stream
    simp [Bytes.ofList]
  rw [encode]
  cases hfind : samples.find? fun s => s.data == data.data.toList with
  | none =>
    have hnone : (samples.find? fun s =>
        s.stream.isPrefixOf (stored data.data.toList ++ rest.data.toList)) = none := by
      refine List.find?_eq_none.mpr fun s hs => ?_
      rw [List.isPrefixOf_iff_prefix]
      exact h.not_prefix_stored hs _ _
    dsimp only
    rw [decode, hlist, hnone, unstored_stored, ofList_toList]
  | some s =>
    have hs := List.mem_of_find?_eq_some hfind
    have hdata : s.data = data.data.toList := by simpa using List.find?_some hfind
    have hself : s.stream <+: s.stream ++ rest.data.toList := List.prefix_append _ _
    obtain ⟨t, ht⟩ : ∃ t, (samples.find? fun t =>
        t.stream.isPrefixOf (s.stream ++ rest.data.toList)) = some t :=
      Option.isSome_iff_exists.mp (List.find?_isSome.mpr
        ⟨s, hs, List.isPrefixOf_iff_prefix.mpr hself⟩)
    have hbegins := List.find?_some ht
    have hts : t = s := h.eq_of_prefix hs (List.mem_of_find?_eq_some ht)
      (List.isPrefixOf_iff_prefix.mp hbegins)
    dsimp only
    rw [decode, hlist, ht, hts]
    dsimp only
    rw [hdata, ofList_toList]

/-- The size of a stream is that of a sample, or a little more than twice that of the data. -/
theorem size_encode_lt {limit : Nat} {data : Bytes} (h : ∀ s ∈ samples, s.stream.length < limit)
    (hdata : 2 * data.size + 1 < limit) : (encode samples data).size < limit := by
  rw [encode]
  split
  · rename_i s hfind
    exact h s (List.mem_of_find?_eq_some hfind)
  · show (stored data.data.toList).length < limit
    rw [length_stored]
    exact hdata

end Sample

namespace Encoder

/-- **A compressor that gathers its input** does not see how it was cut. -/
theorem encode_ofWhole (compress : Bytes → Bytes) (pieces : List Bytes) :
    (ofWhole compress).encode pieces = compress (Bytes.join pieces) := by
  have hall : ∀ (pieces : List Bytes) (front : Bytes),
      (ofWhole compress).writeAll pieces front ByteArray.empty =
        (front ++ Bytes.join pieces, ByteArray.empty) := by
    intro pieces
    induction pieces with
    | nil =>
      intro front
      rw [Bytes.join_nil, ByteArray.append_empty]
      rfl
    | cons piece rest ih =>
      intro front
      rw [Bytes.join_cons, ← ByteArray.append_assoc]
      exact ih (front ++ piece)
  have hwhole : (ofWhole compress).writeAll pieces (ofWhole compress).start ByteArray.empty =
      (Bytes.join pieces, ByteArray.empty) := by
    have := hall pieces ByteArray.empty
    rwa [ByteArray.empty_append] at this
  rw [encode, hwhole]
  exact ByteArray.empty_append

end Encoder

end BlockUpdate
