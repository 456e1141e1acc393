import Zmux.Proofs.FrameEncoding
import Zmux.Proofs.Payloads

/-! Encoding what was decoded writes every integer in its shortest form and changes nothing else. -/

namespace Zmux

open Wire

variable {enabled : Gates} {limit : Option Nat} {f : Frame} {fs : List Frame}
  {window left : Bytes}

/-- A frame stays where it is when its integers are shortened and what follows it is replaced. -/
theorem FrameAt.shorten {other : Bytes} (placed : FrameAt enabled limit f window left)
    (head : other.head? = some 0 → left.head? = some 0) (ended : left = [] → other = []) :
    FrameAt enabled limit f (f.layout.short varintFormat ++ other) other := by
  -- What makes a frame end where it does is kept by the rest that replaces the old one.
  obtain ⟨widths, reads⟩ := placed.spelled
  obtain ⟨fits, shorter⟩ := reads_short reads
  refine ⟨placed.decoded, Layout.starts_short fits other, ?_, ?_, placed.allowed, ?_⟩
  · intro unnamed zero
    exact placed.maximal unnamed (head zero)
  · intro runs
    exact ended (placed.ended runs)
  · -- A datagram gets no longer, so it stays within the limit.
    intro datagram most within
    have bound := placed.sized datagram most within
    rw [List.length_append]
    omega

/-- A payload stays a sequence of the same frames when its integers are shortened. -/
theorem FramesAt.shorten (placed : FramesAt enabled limit fs window) :
    FramesAt enabled limit fs ((framesLayout fs).short varintFormat) := by
  -- The payload behind a frame begins with padding, or is empty, as it did before.
  induction placed with
  | nil => exact .nil
  | @cons f fs window left first others ih =>
    rw [framesLayout, Layout.short_append]
    refine .cons (first.shorten ?_ ?_) ih
    · intro zero
      exact others.head_iff.mpr (ih.head_iff.mp zero)
    · intro empty
      subst empty
      rw [FramesAt.nil_iff.mp others]
      rfl

/--
Encoding the frames of a payload normalises it.

The result is no longer, decodes to the same frames under the same gates and limit, and is encoded as itself.
It is the payload exactly when the payload has every one of its integers in the shortest form.
The integers of a payload and their widths are determined by the payload.
-/
theorem encodeFrames_normalises (decoded : decodeFrames window enabled limit = .ok fs) :
    ∃ shorter widths, encodeFrames fs = .ok shorter ∧ shorter.length ≤ window.length ∧
      decodeFrames shorter enabled limit = .ok fs ∧
      (decodeFrames shorter enabled limit >>= encodeFrames) = .ok shorter ∧
      Reads varintFormat (framesLayout fs) widths window [] ∧
      (∀ others, Reads varintFormat (framesLayout fs) others window [] → others = widths) ∧
      (shorter = window ↔ Shortest varintFormat widths) := by
  -- Both payloads spell the same layout, the encoded one with every integer shortest.
  have placed := decodeFrames_eq_ok.mp decoded
  obtain ⟨widths, reads⟩ := placed.starts
  obtain ⟨fits, bound⟩ := reads_short reads
  have encoded := encodeFrames_eq_ok placed.decoded fits
  have again := decodeFrames_eq_ok.mpr placed.shorten
  refine ⟨_, widths, encoded, by simpa using bound, again, ?_, reads, ?_, reads_eq_short_iff reads⟩
  · rw [again, ok_bind, encoded]
  · intro others spelled
    exact (reads_unique spelled reads).1

/-- A limit written in two bytes is normalised to one. -/
theorem encodeFrames_normalises_wide :
    ∃ shorter widths, encodeFrames [.maxData 5] = .ok shorter ∧
      shorter.length ≤ [(0x10 : UInt8), 0x40, 0x05].length ∧
      decodeFrames shorter = .ok [.maxData 5] ∧
      (decodeFrames shorter >>= encodeFrames) = .ok shorter ∧
      Reads varintFormat (framesLayout [.maxData 5]) widths [0x10, 0x40, 0x05] [] ∧
      (∀ others, Reads varintFormat (framesLayout [.maxData 5]) others [0x10, 0x40, 0x05] [] →
        others = widths) ∧
      (shorter = [0x10, 0x40, 0x05] ↔ Shortest varintFormat widths) :=
  encodeFrames_normalises (by decide +kernel)

end Zmux
