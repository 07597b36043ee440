/-
Self-delimiting frames in a stream.

A `Framing` says how frames are written (`bytes`), what a reader makes of each (`out`)
and how the frame at the front of a buffer is recognised (`next`), the law being that
`next` finds exactly what was written.  `drain` takes frames off a buffer while it can;
`feedAll` does so after every chunk that is appended.  `drain_frames` and
`exists_frames` say what draining returns, and `feedAll_eq` that it does not matter how a
stream is cut into chunks.
-/
import Mathlib.Data.List.Basic

structure Framing (A F P : Type*) where
  bytes : F → List A
  out : F → P
  next : List A → Option (P × List A)
  next_eq_some : ∀ {buf : List A} {p : P} {rest : List A},
    next buf = some (p, rest) ↔ ∃ f, p = out f ∧ buf = bytes f ++ rest
  bytes_ne_nil : ∀ f, bytes f ≠ []

namespace Framing

variable {A F P : Type*} (d : Framing A F P)

/-- What is left when a frame is taken off is shorter. -/
theorem shrink {buf rest : List A} {p : P} (h : d.next buf = some (p, rest)) :
    rest.length < buf.length := by
  obtain ⟨f, -, rfl⟩ := d.next_eq_some.mp h
  have := List.length_pos_of_ne_nil (d.bytes_ne_nil f)
  rw [List.length_append]
  omega

/-- Take frames off the buffer as long as there is a complete one. -/
def drain (buf : List A) : List P × List A :=
  match h : d.next buf with
  | none => ([], buf)
  | some (p, rest) =>
    have := d.shrink h
    let drained := drain rest
    (p :: drained.1, drained.2)
termination_by buf.length

theorem drain_none {buf : List A} (h : d.next buf = none) : d.drain buf = ([], buf) := by
  rw [drain]
  split
  · rfl
  · next heq => rw [h] at heq; cases heq

theorem drain_some {buf rest : List A} {p : P} (h : d.next buf = some (p, rest)) :
    d.drain buf = (p :: (d.drain rest).1, (d.drain rest).2) := by
  rw [drain]
  split
  · next heq => rw [h] at heq; cases heq
  · next heq =>
    rw [h] at heq
    cases heq
    rfl

/-- The bytes of several frames. -/
def stream (frames : List F) : List A := frames.flatMap d.bytes

theorem stream_append (fs gs : List F) : d.stream (fs ++ gs) = d.stream fs ++ d.stream gs :=
  List.flatMap_append

/-- Draining takes off all frames in front of an incomplete one. -/
theorem drain_frames {rest : List A} (hrest : d.next rest = none) (frames : List F) :
    d.drain (d.stream frames ++ rest) = (frames.map d.out, rest) := by
  induction frames with
  | nil => exact d.drain_none hrest
  | cons f frames ih =>
    have hnext : d.next (d.bytes f ++ (d.stream frames ++ rest)) =
        some (d.out f, d.stream frames ++ rest) := d.next_eq_some.mpr ⟨f, rfl, rfl⟩
    rw [stream, List.flatMap_cons, List.append_assoc]
    show d.drain (d.bytes f ++ (d.stream frames ++ rest)) = _
    rw [d.drain_some hnext, ih]
    rfl

/-- Every buffer is a sequence of frames and an incomplete rest, and that is what
draining returns. -/
theorem exists_frames (buf : List A) : ∃ frames rest, buf = d.stream frames ++ rest ∧
    d.next rest = none ∧ d.drain buf = (frames.map d.out, rest) := by
  induction hlen : buf.length using Nat.strongRecOn generalizing buf with
  | _ n ih =>
    cases h : d.next buf with
    | none => exact ⟨[], buf, rfl, h, d.drain_none h⟩
    | some taken =>
      obtain ⟨p, rest⟩ := taken
      obtain ⟨frames, rest', hbuf, hnone, hdrain⟩ := ih rest.length (hlen ▸ d.shrink h) rest rfl
      obtain ⟨f, rfl, heq⟩ := d.next_eq_some.mp h
      refine ⟨f :: frames, rest', ?_, hnone, ?_⟩
      · rw [heq, hbuf, stream, stream, List.flatMap_cons, List.append_assoc]
      · rw [d.drain_some h, hdrain]
        rfl

/-- A drained buffer holds no complete frame. -/
theorem next_drain (buf : List A) : d.next (d.drain buf).2 = none := by
  obtain ⟨frames, rest, -, hnone, hdrain⟩ := d.exists_frames buf
  rw [hdrain]
  exact hnone

/-- Draining can be interrupted: nothing is lost by draining before more arrives. -/
theorem drain_append (buf more : List A) :
    d.drain (buf ++ more) = ((d.drain buf).1 ++ (d.drain ((d.drain buf).2 ++ more)).1,
      (d.drain ((d.drain buf).2 ++ more)).2) := by
  obtain ⟨frames, rest, hbuf, -, hdrain⟩ := d.exists_frames buf
  obtain ⟨frames', rest', hmore, hnone', hdrain'⟩ := d.exists_frames (rest ++ more)
  rw [hdrain, hdrain']
  have hall : buf ++ more = d.stream (frames ++ frames') ++ rest' := by
    rw [hbuf, List.append_assoc, hmore, stream_append, List.append_assoc]
  rw [hall, d.drain_frames hnone', List.map_append]

/-- What is read is one of the frames of the buffer. -/
theorem mem_drain {buf : List A} {p : P} : p ∈ (d.drain buf).1 ↔
    ∃ frames f rest, buf = d.stream (frames ++ [f]) ++ rest ∧ p = d.out f := by
  constructor
  · intro hp
    obtain ⟨frames, rest, hbuf, -, hdrain⟩ := d.exists_frames buf
    rw [hdrain] at hp
    obtain ⟨f, hf, rfl⟩ := List.mem_map.mp hp
    obtain ⟨before, after, rfl⟩ := List.append_of_mem hf
    refine ⟨before, f, d.stream after ++ rest, ?_, rfl⟩
    rw [hbuf, List.append_cons, stream_append, List.append_assoc]
  · rintro ⟨frames, f, rest, rfl, rfl⟩
    obtain ⟨frames', rest', hrest, hnone, -⟩ := d.exists_frames rest
    rw [hrest, ← List.append_assoc, ← stream_append, d.drain_frames hnone]
    exact List.mem_map_of_mem (by simp)

/-! ### Chunks -/

/-- Append chunk after chunk to the buffer, draining it after each. -/
def feedAll : List A → List (List A) → List P × List A
  | buf, [] => ([], buf)
  | buf, chunk :: chunks =>
    let drained := d.drain (buf ++ chunk)
    let rest := feedAll drained.2 chunks
    (drained.1 ++ rest.1, rest.2)

/-- Reading in chunks reads what reading at once does. -/
theorem feedAll_eq {buf : List A} (hbuf : d.next buf = none) (chunks : List (List A)) :
    d.feedAll buf chunks = d.drain (buf ++ chunks.flatten) := by
  induction chunks generalizing buf with
  | nil =>
    rw [List.flatten_nil, List.append_nil, d.drain_none hbuf]
    rfl
  | cons chunk chunks ih =>
    rw [List.flatten_cons, ← List.append_assoc, d.drain_append, feedAll, ih (d.next_drain _)]

end Framing
